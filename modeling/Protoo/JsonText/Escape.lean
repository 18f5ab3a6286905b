import Protoo.JsonText.Encoding

/-!
# Strings in the text

`dump_escaped` copies a string to the output, byte by byte, through a buffer of 512 bytes
that is written out when less than 13 bytes are left in it.  The automaton of `decode`
runs along: a character is escaped when its last byte has been read, and a byte that no
encoding has there is an exception.

The error handler is `strict`, the default, and the only one the program uses; the two
counters that only the other handlers read are left out.
-/

namespace Protoo.JsonText

/-! ## The function -/

def hexDigit (n : ℕ) : Char := "0123456789abcdef".toList.getD n '0'

/-- `%04x` of a 16-bit number. -/
def hex4 (n : ℕ) : List Char :=
  [hexDigit (n / 4096 % 16), hexDigit (n / 256 % 16), hexDigit (n / 16 % 16), hexDigit (n % 16)]

/-- `hex_bytes` -/
def hexBytes (byte : ℕ) : String :=
  String.ofList [("0123456789ABCDEF".toList.getD (byte / 16) '0'),
    ("0123456789ABCDEF".toList.getD (byte % 16) '0')]

/-- What an iteration puts into the buffer; `snprintf` also puts a null byte behind it. -/
structure Emission where
  text : List Char
  terminated : Bool

/-- The number of bytes of the buffer that are written. -/
def Emission.size (e : Emission) : ℕ := e.text.length + e.terminated.toNat

def unicodeEscape (n : ℕ) : List Char := '\\' :: 'u' :: hex4 n

/-- The `switch` over a complete code point, whose last byte is `byte`. -/
def emission (ensureAscii : Bool) (codepoint : ℕ) (byte : Char) : Emission :=
  match codepoint with
  | 0x08 => ⟨['\\', 'b'], false⟩
  | 0x09 => ⟨['\\', 't'], false⟩
  | 0x0A => ⟨['\\', 'n'], false⟩
  | 0x0C => ⟨['\\', 'f'], false⟩
  | 0x0D => ⟨['\\', 'r'], false⟩
  | 0x22 => ⟨['\\', '"'], false⟩
  | 0x5C => ⟨['\\', '\\'], false⟩
  | _ =>
      if codepoint ≤ 0x1F ∨ ensureAscii = true ∧ 0x7F ≤ codepoint then
        if codepoint ≤ 0xFFFF then ⟨unicodeEscape codepoint, true⟩
        else
          ⟨unicodeEscape (0xD7C0 + (codepoint >>> 10)) ++
            unicodeEscape (0xDC00 + (codepoint &&& 0x3FF)), true⟩
      else ⟨[byte], false⟩

/-- The local variables of `dump_escaped`, with the first `bytes` bytes of the buffer and
what has been written to the output. -/
structure Escaper where
  state : ℕ
  codepoint : ℕ
  buffer : List Char
  written : List Char

def Escaper.start : Escaper := ⟨0, 0, [], []⟩

/-- What the iteration puts into the buffer. -/
def Escaper.emits (ensureAscii : Bool) (e : Escaper) (byte : Char) : Emission :=
  let (state, codepoint) := decode e.state e.codepoint byte.toNat
  if state = 0 then emission ensureAscii codepoint byte
  else if state = 1 ∨ ensureAscii = true then ⟨[], false⟩
  else ⟨[byte], false⟩

def invalidByte (i : ℕ) (byte : Char) : Exception :=
  .typeError 316 ("invalid UTF-8 byte at index " ++ toString i ++ ": 0x" ++ hexBytes byte.toNat)

def incomplete (last : Char) : Exception :=
  .typeError 316 ("incomplete UTF-8 string; last byte: 0x" ++ hexBytes last.toNat)

/-- An iteration of the loop. -/
def Escaper.step (ensureAscii : Bool) (i : ℕ) (e : Escaper) (byte : Char) :
    Except Exception Escaper :=
  let (state, codepoint) := decode e.state e.codepoint byte.toNat
  let buffer := e.buffer ++ (e.emits ensureAscii byte).text
  if state = 0 then
    if 512 - buffer.length < 13 then .ok ⟨state, codepoint, [], e.written ++ buffer⟩
    else .ok ⟨state, codepoint, buffer, e.written⟩
  else if state = 1 then .error (invalidByte i byte)
  else .ok ⟨state, codepoint, buffer, e.written⟩

/-- The loop from index `i` on. -/
def Escaper.run (ensureAscii : Bool) (i : ℕ) (e : Escaper) : List Char → Except Exception Escaper
  | [] => .ok e
  | byte :: bytes => do
      let e ← e.step ensureAscii i byte
      e.run ensureAscii (i + 1) bytes

/-- `dump_escaped` -/
def dumpEscaped (ensureAscii : Bool) (s : List Char) : Except Exception (List Char) := do
  let e ← Escaper.start.run ensureAscii 0 s
  if e.state = 0 then .ok (e.written ++ e.buffer)
  else .error (incomplete (s.getLastD '\x00'))

/-! ## What is written for a character -/

/-- The text of a character. -/
def escaped (ensureAscii : Bool) (c : Char) : List Char :=
  match c.toNat with
  | 0x08 => ['\\', 'b']
  | 0x09 => ['\\', 't']
  | 0x0A => ['\\', 'n']
  | 0x0C => ['\\', 'f']
  | 0x0D => ['\\', 'r']
  | 0x22 => ['\\', '"']
  | 0x5C => ['\\', '\\']
  | n =>
      if n ≤ 0x1F ∨ ensureAscii = true ∧ 0x7F ≤ n then
        if n ≤ 0xFFFF then unicodeEscape n
        else unicodeEscape (0xD7C0 + (n >>> 10)) ++ unicodeEscape (0xDC00 + (n &&& 0x3FF))
      else utf8Chars c

theorem emission_above (ensureAscii : Bool) {codepoint : ℕ} (h : 0x7F < codepoint) (byte : Char) :
    emission ensureAscii codepoint byte =
      if ensureAscii = true then
        if codepoint ≤ 0xFFFF then ⟨unicodeEscape codepoint, true⟩
        else
          ⟨unicodeEscape (0xD7C0 + (codepoint >>> 10)) ++
            unicodeEscape (0xDC00 + (codepoint &&& 0x3FF)), true⟩
      else ⟨[byte], false⟩ := by
  have hcontrol : ¬ codepoint ≤ 0x1F := by omega
  have hge : 0x7F ≤ codepoint := by omega
  unfold emission
  split <;> first | omega | simp only [hcontrol, hge, false_or, and_true]

theorem escaped_above (ensureAscii : Bool) {c : Char} (h : 0x7F < c.toNat) :
    escaped ensureAscii c =
      if ensureAscii = true then
        if c.toNat ≤ 0xFFFF then unicodeEscape c.toNat
        else unicodeEscape (0xD7C0 + (c.toNat >>> 10)) ++
          unicodeEscape (0xDC00 + (c.toNat &&& 0x3FF))
      else utf8Chars c := by
  have hcontrol : ¬ c.toNat ≤ 0x1F := by omega
  have hge : 0x7F ≤ c.toNat := by omega
  unfold escaped
  split <;> first | omega | simp only [hcontrol, hge, false_or, and_true]

theorem utf8Chars_one {c : Char} (h : c.toNat ≤ 0x7F) : utf8Chars c = [c] := by
  rw [utf8Chars, utf8Bytes_one h, List.map_singleton, Char.ofNat_toNat]

/-- A character of one byte is escaped by the `switch` alone. -/
theorem emission_text_ascii (ensureAscii : Bool) {c : Char} (h : c.toNat ≤ 0x7F) :
    (emission ensureAscii c.toNat c).text = escaped ensureAscii c := by
  unfold emission escaped
  rw [utf8Chars_one h]
  split <;> first | rfl | (split <;> first | rfl | (split <;> rfl))

/-! ## The loop over a character -/

/-- Everything put out so far. -/
def Escaper.output (e : Escaper) : List Char := e.written ++ e.buffer

/-- The decoder of the loop is in the given state. -/
structure Escaper.At (p : Utf8State × ℕ) (e : Escaper) : Prop where
  state : e.state = p.1.number
  codepoint : e.codepoint = p.2

namespace Escaper

variable {p : Utf8State × ℕ} {e : Escaper} {byte : Char} (ensureAscii : Bool) (i : ℕ)

theorem decode_of_at (h : e.At p) (hbyte : p.1.decode byte.toNat ≠ .reject) :
    decode e.state e.codepoint byte.toNat =
      ((Utf8State.advance p byte.toNat).1.number, (Utf8State.advance p byte.toNat).2) := by
  rw [h.state, h.codepoint, Utf8State.decode_number hbyte]

/-- The byte ends a character. -/
theorem step_accept (h : e.At p) {codepoint : ℕ}
    (hbyte : Utf8State.advance p byte.toNat = (.accept, codepoint)) :
    ∃ next, e.step ensureAscii i byte = .ok next ∧ next.state = 0 ∧
      next.output = e.output ++ (emission ensureAscii codepoint byte).text := by
  have hstate : p.1.decode byte.toNat = .accept := congrArg Prod.fst hbyte
  have hdecode := decode_of_at h (by rw [hstate]; decide)
  rw [hbyte] at hdecode
  have hemits : e.emits ensureAscii byte = emission ensureAscii codepoint byte := by
    simp [emits, hdecode, Utf8State.number]
  simp only [step, hdecode, hemits, Utf8State.number, ↓reduceIte]
  split
  · exact ⟨_, rfl, rfl, by simp [output]⟩
  · exact ⟨_, rfl, rfl, by simp [output]⟩

theorem number_eq_one_iff {state : Utf8State} : state.number = 1 ↔ state = .reject := by
  cases state <;> decide

theorem number_eq_zero_iff {state : Utf8State} : state.number = 0 ↔ state = .accept := by
  cases state <;> decide

/-- The byte belongs to a character that goes on. -/
theorem step_pending (h : e.At p)
    (haccept : (Utf8State.advance p byte.toNat).1 ≠ .accept)
    (hreject : (Utf8State.advance p byte.toNat).1 ≠ .reject) :
    ∃ next, e.step ensureAscii i byte = .ok next ∧
      next.At (Utf8State.advance p byte.toNat) ∧
      next.output = e.output ++ (if ensureAscii = true then [] else [byte]) := by
  have hdecode := decode_of_at h hreject
  have hzero := mt number_eq_zero_iff.mp haccept
  have hone := mt number_eq_one_iff.mp hreject
  have hemits : (e.emits ensureAscii byte).text = if ensureAscii = true then [] else [byte] := by
    simp only [emits, hdecode, hzero, hone, ↓reduceIte, false_or]
    split <;> rfl
  refine ⟨_, by simp only [step, hdecode, hzero, hone, ↓reduceIte, hemits]; rfl, ⟨rfl, rfl⟩, ?_⟩
  simp [output]

/-- No encoding has the byte there. -/
theorem step_reject (h : e.At p) (hbyte : p.1.decode byte.toNat = .reject) :
    e.step ensureAscii i byte = .error (invalidByte i byte) := by
  have hfst : (decode e.state e.codepoint byte.toNat).1 = 1 := by
    rw [h.state, h.codepoint, Utf8State.decode_number_fst, hbyte]
    rfl
  simp [step, hfst]

variable {ensureAscii i}

theorem run_cons_ok {next : Escaper} {bytes : List Char}
    (h : e.step ensureAscii i byte = .ok next) :
    e.run ensureAscii i (byte :: bytes) = next.run ensureAscii (i + 1) bytes := by
  rw [run, h]
  rfl

theorem run_cons_error {error : Exception} {bytes : List Char}
    (h : e.step ensureAscii i byte = .error error) :
    e.run ensureAscii i (byte :: bytes) = .error error := by
  rw [run, h]
  rfl

variable (ensureAscii i)

/-- The bytes of a character before the last. -/
theorem run_pending {q : Utf8State × ℕ} {before : List ℕ} (hpending : Utf8State.Pending p before q)
    (hbytes : ∀ b ∈ before, b < 256) (h : e.At p) (rest : List Char) :
    ∃ next : Escaper, e.run ensureAscii i (before.map Char.ofNat ++ rest) =
        next.run ensureAscii (i + before.length) rest ∧ next.At q ∧
      next.output = e.output ++ (if ensureAscii = true then [] else before.map Char.ofNat) := by
  induction hpending generalizing e i with
  | nil p =>
      refine ⟨e, rfl, h, ?_⟩
      simp
  | @cons p q byte bytes haccept hreject hrest ih =>
      have hbyte : (Char.ofNat byte).toNat = byte := toNat_ofNat_byte (hbytes byte (by simp))
      rw [← hbyte] at haccept hreject ih
      obtain ⟨mid, hstep, hat, houtput⟩ :=
        step_pending ensureAscii i h haccept hreject
      obtain ⟨next, hrun, hnext, hout⟩ :=
        ih (i + 1) (fun b hb => hbytes b (List.mem_cons_of_mem _ hb)) hat
      refine ⟨next, ?_, hnext, ?_⟩
      · rw [List.map_cons, List.cons_append, run_cons_ok hstep, hrun, List.length_cons]
        congr 1
        omega
      · rw [hout, houtput]
        split <;> simp

theorem start_state : start.state = Utf8State.accept.number := rfl

theorem at_accept (h : e.state = 0) : e.At (.accept, e.codepoint) := ⟨h, rfl⟩

/-- A character in full. -/
theorem run_char (h : e.state = 0) (c : Char) (rest : List Char) :
    ∃ next : Escaper, e.run ensureAscii i (utf8Chars c ++ rest) =
        next.run ensureAscii (i + (utf8Chars c).length) rest ∧ next.state = 0 ∧
      next.output = e.output ++ escaped ensureAscii c := by
  by_cases hascii : c.toNat ≤ 0x7F
  · have hadvance : Utf8State.advance (.accept, e.codepoint) c.toNat = (.accept, c.toNat) := by
      rw [Utf8State.advance_first (Utf8State.first_of_le hascii), Utf8State.leadBits,
        if_pos hascii]
    obtain ⟨next, hstep, hstate, houtput⟩ := step_accept ensureAscii i (at_accept h) hadvance
    refine ⟨next, ?_, hstate, ?_⟩
    · rw [utf8Chars_one hascii]
      exact run_cons_ok hstep
    · rw [houtput, emission_text_ascii ensureAscii hascii]
  · obtain ⟨before, last, hcompletes⟩ :=
      Utf8State.exists_completes (by omega : 0x7F < c.toNat)
    obtain ⟨p, hpending, -, hlast⟩ := hcompletes.pending e.codepoint
    have hlt : ∀ b ∈ before ++ [last], b < 256 := by
      intro b hb
      rw [← hcompletes.bytes] at hb
      exact utf8Bytes_lt hb
    have hbytes : utf8Chars c = before.map Char.ofNat ++ [Char.ofNat last] := by
      rw [utf8Chars, hcompletes.bytes, List.map_append, List.map_singleton]
    have hlastByte : (Char.ofNat last).toNat = last := toNat_ofNat_byte (hlt last (by simp))
    rw [← hlastByte] at hlast
    obtain ⟨mid, hrun, hat, hmid⟩ := run_pending ensureAscii i hpending
      (fun b hb => hlt b (by simp [hb])) (at_accept h) (Char.ofNat last :: rest)
    obtain ⟨next, hstep, hstate, houtput⟩ :=
      step_accept ensureAscii (i + before.length) hat hlast
    refine ⟨next, ?_, hstate, ?_⟩
    · rw [hbytes, List.append_assoc, List.singleton_append, hrun, run_cons_ok hstep]
      simp [Nat.add_assoc]
    · rw [houtput, hmid, emission_above ensureAscii (by omega),
        escaped_above ensureAscii (by omega)]
      cases ensureAscii with
      | true =>
          simp only [↓reduceIte, List.append_nil]
          split <;> rfl
      | false => simp [hbytes]

/-- A sequence of characters. -/
theorem run_chars (h : e.state = 0) (cs : List Char) :
    ∃ next, e.run ensureAscii i (cs.flatMap utf8Chars) = .ok next ∧ next.state = 0 ∧
      next.output = e.output ++ cs.flatMap (escaped ensureAscii) := by
  induction cs generalizing e i with
  | nil => exact ⟨e, rfl, h, by simp⟩
  | cons c cs ih =>
      obtain ⟨mid, hrun, hstate, hmid⟩ := run_char ensureAscii i h c (cs.flatMap utf8Chars)
      obtain ⟨next, hrest, hnext, houtput⟩ := ih (i + (utf8Chars c).length) hstate
      refine ⟨next, ?_, hnext, ?_⟩
      · rw [List.flatMap_cons, hrun, hrest]
      · rw [houtput, hmid, List.flatMap_cons, List.append_assoc]

/-! ## The loop over any bytes -/

/-- The loop goes on as long as the automaton does not reject. -/
theorem run_append {state : Utf8State} (h : e.state = state.number) (before : List Char)
    (hrun : state.run (before.map Char.toNat) ≠ .reject) :
    ∃ mid : Escaper, mid.state = (state.run (before.map Char.toNat)).number ∧
      ∀ rest, e.run ensureAscii i (before ++ rest) =
        mid.run ensureAscii (i + before.length) rest := by
  induction before generalizing e i state with
  | nil => exact ⟨e, h, fun rest => rfl⟩
  | cons byte before ih =>
      have hat : e.At (state, e.codepoint) := ⟨h, rfl⟩
      have hreject : state.decode byte.toNat ≠ .reject := by
        intro hreject
        rw [List.map_cons, Utf8State.run_cons, hreject, Utf8State.run_reject] at hrun
        exact hrun rfl
      obtain ⟨mid, hstep, hmid⟩ : ∃ mid, e.step ensureAscii i byte = .ok mid ∧
          mid.state = (state.decode byte.toNat).number := by
        by_cases haccept : state.decode byte.toNat = .accept
        · have hadvance : Utf8State.advance (state, e.codepoint) byte.toNat =
              (.accept, (Utf8State.advance (state, e.codepoint) byte.toNat).2) :=
            Prod.ext haccept rfl
          obtain ⟨mid, hstep, hstate, -⟩ := step_accept ensureAscii i hat hadvance
          exact ⟨mid, hstep, by rw [hstate, haccept]; rfl⟩
        · obtain ⟨mid, hstep, hmid, -⟩ := step_pending ensureAscii i hat haccept hreject
          exact ⟨mid, hstep, hmid.state⟩
      obtain ⟨last, hlast, hrest⟩ := ih (i + 1) hmid hrun
      refine ⟨last, hlast, fun rest => ?_⟩
      rw [List.cons_append, run_cons_ok hstep, hrest, List.length_cons]
      congr 1
      omega

end Escaper

/-! ## What `dump_escaped` does -/

/-- The bytes begin a valid string. -/
def BeginsUtf8 (bytes : List Char) : Prop :=
  ∃ more, Utf8State.accept.run ((bytes ++ more).map Char.toNat) = .accept

/-- Bytes that end a character in each state. -/
def completion : Utf8State → List Char
  | .beforeLast => ['\x80']
  | .beforeTwo => ['\x80', '\x80']
  | .afterE0 => ['\xA0', '\x80']
  | .afterED => ['\x80', '\x80']
  | .afterF0 => ['\x90', '\x80', '\x80']
  | .beforeThree => ['\x80', '\x80', '\x80']
  | .afterF4 => ['\x80', '\x80', '\x80']
  | _ => []

theorem beginsUtf8_iff (bytes : List Char) :
    BeginsUtf8 bytes ↔ Utf8State.accept.run (bytes.map Char.toNat) ≠ .reject := by
  constructor
  · rintro ⟨more, hmore⟩ hreject
    rw [List.map_append, Utf8State.run_append, hreject, Utf8State.run_reject] at hmore
    exact nomatch hmore
  · intro h
    refine ⟨completion (Utf8State.accept.run (bytes.map Char.toNat)), ?_⟩
    rw [List.map_append, Utf8State.run_append]
    generalize Utf8State.accept.run (bytes.map Char.toNat) = state at h ⊢
    cases state <;> first | rfl | exact absurd rfl h

variable {ensureAscii : Bool} {bytes : List Char}

/-- A valid string is written character by character. -/
theorem dumpEscaped_chars (ensureAscii : Bool) (cs : List Char) :
    dumpEscaped ensureAscii (cs.flatMap utf8Chars) = .ok (cs.flatMap (escaped ensureAscii)) := by
  obtain ⟨next, hrun, hstate, houtput⟩ :=
    Escaper.run_chars ensureAscii 0 (e := Escaper.start) rfl cs
  rw [dumpEscaped, hrun, except_ok_bind, if_pos hstate]
  exact congrArg Except.ok houtput

/-- The first byte with which no valid string begins is reported with its index. -/
theorem dumpEscaped_invalid {before after : List Char} {byte : Char}
    (hbefore : BeginsUtf8 before) (hbyte : ¬ BeginsUtf8 (before ++ [byte])) :
    dumpEscaped ensureAscii (before ++ byte :: after) =
      .error (invalidByte before.length byte) := by
  rw [beginsUtf8_iff] at hbefore hbyte
  obtain ⟨mid, hmid, hrun⟩ :=
    Escaper.run_append ensureAscii 0 Escaper.start_state before hbefore
  have hreject : (Utf8State.accept.run (before.map Char.toNat)).decode byte.toNat = .reject := by
    rw [List.map_append, Utf8State.run_append] at hbyte
    exact not_not.mp hbyte
  have hstep := Escaper.step_reject ensureAscii (0 + before.length)
    (p := (Utf8State.accept.run (before.map Char.toNat), mid.codepoint)) ⟨hmid, rfl⟩ hreject
  rw [dumpEscaped, hrun, Escaper.run_cons_error hstep, Nat.zero_add]
  rfl

/-- A string that ends inside a character is reported with its last byte. -/
theorem dumpEscaped_incomplete (hbytes : BeginsUtf8 bytes)
    (hvalid : Utf8State.accept.run (bytes.map Char.toNat) ≠ .accept) :
    dumpEscaped ensureAscii bytes = .error (incomplete (bytes.getLastD '\x00')) := by
  rw [beginsUtf8_iff] at hbytes
  obtain ⟨mid, hmid, hrun⟩ :=
    Escaper.run_append ensureAscii 0 Escaper.start_state bytes hbytes
  have hend : Escaper.start.run ensureAscii 0 bytes = .ok mid := by
    have := hrun []
    rwa [List.append_nil] at this
  have hne : mid.state ≠ 0 := by
    rw [hmid]
    exact Utf8State.number_ne_zero hvalid
  rw [dumpEscaped, hend, except_ok_bind, if_neg hne]

/-- A string that no valid string begins with has a first byte where that is so. -/
theorem exists_first_invalid (h : ¬ BeginsUtf8 bytes) :
    ∃ before byte after, bytes = before ++ byte :: after ∧ BeginsUtf8 before ∧
      ¬ BeginsUtf8 (before ++ [byte]) := by
  induction bytes using List.reverseRecOn with
  | nil => exact absurd ⟨[], rfl⟩ h
  | append_singleton bytes byte ih =>
      by_cases hbytes : BeginsUtf8 bytes
      · exact ⟨bytes, byte, [], rfl, hbytes, h⟩
      · obtain ⟨before, first, after, rfl, hbefore, hfirst⟩ := ih hbytes
        exact ⟨before, first, after ++ [byte], by simp, hbefore, hfirst⟩

/-- `dump_escaped` throws nothing exactly for a valid string. -/
theorem dumpEscaped_ok_iff (ensureAscii : Bool) (s : String) :
    (∃ text, dumpEscaped ensureAscii s.toList = .ok text) ↔ isUtf8 s = true := by
  constructor
  · rintro ⟨text, htext⟩
    rw [isUtf8_eq_run, decide_eq_true_iff]
    by_contra hvalid
    by_cases hbegins : BeginsUtf8 s.toList
    · rw [dumpEscaped_incomplete hbegins hvalid] at htext
      exact nomatch htext
    · obtain ⟨before, byte, after, hsplit, hbefore, hbyte⟩ := exists_first_invalid hbegins
      rw [hsplit, dumpEscaped_invalid hbefore hbyte] at htext
      exact nomatch htext
  · intro h
    obtain ⟨cs, hcs⟩ := (isUtf8_iff_exists_chars s).mp h
    exact ⟨_, by rw [hcs]; exact dumpEscaped_chars ensureAscii cs⟩

/-- What `dump_escaped` does with any bytes: it writes the characters they encode, or it
throws for the first byte that no valid string has there, or for the last one. -/
theorem dumpEscaped_cases (ensureAscii : Bool) (bytes : List Char) :
    (∃ cs : List Char, bytes = cs.flatMap utf8Chars ∧
      dumpEscaped ensureAscii bytes = .ok (cs.flatMap (escaped ensureAscii))) ∨
    (∃ before byte after, bytes = before ++ byte :: after ∧ BeginsUtf8 before ∧
      ¬ BeginsUtf8 (before ++ [byte]) ∧
      dumpEscaped ensureAscii bytes = .error (invalidByte before.length byte)) ∨
    (BeginsUtf8 bytes ∧ (¬ ∃ cs : List Char, bytes = cs.flatMap utf8Chars) ∧
      dumpEscaped ensureAscii bytes = .error (incomplete (bytes.getLastD '\x00'))) := by
  have hchars : Utf8State.accept.run (bytes.map Char.toNat) = .accept ↔
      ∃ cs : List Char, bytes = cs.flatMap utf8Chars := by
    have hvalid := isUtf8_iff_exists_chars (String.ofList bytes)
    rwa [isUtf8_eq_run, decide_eq_true_iff, String.toList_ofList] at hvalid
  by_cases hbegins : BeginsUtf8 bytes
  · by_cases hvalid : Utf8State.accept.run (bytes.map Char.toNat) = .accept
    · obtain ⟨cs, rfl⟩ := hchars.mp hvalid
      exact .inl ⟨cs, rfl, dumpEscaped_chars ensureAscii cs⟩
    · exact .inr (.inr ⟨hbegins, mt hchars.mpr hvalid, dumpEscaped_incomplete hbegins hvalid⟩)
  · obtain ⟨before, byte, after, rfl, hbefore, hbyte⟩ := exists_first_invalid hbegins
    exact .inr (.inl ⟨before, byte, after, rfl, hbefore, hbyte, dumpEscaped_invalid hbefore hbyte⟩)

/-! ## The buffer -/

theorem emission_size_le (ensureAscii : Bool) (codepoint : ℕ) (byte : Char) :
    (emission ensureAscii codepoint byte).size ≤ if ensureAscii = true then 13 else 7 := by
  unfold emission
  split <;> try (cases ensureAscii <;> decide)
  split
  next hescape =>
    split
    next => cases ensureAscii <;> simp [Emission.size, unicodeEscape, hex4]
    next hlarge =>
      have hascii : ensureAscii = true := by
        rcases hescape with hcontrol | hascii
        · omega
        · exact hascii.1
      simp [Emission.size, unicodeEscape, hex4, hascii]
  next => cases ensureAscii <;> simp [Emission.size]

/-- The bytes of a character that can have been read in each state. -/
def depth : Utf8State → ℕ
  | .accept => 0
  | .reject => 0
  | .beforeLast => 3
  | .beforeTwo => 2
  | .afterE0 => 1
  | .afterED => 1
  | .afterF0 => 1
  | .beforeThree => 1
  | .afterF4 => 1

theorem depth_le (state : Utf8State) : depth state ≤ 3 := by
  cases state <;> decide

/-- A byte that does not end the character leads deeper into it. -/
theorem depth_lt {state : Utf8State} {byte : ℕ} (haccept : state.decode byte ≠ .accept)
    (hreject : state.decode byte ≠ .reject) : depth state < depth (state.decode byte) := by
  cases state with
  | accept =>
      have hpos : ∀ next : Utf8State, next ≠ .accept → next ≠ .reject → 0 < depth next := by
        intro next
        cases next <;> first | exact fun h _ => absurd rfl h | exact fun _ h => absurd rfl h |
          exact fun _ _ => by decide
      exact hpos _ haccept hreject
  | reject => exact absurd rfl hreject
  | _ =>
      simp only [Utf8State.decode, Utf8State.within] at haccept hreject ⊢
      split_ifs at haccept hreject ⊢ <;>
        first | decide | exact absurd rfl haccept | exact absurd rfl hreject

namespace Escaper

/-- The buffer between two iterations: 13 bytes are free behind the last character. -/
structure Fits (ensureAscii : Bool) (e : Escaper) (q : Utf8State) : Prop where
  state : e.state = q.number
  buffer : e.buffer.length ≤ 499 + if ensureAscii = true then 0 else depth q

variable {ensureAscii : Bool} {e next : Escaper} {state : Utf8State} {i : ℕ} {byte : Char}

/-- What an iteration writes stays within the buffer. -/
theorem Fits.emits (h : Fits ensureAscii e state) (byte : Char) :
    e.buffer.length + (e.emits ensureAscii byte).size ≤ 512 := by
  have hdepth := depth_le state
  have hbuffer := h.buffer
  have hsize := emission_size_le ensureAscii (decode e.state e.codepoint byte.toNat).2 byte
  unfold Escaper.emits
  simp only
  split
  · split at hsize <;> simp_all <;> omega
  · split
    · simp only [Emission.size, List.length_nil, Bool.toNat_false]
      split at hbuffer <;> omega
    · simp only [Emission.size, List.length_singleton, Bool.toNat_false]
      split at hbuffer <;> omega

/-- An iteration keeps 13 bytes free. -/
theorem Fits.step (h : Fits ensureAscii e state) (hstep : e.step ensureAscii i byte = .ok next) :
    Fits ensureAscii next (state.decode byte.toNat) := by
  have hat : e.At (state, e.codepoint) := ⟨h.state, rfl⟩
  have hreject : state.decode byte.toNat ≠ .reject := by
    intro hreject
    rw [step_reject ensureAscii i hat hreject] at hstep
    exact nomatch hstep
  have hdecode := decode_of_at hat hreject
  have hbuffer := h.buffer
  by_cases haccept : state.decode byte.toNat = .accept
  · have hzero : (Utf8State.advance (state, e.codepoint) byte.toNat).1.number = 0 := by
      rw [show (Utf8State.advance (state, e.codepoint) byte.toNat).1 = .accept from haccept]
      rfl
    simp only [Escaper.step, hdecode, hzero, ↓reduceIte] at hstep
    rw [haccept]
    split at hstep
    · obtain rfl := Except.ok.inj hstep
      exact ⟨rfl, by simp⟩
    · obtain rfl := Except.ok.inj hstep
      refine ⟨rfl, ?_⟩
      simp only
      omega
  · have hzero := mt number_eq_zero_iff.mp haccept
    have hone := mt number_eq_one_iff.mp hreject
    have hdeeper := depth_lt haccept hreject
    have hemits : (e.emits ensureAscii byte).text.length =
        if ensureAscii = true then 0 else 1 := by
      simp only [Escaper.emits, hdecode, Utf8State.advance, hzero, hone, ↓reduceIte, false_or]
      split <;> rfl
    simp only [Escaper.step, hdecode, Utf8State.advance, hzero, hone, ↓reduceIte] at hstep
    obtain rfl := Except.ok.inj hstep
    refine ⟨rfl, ?_⟩
    simp only [List.length_append, hemits]
    cases ensureAscii with
    | true => simpa using hbuffer
    | false =>
        simp only [Bool.false_eq_true, ↓reduceIte] at hbuffer ⊢
        omega

theorem Fits.run {before : List Char} (h : Fits ensureAscii e state)
    (hrun : e.run ensureAscii i before = .ok next) :
    Fits ensureAscii next (state.run (before.map Char.toNat)) := by
  induction before generalizing e i state with
  | nil =>
      obtain rfl := Except.ok.inj hrun
      exact h
  | cons byte before ih =>
      obtain ⟨mid, hstep, hrest⟩ := exists_of_bind_eq_ok hrun
      exact ih (h.step hstep) hrest

end Escaper

/-- Whatever has been read, the next iteration writes within the 512 bytes. -/
theorem buffer_fits {before : List Char} {e : Escaper}
    (hrun : Escaper.start.run ensureAscii 0 before = .ok e) (byte : Char) :
    e.buffer.length + (e.emits ensureAscii byte).size ≤ 512 := by
  have hstart : Escaper.Fits ensureAscii Escaper.start .accept := ⟨rfl, by simp [Escaper.start]⟩
  exact (hstart.run hrun).emits byte

theorem buffer_fits_escape :
    ∃ e, Escaper.start.run true 0 ['\xF0', '\x9F', '\x98'] = .ok e ∧
      e.buffer.length + (e.emits true '\x80').size ≤ 512 := by
  have hrun : Escaper.start.run true 0 ['\xF0', '\x9F', '\x98'] = .ok _ := rfl
  exact ⟨_, hrun, buffer_fits hrun '\x80'⟩

end Protoo.JsonText
