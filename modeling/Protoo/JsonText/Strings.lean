import Protoo.JsonText.Escape

/-!
# Strings of the text, read

`scan_string` reads the characters after an opening quotation mark.  It tests the bytes
of a character with ranges of its own, and escapes are turned into bytes.  What it
accepts is stated as a grammar: a string is a sequence of pieces, each of which stands
for one Unicode character, and the value is the encoding of these characters.

`dump_escaped` writes such a sequence, so the string it was given is read again.
-/

namespace Protoo.JsonText

/-! ## The functions -/

/-- The value of a hexadecimal digit. -/
def hexValue (c : Char) : Option ℕ :=
  if '0' ≤ c ∧ c ≤ '9' then some (c.toNat - 0x30)
  else if 'A' ≤ c ∧ c ≤ 'F' then some (c.toNat - 0x37)
  else if 'a' ≤ c ∧ c ≤ 'f' then some (c.toNat - 0x57)
  else none

/-- The loop of `get_codepoint` over the remaining factors. -/
def getCodepointFrom (codepoint : ℕ) : List ℕ → List Char → Option (ℕ × List Char)
  | [], input => some (codepoint, input)
  | _ :: _, [] => none
  | factor :: factors, c :: input => do
      let digit ← hexValue c
      getCodepointFrom (codepoint + digit <<< factor) factors input

/-- `get_codepoint`: the code point and what is left of the input. -/
def getCodepoint (input : List Char) : Option (ℕ × List Char) :=
  getCodepointFrom 0 [12, 8, 4, 0] input

/-- `next_byte_in_range`: the bytes after the current one. -/
def nextByteInRange : List (ℕ × ℕ) → List Char → Option (List Char × List Char)
  | [], input => some ([], input)
  | _ :: _, [] => none
  | (low, high) :: ranges, c :: input =>
      if low ≤ c.toNat ∧ c.toNat ≤ high then do
        let (bytes, rest) ← nextByteInRange ranges input
        some (c :: bytes, rest)
      else none

/-- The ranges of the bytes that follow a first byte from `C2` on. -/
def ranges (byte : ℕ) : Option (List (ℕ × ℕ)) :=
  if 0xC2 ≤ byte ∧ byte ≤ 0xDF then some [(0x80, 0xBF)]
  else if byte = 0xE0 then some [(0xA0, 0xBF), (0x80, 0xBF)]
  else if (0xE1 ≤ byte ∧ byte ≤ 0xEC) ∨ byte = 0xEE ∨ byte = 0xEF then
    some [(0x80, 0xBF), (0x80, 0xBF)]
  else if byte = 0xED then some [(0x80, 0x9F), (0x80, 0xBF)]
  else if byte = 0xF0 then some [(0x90, 0xBF), (0x80, 0xBF), (0x80, 0xBF)]
  else if 0xF1 ≤ byte ∧ byte ≤ 0xF3 then some [(0x80, 0xBF), (0x80, 0xBF), (0x80, 0xBF)]
  else if byte = 0xF4 then some [(0x80, 0x8F), (0x80, 0xBF), (0x80, 0xBF)]
  else none

/-- The bytes of a code point, as the scanner computes them. -/
def codepointBytes (codepoint : ℕ) : List Char :=
  if codepoint < 0x80 then [Char.ofNat codepoint]
  else if codepoint ≤ 0x7FF then
    [Char.ofNat (0xC0 ||| (codepoint >>> 6)), Char.ofNat (0x80 ||| (codepoint &&& 0x3F))]
  else if codepoint ≤ 0xFFFF then
    [Char.ofNat (0xE0 ||| (codepoint >>> 12)),
      Char.ofNat (0x80 ||| ((codepoint >>> 6) &&& 0x3F)),
      Char.ofNat (0x80 ||| (codepoint &&& 0x3F))]
  else
    [Char.ofNat (0xF0 ||| (codepoint >>> 18)),
      Char.ofNat (0x80 ||| ((codepoint >>> 12) &&& 0x3F)),
      Char.ofNat (0x80 ||| ((codepoint >>> 6) &&& 0x3F)),
      Char.ofNat (0x80 ||| (codepoint &&& 0x3F))]

/-- The case `u` of an escape: the bytes added and what is left of the input. -/
def scanUnicode (input : List Char) : Option (List Char × List Char) := do
  let (codepoint₁, input) ← getCodepoint input
  if 0xD800 ≤ codepoint₁ ∧ codepoint₁ ≤ 0xDBFF then
    match input with
    | '\\' :: 'u' :: input => do
        let (codepoint₂, input) ← getCodepoint input
        if 0xDC00 ≤ codepoint₂ ∧ codepoint₂ ≤ 0xDFFF then
          some (codepointBytes ((codepoint₁ <<< 10) + codepoint₂ - 0x35FDC00), input)
        else none
    | _ => none
  else if 0xDC00 ≤ codepoint₁ ∧ codepoint₁ ≤ 0xDFFF then none
  else some (codepointBytes codepoint₁, input)

/-- The letters of the short escapes and what they stand for. -/
def shortEscapes : List (Char × Char) :=
  [('"', '"'), ('\\', '\\'), ('/', '/'), ('b', '\x08'), ('f', '\x0C'), ('n', '\n'),
    ('r', '\r'), ('t', '\t')]

/-- An escape, after the backslash. -/
def scanEscape : List Char → Option (List Char × List Char)
  | [] => none
  | letter :: input =>
      if letter = 'u' then scanUnicode input
      else (shortEscapes.lookup letter).map fun c => ([c], input)

/-- One round of the loop on a character other than the closing quotation mark. -/
def scanElement (c : Char) (input : List Char) : Option (List Char × List Char) :=
  if c = '\\' then scanEscape input
  else if c.toNat < 0x20 then none
  else if c.toNat ≤ 0x7F then some ([c], input)
  else do
    let (bytes, rest) ← nextByteInRange (← ranges c.toNat) input
    some (c :: bytes, rest)

/-! ## The input gets shorter -/

theorem length_getCodepointFrom {codepoint n : ℕ} {factors : List ℕ} {input rest : List Char}
    (h : getCodepointFrom codepoint factors input = some (n, rest)) :
    rest.length ≤ input.length := by
  induction factors generalizing codepoint input with
  | nil => cases h; exact Nat.le_refl _
  | cons factor factors ih =>
      cases input with
      | nil => cases h
      | cons c input =>
          obtain ⟨digit, -, hrest⟩ := Option.bind_eq_some_iff.mp h
          exact Nat.le_succ_of_le (ih hrest)

theorem length_nextByteInRange {rs : List (ℕ × ℕ)} {input bytes rest : List Char}
    (h : nextByteInRange rs input = some (bytes, rest)) : rest.length ≤ input.length := by
  induction rs generalizing input bytes with
  | nil => cases h; exact Nat.le_refl _
  | cons range rs ih =>
      cases input with
      | nil => cases h
      | cons c input =>
          rw [nextByteInRange] at h
          split at h
          · obtain ⟨⟨bytes', rest'⟩, hnext, hsome⟩ := Option.bind_eq_some_iff.mp h
            cases hsome
            exact Nat.le_succ_of_le (ih hnext)
          · cases h

theorem length_scanUnicode {input bytes rest : List Char}
    (h : scanUnicode input = some (bytes, rest)) : rest.length ≤ input.length := by
  obtain ⟨⟨codepoint₁, input₁⟩, hfirst, h⟩ := Option.bind_eq_some_iff.mp h
  have hfirst' := length_getCodepointFrom hfirst
  simp only at h
  split at h
  · split at h
    · obtain ⟨⟨codepoint₂, input₂⟩, hsecond, h⟩ := Option.bind_eq_some_iff.mp h
      have hsecond' := length_getCodepointFrom hsecond
      simp only at h
      split at h
      · obtain ⟨-, rfl⟩ := Prod.mk.inj (Option.some.inj h)
        simp only [List.length_cons] at hfirst'
        omega
      · exact nomatch h
    · exact nomatch h
  · split at h
    · exact nomatch h
    · obtain ⟨-, rfl⟩ := Prod.mk.inj (Option.some.inj h)
      exact hfirst'

theorem length_scanEscape {input bytes rest : List Char}
    (h : scanEscape input = some (bytes, rest)) : rest.length ≤ input.length := by
  cases input with
  | nil => cases h
  | cons letter input =>
      rw [scanEscape] at h
      split at h
      · exact Nat.le_succ_of_le (length_scanUnicode h)
      · obtain ⟨c, -, hsome⟩ := Option.map_eq_some_iff.mp h
        cases hsome
        exact Nat.le_succ _

theorem length_scanElement {c : Char} {input bytes rest : List Char}
    (h : scanElement c input = some (bytes, rest)) : rest.length ≤ input.length := by
  rw [scanElement] at h
  split at h
  · exact length_scanEscape h
  · split at h
    · cases h
    · split at h
      · cases h
        exact Nat.le_refl _
      · obtain ⟨rs, -, h⟩ := Option.bind_eq_some_iff.mp h
        obtain ⟨⟨bytes', rest'⟩, hnext, hsome⟩ := Option.bind_eq_some_iff.mp h
        cases hsome
        exact length_nextByteInRange hnext

/-- `scan_string` after the opening quotation mark: `token_buffer` and what is left of the
input. -/
def scanString (buffer input : List Char) : Option (List Char × List Char) :=
  match input with
  | [] => none
  | c :: input =>
      if c = '"' then some (buffer, input)
      else
        match _hscan : scanElement c input with
        | none => none
        | some (bytes, rest) => scanString (buffer ++ bytes) rest
termination_by input.length
decreasing_by exact Nat.lt_succ_of_le (length_scanElement _hscan)

theorem scanString_close (buffer input : List Char) :
    scanString buffer ('"' :: input) = some (buffer, input) := by
  rw [scanString, if_pos rfl]

theorem scanString_element {c : Char} (hc : c ≠ '"') (buffer : List Char)
    {input bytes rest : List Char} (h : scanElement c input = some (bytes, rest)) :
    scanString buffer (c :: input) = scanString (buffer ++ bytes) rest := by
  rw [scanString, if_neg hc]
  split
  next hnone => rw [h] at hnone; cases hnone
  next hsome => rw [h] at hsome; cases hsome; rfl

theorem scanString_error {c : Char} (hc : c ≠ '"') (buffer : List Char) {input : List Char}
    (h : scanElement c input = none) : scanString buffer (c :: input) = none := by
  rw [scanString, if_neg hc]
  split
  next => rfl
  next hsome => rw [h] at hsome; cases hsome

/-! ## The bytes of a character -/

/-- The ranges the scanner tests in each state of the automaton. -/
def rangesOf : Utf8State → Option (List (ℕ × ℕ))
  | .accept => none
  | .reject => none
  | .beforeLast => some [(0x80, 0xBF)]
  | .beforeTwo => some [(0x80, 0xBF), (0x80, 0xBF)]
  | .afterE0 => some [(0xA0, 0xBF), (0x80, 0xBF)]
  | .afterED => some [(0x80, 0x9F), (0x80, 0xBF)]
  | .afterF0 => some [(0x90, 0xBF), (0x80, 0xBF), (0x80, 0xBF)]
  | .beforeThree => some [(0x80, 0xBF), (0x80, 0xBF), (0x80, 0xBF)]
  | .afterF4 => some [(0x80, 0x8F), (0x80, 0xBF), (0x80, 0xBF)]

/-- The scanner and the serializer tell the same first bytes apart. -/
theorem ranges_eq (byte : ℕ) : ranges byte = rangesOf (Utf8State.first byte) := by
  rcases Utf8State.first_cases byte with ⟨h, hle⟩ | ⟨h, hlow, hhigh⟩ | ⟨h, rfl⟩ | ⟨h, rfl⟩ |
    ⟨h, hlow, hhigh, hne⟩ | ⟨h, rfl⟩ | ⟨h, hlow, hhigh⟩ | ⟨h, rfl⟩ | ⟨h, hother⟩ <;> rw [h]
  · rw [ranges, if_neg (by omega), if_neg (by omega), if_neg (by omega), if_neg (by omega),
      if_neg (by omega), if_neg (by omega), if_neg (by omega)]
    rfl
  · rw [ranges, if_pos ⟨hlow, hhigh⟩]
    rfl
  · rfl
  · rfl
  · rw [ranges, if_neg (by omega), if_neg (by omega), if_pos (by omega)]
    rfl
  · rfl
  · rw [ranges, if_neg (by omega), if_neg (by omega), if_neg (by omega), if_neg (by omega),
      if_neg (by omega), if_pos ⟨hlow, hhigh⟩]
    rfl
  · rfl
  · rw [ranges, if_neg (by omega), if_neg (by omega), if_neg (by omega), if_neg (by omega),
      if_neg (by omega), if_neg (by omega), if_neg (by omega)]
    rfl

/-- A state followed by the ranges of the states after it. -/
inductive Follows : Utf8State → List (ℕ × ℕ) → Prop where
  | done : Follows .accept []
  | wait {state next : Utf8State} {low high : ℕ} {rs : List (ℕ × ℕ)}
      (hwait : Utf8State.Waits state low high next) (hrest : Follows next rs) :
      Follows state ((low, high) :: rs)

theorem follows_rangesOf {state : Utf8State} {rs : List (ℕ × ℕ)} (h : rangesOf state = some rs) :
    Follows state rs := by
  cases state <;> cases h
  · exact .wait Utf8State.waits_beforeLast .done
  · exact .wait Utf8State.waits_beforeTwo (.wait Utf8State.waits_beforeLast .done)
  · exact .wait Utf8State.waits_afterE0 (.wait Utf8State.waits_beforeLast .done)
  · exact .wait Utf8State.waits_afterED (.wait Utf8State.waits_beforeLast .done)
  · exact .wait Utf8State.waits_afterF0
      (.wait Utf8State.waits_beforeTwo (.wait Utf8State.waits_beforeLast .done))
  · exact .wait Utf8State.waits_beforeThree
      (.wait Utf8State.waits_beforeTwo (.wait Utf8State.waits_beforeLast .done))
  · exact .wait Utf8State.waits_afterF4
      (.wait Utf8State.waits_beforeTwo (.wait Utf8State.waits_beforeLast .done))

/-- The ranges accept what the automaton accepts. -/
theorem nextByteInRange_iff {state : Utf8State} {rs : List (ℕ × ℕ)} (h : Follows state rs)
    {input bytes rest : List Char} :
    nextByteInRange rs input = some (bytes, rest) ↔
      input = bytes ++ rest ∧ bytes.length = rs.length ∧
        state.run (bytes.map Char.toNat) = .accept := by
  induction h generalizing input bytes with
  | done =>
      rw [nextByteInRange, Option.some_inj, Prod.mk.injEq]
      constructor
      · rintro ⟨rfl, rfl⟩
        exact ⟨rfl, rfl, rfl⟩
      · rintro ⟨rfl, hlength, -⟩
        obtain rfl := List.length_eq_zero_iff.mp hlength
        exact ⟨rfl, rfl⟩
  | @wait state next low high rs hwait hrest ih =>
      cases input with
      | nil =>
          rw [nextByteInRange]
          constructor
          · exact nofun
          · rintro ⟨hnil, hlength, -⟩
            obtain ⟨rfl, -⟩ := List.append_eq_nil_iff.mp hnil.symm
            exact absurd hlength (by simp)
      | cons c input =>
          rw [nextByteInRange]
          constructor
          · intro hnext
            split at hnext
            next hrange =>
              obtain ⟨⟨bytes', rest'⟩, hbytes, hsome⟩ := Option.bind_eq_some_iff.mp hnext
              cases hsome
              obtain ⟨rfl, hlength, hrun⟩ := ih.mp hbytes
              refine ⟨rfl, by simp [hlength], ?_⟩
              rw [List.map_cons, Utf8State.run_cons, hwait.decode,
                Utf8State.within_of_mem hrange.1 hrange.2]
              exact hrun
            next => cases hnext
          · rintro ⟨hinput, hlength, hrun⟩
            cases bytes with
            | nil => exact absurd hlength (by simp)
            | cons b bytes =>
                obtain ⟨rfl, rfl⟩ := List.cons_eq_cons.mp hinput
                obtain ⟨byte, tail, hcons, hlow, hhigh, htail⟩ := hwait.exists_byte hrun
                obtain ⟨rfl, rfl⟩ := List.cons_eq_cons.mp hcons
                have hnext : nextByteInRange rs (bytes.append rest) = some (bytes, rest) :=
                  ih.mpr ⟨rfl, Nat.succ.inj hlength, htail⟩
                rw [if_pos ⟨hlow, hhigh⟩, hnext]
                rfl

/-- A character of several bytes: the first byte tells how many follow. -/
theorem exists_ranges_utf8Bytes {d : Char} (h : 0x7F < d.toNat) :
    ∃ b tail rs, utf8Bytes d = b :: tail ∧ 0x7F < b ∧ ranges b = some rs ∧
      tail.length = rs.length := by
  by_cases htwo : d.toNat ≤ 0x7FF
  · refine ⟨_, _, [(0x80, 0xBF)], utf8Bytes_two h htwo, by omega, ?_, rfl⟩
    rw [ranges_eq, Utf8State.first_beforeLast (by omega) (by omega)]
    rfl
  · by_cases hthree : d.toNat ≤ 0xFFFF
    · have hlow : 0x7FF < d.toNat := by omega
      obtain ⟨state, low, high, hfirst, hwaits, -, -⟩ := Utf8State.exists_waits_three hlow hthree
      have hranges : ranges (d.toNat / 4096 + 0xE0) = rangesOf state := by rw [ranges_eq, hfirst]
      rcases Utf8State.first_cases (d.toNat / 4096 + 0xE0) with hc | hc | hc | hc | hc | hc | hc |
        hc | hc <;> try omega
      all_goals
        obtain rfl := hfirst.symm.trans hc.1
        exact ⟨_, _, _, utf8Bytes_three hlow hthree, by omega, hranges, rfl⟩
    · have hlow : 0xFFFF < d.toNat := by omega
      obtain ⟨state, low, high, hfirst, hwaits, -, -⟩ := Utf8State.exists_waits_four hlow
      have hranges : ranges (d.toNat / 262144 + 0xF0) = rangesOf state := by rw [ranges_eq, hfirst]
      have hscalar := scalar_range d
      rcases Utf8State.first_cases (d.toNat / 262144 + 0xF0) with hc | hc | hc | hc | hc | hc |
        hc | hc | hc <;> try omega
      all_goals
        obtain rfl := hfirst.symm.trans hc.1
        exact ⟨_, _, _, utf8Bytes_four hlow, by omega, hranges, rfl⟩

theorem follows_ranges {byte : ℕ} {rs : List (ℕ × ℕ)} (h : ranges byte = some rs) :
    Follows (Utf8State.first byte) rs := follows_rangesOf ((ranges_eq byte).symm.trans h)

/-- A character that needs no escape is read as it stands. -/
theorem scanElement_plain {d : Char} (hcontrol : 0x20 ≤ d.toNat) (hslash : d ≠ '\\') :
    ∃ c tail, utf8Chars d = c :: tail ∧ (d ≠ '"' → c ≠ '"') ∧
      ∀ rest, scanElement c (tail ++ rest) = some (utf8Chars d, rest) := by
  by_cases hascii : d.toNat ≤ 0x7F
  · refine ⟨d, [], utf8Chars_one hascii, id, fun rest => ?_⟩
    rw [scanElement, if_neg hslash, if_neg (by omega), if_pos hascii, utf8Chars_one hascii]
    rfl
  · obtain ⟨b, tail, rs, hbytes, hb, hranges, hlength⟩ :=
      exists_ranges_utf8Bytes (by omega : 0x7F < d.toNat)
    have hlt : b < 256 := utf8Bytes_lt (hbytes ▸ List.mem_cons_self)
    have hnat : (Char.ofNat b).toNat = b := toNat_ofNat_byte hlt
    have hne : ∀ k : Char, k.toNat ≤ 0x7F → Char.ofNat b ≠ k := by
      rintro k hk rfl
      omega
    have hrun : (Utf8State.first b).run ((tail.map Char.ofNat).map Char.toNat) = .accept := by
      have haccept := Utf8State.run_utf8Bytes d
      have htail : (tail.map Char.ofNat).map Char.toNat = tail := by
        rw [List.map_map]
        refine (List.map_congr_left fun k hk => toNat_ofNat_byte ?_).trans (List.map_id _)
        exact utf8Bytes_lt (hbytes ▸ List.mem_cons_of_mem _ hk)
      rw [htail]
      rwa [hbytes] at haccept
    refine ⟨Char.ofNat b, tail.map Char.ofNat, by rw [utf8Chars, hbytes, List.map_cons],
      fun _ => hne _ (by decide), fun rest => ?_⟩
    have hnext : nextByteInRange rs (tail.map Char.ofNat ++ rest) =
        some (tail.map Char.ofNat, rest) :=
      (nextByteInRange_iff (follows_ranges hranges)).mpr ⟨rfl, by simp [hlength], hrun⟩
    rw [scanElement, if_neg (hne _ (by decide)), if_neg (by omega), if_neg (by omega), hnat,
      hranges, utf8Chars, hbytes]
    simp [hnext]

/-- What is read without an escape is a character. -/
theorem exists_plain {c : Char} {input bytes rest : List Char} (hslash : c ≠ '\\')
    (h : scanElement c input = some (bytes, rest)) :
    ∃ d : Char, 0x20 ≤ d.toNat ∧ d ≠ '\\' ∧ (c ≠ '"' → d ≠ '"') ∧ bytes = utf8Chars d ∧
      c :: input = utf8Chars d ++ rest := by
  rw [scanElement, if_neg hslash] at h
  split at h
  · exact nomatch h
  next hcontrol =>
    split at h
    next hascii =>
      cases h
      refine ⟨c, by omega, hslash, id, (utf8Chars_one hascii).symm, ?_⟩
      rw [utf8Chars_one hascii]
      rfl
    next hascii =>
      obtain ⟨rs, hranges, h⟩ := Option.bind_eq_some_iff.mp h
      obtain ⟨⟨tail, rest'⟩, hnext, hsome⟩ := Option.bind_eq_some_iff.mp h
      cases hsome
      obtain ⟨rfl, hlength, hrun⟩ := (nextByteInRange_iff (follows_ranges hranges)).mp hnext
      have haccept : Utf8State.accept.run (c.toNat :: tail.map Char.toNat) = .accept := hrun
      obtain ⟨d, more, hsplit, -⟩ := Utf8State.exists_char_of_run haccept
      have hlarge : 0x7F < d.toNat := by
        by_contra hsmall
        rw [utf8Bytes_one (by omega)] at hsplit
        have := (List.cons_eq_cons.mp hsplit).1
        omega
      obtain ⟨b, tail', rs', hbytes, -, hranges', hlength'⟩ := exists_ranges_utf8Bytes hlarge
      rw [hbytes, List.cons_append] at hsplit
      obtain ⟨rfl, htail⟩ := List.cons_eq_cons.mp hsplit
      obtain rfl := Option.some.inj (hranges.symm.trans hranges')
      have hmore : more = [] := by
        have := congrArg List.length htail
        rw [List.length_map, List.length_append, hlength, hlength'] at this
        exact List.length_eq_zero_iff.mp (by omega)
      rw [hmore, List.append_nil] at htail
      have hchars : utf8Chars d = c :: tail := by
        rw [utf8Chars, hbytes, ← htail, ← List.map_cons, map_ofNat_toNat]
      refine ⟨d, by omega, ?_, fun _ => ?_, hchars.symm, by rw [hchars]; rfl⟩
      · rintro rfl
        exact absurd hlarge (by decide)
      · rintro rfl
        exact absurd hlarge (by decide)

/-! ## Escaped code points -/

theorem lor_eq_add (a : ℕ) {b k : ℕ} (h : b < 2 ^ k) : (a <<< k) ||| b = a * 2 ^ k + b := by
  rw [← Nat.shiftLeft_add_eq_or_of_lt h, Nat.shiftLeft_eq]

theorem lor_continuation (n : ℕ) : 0x80 ||| (n &&& 0x3F) = n % 64 + 0x80 := by
  have hmask : n &&& 0x3F = n % 64 := Nat.and_two_pow_sub_one_eq_mod n 6
  have hlt : n % 64 < 2 ^ 7 := Nat.lt_trans (Nat.mod_lt n (by decide)) (by decide)
  rw [hmask]
  exact (lor_eq_add 1 hlt).trans (Nat.add_comm _ _)

/-- The scanner encodes a code point as the standard library does. -/
theorem codepointBytes_eq (d : Char) : codepointBytes d.toNat = utf8Chars d := by
  have hscalar := scalar_range d
  unfold codepointBytes
  split
  next h =>
    rw [utf8Chars_one (by omega), Char.ofNat_toNat]
  next h =>
    split
    next htwo =>
      have hlead : 0xC0 ||| (d.toNat >>> 6) = d.toNat / 64 + 0xC0 := by
        rw [Nat.shiftRight_eq_div_pow]
        exact (lor_eq_add 3 (by omega : d.toNat / 2 ^ 6 < 2 ^ 6)).trans (Nat.add_comm _ _)
      rw [utf8Chars, utf8Bytes_two (by omega) htwo, hlead, lor_continuation]
      rfl
    next htwo =>
      split
      next hthree =>
        have hlead : 0xE0 ||| (d.toNat >>> 12) = d.toNat / 4096 + 0xE0 := by
          rw [Nat.shiftRight_eq_div_pow]
          exact (lor_eq_add 7 (by omega : d.toNat / 2 ^ 12 < 2 ^ 5)).trans (Nat.add_comm _ _)
        rw [utf8Chars, utf8Bytes_three (by omega) hthree, hlead, lor_continuation,
          lor_continuation, Nat.shiftRight_eq_div_pow]
        rfl
      next hthree =>
        have hlead : 0xF0 ||| (d.toNat >>> 18) = d.toNat / 262144 + 0xF0 := by
          rw [Nat.shiftRight_eq_div_pow]
          exact (lor_eq_add 15 (by omega : d.toNat / 2 ^ 18 < 2 ^ 4)).trans (Nat.add_comm _ _)
        rw [utf8Chars, utf8Bytes_four (by omega), hlead, lor_continuation,
          lor_continuation, lor_continuation, Nat.shiftRight_eq_div_pow,
          Nat.shiftRight_eq_div_pow]
        rfl

/-- Four hexadecimal digits and their value. -/
inductive Hex4 : List Char → ℕ → Prop where
  | mk {a b c d : Char} {p q r s : ℕ} (ha : hexValue a = some p) (hb : hexValue b = some q)
      (hc : hexValue c = some r) (hd : hexValue d = some s) :
      Hex4 [a, b, c, d] (p * 4096 + q * 256 + r * 16 + s)

theorem hexValue_lt {c : Char} {v : ℕ} (h : hexValue c = some v) : v < 16 := by
  unfold hexValue at h
  simp only [Char.le_def, UInt32.le_iff_toNat_le] at h
  have hnat : c.val.toNat = c.toNat := rfl
  rw [hnat] at h
  split at h
  next hdigit =>
    obtain rfl := Option.some.inj h
    have : c.toNat ≤ 0x39 := hdigit.2
    omega
  next =>
    split at h
    next hupper =>
      obtain rfl := Option.some.inj h
      have : c.toNat ≤ 0x46 := hupper.2
      omega
    next =>
      split at h
      next hlower =>
        obtain rfl := Option.some.inj h
        have : c.toNat ≤ 0x66 := hlower.2
        omega
      next => exact nomatch h

theorem Hex4.lt {digits : List Char} {n : ℕ} (h : Hex4 digits n) : n < 0x10000 := by
  cases h with
  | mk ha hb hc hd =>
      have := hexValue_lt ha
      have := hexValue_lt hb
      have := hexValue_lt hc
      have := hexValue_lt hd
      omega

theorem exists_digit {codepoint factor n : ℕ} {factors : List ℕ} {input rest : List Char}
    (h : getCodepointFrom codepoint (factor :: factors) input = some (n, rest)) :
    ∃ c tail v, input = c :: tail ∧ hexValue c = some v ∧
      getCodepointFrom (codepoint + v <<< factor) factors tail = some (n, rest) := by
  cases input with
  | nil => exact nomatch h
  | cons c tail =>
      obtain ⟨v, hv, hrest⟩ := Option.bind_eq_some_iff.mp h
      exact ⟨c, tail, v, rfl, hv, hrest⟩

theorem getCodepoint_iff {input rest : List Char} {n : ℕ} :
    getCodepoint input = some (n, rest) ↔ ∃ digits, Hex4 digits n ∧ input = digits ++ rest := by
  have hvalue : ∀ p q r s : ℕ, 0 + p <<< 12 + q <<< 8 + r <<< 4 + s <<< 0 =
      p * 4096 + q * 256 + r * 16 + s := by
    intro p q r s
    simp only [Nat.shiftLeft_eq]
    omega
  constructor
  · intro h
    obtain ⟨a, _, p, rfl, ha, h⟩ := exists_digit h
    obtain ⟨b, _, q, rfl, hb, h⟩ := exists_digit h
    obtain ⟨c, _, r, rfl, hc, h⟩ := exists_digit h
    obtain ⟨d, _, s, rfl, hd, h⟩ := exists_digit h
    obtain ⟨rfl, rfl⟩ := Prod.mk.inj (Option.some.inj h)
    exact ⟨[a, b, c, d], hvalue p q r s ▸ .mk ha hb hc hd, rfl⟩
  · rintro ⟨digits, hdigits, rfl⟩
    cases hdigits with
    | mk ha hb hc hd =>
        simp only [getCodepoint, getCodepointFrom, List.cons_append, ha, hb, hc, hd,
          Option.bind_eq_bind, Option.bind_some, hvalue, List.nil_append]

/-! ## The grammar of strings -/

/-- A piece of a string and the character it stands for. -/
inductive StringPiece : List Char → Char → Prop where
  | plain {d : Char} (hcontrol : 0x20 ≤ d.toNat) (hquote : d ≠ '"') (hslash : d ≠ '\\') :
      StringPiece (utf8Chars d) d
  | short {letter d : Char} (h : (letter, d) ∈ shortEscapes) : StringPiece ['\\', letter] d
  | unicode {digits : List Char} {d : Char} (h : Hex4 digits d.toNat) :
      StringPiece ('\\' :: 'u' :: digits) d
  | surrogates {high low : List Char} {m n : ℕ} {d : Char} (hhigh : Hex4 high (0xD800 + m))
      (hlow : Hex4 low (0xDC00 + n)) (hm : m < 0x400) (hn : n < 0x400)
      (h : d.toNat = 0x10000 + m * 0x400 + n) :
      StringPiece ('\\' :: 'u' :: (high ++ '\\' :: 'u' :: low)) d

/-- What stands between the quotation marks, and the characters of the string. -/
inductive StringText : List Char → List Char → Prop where
  | nil : StringText [] []
  | cons {piece text : List Char} {d : Char} {ds : List Char} (hpiece : StringPiece piece d)
      (hrest : StringText text ds) : StringText (piece ++ text) (d :: ds)

theorem lookup_shortEscapes {letter d : Char} :
    shortEscapes.lookup letter = some d ↔ (letter, d) ∈ shortEscapes := by
  constructor
  · intro h
    obtain ⟨before, after, heq, -⟩ := List.lookup_eq_some_iff.mp h
    rw [heq]
    simp
  · intro h
    simp only [shortEscapes, List.mem_cons, Prod.mk.injEq, List.not_mem_nil, or_false] at h
    rcases h with ⟨rfl, rfl⟩ | ⟨rfl, rfl⟩ | ⟨rfl, rfl⟩ | ⟨rfl, rfl⟩ | ⟨rfl, rfl⟩ | ⟨rfl, rfl⟩ |
      ⟨rfl, rfl⟩ | ⟨rfl, rfl⟩ <;> rfl

theorem shortEscapes_ascii {letter d : Char} (h : (letter, d) ∈ shortEscapes) :
    d.toNat ≤ 0x7F ∧ letter ≠ 'u' := by
  have hall : ∀ entry ∈ shortEscapes, entry.2.toNat ≤ 0x7F ∧ entry.1 ≠ 'u' := by decide
  exact hall _ h

/-- The code point of a surrogate pair. -/
theorem surrogates_codepoint {m n : ℕ} :
    ((0xD800 + m) <<< 10) + (0xDC00 + n) - 0x35FDC00 = 0x10000 + m * 0x400 + n := by
  rw [Nat.shiftLeft_eq]
  omega

theorem scanUnicode_unicode {digits : List Char} {d : Char} (h : Hex4 digits d.toNat)
    (rest : List Char) : scanUnicode (digits ++ rest) = some (utf8Chars d, rest) := by
  have hget : getCodepoint (digits ++ rest) = some (d.toNat, rest) :=
    getCodepoint_iff.mpr ⟨digits, h, rfl⟩
  have hscalar := scalar_range d
  have hhigh : ¬ (0xD800 ≤ d.toNat ∧ d.toNat ≤ 0xDBFF) := by omega
  have hlow : ¬ (0xDC00 ≤ d.toNat ∧ d.toNat ≤ 0xDFFF) := by omega
  simp only [scanUnicode, hget, Option.bind_eq_bind, Option.bind_some, if_neg hhigh, if_neg hlow,
    codepointBytes_eq]

theorem scanUnicode_surrogates {high low : List Char} {m n : ℕ} {d : Char}
    (hhigh : Hex4 high (0xD800 + m)) (hlow : Hex4 low (0xDC00 + n)) (hm : m < 0x400)
    (hn : n < 0x400) (h : d.toNat = 0x10000 + m * 0x400 + n) (rest : List Char) :
    scanUnicode (high ++ '\\' :: 'u' :: (low ++ rest)) = some (utf8Chars d, rest) := by
  have hfirst : getCodepoint (high ++ '\\' :: 'u' :: (low ++ rest)) =
      some (0xD800 + m, '\\' :: 'u' :: (low ++ rest)) := getCodepoint_iff.mpr ⟨high, hhigh, rfl⟩
  have hsecond : getCodepoint (low ++ rest) = some (0xDC00 + n, rest) :=
    getCodepoint_iff.mpr ⟨low, hlow, rfl⟩
  have hrange : 0xD800 ≤ 0xD800 + m ∧ 0xD800 + m ≤ 0xDBFF := by omega
  have hrange' : 0xDC00 ≤ 0xDC00 + n ∧ 0xDC00 + n ≤ 0xDFFF := by omega
  simp only [scanUnicode, hfirst, hsecond, Option.bind_eq_bind, Option.bind_some, if_pos hrange,
    if_pos hrange', surrogates_codepoint, ← h, codepointBytes_eq]

/-- A piece is read in one round. -/
theorem StringPiece.scan {text : List Char} {d : Char} (h : StringPiece text d) :
    ∃ c tail, text = c :: tail ∧ c ≠ '"' ∧
      ∀ rest, scanElement c (tail ++ rest) = some (utf8Chars d, rest) := by
  cases h with
  | plain hcontrol hquote hslash =>
      obtain ⟨c, tail, hchars, hne, hscan⟩ := scanElement_plain hcontrol hslash
      exact ⟨c, tail, hchars, hne hquote, hscan⟩
  | @short letter d hmem =>
      refine ⟨_, _, rfl, by decide, fun rest => ?_⟩
      obtain ⟨hascii, hletter⟩ := shortEscapes_ascii hmem
      rw [scanElement, if_pos rfl, List.singleton_append, scanEscape, if_neg hletter,
        lookup_shortEscapes.mpr hmem, utf8Chars_one hascii]
      rfl
  | unicode hdigits =>
      refine ⟨_, _, rfl, by decide, fun rest => ?_⟩
      rw [scanElement, if_pos rfl, List.cons_append, scanEscape, if_pos rfl]
      exact scanUnicode_unicode hdigits rest
  | surrogates hhigh hlow hm hn hd =>
      refine ⟨_, _, rfl, by decide, fun rest => ?_⟩
      rw [scanElement, if_pos rfl, List.cons_append, scanEscape, if_pos rfl, List.append_assoc]
      exact scanUnicode_surrogates hhigh hlow hm hn hd rest

/-- What `\\u` and its digits stand for. -/
theorem exists_unicode_piece {input bytes rest : List Char}
    (hscan : scanUnicode input = some (bytes, rest)) :
    ∃ text d, StringPiece ('\\' :: 'u' :: text) d ∧ bytes = utf8Chars d ∧
      input = text ++ rest := by
  obtain ⟨⟨codepoint₁, input₁⟩, hfirst, h⟩ := Option.bind_eq_some_iff.mp hscan
  obtain ⟨digits, hdigits, rfl⟩ := getCodepoint_iff.mp hfirst
  simp only at h
  split at h
  next hhigh =>
    split at h
    next input₂ =>
      obtain ⟨⟨codepoint₂, input₃⟩, hsecond, hpair⟩ := Option.bind_eq_some_iff.mp h
      obtain ⟨digits', hdigits', rfl⟩ := getCodepoint_iff.mp hsecond
      simp only at hpair
      split at hpair
      next hlow =>
        obtain ⟨rfl, rfl⟩ := Prod.mk.inj (Option.some.inj hpair)
        obtain ⟨m, rfl⟩ := Nat.exists_eq_add_of_le hhigh.1
        obtain ⟨n, rfl⟩ := Nat.exists_eq_add_of_le hlow.1
        have hm : m < 0x400 := by omega
        have hn : n < 0x400 := by omega
        obtain ⟨d, hd⟩ := exists_char_toNat (n := 0x10000 + m * 0x400 + n) (by omega)
        refine ⟨_, d, .surrogates hdigits hdigits' hm hn hd, ?_, by simp⟩
        rw [surrogates_codepoint, ← hd, codepointBytes_eq]
      next => exact nomatch hpair
    next => exact nomatch h
  next hhigh =>
    split at h
    next => exact nomatch h
    next hlow =>
      obtain ⟨rfl, rfl⟩ := Prod.mk.inj (Option.some.inj h)
      have hlt := hdigits.lt
      obtain ⟨d, hd⟩ := exists_char_toNat (n := codepoint₁) (by omega)
      subst hd
      exact ⟨digits, d, .unicode hdigits, codepointBytes_eq d, rfl⟩

/-- What is read in one round is a piece. -/
theorem exists_piece {c : Char} {input bytes rest : List Char} (hquote : c ≠ '"')
    (h : scanElement c input = some (bytes, rest)) :
    ∃ text d, StringPiece text d ∧ bytes = utf8Chars d ∧ c :: input = text ++ rest := by
  by_cases hslash : c = '\\'
  · subst hslash
    rw [scanElement, if_pos rfl] at h
    cases input with
    | nil => exact nomatch h
    | cons letter input =>
        rw [scanEscape] at h
        split at h
        next hletter =>
          subst hletter
          obtain ⟨text, d, hpiece, hbytes, hinput⟩ := exists_unicode_piece h
          exact ⟨_, d, hpiece, hbytes, by rw [hinput]; rfl⟩
        next =>
          obtain ⟨d, hlookup, hsome⟩ := Option.map_eq_some_iff.mp h
          cases hsome
          have hmem := lookup_shortEscapes.mp hlookup
          exact ⟨_, d, .short hmem, (utf8Chars_one (shortEscapes_ascii hmem).1).symm, rfl⟩
  · obtain ⟨d, hcontrol, hslash', hne, hbytes, hinput⟩ := exists_plain hslash h
    exact ⟨_, d, .plain hcontrol (hne hquote) hslash', hbytes, hinput⟩

/-- A string of the grammar is read to its closing quotation mark. -/
theorem scanString_of_stringText {text ds : List Char} (h : StringText text ds)
    (buffer rest : List Char) :
    scanString buffer (text ++ '"' :: rest) = some (buffer ++ ds.flatMap utf8Chars, rest) := by
  induction h generalizing buffer with
  | nil => simpa using scanString_close buffer rest
  | @cons piece text d ds hpiece hrest ih =>
      obtain ⟨c, tail, rfl, hquote, hscan⟩ := hpiece.scan
      rw [List.cons_append, List.cons_append, List.append_assoc,
        scanString_element hquote buffer (hscan (text ++ '"' :: rest)), ih,
        List.flatMap_cons, List.append_assoc]

/-- What is read as a string is one of the grammar. -/
theorem exists_stringText {buffer input s rest : List Char}
    (h : scanString buffer input = some (s, rest)) :
    ∃ text ds, StringText text ds ∧ s = buffer ++ ds.flatMap utf8Chars ∧
      input = text ++ '"' :: rest := by
  induction hlength : input.length using Nat.strong_induction_on generalizing buffer input with
  | h length ih =>
      cases input with
      | nil =>
          rw [scanString] at h
          exact nomatch h
      | cons c input =>
          by_cases hquote : c = '"'
          · subst hquote
            rw [scanString_close] at h
            cases h
            exact ⟨[], [], .nil, (List.append_nil _).symm, rfl⟩
          · cases hscan : scanElement c input with
            | none =>
                rw [scanString_error hquote buffer hscan] at h
                exact nomatch h
            | some scanned =>
                obtain ⟨bytes, after⟩ := scanned
                rw [scanString_element hquote buffer hscan] at h
                have hless : after.length < length := by
                  rw [← hlength]
                  exact Nat.lt_succ_of_le (length_scanElement hscan)
                obtain ⟨text, ds, htext, hs, hafter⟩ := ih _ hless h rfl
                obtain ⟨piece, d, hpiece, hbytes, hinput⟩ := exists_piece hquote hscan
                refine ⟨piece ++ text, d :: ds, .cons hpiece htext, ?_, ?_⟩
                · rw [hs, hbytes, List.flatMap_cons, List.append_assoc]
                · rw [hinput, hafter, List.append_assoc]

/-- `scan_string` accepts the strings of the grammar, and gives their characters in
UTF-8. -/
theorem scanString_iff {input s rest : List Char} :
    scanString [] input = some (s, rest) ↔
      ∃ text ds, StringText text ds ∧ s = ds.flatMap utf8Chars ∧ input = text ++ '"' :: rest := by
  constructor
  · intro h
    simpa using exists_stringText h
  · rintro ⟨text, ds, htext, rfl, rfl⟩
    simpa using scanString_of_stringText htext [] rest

/-! ## Strings written and read -/

theorem hexValue_hexDigit {k : ℕ} (h : k < 16) : hexValue (hexDigit k) = some k := by
  have hall : ∀ j < 16, hexValue (hexDigit j) = some j := by decide
  exact hall k h

theorem hex4_hex4 {n : ℕ} (h : n < 0x10000) : Hex4 (hex4 n) n := by
  have hdigits := Hex4.mk (hexValue_hexDigit (Nat.mod_lt (n / 4096) (by decide)))
    (hexValue_hexDigit (Nat.mod_lt (n / 256) (by decide)))
    (hexValue_hexDigit (Nat.mod_lt (n / 16) (by decide)))
    (hexValue_hexDigit (Nat.mod_lt n (by decide)))
  have hvalue : n / 4096 % 16 * 4096 + n / 256 % 16 * 256 + n / 16 % 16 * 16 + n % 16 = n := by
    omega
  rwa [hvalue] at hdigits

/-- The escape of a large code point is a surrogate pair. -/
theorem stringPiece_pair {d : Char} (h : 0xFFFF < d.toNat) :
    StringPiece (unicodeEscape (0xD7C0 + (d.toNat >>> 10)) ++
      unicodeEscape (0xDC00 + (d.toNat &&& 0x3FF))) d := by
  have hscalar := scalar_range d
  have hhigh : 0xD7C0 + (d.toNat >>> 10) = 0xD800 + (d.toNat / 1024 - 64) := by
    rw [Nat.shiftRight_eq_div_pow]
    omega
  have hlow : d.toNat &&& 0x3FF = d.toNat % 1024 := Nat.and_two_pow_sub_one_eq_mod d.toNat 10
  rw [hhigh, hlow]
  exact .surrogates (hex4_hex4 (by omega)) (hex4_hex4 (by omega)) (by omega) (by omega) (by omega)

/-- What is written for a character is a piece that stands for it. -/
theorem stringPiece_escaped (ensureAscii : Bool) (d : Char) :
    StringPiece (escaped ensureAscii d) d := by
  have hshort : ∀ {letter c : Char}, d.toNat = c.toNat → (letter, c) ∈ shortEscapes →
      StringPiece ['\\', letter] d := by
    intro letter c hd hmem
    obtain rfl := Char.toNat_inj.mp hd
    exact .short hmem
  unfold escaped
  split
  next h => exact hshort (c := '\x08') h (by decide)
  next h => exact hshort (c := '\x09') h (by decide)
  next h => exact hshort (c := '\x0A') h (by decide)
  next h => exact hshort (c := '\x0C') h (by decide)
  next h => exact hshort (c := '\x0D') h (by decide)
  next h => exact hshort (c := '"') h (by decide)
  next h => exact hshort (c := '\\') h (by decide)
  next hquote hslash =>
    split
    next =>
      split
      next hsmall => exact .unicode (hex4_hex4 (by omega))
      next hlarge => exact stringPiece_pair (by omega)
    next hplain =>
      refine .plain (by omega) ?_ ?_
      · rintro rfl
        exact hquote rfl
      · rintro rfl
        exact hslash rfl

theorem stringText_escaped (ensureAscii : Bool) (ds : List Char) :
    StringText (ds.flatMap (escaped ensureAscii)) ds := by
  induction ds with
  | nil => exact .nil
  | cons d ds ih => exact .cons (stringPiece_escaped ensureAscii d) ih

/-- The scanner gives back the string that was written. -/
theorem scanString_dumpEscaped {ensureAscii : Bool} {s : String} {text : List Char}
    (h : dumpEscaped ensureAscii s.toList = .ok text) (rest : List Char) :
    scanString [] (text ++ '"' :: rest) = some (s.toList, rest) := by
  obtain ⟨ds, hds⟩ := (isUtf8_iff_exists_chars s).mp ((dumpEscaped_ok_iff ensureAscii s).mp ⟨_, h⟩)
  rw [hds, dumpEscaped_chars] at h
  obtain rfl := Except.ok.inj h
  rw [hds]
  exact scanString_iff.mpr ⟨_, ds, stringText_escaped ensureAscii ds, rfl, rfl⟩

end Protoo.JsonText
