import Protoo.Utf8

/-!
# Characters and their bytes

`decode` of `json.hpp` is a table of 400 numbers: the class of each byte, then for each
state a row with the state that follows for each class.  The table is copied here, and
`Utf8State` is shown to name what it does.

A string passes the test of `dump_escaped` exactly when it is the encoding of a sequence
of Unicode scalar values, and the code point that `decode` puts together is then the
scalar value.  The encoding is the one of the standard library, `String.utf8EncodeChar`.
-/

namespace Protoo

/-! ## The encoding -/

/-- The UTF-8 bytes of a character. -/
def utf8Bytes (c : Char) : List ℕ := (String.utf8EncodeChar c).map UInt8.toNat

/-- The same bytes as a `std::string` holds them. -/
def utf8Chars (c : Char) : List Char := (utf8Bytes c).map Char.ofNat

/-- A character is a scalar value: no surrogate. -/
theorem scalar_range (c : Char) :
    c.toNat < 0xD800 ∨ 0xDFFF < c.toNat ∧ c.toNat < 0x110000 := c.valid

theorem utf8Bytes_one {c : Char} (h : c.toNat ≤ 0x7F) : utf8Bytes c = [c.toNat] := by
  simp [utf8Bytes, String.utf8EncodeChar, h]
  omega

theorem utf8Bytes_two {c : Char} (hlow : 0x7F < c.toNat) (hhigh : c.toNat ≤ 0x7FF) :
    utf8Bytes c = [c.toNat / 64 + 0xC0, c.toNat % 64 + 0x80] := by
  have h₁ : ¬ c.toNat ≤ 0x7F := Nat.not_le.mpr hlow
  simp [utf8Bytes, String.utf8EncodeChar, h₁, hhigh]
  omega

theorem utf8Bytes_three {c : Char} (hlow : 0x7FF < c.toNat) (hhigh : c.toNat ≤ 0xFFFF) :
    utf8Bytes c =
      [c.toNat / 4096 + 0xE0, c.toNat / 64 % 64 + 0x80, c.toNat % 64 + 0x80] := by
  have h₁ : ¬ c.toNat ≤ 0x7F := Nat.not_le.mpr (by omega)
  have h₂ : ¬ c.toNat ≤ 0x7FF := Nat.not_le.mpr hlow
  simp [utf8Bytes, String.utf8EncodeChar, h₁, h₂, hhigh]
  omega

theorem utf8Bytes_four {c : Char} (h : 0xFFFF < c.toNat) :
    utf8Bytes c =
      [c.toNat / 262144 + 0xF0, c.toNat / 4096 % 64 + 0x80, c.toNat / 64 % 64 + 0x80,
        c.toNat % 64 + 0x80] := by
  have h₁ : ¬ c.toNat ≤ 0x7F := Nat.not_le.mpr (by omega)
  have h₂ : ¬ c.toNat ≤ 0x7FF := Nat.not_le.mpr (by omega)
  have h₃ : ¬ c.toNat ≤ 0xFFFF := Nat.not_le.mpr h
  have hrange := scalar_range c
  simp [utf8Bytes, String.utf8EncodeChar, h₁, h₂, h₃]
  omega

theorem utf8Bytes_lt {c : Char} {byte : ℕ} (h : byte ∈ utf8Bytes c) : byte < 256 := by
  obtain ⟨b, -, rfl⟩ := List.mem_map.mp h
  exact b.toNat_lt

/-- The character with a given scalar value. -/
theorem exists_char_toNat {n : ℕ} (h : n < 0xD800 ∨ 0xDFFF < n ∧ n < 0x110000) :
    ∃ c : Char, c.toNat = n := by
  have hvalid : n.isValidChar := h
  exact ⟨Char.ofNat n, by rw [Char.ofNat, dif_pos hvalid]; rfl⟩

theorem toNat_ofNat_byte {byte : ℕ} (h : byte < 256) : (Char.ofNat byte).toNat = byte := by
  have hvalid : byte.isValidChar := Or.inl (by omega)
  rw [Char.ofNat, dif_pos hvalid]
  rfl

theorem map_toNat_utf8Chars (c : Char) : (utf8Chars c).map Char.toNat = utf8Bytes c := by
  rw [utf8Chars, List.map_map]
  exact (List.map_congr_left fun byte h => toNat_ofNat_byte (utf8Bytes_lt h)).trans
    (List.map_id _)

/-! ## The automaton over a character -/

namespace Utf8State

/-- `decode` over several bytes. -/
def run (state : Utf8State) (bytes : List ℕ) : Utf8State := bytes.foldl decode state

@[simp] theorem run_nil (state : Utf8State) : state.run [] = state := rfl

@[simp] theorem run_cons (state : Utf8State) (byte : ℕ) (bytes : List ℕ) :
    state.run (byte :: bytes) = (state.decode byte).run bytes := rfl

theorem run_append (state : Utf8State) (bytes more : List ℕ) :
    state.run (bytes ++ more) = (state.run bytes).run more := List.foldl_append

theorem run_reject (bytes : List ℕ) : reject.run bytes = .reject := by
  induction bytes with
  | nil => rfl
  | cons byte bytes ih => exact ih

theorem within_of_mem {low high byte : ℕ} {next : Utf8State} (hlow : low ≤ byte)
    (hhigh : byte ≤ high) : within low high byte next = next := if_pos ⟨hlow, hhigh⟩

/-- A state that waits for a byte in a range. -/
structure Waits (state : Utf8State) (low high : ℕ) (next : Utf8State) : Prop where
  decode : ∀ byte, state.decode byte = within low high byte next
  ne : state ≠ .accept
  ne_reject : state ≠ .reject

theorem waits_beforeLast : Waits .beforeLast 0x80 0xBF .accept :=
  ⟨fun _ => rfl, by decide, by decide⟩

theorem waits_beforeTwo : Waits .beforeTwo 0x80 0xBF .beforeLast :=
  ⟨fun _ => rfl, by decide, by decide⟩

theorem waits_afterE0 : Waits .afterE0 0xA0 0xBF .beforeLast :=
  ⟨fun _ => rfl, by decide, by decide⟩

theorem waits_afterED : Waits .afterED 0x80 0x9F .beforeLast :=
  ⟨fun _ => rfl, by decide, by decide⟩

theorem waits_afterF0 : Waits .afterF0 0x90 0xBF .beforeTwo :=
  ⟨fun _ => rfl, by decide, by decide⟩

theorem waits_beforeThree : Waits .beforeThree 0x80 0xBF .beforeTwo :=
  ⟨fun _ => rfl, by decide, by decide⟩

theorem waits_afterF4 : Waits .afterF4 0x80 0x8F .beforeTwo :=
  ⟨fun _ => rfl, by decide, by decide⟩


/-- A run out of a waiting state begins with a byte in the range. -/
theorem Waits.exists_byte {state next : Utf8State} {low high : ℕ}
    (h : Waits state low high next) {bytes : List ℕ} (hrun : state.run bytes = .accept) :
    ∃ byte rest, bytes = byte :: rest ∧ low ≤ byte ∧ byte ≤ high ∧ next.run rest = .accept := by
  cases bytes with
  | nil => exact absurd hrun h.ne
  | cons byte rest =>
      rw [run_cons, h.decode, within] at hrun
      split at hrun
      next hrange => exact ⟨byte, rest, rfl, hrange.1, hrange.2, hrun⟩
      next =>
        rw [run_reject] at hrun
        exact absurd hrun (by decide)

/-- The states after a first byte, each with the bytes that lead there. -/
theorem first_cases (byte : ℕ) :
    (first byte = .accept ∧ byte ≤ 0x7F) ∨
    (first byte = .beforeLast ∧ 0xC2 ≤ byte ∧ byte ≤ 0xDF) ∨
    (first byte = .afterE0 ∧ byte = 0xE0) ∨
    (first byte = .afterED ∧ byte = 0xED) ∨
    (first byte = .beforeTwo ∧ 0xE1 ≤ byte ∧ byte ≤ 0xEF ∧ byte ≠ 0xED) ∨
    (first byte = .afterF0 ∧ byte = 0xF0) ∨
    (first byte = .beforeThree ∧ 0xF1 ≤ byte ∧ byte ≤ 0xF3) ∨
    (first byte = .afterF4 ∧ byte = 0xF4) ∨
    (first byte = .reject ∧ (0x7F < byte ∧ byte < 0xC2 ∨ 0xF4 < byte)) := by
  unfold first
  split_ifs
  · exact .inl ⟨rfl, by omega⟩
  · exact .inr (.inr (.inr (.inr (.inr (.inr (.inr (.inr ⟨rfl, by omega⟩)))))))
  · exact .inr (.inl ⟨rfl, by omega, by omega⟩)
  · exact .inr (.inr (.inl ⟨rfl, by omega⟩))
  · exact .inr (.inr (.inr (.inl ⟨rfl, by omega⟩)))
  · exact .inr (.inr (.inr (.inr (.inl ⟨rfl, by omega, by omega, by omega⟩))))
  · exact .inr (.inr (.inr (.inr (.inr (.inl ⟨rfl, by omega⟩)))))
  · exact .inr (.inr (.inr (.inr (.inr (.inr (.inl ⟨rfl, by omega, by omega⟩))))))
  · exact .inr (.inr (.inr (.inr (.inr (.inr (.inr (.inl ⟨rfl, by omega⟩)))))))
  · exact .inr (.inr (.inr (.inr (.inr (.inr (.inr (.inr ⟨rfl, by omega⟩)))))))

theorem first_of_le {byte : ℕ} (h : byte ≤ 0x7F) : first byte = .accept := if_pos h

theorem first_beforeLast {byte : ℕ} (hlow : 0xC2 ≤ byte) (hhigh : byte ≤ 0xDF) :
    first byte = .beforeLast := by
  rw [first, if_neg (by omega), if_neg (by omega), if_pos hhigh]

theorem first_beforeTwo {byte : ℕ} (hlow : 0xE1 ≤ byte) (hhigh : byte ≤ 0xEF)
    (hne : byte ≠ 0xED) : first byte = .beforeTwo := by
  rw [first, if_neg (by omega), if_neg (by omega), if_neg (by omega), if_neg (by omega),
    if_neg hne, if_pos hhigh]

theorem first_beforeThree {byte : ℕ} (hlow : 0xF1 ≤ byte) (hhigh : byte ≤ 0xF3) :
    first byte = .beforeThree := by
  rw [first, if_neg (by omega), if_neg (by omega), if_neg (by omega), if_neg (by omega),
    if_neg (by omega), if_neg (by omega), if_neg (by omega), if_pos hhigh]

theorem first_of_lt {byte : ℕ} (h : 0xF4 < byte) : first byte = .reject := by
  rw [first, if_neg (by omega), if_neg (by omega), if_neg (by omega), if_neg (by omega),
    if_neg (by omega), if_neg (by omega), if_neg (by omega), if_neg (by omega),
    if_neg (by omega)]

theorem within_of_lt {low high byte : ℕ} {next : Utf8State} (h : high < byte) :
    within low high byte next = .reject := if_neg (by omega)

/-- Two bytes in their ranges are a character. -/
theorem exists_char_two {b b₁ : ℕ} (hlow : 0xC2 ≤ b) (hhigh : b ≤ 0xDF) (hlow₁ : 0x80 ≤ b₁)
    (hhigh₁ : b₁ ≤ 0xBF) : ∃ c, utf8Bytes c = [b, b₁] := by
  obtain ⟨c, hc⟩ := exists_char_toNat (n := (b - 0xC0) * 64 + (b₁ - 0x80)) (by omega)
  refine ⟨c, ?_⟩
  rw [utf8Bytes_two (by omega) (by omega), hc]
  have h₀ : ((b - 0xC0) * 64 + (b₁ - 0x80)) / 64 + 0xC0 = b := by omega
  have h₁ : ((b - 0xC0) * 64 + (b₁ - 0x80)) % 64 + 0x80 = b₁ := by omega
  rw [h₀, h₁]

/-- Three bytes, when the upper bits are those of a scalar value of that size. -/
theorem exists_char_three {b b₁ b₂ : ℕ} (hb : 0xE0 ≤ b) (hb' : b ≤ 0xEF)
    (hlow₁ : 0x80 ≤ b₁) (hhigh₁ : b₁ ≤ 0xBF) (hlow₂ : 0x80 ≤ b₂) (hhigh₂ : b₂ ≤ 0xBF)
    {upper : ℕ} (hupper : upper = (b - 0xE0) * 64 + (b₁ - 0x80)) (hsize : 0x20 ≤ upper)
    (hscalar : upper < 0x360 ∨ 0x380 ≤ upper) : ∃ c, utf8Bytes c = [b, b₁, b₂] := by
  obtain ⟨c, hc⟩ := exists_char_toNat (n := upper * 64 + (b₂ - 0x80)) (by omega)
  refine ⟨c, ?_⟩
  rw [utf8Bytes_three (by omega) (by omega), hc]
  have h₀ : (upper * 64 + (b₂ - 0x80)) / 4096 + 0xE0 = b := by omega
  have h₁ : (upper * 64 + (b₂ - 0x80)) / 64 % 64 + 0x80 = b₁ := by omega
  have h₂ : (upper * 64 + (b₂ - 0x80)) % 64 + 0x80 = b₂ := by omega
  rw [h₀, h₁, h₂]

/-- Four bytes, likewise. -/
theorem exists_char_four {b b₁ b₂ b₃ : ℕ} (hb : 0xF0 ≤ b)
    (hlow₁ : 0x80 ≤ b₁) (hhigh₁ : b₁ ≤ 0xBF) (hlow₂ : 0x80 ≤ b₂) (hhigh₂ : b₂ ≤ 0xBF)
    (hlow₃ : 0x80 ≤ b₃) (hhigh₃ : b₃ ≤ 0xBF) {upper : ℕ}
    (hupper : upper = (b - 0xF0) * 64 + (b₁ - 0x80)) (hsize : 0x10 ≤ upper)
    (hscalar : upper < 0x110) : ∃ c, utf8Bytes c = [b, b₁, b₂, b₃] := by
  obtain ⟨lower, hlower⟩ : ∃ lower, lower = (b₂ - 0x80) * 64 + (b₃ - 0x80) := ⟨_, rfl⟩
  obtain ⟨c, hc⟩ := exists_char_toNat (n := upper * 4096 + lower) (by omega)
  refine ⟨c, ?_⟩
  rw [utf8Bytes_four (by omega), hc]
  have h₀ : (upper * 4096 + lower) / 262144 + 0xF0 = b := by omega
  have h₁ : (upper * 4096 + lower) / 4096 % 64 + 0x80 = b₁ := by omega
  have h₂ : (upper * 4096 + lower) / 64 % 64 + 0x80 = b₂ := by omega
  have h₃ : (upper * 4096 + lower) % 64 + 0x80 = b₃ := by omega
  rw [h₀, h₁, h₂, h₃]

/-- After two bytes of three. -/
theorem exists_chars_beforeLast {b b₁ : ℕ} {bytes : List ℕ}
    (hchar : ∀ b₂, 0x80 ≤ b₂ → b₂ ≤ 0xBF → ∃ c, utf8Bytes c = [b, b₁, b₂])
    (hrun : beforeLast.run bytes = .accept) :
    ∃ c rest, b :: b₁ :: bytes = utf8Bytes c ++ rest ∧ accept.run rest = .accept := by
  obtain ⟨b₂, rest, rfl, hlow, hhigh, hrest⟩ := waits_beforeLast.exists_byte hrun
  obtain ⟨c, hc⟩ := hchar b₂ hlow hhigh
  exact ⟨c, rest, by rw [hc]; rfl, hrest⟩

/-- After two bytes of four. -/
theorem exists_chars_beforeTwo {b b₁ : ℕ} {bytes : List ℕ}
    (hchar : ∀ b₂ b₃, 0x80 ≤ b₂ → b₂ ≤ 0xBF → 0x80 ≤ b₃ → b₃ ≤ 0xBF →
      ∃ c, utf8Bytes c = [b, b₁, b₂, b₃])
    (hrun : beforeTwo.run bytes = .accept) :
    ∃ c rest, b :: b₁ :: bytes = utf8Bytes c ++ rest ∧ accept.run rest = .accept := by
  obtain ⟨b₂, bytes', rfl, hlow₂, hhigh₂, hrun₂⟩ := waits_beforeTwo.exists_byte hrun
  obtain ⟨b₃, rest, rfl, hlow₃, hhigh₃, hrest⟩ := waits_beforeLast.exists_byte hrun₂
  obtain ⟨c, hc⟩ := hchar b₂ b₃ hlow₂ hhigh₂ hlow₃ hhigh₃
  exact ⟨c, rest, by rw [hc]; rfl, hrest⟩

/-- An accepted sequence of bytes begins with the bytes of a character. -/
theorem exists_char_of_run {b : ℕ} {bytes : List ℕ}
    (hrun : accept.run (b :: bytes) = .accept) :
    ∃ c rest, b :: bytes = utf8Bytes c ++ rest ∧ accept.run rest = .accept := by
  have hstep : (first b).run bytes = .accept := hrun
  rcases first_cases b with ⟨hb, hle⟩ | ⟨hb, hlow, hhigh⟩ | ⟨hb, rfl⟩ | ⟨hb, rfl⟩ |
    ⟨hb, hlow, hhigh, hne⟩ | ⟨hb, rfl⟩ | ⟨hb, hlow, hhigh⟩ | ⟨hb, rfl⟩ | ⟨hb, -⟩ <;>
    rw [hb] at hstep
  · obtain ⟨c, hc⟩ := exists_char_toNat (n := b) (by omega)
    refine ⟨c, bytes, ?_, hstep⟩
    rw [utf8Bytes_one (by omega), hc]
    rfl
  · obtain ⟨b₁, rest, rfl, h₁, h₁', hrest⟩ := waits_beforeLast.exists_byte hstep
    obtain ⟨c, hc⟩ := exists_char_two hlow hhigh h₁ h₁'
    exact ⟨c, rest, by rw [hc]; rfl, hrest⟩
  · obtain ⟨b₁, bytes, rfl, h₁, h₁', hrun₁⟩ := waits_afterE0.exists_byte hstep
    exact exists_chars_beforeLast (fun b₂ h₂ h₂' => exists_char_three (by omega) (by omega)
      (by omega) h₁' h₂ h₂' rfl (by omega) (by omega)) hrun₁
  · obtain ⟨b₁, bytes, rfl, h₁, h₁', hrun₁⟩ := waits_afterED.exists_byte hstep
    exact exists_chars_beforeLast (fun b₂ h₂ h₂' => exists_char_three (by omega) (by omega)
      h₁ (by omega) h₂ h₂' rfl (by omega) (by omega)) hrun₁
  · obtain ⟨b₁, bytes, rfl, h₁, h₁', hrun₁⟩ := waits_beforeTwo.exists_byte hstep
    exact exists_chars_beforeLast (fun b₂ h₂ h₂' => exists_char_three (by omega) (by omega)
      h₁ h₁' h₂ h₂' rfl (by omega) (by omega)) hrun₁
  · obtain ⟨b₁, bytes, rfl, h₁, h₁', hrun₁⟩ := waits_afterF0.exists_byte hstep
    exact exists_chars_beforeTwo (fun b₂ b₃ h₂ h₂' h₃ h₃' => exists_char_four (by omega)
      (by omega) h₁' h₂ h₂' h₃ h₃' rfl (by omega) (by omega)) hrun₁
  · obtain ⟨b₁, bytes, rfl, h₁, h₁', hrun₁⟩ := waits_beforeThree.exists_byte hstep
    exact exists_chars_beforeTwo (fun b₂ b₃ h₂ h₂' h₃ h₃' => exists_char_four (by omega)
      h₁ h₁' h₂ h₂' h₃ h₃' rfl (by omega) (by omega)) hrun₁
  · obtain ⟨b₁, bytes, rfl, h₁, h₁', hrun₁⟩ := waits_afterF4.exists_byte hstep
    exact exists_chars_beforeTwo (fun b₂ b₃ h₂ h₂' h₃ h₃' => exists_char_four (by omega)
      h₁ (by omega) h₂ h₂' h₃ h₃' rfl (by omega) (by omega)) hrun₁
  · rw [run_reject] at hstep
    exact absurd hstep (by decide)

/-! ## The code point -/

/-- The bits of a first byte that belong to the code point. -/
def leadBits (byte : ℕ) : ℕ :=
  if byte ≤ 0x7F then byte
  else if byte ≤ 0xDF then byte - 0xC0
  else if byte ≤ 0xEF then byte - 0xE0
  else byte - 0xF0

/-- The state and the code point after a byte. -/
def advance (p : Utf8State × ℕ) (byte : ℕ) : Utf8State × ℕ :=
  (p.1.decode byte, if p.1 = .accept then leadBits byte else p.2 * 64 + byte % 64)

/-- The bytes lead from one pair to the other and no character ends on the way. -/
inductive Pending : Utf8State × ℕ → List ℕ → Utf8State × ℕ → Prop where
  | nil (p : Utf8State × ℕ) : Pending p [] p
  | cons {p q : Utf8State × ℕ} {byte : ℕ} {bytes : List ℕ}
      (haccept : (advance p byte).1 ≠ .accept) (hreject : (advance p byte).1 ≠ .reject)
      (hrest : Pending (advance p byte) bytes q) : Pending p (byte :: bytes) q

theorem Waits.advance {state next : Utf8State} {low high : ℕ} (h : Waits state low high next)
    (byte codepoint : ℕ) (hlow : low ≤ byte) (hhigh : byte ≤ high) :
    advance (state, codepoint) byte = (next, codepoint * 64 + byte % 64) := by
  rw [Utf8State.advance, h.decode, within_of_mem hlow hhigh, if_neg h.ne]

theorem advance_first {state : Utf8State} {byte : ℕ} (h : first byte = state) (codepoint : ℕ) :
    advance (.accept, codepoint) byte = (state, leadBits byte) := by
  rw [advance, if_pos rfl, decode, h]

theorem Pending.step {p q r : Utf8State × ℕ} {byte : ℕ} {bytes : List ℕ}
    (h : advance p byte = q) (haccept : q.1 ≠ .accept) (hreject : q.1 ≠ .reject)
    (hrest : Pending q bytes r) : Pending p (byte :: bytes) r := by
  subst h
  exact .cons haccept hreject hrest

/-- The bytes of the character before the last one, and the last one, with which the code
point is complete. -/
structure Completes (c : Char) (before : List ℕ) (last : ℕ) : Prop where
  bytes : utf8Bytes c = before ++ [last]
  pending : ∀ codepoint, ∃ p, Pending (.accept, codepoint) before p ∧
    p.1 ≠ .accept ∧ advance p last = (.accept, c.toNat)

/-- A character of two bytes. -/
theorem completes_two {c : Char} (hlow : 0x7F < c.toNat) (hhigh : c.toNat ≤ 0x7FF) :
    Completes c [c.toNat / 64 + 0xC0] (c.toNat % 64 + 0x80) := by
  refine ⟨utf8Bytes_two hlow hhigh, fun codepoint => ?_⟩
  have hlead : leadBits (c.toNat / 64 + 0xC0) = c.toNat / 64 := by
    unfold leadBits
    split_ifs <;> omega
  have hfirst : first (c.toNat / 64 + 0xC0) = .beforeLast :=
    first_beforeLast (by omega) (by omega)
  have hstep := advance_first hfirst codepoint
  have hlast := waits_beforeLast.advance (c.toNat % 64 + 0x80) (c.toNat / 64)
    (by omega) (by omega)
  rw [hlead] at hstep
  refine ⟨_, .step hstep waits_beforeLast.ne waits_beforeLast.ne_reject (.nil _),
    waits_beforeLast.ne, hlast.trans (congrArg (Prod.mk _) ?_)⟩
  omega

/-- The state after the first of three bytes, and the range it waits for. -/
theorem exists_waits_three {c : Char} (hlow : 0x7FF < c.toNat) (hhigh : c.toNat ≤ 0xFFFF) :
    ∃ state low high, first (c.toNat / 4096 + 0xE0) = state ∧ Waits state low high .beforeLast ∧
      low ≤ c.toNat / 64 % 64 + 0x80 ∧ c.toNat / 64 % 64 + 0x80 ≤ high := by
  have hscalar := scalar_range c
  by_cases hzero : c.toNat / 4096 = 0
  · refine ⟨_, _, _, ?_, waits_afterE0, by omega, by omega⟩
    rw [hzero]
    rfl
  · by_cases hsurrogates : c.toNat / 4096 = 13
    · refine ⟨_, _, _, ?_, waits_afterED, by omega, by omega⟩
      rw [hsurrogates]
      rfl
    · exact ⟨_, _, _, first_beforeTwo (by omega) (by omega) (by omega), waits_beforeTwo,
        by omega, by omega⟩

/-- A character of three bytes. -/
theorem completes_three {c : Char} (hlow : 0x7FF < c.toNat) (hhigh : c.toNat ≤ 0xFFFF) :
    Completes c [c.toNat / 4096 + 0xE0, c.toNat / 64 % 64 + 0x80] (c.toNat % 64 + 0x80) := by
  refine ⟨utf8Bytes_three hlow hhigh, fun codepoint => ?_⟩
  obtain ⟨state, low, high, hfirst, hwaits, hmem, hmem'⟩ := exists_waits_three hlow hhigh
  have hlead : leadBits (c.toNat / 4096 + 0xE0) = c.toNat / 4096 := by
    unfold leadBits
    split_ifs <;> omega
  have hstep := advance_first hfirst codepoint
  rw [hlead] at hstep
  have hsecond := hwaits.advance _ (c.toNat / 4096) hmem hmem'
  have hlast := waits_beforeLast.advance (c.toNat % 64 + 0x80)
    (c.toNat / 4096 * 64 + (c.toNat / 64 % 64 + 0x80) % 64) (by omega) (by omega)
  refine ⟨_, .step hstep hwaits.ne hwaits.ne_reject
    (.step hsecond waits_beforeLast.ne waits_beforeLast.ne_reject (.nil _)),
    waits_beforeLast.ne, hlast.trans (congrArg (Prod.mk _) ?_)⟩
  omega

/-- The state after the first of four bytes, and the range it waits for. -/
theorem exists_waits_four {c : Char} (h : 0xFFFF < c.toNat) :
    ∃ state low high, first (c.toNat / 262144 + 0xF0) = state ∧ Waits state low high .beforeTwo ∧
      low ≤ c.toNat / 4096 % 64 + 0x80 ∧ c.toNat / 4096 % 64 + 0x80 ≤ high := by
  have hscalar := scalar_range c
  by_cases hzero : c.toNat / 262144 = 0
  · refine ⟨_, _, _, ?_, waits_afterF0, by omega, by omega⟩
    rw [hzero]
    rfl
  · by_cases hlast : c.toNat / 262144 = 4
    · refine ⟨_, _, _, ?_, waits_afterF4, by omega, by omega⟩
      rw [hlast]
      rfl
    · exact ⟨_, _, _, first_beforeThree (by omega) (by omega), waits_beforeThree,
        by omega, by omega⟩

/-- A character of four bytes. -/
theorem completes_four {c : Char} (h : 0xFFFF < c.toNat) :
    Completes c [c.toNat / 262144 + 0xF0, c.toNat / 4096 % 64 + 0x80, c.toNat / 64 % 64 + 0x80]
      (c.toNat % 64 + 0x80) := by
  refine ⟨utf8Bytes_four h, fun codepoint => ?_⟩
  obtain ⟨state, low, high, hfirst, hwaits, hmem, hmem'⟩ := exists_waits_four h
  have hlead : leadBits (c.toNat / 262144 + 0xF0) = c.toNat / 262144 := by
    unfold leadBits
    split_ifs <;> omega
  have hstep := advance_first hfirst codepoint
  rw [hlead] at hstep
  have hsecond := hwaits.advance _ (c.toNat / 262144) hmem hmem'
  have hthird := waits_beforeTwo.advance (c.toNat / 64 % 64 + 0x80)
    (c.toNat / 262144 * 64 + (c.toNat / 4096 % 64 + 0x80) % 64) (by omega) (by omega)
  have hlast := waits_beforeLast.advance (c.toNat % 64 + 0x80)
    ((c.toNat / 262144 * 64 + (c.toNat / 4096 % 64 + 0x80) % 64) * 64 +
      (c.toNat / 64 % 64 + 0x80) % 64) (by omega) (by omega)
  refine ⟨_, .step hstep hwaits.ne hwaits.ne_reject
    (.step hsecond waits_beforeTwo.ne waits_beforeTwo.ne_reject
      (.step hthird waits_beforeLast.ne waits_beforeLast.ne_reject (.nil _))),
    waits_beforeLast.ne, hlast.trans (congrArg (Prod.mk _) ?_)⟩
  omega

/-- A character that is not of one byte. -/
theorem exists_completes {c : Char} (h : 0x7F < c.toNat) :
    ∃ before last, Completes c before last := by
  by_cases htwo : c.toNat ≤ 0x7FF
  · exact ⟨_, _, completes_two h htwo⟩
  · by_cases hthree : c.toNat ≤ 0xFFFF
    · exact ⟨_, _, completes_three (by omega) hthree⟩
    · exact ⟨_, _, completes_four (by omega)⟩

theorem run_eq_of_pending {p q : Utf8State × ℕ} {bytes : List ℕ} (h : Pending p bytes q) :
    p.1.run bytes = q.1 := by
  induction h with
  | nil p => rfl
  | cons haccept hreject hrest ih => exact ih

/-- The bytes of a character are accepted. -/
theorem run_utf8Bytes (c : Char) : accept.run (utf8Bytes c) = .accept := by
  by_cases h : c.toNat ≤ 0x7F
  · rw [utf8Bytes_one h]
    exact first_of_le h
  · obtain ⟨before, last, hcompletes⟩ := exists_completes (by omega : 0x7F < c.toNat)
    obtain ⟨p, hpending, -, hlast⟩ := hcompletes.pending 0
    rw [hcompletes.bytes, run_append, run_eq_of_pending hpending]
    exact congrArg Prod.fst hlast

end Utf8State

/-! ## Valid strings -/

theorem run_iff_exists_chars {bytes : List ℕ} :
    Utf8State.accept.run bytes = .accept ↔ ∃ cs : List Char, bytes = cs.flatMap utf8Bytes := by
  constructor
  · intro h
    induction hlength : bytes.length using Nat.strong_induction_on generalizing bytes with
    | h length ih =>
        cases bytes with
        | nil => exact ⟨[], rfl⟩
        | cons b bytes =>
            obtain ⟨c, rest, hsplit, hrest⟩ := Utf8State.exists_char_of_run h
            have hpos : 0 < (utf8Bytes c).length := by
              simp [utf8Bytes, c.utf8Size_pos]
            have hless : rest.length < length := by
              have := congrArg List.length hsplit
              rw [List.length_append, hlength] at this
              omega
            obtain ⟨cs, rfl⟩ := ih rest.length hless hrest rfl
            exact ⟨c :: cs, hsplit⟩
  · rintro ⟨cs, rfl⟩
    induction cs with
    | nil => rfl
    | cons c cs ih =>
        rw [List.flatMap_cons, Utf8State.run_append, Utf8State.run_utf8Bytes, ih]

theorem isUtf8_eq_run (s : String) :
    isUtf8 s = decide (Utf8State.accept.run (s.toList.map Char.toNat) = .accept) := by
  rw [isUtf8, Utf8State.run, List.foldl_map]

theorem map_ofNat_toNat (cs : List Char) : (cs.map Char.toNat).map Char.ofNat = cs := by
  rw [List.map_map]
  exact (List.map_congr_left fun c _ => Char.ofNat_toNat c).trans (List.map_id _)

/-- The valid strings are the encodings of sequences of scalar values. -/
theorem isUtf8_iff_exists_chars (s : String) :
    isUtf8 s = true ↔ ∃ cs : List Char, s.toList = cs.flatMap utf8Chars := by
  rw [isUtf8_eq_run, decide_eq_true_iff, run_iff_exists_chars]
  constructor
  · rintro ⟨cs, hcs⟩
    refine ⟨cs, ?_⟩
    rw [← map_ofNat_toNat s.toList, hcs, List.map_flatMap]
    rfl
  · rintro ⟨cs, hcs⟩
    refine ⟨cs, ?_⟩
    rw [hcs, List.map_flatMap]
    exact List.flatMap_congr fun c _ => map_toNat_utf8Chars c

/-! ## The table -/

namespace JsonText

/-- `utf8d` -/
def utf8d : List ℕ := [
  0, 0, 0, 0, 0, 0, 0, 0, 0, 0, 0, 0, 0, 0, 0, 0, 0, 0, 0, 0, 0, 0, 0, 0, 0, 0, 0, 0, 0, 0, 0, 0,
  0, 0, 0, 0, 0, 0, 0, 0, 0, 0, 0, 0, 0, 0, 0, 0, 0, 0, 0, 0, 0, 0, 0, 0, 0, 0, 0, 0, 0, 0, 0, 0,
  0, 0, 0, 0, 0, 0, 0, 0, 0, 0, 0, 0, 0, 0, 0, 0, 0, 0, 0, 0, 0, 0, 0, 0, 0, 0, 0, 0, 0, 0, 0, 0,
  0, 0, 0, 0, 0, 0, 0, 0, 0, 0, 0, 0, 0, 0, 0, 0, 0, 0, 0, 0, 0, 0, 0, 0, 0, 0, 0, 0, 0, 0, 0, 0,
  1, 1, 1, 1, 1, 1, 1, 1, 1, 1, 1, 1, 1, 1, 1, 1, 9, 9, 9, 9, 9, 9, 9, 9, 9, 9, 9, 9, 9, 9, 9, 9,
  7, 7, 7, 7, 7, 7, 7, 7, 7, 7, 7, 7, 7, 7, 7, 7, 7, 7, 7, 7, 7, 7, 7, 7, 7, 7, 7, 7, 7, 7, 7, 7,
  8, 8, 2, 2, 2, 2, 2, 2, 2, 2, 2, 2, 2, 2, 2, 2, 2, 2, 2, 2, 2, 2, 2, 2, 2, 2, 2, 2, 2, 2, 2, 2,
  10, 3, 3, 3, 3, 3, 3, 3, 3, 3, 3, 3, 3, 4, 3, 3,
  11, 6, 6, 6, 5, 8, 8, 8, 8, 8, 8, 8, 8, 8, 8, 8,
  0, 1, 2, 3, 5, 8, 7, 1, 1, 1, 4, 6, 1, 1, 1, 1,
  1, 1, 1, 1, 1, 1, 1, 1, 1, 1, 1, 1, 1, 1, 1, 1, 1, 0, 1, 1, 1, 1, 1, 0, 1, 0, 1, 1, 1, 1, 1, 1,
  1, 2, 1, 1, 1, 1, 1, 2, 1, 2, 1, 1, 1, 1, 1, 1, 1, 1, 1, 1, 1, 1, 1, 2, 1, 1, 1, 1, 1, 1, 1, 1,
  1, 2, 1, 1, 1, 1, 1, 1, 1, 2, 1, 1, 1, 1, 1, 1, 1, 1, 1, 1, 1, 1, 1, 3, 1, 3, 1, 1, 1, 1, 1, 1,
  1, 3, 1, 1, 1, 1, 1, 3, 1, 3, 1, 1, 1, 1, 1, 1, 1, 3, 1, 1, 1, 1, 1, 1, 1, 1, 1, 1, 1, 1, 1, 1]

/-- The class of a byte.  A character that is no byte gets the class of the bytes that no
encoding has. -/
def byteClass (byte : ℕ) : ℕ := if byte < 256 then utf8d.getD byte 8 else 8

/-- `decode`: the new state and the new code point. -/
def decode (state codepoint byte : ℕ) : ℕ × ℕ :=
  let type := byteClass byte
  (utf8d.getD (256 + state * 16 + type) 1,
    if state ≠ 0 then (byte &&& 0x3F) ||| (codepoint <<< 6) else (0xFF >>> type) &&& byte)

theorem decode_snd (state codepoint byte : ℕ) :
    (decode state codepoint byte).2 =
      if state ≠ 0 then (byte &&& 0x3F) ||| (codepoint <<< 6)
      else (0xFF >>> byteClass byte) &&& byte := rfl

end JsonText

namespace Utf8State

/-- The number of the state in the table. -/
def number : Utf8State → ℕ
  | .accept => 0
  | .reject => 1
  | .beforeLast => 2
  | .beforeTwo => 3
  | .afterE0 => 4
  | .afterED => 5
  | .afterF0 => 6
  | .beforeThree => 7
  | .afterF4 => 8

/-- The row of the state in the table. -/
def row : Utf8State → List ℕ
  | .accept => [0, 1, 2, 3, 5, 8, 7, 1, 1, 1, 4, 6, 1, 1, 1, 1]
  | .reject => [1, 1, 1, 1, 1, 1, 1, 1, 1, 1, 1, 1, 1, 1, 1, 1]
  | .beforeLast => [1, 0, 1, 1, 1, 1, 1, 0, 1, 0, 1, 1, 1, 1, 1, 1]
  | .beforeTwo => [1, 2, 1, 1, 1, 1, 1, 2, 1, 2, 1, 1, 1, 1, 1, 1]
  | .afterE0 => [1, 1, 1, 1, 1, 1, 1, 2, 1, 1, 1, 1, 1, 1, 1, 1]
  | .afterED => [1, 2, 1, 1, 1, 1, 1, 1, 1, 2, 1, 1, 1, 1, 1, 1]
  | .afterF0 => [1, 1, 1, 1, 1, 1, 1, 3, 1, 3, 1, 1, 1, 1, 1, 1]
  | .beforeThree => [1, 3, 1, 1, 1, 1, 1, 3, 1, 3, 1, 1, 1, 1, 1, 1]
  | .afterF4 => [1, 3, 1, 1, 1, 1, 1, 1, 1, 1, 1, 1, 1, 1, 1, 1]

theorem row_eq (state : Utf8State) :
    (JsonText.utf8d.drop (256 + state.number * 16)).take 16 = state.row := by
  cases state <;> decide +kernel

theorem byteClass_lt (byte : ℕ) : JsonText.byteClass byte < 12 := by
  unfold JsonText.byteClass
  split
  next hbyte =>
    have hclasses : ∀ type ∈ JsonText.utf8d.take 256, type < 12 := by decide +kernel
    refine hclasses _ ?_
    rw [List.getD_eq_getElem?_getD]
    have hget : (JsonText.utf8d.take 256)[byte]? = JsonText.utf8d[byte]? :=
      List.getElem?_take_of_lt hbyte
    have hlength : byte < (JsonText.utf8d.take 256).length := by
      have : (JsonText.utf8d.take 256).length = 256 := by decide +kernel
      omega
    rw [← hget, List.getElem?_eq_getElem hlength]
    exact List.getElem_mem hlength
  next => decide

theorem getD_row (state : Utf8State) {type : ℕ} (h : type < 16) :
    JsonText.utf8d.getD (256 + state.number * 16 + type) 1 = state.row.getD type 1 := by
  rw [← row_eq, List.getD_eq_getElem?_getD, List.getD_eq_getElem?_getD,
    List.getElem?_take_of_lt h, List.getElem?_drop]

/-- The table does what the states say. -/
theorem decode_number_fst (state : Utf8State) (codepoint byte : ℕ) :
    (JsonText.decode state.number codepoint byte).1 = (state.decode byte).number := by
  have hbytes : ∀ entry ∈ (JsonText.utf8d.take 256).zipIdx,
      state.row.getD entry.1 1 = (state.decode entry.2).number := by
    cases state <;> decide +kernel
  refine (getD_row state (Nat.lt_trans (byteClass_lt byte) (by decide))).trans ?_
  by_cases hbyte : byte < 256
  · have hlength : byte < JsonText.utf8d.length := by
      have : JsonText.utf8d.length = 400 := by decide +kernel
      omega
    have hclass : JsonText.byteClass byte = JsonText.utf8d[byte] := by
      rw [JsonText.byteClass, if_pos hbyte, List.getD_eq_getElem?_getD,
        List.getElem?_eq_getElem hlength, Option.getD_some]
    rw [hclass]
    refine hbytes (JsonText.utf8d[byte], byte) (List.mk_mem_zipIdx_iff_getElem?.mpr ?_)
    rw [List.getElem?_take_of_lt hbyte, List.getElem?_eq_getElem hlength]
  · have hclass : JsonText.byteClass byte = 8 := if_neg hbyte
    have hreject : state.decode byte = .reject := by
      cases state <;>
        first | exact first_of_lt (by omega) | exact within_of_lt (by omega) | rfl
    rw [hreject, hclass]
    cases state <;> rfl

theorem number_ne_zero {state : Utf8State} (h : state ≠ .accept) : state.number ≠ 0 := by
  cases state <;> first | exact absurd rfl h | decide

theorem lead_eq_leadBits {byte : ℕ} (h : first byte ≠ .reject) :
    (0xFF >>> JsonText.byteClass byte) &&& byte = leadBits byte := by
  have hbytes : ∀ b < 256, first b ≠ .reject →
      (0xFF >>> JsonText.byteClass b) &&& b = leadBits b := by decide +kernel
  by_cases hbyte : byte < 256
  · exact hbytes byte hbyte h
  · rcases first_cases byte with h' | h' | h' | h' | h' | h' | h' | h' | h' <;>
      first | omega | exact absurd h'.1 h

theorem push_eq (codepoint byte : ℕ) :
    (byte &&& 0x3F) ||| (codepoint <<< 6) = codepoint * 64 + byte % 64 := by
  have hmask : byte &&& 0x3F = byte % 64 := Nat.and_two_pow_sub_one_eq_mod byte 6
  have hlt : byte % 64 < 2 ^ 6 := Nat.mod_lt _ (by decide)
  rw [hmask, Nat.or_comm, ← Nat.shiftLeft_add_eq_or_of_lt hlt, Nat.shiftLeft_eq]

theorem advance_snd (p : Utf8State × ℕ) (byte : ℕ) :
    (advance p byte).2 = if p.1 = .accept then leadBits byte else p.2 * 64 + byte % 64 := rfl

/-- The table keeps the code point as well. -/
theorem decode_number {p : Utf8State × ℕ} {byte : ℕ} (h : p.1.decode byte ≠ .reject) :
    JsonText.decode p.1.number p.2 byte =
      ((advance p byte).1.number, (advance p byte).2) := by
  refine Prod.ext (decode_number_fst p.1 p.2 byte) ?_
  obtain ⟨state, codepoint⟩ := p
  rw [advance_snd, JsonText.decode_snd]
  by_cases haccept : state = .accept
  · subst haccept
    rw [if_pos rfl, if_neg fun hne => hne rfl]
    exact lead_eq_leadBits h
  · rw [if_neg haccept, if_pos (number_ne_zero haccept), push_eq]

end Utf8State

end Protoo
