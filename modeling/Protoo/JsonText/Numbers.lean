import Protoo.Support.Munch
import Mathlib.Algebra.Group.Int.Defs
import Mathlib.Algebra.Group.Nat.Defs
import Mathlib.Data.Nat.Notation
import Mathlib.Data.Int.Notation
import Mathlib.Data.Rat.Defs
import Mathlib.Logic.Function.Basic
import Mathlib.Tactic.SplitIfs

/-!
# Numbers in the text

`dump_integer` fills `number_buffer` from behind, two digits at a time, from the position
that `count_digits` gives.  `scan_number` is an automaton that goes on as long as it can;
the words it accepts are the numbers of the grammar in RFC 8259, stated here as such.
-/

namespace Protoo.JsonText

open Protoo.Support

/-! ## Writing an integer -/

/-- The loop of `count_digits`. -/
def countDigitsFrom (digits x : ℕ) : ℕ :=
  if x < 10 then digits
  else if x < 100 then digits + 1
  else if x < 1000 then digits + 2
  else if x < 10000 then digits + 3
  else countDigitsFrom (digits + 4) (x / 10000)
termination_by x
decreasing_by omega

/-- `count_digits` -/
def countDigits (x : ℕ) : ℕ := countDigitsFrom 1 x

/-- The entry of `digits_to_99` is written in front of the pointer. -/
def putPair (pair pointer : ℕ) (buffer : ℕ → Char) : ℕ → Char :=
  Function.update (Function.update buffer (pointer - 1) (Nat.digitChar (pair % 10)))
    (pointer - 2) (Nat.digitChar (pair / 10))

/-- The digits are written in front of the pointer: where they begin, and the buffer. -/
def writeDigits (x pointer : ℕ) (buffer : ℕ → Char) : ℕ × (ℕ → Char) :=
  if 100 ≤ x then writeDigits (x / 100) (pointer - 2) (putPair (x % 100) pointer buffer)
  else if 10 ≤ x then (pointer - 2, putPair x pointer buffer)
  else (pointer - 1, Function.update buffer (pointer - 1) (Char.ofNat ('0'.toNat + x)))
termination_by x
decreasing_by omega

/-- `remove_sign` -/
def removeSign (x : ℤ) : ℕ := (-(x + 1)).toNat + 1

/-- The number of characters of an integer other than zero. -/
def numberLength (x : ℤ) : ℕ :=
  if x < 0 then 1 + countDigits (removeSign x) else countDigits x.toNat

/-- `dump_integer`; the buffer holds what was left there. -/
def dumpInteger (buffer : ℕ → Char) (x : ℤ) : List Char :=
  if x = 0 then ['0']
  else
    let value := if x < 0 then removeSign x else x.toNat
    let buffer := if x < 0 then Function.update buffer 0 '-' else buffer
    (List.range (numberLength x)).map (writeDigits value (numberLength x) buffer).2

/-! ## The decimal digits -/

theorem digitChar_eq_ofNat {n : ℕ} (h : n < 10) : Char.ofNat ('0'.toNat + n) = Nat.digitChar n := by
  have hall : ∀ k < 10, Char.ofNat ('0'.toNat + k) = Nat.digitChar k := by decide
  exact hall n h

theorem toDigits_pair {x : ℕ} (h : 10 ≤ x) (hlt : x < 100) :
    Nat.toDigits 10 x = [Nat.digitChar (x / 10), Nat.digitChar (x % 10)] := by
  rw [Nat.toDigits_of_base_le (by decide) h, Nat.toDigits_of_lt_base (by omega)]
  rfl

theorem toDigits_hundred {x : ℕ} (h : 100 ≤ x) :
    Nat.toDigits 10 x = Nat.toDigits 10 (x / 100) ++
      [Nat.digitChar (x % 100 / 10), Nat.digitChar (x % 100 % 10)] := by
  have htens : x / 10 / 10 = x / 100 := Nat.div_div_eq_div_mul x 10 10
  have hdigit : x / 10 % 10 = x % 100 / 10 := by omega
  have hlast : x % 10 = x % 100 % 10 := by omega
  rw [Nat.toDigits_of_base_le (by decide) (by omega : 10 ≤ x),
    Nat.toDigits_of_base_le (by decide) (by omega : 10 ≤ x / 10), htens, hdigit, hlast,
    List.append_assoc]
  rfl

theorem countDigitsFrom_eq (digits x : ℕ) :
    countDigitsFrom digits x + 1 = digits + (Nat.toDigits 10 x).length := by
  have hlength : ∀ y, 10 ≤ y →
      (Nat.toDigits 10 y).length = (Nat.toDigits 10 (y / 10)).length + 1 := by
    intro y hy
    rw [Nat.toDigits_of_base_le (by decide) hy, List.length_append]
    rfl
  have hone : ∀ y, y < 10 → (Nat.toDigits 10 y).length = 1 := by
    intro y hy
    rw [Nat.toDigits_of_lt_base hy]
    rfl
  induction digits, x using countDigitsFrom.induct with
  | case1 digits x h => rw [countDigitsFrom, if_pos h, hone x h]
  | case2 digits x h₁ h =>
      rw [countDigitsFrom, if_neg h₁, if_pos h, hlength x (by omega), hone _ (by omega)]
  | case3 digits x h₁ h₂ h =>
      rw [countDigitsFrom, if_neg h₁, if_neg h₂, if_pos h, hlength x (by omega),
        hlength _ (by omega), hone _ (by omega)]
  | case4 digits x h₁ h₂ h₃ h =>
      rw [countDigitsFrom, if_neg h₁, if_neg h₂, if_neg h₃, if_pos h, hlength x (by omega),
        hlength _ (by omega), hlength _ (by omega), hone _ (by omega)]
  | case5 digits x h₁ h₂ h₃ h ih =>
      have hdiv : x / 10 / 10 / 10 / 10 = x / 10000 := by omega
      rw [countDigitsFrom, if_neg h₁, if_neg h₂, if_neg h₃, if_neg h, ih, hlength x (by omega),
        hlength (x / 10) (by omega), hlength (x / 10 / 10) (by omega),
        hlength (x / 10 / 10 / 10) (by omega), hdiv]
      omega

/-- `count_digits` counts the digits. -/
theorem countDigits_eq (x : ℕ) : countDigits x = (Nat.toDigits 10 x).length := by
  have := countDigitsFrom_eq 1 x
  rw [countDigits]
  omega

/-- The characters of the buffer from a position on. -/
def segment (buffer : ℕ → Char) (start count : ℕ) : List Char :=
  (List.range' start count).map buffer

theorem segment_append (buffer : ℕ → Char) (start m n : ℕ) :
    segment buffer start (m + n) = segment buffer start m ++ segment buffer (start + m) n := by
  rw [segment, ← List.range'_append_1, List.map_append]
  rfl

theorem segment_congr {buffer buffer' : ℕ → Char} {start count : ℕ}
    (h : ∀ i, start ≤ i → i < start + count → buffer i = buffer' i) :
    segment buffer start count = segment buffer' start count := by
  refine List.map_congr_left fun i hi => ?_
  obtain ⟨hlow, hhigh⟩ := List.mem_range'_1.mp hi
  exact h i hlow hhigh

theorem putPair_of_lt {pair pointer i : ℕ} (buffer : ℕ → Char) (h : i < pointer - 2) :
    putPair pair pointer buffer i = buffer i := by
  rw [putPair, Function.update_of_ne (by omega), Function.update_of_ne (by omega)]

theorem putPair_of_le {pair pointer i : ℕ} (buffer : ℕ → Char) (h : pointer ≤ i)
    (hpointer : 2 ≤ pointer) : putPair pair pointer buffer i = buffer i := by
  rw [putPair, Function.update_of_ne (by omega), Function.update_of_ne (by omega)]

theorem segment_putPair {pair pointer : ℕ} (buffer : ℕ → Char) (h : 2 ≤ pointer) :
    segment (putPair pair pointer buffer) (pointer - 2) 2 =
      [Nat.digitChar (pair / 10), Nat.digitChar (pair % 10)] := by
  have hsecond : pointer - 2 + 1 = pointer - 1 := by omega
  have hne : pointer - 1 ≠ pointer - 2 := by omega
  simp [segment, putPair, List.range'_succ, hsecond, Function.update_of_ne hne]

/-- Where the digits begin is as far in front of the pointer as there are digits; they are
the decimal digits, and nothing else in the buffer changes. -/
structure Written (x pointer : ℕ) (buffer : ℕ → Char) (result : ℕ × (ℕ → Char)) : Prop where
  start : result.1 + (Nat.toDigits 10 x).length = pointer
  digits : segment result.2 result.1 (Nat.toDigits 10 x).length = Nat.toDigits 10 x
  before : ∀ i < result.1, result.2 i = buffer i
  after : ∀ i, pointer ≤ i → result.2 i = buffer i

theorem writeDigits_written (x pointer : ℕ) (buffer : ℕ → Char)
    (_ : (Nat.toDigits 10 x).length ≤ pointer) :
    Written x pointer buffer (writeDigits x pointer buffer) := by
  induction x, pointer, buffer using writeDigits.induct with
  | case1 x pointer buffer hlarge ih =>
      rw [writeDigits, if_pos hlarge]
      have hdigits := toDigits_hundred hlarge
      have hlength : (Nat.toDigits 10 x).length = (Nat.toDigits 10 (x / 100)).length + 2 := by
        rw [hdigits, List.length_append]
        rfl
      have hwritten := ih (by omega)
      have hstart := hwritten.start
      refine ⟨by omega, ?_, fun i hi => ?_, fun i hi => ?_⟩
      · have hpair : segment (writeDigits (x / 100) (pointer - 2)
            (putPair (x % 100) pointer buffer)).2 (pointer - 2) 2 =
            [Nat.digitChar (x % 100 / 10), Nat.digitChar (x % 100 % 10)] := by
          rw [← segment_putPair buffer (by omega : 2 ≤ pointer)]
          exact segment_congr fun i hi _ => hwritten.after i hi
        rw [hlength, segment_append, hwritten.digits, hstart, hpair, ← hdigits]
      · rw [hwritten.before i hi, putPair_of_lt buffer (by omega)]
      · rw [hwritten.after i (by omega), putPair_of_le buffer hi (by omega)]
  | case2 x pointer buffer hsmall htwo =>
      rw [writeDigits, if_neg hsmall, if_pos htwo]
      have hdigits := toDigits_pair htwo (by omega)
      have hlength : (Nat.toDigits 10 x).length = 2 := by rw [hdigits]; rfl
      refine ⟨?_, ?_, fun i hi => putPair_of_lt buffer hi,
        fun i hi => putPair_of_le buffer hi (by omega)⟩
      · rw [hlength]
        exact Nat.sub_add_cancel (by omega)
      · rw [hlength, segment_putPair buffer (by omega), hdigits]
  | case3 x pointer buffer hsmall hone =>
      rw [writeDigits, if_neg hsmall, if_neg hone]
      have hdigits := Nat.toDigits_of_lt_base (b := 10) (by omega : x < 10)
      have hlength : (Nat.toDigits 10 x).length = 1 := by rw [hdigits]; rfl
      refine ⟨?_, ?_, fun i hi => Function.update_of_ne (by omega) _ _,
        fun i hi => Function.update_of_ne (by omega) _ _⟩
      · rw [hlength]
        exact Nat.sub_add_cancel (by omega)
      · rw [hlength, hdigits, digitChar_eq_ofNat (by omega)]
        simp [segment]

theorem removeSign_eq {x : ℤ} (_ : x < 0) : removeSign x = x.natAbs := by
  rw [removeSign]
  omega

theorem numberLength_eq (x : ℤ) :
    numberLength x = (if x < 0 then 1 else 0) + (Nat.toDigits 10 x.natAbs).length := by
  rw [numberLength]
  split
  next hneg => rw [removeSign_eq hneg, countDigits_eq]
  next hpos =>
    have hnat : x.toNat = x.natAbs := by omega
    rw [hnat, countDigits_eq, Nat.zero_add]

/-- The decimal text of an integer. -/
def integerText (x : ℤ) : List Char :=
  (if x < 0 then ['-'] else []) ++ Nat.toDigits 10 x.natAbs

/-- `dump_integer` writes the decimal text, whatever the buffer held. -/
theorem dumpInteger_eq (buffer : ℕ → Char) (x : ℤ) : dumpInteger buffer x = integerText x := by
  by_cases hzero : x = 0
  · subst hzero
    rfl
  · have hlength := numberLength_eq x
    rw [dumpInteger, if_neg hzero, integerText]
    by_cases hneg : x < 0
    · rw [if_pos hneg] at hlength
      simp only [if_pos hneg, removeSign_eq hneg]
      have hwritten := writeDigits_written x.natAbs (numberLength x)
        (Function.update buffer 0 '-') (by omega)
      have hstart :
          (writeDigits x.natAbs (numberLength x) (Function.update buffer 0 '-')).1 = 1 := by
        have := hwritten.start
        omega
      have hdigits := hwritten.digits
      have hsign := hwritten.before 0 (by omega)
      rw [hstart] at hdigits
      rw [List.range_eq_range', ← segment, hlength, segment_append, Nat.zero_add, ← hlength,
        hdigits]
      simp [segment, hsign]
    · rw [if_neg hneg, Nat.zero_add] at hlength
      have hnat : x.toNat = x.natAbs := by omega
      simp only [if_neg hneg, hnat]
      have hwritten := writeDigits_written x.natAbs (numberLength x) buffer (by omega)
      have hstart : (writeDigits x.natAbs (numberLength x) buffer).1 = 0 := by
        have := hwritten.start
        omega
      have hdigits := hwritten.digits
      rw [hstart] at hdigits
      rw [List.range_eq_range', ← segment, hlength, ← hlength, hlength, List.nil_append]
      rw [hlength] at hdigits
      exact hdigits

/-- The text of a 64-bit integer fits into the buffer, with the byte to spare that the
assertion asks for. -/
theorem numberLength_lt {x : ℤ} (hlow : -2 ^ 63 ≤ x) (hhigh : x < 2 ^ 64) :
    numberLength x < 63 := by
  have hdigits : (Nat.toDigits 10 x.natAbs).length ≤ 20 :=
    (Nat.length_toDigits_le_iff (by decide) (by decide)).mpr (by omega)
  rw [numberLength_eq x]
  split <;> omega

/-! ## Reading a number -/

/-- The labels of `scan_number`. -/
inductive NumberState where
  | init
  | minus
  | zero
  | any1
  | decimal1
  | decimal2
  | exponent
  | sign
  | any2
  deriving DecidableEq

inductive NumberType where
  | unsigned
  | integer
  | float
  deriving DecidableEq

def isNonzeroDigit (c : Char) : Bool := decide ('1' ≤ c ∧ c ≤ '9')

/-- The characters on which each state goes on. -/
def NumberState.move (state : NumberState) (c : Char) : Option NumberState :=
  match state with
  | .init =>
      if c = '-' then some .minus
      else if c = '0' then some .zero
      else if isNonzeroDigit c = true then some .any1
      else none
  | .minus =>
      if c = '0' then some .zero else if isNonzeroDigit c = true then some .any1 else none
  | .zero =>
      if c = '.' then some .decimal1
      else if c = 'e' ∨ c = 'E' then some .exponent
      else none
  | .any1 =>
      if c.isDigit = true then some .any1
      else if c = '.' then some .decimal1
      else if c = 'e' ∨ c = 'E' then some .exponent
      else none
  | .decimal1 => if c.isDigit = true then some .decimal2 else none
  | .decimal2 =>
      if c.isDigit = true then some .decimal2
      else if c = 'e' ∨ c = 'E' then some .exponent
      else none
  | .exponent =>
      if c = '+' ∨ c = '-' then some .sign
      else if c.isDigit = true then some .any2
      else none
  | .sign => if c.isDigit = true then some .any2 else none
  | .any2 => if c.isDigit = true then some .any2 else none

/-- The states in which another character ends the number; in the others it is an
error. -/
def NumberState.done : NumberState → Bool
  | .zero => true
  | .any1 => true
  | .decimal2 => true
  | .any2 => true
  | _ => false

/-- `number_type` at the beginning of a state. -/
def NumberState.enter (state : NumberState) (type : NumberType) : NumberType :=
  match state with
  | .minus => .integer
  | .decimal1 => .float
  | .exponent => .float
  | _ => type

/-- `scan_number` from a state on: `number_type`, `token_buffer` and what is left of the
input, where the character that ended the number stands again. -/
def scanNumberFrom (state : NumberState) (type : NumberType) (buffer : List Char) :
    List Char → Option (NumberType × List Char × List Char)
  | [] => if state.done = true then some (type, buffer, []) else none
  | c :: input =>
      match state.move c with
      | some next => scanNumberFrom next (next.enter type) (buffer ++ [c]) input
      | none => if state.done = true then some (type, buffer, c :: input) else none

/-- `scan_number` -/
def scanNumber (input : List Char) : Option (NumberType × List Char × List Char) :=
  scanNumberFrom .init .unsigned [] input

/-! ## The grammar of numbers -/

/-- One digit or more. -/
def Digits (text : List Char) : Prop := text ≠ [] ∧ ∀ c ∈ text, c.isDigit = true

/-- `int` -/
inductive IntText : List Char → Prop where
  | zero : IntText ['0']
  | digits {c : Char} {text : List Char} (hc : isNonzeroDigit c = true)
      (htext : ∀ d ∈ text, d.isDigit = true) : IntText (c :: text)

/-- `[ frac ]` -/
inductive FracText : List Char → Prop where
  | nil : FracText []
  | digits {text : List Char} (htext : Digits text) : FracText ('.' :: text)

/-- `[ exp ]` -/
inductive ExpText : List Char → Prop where
  | nil : ExpText []
  | unsigned {e : Char} {text : List Char} (he : e = 'e' ∨ e = 'E') (htext : Digits text) :
      ExpText (e :: text)
  | signed {e sign : Char} {text : List Char} (he : e = 'e' ∨ e = 'E')
      (hsign : sign = '+' ∨ sign = '-') (htext : Digits text) : ExpText (e :: sign :: text)

/-- `number = [ minus ] int [ frac ] [ exp ]` -/
inductive NumberText : List Char → Prop where
  | positive {int frac exp : List Char} (hint : IntText int) (hfrac : FracText frac)
      (hexp : ExpText exp) : NumberText (int ++ frac ++ exp)
  | negative {int frac exp : List Char} (hint : IntText int) (hfrac : FracText frac)
      (hexp : ExpText exp) : NumberText ('-' :: (int ++ frac ++ exp))

/-- The automaton accepts the text from the state. -/
abbrev Reads (state : NumberState) (text : List Char) : Prop :=
  Accepts NumberState.move NumberState.done state text

theorem reads_any2 {text : List Char} : Reads .any2 text ↔ ∀ c ∈ text, c.isDigit = true := by
  induction text with
  | nil => exact ⟨fun _ => nofun, fun _ => .nil rfl⟩
  | cons c text ih =>
      rw [Reads, accepts_cons_iff, List.forall_mem_cons, ← ih]
      constructor
      · rintro ⟨next, hmove, hrest⟩
        rw [NumberState.move] at hmove
        split at hmove
        next hdigit => cases hmove; exact ⟨hdigit, hrest⟩
        next => exact nomatch hmove
      · rintro ⟨hdigit, hrest⟩
        exact ⟨.any2, if_pos hdigit, hrest⟩

theorem digits_cons_iff {c : Char} {text : List Char} :
    Digits (c :: text) ↔ c.isDigit = true ∧ ∀ d ∈ text, d.isDigit = true := by
  rw [Digits, List.forall_mem_cons]
  exact ⟨fun h => h.2, fun h => ⟨List.cons_ne_nil _ _, h⟩⟩

theorem not_reads_nil {state : NumberState} (h : state.done = false) : ¬ Reads state [] := by
  rw [Reads, accepts_nil_iff, h]
  exact Bool.false_ne_true

theorem reads_sign {text : List Char} : Reads .sign text ↔ Digits text := by
  cases text with
  | nil => exact ⟨fun h => absurd h (not_reads_nil rfl), fun h => absurd rfl h.1⟩
  | cons c text =>
      rw [Reads, accepts_cons_iff, digits_cons_iff, ← reads_any2]
      constructor
      · rintro ⟨next, hmove, hrest⟩
        rw [NumberState.move] at hmove
        split at hmove
        next hdigit => cases hmove; exact ⟨hdigit, hrest⟩
        next => exact nomatch hmove
      · rintro ⟨hdigit, hrest⟩
        exact ⟨.any2, if_pos hdigit, hrest⟩

theorem reads_exponent {e : Char} (he : e = 'e' ∨ e = 'E') {text : List Char} :
    Reads .exponent text ↔ ExpText (e :: text) := by
  cases text with
  | nil =>
      refine ⟨fun h => absurd h (not_reads_nil rfl), fun h => ?_⟩
      cases h with
      | unsigned _ htext => exact absurd rfl htext.1
  | cons c text =>
      rw [Reads, accepts_cons_iff]
      constructor
      · rintro ⟨next, hmove, hrest⟩
        rw [NumberState.move] at hmove
        split at hmove
        next hsign => cases hmove; exact .signed he hsign (reads_sign.mp hrest)
        next =>
          split at hmove
          next hdigit =>
            cases hmove
            exact .unsigned he (digits_cons_iff.mpr ⟨hdigit, reads_any2.mp hrest⟩)
          next => exact nomatch hmove
      · intro h
        cases h with
        | unsigned _ htext =>
            obtain ⟨hdigit, hrest⟩ := digits_cons_iff.mp htext
            have hsign : ¬ (c = '+' ∨ c = '-') := by
              rintro (rfl | rfl) <;> exact absurd hdigit (by decide)
            refine ⟨.any2, ?_, reads_any2.mpr hrest⟩
            rw [NumberState.move, if_neg hsign, if_pos hdigit]
        | signed _ hsign htext => exact ⟨.sign, if_pos hsign, reads_sign.mpr htext⟩

theorem reads_decimal2 {text : List Char} :
    Reads .decimal2 text ↔
      ∃ digits exp, text = digits ++ exp ∧ (∀ c ∈ digits, c.isDigit = true) ∧ ExpText exp := by
  constructor
  · intro h
    induction text with
    | nil => exact ⟨[], [], rfl, nofun, .nil⟩
    | cons c text ih =>
        obtain ⟨next, hmove, hrest⟩ := accepts_cons_iff.mp h
        rw [NumberState.move] at hmove
        split at hmove
        next hdigit =>
          cases hmove
          obtain ⟨digits, exp, rfl, hdigits, hexp⟩ := ih hrest
          exact ⟨c :: digits, exp, rfl, List.forall_mem_cons.mpr ⟨hdigit, hdigits⟩, hexp⟩
        next =>
          split at hmove
          next he =>
            cases hmove
            exact ⟨[], c :: text, rfl, nofun, (reads_exponent he).mp hrest⟩
          next => exact nomatch hmove
  · rintro ⟨digits, exp, rfl, hdigits, hexp⟩
    induction digits with
    | nil =>
        cases hexp with
        | nil => exact .nil rfl
        | unsigned he htext =>
            refine .cons ?_ ((reads_exponent he).mpr (.unsigned he htext))
            rcases he with rfl | rfl <;> rfl
        | signed he hsign htext =>
            refine .cons ?_ ((reads_exponent he).mpr (.signed he hsign htext))
            rcases he with rfl | rfl <;> rfl
    | cons c digits ih =>
        obtain ⟨hdigit, hdigits⟩ := List.forall_mem_cons.mp hdigits
        exact .cons (if_pos hdigit) (ih hdigits)

theorem reads_decimal1 {text : List Char} :
    Reads .decimal1 text ↔ ∃ digits exp, text = digits ++ exp ∧ Digits digits ∧ ExpText exp := by
  cases text with
  | nil =>
      refine ⟨fun h => absurd h (not_reads_nil rfl), ?_⟩
      rintro ⟨digits, exp, hnil, hdigits, -⟩
      exact absurd (List.append_eq_nil_iff.mp hnil.symm).1 hdigits.1
  | cons c text =>
      rw [Reads, accepts_cons_iff]
      constructor
      · rintro ⟨next, hmove, hrest⟩
        rw [NumberState.move] at hmove
        split at hmove
        next hdigit =>
          cases hmove
          obtain ⟨digits, exp, rfl, hdigits, hexp⟩ := reads_decimal2.mp hrest
          exact ⟨c :: digits, exp, rfl, digits_cons_iff.mpr ⟨hdigit, hdigits⟩, hexp⟩
        next => exact nomatch hmove
      · rintro ⟨digits, exp, htext, hdigits, hexp⟩
        cases digits with
        | nil => exact absurd rfl hdigits.1
        | cons d digits =>
            obtain ⟨rfl, rfl⟩ := List.cons_eq_cons.mp htext
            obtain ⟨hdigit, hrest⟩ := digits_cons_iff.mp hdigits
            exact ⟨.decimal2, if_pos hdigit, reads_decimal2.mpr ⟨digits, exp, rfl, hrest, hexp⟩⟩

/-- What may follow the integer part. -/
def Tail (text : List Char) : Prop :=
  ∃ frac exp, text = frac ++ exp ∧ FracText frac ∧ ExpText exp

theorem tail_dot {text : List Char} : Reads .decimal1 text ↔ Tail ('.' :: text) := by
  rw [reads_decimal1]
  constructor
  · rintro ⟨digits, exp, rfl, hdigits, hexp⟩
    exact ⟨'.' :: digits, exp, rfl, .digits hdigits, hexp⟩
  · rintro ⟨frac, exp, htext, hfrac, hexp⟩
    cases hfrac with
    | nil =>
        rw [List.nil_append] at htext
        subst htext
        cases hexp with
        | unsigned he _ => exact absurd he (by decide)
        | signed he _ _ => exact absurd he (by decide)
    | digits hdigits =>
        obtain ⟨-, rfl⟩ := List.cons_eq_cons.mp htext
        exact ⟨_, exp, rfl, hdigits, hexp⟩

theorem tail_exponent {e : Char} (he : e = 'e' ∨ e = 'E') {text : List Char} :
    Reads .exponent text ↔ Tail (e :: text) := by
  rw [reads_exponent he]
  constructor
  · intro h
    exact ⟨[], _, rfl, .nil, h⟩
  · rintro ⟨frac, exp, htext, hfrac, hexp⟩
    cases hfrac with
    | nil => rwa [htext]
    | digits _ =>
        obtain ⟨rfl, -⟩ := List.cons_eq_cons.mp htext
        exact absurd he (by decide)

/-- The first character of what follows the integer part. -/
theorem tail_cons {c : Char} {text : List Char} (h : Tail (c :: text)) :
    c = '.' ∨ c = 'e' ∨ c = 'E' := by
  obtain ⟨frac, exp, htext, hfrac, hexp⟩ := h
  cases hfrac with
  | nil =>
      rw [List.nil_append] at htext
      subst htext
      cases hexp with
      | unsigned he _ => exact .inr he
      | signed he _ _ => exact .inr he
  | digits _ => exact .inl (List.cons_eq_cons.mp htext).1

theorem reads_zero {text : List Char} : Reads .zero text ↔ Tail text := by
  cases text with
  | nil => exact ⟨fun _ => ⟨[], [], rfl, .nil, .nil⟩, fun _ => .nil rfl⟩
  | cons c text =>
      constructor
      · intro h
        obtain ⟨next, hmove, hrest⟩ := accepts_cons_iff.mp h
        rw [NumberState.move] at hmove
        split at hmove
        next hdot => cases hmove; subst hdot; exact tail_dot.mp hrest
        next =>
          split at hmove
          next he => cases hmove; exact (tail_exponent he).mp hrest
          next => exact nomatch hmove
      · intro h
        rcases tail_cons h with rfl | he
        · exact .cons rfl (tail_dot.mpr h)
        · refine .cons ?_ ((tail_exponent he).mpr h)
          rcases he with rfl | rfl <;> rfl

theorem reads_any1 {text : List Char} :
    Reads .any1 text ↔
      ∃ digits tail, text = digits ++ tail ∧ (∀ c ∈ digits, c.isDigit = true) ∧ Tail tail := by
  constructor
  · intro h
    induction text with
    | nil => exact ⟨[], [], rfl, nofun, [], [], rfl, .nil, .nil⟩
    | cons c text ih =>
        obtain ⟨next, hmove, hrest⟩ := accepts_cons_iff.mp h
        rw [NumberState.move] at hmove
        split at hmove
        next hdigit =>
          cases hmove
          obtain ⟨digits, tail, rfl, hdigits, htail⟩ := ih hrest
          exact ⟨c :: digits, tail, rfl, List.forall_mem_cons.mpr ⟨hdigit, hdigits⟩, htail⟩
        next =>
          split at hmove
          next hdot =>
            cases hmove
            subst hdot
            exact ⟨[], _, rfl, nofun, tail_dot.mp hrest⟩
          next =>
            split at hmove
            next he =>
              cases hmove
              exact ⟨[], _, rfl, nofun, (tail_exponent he).mp hrest⟩
            next => exact nomatch hmove
  · rintro ⟨digits, tail, rfl, hdigits, htail⟩
    induction digits with
    | nil =>
        cases tail with
        | nil => exact .nil rfl
        | cons c tail =>
            rcases tail_cons htail with rfl | he
            · exact .cons rfl (tail_dot.mpr htail)
            · refine .cons ?_ ((tail_exponent he).mpr htail)
              rcases he with rfl | rfl <;> rfl
    | cons c digits ih =>
        obtain ⟨hdigit, hdigits⟩ := List.forall_mem_cons.mp hdigits
        exact .cons (if_pos hdigit) (ih hdigits)

/-- An integer part with what follows it. -/
def Unsigned (text : List Char) : Prop :=
  ∃ int tail, text = int ++ tail ∧ IntText int ∧ Tail tail

theorem unsigned_zero {text : List Char} : Reads .zero text ↔ Unsigned ('0' :: text) := by
  rw [reads_zero]
  constructor
  · intro h
    exact ⟨['0'], text, rfl, .zero, h⟩
  · rintro ⟨int, tail, htext, hint, htail⟩
    cases hint with
    | zero =>
        obtain ⟨-, rfl⟩ := List.cons_eq_cons.mp htext
        exact htail
    | digits hc _ =>
        obtain ⟨rfl, -⟩ := List.cons_eq_cons.mp htext
        exact absurd hc (by decide)

theorem unsigned_digits {c : Char} (hc : isNonzeroDigit c = true) {text : List Char} :
    Reads .any1 text ↔ Unsigned (c :: text) := by
  rw [reads_any1]
  constructor
  · rintro ⟨digits, tail, rfl, hdigits, htail⟩
    exact ⟨c :: digits, tail, rfl, .digits hc hdigits, htail⟩
  · rintro ⟨int, tail, htext, hint, htail⟩
    cases hint with
    | zero =>
        obtain ⟨rfl, -⟩ := List.cons_eq_cons.mp htext
        exact absurd hc (by decide)
    | digits _ hdigits =>
        obtain ⟨-, rfl⟩ := List.cons_eq_cons.mp htext
        exact ⟨_, tail, rfl, hdigits, htail⟩

theorem unsigned_cons {c : Char} {text : List Char} (h : Unsigned (c :: text)) :
    c = '0' ∨ isNonzeroDigit c = true := by
  obtain ⟨int, tail, htext, hint, -⟩ := h
  cases hint with
  | zero => exact .inl (List.cons_eq_cons.mp htext).1
  | digits hc _ => exact .inr ((List.cons_eq_cons.mp htext).1 ▸ hc)

theorem not_unsigned_nil : ¬ Unsigned [] := by
  rintro ⟨int, tail, hnil, hint, -⟩
  cases hint <;> exact nomatch hnil

theorem ne_of_isNonzeroDigit {c k : Char} (hc : isNonzeroDigit c = true)
    (hk : isNonzeroDigit k = false) : c ≠ k := by
  rintro rfl
  rw [hc] at hk
  exact nomatch hk

theorem reads_minus {text : List Char} : Reads .minus text ↔ Unsigned text := by
  cases text with
  | nil => exact ⟨fun h => absurd h (not_reads_nil rfl), fun h => absurd h not_unsigned_nil⟩
  | cons c text =>
      constructor
      · intro h
        obtain ⟨next, hmove, hrest⟩ := accepts_cons_iff.mp h
        rw [NumberState.move] at hmove
        split at hmove
        next hzero => cases hmove; subst hzero; exact unsigned_zero.mp hrest
        next =>
          split at hmove
          next hc => cases hmove; exact (unsigned_digits hc).mp hrest
          next => exact nomatch hmove
      · intro h
        rcases unsigned_cons h with rfl | hc
        · exact .cons rfl (unsigned_zero.mpr h)
        · refine .cons ?_ ((unsigned_digits hc).mpr h)
          rw [NumberState.move, if_neg (ne_of_isNonzeroDigit hc rfl), if_pos hc]

theorem numberText_iff {text : List Char} :
    NumberText text ↔ Unsigned text ∨ ∃ rest, text = '-' :: rest ∧ Unsigned rest := by
  constructor
  · intro h
    cases h with
    | positive hint hfrac hexp =>
        exact .inl ⟨_, _, List.append_assoc .., hint, _, _, rfl, hfrac, hexp⟩
    | negative hint hfrac hexp =>
        exact .inr ⟨_, rfl, _, _, List.append_assoc .., hint, _, _, rfl, hfrac, hexp⟩
  · rintro (⟨int, _, rfl, hint, frac, exp, rfl, hfrac, hexp⟩ |
      ⟨_, rfl, int, _, rfl, hint, frac, exp, rfl, hfrac, hexp⟩)
    · exact List.append_assoc int frac exp ▸ .positive hint hfrac hexp
    · exact List.append_assoc int frac exp ▸ .negative hint hfrac hexp

/-- The words of the automaton are the numbers of the grammar. -/
theorem reads_init_iff (text : List Char) : Reads .init text ↔ NumberText text := by
  rw [numberText_iff]
  cases text with
  | nil =>
      refine ⟨fun h => absurd h (not_reads_nil rfl), ?_⟩
      rintro (h | ⟨rest, hnil, -⟩)
      · exact absurd h not_unsigned_nil
      · exact nomatch hnil
  | cons c text =>
      constructor
      · intro h
        obtain ⟨next, hmove, hrest⟩ := accepts_cons_iff.mp h
        rw [NumberState.move] at hmove
        split at hmove
        next hminus =>
          cases hmove
          subst hminus
          exact .inr ⟨text, rfl, reads_minus.mp hrest⟩
        next =>
          split at hmove
          next hzero => cases hmove; subst hzero; exact .inl (unsigned_zero.mp hrest)
          next =>
            split at hmove
            next hc => cases hmove; exact .inl ((unsigned_digits hc).mp hrest)
            next => exact nomatch hmove
      · rintro (h | ⟨rest, htext, h⟩)
        · rcases unsigned_cons h with rfl | hc
          · exact .cons rfl (unsigned_zero.mpr h)
          · refine .cons ?_ ((unsigned_digits hc).mpr h)
            rw [NumberState.move, if_neg (ne_of_isNonzeroDigit hc rfl),
              if_neg (ne_of_isNonzeroDigit hc rfl), if_pos hc]
        · obtain ⟨rfl, rfl⟩ := List.cons_eq_cons.mp htext
          exact .cons rfl (reads_minus.mpr h)

/-- Every state can still lead to a number. -/
theorem exists_reads (state : NumberState) : ∃ text, Reads state text := by
  have hany2 : Reads .any2 [] := .nil rfl
  have hzero : Reads .zero [] := .nil rfl
  cases state with
  | init => exact ⟨['0'], .cons rfl hzero⟩
  | minus => exact ⟨['0'], .cons rfl hzero⟩
  | zero => exact ⟨[], hzero⟩
  | any1 => exact ⟨[], .nil rfl⟩
  | decimal1 => exact ⟨['0'], .cons rfl (.nil rfl)⟩
  | decimal2 => exact ⟨[], .nil rfl⟩
  | exponent => exact ⟨['0'], .cons rfl hany2⟩
  | sign => exact ⟨['0'], .cons rfl hany2⟩
  | any2 => exact ⟨[], hany2⟩

/-! ## What `scan_number` accepts -/

def isFloatMark (c : Char) : Bool := decide (c = '.' ∨ c = 'e' ∨ c = 'E')

/-- `number_type` of a text: a decimal point or an exponent makes it a floating-point
number, and a minus sign a signed one. -/
def numberType (text : List Char) : NumberType :=
  if text.any isFloatMark = true then .float
  else if text.head? = some '-' then .integer
  else .unsigned

theorem isFloatMark_of_isDigit {c : Char} (h : c.isDigit = true) : isFloatMark c = false := by
  refine decide_eq_false ?_
  rintro (rfl | rfl | rfl) <;> exact absurd h (by decide)

theorem isFloatMark_of_isNonzeroDigit {c : Char} (h : isNonzeroDigit c = true) :
    isFloatMark c = false := by
  refine decide_eq_false ?_
  rintro (rfl | rfl | rfl) <;> exact absurd h (by decide)

theorem isFloatMark_exponent {c : Char} (h : c = 'e' ∨ c = 'E') : isFloatMark c = true := by
  rcases h with rfl | rfl <;> rfl

theorem isFloatMark_sign {c : Char} (h : c = '+' ∨ c = '-') : isFloatMark c = false := by
  rcases h with rfl | rfl <;> rfl

/-- A move after the first makes the number one with a floating point when it reads a mark
of these, and leaves the type as it is otherwise. -/
theorem enter_move {state next : NumberState} {c : Char} (hstate : state ≠ .init)
    (hmove : state.move c = some next) (type : NumberType) :
    next.enter type = (if isFloatMark c = true then .float else type) ∧ next ≠ .init := by
  have hplain : isFloatMark c = false → (if isFloatMark c = true then NumberType.float else type) =
      type := fun h => if_neg (h ▸ Bool.false_ne_true)
  have hmark : isFloatMark c = true → (if isFloatMark c = true then NumberType.float else type) =
      .float := fun h => if_pos h
  cases state with
  | init => exact absurd rfl hstate
  | minus =>
      rw [NumberState.move] at hmove
      split_ifs at hmove with hzero hdigit <;> cases hmove
      · exact ⟨(hplain (hzero ▸ rfl)).symm, by decide⟩
      · exact ⟨(hplain (isFloatMark_of_isNonzeroDigit hdigit)).symm, by decide⟩
  | zero =>
      rw [NumberState.move] at hmove
      split_ifs at hmove with hdot he <;> cases hmove
      · exact ⟨(hmark (hdot ▸ rfl)).symm, by decide⟩
      · exact ⟨(hmark (isFloatMark_exponent he)).symm, by decide⟩
  | any1 =>
      rw [NumberState.move] at hmove
      split_ifs at hmove with hdigit hdot he <;> cases hmove
      · exact ⟨(hplain (isFloatMark_of_isDigit hdigit)).symm, by decide⟩
      · exact ⟨(hmark (hdot ▸ rfl)).symm, by decide⟩
      · exact ⟨(hmark (isFloatMark_exponent he)).symm, by decide⟩
  | decimal1 =>
      rw [NumberState.move] at hmove
      split_ifs at hmove with hdigit
      cases hmove
      exact ⟨(hplain (isFloatMark_of_isDigit hdigit)).symm, by decide⟩
  | decimal2 =>
      rw [NumberState.move] at hmove
      split_ifs at hmove with hdigit he <;> cases hmove
      · exact ⟨(hplain (isFloatMark_of_isDigit hdigit)).symm, by decide⟩
      · exact ⟨(hmark (isFloatMark_exponent he)).symm, by decide⟩
  | exponent =>
      rw [NumberState.move] at hmove
      split_ifs at hmove with hsign hdigit <;> cases hmove
      · exact ⟨(hplain (isFloatMark_sign hsign)).symm, by decide⟩
      · exact ⟨(hplain (isFloatMark_of_isDigit hdigit)).symm, by decide⟩
  | sign =>
      rw [NumberState.move] at hmove
      split_ifs at hmove with hdigit
      cases hmove
      exact ⟨(hplain (isFloatMark_of_isDigit hdigit)).symm, by decide⟩
  | any2 =>
      rw [NumberState.move] at hmove
      split_ifs at hmove with hdigit
      cases hmove
      exact ⟨(hplain (isFloatMark_of_isDigit hdigit)).symm, by decide⟩

/-- From any state but the first the scanner takes the longest match. -/
theorem scanNumberFrom_eq {state : NumberState} (hstate : state ≠ .init) (type : NumberType)
    (buffer input : List Char) :
    scanNumberFrom state type buffer input =
      (munch NumberState.move NumberState.done state input).map fun result =>
        (if result.1.any isFloatMark = true then .float else type, buffer ++ result.1,
          result.2) := by
  induction input generalizing state type buffer with
  | nil =>
      rw [scanNumberFrom, munch]
      split <;> simp
  | cons c input ih =>
      rw [scanNumberFrom, munch]
      cases hmove : state.move c with
      | none =>
          simp only
          split <;> simp
      | some next =>
          obtain ⟨henter, hnext⟩ := enter_move hstate hmove type
          simp only [ih hnext, henter, Option.map_map]
          congr 1
          funext result
          by_cases hmark : isFloatMark c = true <;> simp [hmark]

/-- The whole scanner takes the longest match, and the text determines the type. -/
theorem scanNumber_eq (input : List Char) :
    scanNumber input =
      (munch NumberState.move NumberState.done .init input).map fun result =>
        (numberType result.1, result.1, result.2) := by
  cases input with
  | nil => rfl
  | cons c input =>
      rw [scanNumber, scanNumberFrom, munch]
      cases hmove : NumberState.init.move c with
      | none => rfl
      | some next =>
          have hfirst : next.enter .unsigned = (if c = '-' then .integer else .unsigned) ∧
              next ≠ .init ∧ isFloatMark c = false := by
            rw [NumberState.move] at hmove
            split_ifs at hmove with hminus hzero hdigit <;> cases hmove
            · exact ⟨(if_pos hminus).symm, by decide, hminus ▸ rfl⟩
            · exact ⟨(if_neg hminus).symm, by decide, hzero ▸ rfl⟩
            · exact ⟨(if_neg hminus).symm, by decide, isFloatMark_of_isNonzeroDigit hdigit⟩
          obtain ⟨henter, hnext, hmark⟩ := hfirst
          simp only [scanNumberFrom_eq hnext, henter, Option.map_map]
          congr 1
          funext result
          by_cases hminus : c = '-'
          · subst hminus
            simp [numberType, hmark]
          · simp [numberType, hmark, hminus]

/-- No number goes on with the first character of what is left. -/
def NumberEnds (text rest : List Char) : Prop :=
  ∀ c ∈ rest.head?, ¬ ∃ more, NumberText (text ++ c :: more)

/-- `scan_number` reads a number of the grammar, the longest there is. -/
theorem scanNumber_iff {input text rest : List Char} {type : NumberType} :
    scanNumber input = some (type, text, rest) ↔
      input = text ++ rest ∧ NumberText text ∧ NumberEnds text rest ∧ type = numberType text := by
  have hmaximal : Maximal NumberState.move NumberState.done .init text rest ↔
      NumberEnds text rest := by
    constructor
    · exact fun h c hc ⟨more, hmore⟩ => h c hc ⟨more, (reads_init_iff _).mpr hmore⟩
    · exact fun h c hc ⟨more, hmore⟩ => h c hc ⟨more, (reads_init_iff _).mp hmore⟩
  rw [scanNumber_eq, Option.map_eq_some_iff]
  constructor
  · rintro ⟨⟨word, left⟩, hmunch, heq⟩
    cases heq
    obtain ⟨hinput, hreads, hmax⟩ := (munch_iff exists_reads).mp hmunch
    exact ⟨hinput, (reads_init_iff _).mp hreads, hmaximal.mp hmax, rfl⟩
  · rintro ⟨hinput, htext, hends, rfl⟩
    exact ⟨(text, rest), (munch_iff exists_reads).mpr
      ⟨hinput, (reads_init_iff _).mpr htext, hmaximal.mpr hends⟩, rfl⟩

end Protoo.JsonText
