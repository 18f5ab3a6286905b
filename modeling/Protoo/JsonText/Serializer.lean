import Protoo.JsonText.Parser
import Mathlib.Algebra.Order.Field.Rat
import Mathlib.Data.Rat.Cast.Order

/-!
# The serializer

`dump` writes a value in the compact form, the only one the program asks for.  `json` can also
hold binary values, discarded values and the numbers that are not finite: the serializer
writes an object for the first, `<discarded>` for the second and `null` for the last, none of
which reads back as the value.  They are left out here, and so is the sign of a zero.  On the
values that remain and fit their types, which `Representable` describes, the text belongs to
the grammar, and so the parser gives the value back (`parse_dump`).  It gives back only such
values (`representable_of_parse`), which can all be written again.

How a `double` becomes text and text a `double` is left to `FloatText`; `FloatText.Lawful`
is what the round trip needs of it.
-/

namespace Protoo.JsonText

/-! ## The values of `json` -/

/-- A finite value of the type `double`. -/
def IsDouble (q : ℚ) : Prop :=
  ∃ m e : ℤ, |m| < 2 ^ 53 ∧ -1074 ≤ e ∧ e ≤ 971 ∧ q = m * 2 ^ e

/-- `to_chars` writes a decimal point or an exponent, and `strtod` reads back the number
that was written. -/
structure FloatText.Lawful (floats : FloatText) : Prop where
  text : ∀ {q}, IsDouble q → NumberText (floats.toChars q)
  type : ∀ {q}, IsDouble q → numberType (floats.toChars q) = .float
  exact : ∀ {q}, IsDouble q → floats.strtod (floats.toChars q) = some q
  double : ∀ {text q}, floats.strtod text = some q → IsDouble q

mutual

/-- The numbers fit their types, and the members of each object are in key order. -/
def Representable : Json → Prop
  | .null => True
  | .boolean _ => True
  | .integer n => -2 ^ 63 ≤ n ∧ n < 2 ^ 64
  | .float q => IsDouble q
  | .string _ => True
  | .array elements => RepresentableElements elements
  | .object members => SortedKeys members ∧ RepresentableMembers members

def RepresentableElements : List Json → Prop
  | [] => True
  | element :: elements => Representable element ∧ RepresentableElements elements

def RepresentableMembers : List (String × Json) → Prop
  | [] => True
  | (_, value) :: members => Representable value ∧ RepresentableMembers members

end

/-! ## `dump` -/

section

variable (floats : FloatText) (ensureAscii : Bool)

/-- The key of a member with the colon behind it. -/
def dumpKey (key : String) : Except Exception (List Char) := do
  let text ← dumpEscaped ensureAscii key.toList
  .ok ('"' :: (text ++ ['"', ':']))

mutual

/-- `serializer::dump` without `pretty_print`. -/
def dump : Json → Except Exception (List Char)
  | .object [] => .ok ['\x7b', '\x7d']
  | .object members => do
      let text ← dumpMembers members
      .ok ('\x7b' :: (text ++ ['\x7d']))
  | .array [] => .ok ['[', ']']
  | .array elements => do
      let text ← dumpElements elements
      .ok ('[' :: (text ++ [']']))
  | .string s => do
      let text ← dumpEscaped ensureAscii s.toList
      .ok ('"' :: (text ++ ['"']))
  | .boolean true => .ok ['t', 'r', 'u', 'e']
  | .boolean false => .ok ['f', 'a', 'l', 's', 'e']
  | .integer n => .ok (dumpInteger (fun _ => '\x00') n)
  | .float q => .ok (floats.toChars q)
  | .null => .ok ['n', 'u', 'l', 'l']

/-- The loop over the elements. -/
def dumpElements : List Json → Except Exception (List Char)
  | [] => .ok []
  | [last] => dump last
  | element :: elements => do
      let text ← dump element
      let more ← dumpElements elements
      .ok (text ++ ',' :: more)

/-- The loop over the members. -/
def dumpMembers : List (String × Json) → Except Exception (List Char)
  | [] => .ok []
  | [(key, value)] => do
      let name ← dumpKey ensureAscii key
      let text ← dump value
      .ok (name ++ text)
  | (key, value) :: members => do
      let name ← dumpKey ensureAscii key
      let text ← dump value
      let more ← dumpMembers members
      .ok (name ++ (text ++ ',' :: more))

end

end

/-! ## Numbers written and read -/

/-- The characters of numbers. -/
def isNumberChar (c : Char) : Bool :=
  c.isDigit || c = '-' || c = '+' || c = '.' || c = 'e' || c = 'E'

theorem isNumberChar_of_isDigit {c : Char} (h : c.isDigit = true) : isNumberChar c = true := by
  simp [isNumberChar, h]

theorem IntText.isNumberChar {text : List Char} (h : IntText text) :
    ∀ c ∈ text, isNumberChar c = true := by
  cases h with
  | zero => simp [JsonText.isNumberChar]
  | @digits c text hc htext =>
      have hdigit : c.isDigit = true := by
        have hrange := of_decide_eq_true hc
        simp only [Char.le_def] at hrange
        simp only [Char.isDigit, Bool.and_eq_true, decide_eq_true_eq, ge_iff_le]
        exact ⟨UInt32.le_trans (by decide) hrange.1, hrange.2⟩
      intro d hd
      rcases List.mem_cons.mp hd with rfl | hd
      · exact isNumberChar_of_isDigit hdigit
      · exact isNumberChar_of_isDigit (htext d hd)

theorem FracText.isNumberChar {text : List Char} (h : FracText text) :
    ∀ c ∈ text, isNumberChar c = true := by
  cases h with
  | nil => simp
  | digits htext =>
      intro c hc
      rcases List.mem_cons.mp hc with rfl | hc
      · rfl
      · exact isNumberChar_of_isDigit (htext.2 c hc)

theorem ExpText.isNumberChar {text : List Char} (h : ExpText text) :
    ∀ c ∈ text, isNumberChar c = true := by
  cases h with
  | nil => simp
  | unsigned he htext =>
      intro c hc
      rcases List.mem_cons.mp hc with rfl | hc
      · rcases he with rfl | rfl <;> rfl
      · exact isNumberChar_of_isDigit (htext.2 c hc)
  | signed he hsign htext =>
      intro c hc
      rcases List.mem_cons.mp hc with rfl | hc
      · rcases he with rfl | rfl <;> rfl
      · rcases List.mem_cons.mp hc with rfl | hc
        · rcases hsign with rfl | rfl <;> rfl
        · exact isNumberChar_of_isDigit (htext.2 c hc)

theorem NumberText.isNumberChar {text : List Char} (h : NumberText text) :
    ∀ c ∈ text, isNumberChar c = true := by
  have hparts : ∀ {int frac exp : List Char}, IntText int → FracText frac → ExpText exp →
      ∀ c ∈ int ++ frac ++ exp, JsonText.isNumberChar c = true := by
    intro int frac exp hint hfrac hexp c hc
    rcases List.mem_append.mp hc with hc | hc
    · rcases List.mem_append.mp hc with hc | hc
      · exact hint.isNumberChar c hc
      · exact hfrac.isNumberChar c hc
    · exact hexp.isNumberChar c hc
  cases h with
  | positive hint hfrac hexp => exact hparts hint hfrac hexp
  | negative hint hfrac hexp =>
      intro c hc
      rcases List.mem_cons.mp hc with rfl | hc
      · rfl
      · exact hparts hint hfrac hexp c hc

/-- What may stand behind a value. -/
def Delimited (rest : List Char) : Prop := ∀ c ∈ rest.head?, isNumberChar c = false

/-- A number ends before a character that no number has. -/
theorem numberEnds_of_delimited {text rest : List Char} (h : Delimited rest) :
    NumberEnds text rest := by
  rintro c hc ⟨more, hmore⟩
  have hmem : c ∈ text ++ c :: more := List.mem_append_right _ List.mem_cons_self
  exact absurd ((h c hc).symm.trans (hmore.isNumberChar c hmem)) (by decide)

theorem isDigit_of_mem_toDigits {n : ℕ} {c : Char} (h : c ∈ Nat.toDigits 10 n) :
    c.isDigit = true := Nat.isDigit_of_mem_toDigits (by decide) (by decide) h

/-- The digits of a positive number begin with one that is not zero. -/
theorem exists_toDigits {n : ℕ} (h : 0 < n) :
    ∃ c text, Nat.toDigits 10 n = c :: text ∧ isNonzeroDigit c = true := by
  induction n using Nat.strong_induction_on with
  | _ n ih =>
      by_cases hlt : n < 10
      · have hnonzero : ∀ k < 10, 0 < k → isNonzeroDigit (Nat.digitChar k) = true := by decide
        exact ⟨_, [], Nat.toDigits_of_lt_base hlt, hnonzero n hlt h⟩
      · obtain ⟨c, text, htext, hc⟩ := ih (n / 10) (by omega) (by omega)
        refine ⟨c, text ++ [Nat.digitChar (n % 10)], ?_, hc⟩
        rw [Nat.toDigits_of_base_le (by decide) (by omega), htext, List.cons_append]

theorem intText_toDigits (n : ℕ) : IntText (Nat.toDigits 10 n) := by
  rcases Nat.eq_zero_or_pos n with rfl | hpos
  · exact .zero
  · obtain ⟨c, text, htext, hc⟩ := exists_toDigits hpos
    rw [htext]
    exact .digits hc fun d hd => isDigit_of_mem_toDigits (htext ▸ List.mem_cons_of_mem c hd)

theorem not_isFloatMark_toDigits (n : ℕ) : (Nat.toDigits 10 n).any isFloatMark = false := by
  refine List.any_eq_false.mpr fun c hc => ?_
  rw [isFloatMark_of_isDigit (isDigit_of_mem_toDigits hc)]
  exact Bool.false_ne_true

theorem numberText_integerText (n : ℤ) : NumberText (integerText n) := by
  have hint := intText_toDigits n.natAbs
  unfold integerText
  split
  · simpa using NumberText.negative hint .nil .nil
  · simpa using NumberText.positive hint .nil .nil

/-- An integer of the range is read back as itself. -/
theorem scalar_integerText {floats : FloatText} {n : ℤ} (hlow : -2 ^ 63 ≤ n) (hhigh : n < 2 ^ 64) :
    (numberToken floats (numberType (integerText n)) (integerText n)).scalar =
      some (.integer n) := by
  have hmarks := not_isFloatMark_toDigits n.natAbs
  have hvalue : Nat.ofDigitChars 10 (Nat.toDigits 10 n.natAbs) 0 = n.natAbs :=
    Nat.ofDigitChars_ten_toDigits
  by_cases hneg : n < 0
  · have htext : integerText n = '-' :: Nat.toDigits 10 n.natAbs := by
      rw [integerText, if_pos hneg]
      rfl
    have htype : numberType (integerText n) = .integer := by
      rw [htext, numberType, List.any_cons, hmarks]
      rfl
    have hfits : n.natAbs ≤ 2 ^ 63 := by omega
    have hnumber : strtoll (integerText n) = some n := by
      rw [htext, strtoll, hvalue, if_pos hfits]
      exact congrArg some (by omega)
    rw [htype, numberToken, hnumber]
    rfl
  · have htext : integerText n = Nat.toDigits 10 n.natAbs := by
      rw [integerText, if_neg hneg]
      rfl
    have htype : numberType (integerText n) = .unsigned := by
      rw [htext, numberType, hmarks, if_neg Bool.false_ne_true, if_neg]
      intro hhead
      have hminus := isDigit_of_mem_toDigits (List.mem_of_mem_head? hhead)
      exact absurd hminus (by decide)
    have hfits : n.natAbs < 2 ^ 64 := by omega
    have hnumber : strtoull (integerText n) = some n.natAbs := by
      rw [htext, strtoull, hvalue, if_pos hfits]
    rw [htype, numberToken, hnumber]
    exact congrArg (fun m => some (Json.integer m)) (by omega)

theorem length_integerText (n : ℤ) : (integerText n).length = numberLength n := by
  rw [numberLength_eq, integerText, List.length_append]
  split <;> rfl

/-- An integer of 64 bits is written in decimal digits whatever the buffer held, within the
buffer and with a byte to spare, and the scanner reads these digits as the same integer. -/
theorem dumpInteger_read {floats : FloatText} {n : ℤ} (hlow : -2 ^ 63 ≤ n) (hhigh : n < 2 ^ 64)
    (buffer : ℕ → Char) {rest : List Char} (hrest : NumberEnds (dumpInteger buffer n) rest) :
    (dumpInteger buffer n).length < 63 ∧
      ∃ token, scan floats (dumpInteger buffer n ++ rest) = (token, rest) ∧
        token.scalar = some (.integer n) := by
  rw [dumpInteger_eq] at hrest ⊢
  refine ⟨(length_integerText n).symm ▸ numberLength_lt hlow hhigh, ?_⟩
  have hlexeme : Lexeme floats ([] ++ (integerText n ++ rest)) _ rest :=
    .number (fun _ hc => absurd hc List.not_mem_nil) (numberText_integerText n) hrest
  exact ⟨_, hlexeme.scan, scalar_integerText hlow hhigh⟩

theorem dumpInteger_read_smallest :
    (dumpInteger (fun _ => '7') (-2 ^ 63)).length < 63 ∧
      ∃ token, scan ⟨fun _ => none, fun _ => []⟩ (dumpInteger (fun _ => '7') (-2 ^ 63) ++ [',']) =
        (token, [',']) ∧ token.scalar = some (.integer (-2 ^ 63)) :=
  dumpInteger_read (by decide) (by decide) _
    (numberEnds_of_delimited fun c hc => by cases Option.some.inj hc; rfl)

/-! ### Fractions

A pair of conversions with the required properties: a number is written as its numerator, a
point and its denominator. -/

/-- The text of a fraction. -/
def fractionText (q : ℚ) : List Char := integerText q.num ++ '.' :: Nat.toDigits 10 q.den

theorem numberText_fractionText (q : ℚ) : NumberText (fractionText q) := by
  have hint := intText_toDigits q.num.natAbs
  have hfrac : FracText ('.' :: Nat.toDigits 10 q.den) :=
    .digits ⟨Nat.toDigits_ne_nil, fun _ hc => isDigit_of_mem_toDigits hc⟩
  unfold fractionText integerText
  split
  · simpa using NumberText.negative hint hfrac .nil
  · simpa using NumberText.positive hint hfrac .nil

theorem numberType_fractionText (q : ℚ) : numberType (fractionText q) = .float := by
  have hmark : (fractionText q).any isFloatMark = true :=
    List.any_eq_true.mpr ⟨'.', List.mem_append_right _ List.mem_cons_self, rfl⟩
  rw [numberType, if_pos hmark]

theorem dot_not_mem_integerText (n : ℤ) : '.' ∉ integerText n := by
  intro hmem
  rcases List.mem_append.mp hmem with hsign | hdigit
  · split at hsign
    · exact absurd (List.mem_singleton.mp hsign) (by decide)
    · exact nomatch hsign
  · exact absurd (isDigit_of_mem_toDigits hdigit) (by decide)

theorem toDigits_inj {m n : ℕ} (h : Nat.toDigits 10 m = Nat.toDigits 10 n) : m = n := by
  have hvalue : ∀ k : ℕ, Nat.ofDigitChars 10 (Nat.toDigits 10 k) 0 = k :=
    fun k => Nat.ofDigitChars_ten_toDigits
  rw [← hvalue m, h, hvalue]

theorem integerText_inj {m n : ℤ} (h : integerText m = integerText n) : m = n := by
  have hminus : ∀ k : ℕ, '-' ∉ Nat.toDigits 10 k := fun k hmem =>
    absurd (isDigit_of_mem_toDigits hmem) (by decide)
  unfold integerText at h
  split at h
  next hm =>
    split at h
    next hn =>
      have habs := toDigits_inj (List.cons.inj h).2
      omega
    next =>
      rw [List.nil_append] at h
      exact absurd (h ▸ List.mem_cons_self) (hminus n.natAbs)
  next hm =>
    split at h
    next =>
      rw [List.nil_append] at h
      exact absurd (h ▸ List.mem_cons_self) (hminus m.natAbs)
    next hn =>
      have habs := toDigits_inj h
      omega

/-- A text is split at its only point in one way. -/
theorem append_dot_inj {before before' after after' : List Char} (hbefore : '.' ∉ before)
    (hbefore' : '.' ∉ before') (h : before ++ '.' :: after = before' ++ '.' :: after') :
    before = before' ∧ after = after' := by
  rcases List.append_eq_append_iff.mp h with ⟨more, hmore, heq⟩ | ⟨more, hmore, heq⟩
  · cases more with
    | nil =>
        rw [List.append_nil] at hmore
        exact ⟨hmore.symm, (List.cons.inj heq).2⟩
    | cons c more =>
        obtain rfl := (List.cons.inj heq).1
        exact absurd (by simp [hmore]) hbefore'
  · cases more with
    | nil =>
        rw [List.append_nil] at hmore
        exact ⟨hmore, (List.cons.inj heq).2.symm⟩
    | cons c more =>
        obtain rfl := (List.cons.inj heq).1
        exact absurd (by simp [hmore]) hbefore

theorem fractionText_inj {q r : ℚ} (h : fractionText q = fractionText r) : q = r := by
  obtain ⟨hnum, hden⟩ :=
    append_dot_inj (dot_not_mem_integerText _) (dot_not_mem_integerText _) h
  exact Rat.ext (integerText_inj hnum) (toDigits_inj hden)

open Classical in
/-- The conversions by fractions. -/
noncomputable def FloatText.fractions : FloatText where
  strtod text :=
    if h : ∃ q, IsDouble q ∧ fractionText q = text then some h.choose else none
  toChars := fractionText

theorem FloatText.lawful_fractions : FloatText.fractions.Lawful where
  text _ := numberText_fractionText _
  type _ := numberType_fractionText _
  exact := by
    intro q hq
    have hexists : ∃ r, IsDouble r ∧ fractionText r = fractionText q := ⟨q, hq, rfl⟩
    simp only [FloatText.fractions, dif_pos hexists]
    exact congrArg some (fractionText_inj hexists.choose_spec.2)
  double := by
    intro text q h
    simp only [FloatText.fractions] at h
    split at h
    next hexists => exact Option.some.inj h ▸ hexists.choose_spec.1
    next => exact nomatch h

/-! ## Members in key order -/

theorem assignMember_of_lt {key : String} {value : Json} {members : List (String × Json)}
    (h : ∀ member ∈ members, member.1 < key) :
    Json.assignMember key value members = members ++ [(key, value)] := by
  induction members with
  | nil => rfl
  | cons first rest ih =>
      obtain ⟨k, v⟩ := first
      have hlt : k < key := h (k, v) List.mem_cons_self
      rw [Json.assignMember, if_neg (mt keyLt_iff.mp (lt_asymm hlt)), if_neg (ne_of_gt hlt),
        ih fun member hmem => h member (List.mem_cons_of_mem _ hmem), List.cons_append]

theorem sortedKeys_of_keys {members : List (String × Json)} (keys : List String)
    (hkeys : members.map Prod.fst = keys) (h : keys.Pairwise (· < ·)) : SortedKeys members :=
  List.pairwise_map.mp (hkeys ▸ h)

/-- Pairs in key order become the members as they are. -/
theorem ofPairs_of_sorted {members : Members} {pairs : List (String × Json)}
    (h : SortedKeys (members.list ++ pairs)) :
    (members.ofPairs pairs).list = members.list ++ pairs := by
  induction pairs generalizing members with
  | nil => exact (List.append_nil _).symm
  | cons pair pairs ih =>
      obtain ⟨key, value⟩ := pair
      have hlt : ∀ member ∈ members.list, member.1 < key :=
        fun member hmem => (List.pairwise_append.mp h).2.2 member hmem _ List.mem_cons_self
      have hassign : (members.assign key value).list = members.list ++ [(key, value)] :=
        assignMember_of_lt hlt
      have hsorted : SortedKeys ((members.assign key value).list ++ pairs) := by
        rw [hassign, List.append_assoc]
        exact h
      have hrest := ih hsorted
      rwa [hassign, List.append_assoc] at hrest

/-! ## Values written and read -/

section

variable {floats : FloatText} {ensureAscii : Bool}

theorem spaces_nil : Spaces [] := fun _ hc => nomatch hc

theorem lexeme_mark (text : List Char) (token : Token) (rest : List Char)
    (h : (text, token) ∈ marks) : Lexeme floats (text ++ rest) token rest := .mark spaces_nil h

/-- A string that was written is read back as itself. -/
theorem lexeme_dumpEscaped {s : String} {text : List Char}
    (h : dumpEscaped ensureAscii s.toList = .ok text) (rest : List Char) :
    Lexeme floats ('"' :: (text ++ '"' :: rest)) (.valueString s) rest := by
  refine (scan_iff (Token.ne_parseError rfl)).mp ?_
  have hscan : scan floats ('"' :: (text ++ '"' :: rest)) =
      scanToken floats ('"' :: (text ++ '"' :: rest)) :=
    scan_spaces spaces_nil fun c hc => by cases Option.some.inj hc; rfl
  rw [hscan, scanToken_quote, scanString_dumpEscaped h]
  exact congrArg (fun string => (Token.valueString string, rest)) String.ofList_toList

theorem delimited_cons {c : Char} (h : isNumberChar c = false) (rest : List Char) :
    Delimited (c :: rest) := fun d hd => by
  cases Option.some.inj hd
  exact h

theorem lexeme_number {text rest : List Char} (h : NumberText text) (hrest : Delimited rest) :
    Lexeme floats (text ++ rest) (numberToken floats (numberType text) text) rest :=
  .number spaces_nil h (numberEnds_of_delimited hrest)

theorem dump_array {elements : List Json} (h : elements ≠ []) :
    dump floats ensureAscii (.array elements) =
      dumpElements floats ensureAscii elements >>= fun text => .ok ('[' :: (text ++ [']'])) := by
  cases elements with
  | nil => exact absurd rfl h
  | cons element elements => rfl

theorem dump_object {members : List (String × Json)} (h : members ≠ []) :
    dump floats ensureAscii (.object members) =
      dumpMembers floats ensureAscii members >>= fun text =>
        .ok ('\x7b' :: (text ++ ['\x7d'])) := by
  cases members with
  | nil => exact absurd rfl h
  | cons member members => rfl

theorem dumpElements_cons {element : Json} {elements : List Json} (h : elements ≠ []) :
    dumpElements floats ensureAscii (element :: elements) =
      dump floats ensureAscii element >>= fun text =>
        dumpElements floats ensureAscii elements >>= fun more => .ok (text ++ ',' :: more) := by
  cases elements with
  | nil => exact absurd rfl h
  | cons element elements => rfl

theorem dumpMembers_cons {key : String} {value : Json} {members : List (String × Json)}
    (h : members ≠ []) :
    dumpMembers floats ensureAscii ((key, value) :: members) =
      dumpKey ensureAscii key >>= fun name =>
        dump floats ensureAscii value >>= fun text =>
          dumpMembers floats ensureAscii members >>= fun more =>
            .ok (name ++ (text ++ ',' :: more)) := by
  cases members with
  | nil => exact absurd rfl h
  | cons member members => rfl

theorem dumpKey_ok_iff (ensureAscii : Bool) (key : String) :
    (∃ name, dumpKey ensureAscii key = .ok name) ↔ isUtf8 key = true := by
  rw [← dumpEscaped_ok_iff ensureAscii]
  constructor
  · rintro ⟨name, h⟩
    obtain ⟨text, htext, -⟩ := exists_of_bind_eq_ok h
    exact ⟨text, htext⟩
  · rintro ⟨text, htext⟩
    exact ⟨_, by rw [dumpKey, htext]; rfl⟩

/-- A key that was written is read back with its colon. -/
theorem lexemes_dumpKey {key : String} {name : List Char}
    (h : dumpKey ensureAscii key = .ok name) (rest : List Char) :
    Lexeme floats (name ++ rest) (.valueString key) (':' :: rest) := by
  obtain ⟨text, htext, hname⟩ := exists_of_bind_eq_ok h
  obtain rfl := Except.ok.inj hname
  rw [List.cons_append, List.append_assoc]
  exact lexeme_dumpEscaped htext (':' :: rest)

mutual

/-- What is written for a value is a text of this value. -/
theorem valueText_dump (hfloats : floats.Lawful) : ∀ (j : Json) {text : List Char},
    Representable j → dump floats ensureAscii j = .ok text → ∀ {rest : List Char},
      Delimited rest → ValueText floats (text ++ rest) j rest
  | .null, text, hj, h, rest, hrest => by
      obtain rfl := Except.ok.inj h
      exact .scalar (lexeme_mark _ .literalNull rest (by decide)) rfl
  | .boolean true, text, hj, h, rest, hrest => by
      obtain rfl := Except.ok.inj h
      exact .scalar (lexeme_mark _ .literalTrue rest (by decide)) rfl
  | .boolean false, text, hj, h, rest, hrest => by
      obtain rfl := Except.ok.inj h
      exact .scalar (lexeme_mark _ .literalFalse rest (by decide)) rfl
  | .integer n, text, hj, h, rest, hrest => by
      obtain rfl := Except.ok.inj h
      rw [dumpInteger_eq]
      exact .scalar (lexeme_number (numberText_integerText n) hrest)
        (scalar_integerText hj.1 hj.2)
  | .float q, text, hj, h, rest, hrest => by
      obtain rfl := Except.ok.inj h
      refine .scalar (lexeme_number (hfloats.text hj) hrest) ?_
      rw [hfloats.type hj, numberToken, hfloats.exact hj]
      rfl
  | .string s, text, hj, h, rest, hrest => by
      obtain ⟨body, hbody, htext⟩ := exists_of_bind_eq_ok h
      obtain rfl := Except.ok.inj htext
      have hlexeme : Lexeme floats ('"' :: (body ++ '"' :: rest)) (.valueString s) rest :=
        lexeme_dumpEscaped hbody rest
      rw [List.cons_append, List.append_assoc]
      exact .scalar hlexeme rfl
  | .array [], text, hj, h, rest, hrest => by
      obtain rfl := Except.ok.inj h
      exact .emptyArray (lexeme_mark ['['] .beginArray (']' :: rest) (by decide))
        (lexeme_mark [']'] .endArray rest (by decide))
  | .array (element :: elements), text, hj, h, rest, hrest => by
      rw [dump_array (List.cons_ne_nil _ _)] at h
      obtain ⟨body, hbody, htext⟩ := exists_of_bind_eq_ok h
      obtain rfl := Except.ok.inj htext
      rw [List.cons_append, List.append_assoc]
      exact .array (lexeme_mark ['['] .beginArray _ (by decide))
        (elementsText_dump hfloats (element :: elements) (List.cons_ne_nil _ _) hj hbody rest)
  | .object [], text, hj, h, rest, hrest => by
      obtain rfl := Except.ok.inj h
      exact .emptyObject (lexeme_mark ['\x7b'] .beginObject ('\x7d' :: rest) (by decide))
        (lexeme_mark ['\x7d'] .endObject rest (by decide))
  | .object (member :: members), text, hj, h, rest, hrest => by
      rw [dump_object (List.cons_ne_nil _ _)] at h
      obtain ⟨body, hbody, htext⟩ := exists_of_bind_eq_ok h
      obtain rfl := Except.ok.inj htext
      have hmembers :=
        membersText_dump hfloats (member :: members) (List.cons_ne_nil _ _) hj.2 hbody rest
      have hvalue := ValueText.object (lexeme_mark ['\x7b'] .beginObject _ (by decide)) hmembers
      rw [ofPairs_of_sorted hj.1] at hvalue
      rwa [List.cons_append, List.append_assoc]

theorem elementsText_dump (hfloats : floats.Lawful) : ∀ (elements : List Json)
    {text : List Char}, elements ≠ [] → RepresentableElements elements →
      dumpElements floats ensureAscii elements = .ok text →
        ∀ rest : List Char, ElementsText floats (text ++ ']' :: rest) elements rest
  | [], text, hne, hj, h, rest => absurd rfl hne
  | [last], text, hne, hj, h, rest =>
      .last (valueText_dump hfloats last hj.1 h (delimited_cons rfl rest))
        (lexeme_mark [']'] .endArray rest (by decide))
  | element :: next :: elements, text, hne, hj, h, rest => by
      rw [dumpElements_cons (List.cons_ne_nil _ _)] at h
      obtain ⟨first, hfirst, h⟩ := exists_of_bind_eq_ok h
      obtain ⟨more, hmore, htext⟩ := exists_of_bind_eq_ok h
      obtain rfl := Except.ok.inj htext
      rw [List.append_assoc]
      exact .cons (valueText_dump hfloats element hj.1 hfirst (delimited_cons rfl _))
        (lexeme_mark [','] .valueSeparator _ (by decide))
        (elementsText_dump hfloats (next :: elements) (List.cons_ne_nil _ _) hj.2 hmore rest)

theorem membersText_dump (hfloats : floats.Lawful) : ∀ (members : List (String × Json))
    {text : List Char}, members ≠ [] → RepresentableMembers members →
      dumpMembers floats ensureAscii members = .ok text →
        ∀ rest : List Char, MembersText floats (text ++ '\x7d' :: rest) members rest
  | [], text, hne, hj, h, rest => absurd rfl hne
  | [(key, value)], text, hne, hj, h, rest => by
      obtain ⟨name, hname, h⟩ := exists_of_bind_eq_ok h
      obtain ⟨body, hbody, htext⟩ := exists_of_bind_eq_ok h
      obtain rfl := Except.ok.inj htext
      rw [List.append_assoc]
      exact .last (lexemes_dumpKey hname _) (lexeme_mark [':'] .nameSeparator _ (by decide))
        (valueText_dump hfloats value hj.1 hbody (delimited_cons rfl rest))
        (lexeme_mark ['\x7d'] .endObject rest (by decide))
  | (key, value) :: next :: members, text, hne, hj, h, rest => by
      rw [dumpMembers_cons (List.cons_ne_nil _ _)] at h
      obtain ⟨name, hname, h⟩ := exists_of_bind_eq_ok h
      obtain ⟨body, hbody, h⟩ := exists_of_bind_eq_ok h
      obtain ⟨more, hmore, htext⟩ := exists_of_bind_eq_ok h
      obtain rfl := Except.ok.inj htext
      rw [List.append_assoc, List.append_assoc]
      exact .cons (lexemes_dumpKey hname _) (lexeme_mark [':'] .nameSeparator _ (by decide))
        (valueText_dump hfloats value hj.1 hbody (delimited_cons rfl _))
        (lexeme_mark [','] .valueSeparator _ (by decide))
        (membersText_dump hfloats (next :: members) (List.cons_ne_nil _ _) hj.2 hmore rest)

end

theorem Lexeme.ne_parseError {input rest : List Char} {token : Token}
    (h : Lexeme floats input token rest) : token ≠ .parseError := by
  cases h with
  | @mark spaces text rest token hspaces hmark =>
      have hmarks : ∀ mark ∈ marks, mark.2 ≠ .parseError := by decide
      exact hmarks (text, token) hmark
  | number hspaces htext hends => exact numberToken_ne _ _
  | string | endOfText | null => simp

/-- No text of a value begins with a byte order mark. -/
theorem ValueText.skipBom {input rest : List Char} {v : Json}
    (h : ValueText floats input v rest) : skipBom input = some input := by
  obtain ⟨token, mid, hlexeme, -⟩ := h.first
  cases input with
  | nil => rfl
  | cons c tail =>
      have hc : c ≠ '\xEF' := by
        rintro rfl
        have hscan : scan floats ('\xEF' :: tail) = (.parseError, tail) := rfl
        exact hlexeme.ne_parseError (Prod.mk.inj (hlexeme.scan.symm.trans hscan)).1
      simp [JsonText.skipBom, hc]

/-- The parser gives back the value that was written. -/
theorem parse_dump (hfloats : floats.Lawful) {j : Json} {text : List Char}
    (hj : Representable j) (h : dump floats ensureAscii j = .ok text) :
    parse floats text = .ok j := by
  have hvalue : ValueText floats (text ++ []) j [] :=
    valueText_dump hfloats j hj h fun c hc => nomatch hc
  rw [List.append_nil] at hvalue
  exact DocumentText.parse ⟨text, [], [], hvalue.skipBom, hvalue, .endOfText spaces_nil⟩

/-! ## When a value can be written -/

mutual

/-- `dump` throws nothing exactly when all strings of the value are valid. -/
theorem dump_ok_iff : ∀ j : Json,
    (∃ text, dump floats ensureAscii j = .ok text) ↔ j.isUtf8 = true
  | .null => ⟨fun _ => rfl, fun _ => ⟨_, rfl⟩⟩
  | .boolean true => ⟨fun _ => rfl, fun _ => ⟨_, rfl⟩⟩
  | .boolean false => ⟨fun _ => rfl, fun _ => ⟨_, rfl⟩⟩
  | .integer _ => ⟨fun _ => rfl, fun _ => ⟨_, rfl⟩⟩
  | .float _ => ⟨fun _ => rfl, fun _ => ⟨_, rfl⟩⟩
  | .string s => by
      rw [Json.isUtf8, ← dumpEscaped_ok_iff ensureAscii]
      constructor
      · rintro ⟨text, h⟩
        obtain ⟨body, hbody, -⟩ := exists_of_bind_eq_ok h
        exact ⟨body, hbody⟩
      · rintro ⟨body, hbody⟩
        exact ⟨_, by rw [dump, hbody]; rfl⟩
  | .array [] => ⟨fun _ => rfl, fun _ => ⟨_, rfl⟩⟩
  | .array (element :: elements) => by
      rw [Json.isUtf8, ← dumpElements_ok_iff, dump_array (List.cons_ne_nil _ _)]
      constructor
      · rintro ⟨text, h⟩
        obtain ⟨body, hbody, -⟩ := exists_of_bind_eq_ok h
        exact ⟨body, hbody⟩
      · rintro ⟨body, hbody⟩
        exact ⟨_, by rw [hbody]; rfl⟩
  | .object [] => ⟨fun _ => rfl, fun _ => ⟨_, rfl⟩⟩
  | .object (member :: members) => by
      rw [Json.isUtf8, ← dumpMembers_ok_iff, dump_object (List.cons_ne_nil _ _)]
      constructor
      · rintro ⟨text, h⟩
        obtain ⟨body, hbody, -⟩ := exists_of_bind_eq_ok h
        exact ⟨body, hbody⟩
      · rintro ⟨body, hbody⟩
        exact ⟨_, by rw [hbody]; rfl⟩

theorem dumpElements_ok_iff : ∀ elements : List Json,
    (∃ text, dumpElements floats ensureAscii elements = .ok text) ↔
      Json.isUtf8Elements elements = true
  | [] => ⟨fun _ => rfl, fun _ => ⟨_, rfl⟩⟩
  | [last] => by
      rw [Json.isUtf8Elements, Json.isUtf8Elements, Bool.and_true, ← dump_ok_iff last]
      rfl
  | element :: next :: elements => by
      rw [Json.isUtf8Elements, Bool.and_eq_true, ← dump_ok_iff element,
        ← dumpElements_ok_iff (next :: elements), dumpElements_cons (List.cons_ne_nil _ _)]
      constructor
      · rintro ⟨text, h⟩
        obtain ⟨first, hfirst, h⟩ := exists_of_bind_eq_ok h
        obtain ⟨more, hmore, -⟩ := exists_of_bind_eq_ok h
        exact ⟨⟨first, hfirst⟩, more, hmore⟩
      · rintro ⟨⟨first, hfirst⟩, more, hmore⟩
        exact ⟨_, by rw [hfirst, except_ok_bind, hmore]; rfl⟩

theorem dumpMembers_ok_iff : ∀ members : List (String × Json),
    (∃ text, dumpMembers floats ensureAscii members = .ok text) ↔
      Json.isUtf8Members members = true
  | [] => ⟨fun _ => rfl, fun _ => ⟨_, rfl⟩⟩
  | [(key, value)] => by
      rw [Json.isUtf8Members, Json.isUtf8Members, Bool.and_true, Bool.and_eq_true,
        ← dump_ok_iff value, ← dumpKey_ok_iff ensureAscii]
      constructor
      · rintro ⟨text, h⟩
        obtain ⟨name, hname, h⟩ := exists_of_bind_eq_ok h
        obtain ⟨body, hbody, -⟩ := exists_of_bind_eq_ok h
        exact ⟨⟨name, hname⟩, body, hbody⟩
      · rintro ⟨⟨name, hname⟩, body, hbody⟩
        exact ⟨_, by rw [dumpMembers, hname, except_ok_bind, hbody]; rfl⟩
  | (key, value) :: next :: members => by
      rw [Json.isUtf8Members, Bool.and_eq_true, Bool.and_eq_true, ← dump_ok_iff value,
        ← dumpMembers_ok_iff (next :: members), ← dumpKey_ok_iff ensureAscii,
        dumpMembers_cons (List.cons_ne_nil _ _)]
      constructor
      · rintro ⟨text, h⟩
        obtain ⟨name, hname, h⟩ := exists_of_bind_eq_ok h
        obtain ⟨body, hbody, h⟩ := exists_of_bind_eq_ok h
        obtain ⟨more, hmore, -⟩ := exists_of_bind_eq_ok h
        exact ⟨⟨⟨name, hname⟩, body, hbody⟩, more, hmore⟩
      · rintro ⟨⟨⟨name, hname⟩, body, hbody⟩, more, hmore⟩
        exact ⟨_, by rw [hname, except_ok_bind, hbody, except_ok_bind, hmore]; rfl⟩

end

/-! ## What the parser gives back -/

theorem representableElements_iff {elements : List Json} :
    RepresentableElements elements ↔ ∀ element ∈ elements, Representable element := by
  induction elements with
  | nil => simp [RepresentableElements]
  | cons element elements ih => rw [RepresentableElements, ih, List.forall_mem_cons]

theorem representableMembers_iff {members : List (String × Json)} :
    RepresentableMembers members ↔ ∀ member ∈ members, Representable member.2 := by
  induction members with
  | nil => simp [RepresentableMembers]
  | cons member members ih => rw [RepresentableMembers, ih, List.forall_mem_cons]

theorem isUtf8Elements_iff {elements : List Json} :
    Json.isUtf8Elements elements = true ↔ ∀ element ∈ elements, element.isUtf8 = true := by
  induction elements with
  | nil => simp [Json.isUtf8Elements]
  | cons element elements ih =>
      rw [Json.isUtf8Elements, Bool.and_eq_true, ih, List.forall_mem_cons]

/-- The value can be held and written. -/
structure Valid (j : Json) : Prop where
  representable : Representable j
  isUtf8 : j.isUtf8 = true

/-- So can the members of an object that are assigned one by one. -/
theorem mem_ofPairs {members : Members} {pairs : List (String × Json)} {member : String × Json}
    (h : member ∈ (members.ofPairs pairs).list) : member ∈ members.list ∨ member ∈ pairs := by
  induction pairs generalizing members with
  | nil => exact .inl h
  | cons pair pairs ih =>
      rcases ih h with hmem | hmem
      · rcases Json.mem_assignMember hmem with rfl | hold
        · exact .inr List.mem_cons_self
        · exact .inl hold
      · exact .inr (List.mem_cons_of_mem _ hmem)

theorem strtoull_lt {text : List Char} {n : ℕ} (h : strtoull text = some n) : n < 2 ^ 64 := by
  unfold strtoull at h
  split at h
  next hlt => exact Option.some.inj h ▸ hlt
  next => exact nomatch h

theorem strtoll_range {text : List Char} {n : ℤ} (h : strtoll text = some n) :
    -2 ^ 63 ≤ n ∧ n < 2 ^ 63 := by
  unfold strtoll at h
  split at h
  · split at h
    next hle =>
      obtain rfl := Option.some.inj h
      omega
    next => exact nomatch h
  · split at h
    next hlt =>
      obtain rfl := Option.some.inj h
      omega
    next => exact nomatch h

/-- The value of a token is within the range of its type. -/
theorem Lexeme.valid (hfloats : floats.Lawful) {input rest : List Char} {token : Token} {v : Json}
    (h : Lexeme floats input token rest) (hscalar : token.scalar = some v) : Valid v := by
  cases h with
  | mark hspaces hmark =>
      simp only [marks, List.mem_cons, Prod.mk.injEq, List.not_mem_nil, or_false] at hmark
      rcases hmark with ⟨-, rfl⟩ | ⟨-, rfl⟩ | ⟨-, rfl⟩ | ⟨-, rfl⟩ | ⟨-, rfl⟩ | ⟨-, rfl⟩ |
        ⟨-, rfl⟩ | ⟨-, rfl⟩ | ⟨-, rfl⟩
      all_goals first
        | (obtain rfl := Option.some.inj hscalar; exact ⟨trivial, rfl⟩)
        | cases hscalar
  | @string spaces text ds rest hspaces htext =>
      obtain rfl := Option.some.inj hscalar
      exact ⟨trivial, (isUtf8_iff_exists_chars _).mpr ⟨ds, String.toList_ofList⟩⟩
  | @number spaces text rest hspaces htext hends =>
      have hfloat : ∀ {value : Option ℚ}, value = floats.strtod text →
          (Token.valueFloat value).scalar = some v → Valid v := by
        intro value hvalue hsome
        cases value with
        | none => cases hsome
        | some q =>
            obtain rfl := Option.some.inj hsome
            exact ⟨hfloats.double hvalue.symm, rfl⟩
      unfold numberToken at hscalar
      split at hscalar
      · split at hscalar
        next n hn =>
          obtain rfl := Option.some.inj hscalar
          have hlt := strtoull_lt hn
          exact ⟨⟨by omega, by omega⟩, rfl⟩
        next => exact hfloat rfl hscalar
      · split at hscalar
        next n hn =>
          obtain rfl := Option.some.inj hscalar
          have hrange := strtoll_range hn
          exact ⟨⟨hrange.1, by omega⟩, rfl⟩
        next => exact hfloat rfl hscalar
      · exact hfloat rfl hscalar
  | endOfText hspaces => cases hscalar
  | null hspaces => cases hscalar

theorem Lexeme.isUtf8_key (hfloats : floats.Lawful) {input rest : List Char} {key : String}
    (h : Lexeme floats input (.valueString key) rest) : isUtf8 key = true := by
  have hkey := (h.valid hfloats rfl).isUtf8
  rwa [Json.isUtf8] at hkey

mutual

/-- The parser makes only values that it could read again. -/
theorem ValueText.valid (hfloats : floats.Lawful) {input rest : List Char} {v : Json} :
    ValueText floats input v rest → Valid v
  | .scalar h hscalar => h.valid hfloats hscalar
  | .emptyArray h hend => ⟨trivial, rfl⟩
  | .array h helements => by
      have hvalid := helements.valid hfloats
      refine ⟨representableElements_iff.mpr fun v hv => (hvalid v hv).representable, ?_⟩
      rw [Json.isUtf8, isUtf8Elements_iff]
      exact fun v hv => (hvalid v hv).isUtf8
  | .emptyObject h hend => ⟨⟨List.Pairwise.nil, trivial⟩, rfl⟩
  | .object h hmembers => by
      have hvalid := hmembers.valid hfloats
      have hpairs : ∀ member ∈ (Members.empty.ofPairs _).list, _ := fun member hmem =>
        hvalid member ((mem_ofPairs hmem).resolve_left (List.not_mem_nil))
      refine ⟨⟨(Members.empty.ofPairs _).sorted, representableMembers_iff.mpr fun member hmem =>
        (hpairs member hmem).2.representable⟩, ?_⟩
      rw [Json.isUtf8_object]
      exact fun member hmem => ⟨(hpairs member hmem).1, (hpairs member hmem).2.isUtf8⟩

theorem ElementsText.valid (hfloats : floats.Lawful) {input rest : List Char}
    {elements : List Json} :
    ElementsText floats input elements rest → ∀ v ∈ elements, Valid v
  | .last h hend => List.forall_mem_singleton.mpr (h.valid hfloats)
  | .cons h _ helements =>
      List.forall_mem_cons.mpr ⟨h.valid hfloats, helements.valid hfloats⟩

theorem MembersText.valid (hfloats : floats.Lawful) {input rest : List Char}
    {pairs : List (String × Json)} :
    MembersText floats input pairs rest →
      ∀ member ∈ pairs, isUtf8 member.1 = true ∧ Valid member.2
  | .last hkey _ h _ =>
      List.forall_mem_singleton.mpr ⟨hkey.isUtf8_key hfloats, h.valid hfloats⟩
  | .cons hkey _ h _ hmembers =>
      List.forall_mem_cons.mpr
        ⟨⟨hkey.isUtf8_key hfloats, h.valid hfloats⟩, hmembers.valid hfloats⟩

end

theorem valid_of_parse (hfloats : floats.Lawful) {text : List Char} {v : Json}
    (h : parse floats text = .ok v) : Valid v := by
  obtain ⟨body, rest, after, -, hvalue, -⟩ := documentText_of_parse h
  exact hvalue.valid hfloats

theorem Valid.exists_dump {j : Json} (h : Valid j) (ensureAscii : Bool) :
    ∃ text, dump floats ensureAscii j = .ok text := (dump_ok_iff j).mpr h.isUtf8

/-- The values that can be read are those that can be held and written, and each is read
back from the text that is written for it. -/
theorem parse_inverts_dump (hfloats : floats.Lawful) (ensureAscii : Bool) (j : Json) :
    ((∃ text, parse floats text = .ok j) ↔ Valid j) ∧
      (Valid j → ∃ text, dump floats ensureAscii j = .ok text ∧ parse floats text = .ok j) := by
  have hback : Valid j →
      ∃ text, dump floats ensureAscii j = .ok text ∧ parse floats text = .ok j := by
    intro hvalid
    obtain ⟨text, htext⟩ : ∃ text, dump floats ensureAscii j = .ok text :=
      hvalid.exists_dump ensureAscii
    exact ⟨text, htext, parse_dump hfloats hvalid.representable htext⟩
  refine ⟨⟨?_, fun hvalid => ?_⟩, hback⟩
  · rintro ⟨text, h⟩
    exact valid_of_parse hfloats h
  · obtain ⟨text, -, hparse⟩ := hback hvalid
    exact ⟨text, hparse⟩

/-- A request of the signalling protocol. -/
def loginRequest : Json :=
  .object [("data", .object [("room", .string "lobby"), ("tags", .array [.null, .boolean true])]),
    ("id", .integer 5), ("method", .string "login"), ("request", .boolean true)]

theorem valid_loginRequest : Valid loginRequest := by
  have hdata : SortedKeys [("room", .string "lobby"), ("tags", .array [.null, .boolean true])] :=
    sortedKeys_of_keys ["room", "tags"] rfl (by decide)
  have hkeys : ["data", "id", "method", "request"].Pairwise (· < ·) := by decide
  refine ⟨⟨sortedKeys_of_keys _ rfl hkeys, ?_⟩, by decide⟩
  exact ⟨⟨hdata, trivial, ⟨trivial, trivial, trivial⟩, trivial⟩, ⟨by decide, by decide⟩, trivial,
    trivial, trivial⟩

theorem parse_inverts_dump_login :
    ∃ text, dump .fractions false loginRequest = .ok text ∧
      parse .fractions text = .ok loginRequest :=
  (parse_inverts_dump FloatText.lawful_fractions false loginRequest).2 valid_loginRequest

/-! ## What is written -/

/-- Characters in UTF-8, none of them below U+0020, and with `ensureAscii` none above
U+007E. -/
def Printable (ensureAscii : Bool) (text : List Char) : Prop :=
  ∃ cs : List Char, text = cs.flatMap utf8Chars ∧
    ∀ c ∈ cs, 0x20 ≤ c.toNat ∧ (ensureAscii = true → c.toNat ≤ 0x7E)

theorem Printable.append {text more : List Char} (h : Printable ensureAscii text)
    (h' : Printable ensureAscii more) : Printable ensureAscii (text ++ more) := by
  obtain ⟨cs, rfl, hcs⟩ := h
  obtain ⟨ds, rfl, hds⟩ := h'
  refine ⟨cs ++ ds, List.flatMap_append.symm, fun c hc => ?_⟩
  rcases List.mem_append.mp hc with hc | hc
  · exact hcs c hc
  · exact hds c hc

/-- An ASCII character that is no control character. -/
def isPlain (c : Char) : Bool := decide (0x20 ≤ c.toNat ∧ c.toNat ≤ 0x7E)

theorem printable_ascii {text : List Char} (h : text.all isPlain = true) :
    Printable ensureAscii text := by
  have hplain : ∀ c ∈ text, 0x20 ≤ c.toNat ∧ c.toNat ≤ 0x7E :=
    fun c hc => of_decide_eq_true (List.all_eq_true.mp h c hc)
  refine ⟨text, ?_, fun c hc => ⟨(hplain c hc).1, fun _ => (hplain c hc).2⟩⟩
  clear h
  induction text with
  | nil => rfl
  | cons c text ih =>
      rw [List.flatMap_cons, utf8Chars_one ((hplain c List.mem_cons_self).2.trans (by decide)),
        ← ih fun d hd => hplain d (List.mem_cons_of_mem _ hd)]
      rfl

theorem Printable.cons {c : Char} {text : List Char} (h : Printable ensureAscii text)
    (hc : isPlain c = true) : Printable ensureAscii (c :: text) := by
  have hfirst : Printable ensureAscii [c] :=
    printable_ascii (List.all_eq_true.mpr (by simpa using hc))
  exact hfirst.append h

/-- The bytes of a longer character are not ASCII. -/
theorem toNat_of_mem_utf8Chars {c d : Char} (hd : 0x7F < d.toNat) (h : c ∈ utf8Chars d) :
    0x80 ≤ c.toNat := by
  have hbyte : c.toNat ∈ utf8Bytes d := map_toNat_utf8Chars d ▸ List.mem_map_of_mem h
  rcases Nat.lt_or_ge 0x7FF d.toNat with hthree | htwo
  · rcases Nat.lt_or_ge 0xFFFF d.toNat with hfour | hthree'
    · rw [utf8Bytes_four hfour] at hbyte
      simp only [List.mem_cons, List.not_mem_nil, or_false] at hbyte
      omega
    · rw [utf8Bytes_three hthree hthree'] at hbyte
      simp only [List.mem_cons, List.not_mem_nil, or_false] at hbyte
      omega
  · rw [utf8Bytes_two hd htwo] at hbyte
    simp only [List.mem_cons, List.not_mem_nil, or_false] at hbyte
    omega

/-- Printable text is valid, and no byte of it is below U+0020 or, with `ensureAscii`, above
U+007E. -/
theorem Printable.bytes {text : List Char} (h : Printable ensureAscii text) :
    isUtf8 (String.ofList text) = true ∧
      ∀ c ∈ text, 0x20 ≤ c.toNat ∧ (ensureAscii = true → c.toNat ≤ 0x7E) := by
  obtain ⟨cs, rfl, hcs⟩ := h
  refine ⟨(isUtf8_iff_exists_chars _).mpr ⟨cs, String.toList_ofList⟩, fun c hc => ?_⟩
  obtain ⟨d, hd, hmem⟩ := List.mem_flatMap.mp hc
  rcases Nat.lt_or_ge 0x7F d.toNat with hlong | hascii
  · refine ⟨(by decide : 0x20 ≤ 0x80).trans (toNat_of_mem_utf8Chars hlong hmem), fun hensure => ?_⟩
    have hshort := (hcs d hd).2 hensure
    omega
  · rw [utf8Chars_one hascii] at hmem
    exact List.mem_singleton.mp hmem ▸ hcs d hd

theorem printable_unicodeEscape (n : ℕ) : Printable ensureAscii (unicodeEscape n) := by
  have hdigits : ∀ k < 16, isPlain (hexDigit k) = true := by decide
  have hdigit : ∀ k, isPlain (hexDigit (k % 16)) = true :=
    fun k => hdigits _ (Nat.mod_lt _ (by decide))
  refine printable_ascii (List.all_eq_true.mpr fun c hc => ?_)
  simp only [unicodeEscape, hex4, List.mem_cons, List.not_mem_nil, or_false] at hc
  rcases hc with rfl | rfl | rfl | rfl | rfl | rfl
  · rfl
  · rfl
  all_goals exact hdigit _

theorem printable_escaped (c : Char) : Printable ensureAscii (escaped ensureAscii c) := by
  unfold escaped
  split
  iterate 7 exact printable_ascii rfl
  split
  next =>
    split
    · exact printable_unicodeEscape _
    · exact (printable_unicodeEscape _).append (printable_unicodeEscape _)
  next hplain =>
    refine ⟨[c], (List.flatMap_singleton _ _).symm, fun d hd => ?_⟩
    rw [List.mem_singleton.mp hd]
    refine ⟨by omega, fun hensure => ?_⟩
    have hlow : ¬0x7F ≤ c.toNat := fun hhigh => hplain (Or.inr ⟨hensure, hhigh⟩)
    omega

theorem printable_dumpEscaped {s : List Char} {text : List Char}
    (h : dumpEscaped ensureAscii s = .ok text) : Printable ensureAscii text := by
  have hok : ∃ text, dumpEscaped ensureAscii (String.ofList s).toList = .ok text :=
    ⟨text, by rw [String.toList_ofList]; exact h⟩
  obtain ⟨cs, hcs⟩ := (isUtf8_iff_exists_chars _).mp ((dumpEscaped_ok_iff ensureAscii _).mp hok)
  rw [String.toList_ofList] at hcs
  rw [hcs, dumpEscaped_chars] at h
  obtain rfl := Except.ok.inj h
  clear hcs hok h
  induction cs with
  | nil => exact printable_ascii rfl
  | cons c cs ih => exact (printable_escaped c).append ih

theorem NumberText.printable {text : List Char} (h : NumberText text) :
    Printable ensureAscii text := by
  refine printable_ascii (List.all_eq_true.mpr fun c hc => ?_)
  have hchar := h.isNumberChar c hc
  simp only [JsonText.isNumberChar, Bool.or_eq_true, decide_eq_true_eq] at hchar
  rcases hchar with ((((hdigit | rfl) | rfl) | rfl) | rfl) | rfl
  · simp only [Char.isDigit, Bool.and_eq_true, decide_eq_true_eq, ge_iff_le] at hdigit
    have hlow := UInt32.le_iff_toNat_le.mp hdigit.1
    have hhigh := UInt32.le_iff_toNat_le.mp hdigit.2
    change 48 ≤ c.toNat at hlow
    change c.toNat ≤ 57 at hhigh
    exact decide_eq_true (by omega)
  all_goals rfl

theorem printable_dumpKey {key : String} {name : List Char}
    (h : dumpKey ensureAscii key = .ok name) : Printable ensureAscii name := by
  obtain ⟨text, htext, hname⟩ := exists_of_bind_eq_ok h
  obtain rfl := Except.ok.inj hname
  exact ((printable_dumpEscaped htext).append (printable_ascii rfl)).cons rfl

mutual

/-- The text of a value is printable. -/
theorem printable_dump (hfloats : floats.Lawful) : ∀ (j : Json) {text : List Char},
    Representable j → dump floats ensureAscii j = .ok text → Printable ensureAscii text
  | .null, text, hj, h => Except.ok.inj h ▸ printable_ascii rfl
  | .boolean true, text, hj, h => Except.ok.inj h ▸ printable_ascii rfl
  | .boolean false, text, hj, h => Except.ok.inj h ▸ printable_ascii rfl
  | .integer n, text, hj, h => by
      obtain rfl := Except.ok.inj h
      rw [dumpInteger_eq]
      exact (numberText_integerText n).printable
  | .float q, text, hj, h => Except.ok.inj h ▸ (hfloats.text hj).printable
  | .string s, text, hj, h => by
      obtain ⟨body, hbody, htext⟩ := exists_of_bind_eq_ok h
      obtain rfl := Except.ok.inj htext
      exact ((printable_dumpEscaped hbody).append (printable_ascii rfl)).cons rfl
  | .array [], text, hj, h => Except.ok.inj h ▸ printable_ascii rfl
  | .array (element :: elements), text, hj, h => by
      rw [dump_array (List.cons_ne_nil _ _)] at h
      obtain ⟨body, hbody, htext⟩ := exists_of_bind_eq_ok h
      obtain rfl := Except.ok.inj htext
      have helements := printable_dumpElements hfloats (element :: elements) hj hbody
      exact (helements.append (printable_ascii rfl)).cons rfl
  | .object [], text, hj, h => Except.ok.inj h ▸ printable_ascii rfl
  | .object (member :: members), text, hj, h => by
      rw [dump_object (List.cons_ne_nil _ _)] at h
      obtain ⟨body, hbody, htext⟩ := exists_of_bind_eq_ok h
      obtain rfl := Except.ok.inj htext
      have hmembers := printable_dumpMembers hfloats (member :: members) hj.2 hbody
      exact (hmembers.append (printable_ascii rfl)).cons rfl

theorem printable_dumpElements (hfloats : floats.Lawful) : ∀ (elements : List Json)
    {text : List Char}, RepresentableElements elements →
      dumpElements floats ensureAscii elements = .ok text → Printable ensureAscii text
  | [], text, hj, h => Except.ok.inj h ▸ printable_ascii rfl
  | [last], text, hj, h => printable_dump hfloats last hj.1 h
  | element :: next :: elements, text, hj, h => by
      rw [dumpElements_cons (List.cons_ne_nil _ _)] at h
      obtain ⟨first, hfirst, h⟩ := exists_of_bind_eq_ok h
      obtain ⟨more, hmore, htext⟩ := exists_of_bind_eq_ok h
      obtain rfl := Except.ok.inj htext
      have hrest := printable_dumpElements hfloats (next :: elements) hj.2 hmore
      exact (printable_dump hfloats element hj.1 hfirst).append (hrest.cons rfl)

theorem printable_dumpMembers (hfloats : floats.Lawful) : ∀ (members : List (String × Json))
    {text : List Char}, RepresentableMembers members →
      dumpMembers floats ensureAscii members = .ok text → Printable ensureAscii text
  | [], text, hj, h => Except.ok.inj h ▸ printable_ascii rfl
  | [(key, value)], text, hj, h => by
      obtain ⟨name, hname, h⟩ := exists_of_bind_eq_ok h
      obtain ⟨body, hbody, htext⟩ := exists_of_bind_eq_ok h
      obtain rfl := Except.ok.inj htext
      exact (printable_dumpKey hname).append (printable_dump hfloats value hj.1 hbody)
  | (key, value) :: next :: members, text, hj, h => by
      rw [dumpMembers_cons (List.cons_ne_nil _ _)] at h
      obtain ⟨name, hname, h⟩ := exists_of_bind_eq_ok h
      obtain ⟨body, hbody, h⟩ := exists_of_bind_eq_ok h
      obtain ⟨more, hmore, htext⟩ := exists_of_bind_eq_ok h
      obtain rfl := Except.ok.inj htext
      have hrest := printable_dumpMembers hfloats (next :: members) hj.2 hmore
      exact (printable_dumpKey hname).append
        ((printable_dump hfloats value hj.1 hbody).append (hrest.cons rfl))

end

/-- What is written is valid UTF-8, no byte of it is below U+0020, and with `ensureAscii` every
byte is printable ASCII. -/
theorem dump_bytes (hfloats : floats.Lawful) {j : Json} {text : List Char}
    (hj : Representable j) (h : dump floats ensureAscii j = .ok text) :
    isUtf8 (String.ofList text) = true ∧
      ∀ c ∈ text, 0x20 ≤ c.toNat ∧ (ensureAscii = true → c.toNat ≤ 0x7E) :=
  (printable_dump hfloats j hj h).bytes

theorem dump_bytes_login :
    ∃ text, dump .fractions true loginRequest = .ok text ∧
      isUtf8 (String.ofList text) = true ∧ ∀ c ∈ text, 0x20 ≤ c.toNat ∧ c.toNat ≤ 0x7E := by
  obtain ⟨text, htext⟩ : ∃ text, dump .fractions true loginRequest = .ok text :=
    valid_loginRequest.exists_dump true
  obtain ⟨hutf8, hbytes⟩ :=
    dump_bytes FloatText.lawful_fractions valid_loginRequest.representable htext
  exact ⟨text, htext, hutf8, fun c hc => ⟨(hbytes c hc).1, (hbytes c hc).2 rfl⟩⟩

end

end Protoo.JsonText
