import Protoo.JsonText.Lexer
import Protoo.JsonText.Document

/-!
# JSON texts

The grammar of a value over the tokens of the scanner: which characters a value takes up
and which value it is.  The pairs of an object are assigned one after the other, so the last
of several pairs with one key counts and the members come out in key order.

The parser is compared with this grammar in `Parser`; the facts here are about the grammar
alone.
-/

namespace Protoo.JsonText

/-- The value of a token that is a whole value. -/
def Token.scalar : Token → Option Json
  | .literalTrue => some (.boolean true)
  | .literalFalse => some (.boolean false)
  | .literalNull => some .null
  | .valueString s => some (.string s)
  | .valueUnsigned n => some (.integer n)
  | .valueInteger n => some (.integer n)
  | .valueFloat (some q) => some (.float q)
  | _ => none

section

variable (floats : FloatText)

mutual

/-- The input begins with a text of the value, and the rest is left. -/
inductive ValueText : List Char → Json → List Char → Prop where
  | scalar {input rest : List Char} {token : Token} {v : Json}
      (h : Lexeme floats input token rest) (hscalar : token.scalar = some v) :
      ValueText input v rest
  | emptyArray {input mid rest : List Char} (h : Lexeme floats input .beginArray mid)
      (hend : Lexeme floats mid .endArray rest) : ValueText input (.array []) rest
  | array {input mid rest : List Char} {elements : List Json}
      (h : Lexeme floats input .beginArray mid) (helements : ElementsText mid elements rest) :
      ValueText input (.array elements) rest
  | emptyObject {input mid rest : List Char} (h : Lexeme floats input .beginObject mid)
      (hend : Lexeme floats mid .endObject rest) : ValueText input (.object []) rest
  | object {input mid rest : List Char} {pairs : List (String × Json)}
      (h : Lexeme floats input .beginObject mid) (hmembers : MembersText mid pairs rest) :
      ValueText input (.object (Members.empty.ofPairs pairs).list) rest

/-- Elements up to the closing bracket. -/
inductive ElementsText : List Char → List Json → List Char → Prop where
  | last {input mid rest : List Char} {v : Json} (h : ValueText input v mid)
      (hend : Lexeme floats mid .endArray rest) : ElementsText input [v] rest
  | cons {input mid next rest : List Char} {v : Json} {elements : List Json}
      (h : ValueText input v mid) (hseparator : Lexeme floats mid .valueSeparator next)
      (helements : ElementsText next elements rest) : ElementsText input (v :: elements) rest

/-- Pairs up to the closing brace. -/
inductive MembersText : List Char → List (String × Json) → List Char → Prop where
  | last {input colon first mid rest : List Char} {key : String} {v : Json}
      (hkey : Lexeme floats input (.valueString key) colon)
      (hcolon : Lexeme floats colon .nameSeparator first) (h : ValueText first v mid)
      (hend : Lexeme floats mid .endObject rest) : MembersText input [(key, v)] rest
  | cons {input colon first mid next rest : List Char} {key : String} {v : Json}
      {pairs : List (String × Json)} (hkey : Lexeme floats input (.valueString key) colon)
      (hcolon : Lexeme floats colon .nameSeparator first) (h : ValueText first v mid)
      (hseparator : Lexeme floats mid .valueSeparator next)
      (hmembers : MembersText next pairs rest) : MembersText input ((key, v) :: pairs) rest

end

/-- A whole text of the value: a byte order mark may come first, and after the value there is
nothing but white space, up to a null byte if there is one. -/
def DocumentText (text : List Char) (v : Json) : Prop :=
  ∃ body rest after, skipBom text = some body ∧ ValueText floats body v rest ∧
    Lexeme floats rest .endOfInput after

end

/-! ## Texts take up characters -/

variable {floats : FloatText}

/-- No other token follows. -/
def Token.ends : Token → Bool
  | .endOfInput => true
  | .parseError => true
  | _ => false

theorem Token.ne_parseError {token : Token} (h : token.ends = false) : token ≠ .parseError := by
  rintro rfl
  cases h

theorem Lexeme.length_lt {input rest : List Char} {token : Token}
    (h : Lexeme floats input token rest) (hends : token.ends = false) :
    rest.length < input.length := by
  cases h with
  | @mark spaces text rest token hspaces hmark =>
      have hmarks : ∀ mark ∈ marks, 0 < mark.1.length := by decide
      have hpos : 0 < text.length := hmarks _ hmark
      simp only [List.length_append]
      omega
  | string hspaces htext =>
      simp only [List.length_append, List.length_cons]
      omega
  | number hspaces htext hends =>
      obtain ⟨c, tail, rfl, -⟩ := numberText_head htext
      simp only [List.length_append, List.length_cons]
      omega
  | endOfText hspaces => cases hends
  | null hspaces => cases hends

theorem Token.ends_of_scalar {token : Token} {v : Json} (h : token.scalar = some v) :
    token.ends = false := by
  cases token with
  | endOfInput | parseError => cases h
  | _ => rfl

mutual

theorem ValueText.length_lt {input rest : List Char} {v : Json} :
    ValueText floats input v rest → rest.length < input.length
  | .scalar h hscalar => h.length_lt (Token.ends_of_scalar hscalar)
  | .emptyArray h hend => (hend.length_lt rfl).trans (h.length_lt rfl)
  | .array h helements => helements.length_lt.trans (h.length_lt rfl)
  | .emptyObject h hend => (hend.length_lt rfl).trans (h.length_lt rfl)
  | .object h hmembers => hmembers.length_lt.trans (h.length_lt rfl)

theorem ElementsText.length_lt {input rest : List Char} {elements : List Json} :
    ElementsText floats input elements rest → rest.length < input.length
  | .last h hend => (hend.length_lt rfl).trans h.length_lt
  | .cons h hseparator helements =>
      helements.length_lt.trans ((hseparator.length_lt rfl).trans h.length_lt)

theorem MembersText.length_lt {input rest : List Char} {pairs : List (String × Json)} :
    MembersText floats input pairs rest → rest.length < input.length
  | .last hkey hcolon h hend =>
      ((hend.length_lt rfl).trans h.length_lt).trans
        ((hcolon.length_lt rfl).trans (hkey.length_lt rfl))
  | .cons hkey hcolon h hseparator hmembers =>
      (hmembers.length_lt.trans ((hseparator.length_lt rfl).trans h.length_lt)).trans
        ((hcolon.length_lt rfl).trans (hkey.length_lt rfl))

end

theorem ValueText.first {input rest : List Char} {v : Json} (h : ValueText floats input v rest) :
    ∃ token mid, Lexeme floats input token mid ∧ token ≠ .endArray := by
  cases h with
  | @scalar _ _ token _ h hscalar =>
      refine ⟨token, _, h, ?_⟩
      rintro rfl
      exact nomatch hscalar
  | emptyArray h hend | array h helements | emptyObject h hend | object h hmembers =>
      exact ⟨_, _, h, nofun⟩

/-- Elements do not begin with the closing bracket. -/
theorem ElementsText.first {input rest : List Char} {elements : List Json}
    (h : ElementsText floats input elements rest) :
    ∃ token mid, Lexeme floats input token mid ∧ token ≠ .endArray := by
  cases h with
  | last h hend | cons h hseparator helements => exact h.first

end Protoo.JsonText
