import Protoo.JsonText.Strings
import Protoo.JsonText.Numbers
import Mathlib.Data.List.TakeWhile

/-!
# Tokens

`scan` skips white space and reads a token.  Apart from the two ends of the input it
knows, the end itself and a null byte, a token is a bracket, a separator, a literal, a
string or a number; `Lexeme` says so without the scanner, and `scan_iff` that the scanner
reads just these.

Positions and messages, which only the text of an exception shows, are left out, as are
comments, which the program does not allow.
-/

namespace Protoo.JsonText

open Protoo.Support

/-- `token_type`, with the value the scanner holds for it.  A floating-point number is none
when it is not finite. -/
inductive Token where
  | literalTrue
  | literalFalse
  | literalNull
  | valueString (s : String)
  | valueUnsigned (n : ℕ)
  | valueInteger (n : ℤ)
  | valueFloat (value : Option ℚ)
  | beginArray
  | beginObject
  | endArray
  | endObject
  | nameSeparator
  | valueSeparator
  | parseError
  | endOfInput
  deriving DecidableEq

/-- The conversions of floating-point numbers: `strtod` of the standard library, none for
an overflow, and `to_chars` of `json.hpp`. -/
structure FloatText where
  strtod : List Char → Option ℚ
  toChars : ℚ → List Char

/-! ## The scanner -/

/-- `strtoull`, none for `ERANGE`. -/
def strtoull (text : List Char) : Option ℕ :=
  if Nat.ofDigitChars 10 text 0 < 2 ^ 64 then some (Nat.ofDigitChars 10 text 0) else none

/-- `strtoll`, none for `ERANGE`. -/
def strtoll : List Char → Option ℤ
  | '-' :: digits =>
      if Nat.ofDigitChars 10 digits 0 ≤ 2 ^ 63 then some (-(Nat.ofDigitChars 10 digits 0 : ℤ))
      else none
  | digits =>
      if Nat.ofDigitChars 10 digits 0 < 2 ^ 63 then some (Nat.ofDigitChars 10 digits 0 : ℤ)
      else none

section

variable (floats : FloatText)

/-- The end of `scan_number`: the conversion of `token_buffer`. -/
def numberToken (type : NumberType) (text : List Char) : Token :=
  match type with
  | .unsigned =>
      match strtoull text with
      | some n => .valueUnsigned n
      | none => .valueFloat (floats.strtod text)
  | .integer =>
      match strtoll text with
      | some n => .valueInteger n
      | none => .valueFloat (floats.strtod text)
  | .float => .valueFloat (floats.strtod text)

def isWhitespace (c : Char) : Bool := c = ' ' || c = '\t' || c = '\n' || c = '\r'

/-- `scan_literal` over what is left of the literal. -/
def scanLiteral (token : Token) : List Char → List Char → Token × List Char
  | [], input => (token, input)
  | _ :: _, [] => (.parseError, [])
  | letter :: literal, c :: input =>
      if c = letter then scanLiteral token literal input else (.parseError, input)

/-- `scan` behind the white space: the token and what is left of the input.  After an
error nothing is read any more. -/
def scanToken : List Char → Token × List Char
  | [] => (.endOfInput, [])
  | c :: input =>
      if c = '[' then (.beginArray, input)
      else if c = ']' then (.endArray, input)
      else if c = '\x7b' then (.beginObject, input)
      else if c = '\x7d' then (.endObject, input)
      else if c = ':' then (.nameSeparator, input)
      else if c = ',' then (.valueSeparator, input)
      else if c = 't' then scanLiteral .literalTrue ['r', 'u', 'e'] input
      else if c = 'f' then scanLiteral .literalFalse ['a', 'l', 's', 'e'] input
      else if c = 'n' then scanLiteral .literalNull ['u', 'l', 'l'] input
      else if c = '"' then
        match scanString [] input with
        | some (s, rest) => (.valueString (String.ofList s), rest)
        | none => (.parseError, input)
      else if c = '-' ∨ c.isDigit = true then
        match scanNumber (c :: input) with
        | some (type, text, rest) => (numberToken floats type text, rest)
        | none => (.parseError, input)
      else if c = '\x00' then (.endOfInput, input)
      else (.parseError, input)

/-- `scan` after the first token. -/
def scan (input : List Char) : Token × List Char :=
  scanToken floats (input.dropWhile isWhitespace)

/-- `skip_bom` -/
def skipBom : List Char → Option (List Char)
  | '\xEF' :: '\xBB' :: '\xBF' :: input => some input
  | '\xEF' :: _ => none
  | input => some input

/-- `scan` for the first token. -/
def scanFirst (input : List Char) : Token × List Char :=
  match skipBom input with
  | some input => scan floats input
  | none => (.parseError, [])

/-! ## The lexical grammar -/

/-- The tokens with one text. -/
def marks : List (List Char × Token) :=
  [(['['], .beginArray), ([']'], .endArray), (['\x7b'], .beginObject), (['\x7d'], .endObject),
    ([':'], .nameSeparator), ([','], .valueSeparator), (['t', 'r', 'u', 'e'], .literalTrue),
    (['f', 'a', 'l', 's', 'e'], .literalFalse), (['n', 'u', 'l', 'l'], .literalNull)]

def Spaces (text : List Char) : Prop := ∀ c ∈ text, isWhitespace c = true

/-- The input begins with white space and the token, and the rest is left. -/
inductive Lexeme : List Char → Token → List Char → Prop where
  | mark {spaces text rest : List Char} {token : Token} (hspaces : Spaces spaces)
      (h : (text, token) ∈ marks) : Lexeme (spaces ++ (text ++ rest)) token rest
  | string {spaces text ds rest : List Char} (hspaces : Spaces spaces) (h : StringText text ds) :
      Lexeme (spaces ++ '"' :: (text ++ '"' :: rest))
        (.valueString (String.ofList (ds.flatMap utf8Chars))) rest
  | number {spaces text rest : List Char} (hspaces : Spaces spaces) (h : NumberText text)
      (hends : NumberEnds text rest) :
      Lexeme (spaces ++ (text ++ rest)) (numberToken floats (numberType text) text) rest
  | endOfText {spaces : List Char} (hspaces : Spaces spaces) : Lexeme spaces .endOfInput []
  | null {spaces rest : List Char} (hspaces : Spaces spaces) :
      Lexeme (spaces ++ '\x00' :: rest) .endOfInput rest

/-! ## The scanner reads the tokens of the grammar -/

variable {floats}

theorem scan_spaces {spaces rest : List Char} (hspaces : Spaces spaces)
    (hrest : ∀ c ∈ rest.head?, isWhitespace c = false) :
    scan floats (spaces ++ rest) = scanToken floats rest := by
  rw [scan, List.dropWhile_append_of_pos hspaces]
  cases rest with
  | nil => rfl
  | cons c rest =>
      have hc : ¬ isWhitespace c = true := hrest c rfl ▸ Bool.false_ne_true
      rw [List.dropWhile_cons_of_neg hc]

theorem eq_of_scanLiteral {token token' : Token} {literal input rest : List Char}
    (h : scanLiteral token literal input = (token', rest)) (htoken : token' ≠ .parseError) :
    token' = token ∧ input = literal ++ rest := by
  induction literal generalizing input with
  | nil =>
      cases h
      exact ⟨rfl, rfl⟩
  | cons letter literal ih =>
      cases input with
      | nil =>
          cases h
          exact absurd rfl htoken
      | cons c input =>
          rw [scanLiteral] at h
          split at h
          next hletter =>
            obtain ⟨rfl, rfl⟩ := ih h
            exact ⟨rfl, by rw [hletter]; rfl⟩
          next =>
            cases h
            exact absurd rfl htoken

/-- The first character of a number. -/
theorem numberText_head {text : List Char} (h : NumberText text) :
    ∃ c tail, text = c :: tail ∧ (c = '-' ∨ c.isDigit = true) := by
  cases text with
  | nil => exact absurd ((reads_init_iff []).mpr h) (not_reads_nil rfl)
  | cons c tail =>
      refine ⟨c, tail, rfl, ?_⟩
      obtain ⟨next, hmove, -⟩ := accepts_cons_iff.mp ((reads_init_iff _).mpr h)
      rw [NumberState.move] at hmove
      split_ifs at hmove with hminus hzero hdigit
      · exact .inl hminus
      · exact .inr (hzero ▸ rfl)
      · refine .inr ?_
        have hrange := of_decide_eq_true hdigit
        simp only [Char.le_def] at hrange
        simp only [Char.isDigit, Bool.and_eq_true, decide_eq_true_eq, ge_iff_le]
        exact ⟨UInt32.le_trans (by decide) hrange.1, hrange.2⟩

theorem ne_of_number {c k : Char} (h : c = '-' ∨ c.isDigit = true) (hk : k ≠ '-')
    (hdigit : k.isDigit = false) : c ≠ k := by
  rintro rfl
  rcases h with h | h
  · exact hk h
  · exact absurd (h.symm.trans hdigit) (by decide)

theorem scanToken_number {c : Char} (h : c = '-' ∨ c.isDigit = true) (input : List Char) :
    scanToken floats (c :: input) =
      match scanNumber (c :: input) with
      | some (type, text, rest) => (numberToken floats type text, rest)
      | none => (.parseError, input) := by
  rw [scanToken, if_neg (ne_of_number h (by decide) rfl), if_neg (ne_of_number h (by decide) rfl),
    if_neg (ne_of_number h (by decide) rfl), if_neg (ne_of_number h (by decide) rfl),
    if_neg (ne_of_number h (by decide) rfl), if_neg (ne_of_number h (by decide) rfl),
    if_neg (ne_of_number h (by decide) rfl), if_neg (ne_of_number h (by decide) rfl),
    if_neg (ne_of_number h (by decide) rfl), if_neg (ne_of_number h (by decide) rfl), if_pos h]

theorem scanToken_quote (input : List Char) :
    scanToken floats ('"' :: input) =
      match scanString [] input with
      | some (s, rest) => (.valueString (String.ofList s), rest)
      | none => (.parseError, input) := rfl

theorem numberToken_ne (type : NumberType) (text : List Char) :
    numberToken floats type text ≠ .parseError := by
  unfold numberToken
  split
  · split <;> exact nofun
  · split <;> exact nofun
  · exact nofun

theorem scanToken_mark {text rest : List Char} {token : Token} (h : (text, token) ∈ marks) :
    scanToken floats (text ++ rest) = (token, rest) ∧
      ∀ c ∈ (text ++ rest).head?, isWhitespace c = false := by
  simp only [marks, List.mem_cons, Prod.mk.injEq, List.not_mem_nil, or_false] at h
  rcases h with ⟨rfl, rfl⟩ | ⟨rfl, rfl⟩ | ⟨rfl, rfl⟩ | ⟨rfl, rfl⟩ | ⟨rfl, rfl⟩ | ⟨rfl, rfl⟩ |
    ⟨rfl, rfl⟩ | ⟨rfl, rfl⟩ | ⟨rfl, rfl⟩
  all_goals exact ⟨rfl, fun c hc => by cases Option.some.inj hc; rfl⟩

/-- A token of the grammar is read. -/
theorem Lexeme.scan {input rest : List Char} {token : Token}
    (h : Lexeme floats input token rest) : scan floats input = (token, rest) := by
  cases h with
  | mark hspaces hmark =>
      obtain ⟨hscan, hhead⟩ := scanToken_mark hmark
      rw [scan_spaces hspaces hhead, hscan]
  | @string spaces text ds rest hspaces htext =>
      rw [scan_spaces hspaces fun c hc => by cases Option.some.inj hc; rfl]
      have hscan : scanString [] (text ++ '"' :: rest) = some (ds.flatMap utf8Chars, rest) :=
        scanString_iff.mpr ⟨text, ds, htext, rfl, rfl⟩
      rw [scanToken_quote, hscan]
  | @number spaces text rest hspaces htext hends =>
      obtain ⟨c, tail, rfl, hc⟩ := numberText_head htext
      have hscan := scanNumber_iff.mpr ⟨rfl, htext, hends, rfl⟩
      rw [List.cons_append] at hscan ⊢
      rw [scan_spaces hspaces fun d hd => ?_, scanToken_number hc, hscan]
      cases Option.some.inj hd
      simp only [isWhitespace, Bool.or_eq_false_iff, decide_eq_false_iff_not]
      exact ⟨⟨⟨ne_of_number hc (by decide) rfl, ne_of_number hc (by decide) rfl⟩,
        ne_of_number hc (by decide) rfl⟩, ne_of_number hc (by decide) rfl⟩
  | endOfText hspaces =>
      have hscan : JsonText.scan floats (input ++ []) = scanToken floats [] :=
        scan_spaces hspaces nofun
      rwa [List.append_nil] at hscan
  | null hspaces =>
      rw [scan_spaces hspaces fun c hc => by cases Option.some.inj hc; rfl]
      rfl

/-- A token that is read is one of the grammar, behind white space. -/
theorem lexeme_of_scanToken {spaces input rest : List Char} {token : Token}
    (hspaces : Spaces spaces) (h : scanToken floats input = (token, rest))
    (htoken : token ≠ .parseError) : Lexeme floats (spaces ++ input) token rest := by
  have hmark : ∀ {t : List Char}, (t, token) ∈ marks → input = t ++ rest →
      Lexeme floats (spaces ++ input) token rest := by
    rintro t hmem rfl
    exact .mark hspaces hmem
  cases input with
  | nil =>
      obtain ⟨rfl, rfl⟩ := Prod.mk.inj h
      rw [List.append_nil]
      exact .endOfText hspaces
  | cons c input =>
      by_cases h₁ : c = '['
      · subst h₁
        obtain ⟨rfl, rfl⟩ := Prod.mk.inj h
        exact hmark (t := ['[']) (by decide) rfl
      by_cases h₂ : c = ']'
      · subst h₂
        obtain ⟨rfl, rfl⟩ := Prod.mk.inj h
        exact hmark (t := [']']) (by decide) rfl
      by_cases h₃ : c = '\x7b'
      · subst h₃
        obtain ⟨rfl, rfl⟩ := Prod.mk.inj h
        exact hmark (t := ['\x7b']) (by decide) rfl
      by_cases h₄ : c = '\x7d'
      · subst h₄
        obtain ⟨rfl, rfl⟩ := Prod.mk.inj h
        exact hmark (t := ['\x7d']) (by decide) rfl
      by_cases h₅ : c = ':'
      · subst h₅
        obtain ⟨rfl, rfl⟩ := Prod.mk.inj h
        exact hmark (t := [':']) (by decide) rfl
      by_cases h₆ : c = ','
      · subst h₆
        obtain ⟨rfl, rfl⟩ := Prod.mk.inj h
        exact hmark (t := [',']) (by decide) rfl
      by_cases h₇ : c = 't'
      · subst h₇
        obtain ⟨rfl, rfl⟩ := eq_of_scanLiteral h htoken
        exact hmark (t := 't' :: ['r', 'u', 'e']) (by decide) rfl
      by_cases h₈ : c = 'f'
      · subst h₈
        obtain ⟨rfl, rfl⟩ := eq_of_scanLiteral h htoken
        exact hmark (t := 'f' :: ['a', 'l', 's', 'e']) (by decide) rfl
      by_cases h₉ : c = 'n'
      · subst h₉
        obtain ⟨rfl, rfl⟩ := eq_of_scanLiteral h htoken
        exact hmark (t := 'n' :: ['u', 'l', 'l']) (by decide) rfl
      by_cases hquote : c = '"'
      · subst hquote
        rw [scanToken_quote] at h
        cases hscan : scanString [] input with
        | none =>
            rw [hscan] at h
            exact absurd (Prod.mk.inj h).1.symm htoken
        | some scanned =>
            obtain ⟨s, left⟩ := scanned
            rw [hscan] at h
            obtain ⟨rfl, rfl⟩ := Prod.mk.inj h
            obtain ⟨text, ds, htext, rfl, rfl⟩ := scanString_iff.mp hscan
            exact .string hspaces htext
      by_cases hnumber : c = '-' ∨ c.isDigit = true
      · rw [scanToken_number hnumber] at h
        cases hscan : scanNumber (c :: input) with
        | none =>
            rw [hscan] at h
            exact absurd (Prod.mk.inj h).1.symm htoken
        | some scanned =>
            obtain ⟨type, text, left⟩ := scanned
            rw [hscan] at h
            obtain ⟨rfl, rfl⟩ := Prod.mk.inj h
            obtain ⟨hinput, htext, hends, rfl⟩ := scanNumber_iff.mp hscan
            rw [hinput]
            exact .number hspaces htext hends
      rw [scanToken, if_neg h₁, if_neg h₂, if_neg h₃, if_neg h₄, if_neg h₅, if_neg h₆, if_neg h₇,
        if_neg h₈, if_neg h₉, if_neg hquote, if_neg hnumber] at h
      by_cases hnull : c = '\x00'
      · subst hnull
        obtain ⟨rfl, rfl⟩ := Prod.mk.inj h
        exact .null hspaces
      · rw [if_neg hnull] at h
        exact absurd (Prod.mk.inj h).1.symm htoken

/-- The scanner reads the tokens of the grammar. -/
theorem scan_iff {input rest : List Char} {token : Token} (htoken : token ≠ .parseError) :
    scan floats input = (token, rest) ↔ Lexeme floats input token rest := by
  refine ⟨fun h => ?_, Lexeme.scan⟩
  have hspaces : Spaces (input.takeWhile isWhitespace) :=
    fun c hc => List.mem_takeWhile_imp hc
  have hsplit := lexeme_of_scanToken hspaces h htoken
  rwa [List.takeWhile_append_dropWhile] at hsplit

end

end Protoo.JsonText
