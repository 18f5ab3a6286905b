import Protoo.Utf8
import Mathlib.Data.Rat.Encodable
import Mathlib.Logic.Equiv.List

/-!
# A JSON library with given texts

`JsonLibrary.ofTexts` serializes every valid value: the values of a table to the texts
given there, and any other value to a text of its own that no JSON value has, a row of
`v`.  It meets the laws of `ChecksUtf8`, and on a run that stays within the table it
does what the library does.
-/

namespace Protoo

namespace Json

def codeString (s : String) : ℕ := Encodable.encode (s.toList.map Char.toNat)

theorem codeString_inj {s s' : String} : codeString s = codeString s' ↔ s = s' := by
  constructor
  · intro h
    have hcodes := Encodable.encode_injective h
    have hchars : Function.Injective (List.map Char.toNat) :=
      List.map_injective_iff.mpr fun c d hcd => Char.toNat_inj.mp hcd
    exact String.toList_injective (hchars hcodes)
  · exact congrArg codeString

mutual

/-- A value as a list of numbers. -/
def code : Json → List ℕ
  | .null => [0]
  | .boolean b => [1, b.toNat]
  | .integer n => [2, Encodable.encode n]
  | .float q => [3, Encodable.encode q]
  | .string s => [4, codeString s]
  | .array elements => 5 :: elements.length :: codeElements elements
  | .object members => 6 :: members.length :: codeMembers members

def codeElements : List Json → List ℕ
  | [] => []
  | element :: elements => code element ++ codeElements elements

def codeMembers : List (String × Json) → List ℕ
  | [] => []
  | (key, value) :: members => codeString key :: (code value ++ codeMembers members)

end

mutual

/-- The code of a value ends where the value ends. -/
theorem code_append_inj : ∀ (a b : Json) {r s : List ℕ},
    code a ++ r = code b ++ s → a = b ∧ r = s
  | .null, b, r, s, h => by cases b <;> simp_all [code]
  | .boolean p, b, r, s, h => by
      cases b with
      | boolean q => cases p <;> cases q <;> simp_all [code]
      | _ => simp [code] at h
  | .integer n, b, r, s, h => by cases b <;> simp_all [code]
  | .float q, b, r, s, h => by cases b <;> simp_all [code]
  | .string t, b, r, s, h => by cases b <;> simp_all [code, codeString_inj]
  | .array xs, b, r, s, h => by
      cases b with
      | array ys =>
          simp only [code, List.cons_append, List.cons.injEq, true_and] at h
          obtain ⟨rfl, rfl⟩ := codeElements_append_inj xs ys h.1 h.2
          exact ⟨rfl, rfl⟩
      | _ => simp [code] at h
  | .object xs, b, r, s, h => by
      cases b with
      | object ys =>
          simp only [code, List.cons_append, List.cons.injEq, true_and] at h
          obtain ⟨rfl, rfl⟩ := codeMembers_append_inj xs ys h.1 h.2
          exact ⟨rfl, rfl⟩
      | _ => simp [code] at h

theorem codeElements_append_inj : ∀ (xs ys : List Json) {r s : List ℕ},
    xs.length = ys.length → codeElements xs ++ r = codeElements ys ++ s → xs = ys ∧ r = s
  | [], ys, r, s, hlength, h => by cases ys <;> simp_all [codeElements]
  | x :: xs, ys, r, s, hlength, h => by
      cases ys with
      | nil => simp at hlength
      | cons y ys =>
          simp only [codeElements, List.append_assoc] at h
          obtain ⟨rfl, hrest⟩ := code_append_inj x y h
          obtain ⟨rfl, rfl⟩ :=
            codeElements_append_inj xs ys (Nat.succ.inj hlength) hrest
          exact ⟨rfl, rfl⟩

theorem codeMembers_append_inj : ∀ (xs ys : List (String × Json)) {r s : List ℕ},
    xs.length = ys.length → codeMembers xs ++ r = codeMembers ys ++ s → xs = ys ∧ r = s
  | [], ys, r, s, hlength, h => by cases ys <;> simp_all [codeMembers]
  | (key, x) :: xs, ys, r, s, hlength, h => by
      cases ys with
      | nil => simp at hlength
      | cons member ys =>
          obtain ⟨key', y⟩ := member
          simp only [codeMembers, List.cons_append, List.append_assoc, List.cons.injEq,
            codeString_inj] at h
          obtain ⟨rfl, hvalues⟩ := h
          obtain ⟨rfl, hrest⟩ := code_append_inj x y hvalues
          obtain ⟨rfl, rfl⟩ :=
            codeMembers_append_inj xs ys (Nat.succ.inj hlength) hrest
          exact ⟨rfl, rfl⟩

end

/-- The text of a value that no table lists. -/
def otherText (value : Json) : String :=
  String.ofList (List.replicate (Encodable.encode value.code + 1) 'v')

theorem otherText_inj {a b : Json} : otherText a = otherText b ↔ a = b := by
  constructor
  · intro h
    have hlists := String.ofList_injective h
    have hcodes := Nat.succ.inj ((List.replicate_inj.mp hlists).1)
    have hsame : a.code ++ [] = b.code ++ [] := by
      rw [Encodable.encode_injective hcodes]
    exact (code_append_inj a b hsame).1
  · exact congrArg otherText

end Json

/-- Values that can be serialized with different texts, none of which begins with the
letter `v`. -/
structure TextTable where
  entries : List (Json × String)
  nodup : (entries.map Prod.snd).Nodup
  isUtf8 : ∀ entry ∈ entries, entry.1.isUtf8 = true
  isJson : ∀ entry ∈ entries, entry.2.toList.head? ≠ some 'v'

namespace TextTable

variable (table : TextTable)

/-- The text of a value. -/
def text (value : Json) : String :=
  match table.entries.find? (fun entry => entry.1 = value) with
  | some entry => entry.2
  | none => value.otherText

theorem text_cases (value : Json) :
    (value, table.text value) ∈ table.entries ∨ table.text value = value.otherText := by
  unfold text
  cases hfind : table.entries.find? (fun entry => entry.1 = value) with
  | none => exact Or.inr rfl
  | some entry =>
      have hvalue : entry.1 = value := by simpa using List.find?_some hfind
      exact Or.inl (hvalue ▸ List.mem_of_find?_eq_some hfind)

theorem otherText_not_mem (value other : Json) : (value, other.otherText) ∉ table.entries := by
  intro hmem
  apply table.isJson _ hmem
  simp [Json.otherText, List.replicate_succ]

theorem text_inj {a b : Json} (h : table.text a = table.text b) : a = b := by
  rcases table.text_cases a with ha | ha
  · rcases table.text_cases b with hb | hb
    · have hsame := List.inj_on_of_nodup_map table.nodup ha hb h
      exact congrArg Prod.fst hsame
    · rw [h, hb] at ha
      exact absurd ha (table.otherText_not_mem a b)
  · rcases table.text_cases b with hb | hb
    · rw [← h, ha] at hb
      exact absurd hb (table.otherText_not_mem b a)
    · rw [ha, hb] at h
      exact Json.otherText_inj.mp h

end TextTable

open Classical in
/-- The library of a table. -/
noncomputable def JsonLibrary.ofTexts (table : TextTable) : JsonLibrary where
  dump value :=
    if value.isUtf8 then .ok (table.text value)
    else .error (.typeError 316 "invalid UTF-8 byte")
  parse text :=
    if h : ∃ value, value.isUtf8 = true ∧ table.text value = text then .ok h.choose
    else .error .parseError
  parse_dump := by
    intro value text hdump
    obtain ⟨hvalue, htext⟩ : value.isUtf8 = true ∧ table.text value = text := by
      split at hdump
      next hvalid => exact ⟨hvalid, Except.ok.inj hdump⟩
      next => exact nomatch hdump
    have hexists : ∃ value, value.isUtf8 = true ∧ table.text value = text :=
      ⟨value, hvalue, htext⟩
    rw [dif_pos hexists]
    exact congrArg Except.ok (table.text_inj (hexists.choose_spec.2.trans htext.symm))

theorem JsonLibrary.checksUtf8_ofTexts (table : TextTable) : (ofTexts table).ChecksUtf8 where
  dump value := by
    by_cases h : value.isUtf8 = true <;> simp [ofTexts, h]
  parse := by
    intro text value h
    simp only [ofTexts] at h
    split at h
    next hexists => exact Except.ok.inj h ▸ hexists.choose_spec.1
    next => cases h

end Protoo
