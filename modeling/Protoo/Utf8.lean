import Protoo.Message

/-!
# Strings that can be serialized

`dump` copies a string through the automaton `decode` of `json.hpp` and throws when a
byte is rejected or the string ends inside a character.  The parser accepts only
texts whose strings pass the same test.  `Json.isUtf8` is the test over a whole
value, the keys of objects included, and `JsonLibrary.ChecksUtf8` is what the program
relies on.

Decoding a message keeps the test, so whatever `Message::parse` returns can be
serialized again.
-/

namespace Protoo

/-- The states of `decode`; each but the first two is named after the bytes read of
the character. -/
inductive Utf8State where
  | accept
  | reject
  | beforeLast
  | beforeTwo
  | afterE0
  | afterED
  | afterF0
  | beforeThree
  | afterF4
  deriving DecidableEq

namespace Utf8State

/-- The state after the first byte of a character. -/
def first (byte : ℕ) : Utf8State :=
  if byte ≤ 0x7F then .accept
  else if byte < 0xC2 then .reject
  else if byte ≤ 0xDF then .beforeLast
  else if byte = 0xE0 then .afterE0
  else if byte = 0xED then .afterED
  else if byte ≤ 0xEF then .beforeTwo
  else if byte = 0xF0 then .afterF0
  else if byte ≤ 0xF3 then .beforeThree
  else if byte = 0xF4 then .afterF4
  else .reject

/-- `next` for a byte in the range, which depends on the byte before. -/
def within (low high byte : ℕ) (next : Utf8State) : Utf8State :=
  if low ≤ byte ∧ byte ≤ high then next else .reject

/-- `decode`: the new state. -/
def decode (state : Utf8State) (byte : ℕ) : Utf8State :=
  match state with
  | .accept => first byte
  | .reject => .reject
  | .beforeLast => within 0x80 0xBF byte .accept
  | .beforeTwo => within 0x80 0xBF byte .beforeLast
  | .afterE0 => within 0xA0 0xBF byte .beforeLast
  | .afterED => within 0x80 0x9F byte .beforeLast
  | .afterF0 => within 0x90 0xBF byte .beforeTwo
  | .beforeThree => within 0x80 0xBF byte .beforeTwo
  | .afterF4 => within 0x80 0x8F byte .beforeTwo

end Utf8State

/-- The string passes `dump_escaped` without an exception. -/
def isUtf8 (s : String) : Bool :=
  s.toList.foldl (fun state byte => state.decode byte.toNat) Utf8State.accept = .accept

namespace Json

mutual

/-- Every string of the value is valid UTF-8. -/
def isUtf8 : Json → Bool
  | .null => true
  | .boolean _ => true
  | .integer _ => true
  | .float _ => true
  | .string s => Protoo.isUtf8 s
  | .array elements => isUtf8Elements elements
  | .object members => isUtf8Members members

def isUtf8Elements : List Json → Bool
  | [] => true
  | element :: elements => isUtf8 element && isUtf8Elements elements

def isUtf8Members : List (String × Json) → Bool
  | [] => true
  | (key, value) :: members => Protoo.isUtf8 key && isUtf8 value && isUtf8Members members

end

theorem isUtf8Members_iff {members : List (String × Json)} :
    isUtf8Members members = true ↔
      ∀ member ∈ members, Protoo.isUtf8 member.1 = true ∧ isUtf8 member.2 = true := by
  induction members with
  | nil => simp [isUtf8Members]
  | cons member members ih =>
      obtain ⟨key, value⟩ := member
      rw [isUtf8Members, Bool.and_eq_true, Bool.and_eq_true, ih]
      simp

/-- An object is tested member by member. -/
theorem isUtf8_object {members : List (String × Json)} :
    isUtf8 (.object members) = true ↔
      ∀ member ∈ members, Protoo.isUtf8 member.1 = true ∧ isUtf8 member.2 = true := by
  rw [isUtf8, isUtf8Members_iff]

theorem isUtf8_field {j : Json} (h : j.isUtf8 = true) (key : String) :
    (j.field key).isUtf8 = true := by
  cases j with
  | object members =>
      rw [field_object]
      cases hlookup : members.lookup key with
      | none => rfl
      | some value =>
          obtain ⟨before, after, rfl, -⟩ := List.lookup_eq_some_iff.mp hlookup
          exact (isUtf8_object.mp h (key, value) (by simp)).2
  | _ => rfl

theorem mem_assignMember {key : String} {value : Json} {members : List (String × Json)}
    {member : String × Json} (h : member ∈ assignMember key value members) :
    member = (key, value) ∨ member ∈ members := by
  induction members with
  | nil => exact Or.inl (List.mem_singleton.mp h)
  | cons first rest ih =>
      obtain ⟨k, v⟩ := first
      unfold assignMember at h
      split at h
      · exact List.mem_cons.mp h
      · split at h
        · rcases List.mem_cons.mp h with heq | hmem
          · exact Or.inl heq
          · exact Or.inr (List.mem_cons_of_mem _ hmem)
        · rcases List.mem_cons.mp h with heq | hmem
          · exact Or.inr (heq ▸ List.mem_cons_self)
          · exact (ih hmem).imp_right (List.mem_cons_of_mem _)

theorem isUtf8_of_getString {j : Json} {s : String} (h : j.isUtf8 = true)
    (hs : j.getString = .ok s) : Protoo.isUtf8 s = true := by
  cases j with
  | string s' =>
      obtain rfl := Except.ok.inj hs
      rwa [isUtf8] at h
  | _ => exact nomatch hs

end Json

namespace Message

theorem Decoded.isUtf8_toJson {field : String → Json} {shape : Decoded}
    (h : Decoded.ofFields field = .ok shape) (hfield : ∀ key, (field key).isUtf8 = true) :
    shape.toJson.isUtf8 = true := by
  cases Decoded.reads_of_ofFields h with
  | request _ _ hmethod =>
      have hstring := Json.isUtf8_of_getString (hfield "method") hmethod
      simp +decide [Decoded.toJson, Json.isUtf8, Json.isUtf8Members, hstring, hfield "data"]
  | failure _ _ _ _ _ hreason =>
      have hstring := Json.isUtf8_of_getString (hfield "errorReason") hreason
      simp +decide [Decoded.toJson, Json.isUtf8, Json.isUtf8Members, hstring]
  | success | undetermined | notification =>
      simp +decide [Decoded.toJson, Json.isUtf8, Json.isUtf8Members, hfield]
  | invalid => rfl

/-- The decoder takes its strings from the value it decodes. -/
theorem isUtf8_of_decode {object message : Json} (h : decode object = .ok message)
    (hobject : object.isUtf8 = true) : message.isUtf8 = true := by
  obtain ⟨shape, hshape, rfl⟩ := exists_decoded_of_decode h
  exact Decoded.isUtf8_toJson hshape (Json.isUtf8_field hobject)

end Message

/-! ## The library -/

/-- `dump` throws exactly for a string that is not valid UTF-8, and the parser refuses
such a string. -/
structure JsonLibrary.ChecksUtf8 (lib : JsonLibrary) : Prop where
  dump : ∀ value, (∃ text, lib.dump value = .ok text) ↔ value.isUtf8 = true
  parse : ∀ {text value}, lib.parse text = .ok value → value.isUtf8 = true

namespace JsonLibrary

variable {lib : JsonLibrary}

/-- What the parser accepted is valid in the message as well. -/
theorem ChecksUtf8.message (h : lib.ChecksUtf8) {raw : String} {message : Json}
    (hparse : Message.parse lib raw = .ok message) : message.isUtf8 = true := by
  obtain ⟨object, hobject, hdecode⟩ := exists_of_bind_eq_ok hparse
  exact Message.isUtf8_of_decode hdecode (h.parse hobject)

/-- An accepted message can be serialized. -/
theorem ChecksUtf8.exists_dump (h : lib.ChecksUtf8) {raw : String} {message : Json}
    (hparse : Message.parse lib raw = .ok message) : ∃ text, lib.dump message = .ok text :=
  (h.dump message).mpr (h.message hparse)

end JsonLibrary

end Protoo
