import Protoo.JsonText.Serializer
import Protoo.Codec

/-!
# The vendored library

The development states what it needs of JSON as `JsonLibrary` and `ChecksUtf8`.  Here these
are shown to hold of the code in `json.hpp`: `JsonLibrary.vendored` writes and reads every
value that `json` can hold as that code does.  On these values the law of `JsonLibrary` is
`JsonText.parse_dump`.  The development asks it of all values of `Json`, so that nothing it
states of the program needs a condition on the data; values that `json` cannot hold, such as
an integer of 70 bits, are therefore given texts of their own, none of which is JSON.
-/

namespace Protoo

namespace JsonText

section

variable (floats : FloatText)

/-- `json::dump` -/
def dumpString (j : Json) : Except Exception String :=
  (dump floats false j).map String.ofList

/-- `json::parse`.  The program does not tell its two exceptions apart. -/
def parseString (text : String) : Except Exception Json :=
  match parse floats text.toList with
  | .ok v => .ok v
  | .error _ => .error .parseError

variable {floats}

theorem dumpString_iff {j : Json} {text : String} :
    dumpString floats j = .ok text ↔ dump floats false j = .ok text.toList := by
  unfold dumpString
  cases dump floats false j with
  | error error => exact ⟨nofun, nofun⟩
  | ok chars =>
      rw [except_map_ok, Except.ok.injEq, Except.ok.injEq]
      exact ⟨fun h => h ▸ String.toList_ofList.symm, fun h => h ▸ String.ofList_toList⟩

theorem parseString_iff {j : Json} {text : String} :
    parseString floats text = .ok j ↔ parse floats text.toList = .ok j := by
  unfold parseString
  cases parse floats text.toList with
  | error error => exact ⟨nofun, nofun⟩
  | ok v => rw [Except.ok.injEq, Except.ok.injEq]

/-- No JSON text begins with the letter `v`. -/
theorem parse_otherText (j : Json) (v : Json) : parse floats j.otherText.toList ≠ .ok v := by
  intro h
  obtain ⟨body, rest, after, hbom, hvalue, -⟩ := documentText_of_parse h
  have htext : j.otherText.toList = 'v' :: List.replicate (Encodable.encode j.code) 'v' := by
    rw [Json.otherText, String.toList_ofList, List.replicate_succ]
  rw [htext] at hbom
  obtain rfl := Option.some.inj hbom
  obtain ⟨token, mid, hlexeme, -⟩ := hvalue.first
  exact hlexeme.ne_parseError (Prod.mk.inj hlexeme.scan).1.symm

end

end JsonText

open JsonText

open Classical in
/-- The library with the code of `json.hpp`. -/
noncomputable def JsonLibrary.vendored (floats : FloatText) (h : floats.Lawful) :
    JsonLibrary where
  dump value :=
    if Representable value then dumpString floats value
    else if value.isUtf8 then .ok value.otherText
    else .error (.typeError 316 "invalid UTF-8 byte")
  parse text :=
    match parseString floats text with
    | .ok value => .ok value
    | .error error =>
        if h : ∃ value, ¬ Representable value ∧ value.isUtf8 = true ∧ value.otherText = text then
          .ok h.choose
        else .error error
  parse_dump := by
    intro value text hdump
    by_cases hvalue : Representable value
    · rw [if_pos hvalue] at hdump
      have hparse : parseString floats text = .ok value :=
        parseString_iff.mpr (JsonText.parse_dump h hvalue (dumpString_iff.mp hdump))
      rw [hparse]
    · rw [if_neg hvalue] at hdump
      split at hdump
      next hvalid =>
        obtain rfl := Except.ok.inj hdump
        have hexists : ∃ other, ¬ Representable other ∧ other.isUtf8 = true ∧
            other.otherText = value.otherText := ⟨value, hvalue, hvalid, rfl⟩
        cases hparse : parseString floats value.otherText with
        | ok v => exact absurd (parseString_iff.mp hparse) (parse_otherText value v)
        | error error =>
            simp only [dif_pos hexists]
            exact congrArg Except.ok (Json.otherText_inj.mp hexists.choose_spec.2.2)
      next => exact nomatch hdump

namespace JsonLibrary

variable {floats : FloatText} {h : floats.Lawful}

/-- A value that `json` can hold is written as `json.hpp` writes it. -/
theorem vendored_dump {value : Json} (hvalue : Representable value) :
    (vendored floats h).dump value = dumpString floats value := if_pos hvalue

/-- A text that `json.hpp` accepts is read as `json.hpp` reads it. -/
theorem vendored_parse {text : String} {value : Json}
    (hparse : parseString floats text = .ok value) :
    (vendored floats h).parse text = .ok value := by
  simp only [vendored, hparse]

/-- What else is accepted begins with the letter `v`. -/
theorem vendored_parse_of_ne {text : String} (hfirst : text.toList.head? ≠ some 'v') :
    (vendored floats h).parse text = parseString floats text := by
  simp only [vendored]
  split
  next value hparse => rw [hparse]
  next error hparse =>
    rw [hparse, dif_neg]
    rintro ⟨value, -, -, rfl⟩
    refine hfirst ?_
    rw [Json.otherText, String.toList_ofList, List.replicate_succ, List.head?_cons]

theorem exists_dumpString_iff (value : Json) :
    (∃ text, dumpString floats value = .ok text) ↔ value.isUtf8 = true := by
  have hdump : (∃ chars, JsonText.dump floats false value = .ok chars) ↔ value.isUtf8 = true :=
    dump_ok_iff value
  rw [← hdump]
  constructor
  · rintro ⟨text, htext⟩
    exact ⟨_, dumpString_iff.mp htext⟩
  · rintro ⟨text, htext⟩
    exact ⟨_, dumpString_iff.mpr (htext.trans (congrArg Except.ok String.toList_ofList.symm))⟩

/-- The code of `json.hpp` has the properties the development asks of a JSON library. -/
theorem checksUtf8_vendored : (vendored floats h).ChecksUtf8 where
  dump value := by
    by_cases hvalue : Representable value
    · rw [vendored_dump hvalue, exists_dumpString_iff]
    · simp only [vendored, if_neg hvalue]
      split
      next hvalid => exact ⟨fun _ => hvalid, fun _ => ⟨_, rfl⟩⟩
      next hvalid =>
        refine ⟨?_, fun hok => absurd hok hvalid⟩
        rintro ⟨text, herror⟩
        cases herror
  parse := by
    intro text value hparse
    simp only [vendored] at hparse
    split at hparse
    next v hv =>
      obtain rfl := Except.ok.inj hparse
      exact (valid_of_parse h (parseString_iff.mp hv)).isUtf8
    next =>
      split at hparse
      next hexists => exact Except.ok.inj hparse ▸ hexists.choose_spec.2.1
      next => cases hparse

/-- What the development assumes of its JSON library holds of the code of `json.hpp`: there
is a library with the assumed properties that writes and reads as this code does, on all the
values the code can hold and all texts that do not begin with the letter `v`. -/
theorem exists_vendored (hfloats : floats.Lawful) :
    ∃ lib : JsonLibrary, lib.ChecksUtf8 ∧
      (∀ value, Representable value → lib.dump value = dumpString floats value) ∧
      (∀ text value, parseString floats text = .ok value → lib.parse text = .ok value) ∧
      ∀ text : String, text.toList.head? ≠ some 'v' → lib.parse text = parseString floats text :=
  ⟨vendored floats hfloats, checksUtf8_vendored, fun _ => vendored_dump, fun _ _ => vendored_parse,
    fun _ => vendored_parse_of_ne⟩

theorem exists_vendored_fractions :
    ∃ lib : JsonLibrary, lib.ChecksUtf8 ∧
      (∀ value, Representable value → lib.dump value = dumpString .fractions value) ∧
      (∀ text value, parseString .fractions text = .ok value → lib.parse text = .ok value) ∧
      ∀ text : String, text.toList.head? ≠ some 'v' →
        lib.parse text = parseString .fractions text :=
  exists_vendored FloatText.lawful_fractions

end JsonLibrary

/-! ## Messages -/

namespace Message

variable {floats : FloatText}

theorem valid_int {n : ℤ} (h : Json.wrapInt n = n) : Valid (.integer n) := by
  have hlow := Int.le_bmod (x := n) (m := 2 ^ 32) (by decide)
  have hhigh := Int.bmod_lt (x := n) (m := 2 ^ 32) (by decide)
  unfold Json.wrapInt at h
  exact ⟨⟨by omega, by omega⟩, rfl⟩

theorem valid_field {object : Json} (h : Valid object) (key : String) :
    Valid (object.field key) := by
  refine ⟨?_, Json.isUtf8_field h.isUtf8 key⟩
  cases object with
  | object members =>
      rw [Json.field_object]
      cases hlookup : members.lookup key with
      | none => trivial
      | some value =>
          obtain ⟨before, after, rfl, -⟩ := List.lookup_eq_some_iff.mp hlookup
          exact representableMembers_iff.mp h.representable.2 (key, value) (by simp)
  | _ => trivial

/-- Decoding keeps to the values that can be held and written. -/
theorem valid_decode {object message : Json} (h : Valid object)
    (hdecode : decode object = .ok message) : Valid message := by
  refine ⟨?_, isUtf8_of_decode hdecode h.isUtf8⟩
  obtain ⟨shape, hshape, rfl⟩ := exists_decoded_of_decode hdecode
  have hfits := Decoded.fits_of_ofFields hshape
  have hfield := fun key => (valid_field h key).representable
  cases Decoded.reads_of_ofFields hshape with
  | request =>
      exact ⟨sortedKeys_of_keys ["data", "id", "method", "request"] rfl (by decide), hfield "data",
        (valid_int hfits).representable, trivial, trivial, trivial⟩
  | success =>
      exact ⟨sortedKeys_of_keys ["data", "id", "ok", "response"] rfl (by decide), hfield "data",
        (valid_int hfits).representable, trivial, trivial, trivial⟩
  | failure =>
      exact ⟨sortedKeys_of_keys ["errorCode", "errorReason", "id", "ok", "response"] rfl
          (by decide),
        (valid_int hfits.2).representable, trivial, (valid_int hfits.1).representable, trivial,
        trivial, trivial⟩
  | undetermined =>
      exact ⟨sortedKeys_of_keys ["id", "response"] rfl (by decide), (valid_int hfits).representable,
        trivial, trivial⟩
  | notification =>
      exact ⟨sortedKeys_of_keys ["data", "id", "method", "notification"] rfl (by decide),
        hfield "data", hfield "id", hfield "method", trivial, trivial⟩
  | invalid => exact ⟨List.Pairwise.nil, trivial⟩

/-- A message that was read from any text can be sent again: it is written as text without
control characters below U+0020, which is read as the same message. -/
theorem exists_text_of_decode (hfloats : floats.Lawful) {raw : String} {object message : Json}
    (hparse : parseString floats raw = .ok object) (hdecode : decode object = .ok message) :
    ∃ text, dumpString floats message = .ok text ∧ Printable false text.toList ∧
      parseString floats text = .ok message ∧ decode message = .ok message := by
  have hvalid := valid_decode (valid_of_parse hfloats (parseString_iff.mp hparse)) hdecode
  obtain ⟨text, htext⟩ := (JsonLibrary.exists_dumpString_iff message).mpr hvalid.isUtf8
  have hdump := dumpString_iff.mp htext
  refine ⟨text, htext, printable_dump hfloats message hvalid.representable hdump, ?_,
    decode_of_decode hdecode⟩
  exact parseString_iff.mpr (parse_dump hfloats hvalid.representable hdump)

theorem exists_text_of_decode_login :
    ∃ text, dumpString .fractions (Decoded.request 5 "login" .null).toJson = .ok text ∧
      Printable false text.toList ∧
      parseString .fractions text = .ok (Decoded.request 5 "login" .null).toJson ∧
      decode (Decoded.request 5 "login" .null).toJson =
        .ok (Decoded.request 5 "login" .null).toJson := by
  have hdecode : decode (Decoded.request 5 "login" .null).toJson =
      .ok (Decoded.request 5 "login" .null).toJson := decode_toJson rfl
  have hrepresentable : Representable (Decoded.request 5 "login" .null).toJson :=
    ⟨sortedKeys_of_keys ["data", "id", "method", "request"] rfl (by decide), trivial,
      ⟨by decide, by decide⟩, trivial, trivial, trivial⟩
  obtain ⟨raw, hraw⟩ : ∃ raw, dumpString .fractions (Decoded.request 5 "login" .null).toJson =
      .ok raw := (JsonLibrary.exists_dumpString_iff _).mpr (by decide)
  have hparse := parseString_iff.mpr
    (parse_dump FloatText.lawful_fractions hrepresentable (dumpString_iff.mp hraw))
  exact exists_text_of_decode FloatText.lawful_fractions hparse hdecode

end Message

end Protoo
