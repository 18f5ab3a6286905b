import Protoo.Server.Message
import Protoo.Texts

/-!
# Encoding and decoding

The client and the server each have an encoder and a decoder, and a message made by
either is read back by the other.  Decoding inverts encoding on requests and responses;
a notification comes back with an `id` of null that it was not sent with.  What the
decoder returns is a normal form: decoding it again changes nothing.

Both facts rest on `decode_toJson`: a shape whose numbers are of type `int` is decoded
to itself.
-/

namespace Protoo

/-- A value of the type `int`. -/
abbrev CInt := {n : ℤ // -2 ^ 31 ≤ n ∧ n < 2 ^ 31}

theorem CInt.wrapInt_val (n : CInt) : Json.wrapInt n.val = n.val :=
  Json.wrapInt_of_range n.property.1 n.property.2

namespace Message

/-! ## Normal forms -/

theorem Decoded.fits_of_ofFields {field : String → Json} {shape : Decoded}
    (h : ofFields field = .ok shape) : shape.Fits := by
  cases reads_of_ofFields h with
  | request _ hid | success _ _ hid | undetermined _ _ hid => exact Json.wrapInt_of_getInt hid
  | failure _ _ hid _ hcode => exact ⟨Json.wrapInt_of_getInt hid, Json.wrapInt_of_getInt hcode⟩
  | notification | invalid => trivial

/-- A decoded message is decoded to itself. -/
theorem decode_of_decode {object message : Json} (h : decode object = .ok message) :
    decode message = .ok message := by
  obtain ⟨shape, hshape, rfl⟩ := exists_decoded_of_decode h
  exact decode_toJson (Decoded.fits_of_ofFields hshape)

/-! ## Kinds -/

/-- The message is marked as one of `kind` and as nothing else. -/
structure IsOnly (kind : MessageKind) (message : Json) : Prop where
  request : (message.field "request").isBoolean = true ↔ kind = .request
  response : (message.field "response").isBoolean = true ↔ kind = .response
  notification : (message.field "notification").isBoolean = true ↔ kind = .notification

theorem Decoded.isOnly_toJson (shape : Decoded) : IsOnly shape.kind shape.toJson := by
  cases shape <;> constructor <;> simp +decide [toJson, Decoded.kind, Json.isBoolean]

/-- What the constructor wrote is read back. -/
def Recovers (sent received : Json) : Prop :=
  ∀ key, sent.contains key = true →
    received.contains key = true ∧ received.field key = sent.field key

theorem Recovers.refl (message : Json) : Recovers message message :=
  fun _ h => ⟨h, rfl⟩

/-- A notification is decoded with an `id` of null. -/
theorem decode_createNotification (method : String) (data : Json) :
    decode (createNotification method data) =
      .ok (Decoded.notification .null (.string method) data).toJson := by
  have hfields : Decoded.ofFields (createNotification method data).field =
      .ok (.notification .null (.string method) data) := by
    rw [createNotification_eq]
    simp +decide [Decoded.ofFields, Json.isBoolean]
  rw [createNotification_eq] at hfields ⊢
  rw [decode_eq rfl, hfields]
  rfl

theorem recovers_createNotification (method : String) (data : Json) :
    Recovers (createNotification method data)
      (Decoded.notification .null (.string method) data).toJson := by
  intro key hkey
  have hmem : key = "data" ∨ key = "method" ∨ key = "notification" := by
    by_contra hnone
    simp only [not_or] at hnone
    simp [createNotification_eq, Json.contains, hnone] at hkey
  rcases hmem with rfl | rfl | rfl <;>
    simp +decide [createNotification_eq, Decoded.toJson, Json.contains]

theorem exists_int_of_getInt {j : Json} {n : ℤ} (h : j.getInt = .ok n) :
    ∃ id : CInt, id.val = n := by
  have hwrap := Json.wrapInt_of_getInt h
  unfold Json.wrapInt at hwrap
  refine ⟨⟨n, ?_, ?_⟩, rfl⟩
  · have hle := Int.le_bmod (x := n) (m := 2 ^ 32) (by decide)
    omega
  · have hlt := Int.bmod_lt (x := n) (m := 2 ^ 32) (by decide)
    omega

end Message

/-! ## The two sides -/

/-- The programs that encode and decode messages. -/
inductive Side where
  | client
  | server

namespace Side

def parse : Side → JsonLibrary → String → Except Exception Json
  | .client => Message.parse
  | .server => Server.Message.parse

def createRequest : Side → ℤ → String → Json → Json
  | .client => Message.createRequest
  | .server => Server.Message.createRequest

def createSuccessResponse : Side → Json → Json → Except Exception Json
  | .client => Message.createSuccessResponse
  | .server => Server.Message.createSuccessResponse

def createErrorResponse : Side → Json → ℤ → String → Except Exception Json
  | .client => Message.createErrorResponse
  | .server => Server.Message.createErrorResponse

def createNotification : Side → String → Json → Json
  | .client => Message.createNotification
  | .server => Server.Message.createNotification

theorem parse_eq (side : Side) : side.parse = Message.parse := by
  cases side <;> rfl

theorem createRequest_eq (side : Side) : side.createRequest = Message.createRequest := by
  cases side <;> rfl

theorem createSuccessResponse_eq (side : Side) :
    side.createSuccessResponse = Message.createSuccessResponse := by
  cases side <;> rfl

theorem createErrorResponse_eq (side : Side) :
    side.createErrorResponse = Message.createErrorResponse := by
  cases side <;> rfl

theorem createNotification_eq (side : Side) :
    side.createNotification = Message.createNotification := by
  cases side <;> rfl

end Side

/-- `sent` is dumped, and the text is parsed as `received`, a message of `kind` only with
every field of `sent`. -/
structure Transmits (lib : JsonLibrary) (decoder : Side) (kind : MessageKind)
    (sent received : Json) : Prop where
  parsed : ∃ text, lib.dump sent = .ok text ∧ decoder.parse lib text = .ok received
  isOnly : Message.IsOnly kind received
  recovers : Message.Recovers sent received

/-- What `encoder` makes is read back by `decoder`. -/
structure DecodesEncoded (lib : JsonLibrary) (encoder decoder : Side) : Prop where
  request : ∀ (number : CInt) (method : String) (data : Json),
    isUtf8 method = true → data.isUtf8 = true →
      Transmits lib decoder .request (encoder.createRequest number.val method data)
        (encoder.createRequest number.val method data)
  success : ∀ (request data response : Json),
    encoder.createSuccessResponse request data = .ok response → data.isUtf8 = true →
      Transmits lib decoder .response response response
  failure : ∀ (request : Json) (errorCode : CInt) (errorReason : String) (response : Json),
    encoder.createErrorResponse request errorCode.val errorReason = .ok response →
      isUtf8 errorReason = true → Transmits lib decoder .response response response
  notification : ∀ (method : String) (data : Json),
    isUtf8 method = true → data.isUtf8 = true →
      ∃ received, Transmits lib decoder .notification (encoder.createNotification method data)
        received
  /-- A response to a parsed request has its id. -/
  answers : ∀ (text : String) (request : Json), decoder.parse lib text = .ok request →
    Message.kind request = .request → ∃ id : CInt, request.field "id" = .integer id.val ∧
      (∀ data, ∃ response, decoder.createSuccessResponse request data = .ok response ∧
        response.field "id" = .integer id.val) ∧
      (∀ errorCode errorReason, ∃ response,
        decoder.createErrorResponse request errorCode errorReason = .ok response ∧
          response.field "id" = .integer id.val)

variable {lib : JsonLibrary}

theorem transmits_of_decode (hlib : lib.ChecksUtf8) (decoder : Side) {kind : MessageKind}
    {sent received : Json} (hsent : sent.isUtf8 = true)
    (hdecode : Message.decode sent = .ok received) (hkind : Message.IsOnly kind received)
    (hrecovers : Message.Recovers sent received) : Transmits lib decoder kind sent received := by
  obtain ⟨text, htext⟩ := (hlib.dump sent).mpr hsent
  refine ⟨⟨text, htext, ?_⟩, hkind, hrecovers⟩
  rw [decoder.parse_eq, Message.parse, lib.parse_dump htext]
  exact hdecode

/-- A shape with numbers of type `int` is transmitted as it is. -/
theorem transmits_toJson (hlib : lib.ChecksUtf8) (decoder : Side) (shape : Message.Decoded)
    (hfits : shape.Fits) (hvalid : shape.toJson.isUtf8 = true) :
    Transmits lib decoder shape.kind shape.toJson shape.toJson :=
  transmits_of_decode hlib decoder hvalid (Message.decode_toJson hfits) shape.isOnly_toJson
    (.refl _)

/-- A parsed request is answered with its id. -/
theorem exists_id_of_request {object request : Json}
    (hdecode : Message.decode object = .ok request)
    (hkind : Message.kind request = .request) :
    request.isIndexable = true ∧ ∃ id : CInt, request.field "id" = .integer id.val := by
  obtain ⟨shape, hshape, rfl⟩ := Message.exists_decoded_of_decode hdecode
  rw [Message.kind_toJson] at hkind
  cases shape with
  | request id method data =>
      refine ⟨rfl, ?_⟩
      have hread := Message.Decoded.getInt_of_ofFields hshape rfl
      obtain ⟨id', rfl⟩ := Message.exists_int_of_getInt hread
      exact ⟨id', Message.Decoded.field_id_toJson rfl⟩
  | _ => exact MessageKind.noConfusion hkind

/-- Decoding undoes encoding, whichever side encodes and whichever decodes. -/
theorem decodesEncoded (hlib : lib.ChecksUtf8) (encoder decoder : Side) :
    DecodesEncoded lib encoder decoder where
  request number method data hmethod hdata := by
    rw [encoder.createRequest_eq, Message.createRequest_eq]
    refine transmits_toJson hlib decoder (.request number.val method data)
      number.wrapInt_val ?_
    simp +decide [Message.Decoded.toJson, Json.isUtf8, Json.isUtf8Members, hmethod, hdata]
  success request data response hresponse hdata := by
    rw [encoder.createSuccessResponse_eq] at hresponse
    obtain ⟨id, hid, rfl⟩ := Message.exists_of_createSuccessResponse hresponse
    refine transmits_toJson hlib decoder (.success id data)
      (Json.wrapInt_of_getInt hid) ?_
    simp +decide [Message.Decoded.toJson, Json.isUtf8, Json.isUtf8Members, hdata]
  failure request errorCode errorReason response hresponse hreason := by
    rw [encoder.createErrorResponse_eq] at hresponse
    obtain ⟨id, hid, rfl⟩ := Message.exists_of_createErrorResponse hresponse
    refine transmits_toJson hlib decoder (.failure id errorCode.val errorReason)
      ⟨Json.wrapInt_of_getInt hid, errorCode.wrapInt_val⟩ ?_
    simp +decide [Message.Decoded.toJson, Json.isUtf8, Json.isUtf8Members, hreason]
  notification method data hmethod hdata := by
    rw [encoder.createNotification_eq]
    refine ⟨_, transmits_of_decode hlib decoder ?_
      (Message.decode_createNotification method data)
      (Message.Decoded.isOnly_toJson (.notification .null (.string method) data))
      (Message.recovers_createNotification method data)⟩
    rw [Message.createNotification_eq]
    simp +decide [Json.isUtf8, Json.isUtf8Members, hmethod, hdata]
  answers text request hparse hkind := by
    rw [decoder.parse_eq] at hparse
    obtain ⟨object, -, hdecode⟩ := exists_of_bind_eq_ok hparse
    obtain ⟨hindex, id, hid⟩ := exists_id_of_request hdecode hkind
    have hread : (request.field "id").getInt = .ok id.val := by
      rw [hid]
      exact congrArg Except.ok id.wrapInt_val
    refine ⟨id, hid, fun data => ?_, fun errorCode errorReason => ?_⟩
    · rw [decoder.createSuccessResponse_eq, Message.createSuccessResponse_eq hindex hread]
      exact ⟨_, rfl, Message.Decoded.field_id_toJson rfl⟩
    · rw [decoder.createErrorResponse_eq, Message.createErrorResponse_eq hindex hread]
      exact ⟨_, rfl, Message.Decoded.field_id_toJson rfl⟩

/-- The login request numbered 5 and its text. -/
def loginEntry : Json × String :=
  ((Message.Decoded.request 5 "login" .null).toJson,
    "\x7b\"data\":null,\"id\":5,\"method\":\"login\",\"request\":true\x7d")

def loginTable : TextTable where
  entries := [loginEntry]
  nodup := by decide
  isUtf8 := by
    intro entry h
    obtain rfl := List.mem_singleton.mp h
    rfl
  isJson := by
    intro entry h
    obtain rfl := List.mem_singleton.mp h
    decide

/-- The client's login request is what the server reads. -/
theorem decodesEncoded_login :
    Transmits (.ofTexts loginTable) .server .request (Message.createRequest 5 "login" .null)
      (Message.createRequest 5 "login" .null) :=
  (decodesEncoded (JsonLibrary.checksUtf8_ofTexts loginTable) .client .server).request
    ⟨5, by decide⟩ "login" .null (by decide) rfl

/-! ## Parsing again -/

/-- What a side has parsed it dumps and parses to the same value. -/
theorem parse_dump_parse (hlib : lib.ChecksUtf8) (side : Side) {raw : String} {message : Json}
    (h : side.parse lib raw = .ok message) :
    ∃ text, lib.dump message = .ok text ∧ side.parse lib text = .ok message := by
  rw [side.parse_eq] at h ⊢
  obtain ⟨text, htext⟩ := hlib.exists_dump h
  obtain ⟨object, -, hdecode⟩ := exists_of_bind_eq_ok h
  refine ⟨text, htext, ?_⟩
  rw [Message.parse, lib.parse_dump htext]
  exact Message.decode_of_decode hdecode

/-- A response with a boolean as its id, and what the decoder makes of it. -/
def booleanIdTexts : List (Json × String) :=
  [(.object [("id", .boolean true), ("response", .boolean false)],
      "\x7b\"id\":true,\"response\":false\x7d"),
    ((Message.Decoded.undetermined 1).toJson, "\x7b\"id\":1,\"response\":true\x7d")]

def booleanIdTable : TextTable where
  entries := booleanIdTexts
  nodup := by decide
  isUtf8 := by decide
  isJson := by decide

theorem parse_dump_parse_booleanId :
    ∃ text, (JsonLibrary.ofTexts booleanIdTable).dump (Message.Decoded.undetermined 1).toJson =
        .ok text ∧
      Message.parse (.ofTexts booleanIdTable) text =
        .ok (Message.Decoded.undetermined 1).toJson := by
  have hlib := JsonLibrary.checksUtf8_ofTexts booleanIdTable
  have hraw : (JsonLibrary.ofTexts booleanIdTable).dump
      (.object [("id", .boolean true), ("response", .boolean false)]) =
        .ok "\x7b\"id\":true,\"response\":false\x7d" := rfl
  have hparse : Message.parse (.ofTexts booleanIdTable) "\x7b\"id\":true,\"response\":false\x7d" =
      .ok (Message.Decoded.undetermined 1).toJson := by
    rw [Message.parse, (JsonLibrary.ofTexts booleanIdTable).parse_dump hraw]
    rfl
  exact parse_dump_parse hlib .client hparse

end Protoo
