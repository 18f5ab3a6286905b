import Protoo.Json
import Mathlib.Data.List.Induction
import Mathlib.Tactic.Linarith

/-!
# Messages: encoding and decoding

This module embeds `protoo::Message` of the client and of the server, which
differ only in the random number a request gets, and `generateRandomNumber`.
`decode` follows `Message::parse` statement by statement on the JSON value of
the text; `decode_eq` restates it in terms of the fields of that value, which is
the form every later proof uses.
-/

namespace Protoo

/-! ## Request ids -/

/-- `generateRandomNumber`: the loop of the client over the drawn digits, first
draw first. -/
def generateRandomNumber (digits : List (Fin 10)) : ℤ :=
  digits.foldl (fun result digit => result * 10 + (digit.val : ℤ)) 0

theorem generateRandomNumber_append (digits : List (Fin 10)) (digit : Fin 10) :
    generateRandomNumber (digits ++ [digit]) =
      generateRandomNumber digits * 10 + (digit.val : ℤ) := by
  simp [generateRandomNumber]

theorem generateRandomNumber_range (digits : List (Fin 10)) :
    0 ≤ generateRandomNumber digits ∧
      generateRandomNumber digits < 10 ^ digits.length := by
  induction digits using List.reverseRecOn with
  | nil => simp [generateRandomNumber]
  | append_singleton digits digit ih =>
      rw [generateRandomNumber_append, List.length_append, List.length_singleton, pow_succ]
      have hdigit : (digit.val : ℤ) < 10 := by exact_mod_cast digit.isLt
      constructor <;> omega

/-- The five digits drawn for one request. -/
abbrev Draw := {digits : List (Fin 10) // digits.length = 5}

/-- The five decimal digits of `n`. -/
def Draw.ofNat (n : ℕ) : Draw :=
  ⟨[.ofNat 10 (n / 10000), .ofNat 10 (n / 1000), .ofNat 10 (n / 100), .ofNat 10 (n / 10),
    .ofNat 10 n], rfl⟩

/-- The id a draw gives. -/
def Draw.number (draw : Draw) : ℤ := generateRandomNumber draw.val

theorem Draw.wrapInt_number (draw : Draw) : Json.wrapInt draw.number = draw.number := by
  obtain ⟨hlow, hhigh⟩ := generateRandomNumber_range draw.val
  rw [draw.property] at hhigh
  unfold Draw.number
  exact Json.wrapInt_of_range (by omega) (by omega)

/-- The kinds of messages, each with its handler; the last has none. -/
inductive MessageKind where
  | request
  | response
  | notification
  | none
  deriving DecidableEq

namespace Message

/-! ## The decoder -/

/-- `Message::parse` after `json::parse`. -/
def decode (object : Json) : Except Exception Json := do
  let (request, object) ← object.subscript "request"
  if request.isBoolean then
    let message := Json.assignMember "request" (.boolean true) []
    let (id, object) ← object.subscript "id"
    let message := Json.assignMember "id" (.integer (← id.getInt)) message
    let (method, object) ← object.subscript "method"
    let message := Json.assignMember "method" (.string (← method.getString)) message
    let (data, _) ← object.subscript "data"
    return .object (Json.assignMember "data" data message)
  else
    let (response, object) ← object.subscript "response"
    if response.isBoolean then
      let message := Json.assignMember "response" (.boolean true) []
      let (id, object) ← object.subscript "id"
      let message := Json.assignMember "id" (.integer (← id.getInt)) message
      let (ok, object) ← object.subscript "ok"
      if ok.isBoolean then
        let (ok, object) ← object.subscript "ok"
        if ← ok.getBool then
          let message := Json.assignMember "ok" (.boolean true) message
          let (data, _) ← object.subscript "data"
          return .object (Json.assignMember "data" data message)
        else
          let message := Json.assignMember "ok" (.boolean false) message
          let (errorCode, object) ← object.subscript "errorCode"
          let message :=
            Json.assignMember "errorCode" (.integer (← errorCode.getInt)) message
          let (errorReason, _) ← object.subscript "errorReason"
          return .object
            (Json.assignMember "errorReason" (.string (← errorReason.getString)) message)
      else
        return .object message
    else
      let (notification, object) ← object.subscript "notification"
      if notification.isBoolean then
        let message := Json.assignMember "notification" (.boolean true) []
        let (id, object) ← object.subscript "id"
        let message := Json.assignMember "id" id message
        let (method, object) ← object.subscript "method"
        let message := Json.assignMember "method" method message
        let (data, _) ← object.subscript "data"
        return .object (Json.assignMember "data" data message)
      else
        -- invalid: the message stays the empty object
        return .object []

/-- `Message::parse`. -/
def parse (lib : JsonLibrary) (raw : String) : Except Exception Json := do
  let object ← lib.parse raw
  decode object

/-! ## The encoders -/

/-- `Message::createRequest`, for the number that `generateRandomNumber` gave. -/
def createRequest (number : ℤ) (method : String) (data : Json) : Json :=
  Json.ofInitializers
    [("request", .boolean true), ("id", .integer number), ("method", .string method),
      ("data", data)]

/-- `Message::createSuccessResponse`. -/
def createSuccessResponse (request data : Json) : Except Exception Json := do
  let (id, _) ← request.subscript "id"
  return Json.ofInitializers
    [("response", .boolean true), ("id", .integer (← id.getInt)), ("ok", .boolean true),
      ("data", data)]

/-- `Message::createErrorResponse`. -/
def createErrorResponse (request : Json) (errorCode : ℤ) (errorReason : String) :
    Except Exception Json := do
  let (id, _) ← request.subscript "id"
  return Json.ofInitializers
    [("response", .boolean true), ("id", .integer (← id.getInt)), ("ok", .boolean false),
      ("errorCode", .integer errorCode), ("errorReason", .string errorReason)]

/-- `Message::createNotification`. -/
def createNotification (method : String) (data : Json) : Json :=
  Json.ofInitializers
    [("notification", .boolean true), ("method", .string method), ("data", data)]

/-! ## The shapes of decoded messages -/

/-- What the decoder makes of a text: one shape for each of its exits. -/
inductive Decoded where
  | request (id : ℤ) (method : String) (data : Json)
  | success (id : ℤ) (data : Json)
  | failure (id errorCode : ℤ) (errorReason : String)
  | undetermined (id : ℤ)
  | notification (id method data : Json)
  | invalid

namespace Decoded

/-- The JSON value the decoder returns for a shape. -/
def toJson : Decoded → Json
  | .request id method data => .object
      [("data", data), ("id", .integer id), ("method", .string method),
        ("request", .boolean true)]
  | .success id data => .object
      [("data", data), ("id", .integer id), ("ok", .boolean true),
        ("response", .boolean true)]
  | .failure id errorCode errorReason => .object
      [("errorCode", .integer errorCode), ("errorReason", .string errorReason),
        ("id", .integer id), ("ok", .boolean false), ("response", .boolean true)]
  | .undetermined id => .object [("id", .integer id), ("response", .boolean true)]
  | .notification id method data => .object
      [("data", data), ("id", id), ("method", method), ("notification", .boolean true)]
  | .invalid => .object []

/-- The decoder as a function of the fields it reads. -/
def ofFields (field : String → Json) : Except Exception Decoded :=
  if (field "request").isBoolean then do
    let id ← (field "id").getInt
    let method ← (field "method").getString
    return .request id method (field "data")
  else if (field "response").isBoolean then do
    let id ← (field "id").getInt
    if (field "ok").isBoolean then
      if ← (field "ok").getBool then
        return .success id (field "data")
      else
        let errorCode ← (field "errorCode").getInt
        let errorReason ← (field "errorReason").getString
        return .failure id errorCode errorReason
    else
      return .undetermined id
  else if (field "notification").isBoolean then
    return .notification (field "id") (field "method") (field "data")
  else
    return .invalid

/-- The id of a shape that read one with `get<int>()`. -/
def intId : Decoded → Option ℤ
  | .request id _ _ => some id
  | .success id _ => some id
  | .failure id _ _ => some id
  | .undetermined id => some id
  | .notification _ _ _ => none
  | .invalid => none

theorem field_id_toJson {shape : Decoded} {id : ℤ} (h : shape.intId = some id) :
    shape.toJson.field "id" = .integer id := by
  cases shape with
  | notification => simp [intId] at h
  | invalid => simp [intId] at h
  | _ =>
      obtain rfl := Option.some.inj h
      simp +decide [toJson]

/-- The shapes of responses. -/
theorem of_isBoolean_response {shape : Decoded}
    (h : (shape.toJson.field "response").isBoolean = true) :
    shape.toJson.isIndexable = true ∧ (∃ id, shape.intId = some id) ∧
      (shape.toJson.field "request").isBoolean = false ∧
      (shape.toJson.contains "ok" = true → (shape.toJson.field "ok").isBoolean = true) := by
  cases shape with
  | success id data =>
      refine ⟨rfl, ⟨id, rfl⟩, ?_⟩
      simp +decide [toJson, Json.isBoolean]
  | failure id errorCode errorReason =>
      refine ⟨rfl, ⟨id, rfl⟩, ?_⟩
      simp +decide [toJson, Json.isBoolean]
  | undetermined id =>
      refine ⟨rfl, ⟨id, rfl⟩, ?_⟩
      simp +decide [toJson, Json.isBoolean, Json.contains]
  | _ => simp +decide [toJson, Json.isBoolean] at h

/-- What the decoder has read at each of its exits. -/
inductive Reads (field : String → Json) : Decoded → Prop
  | request {id : ℤ} {method : String} (hrequest : (field "request").isBoolean = true)
      (hid : (field "id").getInt = .ok id) (hmethod : (field "method").getString = .ok method) :
      Reads field (.request id method (field "data"))
  | success {id : ℤ} (hrequest : (field "request").isBoolean ≠ true)
      (hresponse : (field "response").isBoolean = true) (hid : (field "id").getInt = .ok id)
      (hok : (field "ok").getBool = .ok true) : Reads field (.success id (field "data"))
  | failure {id errorCode : ℤ} {errorReason : String}
      (hrequest : (field "request").isBoolean ≠ true)
      (hresponse : (field "response").isBoolean = true) (hid : (field "id").getInt = .ok id)
      (hok : (field "ok").getBool = .ok false)
      (hcode : (field "errorCode").getInt = .ok errorCode)
      (hreason : (field "errorReason").getString = .ok errorReason) :
      Reads field (.failure id errorCode errorReason)
  | undetermined {id : ℤ} (hrequest : (field "request").isBoolean ≠ true)
      (hresponse : (field "response").isBoolean = true) (hid : (field "id").getInt = .ok id)
      (hok : (field "ok").isBoolean ≠ true) : Reads field (.undetermined id)
  | notification (hrequest : (field "request").isBoolean ≠ true)
      (hresponse : (field "response").isBoolean ≠ true)
      (hnotification : (field "notification").isBoolean = true) :
      Reads field (.notification (field "id") (field "method") (field "data"))
  | invalid (hrequest : (field "request").isBoolean ≠ true)
      (hresponse : (field "response").isBoolean ≠ true)
      (hnotification : (field "notification").isBoolean ≠ true) : Reads field .invalid

theorem reads_of_ofFields {field : String → Json} {shape : Decoded}
    (h : ofFields field = .ok shape) : shape.Reads field := by
  unfold ofFields at h
  split at h
  next hrequest =>
    obtain ⟨id, hid, h⟩ := exists_of_bind_eq_ok h
    obtain ⟨method, hmethod, h⟩ := exists_of_bind_eq_ok h
    obtain rfl := Except.ok.inj h
    exact .request hrequest hid hmethod
  next hrequest =>
    split at h
    next hresponse =>
      obtain ⟨id, hid, h⟩ := exists_of_bind_eq_ok h
      split at h
      next =>
        obtain ⟨ok, hok, h⟩ := exists_of_bind_eq_ok h
        cases ok with
        | true =>
            obtain rfl := Except.ok.inj h
            exact .success hrequest hresponse hid hok
        | false =>
            obtain ⟨errorCode, hcode, h⟩ := exists_of_bind_eq_ok h
            obtain ⟨errorReason, hreason, h⟩ := exists_of_bind_eq_ok h
            obtain rfl := Except.ok.inj h
            exact .failure hrequest hresponse hid hok hcode hreason
      next hok =>
        obtain rfl := Except.ok.inj h
        exact .undetermined hrequest hresponse hid hok
    next hresponse =>
      split at h
      next hnotification =>
        obtain rfl := Except.ok.inj h
        exact .notification hrequest hresponse hnotification
      next hnotification =>
        obtain rfl := Except.ok.inj h
        exact .invalid hrequest hresponse hnotification

theorem getInt_of_ofFields {field : String → Json} {shape : Decoded}
    (h : ofFields field = .ok shape) {id : ℤ} (hid : shape.intId = some id) :
    (field "id").getInt = .ok id := by
  cases reads_of_ofFields h with
  | request _ hread | success _ _ hread | failure _ _ hread | undetermined _ _ hread =>
      exact Option.some.inj hid ▸ hread
  | notification | invalid => exact absurd hid (by simp [intId])

end Decoded

/-- Decoding an object or null reads its fields only; the nulls that reading
inserts into the local value play no role. -/
theorem decode_eq {object : Json} (h : object.isIndexable = true) :
    decode object = (Decoded.ofFields object.field).map Decoded.toJson := by
  by_cases hrequest : (object.field "request").isBoolean = true
  · cases hid : (object.field "id").getInt <;>
      cases hmethod : (object.field "method").getString <;>
        simp [decode, Decoded.ofFields, Json.subscript_eq, h, hrequest, hid, hmethod]
    rfl
  · by_cases hresponse : (object.field "response").isBoolean = true
    · cases hid : (object.field "id").getInt with
      | error error =>
          simp [decode, Decoded.ofFields, Json.subscript_eq, h, hrequest, hresponse, hid]
      | ok id =>
          by_cases hok : (object.field "ok").isBoolean = true
          · obtain ⟨b, hb⟩ : ∃ b, (object.field "ok").getBool = .ok b :=
              Json.exists_getBool_eq hok
            cases b with
            | true =>
                simp [decode, Decoded.ofFields, Json.subscript_eq, h, hrequest, hresponse,
                  hid, hok, hb]
                rfl
            | false =>
                cases hcode : (object.field "errorCode").getInt <;>
                  cases hreason : (object.field "errorReason").getString <;>
                    simp [decode, Decoded.ofFields, Json.subscript_eq, h, hrequest,
                      hresponse, hid, hok, hb, hcode, hreason]
                rfl
          · simp [decode, Decoded.ofFields, Json.subscript_eq, h, hrequest, hresponse, hid,
              hok]
            rfl
    · by_cases hnotification : (object.field "notification").isBoolean = true
      · simp [decode, Decoded.ofFields, Json.subscript_eq, h, hrequest, hresponse,
          hnotification]
        rfl
      · simp [decode, Decoded.ofFields, Json.subscript_eq, h, hrequest, hresponse,
          hnotification]
        rfl

/-- Any other value is refused by the first read. -/
theorem decode_of_not_isIndexable {object : Json} (h : object.isIndexable = false) :
    decode object = .error (.typeError 305
      ("cannot use operator[] with a string argument with " ++ object.typeName)) := by
  cases object with
  | null => simp [Json.isIndexable] at h
  | object members => simp [Json.isIndexable] at h
  | _ => rfl

/-- What the decoder accepts has one of the six shapes. -/
theorem exists_decoded_of_decode {object message : Json} (h : decode object = .ok message) :
    ∃ shape, Decoded.ofFields object.field = .ok shape ∧ message = shape.toJson := by
  by_cases hindex : object.isIndexable = true
  · rw [decode_eq hindex] at h
    cases hshape : Decoded.ofFields object.field with
    | error error => simp [hshape] at h
    | ok shape =>
        refine ⟨shape, rfl, ?_⟩
        simpa [hshape, eq_comm] using h
  · rw [decode_of_not_isIndexable (Bool.eq_false_of_not_eq_true hindex)] at h
    simp at h

theorem isIndexable_of_decode {object message : Json} (h : decode object = .ok message) :
    message.isIndexable = true := by
  obtain ⟨shape, -, rfl⟩ := exists_decoded_of_decode h
  cases shape <;> rfl

/-! ## Kinds -/

/-- The kind that the decoder decides on. -/
def kind (object : Json) : MessageKind :=
  if (object.field "request").isBoolean then .request
  else if (object.field "response").isBoolean then .response
  else if (object.field "notification").isBoolean then .notification
  else .none

/-- The kind of a shape. -/
def Decoded.kind : Decoded → MessageKind
  | .request _ _ _ => .request
  | .success _ _ => .response
  | .failure _ _ _ => .response
  | .undetermined _ => .response
  | .notification _ _ _ => .notification
  | .invalid => .none

theorem kind_toJson (shape : Decoded) : kind shape.toJson = shape.kind := by
  cases shape <;> simp +decide [kind, Decoded.toJson, Decoded.kind, Json.isBoolean]

/-- The decoder's cascade is that of `kind`. -/
theorem kind_of_ofFields {object : Json} {shape : Decoded}
    (h : Decoded.ofFields object.field = .ok shape) : kind object = shape.kind := by
  unfold kind
  cases Decoded.reads_of_ofFields h with
  | request hrequest =>
      rw [if_pos hrequest]
      rfl
  | success hrequest hresponse | failure hrequest hresponse
  | undetermined hrequest hresponse =>
      rw [if_neg hrequest, if_pos hresponse]
      rfl
  | notification hrequest hresponse hnotification =>
      rw [if_neg hrequest, if_neg hresponse, if_pos hnotification]
      rfl
  | invalid hrequest hresponse hnotification =>
      rw [if_neg hrequest, if_neg hresponse, if_neg hnotification]
      rfl

/-- The decoder keeps the kind. -/
theorem kind_of_decode {object message : Json} (h : decode object = .ok message) :
    kind message = kind object := by
  obtain ⟨shape, hshape, rfl⟩ := exists_decoded_of_decode h
  rw [kind_toJson, kind_of_ofFields hshape]

/-! ## Encoded messages have decoded shapes -/

theorem createRequest_eq (number : ℤ) (method : String) (data : Json) :
    createRequest number method data = (Decoded.request number method data).toJson := by
  simp +decide [createRequest, Json.ofInitializers, Json.emplaceMember, Json.assignMember,
    Decoded.toJson]

theorem createNotification_eq (method : String) (data : Json) :
    createNotification method data = .object [("data", data), ("method", .string method),
      ("notification", .boolean true)] := by
  simp +decide [createNotification, Json.ofInitializers, Json.emplaceMember, Json.assignMember]

/-- A success response to a value with an integer id. -/
theorem createSuccessResponse_eq {request : Json} (h : request.isIndexable = true) {id : ℤ}
    (hid : (request.field "id").getInt = .ok id) (data : Json) :
    createSuccessResponse request data = .ok (Decoded.success id data).toJson := by
  simp +decide [createSuccessResponse, Json.subscript_eq, h, hid, Json.ofInitializers,
    Json.emplaceMember, Json.assignMember, Decoded.toJson]

theorem createErrorResponse_eq {request : Json} (h : request.isIndexable = true) {id : ℤ}
    (hid : (request.field "id").getInt = .ok id) (errorCode : ℤ) (errorReason : String) :
    createErrorResponse request errorCode errorReason =
      .ok (Decoded.failure id errorCode errorReason).toJson := by
  simp +decide [createErrorResponse, Json.subscript_eq, h, hid, Json.ofInitializers,
    Json.emplaceMember, Json.assignMember, Decoded.toJson]

/-- What `createSuccessResponse` returns, when it returns. -/
theorem exists_of_createSuccessResponse {request data response : Json}
    (h : createSuccessResponse request data = .ok response) :
    ∃ id, (request.field "id").getInt = .ok id ∧
      response = (Decoded.success id data).toJson := by
  have hindex : request.isIndexable = true := by
    cases request <;> first | rfl | exact nomatch h
  cases hid : (request.field "id").getInt with
  | ok id =>
      rw [createSuccessResponse_eq hindex hid] at h
      exact ⟨id, rfl, (Except.ok.inj h).symm⟩
  | error error => simp [createSuccessResponse, Json.subscript_eq, hindex, hid] at h

theorem exists_of_createErrorResponse {request response : Json} {errorCode : ℤ}
    {errorReason : String}
    (h : createErrorResponse request errorCode errorReason = .ok response) :
    ∃ id, (request.field "id").getInt = .ok id ∧
      response = (Decoded.failure id errorCode errorReason).toJson := by
  have hindex : request.isIndexable = true := by
    cases request <;> first | rfl | exact nomatch h
  cases hid : (request.field "id").getInt with
  | ok id =>
      rw [createErrorResponse_eq hindex hid] at h
      exact ⟨id, rfl, (Except.ok.inj h).symm⟩
  | error error => simp [createErrorResponse, Json.subscript_eq, hindex, hid] at h

/-! ## Decoding encoded messages -/

/-- The field that marks a message as a request. -/
def isRequest (message : Json) : Bool := (message.field "request").isBoolean

theorem isRequest_createNotification (method : String) (data : Json) :
    isRequest (createNotification method data) = false := by
  simp +decide [isRequest, createNotification, Json.ofInitializers, Json.emplaceMember,
    Json.assignMember, Json.isBoolean]

theorem isRequest_success (id : ℤ) (data : Json) :
    isRequest (Decoded.success id data).toJson = false := by
  simp +decide [isRequest, Decoded.toJson, Json.isBoolean]

theorem isRequest_failure (id errorCode : ℤ) (errorReason : String) :
    isRequest (Decoded.failure id errorCode errorReason).toJson = false := by
  simp +decide [isRequest, Decoded.toJson, Json.isBoolean]

theorem isRequest_iff {message : Json} : isRequest message = true ↔ kind message = .request := by
  unfold isRequest kind
  split
  next hrequest => exact iff_of_true hrequest rfl
  next hrequest =>
    refine iff_of_false hrequest ?_
    split
    · exact MessageKind.noConfusion
    · split <;> exact MessageKind.noConfusion

/-- The decoder takes for a request only what is marked as one. -/
theorem isRequest_of_decode {object message : Json} (h : decode object = .ok message)
    (hmessage : isRequest message = true) : isRequest object = true := by
  rw [isRequest_iff] at hmessage ⊢
  exact (kind_of_decode h).symm.trans hmessage

/-- A request is decoded as it was encoded. -/
theorem decode_request {number : ℤ} (hnumber : Json.wrapInt number = number) (method : String)
    (data : Json) (key : String) :
    decode ((createRequest number method data).touch key) =
      .ok (Decoded.request number method data).toJson := by
  have hindex : ((createRequest number method data).touch key).isIndexable = true := by
    rw [Json.isIndexable_touch, createRequest_eq]
    rfl
  have hfields : Decoded.ofFields ((createRequest number method data).touch key).field =
      .ok (.request number method data) := by
    rw [createRequest_eq]
    simp +decide [Decoded.ofFields, Decoded.toJson, Json.isBoolean, Json.getInt, Json.getString,
      hnumber]
  rw [decode_eq hindex, hfields]
  rfl

/-- The numbers of the shape are of type `int`. -/
def Decoded.Fits : Decoded → Prop
  | .request id _ _ => Json.wrapInt id = id
  | .success id _ => Json.wrapInt id = id
  | .failure id errorCode _ => Json.wrapInt id = id ∧ Json.wrapInt errorCode = errorCode
  | .undetermined id => Json.wrapInt id = id
  | .notification _ _ _ => True
  | .invalid => True

theorem Decoded.ofFields_toJson {shape : Decoded} (h : shape.Fits) :
    ofFields shape.toJson.field = .ok shape := by
  cases shape with
  | request id | success id | undetermined id =>
      have hid : Json.wrapInt id = id := h
      simp +decide [ofFields, toJson, Json.isBoolean, Json.getInt, Json.getString, Json.getBool,
        hid]
  | failure id errorCode errorReason =>
      simp +decide [ofFields, toJson, Json.isBoolean, Json.getInt, Json.getString, Json.getBool,
        h.1, h.2]
  | notification | invalid => simp +decide [ofFields, toJson, Json.isBoolean]

theorem decode_toJson {shape : Decoded} (h : shape.Fits) :
    decode shape.toJson = .ok shape.toJson := by
  have hindex : shape.toJson.isIndexable = true := by
    cases shape <;> rfl
  rw [decode_eq hindex, Decoded.ofFields_toJson h]
  rfl

theorem decode_success {id : ℤ} (hid : Json.wrapInt id = id) (data : Json) :
    decode (Decoded.success id data).toJson = .ok (Decoded.success id data).toJson :=
  @decode_toJson (.success id data) hid

theorem decode_failure {id : ℤ} (hid : Json.wrapInt id = id) (errorCode : ℤ)
    (errorReason : String) :
    decode (Decoded.failure id errorCode errorReason).toJson =
      .ok (Decoded.failure id (Json.wrapInt errorCode) errorReason).toJson := by
  have hfields : Decoded.ofFields (Decoded.failure id errorCode errorReason).toJson.field =
      .ok (.failure id (Json.wrapInt errorCode) errorReason) := by
    simp +decide [Decoded.ofFields, Decoded.toJson, Json.isBoolean, Json.getInt, Json.getBool,
      Json.getString, hid]
  rw [decode_eq rfl, hfields]
  rfl

end Message

end Protoo
