import Protoo.Codec
import Protoo.Peer.Specification

/-!
# What the decoder lets through

The decoder takes a value for a request or a response when the flag is a boolean, whether
true or false, and reads the id with `get<int>()`, which converts every number and every
boolean.  So the id that `accept`, `reject` and `handleResponse` work with is the one the
server wrote exactly when the server wrote a number of type `int`.
-/

namespace Protoo

namespace Json

/-- The value is the number `n`; `5` and `5.0` are the same number. -/
def IsNumber (n : ℤ) : Json → Prop
  | .integer m => m = n
  | .float q => q = n
  | _ => False

instance (n : ℤ) (j : Json) : Decidable (j.IsNumber n) := by
  cases j <;> unfold IsNumber <;> infer_instance

theorem truncateToInt_intCast (n : CInt) : truncateToInt (n.val : ℚ) = n.val := by
  have hquotient : ((n.val : ℚ)).num.tdiv ((n.val : ℚ)).den = n.val := by simp
  simp only [truncateToInt, hquotient]
  exact if_pos n.property

/-- `get<int>()` returns a number of type `int` as it is. -/
theorem getInt_of_isNumber {j : Json} {n : CInt} (h : j.IsNumber n.val) :
    j.getInt = .ok n.val := by
  cases j with
  | integer m =>
      obtain rfl : m = n.val := h
      exact congrArg Except.ok n.wrapInt_val
  | float q =>
      obtain rfl : q = n.val := h
      exact congrArg Except.ok (truncateToInt_intCast n)
  | _ => exact h.elim

end Json

namespace Message

/-- The flag that marks a message of a kind. -/
def flag : MessageKind → String
  | .request => "request"
  | .response => "response"
  | .notification => "notification"
  | .none => ""

/-- The flag of the kind is true, and the id is a number of type `int`. -/
structure Genuine (kind : MessageKind) (object : Json) : Prop where
  flag : object.field (flag kind) = .boolean true
  id : ∃ n : CInt, (object.field "id").IsNumber n.val

/-- The decoder is sound on `object`: what the message says of the kind and of the id is
what the server wrote, and so do the answer of the client and the completion of a
request. -/
structure SoundOn (kind : MessageKind) (object message : Json) : Prop where
  flag : object.field (flag kind) = .boolean true
  id : ∃ n, (object.field "id").IsNumber n ∧ message.field "id" = .integer n
  accept : ∀ request data response, Peer.onMessage message = .ok (.request request) →
    createSuccessResponse request (.string data) = .ok response →
      ∃ n, (object.field "id").IsNumber n ∧ response.field "id" = .integer n
  reject : ∀ request errorCode errorReason response,
    Peer.onMessage message = .ok (.request request) →
      createErrorResponse request errorCode errorReason = .ok response →
        ∃ n, (object.field "id").IsNumber n ∧ response.field "id" = .integer n
  complete : ∀ response (p p' : Peer) id, Peer.onMessage message = .ok (.response response) →
    p.completeResponse response = .ok (some id, p') → (object.field "id").IsNumber id

variable {object message : Json}

/-- The id of a request or a response is what `get<int>()` makes of the wire's. -/
theorem exists_id_of_decode (h : decode object = .ok message)
    (hkind : kind message = .request ∨ kind message = .response) :
    message.isIndexable = true ∧ ∃ id : CInt,
      message.field "id" = .integer id.val ∧ (object.field "id").getInt = .ok id.val := by
  obtain ⟨shape, hshape, rfl⟩ := exists_decoded_of_decode h
  rw [kind_toJson] at hkind
  have hid : ∃ id, shape.intId = some id := by
    cases shape with
    | request id | success id | failure id | undetermined id => exact ⟨id, rfl⟩
    | notification | invalid => simp [Decoded.kind] at hkind
  obtain ⟨n, hn⟩ := hid
  have hread := Decoded.getInt_of_ofFields hshape hn
  obtain ⟨id, rfl⟩ := exists_int_of_getInt hread
  refine ⟨?_, id, Decoded.field_id_toJson hn, hread⟩
  cases shape <;> rfl

/-- A request that `onMessage` dispatches reads as the message does. -/
theorem field_of_dispatched {request : Json} (hindex : message.isIndexable = true)
    (h : Peer.onMessage message = .ok (.request request)) (key : String) :
    request.field key = message.field key := by
  rw [Peer.onMessage_eq hindex] at h
  have hdispatch := Except.ok.inj h
  split at hdispatch
  · obtain rfl := Dispatch.request.inj hdispatch
    exact Json.field_touch message _ key
  · split at hdispatch
    · exact Dispatch.noConfusion hdispatch
    · split at hdispatch <;> exact Dispatch.noConfusion hdispatch

/-- A request is completed only under the id of the message. -/
theorem id_of_completeResponse {response : Json} {p p' : Peer} {id n : ℤ}
    (hdecode : decode object = .ok message)
    (hdispatch : Peer.onMessage message = .ok (.response response))
    (hcomplete : p.completeResponse response = .ok (some id, p'))
    (hn : message.field "id" = .integer n) : id = n := by
  obtain ⟨-, read, hread, hresponse, -⟩ := Peer.response_of_dispatch hdecode hdispatch
  obtain rfl : read = n := by
    rw [hread] at hn
    exact Json.integer.inj hn
  rw [Peer.completeResponse_eq hresponse] at hcomplete
  split at hcomplete
  · simp at hcomplete
  · split at hcomplete
    · exact (Option.some.inj (Prod.mk.inj (Except.ok.inj hcomplete)).1).symm
    · simp at hcomplete

/-- The decoder is sound on a request or a response exactly when its flag is true and its
id is a number of type `int`. -/
theorem soundOn_iff {accepted : MessageKind} (h : decode object = .ok message)
    (hkind : kind object = accepted) (hid : accepted = .request ∨ accepted = .response) :
    SoundOn accepted object message ↔ Genuine accepted object := by
  have hmessage : kind message = .request ∨ kind message = .response := by
    rw [kind_of_decode h, hkind]
    exact hid
  obtain ⟨hindex, id, hfield, hread⟩ := exists_id_of_decode h hmessage
  constructor
  · rintro ⟨hflag, ⟨n, hnumber, hn⟩, -, -, -⟩
    obtain rfl : id.val = n := by
      rw [hfield] at hn
      exact Json.integer.inj hn
    exact ⟨hflag, id, hnumber⟩
  · rintro ⟨hflag, n, hnumber⟩
    rw [Json.getInt_of_isNumber hnumber] at hread
    rw [← Except.ok.inj hread] at hfield
    have hanswer : ∀ request, Peer.onMessage message = .ok (.request request) →
        ∀ id, (request.field "id").getInt = .ok id → id = n.val := by
      intro request hdispatch id hgetInt
      rw [field_of_dispatched hindex hdispatch, hfield] at hgetInt
      exact (Except.ok.inj hgetInt).symm.trans n.wrapInt_val
    refine ⟨hflag, ⟨n.val, hnumber, hfield⟩, ?_, ?_, ?_⟩
    · intro request data response hdispatch hcreate
      obtain ⟨id, hgetInt, rfl⟩ := exists_of_createSuccessResponse hcreate
      obtain rfl := hanswer request hdispatch id hgetInt
      exact ⟨n.val, hnumber, Decoded.field_id_toJson rfl⟩
    · intro request errorCode errorReason response hdispatch hcreate
      obtain ⟨id, hgetInt, rfl⟩ := exists_of_createErrorResponse hcreate
      obtain rfl := hanswer request hdispatch id hgetInt
      exact ⟨n.val, hnumber, Decoded.field_id_toJson rfl⟩
    · intro response p p' id hdispatch hcomplete
      rw [id_of_completeResponse h hdispatch hcomplete hfield]
      exact hnumber

/-- A request as the server's own encoder writes it. -/
theorem soundOn_iff_request :
    SoundOn .request (createRequest 5 "a" .null) (createRequest 5 "a" .null) := by
  have hdecode : decode (createRequest 5 "a" .null) = .ok (createRequest 5 "a" .null) := rfl
  exact (soundOn_iff hdecode rfl (Or.inl rfl)).mpr ⟨rfl, ⟨5, by decide⟩, rfl⟩

/-- A response to a request whose number is above the range of `int`. -/
def wideIdResponse : Json :=
  .object [("data", .null), ("id", .integer 4294967297), ("ok", .boolean true),
    ("response", .boolean true)]

/-- Its text. -/
def wideIdTexts : JsonLibrary :=
  .ofTable [(wideIdResponse,
    "\x7b\"data\":null,\"id\":4294967297,\"ok\":true,\"response\":true\x7d")] (by decide)

/-- The response numbered 4294967297 completes the request numbered 1. -/
theorem wide_id_completes_other :
    ∃ message response p p', parse wideIdTexts
        "\x7b\"data\":null,\"id\":4294967297,\"ok\":true,\"response\":true\x7d" = .ok message ∧
      decode wideIdResponse = .ok message ∧
      ({} : Peer).request (Draw.ofNat 1) "a" .null = .ok (0, p) ∧
      Peer.onMessage message = .ok (.response response) ∧
      p.completeResponse response = .ok (some 1, p') ∧
      p'.states = [.ready (.ok .null)] ∧
      ¬SoundOn .response wideIdResponse message := by
  refine ⟨(Decoded.success 1 .null).toJson, _, _, _, rfl, rfl, rfl, rfl, rfl, rfl, ?_⟩
  rintro ⟨-, ⟨n, hnumber, hn⟩, -, -, -⟩
  have hone : (1 : ℤ) = n := Json.integer.inj hn
  have hwide : (4294967297 : ℤ) = n := hnumber
  omega

end Message

end Protoo
