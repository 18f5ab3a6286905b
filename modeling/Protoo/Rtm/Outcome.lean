import Protoo.Rtm.Session
import Protoo.Rtm.Callbacks
import Protoo.Texts

/-!
# The outcome of an operation and the answer of the server

An operation asks the peer for a request and waits for its promise.  What it makes of
the answer passes through the decoder, `handleResponse`, the promise and the operation's
own handler of exceptions.  `Rtm.Reflects` says what should come out when the request
has succeeded or not, and `ReflectsAnswers` that it does for every text that answers a
pending request, for every timeout, and over whole runs for the stored channel.
-/

namespace Protoo

open Protoo.Support

/-! ## What the decoder keeps of a response -/

/-- The result that a response carries is the one in the text. -/
theorem Message.replyOf_of_decode {object message : Json} (h : Message.decode object = .ok message)
    (hkind : Message.kind object = .response) : Peer.replyOf message = Peer.replyOf object := by
  obtain ⟨shape, hshape, rfl⟩ := Message.exists_decoded_of_decode h
  rw [Message.kind_of_ofFields hshape] at hkind
  cases Message.Decoded.reads_of_ofFields hshape with
  | success _ _ _ hok =>
      simp +decide [Peer.replyOf, Message.Decoded.toJson, Json.eq_boolean_of_getBool hok]
  | failure _ _ _ hok =>
      simp +decide [Peer.replyOf, Message.Decoded.toJson, Json.eq_boolean_of_getBool hok]
  | undetermined _ _ _ hok =>
      have hfield : object.field "ok" ≠ .boolean true := by
        intro hfield
        exact hok (by rw [hfield]; rfl)
      simp +decide [Peer.replyOf, Message.Decoded.toJson, hfield]
  | _ => exact MessageKind.noConfusion hkind

/-! ## What an operation makes of the result -/

/-- The channel that an operation is about. -/
def Operation.channelName : Operation → Option String
  | .subscribe channelName => some channelName
  | .unsubscribe channelName => some channelName
  | _ => none

/-- The channel in the value of a future. -/
def OperationResponse.channelName : OperationResponse → Option String
  | .subscribe response => some response.channelName
  | .unsubscribe response => some response.channelName
  | _ => none

namespace Rtm

/-- The future holds a value exactly when the request has succeeded, with the channel that
was asked for, and the stored channel changes only by a subscribe that has succeeded. -/
structure Reflects (lib : JsonLibrary) (succeeded : Prop) (operation : Operation)
    (result : RequestResult) (rtm : Rtm) : Prop where
  value : (∃ response, (rtm.operationInternal lib operation result).1 = .ok response) ↔ succeeded
  channel : ∀ response, (rtm.operationInternal lib operation result).1 = .ok response →
    response.channelName = operation.channelName
  subscribed : ∀ channelName, operation = .subscribe channelName → succeeded →
    (rtm.operationInternal lib operation result).2.channelName = channelName
  unchanged : ¬(succeeded ∧ ∃ channelName, operation = .subscribe channelName) →
    (rtm.operationInternal lib operation result).2.channelName = rtm.channelName

variable {lib : JsonLibrary} {succeeded : Prop} {operation : Operation} {result : RequestResult}

theorem reflects_of_succeeds (h : succeeds lib result operation = true ↔ succeeded) (rtm : Rtm) :
    Reflects lib succeeded operation result rtm := by
  cases hresult : succeeds lib result operation with
  | true =>
      have hsucceeded : succeeded := h.mp hresult
      have heq : rtm.operationInternal lib operation result =
          (.ok (response result.timestamp operation), rtm.perform lib operation result) := by
        rw [operationInternal_eq, outcome, hresult]
        rfl
      refine ⟨?_, ?_, ?_, ?_⟩
      · rw [heq]
        exact iff_of_true ⟨_, rfl⟩ hsucceeded
      · rw [heq]
        rintro _ ⟨⟩
        cases operation <;> rfl
      · rintro channelName rfl -
        rw [heq, perform, hresult]
        rfl
      · intro hother
        rw [heq, perform, hresult]
        cases operation with
        | subscribe channelName => exact absurd ⟨hsucceeded, channelName, rfl⟩ hother
        | _ => rfl
  | false =>
      have hfailed : ¬succeeded := fun hsucceeded => by simp [h.mpr hsucceeded] at hresult
      have heq : rtm.operationInternal lib operation result =
          (.error (.runtimeError "request timeout"), rtm.perform lib operation result) := by
        rw [operationInternal_eq, outcome, hresult]
        rfl
      refine ⟨?_, ?_, ?_, ?_⟩
      · rw [heq]
        exact iff_of_false (by simp) hfailed
      · rw [heq]
        rintro response ⟨⟩
      · exact fun _ _ hsucceeded => absurd hsucceeded hfailed
      · intro _
        rw [heq, perform, hresult]
        cases operation <;> rfl

/-- A result with data that can be logged. -/
theorem reflects_ok {data : Json} (hdump : ∃ text, lib.dump data = .ok text) (timestamp : ℤ)
    (operation : Operation) (rtm : Rtm) :
    Reflects lib True operation ⟨.ok data, timestamp⟩ rtm := by
  apply reflects_of_succeeds
  obtain ⟨text, htext⟩ := hdump
  cases operation with
  | login => simp [succeeds, htext, Except.isOk, Except.toBool]
  | _ => simp [succeeds, Except.isOk, Except.toBool]

theorem reflects_error (error : Exception) (timestamp : ℤ) (operation : Operation) (rtm : Rtm) :
    Reflects lib False operation ⟨.error error, timestamp⟩ rtm := by
  apply reflects_of_succeeds
  cases operation <;> simp [succeeds, Except.isOk, Except.toBool]

end Rtm

/-! ## Answers -/

/-- The text is accepted, and it answers the request whose promise is `k`. -/
structure Client.Answers (lib : JsonLibrary) (c : Client) (text : String) (object : Json)
    (k : ℕ) : Prop where
  parse : lib.parse text = .ok object
  kind : Message.kind object = .response
  pending : ∃ message id, Message.decode object = .ok message ∧
    message.field "id" = .integer id ∧ c.peer.promises.lookup id = some k

/-- An answer that is received gives the promise the result in the text. -/
theorem Client.ready_of_answers {lib : JsonLibrary} {events : List ClientEvent} {c c' : Client}
    (hrun : Run (step lib) AnyStep {} events c) {chunk text : String} {final : Bool}
    {handled : Except Exception Unit}
    (htext : (c.peer.transport.receive chunk final).2 = some text)
    (hstep : step lib c (.receive chunk final handled) = some c') {object : Json} {k : ℕ}
    (h : c.Answers lib text object k) :
    c'.peer.states[k]? = some (.ready (Peer.replyOf object)) := by
  obtain ⟨hobject, hkind, message, id, hdecode, hid, hlookup⟩ := h
  have hparse : Message.parse lib text = .ok message := by
    rw [Message.parse, hobject]
    exact hdecode
  have hmessage : Message.kind message = .response := (Message.kind_of_decode hdecode).trans hkind
  have hdispatch := Peer.onMessage_of_kind (Message.isIndexable_of_decode hdecode)
  rw [hmessage] at hdispatch
  obtain ⟨-, read, hread, hresponse, hreply⟩ := Peer.response_of_dispatch hdecode hdispatch
  obtain rfl : read = id := by
    rw [hread] at hid
    exact Json.integer.inj hid
  have hreceived : c' = c.receive lib chunk final handled ∧ c.handler = .idle := by
    simp only [step] at hstep
    split at hstep
    next hidle _ _ => exact ⟨(Option.some.inj hstep).symm, hidle⟩
    next => cases hstep
  obtain ⟨rfl, hidle⟩ := hreceived
  have hempty := empty_of_lookup hrun hidle hlookup
  have hsatisfy : Store.satisfy k (Peer.replyOf object) c.peer.states =
      some (c.peer.states.set k (.ready (Peer.replyOf object))) :=
    Store.satisfy_eq_some_iff.mpr ⟨hempty, rfl⟩
  rw [← Message.replyOf_of_decode hdecode hkind, ← hreply] at hsatisfy ⊢
  rcases hreceive : c.peer.transport.receive chunk final with ⟨t, completed⟩
  obtain rfl : completed = some text := by rw [← htext, hreceive]
  simp only [receive, hreceive, hparse, hdispatch, setTransport,
    Peer.completeResponse_eq hresponse, hlookup, hsatisfy]
  rw [Store.getElem?_set_of_empty hempty, if_pos rfl]

/-- What has been decided about a promise stays so. -/
theorem Client.ready_of_run {lib : JsonLibrary} {events : List ClientEvent} {c c' : Client}
    (hrun : Run (step lib) AnyStep c events c') {k : ℕ} {reply : Reply}
    (hk : c.peer.states[k]? = some (.ready reply)) :
    c'.peer.states[k]? = some (.ready reply) :=
  hrun.invariant hk fun h _ hstep => (steps_of_step hstep).ready h

/-- A timer that finds an entry for its request gives the promise an exception. -/
theorem Client.ready_of_timer {lib : JsonLibrary} {c c' : Client} {id : ℤ} {k : ℕ}
    (htask : c.peer.transport.task = some id) (hlookup : c.peer.promises.lookup id = some k)
    (hstep : step lib c .timer = some c') :
    c'.peer.states[k]? = some (.ready (.error (.runtimeError "request timeout"))) := by
  cases steps_of_step hstep with
  | timerIgnored _ _ _ hnone => exact absurd (hlookup.symm.trans (hnone id htask)) (by simp)
  | timeout id' promise _ _ _ htask' hlookup' hempty =>
      obtain rfl := Option.some.inj (htask'.symm.trans htask)
      obtain rfl := Option.some.inj (hlookup'.symm.trans hlookup)
      rw [Store.getElem?_set_of_empty hempty, if_pos rfl]

/-! ## Every operation and every answer -/

/-- Operations come out as the server has answered their requests, fail when it has not
answered in time, and the channel stored over a run is that of the last subscribe that has
succeeded. -/
structure ReflectsAnswers (lib : JsonLibrary) : Prop where
  answered : ∀ {events c c'}, Run (Client.step lib) AnyStep {} events c →
    ∀ {chunk final handled text}, (c.peer.transport.receive chunk final).2 = some text →
      Client.step lib c (.receive chunk final handled) = some c' →
        ∀ {object k}, c.Answers lib text object k →
          ∀ {later c''}, Run (Client.step lib) AnyStep c' later c'' →
            ∃ reply, c''.peer.states[k]? = some (.ready reply) ∧
              ∀ operation timestamp rtm, Rtm.Reflects lib (object.field "ok" = .boolean true)
                operation ⟨reply, timestamp⟩ rtm
  timedOut : ∀ {c c' id k}, c.peer.transport.task = some id →
    c.peer.promises.lookup id = some k → Client.step lib c .timer = some c' →
      ∀ {later c''}, Run (Client.step lib) AnyStep c' later c'' →
        ∃ reply, c''.peer.states[k]? = some (.ready reply) ∧
          ∀ operation timestamp rtm, Rtm.Reflects lib False operation ⟨reply, timestamp⟩ rtm
  channelName : ∀ {appId userId config events rtm},
    Run (Rtm.step lib) AnyStep (Rtm.start appId userId config) events rtm →
      rtm.channelName = (Rtm.lastSubscribed rtm.performed).getD ""

theorem reflects_replyOf {lib : JsonLibrary} (hlib : lib.ChecksUtf8) {object : Json}
    (hobject : object.isUtf8 = true) (operation : Operation) (timestamp : ℤ) (rtm : Rtm) :
    Rtm.Reflects lib (object.field "ok" = .boolean true) operation
      ⟨Peer.replyOf object, timestamp⟩ rtm := by
  unfold Peer.replyOf
  by_cases hok : object.field "ok" = .boolean true
  · rw [if_pos hok, eq_true hok]
    exact Rtm.reflects_ok ((hlib.dump _).mpr (Json.isUtf8_field hobject "data")) timestamp
      operation rtm
  · rw [if_neg hok, eq_false hok]
    exact Rtm.reflects_error _ timestamp operation rtm

theorem reflectsAnswers {lib : JsonLibrary} (hlib : lib.ChecksUtf8) : ReflectsAnswers lib where
  answered hrun _ _ _ _ htext hstep object _ hanswers _ _ hlater :=
    ⟨Peer.replyOf object,
      Client.ready_of_run hlater (Client.ready_of_answers hrun htext hstep hanswers),
      reflects_replyOf hlib (hlib.parse hanswers.parse)⟩
  timedOut htask hlookup hstep _ _ hlater :=
    ⟨_, Client.ready_of_run hlater (Client.ready_of_timer htask hlookup hstep),
      fun operation timestamp rtm => Rtm.reflects_error _ timestamp operation rtm⟩
  channelName hrun := Rtm.keepsLastSubscribed_of_run hrun

/-- The answer that accepts the request numbered 1. -/
def acceptance : Json := (Message.Decoded.success 1 .null).toJson

def acceptanceText : String :=
  "\x7b\"data\":null,\"id\":1,\"ok\":true,\"response\":true\x7d"

def acceptanceTable : TextTable where
  entries := [(acceptance, acceptanceText)]
  nodup := by decide
  isUtf8 := by decide
  isJson := by decide

/-- A request on an established connection. -/
def requestRun : List ClientEvent :=
  [.service (.start true), .service (.connect .handle), .service .established,
    .register (.ofNat 1) "login" .null]

theorem reflectsAnswers_login :
    ∃ c reply, Run (Client.step (.ofTexts acceptanceTable)) AnyStep {} requestRun c ∧
      (c.receive (.ofTexts acceptanceTable) acceptanceText true (.ok ())).peer.states[0]? =
        some (.ready reply) ∧
      ∀ timestamp rtm, ∃ response,
        (Rtm.operationInternal (.ofTexts acceptanceTable) .login ⟨reply, timestamp⟩ rtm).1 =
          .ok response := by
  have hlib := JsonLibrary.checksUtf8_ofTexts acceptanceTable
  have hrun : requestRun.foldlM (Client.step (.ofTexts acceptanceTable)) ({} : Client) = some _ :=
    rfl
  have hdump : (JsonLibrary.ofTexts acceptanceTable).dump acceptance = .ok acceptanceText := rfl
  have hparse := (JsonLibrary.ofTexts acceptanceTable).parse_dump hdump
  obtain ⟨reply, hready, hreflects⟩ := @ReflectsAnswers.answered _ (reflectsAnswers hlib) _ _ _
    (run_of_foldlM hrun) acceptanceText true (.ok ()) acceptanceText rfl rfl acceptance 0
    ⟨hparse, rfl, _, 1, rfl, rfl, rfl⟩ [] _ .nil
  exact ⟨_, reply, run_of_foldlM hrun, hready, fun timestamp rtm =>
    (hreflects .login timestamp rtm).value.mpr rfl⟩

end Protoo
