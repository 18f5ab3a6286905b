import Protoo.Peer.Specification
import Protoo.Rtm.Core
import Protoo.Texts
import Protoo.Transport.Outgoing

/-!
# Strings of the application on the service thread

The strings given to `publish`, `request` and `notify` are wrapped in a message at once
and serialized later, in a task of the service thread that has no handler.  `dump`
throws for a string that is not valid UTF-8, the exception leaves the thread's function,
and nothing reports it to the caller.  So a call is sent exactly when its strings are
valid.
-/

namespace Protoo

open Protoo.Support

/-- A call by which the application hands strings to the client. -/
inductive ApplicationCall where
  | publish (channelName message : String)
  | request (method : String) (data : Json)
  | notify (method : String) (data : Json)

namespace ApplicationCall

/-- The strings of the call are valid UTF-8. -/
def isUtf8 : ApplicationCall → Bool
  | .publish channelName message => Protoo.isUtf8 channelName && Protoo.isUtf8 message
  | .request method data => Protoo.isUtf8 method && data.isUtf8
  | .notify method data => Protoo.isUtf8 method && data.isUtf8

/-- What the peer does; `draw` numbers a request. -/
def perform (draw : Draw) (p : Peer) : ApplicationCall → Except Exception Peer
  | .publish channelName message =>
      .ok (p.notify "channelMsgText" (Rtm.publishData channelName message))
  | .request method data => (p.request draw method data).map Prod.snd
  | .notify method data => .ok (p.notify method data)

/-- The message given to `send`. -/
def message (draw : Draw) : ApplicationCall → Json
  | .publish channelName message =>
      Message.createNotification "channelMsgText" (Rtm.publishData channelName message)
  | .request method data => Message.createRequest draw.number method data
  | .notify method data => Message.createNotification method data

/-- The call returns, and its message is posted last. -/
theorem exists_perform (draw : Draw) (p : Peer) (call : ApplicationCall) :
    ∃ p' timeouts, call.perform draw p = .ok p' ∧
      p'.transport.tasks = p.transport.tasks ++ timeouts ++ [.send (call.message draw)] := by
  cases call with
  | publish channelName message =>
      exact ⟨_, [], rfl, congrArg (· ++ _) (List.append_nil _).symm⟩
  | notify method data => exact ⟨_, [], rfl, congrArg (· ++ _) (List.append_nil _).symm⟩
  | request method data =>
      have hrequest : (p.registered draw method data).request =
          Message.createRequest draw.number method data := by
        rw [Peer.registered, Message.createRequest_eq]
        rfl
      rw [perform, Peer.request, Peer.register_eq]
      refine ⟨_, [.schedule (p.registered draw method data).timeoutMs draw.number], rfl, ?_⟩
      simp only [Peer.postSend, Peer.postTimeout, WebSocketTransport.send,
        WebSocketTransport.scheduleTask, WebSocketTransport.invokeTask, Peer.release_transport,
        hrequest]
      rfl

/-- The message has no strings but those of the call and the field names. -/
theorem isUtf8_message (draw : Draw) (call : ApplicationCall) :
    (call.message draw).isUtf8 = call.isUtf8 := by
  have hkeys : ∀ key ∈ ["request", "id", "method", "data", "notification", "channelId", "msg",
      "channelMsgText"], Protoo.isUtf8 key = true := by decide
  simp only [List.mem_cons, List.not_mem_nil, or_false, forall_eq_or_imp, forall_eq] at hkeys
  rw [Bool.eq_iff_iff]
  cases call with
  | publish channelName text =>
      rw [ApplicationCall.message, Message.createNotification_eq]
      simp +decide [Json.isUtf8, Json.isUtf8Members, isUtf8, Rtm.publishData, Json.ofInitializers,
        Json.emplaceMember, Json.assignMember, hkeys]
  | request method data =>
      rw [message, Message.createRequest_eq]
      simp [Message.Decoded.toJson, Json.isUtf8, Json.isUtf8Members, isUtf8, hkeys, and_comm]
  | notify method data =>
      rw [message, Message.createNotification_eq]
      simp [Json.isUtf8, Json.isUtf8Members, isUtf8, hkeys, and_comm]

end ApplicationCall

namespace Service

/-- Whenever its send is the next task, the service thread executes it: a text is queued,
and the thread goes on with the tasks behind it and with its timer. -/
def SendsAlways (lib : JsonLibrary) (message : Json) : Prop :=
  ∀ {events : List (ServiceEvent ℤ)} {s : Service ℤ} {rest : List (Task ℤ)},
    Run (step lib) AnyStep {} events s → s.phase = .draining →
      s.transport.tasks = .send message :: rest →
        ∃ text t, step lib s .runTask = some t ∧
          t.transport.msgQueue = s.transport.msgQueue ++ [text] ∧ t.phase = .draining ∧
          t.transport.tasks = rest ∧ t.transport.task = s.transport.task ∧
          t.transport.sul = s.transport.sul

variable {lib : JsonLibrary}

theorem runTask_of_dump {τ : Type} {s : Service τ} {message : Json} {rest : List (Task τ)}
    {text : String} (hphase : s.phase = .draining)
    (htasks : s.transport.tasks = .send message :: rest) (hdump : lib.dump message = .ok text) :
    step lib s .runTask = some (s.setTransport { s.transport with
      tasks := rest
      msgQueue := s.transport.msgQueue ++ [text]
      noMsg := false
      lws := s.transport.connectionInfo.wsi.elim s.transport.lws
        s.transport.lws.callbackOnWritable }) := by
  cases hwsi : s.transport.connectionInfo.wsi <;>
    simp [step, hphase, htasks, WebSocketTransport.runTask, WebSocketTransport.runSend, hdump, hwsi]

theorem sendsAlways_iff_dump {message : Json} :
    SendsAlways lib message ↔ ∃ text, lib.dump message = .ok text := by
  constructor
  · intro h
    have hrun : [.start true, .invoke (.send message), .serviceReturn 0].foldlM
        (step lib) ({} : Service ℤ) = some _ := rfl
    obtain ⟨-, t, hstep, -⟩ := h (run_of_foldlM hrun) rfl rfl
    cases steps_of_step hstep with
    | runTask task rest t hphase htasks hrun =>
        obtain ⟨rfl, rfl⟩ := List.cons.inj htasks
        obtain ⟨text, hdump, -⟩ := exists_of_bind_eq_ok hrun
        exact ⟨text, hdump⟩
  · rintro ⟨text, hdump⟩ events s rest - hphase htasks
    exact ⟨text, _, runTask_of_dump hphase htasks hdump, rfl, hphase, rfl, rfl, rfl⟩

/-- When everything given to `send` can be dumped, no task stops the service thread. -/
theorem exists_runTask_of_run {τ : Type} {events : List (ServiceEvent τ)} {s : Service τ}
    (hrun : Run (step lib) AnyStep {} events s)
    (hsent : ∀ message ∈ sentMessages events, ∃ text, lib.dump message = .ok text)
    (hphase : s.phase = .draining) {task : Task τ} {rest : List (Task τ)}
    (htasks : s.transport.tasks = task :: rest) : ∃ t, step lib s .runTask = some t := by
  cases task with
  | send message =>
      have hposted : lib.dump message ∈ s.posted.map lib.dump := by
        rw [posted, htasks]
        exact List.mem_cons_self
      have hmem : lib.dump message ∈ (sentMessages events).map lib.dump :=
        map_texts_append_posted hrun ▸ List.mem_append_right _ hposted
      obtain ⟨message', hmem', hsame⟩ := List.mem_map.mp hmem
      obtain ⟨text, htext⟩ := hsent message' hmem'
      exact ⟨_, runTask_of_dump hphase htasks (hsame.symm.trans htext)⟩
  | schedule | cancel => exact ⟨_, by rw [step, hphase, htasks]; rfl⟩

/-- The service thread gets past a call of the application exactly when the call's strings
are valid. -/
theorem sendsAlways_iff (hlib : lib.ChecksUtf8) (draw : Draw) (call : ApplicationCall) :
    SendsAlways lib (call.message draw) ↔ call.isUtf8 = true := by
  rw [sendsAlways_iff_dump, hlib.dump, call.isUtf8_message]

def noEntries : TextTable where
  entries := []
  nodup := List.nodup_nil
  isUtf8 := by simp
  isJson := by simp

theorem sendsAlways_iff_hello :
    SendsAlways (.ofTexts noEntries)
      ((ApplicationCall.publish "room" "hello").message (.ofNat 1)) :=
  (sendsAlways_iff (JsonLibrary.checksUtf8_ofTexts noEntries) (.ofNat 1)
    (.publish "room" "hello")).mpr (by decide)

/-- One byte that begins no character. -/
theorem invalid_byte_stops_service :
    ¬ SendsAlways (.ofTexts noEntries)
      ((ApplicationCall.publish "room" "\xff").message (.ofNat 1)) := by
  rw [sendsAlways_iff_dump, (JsonLibrary.checksUtf8_ofTexts noEntries).dump,
    ApplicationCall.isUtf8_message]
  decide

end Service

end Protoo
