import Protoo.Peer.Specification
import Protoo.Transport.Service

/-!
# The peer with its threads

`Client` is a peer whose transport is served by the service thread while other
threads call `request` and `notify`.  A call of `request` is three steps, the
entry of its promise, the posting of its timeout and the posting of its message;
`handleResponse` is three steps of the service thread, and the closure of a timeout
two; between any two of these any other thread may act.

The steps of the service thread that call no function of the peer are those of
`Service`.  The service thread takes them only while it is not inside
`handleResponse` or the closure of a timeout.
-/

namespace Protoo

open Protoo.Support

/-- A call of `request` that has entered its promise and has not returned. -/
structure CallInProgress where
  call : RequestCall
  timeoutPosted : Bool := false

/-- Where the service thread is in `handleResponse` or in the closure of a timeout, with
the id of the entry it found: the promise completed by `handleResponse`, the cancel posted
as well, or the promise completed by the closure. -/
inductive Handler where
  | idle
  | completed (id : ℤ)
  | cancelled (id : ℤ)
  | timedOut (id : ℤ)
  deriving DecidableEq

structure Client where
  peer : Peer := {}
  phase : Phase := .starting
  written : List String := []
  calls : List ListenerCall := []
  requests : List CallInProgress := []
  handler : Handler := .idle

namespace Service

/-- What only posted closures, timers and received chunks change. -/
structure Keeps {τ : Type} (s t : Service τ) : Prop where
  tasks : t.transport.tasks = s.transport.tasks
  task : t.transport.task = s.transport.task
  sul : t.transport.sul = s.transport.sul
  receivedMsg : t.transport.receivedMsg = s.transport.receivedMsg

theorem Steps.keeps {τ : Type} {lib : JsonLibrary} {s t : Service τ} {e : ServiceEvent τ}
    (h : Steps lib s e t) (hown : e.isOwn = true) (hrun : e ≠ .runTask) : Keeps s t := by
  cases h with
  | invoke | destroy | receive | timer => simp [ServiceEvent.isOwn] at hown
  | runTask => exact absurd rfl hrun
  | start created hphase =>
      obtain ⟨hasContext, lws, connectionInfo, phase, heq⟩ := s.start_frame created
      rw [heq]
      exact ⟨rfl, rfl, rfl, rfl⟩
  | connect outcome =>
      obtain ⟨lws, connectionInfo, calls, heq⟩ := s.connectClient_frame outcome
      rw [heq]
      exact ⟨rfl, rfl, rfl, rfl⟩
  | writeable =>
      obtain ⟨lws, noMsg, msgQueue, written, heq⟩ := s.writeable_frame
      rw [heq]
      exact ⟨rfl, rfl, rfl, rfl⟩
  | loop =>
      obtain ⟨lws, phase, heq⟩ := s.loopTest_frame
      rw [heq]
      exact ⟨rfl, rfl, rfl, rfl⟩
  | _ => exact ⟨rfl, rfl, rfl, rfl⟩

/-- Nor does a posted closure change the receive buffer. -/
theorem Steps.receivedMsg {τ : Type} {lib : JsonLibrary} {s t : Service τ}
    {e : ServiceEvent τ} (h : Steps lib s e t) (hown : e.isOwn = true) :
    t.transport.receivedMsg = s.transport.receivedMsg := by
  by_cases hrunTask : e = .runTask
  · subst hrunTask
    cases h with
    | runTask task rest t' hphase htasks hrun =>
        rcases WebSocketTransport.runTask_eq_ok hrun with
          ⟨message, msg, -, -, rfl⟩ | ⟨-, closure, sul, rfl⟩
        · rfl
        · rfl
  · exact (h.keeps hown hrunTask).receivedMsg

/-- It runs at most the closure posted first, and posts none. -/
theorem Steps.tasks_suffix {τ : Type} {lib : JsonLibrary} {s t : Service τ}
    {e : ServiceEvent τ} (h : Steps lib s e t) (hown : e.isOwn = true) :
    t.transport.tasks <:+ s.transport.tasks := by
  by_cases hrunTask : e = .runTask
  · subst hrunTask
    cases h with
    | runTask task rest t' hphase htasks hrun =>
        rw [htasks]
        rcases WebSocketTransport.runTask_eq_ok hrun with
          ⟨message, msg, -, -, rfl⟩ | ⟨-, closure, sul, rfl⟩
        · exact List.suffix_cons task rest
        · exact List.suffix_cons task rest
  · rw [(h.keeps hown hrunTask).tasks]

end Service

/-- `handled` is what the callback for a request or a notification of the server
does; `accept` and `reject` are the two callbacks handed to it. -/
inductive ClientEvent where
  | register (draw : Draw) (method : String) (data : Json)
  | postTimeout (i : ℕ)
  | postSend (i : ℕ)
  | notify (method : String) (data : Json)
  | accept (request : Json) (data : String)
  | reject (request : Json) (errorCode : ℤ) (errorReason : String)
  | receive (chunk : String) (final : Bool) (handled : Except Exception Unit)
  | postCancel
  | erase
  | timer
  | destroy
  | service (e : ServiceEvent ℤ)

/-- `request` returns and gives up its promise; no other call in progress
(`held`) has it, so it is destroyed unless its entry holds it. -/
def Peer.returnRequest (held : List ℕ) (call : RequestCall) (p : Peer) : Peer :=
  if p.promises.lookup call.id = some call.promise then p
  else p.release held (some call.promise)

theorem Peer.promises_returnRequest (held : List ℕ) (call : RequestCall) (p : Peer) :
    (p.returnRequest held call).promises = p.promises := by
  unfold returnRequest
  split
  · rfl
  · exact release_promises _ _ _

theorem Peer.transport_returnRequest (held : List ℕ) (call : RequestCall) (p : Peer) :
    (p.returnRequest held call).transport = p.transport := by
  unfold returnRequest
  split
  · rfl
  · exact release_transport _ _ _

namespace Client

def setTransport (t : WebSocketTransport ℤ) (c : Client) : Client :=
  { c with peer := { c.peer with transport := t } }

/-- The part of the client that the service thread's own steps work on. -/
def service (c : Client) : Service ℤ where
  transport := c.peer.transport
  phase := c.phase
  written := c.written
  calls := c.calls

def setService (s : Service ℤ) (c : Client) : Client :=
  { c with
    peer := { c.peer with transport := s.transport }
    phase := s.phase
    written := s.written
    calls := s.calls }

/-- The promises that calls of `request` in progress hold. -/
def held (c : Client) : List ℕ := c.requests.map fun r => r.call.promise

/-- `CLIENT_RECEIVE` with the peer as the listener, up to the completion of a
promise. -/
def receive (lib : JsonLibrary) (chunk : String) (final : Bool)
    (handled : Except Exception Unit) (c : Client) : Client :=
  match c.peer.transport.receive chunk final with
  | (t, none) => c.setTransport t
  | (t, some text) =>
      match Message.parse lib text with
      | .error _ => c.setTransport t
      | .ok message =>
          let c := { c.setTransport t with calls := c.calls ++ [.onMessage message] }
          match Peer.onMessage message with
          | .error _ => c
          | .ok (.response response) =>
              match c.peer.completeResponse response with
              | .error _ => c
              | .ok (none, _) => c.setTransport t.clearReceived
              | .ok (some id, peer) => { c with peer, handler := .completed id }
          | .ok .invalid => c.setTransport t.clearReceived
          | .ok _ =>
              match handled with
              | .error _ => c
              | .ok () => c.setTransport t.clearReceived

/-- The firing of the timer: the callback runs the closure stored last, up to the
completion of a promise. -/
def timer (c : Client) : Except Exception Client :=
  let t := { c.peer.transport with sul := none }
  match t.task with
  | none => .ok (c.setTransport t)
  | some id =>
      match (c.setTransport t).peer.completeTimeout id with
      | .ok (none, peer) => .ok { c with peer }
      | .ok (some id, peer) => .ok { c with peer, handler := .timedOut id }
      | .error error => .error error

/-- One event; `none` when it is not possible in the state. -/
def step (lib : JsonLibrary) (c : Client) : ClientEvent → Option Client
  | .register draw method data =>
      match c.peer.register c.held draw method data with
      | .ok (call, peer) => some { c with peer, requests := c.requests ++ [{ call }] }
      | .error _ => none
  | .postTimeout i =>
      match c.requests[i]? with
      | some ⟨call, false⟩ => some { c with
          peer := c.peer.postTimeout call
          requests := c.requests.set i ⟨call, true⟩ }
      | _ => none
  | .postSend i =>
      match c.requests[i]? with
      | some ⟨call, true⟩ =>
          let c := { c with peer := c.peer.postSend call, requests := c.requests.eraseIdx i }
          some { c with peer := c.peer.returnRequest c.held call }
      | _ => none
  | .notify method data => some { c with peer := c.peer.notify method data }
  | .accept request data =>
      match Message.createSuccessResponse request (.string data) with
      | .ok response => some (c.setTransport (c.peer.transport.send response))
      | .error _ => none
  | .reject request errorCode errorReason =>
      match Message.createErrorResponse request errorCode errorReason with
      | .ok response => some (c.setTransport (c.peer.transport.send response))
      | .error _ => none
  | .receive chunk final handled =>
      match c.handler, c.phase, c.peer.transport.lws.connection with
      | .idle, .inService, .established _ => some (c.receive lib chunk final handled)
      | _, _, _ => none
  | .postCancel =>
      match c.handler with
      | .completed id => some { c with peer := c.peer.postCancel, handler := .cancelled id }
      | _ => none
  | .erase =>
      match c.handler with
      | .cancelled id =>
          let c := { c with peer := c.peer.eraseEntry c.held id, handler := .idle }
          some (c.setTransport c.peer.transport.clearReceived)
      | .timedOut id => some { c with peer := c.peer.eraseEntry c.held id, handler := .idle }
      | _ => none
  | .timer =>
      if c.handler = .idle ∧ c.phase = .inService ∧ c.peer.transport.sul.isSome then
        c.timer.toOption
      else none
  | .destroy => some (c.setTransport c.peer.transport.setClosed)
  | .service e =>
      if c.handler = .idle ∧ e.isOwn then
        (Service.step lib c.service e).map fun s => c.setService s
      else none

/-! ## What a step can do -/

/-- What receiving a chunk does: it changes the buffer and the record of calls,
or it also completes the promise entered under the id of a response. -/
inductive Received (lib : JsonLibrary) (c : Client) (chunk : String) : Client → Prop where
  | buffered (receivedMsg : String) (calls : List ListenerCall) :
      Received lib c chunk
        { c.setTransport { c.peer.transport with receivedMsg } with calls }
  | completed (message : Json) (id : ℤ) (promise : ℕ) (calls : List ListenerCall)
      (hparse : Message.parse lib (c.peer.transport.receivedMsg ++ chunk) = .ok message)
      (hresponse : (message.field "response").isBoolean = true)
      (hid : message.field "id" = .integer id)
      (hlookup : c.peer.promises.lookup id = some promise)
      (hempty : c.peer.states[promise]? = some .empty) :
      Received lib c chunk
        { c with
          peer := { c.peer with
            states := c.peer.states.set promise (.ready (Peer.replyOf message))
            transport := { c.peer.transport with
              receivedMsg := c.peer.transport.receivedMsg ++ chunk } }
          calls
          handler := .completed id }

theorem received_receive (lib : JsonLibrary) (chunk : String) (final : Bool)
    (handled : Except Exception Unit) (c : Client) :
    Received lib c chunk (c.receive lib chunk final handled) := by
  by_cases hdispatched : 0 < chunk.length ∧ final = true
  · obtain ⟨hchunk, rfl⟩ := hdispatched
    cases hparse : Message.parse lib (c.peer.transport.receivedMsg ++ chunk) with
    | error error =>
        simp only [receive, WebSocketTransport.receive, hchunk, if_true, hparse]
        exact .buffered _ _
    | ok message =>
        simp only [receive, WebSocketTransport.receive, hchunk, if_true, hparse]
        cases hdispatch : Peer.onMessage message with
        | error error => exact .buffered _ _
        | ok dispatch =>
            cases dispatch with
            | invalid => exact .buffered _ _
            | request _ => cases handled <;> exact .buffered _ _
            | notification _ => cases handled <;> exact .buffered _ _
            | response response =>
                obtain ⟨object, -, hdecode⟩ := exists_of_bind_eq_ok hparse
                obtain ⟨hresponse, id, hid, hread, hreply⟩ :=
                  Peer.response_of_dispatch hdecode hdispatch
                simp only [Peer.completeResponse_eq hread, setTransport]
                cases hlookup : c.peer.promises.lookup id with
                | none => exact .buffered _ _
                | some promise =>
                    simp only [hreply]
                    cases hsatisfy : Store.satisfy promise (Peer.replyOf message)
                        c.peer.states with
                    | none => exact .buffered _ _
                    | some states =>
                        obtain ⟨hempty, rfl⟩ := Store.satisfy_eq_some_iff.mp hsatisfy
                        exact .completed message id promise _ hparse hresponse hid hlookup
                          hempty
  · have hnone : ∃ receivedMsg, c.peer.transport.receive chunk final =
        ({ c.peer.transport with receivedMsg }, none) := by
      unfold WebSocketTransport.receive
      by_cases hchunk : 0 < chunk.length
      · have hfinal : final = false := by
          apply Bool.eq_false_of_not_eq_true
          exact fun h => hdispatched ⟨hchunk, h⟩
        exact ⟨c.peer.transport.receivedMsg ++ chunk, by simp [hchunk, hfinal]⟩
      · exact ⟨c.peer.transport.receivedMsg, by simp [hchunk]⟩
    obtain ⟨receivedMsg, hreceive⟩ := hnone
    simp only [receive, hreceive]
    exact .buffered receivedMsg c.calls

inductive Steps (lib : JsonLibrary) (c : Client) : ClientEvent → Client → Prop where
  | register (draw : Draw) (method : String) (data : Json) :
      Steps lib c (.register draw method data)
        { c with
          peer := (c.peer.enter draw.number).release c.held (c.peer.promises.lookup draw.number)
          requests := c.requests ++ [{ call := c.peer.registered draw method data }] }
  | postTimeout (i : ℕ) (call : RequestCall) (hcall : c.requests[i]? = some ⟨call, false⟩) :
      Steps lib c (.postTimeout i)
        { c with
          peer := c.peer.postTimeout call
          requests := c.requests.set i ⟨call, true⟩ }
  | postSend (i : ℕ) (call : RequestCall) (hcall : c.requests[i]? = some ⟨call, true⟩) :
      Steps lib c (.postSend i)
        { c with
          peer := (c.peer.postSend call).returnRequest
            ((c.requests.eraseIdx i).map fun r => r.call.promise) call
          requests := c.requests.eraseIdx i }
  | notify (method : String) (data : Json) :
      Steps lib c (.notify method data) { c with peer := c.peer.notify method data }
  | accept (request : Json) (data : String) (response : Json)
      (hresponse : Message.createSuccessResponse request (.string data) = .ok response) :
      Steps lib c (.accept request data) (c.setTransport (c.peer.transport.send response))
  | reject (request : Json) (errorCode : ℤ) (errorReason : String) (response : Json)
      (hresponse : Message.createErrorResponse request errorCode errorReason = .ok response) :
      Steps lib c (.reject request errorCode errorReason)
        (c.setTransport (c.peer.transport.send response))
  | receive (chunk : String) (final : Bool) (handled : Except Exception Unit) (c' : Client)
      (hidle : c.handler = .idle) (hphase : c.phase = .inService)
      (hreceived : Received lib c chunk c') :
      Steps lib c (.receive chunk final handled) c'
  | postCancel (id : ℤ) (hhandler : c.handler = .completed id) :
      Steps lib c .postCancel { c with peer := c.peer.postCancel, handler := .cancelled id }
  | erase (id : ℤ) (hhandler : c.handler = .cancelled id) :
      Steps lib c .erase
        (({ c with peer := c.peer.eraseEntry c.held id, handler := .idle } : Client).setTransport
          c.peer.transport.clearReceived)
  | eraseTimedOut (id : ℤ) (hhandler : c.handler = .timedOut id) :
      Steps lib c .erase { c with peer := c.peer.eraseEntry c.held id, handler := .idle }
  | timerIgnored (hidle : c.handler = .idle) (hphase : c.phase = .inService)
      (hsul : c.peer.transport.sul.isSome = true)
      (hlookup : ∀ id, c.peer.transport.task = some id → c.peer.promises.lookup id = none) :
      Steps lib c .timer (c.setTransport { c.peer.transport with sul := none })
  | timeout (id : ℤ) (promise : ℕ) (hidle : c.handler = .idle) (hphase : c.phase = .inService)
      (hsul : c.peer.transport.sul.isSome = true) (htask : c.peer.transport.task = some id)
      (hlookup : c.peer.promises.lookup id = some promise)
      (hempty : c.peer.states[promise]? = some .empty) :
      Steps lib c .timer
        { c with
          peer := { c.peer with
            transport := { c.peer.transport with sul := none }
            states := c.peer.states.set promise
              (.ready (.error (.runtimeError "request timeout"))) }
          handler := .timedOut id }
  | destroy : Steps lib c .destroy (c.setTransport c.peer.transport.setClosed)
  | service (e : ServiceEvent ℤ) (s : Service ℤ) (hidle : c.handler = .idle)
      (hown : e.isOwn = true) (hstep : Service.Steps lib c.service e s) :
      Steps lib c (.service e) (c.setService s)

/-- The inversion lemma of `step`. -/
theorem steps_of_step {lib : JsonLibrary} {c c' : Client} {e : ClientEvent}
    (h : step lib c e = some c') : Steps lib c e c' := by
  cases e with
  | register draw method data =>
      simp only [step, Peer.register_eq, Option.some.injEq] at h
      exact h ▸ .register draw method data
  | postTimeout i =>
      simp only [step] at h
      split at h
      next call hcall => exact Option.some.inj h ▸ .postTimeout i call hcall
      next => simp at h
  | postSend i =>
      simp only [step] at h
      split at h
      next call hcall => exact Option.some.inj h ▸ .postSend i call hcall
      next => simp at h
  | notify method data => exact Option.some.inj h ▸ .notify method data
  | accept request data =>
      simp only [step] at h
      split at h
      next response hresponse => exact Option.some.inj h ▸ .accept request data response hresponse
      next => simp at h
  | reject request errorCode errorReason =>
      simp only [step] at h
      split at h
      next response hresponse =>
        exact Option.some.inj h ▸ .reject request errorCode errorReason response hresponse
      next => simp at h
  | receive chunk final handled =>
      simp only [step] at h
      split at h
      next hidle hphase _ =>
        exact .receive chunk final handled c' hidle hphase
          (Option.some.inj h ▸ received_receive lib chunk final handled c)
      next => simp at h
  | postCancel =>
      simp only [step] at h
      split at h
      next id hhandler => exact Option.some.inj h ▸ .postCancel id hhandler
      next => simp at h
  | erase =>
      simp only [step] at h
      split at h
      next id hhandler =>
        obtain rfl := Option.some.inj h
        rw [Peer.transport_eraseEntry]
        exact .erase id hhandler
      next id hhandler => exact Option.some.inj h ▸ .eraseTimedOut id hhandler
      next => simp at h
  | timer =>
      simp only [step, Option.ite_none_right_eq_some] at h
      obtain ⟨⟨hidle, hphase, hsul⟩, h⟩ := h
      unfold timer at h
      dsimp only at h
      split at h
      next htask =>
        obtain rfl := Option.some.inj h
        refine .timerIgnored hidle hphase hsul ?_
        intro id hid
        exact absurd (htask.symm.trans hid) (by simp)
      next id htask =>
        split at h
        next peer htimeout =>
          obtain rfl := Option.some.inj h
          rcases Peer.completeTimeout_eq_ok htimeout with ⟨hlookup, heq⟩ | ⟨_, _, _, heq⟩
          · obtain rfl := (Prod.mk.inj heq).2
            refine .timerIgnored hidle hphase hsul ?_
            intro id' hid'
            obtain rfl := Option.some.inj (htask.symm.trans hid')
            exact hlookup
          · exact absurd (Prod.mk.inj heq).1.symm (Option.some_ne_none _)
        next id' peer htimeout =>
          obtain rfl := Option.some.inj h
          rcases Peer.completeTimeout_eq_ok htimeout with
            ⟨-, heq⟩ | ⟨promise, hlookup, hempty, heq⟩
          · exact absurd (Prod.mk.inj heq).1 (Option.some_ne_none _)
          · obtain ⟨hid, rfl⟩ := Prod.mk.inj heq
            obtain rfl := Option.some.inj hid
            exact .timeout id' promise hidle hphase hsul htask hlookup hempty
        next => exact absurd h (by simp [Except.toOption])
  | destroy => exact Option.some.inj h ▸ .destroy
  | service e =>
      simp only [step, Option.ite_none_right_eq_some, Option.map_eq_some_iff] at h
      obtain ⟨⟨hidle, hown⟩, s, hstep, rfl⟩ := h
      exact .service e s hidle hown (Service.steps_of_step hstep)

end Client

end Protoo
