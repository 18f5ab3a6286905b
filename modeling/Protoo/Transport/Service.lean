import Protoo.Transport.Core
import Protoo.Support.Run

/-!
# The service thread as a transition system

`Service` is a transport together with the position of its service thread and
two records that only grow: the texts handed to `lws_write` and the calls made
on the listener.  Other threads act on it through `invoke` and through
`destroy`, the first statement of the destructor; every other event is a step of
the service thread.

One event is one callback, one posted closure, or one test of the loop, since
these run without interruption on one thread.  Within `lws_service` the library
may deliver any callback its assumed rules allow:

* a scheduled `sul` fires once, and scheduling it again replaces it;
* `CLIENT_WRITEABLE` answers the one-shot request of an established connection
  and clears it, and a connection is established without a request;
* `CLIENT_CLOSED` follows `CLIENT_ESTABLISHED`, `CONNECTION_ERROR` ends an
  attempt, and a failed `lws_client_connect_via_info` may deliver it at once.

A step that ends the process by an escaping exception has no successor.
-/

namespace Protoo

open Protoo.Support

/-- Where the service thread is: before the context exists, inside
`lws_service`, in the loop over `tasks`, past the loop, or stopped because no
context could be created. -/
inductive Phase where
  | starting
  | inService
  | draining
  | exited
  | initFailed
  deriving Repr, DecidableEq

structure Service (τ : Type) where
  transport : WebSocketTransport τ := {}
  phase : Phase := .starting
  written : List String := []
  calls : List ListenerCall := []

/-- What `lws_client_connect_via_info` returns; a null result may have delivered
`CONNECTION_ERROR` before. -/
inductive ConnectOutcome where
  | handle
  | null (errorDelivered : Bool)
  deriving Repr, DecidableEq

/-- `handled` is what the listener's `onMessage` does with a dispatched
message. -/
inductive ServiceEvent (τ : Type) where
  | invoke (task : Task τ)
  | destroy
  | start (created : Bool)
  | connect (outcome : ConnectOutcome)
  | established
  | receive (chunk : String) (final : Bool) (handled : Except Exception Unit)
  | writeable
  | peerInitiatedClose
  | closed
  | connectionError
  | timer
  | serviceReturn (ret : ℤ)
  | runTask
  | loop

/-- A step of the service thread that calls no function of the peer. -/
def ServiceEvent.isOwn {τ : Type} : ServiceEvent τ → Bool
  | .invoke _ => false
  | .destroy => false
  | .receive _ _ _ => false
  | .timer => false
  | _ => true

namespace Service

variable {τ : Type}

def setTransport (s : Service τ) (t : WebSocketTransport τ) : Service τ :=
  { s with transport := t }

def setLws (s : Service τ) (lws : LwsContext) : Service τ :=
  s.setTransport { s.transport with lws := lws }

def call (s : Service τ) (c : ListenerCall) : Service τ :=
  { s with calls := s.calls ++ [c] }

/-- The test of the loop condition; leaving the loop destroys the context and
with it the connection. -/
def loopTest (s : Service τ) : Service τ :=
  if s.transport.keepsRunning then
    { s with phase := .inService }
  else
    { s.setLws { s.transport.lws with connection := .none, writableRequested := false } with
      phase := .exited }

/-- `runWebSocket` up to the loop. -/
def start (created : Bool) (s : Service τ) : Service τ :=
  if created then
    let t := { s.transport with
      hasContext := true
      connectionInfo := { s.transport.connectionInfo with sul := true } }
    (s.setTransport t).loopTest
  else
    { s with phase := .initFailed }

/-- `CLIENT_CONNECTION_ERROR`. -/
def connectionError (s : Service τ) : Service τ :=
  let s := s.setLws { s.transport.lws with connection := .none, writableRequested := false }
  let s := s.call .onFailed
  s.setTransport s.transport.doRetry

/-- `CLIENT_CLOSED`. -/
def closed (s : Service τ) : Service τ :=
  let s := s.setLws { s.transport.lws with connection := .none, writableRequested := false }
  let s := s.call .onClosed
  s.setTransport s.transport.doRetry

/-- `connectClient`, called when the connection's `sul` fires. -/
def connectClient (outcome : ConnectOutcome) (s : Service τ) : Service τ :=
  let t := { s.transport with
    connectionInfo := { s.transport.connectionInfo with sul := false } }
  let s := s.setTransport t
  match outcome with
  | .handle =>
      let wsi := t.lws.nextWsi
      s.setTransport { t with
        lws := { connection := .connecting wsi, nextWsi := wsi + 1, writableRequested := false }
        connectionInfo := { t.connectionInfo with wsi := some wsi } }
  | .null errorDelivered =>
      let s := if errorDelivered then s.connectionError else s
      let t := { s.transport with
        connectionInfo := { s.transport.connectionInfo with wsi := none } }
      (s.setTransport t).setTransport t.doRetry

/-- `CLIENT_ESTABLISHED`. -/
def established (wsi : Wsi) (s : Service τ) : Service τ :=
  (s.setLws { s.transport.lws with
    connection := .established wsi, writableRequested := false }).call
      s.transport.establishedCall

/-- `CLIENT_RECEIVE`: an exception of the parser or of the listener skips the
clearing of the buffer. -/
def receive (lib : JsonLibrary) (chunk : String) (final : Bool)
    (handled : Except Exception Unit) (s : Service τ) : Service τ :=
  match s.transport.receive chunk final with
  | (t, none) => s.setTransport t
  | (t, some text) =>
      match Message.parse lib text with
      | .error _ => s.setTransport t
      | .ok message =>
          let s := (s.setTransport t).call (.onMessage message)
          match handled with
          | .error _ => s
          | .ok () => s.setTransport t.clearReceived

/-- `CLIENT_WRITEABLE`. -/
def writeable (s : Service τ) : Service τ :=
  let s := s.setLws { s.transport.lws with writableRequested := false }
  match s.transport.writeable with
  | (t, some msg) => { s.setTransport t with written := s.written ++ [msg] }
  | (t, none) => s.setTransport t

/-- One event; `none` when it is not possible in the state. -/
def step (lib : JsonLibrary) (s : Service τ) : ServiceEvent τ → Option (Service τ)
  | .invoke task => some (s.setTransport (s.transport.invokeTask task))
  | .destroy => some (s.setTransport s.transport.setClosed)
  | .start created =>
      if s.phase = .starting then some (s.start created) else none
  | .connect outcome =>
      if s.phase = .inService ∧ s.transport.connectionInfo.sul = true then
        some (s.connectClient outcome)
      else none
  | .established =>
      match s.phase, s.transport.lws.connection with
      | .inService, .connecting wsi => some (s.established wsi)
      | _, _ => none
  | .receive chunk final handled =>
      match s.phase, s.transport.lws.connection with
      | .inService, .established _ => some (s.receive lib chunk final handled)
      | _, _ => none
  | .writeable =>
      match s.phase, s.transport.lws.connection with
      | .inService, .established _ =>
          if s.transport.lws.writableRequested then some s.writeable else none
      | _, _ => none
  | .peerInitiatedClose =>
      match s.phase, s.transport.lws.connection with
      | .inService, .established _ => some (s.setTransport s.transport.setClosed)
      | _, _ => none
  | .closed =>
      match s.phase, s.transport.lws.connection with
      | .inService, .established _ => some s.closed
      | _, _ => none
  | .connectionError =>
      match s.phase, s.transport.lws.connection with
      | .inService, .connecting _ => some s.connectionError
      | _, _ => none
  | .timer =>
      if s.phase = .inService ∧ s.transport.sul.isSome then
        some (s.setTransport { s.transport with sul := none })
      else none
  | .serviceReturn ret =>
      if s.phase = .inService then
        some { s.setTransport { s.transport with serviceRet := ret } with phase := .draining }
      else none
  | .runTask =>
      match s.phase, s.transport.tasks with
      | .draining, task :: rest =>
          match ({ s.transport with tasks := rest }).runTask lib task with
          | .ok t => some (s.setTransport t)
          | .error _ => none
      | _, _ => none
  | .loop =>
      if s.phase = .draining ∧ s.transport.tasks = [] then some s.loopTest else none

/-- Receiving changes the buffer and the record of listener calls only. -/
theorem receive_frame (lib : JsonLibrary) (chunk : String) (final : Bool)
    (handled : Except Exception Unit) (s : Service τ) :
    ∃ buffer calls, s.receive lib chunk final handled =
      { s with
        transport := { s.transport with receivedMsg := buffer }
        calls := calls } := by
  refine ⟨(s.receive lib chunk final handled).transport.receivedMsg,
    (s.receive lib chunk final handled).calls, ?_⟩
  by_cases hchunk : 0 < chunk.length
  · cases final with
    | false => simp [receive, WebSocketTransport.receive, hchunk, setTransport]
    | true =>
        cases hparse : Message.parse lib (s.transport.receivedMsg ++ chunk) with
        | error error =>
            simp [receive, WebSocketTransport.receive, hchunk, hparse, setTransport]
        | ok message =>
            cases handled <;>
              simp [receive, WebSocketTransport.receive, hchunk, hparse, setTransport, call,
                WebSocketTransport.clearReceived]
  · simp [receive, WebSocketTransport.receive, hchunk, setTransport]

/-- A writable callback changes the request, the queue and the record of texts. -/
theorem writeable_frame (s : Service τ) :
    ∃ lws noMsg msgQueue written, s.writeable =
      { s with
        transport := { s.transport with lws, noMsg, msgQueue }
        written := written } := by
  refine ⟨s.writeable.transport.lws, s.writeable.transport.noMsg,
    s.writeable.transport.msgQueue, s.writeable.written, ?_⟩
  cases hqueue : s.transport.msgQueue <;>
    simp [writeable, WebSocketTransport.writeable, setLws, setTransport, hqueue]

/-- The test of the loop changes the connection and the phase. -/
theorem loopTest_frame (s : Service τ) :
    ∃ lws phase, s.loopTest = { s with transport := { s.transport with lws }, phase } := by
  unfold loopTest
  split
  · exact ⟨_, _, rfl⟩
  · exact ⟨_, _, rfl⟩

theorem phase_loopTest (s : Service τ) :
    s.loopTest.phase = if s.transport.keepsRunning then .inService else .exited := by
  unfold loopTest
  split <;> rfl

theorem phase_loopTest_cases (s : Service τ) :
    s.loopTest.phase = .inService ∨ s.loopTest.phase = .exited := by
  rw [phase_loopTest]
  split
  · exact Or.inl rfl
  · exact Or.inr rfl

theorem keepsRunning_loopTest {s : Service τ} (h : s.transport.keepsRunning = false) :
    s.loopTest.transport.keepsRunning = false := by
  obtain ⟨lws, phase, heq⟩ := s.loopTest_frame
  rw [heq]
  exact h

/-- With the context created the first attempt is scheduled and the loop begins. -/
theorem start_true (s : Service τ) :
    s.start true = loopTest (s.setTransport { s.transport with
      hasContext := true
      connectionInfo := { s.transport.connectionInfo with sul := true } }) :=
  rfl

/-- Then the test of the loop condition changes the connection and the phase. -/
theorem start_true_frame (s : Service τ) :
    ∃ lws phase, s.start true =
      { s with
        transport := { s.transport with
          hasContext := true
          lws
          connectionInfo := { s.transport.connectionInfo with sul := true } }
        phase } := by
  rw [start_true]
  exact loopTest_frame _

/-- Starting the thread creates the context and schedules the first attempt. -/
theorem start_frame (created : Bool) (s : Service τ) :
    ∃ hasContext lws connectionInfo phase, s.start created =
      { s with
        transport := { s.transport with hasContext, lws, connectionInfo }
        phase } := by
  cases created with
  | true =>
      obtain ⟨lws, phase, heq⟩ := s.start_true_frame
      exact ⟨_, lws, _, phase, heq⟩
  | false => exact ⟨_, _, _, .initFailed, rfl⟩

/-- An attempt to connect changes the connection and what is known of it; a failed
one may have been reported. -/
theorem connectClient_frame (outcome : ConnectOutcome) (s : Service τ) :
    ∃ lws connectionInfo calls, s.connectClient outcome =
      { s with
        transport := { s.transport with lws, connectionInfo }
        calls := calls } := by
  cases outcome with
  | handle => exact ⟨_, _, _, rfl⟩
  | null errorDelivered => cases errorDelivered <;> exact ⟨_, _, _, rfl⟩

/-! ## What a step can do

`Steps` lists the steps with their guards and results.  Invariants are proved by
cases on it, so that no later proof unfolds `step`. -/

inductive Steps (lib : JsonLibrary) (s : Service τ) :
    ServiceEvent τ → Service τ → Prop where
  | invoke (task : Task τ) :
      Steps lib s (.invoke task) (s.setTransport (s.transport.invokeTask task))
  | destroy : Steps lib s .destroy (s.setTransport s.transport.setClosed)
  | start (created : Bool) (hphase : s.phase = .starting) :
      Steps lib s (.start created) (s.start created)
  | connect (outcome : ConnectOutcome) (hphase : s.phase = .inService)
      (hsul : s.transport.connectionInfo.sul = true) :
      Steps lib s (.connect outcome) (s.connectClient outcome)
  | established (wsi : Wsi) (hphase : s.phase = .inService)
      (hconn : s.transport.lws.connection = .connecting wsi) :
      Steps lib s .established (s.established wsi)
  | receive (chunk : String) (final : Bool) (handled : Except Exception Unit) (wsi : Wsi)
      (hphase : s.phase = .inService)
      (hconn : s.transport.lws.connection = .established wsi) :
      Steps lib s (.receive chunk final handled) (s.receive lib chunk final handled)
  | writeable (wsi : Wsi) (hphase : s.phase = .inService)
      (hconn : s.transport.lws.connection = .established wsi)
      (hrequested : s.transport.lws.writableRequested = true) :
      Steps lib s .writeable s.writeable
  | peerInitiatedClose (wsi : Wsi) (hphase : s.phase = .inService)
      (hconn : s.transport.lws.connection = .established wsi) :
      Steps lib s .peerInitiatedClose (s.setTransport s.transport.setClosed)
  | closed (wsi : Wsi) (hphase : s.phase = .inService)
      (hconn : s.transport.lws.connection = .established wsi) :
      Steps lib s .closed s.closed
  | connectionError (wsi : Wsi) (hphase : s.phase = .inService)
      (hconn : s.transport.lws.connection = .connecting wsi) :
      Steps lib s .connectionError s.connectionError
  | timer (hphase : s.phase = .inService) (hsul : s.transport.sul.isSome = true) :
      Steps lib s .timer (s.setTransport { s.transport with sul := none })
  | serviceReturn (ret : ℤ) (hphase : s.phase = .inService) :
      Steps lib s (.serviceReturn ret)
        { s.setTransport { s.transport with serviceRet := ret } with phase := .draining }
  | runTask (task : Task τ) (rest : List (Task τ)) (t : WebSocketTransport τ)
      (hphase : s.phase = .draining) (htasks : s.transport.tasks = task :: rest)
      (hrun : ({ s.transport with tasks := rest }).runTask lib task = .ok t) :
      Steps lib s .runTask (s.setTransport t)
  | loop (hphase : s.phase = .draining) (htasks : s.transport.tasks = []) :
      Steps lib s .loop s.loopTest

/-- The inversion lemma of `step`. -/
theorem steps_of_step {lib : JsonLibrary} {s t : Service τ} {e : ServiceEvent τ}
    (h : step lib s e = some t) : Steps lib s e t := by
  cases e with
  | invoke task => exact Option.some.inj h ▸ .invoke task
  | destroy => exact Option.some.inj h ▸ .destroy
  | start created =>
      simp only [step, Option.ite_none_right_eq_some, Option.some.injEq] at h
      exact h.2 ▸ .start created h.1
  | connect outcome =>
      simp only [step, Option.ite_none_right_eq_some, Option.some.injEq] at h
      exact h.2 ▸ .connect outcome h.1.1 h.1.2
  | established =>
      simp only [step] at h
      split at h
      next wsi hphase hconn => exact Option.some.inj h ▸ .established wsi hphase hconn
      next => simp at h
  | receive chunk final handled =>
      simp only [step] at h
      split at h
      next wsi hphase hconn =>
        exact Option.some.inj h ▸ .receive chunk final handled wsi hphase hconn
      next => simp at h
  | writeable =>
      simp only [step] at h
      split at h
      next wsi hphase hconn =>
        rw [Option.ite_none_right_eq_some, Option.some.injEq] at h
        exact h.2 ▸ .writeable wsi hphase hconn h.1
      next => simp at h
  | peerInitiatedClose =>
      simp only [step] at h
      split at h
      next wsi hphase hconn =>
        exact Option.some.inj h ▸ .peerInitiatedClose wsi hphase hconn
      next => simp at h
  | closed =>
      simp only [step] at h
      split at h
      next wsi hphase hconn => exact Option.some.inj h ▸ .closed wsi hphase hconn
      next => simp at h
  | connectionError =>
      simp only [step] at h
      split at h
      next wsi hphase hconn => exact Option.some.inj h ▸ .connectionError wsi hphase hconn
      next => simp at h
  | timer =>
      simp only [step, Option.ite_none_right_eq_some, Option.some.injEq] at h
      exact h.2 ▸ .timer h.1.1 h.1.2
  | serviceReturn ret =>
      simp only [step, Option.ite_none_right_eq_some, Option.some.injEq] at h
      exact h.2 ▸ .serviceReturn ret h.1
  | runTask =>
      simp only [step] at h
      split at h
      next task rest hphase htasks =>
        split at h
        next t' hrun => exact Option.some.inj h ▸ .runTask task rest t' hphase htasks hrun
        next => simp at h
      next => simp at h
  | loop =>
      simp only [step, Option.ite_none_right_eq_some, Option.some.injEq] at h
      exact h.2 ▸ .loop h.1.1 h.1.2

/-! ## In the loop -/

/-- The service thread is in its loop. -/
def InLoop (s : Service τ) : Prop := s.phase = .inService ∨ s.phase = .draining

/-- In the loop the context exists. -/
theorem Steps.hasContext {lib : JsonLibrary} {s t : Service τ} {e : ServiceEvent τ}
    (h : Steps lib s e t) (hs : s.InLoop → s.transport.hasContext = true) :
    t.InLoop → t.transport.hasContext = true := by
  intro ht
  cases h with
  | invoke | destroy => exact hs ht
  | start created hphase =>
      cases created with
      | true =>
          obtain ⟨lws, phase, heq⟩ := s.start_true_frame
          rw [heq]
      | false => rcases ht with ht | ht <;> exact Phase.noConfusion ht
  | connect outcome hphase =>
      have hcontext := hs (Or.inl hphase)
      obtain ⟨lws, connectionInfo, calls, heq⟩ := s.connectClient_frame outcome
      rw [heq]
      exact hcontext
  | receive chunk final handled wsi hphase =>
      have hcontext := hs (Or.inl hphase)
      obtain ⟨buffer, calls, heq⟩ := receive_frame lib chunk final handled s
      rw [heq]
      exact hcontext
  | writeable wsi hphase =>
      have hcontext := hs (Or.inl hphase)
      obtain ⟨lws, noMsg, msgQueue, written, heq⟩ := s.writeable_frame
      rw [heq]
      exact hcontext
  | established _ hphase | peerInitiatedClose _ hphase | closed _ hphase
  | connectionError _ hphase | timer hphase | serviceReturn _ hphase => exact hs (Or.inl hphase)
  | runTask task rest t' hphase htasks hrun =>
      have hcontext := hs (Or.inr hphase)
      rcases WebSocketTransport.runTask_eq_ok hrun with
        ⟨message, msg, -, -, rfl⟩ | ⟨-, closure, sul, rfl⟩
      · exact hcontext
      · exact hcontext
  | loop hphase =>
      have hcontext := hs (Or.inr hphase)
      obtain ⟨lws, phase, heq⟩ := s.loopTest_frame
      rw [heq]
      exact hcontext

/-- The service thread leaves its loop by the test of the loop condition only. -/
theorem Steps.of_exited {lib : JsonLibrary} {s t : Service τ} {e : ServiceEvent τ}
    (h : Steps lib s e t) (hown : e.isOwn = true) (ht : t.phase = .exited) :
    (e = .start true ∨ e = .loop) ∧ s.transport.keepsRunning = false := by
  cases h with
  | invoke | destroy | receive | timer => simp [ServiceEvent.isOwn] at hown
  | start created hphase =>
      cases created with
      | true =>
          refine ⟨Or.inl rfl, ?_⟩
          unfold Service.start at ht
          rw [if_pos rfl, phase_loopTest] at ht
          split at ht
          next => exact Phase.noConfusion ht
          next hstop => exact Bool.eq_false_of_not_eq_true hstop
      | false => exact Phase.noConfusion ht
  | loop hphase =>
      refine ⟨Or.inr rfl, ?_⟩
      rw [phase_loopTest] at ht
      split at ht
      next => exact Phase.noConfusion ht
      next hstop => exact Bool.eq_false_of_not_eq_true hstop
  | connect outcome hphase =>
      have hsame : (s.connectClient outcome).phase = s.phase := by
        cases outcome with
        | handle => rfl
        | null errorDelivered => cases errorDelivered <;> rfl
      rw [hsame, hphase] at ht
      exact Phase.noConfusion ht
  | writeable wsi hphase =>
      obtain ⟨lws, noMsg, msgQueue, written, heq⟩ := s.writeable_frame
      rw [heq] at ht
      exact Phase.noConfusion (hphase.symm.trans ht)
  | serviceReturn ret hphase => exact Phase.noConfusion ht
  | established _ hphase | peerInitiatedClose _ hphase | closed _ hphase
  | connectionError _ hphase | runTask _ _ _ hphase =>
      exact Phase.noConfusion (hphase.symm.trans ht)

/-- After it has left the loop it does nothing. -/
theorem Steps.not_exited {lib : JsonLibrary} {s t : Service τ} {e : ServiceEvent τ}
    (h : Steps lib s e t) (hown : e.isOwn = true) : s.phase ≠ .exited := by
  intro hs
  cases h with
  | invoke | destroy => simp [ServiceEvent.isOwn] at hown
  | start _ hphase | connect _ hphase | established _ hphase | receive _ _ _ _ hphase
  | writeable _ hphase | peerInitiatedClose _ hphase | closed _ hphase
  | connectionError _ hphase | timer hphase | serviceReturn _ hphase | runTask _ _ _ hphase
  | loop hphase => exact Phase.noConfusion (hphase.symm.trans hs)

end Service

end Protoo
