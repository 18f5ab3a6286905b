import Protoo.Transport.Writable
import Protoo.Transport.ReceiveBuffer

/-!
# Attempts, connections and their loss

While the service thread is in its loop it has one thing to do about the
connection: an attempt is scheduled on `m_connectionInfo.sul`, an attempt is in
progress, or a connection is established.  A failed or lost connection schedules
the next attempt, also when `lws_client_connect_via_info` fails at once and both
of its retry paths run.

`LWS_CALLBACK_CLIENT_ESTABLISHED` takes the retry counter for the sign of a
reconnection.  The counter also counts the attempts that failed before the first
connection, so the first report is the right one exactly when none did.
-/

namespace Protoo

open Protoo.Support

/-- The events that may change the connection, what is known of it or the phase of
the service thread. -/
def ServiceEvent.isLifecycle {τ : Type} : ServiceEvent τ → Bool
  | .start _ => true
  | .connect _ => true
  | .established => true
  | .closed => true
  | .connectionError => true
  | .serviceReturn _ => true
  | .loop => true
  | _ => false

namespace Service

variable {τ : Type} {lib : JsonLibrary} {s t : Service τ} {e : ServiceEvent τ}

/-- Phase and connection with what is known of it. -/
structure KeepsConnection (s t : Service τ) : Prop where
  phase : t.phase = s.phase
  connection : t.transport.lws.connection = s.transport.lws.connection
  connectionInfo : t.transport.connectionInfo = s.transport.connectionInfo

theorem Steps.keepsConnection (h : Steps lib s e t) (hquiet : e.isLifecycle = false) :
    KeepsConnection s t := by
  cases h with
  | start | connect | established | closed | connectionError | serviceReturn | loop =>
      exact Bool.noConfusion hquiet
  | receive chunk final handled =>
      obtain ⟨buffer, calls, heq⟩ := receive_frame lib chunk final handled s
      rw [heq]
      exact ⟨rfl, rfl, rfl⟩
  | writeable =>
      refine ⟨?_, ?_, ?_⟩
      all_goals
        unfold Service.writeable WebSocketTransport.writeable
        cases hqueue : s.transport.msgQueue <;> simp [setLws, setTransport, hqueue]
  | runTask task rest t hphase htasks hrun =>
      rcases WebSocketTransport.runTask_eq_ok hrun with
        ⟨message, msg, -, -, rfl⟩ | ⟨-, closure, sul, rfl⟩
      · refine ⟨rfl, ?_, rfl⟩
        cases s.transport.connectionInfo.wsi <;> simp [setTransport]
      · exact ⟨rfl, rfl, rfl⟩
  | _ => exact ⟨rfl, rfl, rfl⟩

/-- The start and the test of the loop apart, a step keeps the context and stays where
it is, or goes from `lws_service` to the posted closures. -/
theorem Steps.stays (h : Steps lib s e t) (hstart : ∀ created, e ≠ .start created)
    (hloop : e ≠ .loop) :
    (t.phase = s.phase ∨ (s.phase = .inService ∧ t.phase = .draining)) ∧
      t.transport.hasContext = s.transport.hasContext := by
  cases h with
  | start created => exact absurd rfl (hstart created)
  | loop => exact absurd rfl hloop
  | connect outcome =>
      obtain ⟨lws, connectionInfo, calls, heq⟩ := s.connectClient_frame outcome
      rw [heq]
      exact ⟨Or.inl rfl, rfl⟩
  | receive chunk final handled =>
      obtain ⟨buffer, calls, heq⟩ := receive_frame lib chunk final handled s
      rw [heq]
      exact ⟨Or.inl rfl, rfl⟩
  | writeable =>
      obtain ⟨lws, noMsg, msgQueue, written, heq⟩ := s.writeable_frame
      rw [heq]
      exact ⟨Or.inl rfl, rfl⟩
  | serviceReturn ret hphase => exact ⟨Or.inr ⟨hphase, rfl⟩, rfl⟩
  | runTask task rest t hphase htasks hrun =>
      rcases WebSocketTransport.runTask_eq_ok hrun with
        ⟨message, msg, -, -, rfl⟩ | ⟨-, closure, sul, rfl⟩
      · exact ⟨Or.inl rfl, rfl⟩
      · exact ⟨Or.inl rfl, rfl⟩
  | _ => exact ⟨Or.inl rfl, rfl⟩

/-! ## One attempt or one connection -/

/-- A connection attempt is scheduled. -/
def IsScheduled (s : Service τ) : Prop := s.transport.connectionInfo.sul = true

/-- A connection attempt is in progress. -/
def IsConnecting (s : Service τ) : Prop := ∃ wsi, s.transport.lws.connection = .connecting wsi

/-- Exactly one of the three: an attempt is scheduled, one is in progress, or a
connection is established. -/
def OneConnection (s : Service τ) : Prop :=
  (s.IsScheduled ∧ ¬s.IsConnecting ∧ ¬s.IsEstablished) ∨
    (¬s.IsScheduled ∧ s.IsConnecting ∧ ¬s.IsEstablished) ∨
    (¬s.IsScheduled ∧ ¬s.IsConnecting ∧ s.IsEstablished)

/-- In the loop an attempt is scheduled exactly when there is no connection, and
before the loop there is none. -/
structure ConnectionInv (s : Service τ) : Prop where
  fresh : s.phase = .starting → s.transport.lws.connection = .none
  one : s.InLoop → (s.transport.connectionInfo.sul = true ↔ s.transport.lws.connection = .none)

theorem ConnectionInv.oneConnection (h : ConnectionInv s) (hloop : s.InLoop) :
    s.OneConnection := by
  have hone := h.one hloop
  unfold OneConnection IsScheduled IsConnecting IsEstablished
  cases hconn : s.transport.lws.connection with
  | none =>
      left
      exact ⟨hone.mpr hconn, by simp, by simp⟩
  | connecting wsi =>
      right
      left
      rw [hone, hconn]
      exact ⟨by simp, ⟨wsi, rfl⟩, by simp⟩
  | established wsi =>
      right
      right
      rw [hone, hconn]
      exact ⟨by simp, by simp, ⟨wsi, rfl⟩⟩

theorem connectionInv_init : ConnectionInv ({} : Service τ) where
  fresh := fun _ => rfl
  one := by
    rintro (hphase | hphase)
    · exact Phase.noConfusion hphase
    · exact Phase.noConfusion hphase

/-- Inside the loop only the second part matters. -/
theorem connectionInv_of_iff (hphase : s.phase ≠ .starting)
    (hone : s.transport.connectionInfo.sul = true ↔ s.transport.lws.connection = .none) :
    ConnectionInv s where
  fresh := fun hstart => absurd hstart hphase
  one := fun _ => hone

theorem connectionInv_loopTest
    (hone : s.transport.connectionInfo.sul = true ↔ s.transport.lws.connection = .none) :
    ConnectionInv s.loopTest := by
  unfold loopTest
  split
  · exact connectionInv_of_iff (by simp) hone
  · refine ⟨fun hstart => Phase.noConfusion hstart, ?_⟩
    rintro (hphase | hphase)
    · exact Phase.noConfusion hphase
    · exact Phase.noConfusion hphase

/-- Every attempt ends scheduled again or in progress; a synchronous failure passes
both retry paths and schedules one attempt. -/
theorem connectionInv_connectClient (hphase : s.phase = .inService)
    (hnone : s.transport.lws.connection = .none) (outcome : ConnectOutcome) :
    ConnectionInv (s.connectClient outcome) := by
  have hnotStarting : s.phase ≠ .starting := by simp [hphase]
  cases outcome with
  | handle => exact connectionInv_of_iff hnotStarting (by simp [connectClient, setTransport])
  | null errorDelivered =>
      cases errorDelivered with
      | true => exact connectionInv_of_iff hnotStarting (iff_of_true rfl rfl)
      | false => exact connectionInv_of_iff hnotStarting (iff_of_true rfl hnone)

theorem ConnectionInv.step (h : ConnectionInv s) (hstep : step lib s e = some t) :
    ConnectionInv t := by
  have hsteps := steps_of_step hstep
  by_cases hquiet : e.isLifecycle = false
  · have hkeeps := hsteps.keepsConnection hquiet
    constructor
    · rw [hkeeps.phase, hkeeps.connection]
      exact h.fresh
    · unfold InLoop
      rw [hkeeps.phase, hkeeps.connection, hkeeps.connectionInfo]
      exact h.one
  · cases hsteps with
    | start created hphase =>
        cases created with
        | true => exact connectionInv_loopTest (iff_of_true rfl (h.fresh hphase))
        | false =>
            refine ⟨fun hstart => Phase.noConfusion hstart, ?_⟩
            rintro (hphase' | hphase')
            · exact Phase.noConfusion hphase'
            · exact Phase.noConfusion hphase'
    | connect outcome hphase hsul =>
        exact connectionInv_connectClient hphase ((h.one (Or.inl hphase)).mp hsul) outcome
    | established wsi hphase hconn =>
        have hone := h.one (Or.inl hphase)
        rw [hconn] at hone
        refine connectionInv_of_iff (by simp [established, setLws, setTransport, call, hphase]) ?_
        exact iff_of_false (fun hsul => Connection.noConfusion (hone.mp hsul))
          fun hnone => Connection.noConfusion hnone
    | closed wsi hphase =>
        exact connectionInv_of_iff (by simp [closed, setLws, setTransport, call, hphase])
          (iff_of_true rfl rfl)
    | connectionError wsi hphase =>
        exact connectionInv_of_iff (by simp [connectionError, setLws, setTransport, call, hphase])
          (iff_of_true rfl rfl)
    | serviceReturn ret hphase => exact connectionInv_of_iff (by simp) (h.one (Or.inl hphase))
    | loop hphase => exact connectionInv_loopTest (h.one (Or.inr hphase))
    | _ => exact absurd rfl hquiet

theorem connectionInv_of_run {C : Service τ → ServiceEvent τ → Prop}
    {events : List (ServiceEvent τ)} (hrun : Run (step lib) C {} events s) : ConnectionInv s :=
  hrun.invariant connectionInv_init fun h _ hstep => h.step hstep

/-- The stored handle is the one of the attempt or connection there is. -/
def StoredHandle (s : Service τ) : Prop :=
  ∀ wsi, s.transport.lws.connection = .connecting wsi ∨
    s.transport.lws.connection = .established wsi → s.transport.connectionInfo.wsi = some wsi

theorem storedHandle_of_connection (h : s.transport.lws.connection = .none) :
    StoredHandle s := by
  rintro wsi (hwsi | hwsi)
  · exact Connection.noConfusion (h.symm.trans hwsi)
  · exact Connection.noConfusion (h.symm.trans hwsi)

theorem storedHandle_loopTest (h : StoredHandle s) : StoredHandle s.loopTest := by
  unfold loopTest
  split
  · exact h
  · exact storedHandle_of_connection rfl

theorem StoredHandle.step (h : StoredHandle s) (hinv : ConnectionInv s)
    (hstep : step lib s e = some t) : StoredHandle t := by
  have hsteps := steps_of_step hstep
  by_cases hquiet : e.isLifecycle = false
  · have hkeeps := hsteps.keepsConnection hquiet
    unfold StoredHandle
    rw [hkeeps.connection, hkeeps.connectionInfo]
    exact h
  · cases hsteps with
    | start created hphase =>
        have hnone := hinv.fresh hphase
        cases created with
        | true =>
            rw [start_true]
            exact storedHandle_loopTest (storedHandle_of_connection hnone)
        | false => exact storedHandle_of_connection hnone
    | connect outcome hphase hsul =>
        have hnone := (hinv.one (Or.inl hphase)).mp hsul
        cases outcome with
        | handle =>
            rintro wsi (hwsi | hwsi)
            · exact congrArg some (Connection.connecting.inj hwsi)
            · exact Connection.noConfusion hwsi
        | null errorDelivered =>
            apply storedHandle_of_connection
            cases errorDelivered with
            | true => rfl
            | false => exact hnone
    | established wsi hphase hconn =>
        rintro wsi' (hwsi | hwsi)
        · exact Connection.noConfusion hwsi
        · obtain rfl := Connection.established.inj hwsi
          exact h wsi (Or.inl hconn)
    | closed => exact storedHandle_of_connection rfl
    | connectionError => exact storedHandle_of_connection rfl
    | serviceReturn => exact h
    | loop => exact storedHandle_loopTest h
    | _ => exact absurd rfl hquiet

/-- The server does not close the connection, and the transport is not destroyed. -/
def Undisturbed (_ : Service τ) (e : ServiceEvent τ) : Prop :=
  e ≠ .peerInitiatedClose ∧ e ≠ .destroy

/-- Only a close by the server and the destructor set `m_closed`. -/
theorem closed_of_undisturbed (hclosed : s.transport.closed = false) (hC : Undisturbed s e)
    (hstep : step lib s e = some t) : t.transport.closed = false := by
  cases steps_of_step hstep with
  | destroy => exact absurd rfl hC.2
  | peerInitiatedClose => exact absurd rfl hC.1
  | start created =>
      cases created with
      | true =>
          obtain ⟨lws, phase, heq⟩ := s.start_true_frame
          rw [heq]
          exact hclosed
      | false => exact hclosed
  | connect outcome =>
      obtain ⟨lws, connectionInfo, calls, heq⟩ := s.connectClient_frame outcome
      rw [heq]
      exact hclosed
  | receive chunk final handled =>
      obtain ⟨buffer, calls, heq⟩ := receive_frame lib chunk final handled s
      rw [heq]
      exact hclosed
  | writeable =>
      obtain ⟨lws, noMsg, msgQueue, written, heq⟩ := s.writeable_frame
      rw [heq]
      exact hclosed
  | runTask task rest t hphase htasks hrun =>
      rcases WebSocketTransport.runTask_eq_ok hrun with
        ⟨message, msg, -, -, rfl⟩ | ⟨-, closure, sul, rfl⟩
      · exact hclosed
      · exact hclosed
  | loop =>
      obtain ⟨lws, phase, heq⟩ := s.loopTest_frame
      rw [heq]
      exact hclosed
  | _ => exact hclosed

/-- The loop is left only when its condition fails. -/
theorem keepsRunning_of_exited (hs : s.phase = .exited → s.transport.keepsRunning = false)
    (hstep : step lib s e = some t) : t.phase = .exited → t.transport.keepsRunning = false := by
  intro ht
  have hsteps := steps_of_step hstep
  by_cases hown : e.isOwn = true
  · obtain ⟨rfl | rfl, hstop⟩ := hsteps.of_exited hown ht
    · cases hsteps with
      | start =>
          rw [start_true]
          exact keepsRunning_loopTest hstop
    · cases hsteps with
      | loop => exact keepsRunning_loopTest hstop
  · cases hsteps with
    | invoke => exact hs ht
    | destroy => rfl
    | receive chunk final handled wsi hphase =>
        obtain ⟨buffer, calls, heq⟩ := receive_frame lib chunk final handled s
        rw [heq] at ht
        exact Phase.noConfusion (hphase.symm.trans ht)
    | timer hphase => exact Phase.noConfusion (hphase.symm.trans ht)
    | _ => exact absurd rfl hown

/-- Without a close by the server and without destruction the client never gives up
and never has two connections: in the loop exactly one attempt is scheduled or in
progress, or exactly one connection is established, `m_closed` is not set, and the
loop is left only when `lws_service` itself has failed. -/
theorem one_connection {events : List (ServiceEvent τ)}
    (hrun : Run (step lib) Undisturbed {} events s) :
    (s.InLoop → s.OneConnection) ∧ s.transport.closed = false ∧
      (s.phase = .exited → s.transport.serviceRet < 0) := by
  have hclosed : s.transport.closed = false :=
    hrun.invariant (I := fun s => s.transport.closed = false) rfl closed_of_undisturbed
  refine ⟨(connectionInv_of_run hrun).oneConnection, hclosed, ?_⟩
  intro hphase
  have hstopped : s.transport.keepsRunning = false :=
    hrun.invariant (I := fun s => s.phase = .exited → s.transport.keepsRunning = false)
      (fun hphase => Phase.noConfusion hphase)
      (fun hs _ hstep => keepsRunning_of_exited hs hstep) hphase
  simpa [WebSocketTransport.keepsRunning, hclosed] using hstopped

/-- The first attempt fails at once and reports it, and the second one succeeds. -/
def failedAttemptRun : List (ServiceEvent ℤ) :=
  [.start true, .connect (.null true), .connect .handle, .established]

theorem one_connection_failedAttempt :
    ∃ s, Run (step noTexts) Undisturbed {} failedAttemptRun s ∧ s.InLoop ∧
      s.OneConnection := by
  have hrun : failedAttemptRun.foldlM (step noTexts) ({} : Service ℤ) = some _ := rfl
  have hundisturbed := (run_of_foldlM hrun).of_forall (C := Undisturbed) fun e he _ => by
    simp only [failedAttemptRun, List.mem_cons, List.not_mem_nil, or_false] at he
    rcases he with rfl | rfl | rfl | rfl <;> exact ⟨by simp, by simp⟩
  exact ⟨_, hundisturbed, Or.inl rfl, (one_connection hundisturbed).1 (Or.inl rfl)⟩

/-! ## What is reported -/

end Service

/-- The listener is told of an established connection. -/
def ListenerCall.isReport : ListenerCall → Bool
  | .onConnected => true
  | .onReConnected => true
  | _ => false

/-- The listener is told of a lost connection or a failed attempt. -/
def ListenerCall.isLoss : ListenerCall → Bool
  | .onClosed => true
  | .onFailed => true
  | _ => false

theorem ListenerCall.isReport_of_isLoss {call : ListenerCall} (h : call.isLoss = true) :
    call.isReport = false := by
  cases call with
  | onClosed | onFailed => rfl
  | _ => exact Bool.noConfusion h

/-- An attempt to connect fails, at once or later. -/
def ServiceEvent.isFailedAttempt {τ : Type} : ServiceEvent τ → Bool
  | .connect (.null _) => true
  | .connectionError => true
  | _ => false

namespace Service

variable {τ : Type} {lib : JsonLibrary} {s t : Service τ} {e : ServiceEvent τ}

/-- The reports of established connections. -/
def reports (s : Service τ) : List ListenerCall := s.calls.filter ListenerCall.isReport

/-- The first report is of a connection and all later ones are of reconnections. -/
def ToldApart (reports : List ListenerCall) : Prop :=
  reports = [] ∨ ∃ n, reports = .onConnected :: List.replicate n .onReConnected

/-- Between two reports there is a loss. -/
def Separated (calls : List ListenerCall) : Prop :=
  ∀ before between after first second,
    calls = before ++ first :: (between ++ second :: after) → first.isReport = true →
      second.isReport = true → ∃ call ∈ between, call.isLoss = true

/-- After every report there is a loss. -/
def LossLast (calls : List ListenerCall) : Prop :=
  ∀ before after report, calls = before ++ report :: after → report.isReport = true →
    ∃ call ∈ after, call.isLoss = true

/-- No attempt fails before the first connection. -/
def ConnectsFirst (events : List (ServiceEvent τ)) : Prop :=
  ∀ before after, events = before ++ .established :: after → .established ∉ before →
    ∀ e ∈ before, e.isFailedAttempt = false

/-! ### Lists of calls -/

theorem concat_split {calls before after : List ListenerCall} {call report : ListenerCall}
    (h : calls ++ [call] = before ++ report :: after) :
    (after = [] ∧ calls = before ∧ call = report) ∨
      ∃ rest, after = rest ++ [call] ∧ calls = before ++ report :: rest := by
  rcases List.eq_nil_or_concat after with rfl | ⟨rest, last, rfl⟩
  · obtain ⟨rfl, hlast⟩ := List.append_inj' h rfl
    exact Or.inl ⟨rfl, rfl, List.singleton_inj.mp hlast⟩
  · rw [List.concat_eq_append, ← List.cons_append, ← List.append_assoc] at h
    obtain ⟨rfl, hlast⟩ := List.append_inj' h rfl
    obtain rfl := List.singleton_inj.mp hlast
    exact Or.inr ⟨rest, List.concat_eq_append, rfl⟩

theorem LossLast.concat {calls : List ListenerCall} {call : ListenerCall} (h : LossLast calls)
    (hcall : call.isReport = false) : LossLast (calls ++ [call]) := by
  intro before after report hsplit hreport
  rcases concat_split hsplit with ⟨-, -, rfl⟩ | ⟨rest, rfl, hcalls⟩
  · exact absurd hreport (by simp [hcall])
  · obtain ⟨loss, hmem, hloss⟩ := h before rest report hcalls hreport
    exact ⟨loss, List.mem_append_left _ hmem, hloss⟩

theorem lossLast_concat (calls : List ListenerCall) {call : ListenerCall}
    (hloss : call.isLoss = true) : LossLast (calls ++ [call]) := by
  intro before after report hsplit hreport
  rcases concat_split hsplit with ⟨-, -, rfl⟩ | ⟨rest, rfl, -⟩
  · exact absurd hreport (by simp [ListenerCall.isReport_of_isLoss hloss])
  · exact ⟨call, List.mem_append_right _ (List.mem_singleton_self call), hloss⟩

theorem Separated.concat {calls : List ListenerCall} {call : ListenerCall} (h : Separated calls)
    (hcall : call.isReport = true → LossLast calls) : Separated (calls ++ [call]) := by
  intro before between after first second hsplit hfirst hsecond
  rcases concat_split hsplit with ⟨hnil, -, -⟩ | ⟨rest, hrest, hcalls⟩
  · simp at hnil
  · rcases List.eq_nil_or_concat after with rfl | ⟨later, last, rfl⟩
    · obtain ⟨rfl, hlast⟩ := List.append_inj' hrest rfl
      obtain rfl := List.singleton_inj.mp hlast
      exact hcall hsecond before between first hcalls hfirst
    · rw [List.concat_eq_append, ← List.cons_append, ← List.append_assoc] at hrest
      obtain ⟨rfl, -⟩ := List.append_inj' hrest rfl
      exact h before between later first second hcalls hfirst hsecond

/-! ### The calls a step makes -/

theorem calls_receive (lib : JsonLibrary) (chunk : String) (final : Bool)
    (handled : Except Exception Unit) (s : Service τ) :
    (s.receive lib chunk final handled).calls = s.calls ∨
      ∃ message, (s.receive lib chunk final handled).calls = s.calls ++ [.onMessage message] := by
  unfold receive
  split
  next => exact Or.inl rfl
  next text _ =>
    split
    next => exact Or.inl rfl
    next message _ =>
      cases handled with
      | error error => exact Or.inr ⟨message, rfl⟩
      | ok => exact Or.inr ⟨message, rfl⟩

/-- Only `CLIENT_ESTABLISHED` makes a report. -/
theorem Steps.calls_of_ne_established (h : Steps lib s e t) (hne : e ≠ .established) :
    t.calls = s.calls ∨ ∃ call, call.isReport = false ∧ t.calls = s.calls ++ [call] := by
  cases h with
  | established => exact absurd rfl hne
  | start created =>
      obtain ⟨hasContext, lws, connectionInfo, phase, heq⟩ := s.start_frame created
      rw [heq]
      exact Or.inl rfl
  | connect outcome =>
      cases outcome with
      | handle => exact Or.inl rfl
      | null errorDelivered =>
          cases errorDelivered with
          | true => exact Or.inr ⟨.onFailed, rfl, rfl⟩
          | false => exact Or.inl rfl
  | receive chunk final handled =>
      rcases calls_receive lib chunk final handled s with hsame | ⟨message, hnew⟩
      · exact Or.inl hsame
      · exact Or.inr ⟨.onMessage message, rfl, hnew⟩
  | writeable =>
      obtain ⟨lws, noMsg, msgQueue, written, heq⟩ := s.writeable_frame
      rw [heq]
      exact Or.inl rfl
  | closed => exact Or.inr ⟨.onClosed, rfl, rfl⟩
  | connectionError => exact Or.inr ⟨.onFailed, rfl, rfl⟩
  | loop =>
      obtain ⟨lws, phase, heq⟩ := s.loopTest_frame
      rw [heq]
      exact Or.inl rfl
  | _ => exact Or.inl rfl

/-- Until the thread starts nothing is reported. -/
theorem Steps.starting (h : Steps lib s e t) (hphase : t.phase = .starting) :
    s.phase = .starting ∧ t.calls = s.calls := by
  cases h with
  | invoke | destroy => exact ⟨hphase, rfl⟩
  | start created =>
      cases created with
      | true =>
          simp only [Service.start, if_true, loopTest] at hphase
          split at hphase <;> exact Phase.noConfusion hphase
      | false => exact Phase.noConfusion hphase
  | connect outcome hservice =>
      obtain ⟨lws, connectionInfo, calls, heq⟩ := s.connectClient_frame outcome
      rw [heq] at hphase
      exact Phase.noConfusion (hservice.symm.trans hphase)
  | receive chunk final handled wsi hservice =>
      obtain ⟨buffer, calls, heq⟩ := receive_frame lib chunk final handled s
      rw [heq] at hphase
      exact Phase.noConfusion (hservice.symm.trans hphase)
  | writeable wsi hservice =>
      obtain ⟨lws, noMsg, msgQueue, written, heq⟩ := s.writeable_frame
      rw [heq] at hphase
      exact Phase.noConfusion (hservice.symm.trans hphase)
  | established _ hservice | peerInitiatedClose _ hservice | closed _ hservice
  | connectionError _ hservice | timer hservice | runTask _ _ _ hservice =>
      exact Phase.noConfusion (hservice.symm.trans hphase)
  | serviceReturn => exact Phase.noConfusion hphase
  | loop =>
      unfold loopTest at hphase
      split at hphase <;> exact Phase.noConfusion hphase

/-- Where there is no connection in the loop, there was none before, or the event
ended it. -/
theorem Steps.disconnected (h : Steps lib s e t) (hinv : ConnectionInv s) (hloop : t.InLoop)
    (hest : ¬t.IsEstablished) :
    (s.InLoop ∧ ¬s.IsEstablished) ∨ s.phase = .starting ∨ e = .closed ∨
      e = .connectionError := by
  by_cases hquiet : e.isLifecycle = false
  · have hkeeps := h.keepsConnection hquiet
    left
    unfold InLoop IsEstablished at *
    rw [hkeeps.phase] at hloop
    rw [hkeeps.connection] at hest
    exact ⟨hloop, hest⟩
  · cases h with
    | start created hphase => exact Or.inr (Or.inl hphase)
    | connect outcome hphase hsul =>
        refine Or.inl ⟨Or.inl hphase, ?_⟩
        rintro ⟨wsi, hconn⟩
        rw [(hinv.one (Or.inl hphase)).mp hsul] at hconn
        exact Connection.noConfusion hconn
    | established wsi => exact absurd ⟨wsi, rfl⟩ hest
    | closed => exact Or.inr (Or.inr (Or.inl rfl))
    | connectionError => exact Or.inr (Or.inr (Or.inr rfl))
    | serviceReturn ret hphase => exact Or.inl ⟨Or.inl hphase, hest⟩
    | loop hphase =>
        refine Or.inl ⟨Or.inr hphase, ?_⟩
        unfold loopTest at hloop hest
        split at hest
        next => exact hest
        next hstop =>
          rw [if_neg hstop] at hloop
          rcases hloop with hphase' | hphase' <;> exact Phase.noConfusion hphase'
    | _ => exact absurd rfl hquiet

/-- A connection comes from `CLIENT_ESTABLISHED`. -/
theorem Steps.established_of_ne (h : Steps lib s e t) (hne : e ≠ .established)
    (hest : t.IsEstablished) : s.IsEstablished := by
  have hnone : ∀ {u : Service τ}, u.transport.lws.connection = .none → ¬u.IsEstablished := by
    rintro u hu ⟨wsi, hwsi⟩
    exact Connection.noConfusion (hu.symm.trans hwsi)
  have hloopTest : ∀ {u : Service τ}, u.loopTest.IsEstablished → u.IsEstablished := by
    intro u hu
    unfold loopTest at hu
    split at hu
    · exact hu
    · exact absurd hu (hnone rfl)
  by_cases hquiet : e.isLifecycle = false
  · have hkeeps := h.keepsConnection hquiet
    unfold IsEstablished at hest
    rwa [hkeeps.connection] at hest
  · cases h with
    | start created =>
        cases created with
        | true =>
            rw [start_true] at hest
            have hbefore := hloopTest hest
            exact hbefore
        | false => exact hest
    | connect outcome hphase hsul =>
        cases outcome with
        | handle =>
            obtain ⟨wsi, hwsi⟩ := hest
            exact Connection.noConfusion hwsi
        | null errorDelivered =>
            cases errorDelivered with
            | true => exact absurd hest (hnone rfl)
            | false => exact hest
    | established => exact absurd rfl hne
    | closed => exact absurd hest (hnone rfl)
    | connectionError => exact absurd hest (hnone rfl)
    | serviceReturn => exact hest
    | loop => exact hloopTest hest
    | _ => exact absurd rfl hquiet

theorem isReport_establishedCall (t : WebSocketTransport τ) :
    t.establishedCall.isReport = true := by
  unfold WebSocketTransport.establishedCall
  split <;> rfl

/-- No call of the listener is lost between two reports. -/
structure ReportInv (s : Service τ) : Prop where
  connection : ConnectionInv s
  fresh : s.phase = .starting → s.calls = []
  separated : Separated s.calls
  lossLast : s.InLoop → ¬s.IsEstablished → LossLast s.calls

theorem reportInv_init : ReportInv ({} : Service τ) where
  connection := connectionInv_init
  fresh := fun _ => rfl
  separated := by simp [Separated]
  lossLast := fun _ _ => by simp [LossLast]

/-- A step that makes no report. -/
theorem ReportInv.congr (h : ReportInv s) (hstep : step lib s e = some t)
    (hne : e ≠ .established) : ReportInv t := by
  have hsteps := steps_of_step hstep
  have hcalls := hsteps.calls_of_ne_established hne
  refine ⟨h.connection.step hstep, ?_, ?_, ?_⟩
  · intro hphase
    obtain ⟨hstarting, hsame⟩ := hsteps.starting hphase
    exact hsame.trans (h.fresh hstarting)
  · rcases hcalls with hsame | ⟨call, hcall, hnew⟩
    · rw [hsame]
      exact h.separated
    · rw [hnew]
      exact h.separated.concat fun hreport => absurd hreport (by simp [hcall])
  · intro hloop hest
    have hkeep : LossLast s.calls → LossLast t.calls := by
      intro hlast
      rcases hcalls with hsame | ⟨call, hcall, hnew⟩
      · rw [hsame]
        exact hlast
      · rw [hnew]
        exact hlast.concat hcall
    rcases hsteps.disconnected h.connection hloop hest with
      ⟨hloop', hest'⟩ | hstarting | rfl | rfl
    · exact hkeep (h.lossLast hloop' hest')
    · apply hkeep
      rw [h.fresh hstarting]
      simp [LossLast]
    · cases hsteps
      exact lossLast_concat s.calls rfl
    · cases hsteps
      exact lossLast_concat s.calls rfl

theorem ReportInv.step (h : ReportInv s) (hstep : step lib s e = some t) : ReportInv t := by
  by_cases hne : e = .established
  · subst hne
    have hconnection := h.connection.step hstep
    cases steps_of_step hstep with
    | established wsi hphase hconn =>
        have hest : ¬s.IsEstablished := by
          rintro ⟨wsi', hconn'⟩
          exact Connection.noConfusion (hconn.symm.trans hconn')
        refine ⟨hconnection, ?_, ?_, ?_⟩
        · exact fun hstarting => Phase.noConfusion (hphase.symm.trans hstarting)
        · exact h.separated.concat fun _ => h.lossLast (Or.inl hphase) hest
        · exact fun _ hnot => absurd ⟨wsi, rfl⟩ hnot
  · exact h.congr hstep hne

/-! ### The first report -/

/-- An attempt fails or a connection is lost. -/
def loses : ServiceEvent τ → Bool
  | .closed => true
  | e => e.isFailedAttempt

theorem loses_of_isFailedAttempt (h : e.isFailedAttempt = true) : loses e = true := by
  cases e with
  | closed => rfl
  | _ => exact h

/-- The retry counter counts up on every failure and every loss, and nothing resets
it. -/
theorem Steps.retryCount (h : Steps lib s e t) :
    (loses e = false →
      t.transport.connectionInfo.retryCount = s.transport.connectionInfo.retryCount) ∧
      (loses e = true → 0 < t.transport.connectionInfo.retryCount) := by
  by_cases hquiet : e.isLifecycle = false
  · have hkeeps := h.keepsConnection hquiet
    rw [hkeeps.connectionInfo]
    cases e with
    | connect | closed | connectionError => exact Bool.noConfusion hquiet
    | _ => exact ⟨fun _ => rfl, fun hloses => Bool.noConfusion hloses⟩
  · cases h with
    | start created =>
        refine ⟨fun _ => ?_, fun hloses => Bool.noConfusion hloses⟩
        cases created with
        | true =>
            obtain ⟨lws, phase, heq⟩ := s.start_true_frame
            rw [heq]
        | false => rfl
    | connect outcome =>
        cases outcome with
        | handle => exact ⟨fun _ => rfl, fun hloses => Bool.noConfusion hloses⟩
        | null errorDelivered =>
            refine ⟨fun hloses => Bool.noConfusion hloses, fun _ => ?_⟩
            exact lt_min (Nat.succ_pos _) (by decide)
    | established => exact ⟨fun _ => rfl, fun hloses => Bool.noConfusion hloses⟩
    | closed =>
        refine ⟨fun hloses => Bool.noConfusion hloses, fun _ => ?_⟩
        exact lt_min (Nat.succ_pos _) (by decide)
    | connectionError =>
        refine ⟨fun hloses => Bool.noConfusion hloses, fun _ => ?_⟩
        exact lt_min (Nat.succ_pos _) (by decide)
    | serviceReturn => exact ⟨fun _ => rfl, fun hloses => Bool.noConfusion hloses⟩
    | loop =>
        obtain ⟨lws, phase, heq⟩ := s.loopTest_frame
        rw [heq]
        exact ⟨fun _ => rfl, fun hloses => Bool.noConfusion hloses⟩
    | _ => exact absurd rfl hquiet

/-- What the first established connection is reported as, after the events
`earlier`. -/
def firstReport (earlier : List (ServiceEvent τ)) : ListenerCall :=
  if earlier.any ServiceEvent.isFailedAttempt then .onReConnected else .onConnected

/-- Before the first connection the retry counter counts the failed attempts; after
it, every later connection finds the counter above zero. -/
inductive Reported (s : Service τ) (events : List (ServiceEvent τ)) : Prop where
  | never (hevents : .established ∉ events) (hreports : s.reports = [])
      (hest : ¬s.IsEstablished)
      (hretry : 0 < s.transport.connectionInfo.retryCount ↔
        events.any ServiceEvent.isFailedAttempt = true)
  | first (earlier later : List (ServiceEvent τ)) (n : ℕ)
      (hevents : events = earlier ++ .established :: later) (hfirst : .established ∉ earlier)
      (hstarted : s.phase ≠ .starting)
      (hreports : s.reports = firstReport earlier :: List.replicate n .onReConnected)
      (hretry : s.InLoop → ¬s.IsEstablished → 0 < s.transport.connectionInfo.retryCount)

theorem Steps.reports_of_ne_established (h : Steps lib s e t) (hne : e ≠ .established) :
    t.reports = s.reports := by
  rcases h.calls_of_ne_established hne with hsame | ⟨call, hcall, hnew⟩
  · rw [reports, hsame, reports]
  · rw [reports, hnew, List.filter_append, List.filter_singleton, hcall, reports]
    exact List.append_nil _

theorem Reported.step {events : List (ServiceEvent τ)} (h : Reported s events)
    (hinv : ConnectionInv s) (hstep : step lib s e = some t) : Reported t (events ++ [e]) := by
  have hsteps := steps_of_step hstep
  by_cases hne : e = .established
  · subst hne
    cases hsteps with
    | established wsi hphase hconn =>
        have hest : ¬s.IsEstablished := by
          rintro ⟨wsi', hconn'⟩
          exact Connection.noConfusion (hconn.symm.trans hconn')
        have hstarted : s.phase ≠ .starting := by simp [hphase]
        have hreports : (s.established wsi).reports =
            s.reports ++ [s.transport.establishedCall] := by
          change (s.calls ++ [s.transport.establishedCall]).filter _ = _
          rw [List.filter_append, List.filter_singleton, isReport_establishedCall]
          rfl
        cases h with
        | never hevents hnone _ hretry =>
            refine .first events [] 0 rfl hevents hstarted ?_ fun _ hnot => absurd ⟨wsi, rfl⟩ hnot
            rw [hreports, hnone]
            unfold WebSocketTransport.establishedCall firstReport
            rw [if_congr hretry rfl rfl]
            rfl
        | first earlier later n hevents hfirst _ hsome hretry =>
            refine .first earlier (later ++ [.established]) (n + 1) ?_ hfirst hstarted ?_
              fun _ hnot => absurd ⟨wsi, rfl⟩ hnot
            · rw [hevents, List.append_assoc, List.cons_append]
            · have hcall : s.transport.establishedCall = .onReConnected :=
                if_pos (hretry (Or.inl hphase) hest)
              rw [hreports, hsome, hcall, List.cons_append, ← List.replicate_succ']
  · have hsame := hsteps.reports_of_ne_established hne
    obtain ⟨hkeep, hloses⟩ := hsteps.retryCount
    cases h with
    | never hevents hnone hest hretry =>
        refine .never ?_ (hsame.trans hnone) (fun h => hest (hsteps.established_of_ne hne h)) ?_
        · simpa [hevents] using fun heq => hne heq.symm
        · rw [List.any_append, Bool.or_eq_true, ← hretry]
          cases hfails : e.isFailedAttempt with
          | true => simpa [hfails] using hloses (loses_of_isFailedAttempt hfails)
          | false =>
              have hnotClosed : e ≠ .closed := by
                rintro rfl
                cases hsteps with
                | closed wsi _ hconn => exact hest ⟨wsi, hconn⟩
              have hquiet : loses e = false := by
                cases e with
                | closed => exact absurd rfl hnotClosed
                | _ => exact hfails
              rw [hkeep hquiet]
              simp [hfails]
    | first earlier later n hevents hfirst hstarted hsome hretry =>
        refine .first earlier (later ++ [e]) n ?_ hfirst ?_ (hsame.trans hsome) ?_
        · rw [hevents, List.append_assoc, List.cons_append]
        · exact fun hstarting => hstarted (hsteps.starting hstarting).1
        · intro hloop hest
          cases hcount : loses e with
          | true => exact hloses hcount
          | false =>
              rw [hkeep hcount]
              rcases hsteps.disconnected hinv hloop hest with
                ⟨hloop', hest'⟩ | hstarting | rfl | rfl
              · exact hretry hloop' hest'
              · exact absurd hstarting hstarted
              · exact Bool.noConfusion hcount
              · exact Bool.noConfusion hcount

theorem reported_of_run {events : List (ServiceEvent τ)}
    (hrun : Run (step lib) AnyStep {} events s) : Reported s events ∧ ReportInv s := by
  induction hrun with
  | nil =>
      refine ⟨.never List.not_mem_nil rfl ?_ (by simp), reportInv_init⟩
      rintro ⟨wsi, hwsi⟩
      exact Connection.noConfusion hwsi
  | snoc _ _ hstep ih => exact ⟨ih.1.step ih.2.connection hstep, ih.2.step hstep⟩

/-- A first connection is split off in one way. -/
theorem first_established_unique {earlier later earlier' later' : List (ServiceEvent τ)}
    (h : earlier ++ .established :: later = earlier' ++ .established :: later')
    (hfirst : .established ∉ earlier) (hfirst' : .established ∉ earlier') :
    earlier = earlier' := by
  rcases List.append_eq_append_iff.mp h with ⟨rest, rfl, hrest⟩ | ⟨rest, rfl, hrest⟩
  · cases rest with
    | nil => exact (List.append_nil earlier).symm
    | cons e rest =>
        obtain ⟨rfl, -⟩ := List.cons.inj hrest
        exact absurd (List.mem_append_right _ List.mem_cons_self) hfirst'
  · cases rest with
    | nil => exact List.append_nil earlier'
    | cons e rest =>
        obtain ⟨rfl, -⟩ := List.cons.inj hrest
        exact absurd (List.mem_append_right _ List.mem_cons_self) hfirst

/-- The first connection is reported as one and the later ones as reconnections, with
a loss between two reports, exactly when no attempt failed before the first
connection. -/
theorem toldApart_iff {events : List (ServiceEvent τ)}
    (hrun : Run (step lib) AnyStep {} events s) :
    ToldApart s.reports ∧ Separated s.calls ↔ ConnectsFirst events := by
  obtain ⟨hreported, hinv⟩ := reported_of_run hrun
  rw [and_iff_left hinv.separated]
  cases hreported with
  | never hevents hnone =>
      refine iff_of_true (Or.inl hnone) ?_
      intro before after hsplit
      exact absurd (hsplit ▸ List.mem_append_right _ List.mem_cons_self) hevents
  | first earlier later n hevents hfirst _ hreports =>
      cases hfails : earlier.any ServiceEvent.isFailedAttempt with
      | true =>
          obtain ⟨e, hmem, hfail⟩ := List.any_eq_true.mp hfails
          rw [firstReport, hfails] at hreports
          refine iff_of_false ?_ ?_
          · rintro (hnil | ⟨m, heq⟩)
            · exact List.cons_ne_nil _ _ (hreports.symm.trans hnil)
            · exact ListenerCall.noConfusion (List.cons.inj (hreports.symm.trans heq)).1
          · intro hall
            rw [hall earlier later hevents hfirst e hmem] at hfail
            exact Bool.noConfusion hfail
      | false =>
          rw [firstReport, hfails] at hreports
          refine iff_of_true (Or.inr ⟨n, hreports⟩) ?_
          intro before after hsplit hbefore e hmem
          obtain rfl := first_established_unique (hsplit.symm.trans hevents) hbefore hfirst
          simpa using List.any_eq_false.mp hfails e hmem

theorem toldApart_iff_failedAttempt :
    ∃ s, Run (step noTexts) AnyStep {} failedAttemptRun s ∧
      (ToldApart s.reports ∧ Separated s.calls ↔ ConnectsFirst failedAttemptRun) := by
  have hrun : failedAttemptRun.foldlM (step noTexts) ({} : Service ℤ) = some _ := rfl
  exact ⟨_, run_of_foldlM hrun, toldApart_iff (run_of_foldlM hrun)⟩

/-- After one failed attempt the first connection is reported as a reconnection. -/
theorem first_connection_reported_late :
    ∃ s, Run (step noTexts) AnyStep {} failedAttemptRun s ∧
      s.reports = [.onReConnected] ∧ ¬(ToldApart s.reports ∧ Separated s.calls) := by
  have hrun : failedAttemptRun.foldlM (step noTexts) ({} : Service ℤ) = some _ := rfl
  refine ⟨_, run_of_foldlM hrun, rfl, ?_⟩
  rintro ⟨hnil | ⟨n, heq⟩, -⟩
  · exact List.cons_ne_nil _ _ hnil
  · exact ListenerCall.noConfusion (List.cons.inj heq).1

end Service

end Protoo
