import Protoo.Transport.Service

/-!
# Writable callbacks and stranded messages

A message leaves `m_msgQueue` only in a `CLIENT_WRITEABLE` callback, and a
callback comes only on request.  The one place that makes the request is the
closure of `send`: the callback that takes one message does not ask for another,
and neither does `CLIENT_ESTABLISHED`.  A callback that finds two messages
therefore strands the second, and a connection established over a non-empty
queue strands all of it, until the next `send`.

`LeavesNoneBehind` is the condition on steps that excludes exactly this.
-/

namespace Protoo

open Protoo.Support

variable {τ : Type}

namespace Service

/-- A connection is established. -/
def IsEstablished (s : Service τ) : Prop :=
  ∃ wsi, s.transport.lws.connection = .established wsi

/-- A posted send has not been run yet. -/
def SendWaiting (s : Service τ) : Prop :=
  ∃ message, Task.send message ∈ s.transport.tasks

/-- With a connection established, the task queue drained and a message queued,
a writable callback is outstanding. -/
def NotStranded (s : Service τ) : Prop :=
  s.IsEstablished → s.transport.tasks = [] → s.transport.msgQueue ≠ [] →
    s.transport.lws.writableRequested = true

/-- The same without waiting for the tasks that are no sends. -/
def NotStrandedBySends (s : Service τ) : Prop :=
  s.IsEstablished → ¬ s.SendWaiting → s.transport.msgQueue ≠ [] →
    s.transport.lws.writableRequested = true

/-- A writable callback finds at most one message, and a connection is
established over an empty queue, unless a posted send is still to be run. -/
def LeavesNoneBehind (s : Service τ) : ServiceEvent τ → Prop
  | .writeable => s.transport.msgQueue.length ≤ 1 ∨ s.SendWaiting
  | .established => s.transport.msgQueue = [] ∨ s.SendWaiting
  | _ => True

/-- The stored handle is the current connection's, attempts are scheduled only
without a connection, and no message is stranded. -/
structure WritableInv (s : Service τ) : Prop where
  fresh : s.phase = .starting → s.transport.lws.connection = .none
  idle : s.transport.connectionInfo.sul = true → s.transport.lws.connection = .none
  current : ∀ wsi, s.transport.lws.connection = .connecting wsi ∨
    s.transport.lws.connection = .established wsi → s.transport.connectionInfo.wsi = some wsi
  notStranded : s.NotStrandedBySends

theorem NotStrandedBySends.notStranded {s : Service τ} (h : s.NotStrandedBySends) :
    s.NotStranded := by
  intro hest htasks hqueue
  apply h hest ?_ hqueue
  rintro ⟨message, hmem⟩
  rw [htasks] at hmem
  exact List.not_mem_nil hmem

theorem notStrandedBySends_of_connection {s : Service τ}
    (h : s.transport.lws.connection = .none) : s.NotStrandedBySends := by
  rintro ⟨wsi, hwsi⟩
  rw [h] at hwsi
  exact Connection.noConfusion hwsi

/-! ## Steps that leave no connection -/

/-- Without a connection the invariant asks for nothing else. -/
theorem writableInv_of_connection {s : Service τ}
    (h : s.transport.lws.connection = .none) : WritableInv s where
  fresh := fun _ => h
  idle := fun _ => h
  current := by
    intro wsi hwsi
    rcases hwsi with hwsi | hwsi
    · rw [h] at hwsi
      exact Connection.noConfusion hwsi
    · rw [h] at hwsi
      exact Connection.noConfusion hwsi
  notStranded := notStrandedBySends_of_connection h

theorem writableInv_init : WritableInv ({} : Service τ) :=
  writableInv_of_connection rfl

/-- Steps that touch neither the connection, the queues nor the requests. -/
theorem WritableInv.congr {s t : Service τ} (h : WritableInv s)
    (hphase : t.phase = .starting → s.phase = .starting)
    (hlws : t.transport.lws = s.transport.lws)
    (hinfo : t.transport.connectionInfo = s.transport.connectionInfo)
    (htasks : t.transport.tasks = s.transport.tasks)
    (hqueue : t.transport.msgQueue = s.transport.msgQueue) : WritableInv t where
  fresh := by
    intro ht
    rw [hlws]
    exact h.fresh (hphase ht)
  idle := by
    rw [hlws, hinfo]
    exact h.idle
  current := by
    rw [hlws, hinfo]
    exact h.current
  notStranded := by
    unfold NotStrandedBySends IsEstablished SendWaiting
    rw [hlws, htasks, hqueue]
    exact h.notStranded

theorem writableInv_loopTest {s : Service τ} (h : WritableInv s) :
    WritableInv s.loopTest := by
  unfold loopTest
  split
  · exact h.congr (by simp) rfl rfl rfl rfl
  · exact writableInv_of_connection rfl

theorem writableInv_start {s : Service τ} (h : WritableInv s)
    (hphase : s.phase = .starting) (created : Bool) : WritableInv (s.start created) := by
  have hnone : s.transport.lws.connection = .none := h.fresh hphase
  cases created with
  | true =>
      apply writableInv_loopTest
      exact writableInv_of_connection hnone
  | false => exact writableInv_of_connection hnone

theorem writableInv_connectClient {s : Service τ} (h : WritableInv s)
    (hphase : s.phase = .inService) (hsul : s.transport.connectionInfo.sul = true)
    (outcome : ConnectOutcome) : WritableInv (s.connectClient outcome) := by
  have hnone : s.transport.lws.connection = .none := h.idle hsul
  cases outcome with
  | handle =>
      refine ⟨?_, ?_, ?_, ?_⟩
      · intro hstart
        simp [connectClient, setTransport, hphase] at hstart
      · intro hsul'
        simp [connectClient, setTransport] at hsul'
      · intro wsi hwsi
        simpa [connectClient, setTransport] using hwsi
      · rintro ⟨wsi, hwsi⟩
        simp [connectClient, setTransport] at hwsi
  | null errorDelivered =>
      apply writableInv_of_connection
      cases errorDelivered with
      | true => rfl
      | false => exact hnone

/-! ## The steps that matter -/

theorem writableInv_invoke {s : Service τ} (h : WritableInv s) (task : Task τ) :
    WritableInv (s.setTransport (s.transport.invokeTask task)) where
  fresh := h.fresh
  idle := h.idle
  current := h.current
  notStranded := by
    intro hest hwaiting hqueue
    apply h.notStranded hest ?_ hqueue
    rintro ⟨message, hmem⟩
    exact hwaiting ⟨message, List.mem_append_left [task] hmem⟩

theorem writableInv_established {s : Service τ} (h : WritableInv s) {wsi : Wsi}
    (hphase : s.phase = .inService) (hconn : s.transport.lws.connection = .connecting wsi)
    (hC : LeavesNoneBehind s .established) : WritableInv (s.established wsi) where
  fresh := by
    intro hstart
    have hstart' : s.phase = .starting := hstart
    rw [hphase] at hstart'
    exact Phase.noConfusion hstart'
  idle := by
    intro hsul
    have hnone : s.transport.lws.connection = .none := h.idle hsul
    rw [hconn] at hnone
    exact Connection.noConfusion hnone
  current := by
    intro wsi' hwsi'
    have heq : wsi = wsi' := by
      simpa [established, setLws, setTransport, call] using hwsi'
    subst heq
    exact h.current wsi (Or.inl hconn)
  notStranded := by
    intro _ hwaiting hqueue
    rcases hC with hempty | hsend
    · exact absurd hempty hqueue
    · exact absurd hsend hwaiting

theorem writableInv_writeable {s : Service τ} (h : WritableInv s)
    (hphase : s.phase = .inService) (hC : LeavesNoneBehind s .writeable) :
    WritableInv s.writeable := by
  have hrest : s.writeable.transport.lws.connection = s.transport.lws.connection ∧
      s.writeable.transport.connectionInfo = s.transport.connectionInfo ∧
      s.writeable.transport.tasks = s.transport.tasks ∧
      s.writeable.transport.msgQueue = s.transport.msgQueue.tail ∧
      s.writeable.phase = s.phase := by
    unfold writeable WebSocketTransport.writeable
    cases hqueue : s.transport.msgQueue <;> simp [setLws, setTransport, hqueue]
  obtain ⟨hconn, hinfo, htasks, hqueue, hphase'⟩ := hrest
  refine ⟨?_, ?_, ?_, ?_⟩
  · intro hstart
    rw [hphase', hphase] at hstart
    exact Phase.noConfusion hstart
  · rw [hconn, hinfo]
    exact h.idle
  · rw [hconn, hinfo]
    exact h.current
  · intro _ hwaiting hne
    unfold SendWaiting at hwaiting
    rw [htasks] at hwaiting
    rcases hC with hlength | hsend
    · rw [hqueue] at hne
      have htail : s.transport.msgQueue.tail = [] := by
        apply List.eq_nil_of_length_eq_zero
        rw [List.length_tail]
        omega
      exact absurd htail hne
    · exact absurd hsend hwaiting

/-- The closures of `scheduleTask` and `cancelScheduledTask` leave everything the
invariant speaks of, and the waiting sends stay waiting. -/
theorem writableInv_drop_task {s : Service τ} (h : WritableInv s) {task : Task τ}
    {rest : List (Task τ)} {t : WebSocketTransport τ} (hphase : s.phase = .draining)
    (htasks : s.transport.tasks = task :: rest) (hnosend : ∀ message, task ≠ .send message)
    (hlws : t.lws = s.transport.lws) (hinfo : t.connectionInfo = s.transport.connectionInfo)
    (hrest : t.tasks = rest) (hqueue : t.msgQueue = s.transport.msgQueue) :
    WritableInv (s.setTransport t) where
  fresh := by
    intro hstart
    have hstart' : s.phase = .starting := hstart
    rw [hphase] at hstart'
    exact Phase.noConfusion hstart'
  idle := by
    change t.connectionInfo.sul = true → t.lws.connection = .none
    rw [hlws, hinfo]
    exact h.idle
  current := by
    change ∀ wsi, t.lws.connection = .connecting wsi ∨ t.lws.connection = .established wsi →
      t.connectionInfo.wsi = some wsi
    rw [hlws, hinfo]
    exact h.current
  notStranded := by
    rintro ⟨wsi, hwsi⟩ hwaiting hne
    change t.lws.connection = .established wsi at hwsi
    change t.msgQueue ≠ [] at hne
    change t.lws.writableRequested = true
    rw [hlws] at hwsi ⊢
    rw [hqueue] at hne
    apply h.notStranded ⟨wsi, hwsi⟩ ?_ hne
    rintro ⟨message, hmem⟩
    rw [htasks] at hmem
    rcases List.mem_cons.mp hmem with heq | hmem'
    · exact hnosend message heq.symm
    · exact hwaiting ⟨message, by simpa [setTransport, hrest] using hmem'⟩

/-- The closure of `send` requests the callback on the current connection. -/
theorem writableInv_runSend {lib : JsonLibrary} {s : Service τ} (h : WritableInv s)
    {message : Json} {rest : List (Task τ)} {t : WebSocketTransport τ}
    (hphase : s.phase = .draining)
    (hrun : ({ s.transport with tasks := rest }).runSend lib message = .ok t) :
    WritableInv (s.setTransport t) := by
  obtain ⟨msg, -, rfl⟩ := WebSocketTransport.runSend_eq_ok hrun
  cases hwsi : s.transport.connectionInfo.wsi with
  | none =>
      have hnone : s.transport.lws.connection = .none := by
        cases hconn : s.transport.lws.connection with
        | none => rfl
        | connecting wsi => simp [h.current wsi (Or.inl hconn)] at hwsi
        | established wsi => simp [h.current wsi (Or.inr hconn)] at hwsi
      apply writableInv_of_connection
      simpa [setTransport, hwsi] using hnone
  | some wsi =>
      refine ⟨?_, ?_, ?_, ?_⟩
      · intro hstart
        have hstart' : s.phase = .starting := hstart
        rw [hphase] at hstart'
        exact Phase.noConfusion hstart'
      · intro hsul
        simpa [setTransport, hwsi] using h.idle hsul
      · intro wsi' hwsi'
        apply h.current wsi'
        simpa [setTransport, hwsi] using hwsi'
      · rintro ⟨wsi', hwsi'⟩ _ _
        have hconn : s.transport.lws.connection = .established wsi' := by
          simpa [setTransport, hwsi] using hwsi'
        have hsame : wsi = wsi' := by
          have hcurrent := h.current wsi' (Or.inr hconn)
          rw [hwsi] at hcurrent
          exact Option.some.inj hcurrent
        subst hsame
        simp [setTransport, LwsContext.callbackOnWritable, hconn]

/-! ## Whole runs -/

/-- Every step that leaves no message behind keeps the invariant. -/
theorem WritableInv.step {lib : JsonLibrary} {s t : Service τ} {e : ServiceEvent τ}
    (h : WritableInv s) (hC : LeavesNoneBehind s e) (hstep : step lib s e = some t) :
    WritableInv t := by
  cases steps_of_step hstep with
  | invoke task => exact writableInv_invoke h task
  | destroy => exact h.congr id rfl rfl rfl rfl
  | start created hphase => exact writableInv_start h hphase created
  | connect outcome hphase hsul => exact writableInv_connectClient h hphase hsul outcome
  | established wsi hphase hconn => exact writableInv_established h hphase hconn hC
  | receive chunk final handled wsi hphase hconn =>
      have hframe := receive_frame lib chunk final handled s
      obtain ⟨buffer, calls, heq⟩ := hframe
      rw [heq]
      exact h.congr id rfl rfl rfl rfl
  | writeable wsi hphase => exact writableInv_writeable h hphase hC
  | peerInitiatedClose => exact h.congr id rfl rfl rfl rfl
  | closed => exact writableInv_of_connection rfl
  | connectionError => exact writableInv_of_connection rfl
  | timer => exact h.congr id rfl rfl rfl rfl
  | serviceReturn ret => exact h.congr (by simp) rfl rfl rfl rfl
  | runTask task rest t' hphase htasks hrun =>
      rcases WebSocketTransport.runTask_eq_ok hrun with
        ⟨message, msg, rfl, -, -⟩ | ⟨hnosend, closure, sul, rfl⟩
      · exact writableInv_runSend h hphase hrun
      · exact writableInv_drop_task h hphase htasks hnosend rfl rfl rfl rfl
  | loop => exact writableInv_loopTest h

/-- A step that strands nothing left none behind. -/
theorem leavesNoneBehind_of_notStranded {lib : JsonLibrary} {s t : Service τ}
    {e : ServiceEvent τ} (hstep : step lib s e = some t) (ht : t.NotStrandedBySends) :
    LeavesNoneBehind s e := by
  cases steps_of_step hstep with
  | established wsi hphase hconn =>
      by_contra hnot
      simp only [LeavesNoneBehind, not_or] at hnot
      have hrequested := ht ⟨wsi, rfl⟩ hnot.2 hnot.1
      simp [established, setLws, setTransport, call] at hrequested
  | writeable wsi hphase hconn =>
      by_contra hnot
      simp only [LeavesNoneBehind, not_or, not_le] at hnot
      obtain ⟨hlength, hwaiting⟩ := hnot
      cases hqueue : s.transport.msgQueue with
      | nil => simp [hqueue] at hlength
      | cons msg rest =>
          have hne : rest ≠ [] := by
            rintro rfl
            simp [hqueue] at hlength
          have hrequested : s.writeable.transport.lws.writableRequested = true := by
            apply ht
            · exact ⟨wsi, by simp [writeable, WebSocketTransport.writeable, setLws,
                setTransport, hqueue, hconn]⟩
            · simpa [SendWaiting, writeable, WebSocketTransport.writeable, setLws,
                setTransport, hqueue] using hwaiting
            · simpa [writeable, WebSocketTransport.writeable, setLws, setTransport,
                hqueue] using hne
          simp [writeable, WebSocketTransport.writeable, setLws, setTransport,
            hqueue] at hrequested
  | _ => trivial

/-- Over a whole run no message is stranded exactly when no step leaves one
behind.  The equivalence does not wait for posted tasks that are no sends; the
second part is the guarantee for the drained task queue. -/
theorem notStranded_iff {lib : JsonLibrary} {events : List (ServiceEvent τ)}
    {s : Service τ} (hrun : Run (step lib) AnyStep {} events s) :
    (Throughout (step lib) {} events NotStrandedBySends ↔
        Run (step lib) LeavesNoneBehind {} events s) ∧
      (Run (step lib) LeavesNoneBehind {} events s →
        Throughout (step lib) {} events NotStranded) := by
  have hiff : Throughout (step lib) {} events NotStrandedBySends ↔
      Run (step lib) LeavesNoneBehind {} events s := by
    apply hrun.throughout_iff (I := WritableInv) writableInv_init
    · exact WritableInv.notStranded
    · exact WritableInv.step
    · exact fun _ => leavesNoneBehind_of_notStranded
  refine ⟨hiff, ?_⟩
  intro hC before mid hb hmid
  exact (hiff.mpr hC before mid hb hmid).notStranded

/-- A notification and its text. -/
def notificationText : Json × String :=
  (Message.createNotification "a" .null,
    "\x7b\"data\":null,\"method\":\"a\",\"notification\":true\x7d")

/-- The JSON library on that notification. -/
def notificationLibrary : JsonLibrary :=
  JsonLibrary.ofTable [notificationText] (List.nodup_singleton _)

/-- Two notifications are sent over an established connection before the writable
callback comes. -/
def burstRun : List (ServiceEvent ℤ) :=
  [.start true, .connect .handle, .established, .invoke (.send notificationText.1),
    .invoke (.send notificationText.1), .serviceReturn 0, .runTask, .runTask, .loop,
    .writeable]

theorem notStranded_iff_burst :
    ∃ s, Run (step notificationLibrary) AnyStep {} burstRun s ∧
      (Throughout (step notificationLibrary) {} burstRun NotStrandedBySends ↔
        Run (step notificationLibrary) LeavesNoneBehind {} burstRun s) := by
  have hrun : burstRun.foldlM (step notificationLibrary) ({} : Service ℤ) = some _ := rfl
  exact ⟨_, run_of_foldlM hrun, (notStranded_iff (run_of_foldlM hrun)).1⟩

/-- After the callback the second notification is queued, nothing is requested
and no task is left to request anything. -/
theorem second_message_stranded :
    ¬ Throughout (step notificationLibrary) ({} : Service ℤ) burstRun NotStranded := by
  intro h
  have hrun : burstRun.foldlM (step notificationLibrary) ({} : Service ℤ) = some _ := rfl
  have hrequested := h.of_run (run_of_foldlM hrun) ⟨0, rfl⟩ rfl (by decide)
  exact absurd hrequested (by decide)

end Service

end Protoo
