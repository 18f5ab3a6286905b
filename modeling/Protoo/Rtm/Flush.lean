import Protoo.Rtm.System
import Protoo.Support.Record
import Protoo.Transport.Connection

/-!
# What the destructor leaves behind

`~RTM` clears `m_bRunning`, joins the worker, and destroys the peer, which sets
`m_closed` and joins the service thread.  Both threads test their flag right after
they have emptied their queue of tasks, and neither looks at the queue again: a task
posted in between is never executed.  The header calls for the service thread to
leave with no message queued, but its loop does not test `m_noMsg`, and the texts in
`m_msgQueue` are lost.

`FlushesInTime` is the condition on steps under which nothing is lost.
-/

namespace Protoo

open Protoo.Support

/-- `lws_service` returns. -/
def ClientEvent.isServiceReturn : ClientEvent → Bool
  | .service (.serviceReturn _) => true
  | _ => false

namespace Service

/-- The service thread leaves `lws_service` when the function returns. -/
theorem Steps.leaves {τ : Type} {lib : JsonLibrary} {s t : Service τ} {e : ServiceEvent τ}
    (h : Steps lib s e t) (hs : s.phase = .inService) (ht : t.phase ≠ .inService) :
    ∃ ret, e = .serviceReturn ret := by
  by_cases hlifecycle : e.isLifecycle = true
  · cases h with
    | serviceReturn ret => exact ⟨ret, rfl⟩
    | start created hphase => exact Phase.noConfusion (hphase.symm.trans hs)
    | loop hphase => exact Phase.noConfusion (hphase.symm.trans hs)
    | connect outcome =>
        obtain ⟨lws, connectionInfo, calls, heq⟩ := s.connectClient_frame outcome
        rw [heq] at ht
        exact absurd hs ht
    | established | closed | connectionError => exact absurd hs ht
    | _ => exact Bool.noConfusion hlifecycle
  · have hkeeps := h.keepsConnection (Bool.eq_false_of_not_eq_true hlifecycle)
    exact absurd (hkeeps.phase.trans hs) ht

end Service

namespace Client

theorem Steps.leaves {lib : JsonLibrary} {c c' : Client} {e : ClientEvent} (h : Steps lib c e c')
    (hc : c.phase = .inService) (hc' : c'.phase ≠ .inService) :
    ∃ ret, e = .service (.serviceReturn ret) := by
  cases h with
  | service e s hidle hown hservice =>
      obtain ⟨ret, rfl⟩ := hservice.leaves hc hc'
      exact ⟨ret, rfl⟩
  | receive chunk final handled c' hidle hphase hreceived =>
      cases hreceived with
      | buffered => exact absurd hc hc'
      | completed => exact absurd hc hc'
  | _ => exact absurd hc hc'

end Client

namespace Rtm

variable {lib : JsonLibrary} {rtm t : Rtm} {e : RtmEvent}

/-- The worker is outside its inner loop. -/
def Resting (rtm : Rtm) : Prop := rtm.phase = .outerLoop ∨ rtm.phase = .exited

/-- A step appends to the queue, or executes the first task and makes its
notification. -/
theorem Steps.queue (h : Steps lib rtm e t) :
    (∃ new, t.tasks = rtm.tasks ++ new) ∨
      ∃ task, rtm.tasks = task :: t.tasks ∧
        t.notified = rtm.notified ++ task.notification.toList := by
  cases h with
  | runTask first second task tasks t hphase htasks hran =>
      obtain ⟨hrest, calls, hcalls, hfilter⟩ := hran.calls
      refine Or.inr ⟨task, hrest ▸ htasks, ?_⟩
      rw [notified, hcalls, List.filter_append, hfilter]
      rfl
  | postedCall | directPublish | postedPublish | invokeTask | listener | peerReconnected =>
      exact Or.inl ⟨_, rfl⟩
  | _ => exact Or.inl ⟨[], (List.append_nil _).symm⟩

/-- The worker leaves the inner loop with an empty queue. -/
theorem Steps.resting (h : Steps lib rtm e t) (ht : t.Resting) :
    (rtm.Resting ∧ ∃ new, t.tasks = rtm.tasks ++ new) ∨ rtm.tasks = [] ∧ t.tasks = [] := by
  have hbusy : ∀ {rtm : Rtm}, rtm.phase ≠ .outerLoop → rtm.phase ≠ .exited → ¬rtm.Resting :=
    fun houter hexited hresting => hresting.elim houter hexited
  cases h with
  | directCall _ _ hphase | directPublish _ _ hphase =>
      refine absurd ht (hbusy ?_ ?_)
      · exact fun houter => WorkerPhase.noConfusion (hphase.symm.trans houter)
      · exact fun hexited => WorkerPhase.noConfusion (hphase.symm.trans hexited)
  | postedCall | postedPublish | invokeTask | listener | peerReconnected =>
      exact Or.inl ⟨ht, _, rfl⟩
  | stop => exact Or.inl ⟨ht, [], (List.append_nil _).symm⟩
  | drain => exact absurd ht (hbusy WorkerPhase.noConfusion WorkerPhase.noConfusion)
  | exit hphase => exact Or.inl ⟨Or.inl hphase, [], (List.append_nil _).symm⟩
  | drained hphase htasks => exact Or.inr ⟨htasks, htasks⟩
  | runTask first second task tasks t hphase htasks hran =>
      refine absurd ht (hbusy ?_ ?_)
      all_goals
        intro hrest
        cases hran with
        | operation | publish => exact WorkerPhase.noConfusion (hphase.symm.trans hrest)
        | _ => exact WorkerPhase.noConfusion hrest
  | callbackReturn | callbackThrow =>
      exact absurd ht (hbusy WorkerPhase.noConfusion WorkerPhase.noConfusion)

/-- Only the destructor clears `m_bRunning`. -/
theorem Steps.running (h : Steps lib rtm e t) (hstop : e ≠ .stop) : t.running = rtm.running := by
  cases h with
  | stop => exact absurd rfl hstop
  | runTask first second task tasks t hphase htasks hran => cases hran <;> rfl
  | _ => rfl

/-- The worker exits only when `m_bRunning` is cleared. -/
theorem Steps.exited (h : Steps lib rtm e t) (ht : t.phase = .exited) :
    rtm.phase = .exited ∨ rtm.running = false := by
  cases h with
  | exit hphase hrunning => exact Or.inr hrunning
  | drain | drained | callbackReturn | callbackThrow => exact WorkerPhase.noConfusion ht
  | runTask first second task tasks t hphase htasks hran =>
      cases hran with
      | operation | publish => exact WorkerPhase.noConfusion (hphase.symm.trans ht)
      | _ => exact WorkerPhase.noConfusion ht
  | _ => exact Or.inl ht

end Rtm

namespace RtmSystem

variable {lib : JsonLibrary} {s t : RtmSystem} {e : SystemEvent}

/-! ## Tasks accepted and executed -/

/-- The tasks that a step puts into the worker's queue. -/
def posts (s t : RtmSystem) : List RtmTask := t.rtm.tasks.drop s.rtm.tasks.length

/-- The task that a step takes out of it to execute. -/
def executes (s t : RtmSystem) : List RtmTask :=
  s.rtm.tasks.take (s.rtm.tasks.length - t.rtm.tasks.length)

/-- The tasks posted before the destructor is called. -/
def acceptedBy (s : RtmSystem) (_ : SystemEvent) (t : RtmSystem) : List RtmTask :=
  if s.destructor = .notCalled then posts s t else []

def executedBy (s : RtmSystem) (_ : SystemEvent) (t : RtmSystem) : List RtmTask := executes s t

/-- The tasks accepted in a run, in the order of their posting. -/
def accepted (lib : JsonLibrary) (start : RtmSystem) (events : List SystemEvent) : List RtmTask :=
  record (step lib) acceptedBy start events

/-- The tasks executed in a run, in its order. -/
def executed (lib : JsonLibrary) (start : RtmSystem) (events : List SystemEvent) : List RtmTask :=
  record (step lib) executedBy start events

/-- The messages of the publishes among the tasks. -/
def publishMessages (tasks : List RtmTask) : List Json :=
  (tasks.filterMap RtmTask.notification).filterMap PeerCall.message

theorem executes_of_append {new : List RtmTask} (h : t.rtm.tasks = s.rtm.tasks ++ new) :
    posts s t = new ∧ executes s t = [] := by
  constructor
  · rw [posts, h, List.drop_left]
  · rw [executes, h, List.length_append, Nat.sub_eq_zero_of_le (Nat.le_add_right _ _)]
    rfl

theorem executes_of_cons {task : RtmTask} (h : s.rtm.tasks = task :: t.rtm.tasks) :
    posts s t = [] ∧ executes s t = [task] := by
  constructor
  · rw [posts, h]
    exact List.drop_eq_nil_of_le (Nat.le_succ _)
  · rw [executes, h, List.length_cons, Nat.add_sub_cancel_left]
    rfl

/-- A step appends to the worker's queue, or it executes the first task and makes its
notification. -/
theorem Steps.queue (h : Steps lib s e t) :
    (t.rtm.tasks = s.rtm.tasks ++ posts s t ∧ executes s t = []) ∨
      ∃ task, s.rtm.tasks = task :: t.rtm.tasks ∧ posts s t = [] ∧ executes s t = [task] ∧
        notifications s.rtm t.rtm = task.notification.toList := by
  have happend : ∀ {new}, t.rtm.tasks = s.rtm.tasks ++ new →
      t.rtm.tasks = s.rtm.tasks ++ posts s t ∧ executes s t = [] := by
    intro new hnew
    obtain ⟨hposts, hexecutes⟩ := executes_of_append hnew
    exact ⟨hnew.trans (congrArg (s.rtm.tasks ++ ·) hposts.symm), hexecutes⟩
  by_cases hstop : e = .stop
  · subst hstop
    cases h with
    | stop => exact Or.inl (happend (List.append_nil _).symm)
  · rcases h.moved hstop with ⟨new, hnew⟩ | ⟨e', -, hrtm⟩
    · exact Or.inl (happend (congrArg Rtm.tasks hnew))
    · rcases hrtm.queue with ⟨new, hnew⟩ | ⟨task, htasks, hnotified⟩
      · exact Or.inl (happend hnew)
      · obtain ⟨hposts, hexecutes⟩ := executes_of_cons htasks
        refine Or.inr ⟨task, htasks, hposts, hexecutes, ?_⟩
        rw [notifications, hnotified, List.drop_left]

/-- A step posts what it appends, and executes what it takes. -/
theorem Steps.balance (h : Steps lib s e t) :
    s.rtm.tasks ++ posts s t = executes s t ++ t.rtm.tasks := by
  rcases h.queue with ⟨htasks, hexecutes⟩ | ⟨task, htasks, hposts, hexecutes, -⟩
  · rw [hexecutes, htasks]
    rfl
  · rw [hexecutes, hposts, htasks, List.append_nil]
    rfl

/-! ## The condition -/

/-- When `~RTM` begins, the worker is not past the emptying of its queue with a task
posted since; when `m_closed` is set, the service thread is still in `lws_service`
unless nothing is queued; and when `lws_service` then returns, nothing is queued. -/
def FlushesInTime (s : RtmSystem) : SystemEvent → Prop
  | .stop => s.rtm.phase = .outerLoop → s.rtm.tasks = []
  | .destroyPeer => s.client.phase ≠ .inService → s.client.NothingQueued
  | .client e =>
      e.isServiceReturn = true → s.destructor = .resetting → s.client.NothingQueued
  | _ => True

instance (s : RtmSystem) : (e : SystemEvent) → Decidable (FlushesInTime s e)
  | .stop => inferInstanceAs (Decidable (s.rtm.phase = .outerLoop → s.rtm.tasks = []))
  | .destroyPeer =>
      inferInstanceAs (Decidable (s.client.phase ≠ .inService → s.client.NothingQueued))
  | .client e => inferInstanceAs (Decidable
      (e.isServiceReturn = true → s.destructor = .resetting → s.client.NothingQueued))
  | .install => isTrue trivial
  | .rtm _ => isTrue trivial
  | .request _ _ => isTrue trivial
  | .postTimeout => isTrue trivial
  | .postSend => isTrue trivial
  | .reply _ => isTrue trivial
  | .destroyed => isTrue trivial

/-- The destructor has set `m_closed`. -/
def Closed (s : RtmSystem) : Prop := s.destructor = .resetting ∨ s.destructor = .returned

/-- What the destructor owes the accepted tasks: they are executed before the worker
exits, the service thread leaves its loop with nothing queued, and at the end the
messages of the accepted publishes have been written. -/
structure Flushed (lib : JsonLibrary) (start : RtmSystem) (events : List SystemEvent)
    (s : RtmSystem) : Prop where
  worker : s.rtm.phase = .exited → accepted lib start events <+: executed lib start events
  service : s.Closed → s.client.phase = .exited → s.client.NothingQueued
  written : s.destructor = .returned →
    ((publishMessages (accepted lib start events)).map lib.dump).Sublist
      (s.client.written.map .ok)

/-! ## The worker -/

/-- Whether the accepted tasks have been executed. -/
structure WorkerInv (accepted executed : List RtmTask) (s : RtmSystem) : Prop where
  running : s.rtm.running = true ↔ s.destructor = .notCalled
  exited : s.rtm.phase = .exited → s.destructor ≠ .notCalled
  posted : s.destructor = .notCalled → accepted = executed ++ s.rtm.tasks
  inOrder : accepted <+: executed ++ s.rtm.tasks
  drained : s.destructor ≠ .notCalled → s.rtm.Resting → accepted <+: executed

theorem Steps.destructor (h : Steps lib s e t) (hstop : e ≠ .stop) :
    t.destructor = .notCalled ↔ s.destructor = .notCalled := by
  cases h with
  | stop => exact absurd rfl hstop
  | destroyPeer hdestructor | destroyed hdestructor =>
      rw [hdestructor]
      exact iff_of_false DestructorProgress.noConfusion DestructorProgress.noConfusion
  | _ => exact Iff.rfl

/-- The worker is outside its inner loop after a step that executes nothing, and was
there before, or the queue is empty. -/
theorem Steps.resting (h : Steps lib s e t) (hstop : e ≠ .stop) (ht : t.rtm.Resting) :
    (s.rtm.Resting ∨ s.rtm.tasks = []) ∧ executes s t = [] := by
  rcases h.moved hstop with ⟨new, hnew⟩ | ⟨e', -, hrtm⟩
  · rw [hnew] at ht
    exact ⟨Or.inl ht, (executes_of_append (congrArg Rtm.tasks hnew)).2⟩
  · rcases hrtm.resting ht with ⟨hs, new, hnew⟩ | ⟨hs, -⟩
    · exact ⟨Or.inl hs, (executes_of_append hnew).2⟩
    · refine ⟨Or.inr hs, ?_⟩
      rw [executes, hs]
      exact List.take_nil

theorem Steps.running (h : Steps lib s e t) (hstop : e ≠ .stop) :
    t.rtm.running = s.rtm.running := by
  rcases h.moved hstop with ⟨new, hnew⟩ | ⟨e', hstop', hrtm⟩
  · rw [hnew]
  · exact hrtm.running hstop'

theorem Steps.exited (h : Steps lib s e t) (hstop : e ≠ .stop) (ht : t.rtm.phase = .exited) :
    s.rtm.phase = .exited ∨ s.rtm.running = false := by
  rcases h.moved hstop with ⟨new, hnew⟩ | ⟨e', -, hrtm⟩
  · rw [hnew] at ht
    exact Or.inl ht
  · exact hrtm.exited ht

/-- The destructor clears `m_bRunning` outside the inner loop over an empty queue only. -/
theorem WorkerInv.stop {accepted executed : List RtmTask} (h : WorkerInv accepted executed s)
    (hC : FlushesInTime s .stop) (hsteps : Steps lib s .stop t) :
    WorkerInv accepted executed t := by
  cases hsteps with
  | stop hdestructor =>
      have hall := h.posted hdestructor
      refine ⟨iff_of_false Bool.noConfusion DestructorProgress.noConfusion,
        fun _ => DestructorProgress.noConfusion, DestructorProgress.noConfusion, h.inOrder, ?_⟩
      intro _ hresting
      rcases hresting with houter | hexited
      · rw [hall, hC houter, List.append_nil]
      · exact absurd hdestructor (h.exited hexited)

theorem WorkerInv.step {accepted executed : List RtmTask} (h : WorkerInv accepted executed s)
    (hC : FlushesInTime s e) (hsteps : Steps lib s e t) :
    WorkerInv (accepted ++ acceptedBy s e t) (executed ++ executedBy s e t) t := by
  by_cases hstop : e = .stop
  · subst hstop
    have hsame : t.rtm.tasks = s.rtm.tasks ++ [] := by
      cases hsteps
      exact (List.append_nil _).symm
    obtain ⟨hposts, hexecutes⟩ := executes_of_append hsame
    rw [acceptedBy, executedBy, hposts, hexecutes, ite_self, List.append_nil, List.append_nil]
    exact h.stop hC hsteps
  · have hcalled := hsteps.destructor hstop
    have hbalance : executed ++ s.rtm.tasks ++ posts s t =
        executed ++ executes s t ++ t.rtm.tasks := by
      rw [List.append_assoc, hsteps.balance, List.append_assoc]
    have hnone : s.destructor ≠ .notCalled → accepted ++ acceptedBy s e t = accepted := by
      intro hs
      rw [acceptedBy, if_neg hs, List.append_nil]
    have hposted : s.destructor = .notCalled →
        accepted ++ acceptedBy s e t = executed ++ executedBy s e t ++ t.rtm.tasks := by
      intro hs
      rw [acceptedBy, if_pos hs, h.posted hs]
      exact hbalance
    refine ⟨?_, ?_, fun ht => hposted (hcalled.mp ht), ?_, ?_⟩
    · rw [hsteps.running hstop, hcalled]
      exact h.running
    · intro ht hnot
      have hs := hcalled.mp hnot
      rcases hsteps.exited hstop ht with hexited | hstopped
      · exact h.exited hexited hs
      · exact Bool.noConfusion (hstopped.symm.trans (h.running.mpr hs))
    · by_cases hs : s.destructor = .notCalled
      · rw [hposted hs]
      · rw [hnone hs, executedBy, ← hbalance]
        exact h.inOrder.trans (List.prefix_append _ _)
    · intro ht hresting
      have hs : s.destructor ≠ .notCalled := fun hs => ht (hcalled.mpr hs)
      obtain ⟨hbefore, hexecutes⟩ := hsteps.resting hstop hresting
      rw [hnone hs, executedBy, hexecutes, List.append_nil]
      rcases hbefore with hbefore | hempty
      · exact h.drained hs hbefore
      · have hinOrder := h.inOrder
        rw [hempty, List.append_nil] at hinOrder
        exact hinOrder

/-! ## The service thread -/

/-- The worker's exit and the client's queues after `m_closed` is set. -/
structure ServiceInv (lib : JsonLibrary) (executed : List RtmTask) (s : RtmSystem) : Prop where
  request : RequestInv s
  exited : s.Closed → s.rtm.phase = .exited
  sent : ((publishMessages executed).map lib.dump).Sublist (s.client.pipeline lib)
  queued : s.Closed → s.client.phase ≠ .inService → s.client.NothingQueued
  returned : s.destructor = .returned → s.client.phase ≠ .inService

theorem Steps.leaves (h : Steps lib s e t) (hs : s.client.phase = .inService)
    (ht : t.client.phase ≠ .inService) :
    ∃ ret, e = .client (.service (.serviceReturn ret)) := by
  cases h with
  | client e client front he hclient =>
      obtain ⟨ret, rfl⟩ := hclient.leaves hs ht
      exact ⟨ret, rfl⟩
  | request operation draw method data client hnone hmay hcall hclient =>
      obtain ⟨ret, he⟩ := hclient.leaves hs ht
      exact ClientEvent.noConfusion he
  | postTimeout client hclient | postSend client hclient =>
      obtain ⟨ret, he⟩ := hclient.leaves hs ht
      exact ClientEvent.noConfusion he
  | rtm e rtm | called _ _ _ _ rtm | executed _ _ _ _ _ rtm =>
      exact absurd ((phase_carryOut _ rtm).trans hs) ht
  | _ => exact absurd hs ht

/-- After the worker's exit nothing but its queue changes. -/
theorem Steps.after_exit (h : Steps lib s e t) (hs : s.rtm.phase = .exited) :
    t.rtm.phase = .exited ∧ t.rtm.calls = s.rtm.calls := by
  by_cases hstop : e = .stop
  · subst hstop
    cases h
    exact ⟨hs, rfl⟩
  · rcases h.moved hstop with ⟨new, hnew⟩ | ⟨e', -, hrtm⟩
    · rw [hnew]
      exact ⟨hs, rfl⟩
    · have hothers : e'.isOfWorker = false := by
        apply Bool.eq_false_of_not_eq_true
        intro hworker
        have hrunning := hrtm.isRunning_of_worker hworker
        rw [hs] at hrunning
        exact Bool.noConfusion hrunning
      obtain ⟨hphase, hcalls, -⟩ := hrtm.of_others hothers
      exact ⟨hphase.trans hs, hcalls⟩

/-- And nothing is sent. -/
theorem Steps.pipeline_after_exit (h : Steps lib s e t) (hinv : RequestInv s)
    (hs : s.rtm.phase = .exited) : t.client.pipeline lib = s.client.pipeline lib := by
  have hnone : s.sends e t = [] := by
    by_cases hsend : e = .postSend
    · subst hsend
      have hidle : s.client.requests = [] := by
        apply hinv.idle
        by_contra hsome
        rcases hinv.busy hsome with hphase | hphase
        · exact WorkerPhase.noConfusion (hphase.symm.trans hs)
        · exact WorkerPhase.noConfusion (hphase.symm.trans hs)
      simp [sends, hidle]
    · exact sends_of_calls hsend (h.after_exit hs).2
  rw [h.pipeline, hnone]
  exact List.append_nil _

/-- A publish that is executed is sent. -/
theorem Steps.publishMessages_executes (h : Steps lib s e t) :
    (publishMessages (executes s t)).Sublist (s.sends e t) := by
  rcases h.queue with ⟨-, hexecutes⟩ | ⟨task, htasks, -, hexecutes, hnotified⟩
  · rw [hexecutes]
    exact List.nil_sublist _
  · have hsend : e ≠ .postSend := by
      rintro rfl
      cases h
      exact absurd (congrArg List.length htasks) (Nat.ne_of_lt (Nat.lt_succ_self _))
    rw [sends_of_ne hsend, hexecutes, hnotified, publishMessages]
    cases hnotification : task.notification <;> simp [hnotification]

/-- `m_closed` is set by the destructor after the worker's exit. -/
theorem Steps.closed (h : Steps lib s e t) (ht : t.Closed) : s.Closed ∨ e = .destroyPeer := by
  cases h with
  | destroyPeer => exact Or.inr rfl
  | destroyed hdestructor => exact Or.inl (Or.inl hdestructor)
  | stop => exact ht.elim DestructorProgress.noConfusion DestructorProgress.noConfusion
  | _ => exact Or.inl ht

theorem publishMessages_append (tasks more : List RtmTask) :
    publishMessages (tasks ++ more) = publishMessages tasks ++ publishMessages more := by
  rw [publishMessages, List.filterMap_append, List.filterMap_append]
  rfl

/-- Once `m_closed` is set, the service thread leaves `lws_service` with nothing
queued. -/
theorem ServiceInv.queued_step {executed : List RtmTask} (h : ServiceInv lib executed s)
    (hC : FlushesInTime s e) (hover : ¬s.IsOver) (hsteps : Steps lib s e t) (ht : t.Closed)
    (hphase : t.client.phase ≠ .inService) : t.client.NothingQueued := by
  rcases hsteps.closed ht with hs | rfl
  · have hqueued : s.client.NothingQueued := by
      by_cases hservice : s.client.phase = .inService
      · obtain ⟨ret, rfl⟩ := hsteps.leaves hservice hphase
        exact hC rfl (hs.resolve_right fun hreturned => hover (Or.inr hreturned))
      · exact h.queued hs hservice
    exact hqueued.of_pipeline (hsteps.pipeline_after_exit h.request (h.exited hs))
      hsteps.written_mono
  · cases hsteps with
    | destroyPeer => exact hC hphase

theorem ServiceInv.step {executed : List RtmTask} (h : ServiceInv lib executed s)
    (hC : FlushesInTime s e) (hstep : step lib s e = some t) :
    ServiceInv lib (executed ++ executedBy s e t) t := by
  obtain ⟨hover, hsteps⟩ := steps_of_step hstep
  refine ⟨h.request.step hsteps, ?_, ?_, h.queued_step hC hover hsteps, ?_⟩
  · intro ht
    rcases hsteps.closed ht with hs | rfl
    · exact (hsteps.after_exit (h.exited hs)).1
    · cases hsteps with
      | destroyPeer _ hexited => exact hexited
  · rw [hsteps.pipeline, publishMessages_append, List.map_append]
    exact h.sent.append (hsteps.publishMessages_executes.map lib.dump)
  · intro ht
    cases hsteps with
    | destroyed hdestructor hphase =>
        intro hservice
        change s.client.phase = .inService at hservice
        rw [hservice] at hphase
        exact hphase.elim Phase.noConfusion Phase.noConfusion
    | stop | destroyPeer => exact DestructorProgress.noConfusion ht
    | _ => exact absurd (Or.inr ht) hover

/-! ## Whole runs -/

theorem inv_of_flushesInTime {appId userId : String} {config : RtmConfig}
    {events : List SystemEvent}
    (hrun : Run (step lib) FlushesInTime (start appId userId config) events s) :
    WorkerInv (accepted lib (start appId userId config) events)
        (executed lib (start appId userId config) events) s ∧
      ServiceInv lib (executed lib (start appId userId config) events) s := by
  induction hrun with
  | nil =>
      constructor
      · exact ⟨iff_of_true rfl rfl, WorkerPhase.noConfusion, fun _ => rfl, List.prefix_refl _,
          fun _ _ => List.prefix_refl _⟩
      · refine ⟨requestInv_start appId userId config, ?_, List.nil_sublist _, ?_, ?_⟩
        · exact fun h => h.elim DestructorProgress.noConfusion DestructorProgress.noConfusion
        · exact fun h => h.elim DestructorProgress.noConfusion DestructorProgress.noConfusion
        · exact DestructorProgress.noConfusion
  | snoc hprev hC hstep ih =>
      rw [accepted, executed, hprev.record_snoc hstep, hprev.record_snoc hstep]
      exact ⟨ih.1.step hC (steps_of_step hstep).2, ih.2.step hC hstep⟩

/-- A run that flushes in time loses nothing that was accepted before the destructor. -/
theorem flushed_of_flushesInTime {appId userId : String} {config : RtmConfig}
    {events : List SystemEvent}
    (hrun : Run (step lib) FlushesInTime (start appId userId config) events s) :
    Flushed lib (start appId userId config) events s := by
  obtain ⟨hworker, hservice⟩ := inv_of_flushesInTime hrun
  have hexecuted : s.rtm.phase = .exited → accepted lib (start appId userId config) events <+:
      executed lib (start appId userId config) events :=
    fun hexited => hworker.drained (hworker.exited hexited) (Or.inr hexited)
  refine ⟨hexecuted, ?_, ?_⟩
  · intro hclosed hphase
    apply hservice.queued hclosed
    rw [hphase]
    exact Phase.noConfusion
  · intro hreturned
    have hclosed : s.Closed := Or.inr hreturned
    obtain ⟨later, hlater⟩ := hexecuted (hservice.exited hclosed)
    have hqueued := hservice.queued hclosed (hservice.returned hreturned)
    have hsent := hservice.sent
    rw [hqueued.pipeline, ← hlater, publishMessages_append, List.map_append] at hsent
    exact (List.sublist_append_left _ _).trans hsent

/-- A publish and its text. -/
def publishText : Json × String :=
  (Message.createNotification "channelMsgText" (Rtm.publishData "a" "hello"),
    "\x7b\"data\":\x7b\"channelId\":\"a\",\"msg\":\"hello\"\x7d," ++
      "\"method\":\"channelMsgText\",\"notification\":true\x7d")

/-- The JSON library on that publish. -/
def publishLibrary : JsonLibrary := JsonLibrary.ofTable [publishText] (List.nodup_singleton _)

/-- The connection is established, and the worker has told the listener. -/
def connectedRun : List SystemEvent :=
  (connectOrder.map fun _ => .install) ++
    [.client (.service (.start true)), .client (.service (.connect .handle)),
      .client (.service .established), .rtm .test,
      .rtm (.runTask ⟨.ok .null, 0⟩ ⟨.ok .null, 0⟩), .rtm .callbackReturn, .rtm .test]

/-- The main thread publishes, and the worker executes the task. -/
def publishRun : List SystemEvent :=
  [.rtm (.publish (.other 0) "a" "hello"), .rtm .test,
    .rtm (.runTask ⟨.ok .null, 0⟩ ⟨.ok .null, 0⟩), .rtm .test]

/-- The service thread writes the text, and then the client is destroyed. -/
def flushedRun : List SystemEvent :=
  connectedRun ++ publishRun ++
    [.client (.service (.serviceReturn 0)), .client (.service .runTask),
      .client (.service .loop), .client (.service .writeable), .stop, .rtm .test, .destroyPeer,
      .client (.service (.serviceReturn 0)), .client (.service .loop), .destroyed]

theorem flushed_of_flushesInTime_publish :
    ∃ s, Run (step publishLibrary) FlushesInTime (start "" "" {}) flushedRun s ∧
      s.destructor = .returned ∧ s.client.written = [publishText.2] ∧
      Flushed publishLibrary (start "" "" {}) flushedRun s := by
  have hrun : Run (step publishLibrary) FlushesInTime (start "" "" {}) flushedRun _ :=
    run_of_guarded_foldlM rfl
  exact ⟨_, hrun, rfl, rfl, flushed_of_flushesInTime hrun⟩

/-- The main thread publishes twice and destroys the client: the worker has not seen the
second publish, and the service thread has not written the first. -/
def lostRun : List SystemEvent :=
  connectedRun ++ publishRun ++
    [.rtm (.publish (.other 0) "a" "hello"), .stop, .rtm .test, .destroyPeer,
      .client (.service (.serviceReturn 0)), .client (.service .runTask)]

/-- Both are lost, although the connection is established to the end. -/
theorem accepted_publishes_lost :
    ∃ mid s, Run (step publishLibrary) AnyStep (start "" "" {}) lostRun mid ∧
      mid.client.peer.transport.lws.connection = .established 0 ∧
      Run (step publishLibrary) AnyStep mid [.client (.service .loop), .destroyed] s ∧
      s.destructor = .returned ∧ s.client.written = [] ∧
      s.rtm.tasks = [.publish "a" "hello"] ∧
      s.client.peer.transport.msgQueue = [publishText.2] ∧
      ¬Flushed publishLibrary (start "" "" {})
        (lostRun ++ [.client (.service .loop), .destroyed]) s := by
  obtain ⟨mid, s, hmid, hconnection, hrun, hdestructor, hwritten, htasks, hqueue, haccepted⟩ :
      ∃ mid s, lostRun.foldlM (step publishLibrary) (start "" "" {}) = some mid ∧
        mid.client.peer.transport.lws.connection = .established 0 ∧
        [.client (.service .loop), .destroyed].foldlM (step publishLibrary) mid = some s ∧
        s.destructor = .returned ∧ s.client.written = [] ∧
        s.rtm.tasks = [.publish "a" "hello"] ∧
        s.client.peer.transport.msgQueue = [publishText.2] ∧
        publishMessages (accepted publishLibrary (start "" "" {})
          (lostRun ++ [.client (.service .loop), .destroyed])) =
            [publishText.1, publishText.1] :=
    ⟨_, _, rfl, rfl, rfl, rfl, rfl, rfl, rfl, rfl⟩
  refine ⟨mid, s, run_of_foldlM hmid, hconnection, run_of_foldlM hrun, hdestructor, hwritten,
    htasks, hqueue, ?_⟩
  intro h
  have hsublist := h.written hdestructor
  rw [haccepted, hwritten] at hsublist
  exact absurd (List.sublist_nil.mp hsublist) (List.cons_ne_nil _ _)

end RtmSystem

end Protoo
