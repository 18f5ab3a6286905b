import Protoo.Utils.MessageQueue

/-!
# What the message queue sleeps on

`Run` chooses its wait from `m_delayedTasks` before it looks at `m_tasks`, tests
`m_stop` before it takes the lock, and does not test either again when it blocks.  So
it can block although an immediate task is queued, when a delayed task that is not due
is queued as well, and although the queue has been stopped, when that happened after
the test.  Whoever posted or stopped wakes it up again if the notification is still to
come; otherwise it sleeps until the delayed task is due, or until another call.

`BlocksIdle` excludes exactly this, by what the inspection finds and what has come between
the test and the lock.  Since `Run` holds the mutex from the inspection until it blocks,
only notifications can come in between, and these are lost.
-/

namespace Protoo

open Protoo.Support

namespace MessageQueue

variable {τ : Type} {q q' : MessageQueue τ} {e : MessageQueueEvent τ}

/-- `Run` is not blocked, without a notification to come, on an immediate task or on a
stop. -/
def NeverSleepsOnWork (q : MessageQueue τ) : Prop :=
  q.runner.isParked = true → ¬ q.monitor.Owes → q.tasks = [] ∧ q.stop = false

/-- An inspection of the queues chooses one of the waits: no delayed task is due, and without
one there is no immediate task either. -/
structure ChoosesWait (q : MessageQueue τ) : Prop where
  idle : q.delayedTasks = [] → q.tasks = []
  early : ∀ message ∈ q.delayedTasks, q.now < message.executeTime

/-- A `Stop` has set `m_stop` after `Run` had tested it and before `Run` got the lock. -/
def StoppedAfterTest (now : ℤ) (events : List (MessageQueueEvent τ)) : Prop :=
  ∃ before n after q, events = before ++ .work n :: after ∧
    Run step AnyStep (start now) before q ∧ q.runner = .locking ∧
      q.monitor.callers n = .inside .stop

/-- Whenever `Run` chooses a wait and goes on to block, its inspection has found no immediate
task and no `Stop` has come between the test and the lock, or else some thread that has
posted or stopped by then has still to notify when `Run` blocks. -/
def BlocksIdle (now : ℤ) (events : List (MessageQueueEvent τ)) : Prop :=
  ∀ before i between after q, events = before ++ .inspect i :: (between ++ .runner :: after) →
    Run step AnyStep (start now) before q → q.ChoosesWait → .runner ∉ between →
      (q.tasks = [] ∧ ¬StoppedAfterTest now before) ∨
        ∃ n, (q.monitor.callers n).owes = true ∧ .caller n .notify ∉ between

/-- `Run` blocks only if there is no immediate task and no stop, or else some thread that has
posted or stopped has still to notify. -/
def WaitsSafely (q : MessageQueue τ) (e : MessageQueueEvent τ) : Prop :=
  ∀ deadline, e = .runner → q.runner = .waiting deadline →
    (q.tasks = [] ∧ q.stop = false) ∨ q.monitor.Owes

/-! ## The blocks -/

theorem neverSleepsOnWork_start (now : ℤ) : NeverSleepsOnWork (start now : MessageQueue τ) := by
  intro hparked
  simp [start, RunPosition.isParked] at hparked

theorem neverSleepsOnWork_of_not_parked (h : q.runner.isParked = false) :
    NeverSleepsOnWork q := by
  intro hparked
  rw [h] at hparked
  simp at hparked

/-- A step of a caller before its notification leaves `Run` where it is and settles
nothing. -/
theorem NeverSleepsOnWork.caller (h : NeverSleepsOnWork q) {n : ℕ}
    {e : CallerEvent (MessageQueueCall τ)} {monitor : Monitor (MessageQueueCall τ)}
    (hmonitor : q.monitor.Steps n e monitor) :
    NeverSleepsOnWork { q with monitor, runner := q.runnerAfter e } := by
  by_cases hnotify : e = .notify
  · subst hnotify
    exact neverSleepsOnWork_of_not_parked (RunPosition.isParked_notified q.runner)
  · have hrunner : q.runnerAfter e = q.runner := by
      cases e <;> first | rfl | exact absurd rfl hnotify
    rw [hrunner]
    intro hparked howes
    exact h hparked (fun howed => howes (howed.steps hmonitor hnotify))

/-- Nor does a caller that moves on inside its work. -/
theorem NeverSleepsOnWork.move (h : NeverSleepsOnWork q) {n : ℕ}
    {op op' : MessageQueueCall τ} (hposition : q.monitor.callers n = .inside op) :
    NeverSleepsOnWork { q with monitor := q.monitor.move n (.inside op') } := by
  intro hparked howes
  apply h hparked
  intro howed
  exact howes (howed.move (by simp [hposition, CallerPosition.owes]))

/-- The only step after which `Run` may sleep on work is the one that blocks; whoever
brings work owes the notification. -/
theorem NeverSleepsOnWork.step (h : NeverSleepsOnWork q) (hsafe : WaitsSafely q e)
    (hstep : step q e = some q') : NeverSleepsOnWork q' := by
  cases steps_of_step hstep with
  | caller n e monitor hopens hmonitor => exact h.caller hmonitor
  | readPost n task hposition | readDelayed n task delayMs hposition => exact h.move hposition
  | push | pushDelayed | stop =>
      intro _ howes
      exact absurd (Monitor.owes_move rfl) howes
  | tick d => exact h
  | park deadline hrunner =>
      intro _ howes
      rcases hsafe deadline rfl hrunner with hnothing | howed
      · exact hnothing
      · exact absurd howed howes
  | _ => exact neverSleepsOnWork_of_not_parked rfl

/-- A step that blocks and leaves `Run` on no work was safe. -/
theorem waitsSafely_of_neverSleepsOnWork (hstep : step q e = some q')
    (h : NeverSleepsOnWork q') : WaitsSafely q e := by
  rintro deadline rfl hrunner
  simp only [MessageQueue.step, runStep, hrunner, Option.some.injEq] at hstep
  subst hstep
  by_cases howes : q.monitor.Owes
  · exact Or.inr howes
  · exact Or.inl (h rfl howes)

/-! ## The stop flag at an inspection -/

theorem stop_of_step (hstep : step q e = some q') (h : q.stop = true) : q'.stop = true := by
  cases steps_of_step hstep with
  | stop => rfl
  | _ => exact h

theorem StoppedAfterTest.concat {now : ℤ} {events : List (MessageQueueEvent τ)}
    (h : StoppedAfterTest now events) : StoppedAfterTest now (events ++ [e]) := by
  obtain ⟨before, n, after, q, rfl, hbefore, hrunner, hposition⟩ := h
  exact ⟨before, n, after ++ [e], q, by simp, hbefore, hrunner, hposition⟩

/-- The lock is held from the inspection on, so a stop has come before it. -/
theorem stoppedAfterTest_of_stop {now : ℤ} {events : List (MessageQueueEvent τ)}
    (hrun : Run step AnyStep (start now) events q)
    (hrunner : q.runner = .locking ∨ q.runner = .inspecting) (hstop : q.stop = true) :
    StoppedAfterTest now events := by
  induction hrun with
  | nil => exact absurd hstop Bool.false_ne_true
  | @snoc events q q' e hprev _ hstep ih =>
      cases steps_of_step hstep with
      | caller n e monitor =>
          have hsame : q.runner = .locking ∨ q.runner = .inspecting := by
            cases e with
            | notify =>
                cases hposition : q.runner <;>
                  simp_all [runnerAfter, RunPosition.notified]
            | _ => exact hrunner
          exact (ih hsame hstop).concat
      | stop n hposition =>
          rcases hrunner with hlocking | hinspecting
          · exact ⟨events, n, [], q, rfl, hprev, hlocking, hposition⟩
          · have hfree := (locked_of_run hprev).eq_false_of_inside hposition
            simp [RunPosition.holds, show q.runner = .inspecting from hinspecting] at hfree
      | readPost | readDelayed | push | pushDelayed | tick => exact (ih hrunner hstop).concat
      | loop htest hno => exact absurd (hno.symm.trans hstop) Bool.false_ne_true
      | lock hlocking => exact (ih (Or.inl hlocking) hstop).concat
      | _ => rcases hrunner with hrunner | hrunner <;> cases hrunner

/-- `m_stop` is set at an inspection exactly if a `Stop` has come between the test and the
lock. -/
theorem stop_iff_stoppedAfterTest {now : ℤ} {events : List (MessageQueueEvent τ)}
    (hrun : Run step AnyStep (start now) events q) (hrunner : q.runner = .inspecting) :
    q.stop = true ↔ StoppedAfterTest now events := by
  constructor
  · exact stoppedAfterTest_of_stop hrun (Or.inr hrunner)
  · rintro ⟨before, n, after, p, rfl, hbefore, -, hposition⟩
    obtain ⟨p', hbefore', hrest⟩ := hrun.split
    obtain rfl := hbefore.unique hbefore'
    obtain ⟨stopped, hwork, hafter⟩ := hrest.uncons
    simp only [MessageQueue.step, work, hposition, Option.some.injEq] at hwork
    subst hwork
    exact hafter.invariant (I := fun q => q.stop = true) rfl
      fun h _ hstep => stop_of_step hstep h

/-! ## From the inspection to the block -/

/-- Either the inspection chooses a wait, and changes nothing else, or it does not. -/
theorem inspect_cases {i : ℕ} (hstep : step q (.inspect i) = some q') :
    q.runner = .inspecting ∧
      ((q.ChoosesWait ∧ ∃ deadline, q' = { q with runner := .waiting deadline }) ∨
        (¬q.ChoosesWait ∧ ∀ deadline, q'.runner ≠ .waiting deadline)) := by
  cases steps_of_step hstep with
  | waitIdle _ hrunner hdelayed htasks =>
      refine ⟨hrunner, Or.inl ⟨⟨fun _ => htasks, ?_⟩, none, rfl⟩⟩
      simp [hdelayed]
  | skip _ hrunner hdelayed htasks =>
      refine ⟨hrunner, Or.inr ⟨fun h => htasks (h.idle hdelayed), ?_⟩⟩
      simp
  | pop _ next hrunner hnext htop hdue =>
      refine ⟨hrunner, Or.inr ⟨fun h => ?_, by simp⟩⟩
      have hearly := h.early next (List.mem_of_getElem? hnext)
      omega
  | waitUntil _ next hrunner hnext htop hdue =>
      refine ⟨hrunner, Or.inl ⟨⟨fun hnone => ?_, fun message hmem => ?_⟩, _, rfl⟩⟩
      · simp [hnone] at hnext
      · exact Int.lt_of_lt_of_le hdue (htop message hmem)

/-- `p` is what the steps `between` leave of `q`, which has chosen a wait: the notifications
given in between are lost. -/
structure StillWaits (q : MessageQueue τ) (between : List (MessageQueueEvent τ))
    (p : MessageQueue τ) : Prop where
  locked : p.Locked
  runner : p.runner = q.runner
  tasks : p.tasks = q.tasks
  stop : p.stop = q.stop
  owes : ∀ n, (p.monitor.callers n).owes = true ↔
    (q.monitor.callers n).owes = true ∧ .caller n .notify ∉ between

theorem StillWaits.step {p p' : MessageQueue τ} {between : List (MessageQueueEvent τ)}
    {deadline : Option ℤ} (h : StillWaits q between p) (hwaiting : q.runner = .waiting deadline)
    (he : e ≠ .runner) (hstep : step p e = some p') : StillWaits q (between ++ [e]) p' := by
  have hrunner : p.runner = .waiting deadline := h.runner.trans hwaiting
  have hlocked : p.monitor.Exclusive true := by
    have hheld := h.locked
    rw [Locked, hrunner] at hheld
    exact hheld
  have hlocked' := h.locked.step hstep
  cases steps_of_step hstep with
  | caller n e monitor hopens hmonitor =>
      refine ⟨hlocked', ?_, h.tasks, h.stop, ?_⟩
      · change p.runnerAfter e = q.runner
        rw [hwaiting, ← hrunner]
        cases e with
        | notify => rw [runnerAfter, hrunner]; rfl
        | _ => rfl
      · intro k
        have hsame : (.caller k .notify : MessageQueueEvent τ) = .caller n e ↔
            k = n ∧ e = .notify := by
          simp [eq_comm]
        rw [hlocked.owes_steps_iff hmonitor, h.owes k, List.mem_append, List.mem_singleton,
          not_or, hsame, and_assoc]
  | readPost n task hposition | readDelayed n task delayMs hposition | push n message hposition
    | pushDelayed n message hposition | stop n hposition =>
      exact Bool.noConfusion (hlocked.eq_false_of_inside hposition)
  | tick d =>
      refine ⟨hlocked', h.runner, h.tasks, h.stop, ?_⟩
      intro k
      simpa using h.owes k
  | run hother | waitIdle _ hother | skip _ hother | pop _ _ hother | waitUntil _ _ hother
    | wake _ hother | taskThrow hother =>
      rw [hrunner] at hother
      cases hother
  | _ => exact absurd rfl he

theorem stillWaits_of_run {p : MessageQueue τ} {between : List (MessageQueueEvent τ)}
    {deadline : Option ℤ} (hlocked : q.Locked) (hwaiting : q.runner = .waiting deadline)
    (hrun : Run step AnyStep q between p) (hnone : .runner ∉ between) :
    StillWaits q between p := by
  induction hrun with
  | nil => exact ⟨hlocked, rfl, rfl, rfl, by simp⟩
  | snoc _ _ hstep ih =>
      rw [List.mem_append, List.mem_singleton, not_or] at hnone
      exact (ih hnone.1).step hwaiting (Ne.symm hnone.2) hstep

/-- `Run` is about to wait only after an inspection, since which it has taken no step. -/
theorem exists_inspect_of_waiting {now : ℤ} {events : List (MessageQueueEvent τ)}
    {deadline : Option ℤ} (hrun : Run step AnyStep (start now) events q)
    (hwaiting : q.runner = .waiting deadline) :
    ∃ before i between p chosen, events = before ++ .inspect i :: between ∧
      Run step AnyStep (start now) before p ∧ step p (.inspect i) = some chosen ∧
        chosen.runner = .waiting deadline ∧ Run step AnyStep chosen between q ∧
          .runner ∉ between := by
  induction hrun with
  | nil => cases hwaiting
  | @snoc events q q' e hprev _ hstep ih =>
      have hcases : (q.runner = .waiting deadline ∧ e ≠ .runner) ∨ ∃ i, e = .inspect i := by
        cases steps_of_step hstep with
        | caller n e =>
            refine Or.inl ⟨?_, by simp⟩
            cases e with
            | notify => exact RunPosition.waiting_of_notified hwaiting
            | _ => exact hwaiting
        | readPost | readDelayed | push | pushDelayed | stop | tick =>
            exact Or.inl ⟨hwaiting, by simp⟩
        | waitIdle i | waitUntil i => exact Or.inr ⟨i, rfl⟩
        | _ => cases hwaiting
      rcases hcases with ⟨hold, he⟩ | ⟨i, rfl⟩
      · obtain ⟨before, i, between, p, chosen, rfl, hbefore, hinspect, hchosen, hbetween, hnone⟩ :=
          ih hold
        refine ⟨before, i, between ++ [e], p, chosen, by simp, hbefore, hinspect, hchosen,
          hbetween.snoc trivial hstep, ?_⟩
        simpa [hnone] using he.symm
      · exact ⟨events, i, [], q, q', rfl, hprev, hstep, hwaiting, .nil, List.not_mem_nil⟩

theorem blocksIdle_of_neverSleepsOnWork {now : ℤ} {events : List (MessageQueueEvent τ)}
    (hrun : Run step AnyStep (start now) events q)
    (h : Throughout step (start now) events NeverSleepsOnWork) : BlocksIdle now events := by
  rintro before i between after p rfl hbefore hchooses hnone
  obtain ⟨p', hbefore', hrest⟩ := hrun.split
  obtain rfl := hbefore.unique hbefore'
  obtain ⟨chosen, hinspect, hrest⟩ := hrest.uncons
  obtain ⟨mid, hbetween, hrest⟩ := hrest.split
  obtain ⟨parked, hpark, -⟩ := hrest.uncons
  have hmid : Run step AnyStep (start now) (before ++ [.inspect i] ++ between) mid :=
    (hbefore.snoc trivial hinspect).append hbetween
  have hlocked : chosen.Locked := locked_of_run (hbefore.snoc trivial hinspect)
  obtain ⟨hrunner, hcases⟩ := inspect_cases hinspect
  rcases hcases with ⟨-, deadline, rfl⟩ | ⟨hno, -⟩
  · have hstill := stillWaits_of_run hlocked rfl hbetween hnone
    have hparked : NeverSleepsOnWork parked := by
      apply h (before ++ [.inspect i] ++ between ++ [.runner]) parked ⟨after, by simp⟩
      exact hmid.snoc trivial hpark
    rcases waitsSafely_of_neverSleepsOnWork hpark hparked deadline rfl hstill.runner with
      ⟨htasks, hstop⟩ | ⟨n, howes⟩
    · refine Or.inl ⟨hstill.tasks.symm.trans htasks, ?_⟩
      · rw [← stop_iff_stoppedAfterTest hbefore hrunner]
        exact ne_true_of_eq_false (hstill.stop.symm.trans hstop)
    · exact Or.inr ⟨n, (hstill.owes n).mp howes⟩
  · exact absurd hchooses hno

theorem run_waitsSafely_of_blocksIdle {now : ℤ} {events : List (MessageQueueEvent τ)}
    (hrun : Run step AnyStep (start now) events q) (h : BlocksIdle now events) :
    Run step WaitsSafely (start now) events q := by
  induction hrun with
  | nil => exact .nil
  | @snoc events q q' e hprev _ hstep ih =>
      refine .snoc (ih ?_) ?_ hstep
      · rintro before i between after p rfl
        exact h before i between (after ++ [e]) p (by simp)
      · rintro deadline rfl hwaiting
        obtain ⟨before, i, between, p, chosen, rfl, hbefore, hinspect, hchosen, hbetween, hnone⟩ :=
          exists_inspect_of_waiting hprev hwaiting
        have hlocked : chosen.Locked := locked_of_run (hbefore.snoc trivial hinspect)
        have hstill := stillWaits_of_run hlocked hchosen hbetween hnone
        obtain ⟨hrunner, hcases⟩ := inspect_cases hinspect
        rcases hcases with ⟨hchooses, deadline', rfl⟩ | ⟨-, hno⟩
        · rcases h before i between [] p (by simp) hbefore hchooses hnone with
            ⟨htasks, hstop⟩ | ⟨n, howes⟩
          · rw [← stop_iff_stoppedAfterTest hbefore hrunner] at hstop
            exact Or.inl ⟨hstill.tasks.trans htasks,
              hstill.stop.trans (eq_false_of_ne_true hstop)⟩
          · exact Or.inr ⟨n, (hstill.owes n).mpr howes⟩
        · exact absurd hchosen (hno deadline)

/-- Along a run, `Run` never sleeps on work exactly if it blocks with nothing to do. -/
theorem neverSleepsOnWork_iff {now : ℤ} {events : List (MessageQueueEvent τ)}
    (hrun : Run step AnyStep (start now) events q) :
    Throughout step (start now) events NeverSleepsOnWork ↔ BlocksIdle now events := by
  constructor
  · exact blocksIdle_of_neverSleepsOnWork hrun
  · intro h before mid hb hmid
    have hall := run_waitsSafely_of_blocksIdle hrun h
    obtain ⟨mid', hsafe⟩ := hall.exists_prefix hb
    obtain rfl := hmid.unique hsafe
    exact hsafe.invariant (neverSleepsOnWork_start now) fun h hC hstep => h.step hC hstep

/-- An immediate task is posted, then a delayed one, and then `Run` starts. -/
def postedBeforeRun : List (MessageQueueEvent ℕ) :=
  [.caller 0 (.enter (.post 1)), .caller 0 .lock, .readClock 0, .work 0, .caller 0 .unlock,
    .caller 0 .notify, .caller 0 (.enter (.postDelayed 2 1000)), .caller 0 .lock, .readClock 0,
    .work 0, .caller 0 .unlock, .caller 0 .notify, .run, .runner, .runner, .inspect 0, .runner]

/-- The queue is stopped between the test of `m_stop` and the lock. -/
def stoppedAfterTest : List (MessageQueueEvent ℕ) :=
  [.run, .runner, .caller 0 (.enter .stop), .caller 0 .lock, .work 0, .caller 0 .unlock,
    .caller 0 .notify, .runner, .inspect 0, .runner]

theorem neverSleepsOnWork_iff_postedBeforeRun :
    ∃ q, Run step AnyStep (start 0) postedBeforeRun q ∧
      (Throughout step (start 0) postedBeforeRun NeverSleepsOnWork ↔
        BlocksIdle 0 postedBeforeRun) := by
  have hrun : postedBeforeRun.foldlM step (start 0 : MessageQueue ℕ) = some _ := rfl
  exact ⟨_, run_of_foldlM hrun, neverSleepsOnWork_iff (run_of_foldlM hrun)⟩

/-- The only caller of the two runs has returned. -/
theorem not_owes_of_callers {m : Monitor (MessageQueueCall ℕ)}
    (h : (m.callers 0).owes = false) (hother : ∀ n, (m.callers (n + 1)).owes = false) :
    ¬ m.Owes := by
  rintro ⟨n, hn⟩
  cases n with
  | zero => simp [h] at hn
  | succ n => simp [hother n] at hn

/-- `Run` sleeps on an immediate task until the delayed one is due, and it sleeps on a stop
for good. -/
theorem sleeps_on_work :
    ¬ Throughout step (start 0) postedBeforeRun NeverSleepsOnWork ∧
      ¬ Throughout step (start 0) stoppedAfterTest NeverSleepsOnWork := by
  have hposted : postedBeforeRun.foldlM step (start 0 : MessageQueue ℕ) = some _ := rfl
  have hstopped : stoppedAfterTest.foldlM step (start 0 : MessageQueue ℕ) = some _ := rfl
  constructor
  · intro h
    have hidle := h.of_run (run_of_foldlM hposted) rfl
      (not_owes_of_callers rfl (fun _ => rfl))
    exact absurd hidle.1 (List.cons_ne_nil _ _)
  · intro h
    have hidle := h.of_run (run_of_foldlM hstopped) rfl
      (not_owes_of_callers rfl (fun _ => rfl))
    exact absurd hidle.2 (by decide)

end MessageQueue

end Protoo
