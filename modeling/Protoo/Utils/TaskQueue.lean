import Protoo.Support.Monitor
import Protoo.Support.Run

/-!
# The task queue

`TaskQueue` embeds the C++ class of that name: any number of threads call `Invoke`,
one calls the destructor, and the worker thread runs `ProcessTasks`.  Every step at
which another thread may interleave is an event.  The callers' steps around their
work are those of `Support.Monitor`.

`cond_var_.wait` with a predicate is the loop that it is defined as: test the
predicate under the lock, block, wake up, lock again.  It may also wake up without a
notification.  A task is a `std::packaged_task`, so no exception leaves it.
-/

namespace Protoo

open Protoo.Support

/-- The calls that lock `mutex_`: `Invoke` and `~TaskQueue`. -/
inductive TaskQueueCall (τ : Type) where
  | invoke (task : τ)
  | destroy

/-- Where the worker is in `ProcessTasks`: `checking` and `waiting` are inside
`cond_var_.wait`, before and after a test of the predicate that fails; `leaving` is the
end of the block, with the task taken or on the way to `return`. -/
inductive WorkerPosition (τ : Type) where
  | locking
  | checking
  | waiting
  | parked
  | woken
  | ready
  | leaving (task : Option τ)
  | popped (task : τ)
  | running
  | returned

/-- How far the destructor has come; `joining` is in `worker_thread_.join()`. -/
inductive Destructor where
  | notCalled
  | called
  | joining
  | returned
  deriving DecidableEq

/-- `accepted` and `ran` record the tasks put into the queue and the tasks begun. -/
structure TaskQueue (τ : Type) where
  monitor : Monitor (TaskQueueCall τ) := {}
  stopFlag : Bool := false
  tasks : List τ := []
  worker : WorkerPosition τ := .locking
  destructor : Destructor := .notCalled
  accepted : List τ := []
  ran : List τ := []

inductive TaskQueueEvent (τ : Type) where
  | caller (n : ℕ) (e : CallerEvent (TaskQueueCall τ))
  | work (n : ℕ)
  | join
  | wake
  | worker

namespace WorkerPosition

variable {τ : Type}

/-- The worker is between a lock and the next unlock. -/
def holds : WorkerPosition τ → Bool
  | .checking | .waiting | .ready | .leaving _ => true
  | _ => false

/-- The task taken from the queue and not yet begun. -/
def inHand : WorkerPosition τ → List τ
  | .leaving (some task) | .popped task => [task]
  | _ => []

/-- `cond_var_.notify_one()`. -/
def notified : WorkerPosition τ → WorkerPosition τ
  | .parked => .woken
  | position => position

@[simp] theorem holds_notified (position : WorkerPosition τ) :
    position.notified.holds = position.holds := by
  cases position <;> rfl

@[simp] theorem inHand_notified (position : WorkerPosition τ) :
    position.notified.inHand = position.inHand := by
  cases position <;> rfl

end WorkerPosition

namespace TaskQueue

variable {τ : Type} {q q' : TaskQueue τ}

/-! ## The functions -/

/-- The work of `Invoke`, or of the destructor, under the lock. -/
def work (n : ℕ) (q : TaskQueue τ) : Option (TaskQueue τ) :=
  match q.monitor.callers n with
  | .inside (.invoke task) =>
      if q.stopFlag then
        some { q with monitor := q.monitor.move n (.leaving (.invoke task) true) }
      else
        some { q with
          monitor := q.monitor.move n (.leaving (.invoke task) false)
          tasks := q.tasks ++ [task]
          accepted := q.accepted ++ [task] }
  | .inside .destroy =>
      some { q with monitor := q.monitor.move n (.leaving .destroy false), stopFlag := true }
  | _ => none

/-- The destructor after a step of the caller `n`: it is called once, and goes on to
`join` after its notification. -/
def destructorAfter (n : ℕ) (q : TaskQueue τ) : CallerEvent (TaskQueueCall τ) → Option Destructor
  | .enter .destroy => if q.destructor = .notCalled then some .called else none
  | .notify =>
      match q.monitor.callers n with
      | .notifying .destroy => some .joining
      | _ => some q.destructor
  | _ => some q.destructor

/-- The worker after a step of a caller. -/
def workerAfter (q : TaskQueue τ) : CallerEvent (TaskQueueCall τ) → WorkerPosition τ
  | .notify => q.worker.notified
  | _ => q.worker

/-- The next step of `ProcessTasks`; `front` of an empty queue is undefined. -/
def processTasks (q : TaskQueue τ) : Option (TaskQueue τ) :=
  match q.worker with
  | .locking | .woken => q.monitor.take.map fun monitor => { q with monitor, worker := .checking }
  | .checking =>
      some { q with worker := if q.stopFlag || !q.tasks.isEmpty then .ready else .waiting }
  | .waiting => some { q with monitor := q.monitor.drop, worker := .parked }
  | .parked => none
  | .ready =>
      match q.stopFlag, q.tasks with
      | true, [] => some { q with worker := .leaving none }
      | _, task :: tasks => some { q with tasks, worker := .leaving (some task) }
      | false, [] => none
  | .leaving none => some { q with monitor := q.monitor.drop, worker := .returned }
  | .leaving (some task) => some { q with monitor := q.monitor.drop, worker := .popped task }
  | .popped task => some { q with worker := .running, ran := q.ran ++ [task] }
  | .running => some { q with worker := .locking }
  | .returned => none

/-- One event; `none` when it is not possible in the state. -/
def step (q : TaskQueue τ) : TaskQueueEvent τ → Option (TaskQueue τ)
  | .caller n e =>
      match q.monitor.step n e, q.destructorAfter n e with
      | some monitor, some destructor =>
          some { q with monitor, destructor, worker := q.workerAfter e }
      | _, _ => none
  | .work n => q.work n
  | .join =>
      match q.destructor, q.worker with
      | .joining, .returned => some { q with destructor := .returned }
      | _, _ => none
  | .wake =>
      match q.worker with
      | .parked => some { q with worker := .woken }
      | _ => none
  | .worker => q.processTasks

/-! ## What a step can do -/

inductive Steps (q : TaskQueue τ) : TaskQueueEvent τ → TaskQueue τ → Prop where
  | caller (n : ℕ) (e : CallerEvent (TaskQueueCall τ)) (monitor : Monitor (TaskQueueCall τ))
      (destructor : Destructor) (hmonitor : q.monitor.Steps n e monitor)
      (hdestructor : destructor = .returned → q.destructor = .returned) :
      Steps q (.caller n e) { q with monitor, destructor, worker := q.workerAfter e }
  | invoke (n : ℕ) (task : τ) (hposition : q.monitor.callers n = .inside (.invoke task))
      (hstop : q.stopFlag = false) :
      Steps q (.work n) { q with
        monitor := q.monitor.move n (.leaving (.invoke task) false)
        tasks := q.tasks ++ [task]
        accepted := q.accepted ++ [task] }
  | refuse (n : ℕ) (task : τ) (hposition : q.monitor.callers n = .inside (.invoke task))
      (hstop : q.stopFlag = true) :
      Steps q (.work n) { q with monitor := q.monitor.move n (.leaving (.invoke task) true) }
  | destroy (n : ℕ) (hposition : q.monitor.callers n = .inside .destroy) :
      Steps q (.work n) { q with
        monitor := q.monitor.move n (.leaving .destroy false), stopFlag := true }
  | join (hworker : q.worker = .returned) : Steps q .join { q with destructor := .returned }
  | wake (hworker : q.worker = .parked) : Steps q .wake { q with worker := .woken }
  | lock (hworker : q.worker = .locking ∨ q.worker = .woken) (hfree : q.monitor.owner = none) :
      Steps q .worker { q with
        monitor := { q.monitor with owner := some .waiter }, worker := .checking }
  | found (hworker : q.worker = .checking) (hfound : q.stopFlag = true ∨ q.tasks ≠ []) :
      Steps q .worker { q with worker := .ready }
  | notFound (hworker : q.worker = .checking) (hstop : q.stopFlag = false)
      (htasks : q.tasks = []) : Steps q .worker { q with worker := .waiting }
  | park (hworker : q.worker = .waiting) :
      Steps q .worker { q with monitor := q.monitor.drop, worker := .parked }
  | finish (hworker : q.worker = .ready) (hstop : q.stopFlag = true) (htasks : q.tasks = []) :
      Steps q .worker { q with worker := .leaving none }
  | pop (task : τ) (tasks : List τ) (hworker : q.worker = .ready)
      (htasks : q.tasks = task :: tasks) :
      Steps q .worker { q with tasks, worker := .leaving (some task) }
  | unlockReturn (hworker : q.worker = .leaving none) :
      Steps q .worker { q with monitor := q.monitor.drop, worker := .returned }
  | unlock (task : τ) (hworker : q.worker = .leaving (some task)) :
      Steps q .worker { q with monitor := q.monitor.drop, worker := .popped task }
  | call (task : τ) (hworker : q.worker = .popped task) :
      Steps q .worker { q with worker := .running, ran := q.ran ++ [task] }
  | taskReturn (hworker : q.worker = .running) : Steps q .worker { q with worker := .locking }

theorem destructorAfter_returned {n : ℕ} {e : CallerEvent (TaskQueueCall τ)}
    {destructor : Destructor} (h : q.destructorAfter n e = some destructor)
    (hreturned : destructor = .returned) : q.destructor = .returned := by
  subst hreturned
  unfold destructorAfter at h
  split at h
  · simp at h
  · split at h
    · simp at h
    · exact Option.some.inj h
  · exact Option.some.inj h

theorem steps_of_work {n : ℕ} (h : q.work n = some q') : Steps q (.work n) q' := by
  unfold work at h
  split at h
  next task hposition =>
    split at h
    next hstop => exact Option.some.inj h ▸ .refuse n task hposition hstop
    next hstop =>
      exact Option.some.inj h ▸ .invoke n task hposition (eq_false_of_ne_true hstop)
  next hposition => exact Option.some.inj h ▸ .destroy n hposition
  next => simp at h

theorem steps_of_lock (hworker : q.worker = .locking ∨ q.worker = .woken)
    (h : (q.monitor.take.map fun monitor => { q with monitor, worker := .checking }) = some q') :
    Steps q .worker q' := by
  obtain ⟨monitor, htake, rfl⟩ := Option.map_eq_some_iff.mp h
  obtain ⟨hfree, rfl⟩ := Monitor.take_eq_some htake
  exact .lock hworker hfree

theorem steps_of_processTasks (h : q.processTasks = some q') : Steps q .worker q' := by
  unfold processTasks at h
  split at h
  next hworker => exact steps_of_lock (Or.inl hworker) h
  next hworker => exact steps_of_lock (Or.inr hworker) h
  next hworker =>
    by_cases hfound : q.stopFlag = true ∨ q.tasks ≠ []
    · have htest : (q.stopFlag || !q.tasks.isEmpty) = true := by simpa using hfound
      rw [if_pos htest] at h
      exact Option.some.inj h ▸ .found hworker hfound
    · have htest : ¬ (q.stopFlag || !q.tasks.isEmpty) = true := by simpa using hfound
      rw [if_neg htest] at h
      obtain ⟨hstop, htasks⟩ := not_or.mp hfound
      exact Option.some.inj h ▸
        .notFound hworker (eq_false_of_ne_true hstop) (not_not.mp htasks)
  next hworker => exact Option.some.inj h ▸ .park hworker
  next => simp at h
  next hworker =>
    split at h
    next hstop htasks => exact Option.some.inj h ▸ .finish hworker hstop htasks
    next task tasks htasks => exact Option.some.inj h ▸ .pop task tasks hworker htasks
    next => simp at h
  next hworker => exact Option.some.inj h ▸ .unlockReturn hworker
  next task hworker => exact Option.some.inj h ▸ .unlock task hworker
  next task hworker => exact Option.some.inj h ▸ .call task hworker
  next hworker => exact Option.some.inj h ▸ .taskReturn hworker
  next => simp at h

theorem steps_of_step {e : TaskQueueEvent τ} (h : step q e = some q') : Steps q e q' := by
  cases e with
  | caller n e =>
      simp only [step] at h
      split at h
      next monitor destructor hmonitor hdestructor =>
        exact Option.some.inj h ▸ .caller n e monitor destructor
          (Monitor.steps_of_step hmonitor) (destructorAfter_returned hdestructor)
      next => simp at h
  | work n => exact steps_of_work h
  | join =>
      simp only [step] at h
      split at h
      next hworker => exact Option.some.inj h ▸ .join hworker
      next => simp at h
  | wake =>
      simp only [step] at h
      split at h
      next hworker => exact Option.some.inj h ▸ .wake hworker
      next => simp at h
  | worker => exact steps_of_processTasks h

/-! ## The invariant -/

/-- The queue has a task, or the worker is to end. -/
def HasWork (q : TaskQueue τ) : Prop := q.tasks ≠ [] ∨ q.stopFlag = true

/-- What is true where the worker is.  The test of the predicate and the block are under one
lock, so nothing comes in between; afterwards whoever brings work owes the notification. -/
def Placed (q : TaskQueue τ) : WorkerPosition τ → Prop
  | .ready => q.HasWork
  | .waiting => ¬ q.HasWork
  | .parked => q.HasWork → q.monitor.Owes
  | .leaving none | .returned => q.stopFlag = true ∧ q.tasks = []
  | _ => True

/-- What every step keeps. -/
structure Inv (q : TaskQueue τ) : Prop where
  exclusive : q.monitor.Exclusive q.worker.holds
  conserved : q.ran ++ q.worker.inHand ++ q.tasks = q.accepted
  placed : q.Placed q.worker
  joined : q.destructor = .returned → q.worker = .returned

theorem inv_start : Inv ({} : TaskQueue τ) where
  exclusive := Monitor.exclusive_empty
  conserved := rfl
  placed := trivial
  joined := by simp

/-- A step that leaves the queue and the worker, and settles no notification. -/
theorem Placed.owed {monitor : Monitor (TaskQueueCall τ)} {destructor : Destructor}
    {position : WorkerPosition τ} (h : q.Placed position)
    (howed : q.monitor.Owes → monitor.Owes) :
    Placed { q with monitor, destructor } position := by
  cases position with
  | parked => exact fun hwork => howed (h hwork)
  | leaving task => cases task <;> exact h
  | _ => exact h

/-- A notification ends the block, the one position that waits for it. -/
theorem Placed.notified {monitor : Monitor (TaskQueueCall τ)} {destructor : Destructor}
    {position : WorkerPosition τ} (h : q.Placed position) :
    Placed { q with monitor, destructor, worker := position.notified } position.notified := by
  cases position with
  | parked => trivial
  | leaving task => cases task <;> exact h
  | _ => exact h

/-- New work is no harm where the worker does not hold the mutex and has not ended. -/
theorem placed_of_owes {position : WorkerPosition τ} (howes : q.monitor.Owes)
    (hfree : position.holds = false) (hended : position ≠ .returned) : q.Placed position := by
  cases position with
  | parked => exact fun _ => howes
  | returned => exact absurd rfl hended
  | locking | woken | popped | running => trivial
  | _ => simp [WorkerPosition.holds] at hfree

/-- A step of a caller around its work moves the monitor, and a notification wakes the
worker. -/
theorem Inv.caller (h : q.Inv) {n : ℕ} {e : CallerEvent (TaskQueueCall τ)}
    {monitor : Monitor (TaskQueueCall τ)} {destructor : Destructor}
    (hmonitor : q.monitor.Steps n e monitor)
    (hdestructor : destructor = .returned → q.destructor = .returned) :
    Inv { q with monitor, destructor, worker := q.workerAfter e } := by
  have hexclusive := h.exclusive.steps hmonitor
  by_cases hnotify : e = .notify
  · subst hnotify
    refine ⟨?_, ?_, h.placed.notified, ?_⟩
    · simpa [workerAfter] using hexclusive
    · simpa [workerAfter] using h.conserved
    · intro hreturned
      simp [workerAfter, h.joined (hdestructor hreturned), WorkerPosition.notified]
  · have hworker : q.workerAfter e = q.worker := by
      cases e <;> first | rfl | exact absurd rfl hnotify
    rw [hworker]
    exact ⟨hexclusive, h.conserved, h.placed.owed (fun howed => howed.steps hmonitor hnotify),
      fun hreturned => h.joined (hdestructor hreturned)⟩

theorem Inv.invoke (h : q.Inv) {n : ℕ} {task : τ}
    (hposition : q.monitor.callers n = .inside (.invoke task)) (hstop : q.stopFlag = false) :
    Inv { q with
      monitor := q.monitor.move n (.leaving (.invoke task) false)
      tasks := q.tasks ++ [task]
      accepted := q.accepted ++ [task] } where
  exclusive := h.exclusive.move (by rw [hposition]; rfl)
  conserved := by
    rw [← h.conserved]
    simp
  placed := by
    apply placed_of_owes (Monitor.owes_move rfl) (h.exclusive.eq_false_of_inside hposition)
    intro hreturned
    have hplaced := h.placed
    rw [show q.worker = .returned from hreturned] at hplaced
    exact absurd hplaced.1 (by simp [hstop])
  joined := h.joined

theorem Inv.refuse (h : q.Inv) {n : ℕ} {task : τ}
    (hposition : q.monitor.callers n = .inside (.invoke task)) :
    Inv { q with monitor := q.monitor.move n (.leaving (.invoke task) true) } where
  exclusive := h.exclusive.move (by rw [hposition]; rfl)
  conserved := h.conserved
  placed := h.placed.owed (fun howed => howed.move (by simp [hposition, CallerPosition.owes]))
  joined := h.joined

theorem Inv.destroy (h : q.Inv) {n : ℕ} (hposition : q.monitor.callers n = .inside .destroy) :
    Inv { q with monitor := q.monitor.move n (.leaving .destroy false), stopFlag := true } where
  exclusive := h.exclusive.move (by rw [hposition]; rfl)
  conserved := h.conserved
  placed := by
    by_cases hreturned : q.worker = .returned
    · have hplaced := h.placed
      rw [hreturned] at hplaced ⊢
      exact ⟨rfl, hplaced.2⟩
    · exact placed_of_owes (Monitor.owes_move rfl) (h.exclusive.eq_false_of_inside hposition)
        hreturned
  joined := h.joined

theorem Inv.step {e : TaskQueueEvent τ} (h : q.Inv) (hstep : step q e = some q') : q'.Inv := by
  have hexclusive := h.exclusive
  have hconserved := h.conserved
  have hplaced := h.placed
  have hjoined : q.worker ≠ .returned → q.destructor ≠ .returned :=
    fun hworker hreturned => hworker (h.joined hreturned)
  cases steps_of_step hstep with
  | caller n e monitor destructor hmonitor hdestructor => exact h.caller hmonitor hdestructor
  | invoke n task hposition hstop => exact h.invoke hposition hstop
  | refuse n task hposition hstop => exact h.refuse hposition
  | destroy n hposition => exact h.destroy hposition
  | join hworker =>
      refine ⟨hexclusive, hconserved, ?_, fun _ => hworker⟩
      rw [hworker] at hplaced ⊢
      exact hplaced
  | wake hworker | taskReturn hworker =>
      rw [hworker] at hexclusive hconserved hjoined
      exact ⟨hexclusive, hconserved, trivial, fun hr => absurd hr (hjoined (by simp))⟩
  | lock hworker hfree =>
      rcases hworker with hworker | hworker
      all_goals
        rw [hworker] at hexclusive hconserved hjoined
        exact ⟨hexclusive.take hfree, hconserved, trivial,
          fun hr => absurd hr (hjoined (by simp))⟩
  | found hworker hfound =>
      rw [hworker] at hexclusive hconserved hjoined
      exact ⟨hexclusive, hconserved, hfound.symm, fun hr => absurd hr (hjoined (by simp))⟩
  | notFound hworker hstop htasks =>
      rw [hworker] at hexclusive hconserved hjoined
      have hidle : ¬ q.HasWork := by simp [HasWork, hstop, htasks]
      exact ⟨hexclusive, hconserved, hidle, fun hr => absurd hr (hjoined (by simp))⟩
  | park hworker =>
      rw [hworker] at hexclusive hconserved hplaced hjoined
      exact ⟨hexclusive.drop, hconserved, fun hwork => absurd hwork hplaced,
        fun hr => absurd hr (hjoined (by simp))⟩
  | finish hworker hstop htasks =>
      rw [hworker] at hexclusive hconserved hjoined
      exact ⟨hexclusive, hconserved, ⟨hstop, htasks⟩, fun hr => absurd hr (hjoined (by simp))⟩
  | pop task tasks hworker htasks =>
      rw [hworker] at hexclusive hconserved hjoined
      rw [htasks] at hconserved
      exact ⟨hexclusive, by simpa [WorkerPosition.inHand] using hconserved, trivial,
        fun hr => absurd hr (hjoined (by simp))⟩
  | unlockReturn hworker =>
      rw [hworker] at hexclusive hconserved hplaced
      exact ⟨hexclusive.drop, hconserved, hplaced, fun _ => rfl⟩
  | unlock task hworker =>
      rw [hworker] at hexclusive hconserved hjoined
      exact ⟨hexclusive.drop, hconserved, trivial, fun hr => absurd hr (hjoined (by simp))⟩
  | call task hworker =>
      rw [hworker] at hexclusive hconserved hjoined
      exact ⟨hexclusive, by simpa [WorkerPosition.inHand] using hconserved, trivial,
        fun hr => absurd hr (hjoined (by simp))⟩

theorem inv_of_run {events : List (TaskQueueEvent τ)} (h : Run step AnyStep {} events q) :
    q.Inv :=
  h.invariant inv_start (fun hinv _ hstep => hinv.step hstep)

/-! ## Whole runs -/

/-- The predicate of the wait holds when the task is taken, so `front` is defined. -/
theorem exists_step_of_ready {events : List (TaskQueueEvent τ)}
    (h : Run step AnyStep {} events q) (hready : q.worker = .ready) :
    ∃ q', step q .worker = some q' := by
  have hwork : q.HasWork := by
    have hplaced := (inv_of_run h).placed
    rwa [hready] at hplaced
  cases htasks : q.tasks with
  | nil =>
      have hstop : q.stopFlag = true := hwork.resolve_left (fun hne => hne htasks)
      exact ⟨_, by simp [step, processTasks, hready, hstop, htasks]; rfl⟩
  | cons task tasks =>
      cases hstop : q.stopFlag
      all_goals exact ⟨_, by simp [step, processTasks, hready, hstop, htasks]; rfl⟩

/-- When the worker has returned nothing is left. -/
theorem Inv.drained (h : q.Inv) (hreturned : q.worker = .returned) :
    q.ran = q.accepted ∧ q.tasks = [] := by
  have hconserved := h.conserved
  have hplaced := h.placed
  rw [hreturned] at hconserved hplaced
  rw [hplaced.2] at hconserved
  exact ⟨by simpa [WorkerPosition.inHand] using hconserved, hplaced.2⟩

/-- The worker runs the accepted tasks, each once and in order, and all of them before it
ends; a call that comes after the stop is refused without a trace; and the worker does not
sleep on work unless it is still to be notified. -/
theorem runs_accepted_tasks {events : List (TaskQueueEvent τ)}
    (h : Run step AnyStep {} events q) :
    q.ran <+: q.accepted ∧
    (q.worker = .returned → q.ran = q.accepted) ∧
    (∀ n task, q.monitor.callers n = .inside (.invoke task) → q.stopFlag = true →
      step q (.work n) =
        some { q with monitor := q.monitor.move n (.leaving (.invoke task) true) }) ∧
    (q.worker = .parked → q.tasks ≠ [] ∨ q.stopFlag = true → q.monitor.Owes) := by
  have hinv := inv_of_run h
  refine ⟨?_, fun hreturned => (hinv.drained hreturned).1, ?_, ?_⟩
  · rw [← hinv.conserved, List.append_assoc]
    exact List.prefix_append _ _
  · intro n task hposition hstop
    simp [step, work, hposition, hstop]
  · intro hparked
    have hplaced := hinv.placed
    rwa [hparked] at hplaced

/-- A task is accepted while the worker is blocked, the destructor sets the flag while the
task is running, and another task comes too late. -/
def drainRun : List (TaskQueueEvent ℕ) :=
  [.worker, .worker, .worker, .caller 0 (.enter (.invoke 7)), .caller 0 .lock, .work 0,
    .caller 0 .unlock, .caller 0 .notify, .worker, .worker, .worker, .worker, .worker,
    .caller 1 (.enter .destroy), .caller 1 .lock, .work 1, .caller 1 .unlock,
    .caller 2 (.enter (.invoke 8)), .caller 2 .lock, .work 2, .caller 2 .unlock,
    .caller 1 .notify, .worker, .worker, .worker, .worker, .worker, .join]

theorem runs_accepted_tasks_drainRun :
    (∃ q, Run step AnyStep {} (drainRun.take 6) q ∧ q.worker = .parked ∧ q.monitor.Owes) ∧
    (∃ q, Run step AnyStep {} (drainRun.take 19) q ∧ step q (.work 2) =
      some { q with monitor := q.monitor.move 2 (.leaving (.invoke 8) true) }) ∧
    ∃ q, Run step AnyStep {} drainRun q ∧ q.ran = q.accepted ∧ q.accepted = [7] := by
  have hblocked : (drainRun.take 6).foldlM step ({} : TaskQueue ℕ) = some _ := rfl
  have hstopped : (drainRun.take 19).foldlM step ({} : TaskQueue ℕ) = some _ := rfl
  have hended : drainRun.foldlM step ({} : TaskQueue ℕ) = some _ := rfl
  refine ⟨⟨_, run_of_foldlM hblocked, rfl, ?_⟩, ⟨_, run_of_foldlM hstopped, ?_⟩,
    ⟨_, run_of_foldlM hended, ?_, rfl⟩⟩
  · exact (runs_accepted_tasks (run_of_foldlM hblocked)).2.2.2 rfl (Or.inl (by simp))
  · exact (runs_accepted_tasks (run_of_foldlM hstopped)).2.2.1 2 8 rfl rfl
  · exact (runs_accepted_tasks (run_of_foldlM hended)).2.1 rfl

/-- The destructor returns only when nothing is left. -/
theorem drained_of_destructor_returned {events : List (TaskQueueEvent τ)}
    (h : Run step AnyStep {} events q) (hreturned : q.destructor = .returned) :
    q.ran = q.accepted ∧ q.tasks = [] :=
  (inv_of_run h).drained ((inv_of_run h).joined hreturned)

end TaskQueue

end Protoo
