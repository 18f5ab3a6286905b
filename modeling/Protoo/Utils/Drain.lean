import Protoo.Utils.TaskQueue

/-!
# The task queue comes to rest

Nothing of `TaskQueue` can be stuck: whatever its threads have done, the steps that the
worker and the callers under way have still to take, without a new call and without a
spurious wake-up, lead to a state in which every accepted task has been begun and the
worker is blocked or has returned.  After the destructor has set the flag the worker
takes a bounded number of steps, whatever the other threads do, so that the join ends.
-/

namespace Protoo

open Protoo.Support

/-- A step of the worker, or of a caller that has locked the mutex and not returned. -/
def TaskQueueEvent.isUnderWay {τ : Type} : TaskQueueEvent τ → Bool
  | .worker | .work _ | .caller _ .unlock | .caller _ .notify => true
  | _ => false

def TaskQueueEvent.isOfWorker {τ : Type} : TaskQueueEvent τ → Bool
  | .worker => true
  | _ => false

namespace TaskQueue

variable {τ : Type} {q q' : TaskQueue τ}

/-! ## How far the worker is from rest -/

/-- The worker has returned, or is blocked and has nothing to do. -/
def AtRest (q : TaskQueue τ) : Prop :=
  q.worker = .returned ∨ q.worker = .parked ∧ ¬q.HasWork

/-- The steps of the worker to its rest once the queue is empty; it takes six more for each
task. -/
def distance (q : TaskQueue τ) : ℕ :=
  match q.worker with
  | .returned => 0
  | .leaving none | .waiting => 1
  | .ready => 2
  | .checking => 3
  | .locking | .woken => 4
  | .running => 5
  | .popped _ => 6
  | .leaving (some _) => 7
  | .parked => if q.tasks.isEmpty && !q.stopFlag then 0 else 5

def workerRank (q : TaskQueue τ) : ℕ := 6 * q.tasks.length + q.distance

/-- What the caller that owns the mutex adds: its steps to the unlock, and a task. -/
def callerRank (monitor : Monitor (TaskQueueCall τ)) : ℕ :=
  match monitor.owner with
  | some (.caller n) =>
      match monitor.callers n with
      | .inside (.invoke _) => 8
      | .inside .destroy => 2
      | .leaving _ _ => 1
      | _ => 0
  | _ => 0

/-- A bound for the number of steps to the rest. -/
def rank (q : TaskQueue τ) : ℕ := q.workerRank + callerRank q.monitor

theorem rank_le (q : TaskQueue τ) : q.rank ≤ 6 * q.tasks.length + 15 := by
  have hworker : q.distance ≤ 7 := by
    unfold distance
    split <;> (try split) <;> omega
  have hcaller : callerRank q.monitor ≤ 8 := by
    unfold callerRank
    split
    · split <;> omega
    · omega
  unfold rank workerRank
  omega

/-! ## The worker -/

theorem rank_lt (hworker : q'.workerRank < q.workerRank)
    (hcaller : callerRank q'.monitor ≤ callerRank q.monitor) : q'.rank < q.rank :=
  Nat.add_lt_add_of_lt_of_le hworker hcaller

/-- The worker takes the mutex. -/
theorem exists_lower_lock (hworker : q.worker = .locking ∨ q.worker = .woken)
    (hfree : q.monitor.owner = none) : ∃ q', step q .worker = some q' ∧ q'.rank < q.rank := by
  have htake : q.monitor.take = some { q.monitor with owner := some .waiter } := by
    unfold Monitor.take
    rw [hfree]
  have hstep : step q .worker = some { q with
      monitor := { q.monitor with owner := some .waiter }, worker := .checking } := by
    rcases hworker with hworker | hworker <;> simp [step, processTasks, hworker, htake]
  refine ⟨_, hstep, rank_lt ?_ (Nat.zero_le _)⟩
  rcases hworker with hworker | hworker <;> simp [workerRank, distance, hworker]

/-- The worker finds the queue as its predicate says. -/
theorem exists_lower_checking (hworker : q.worker = .checking) :
    ∃ q', step q .worker = some q' ∧ q'.rank < q.rank := by
  by_cases hfound : (q.stopFlag || !q.tasks.isEmpty) = true
  · have hstep : step q .worker = some { q with worker := .ready } := by
      simp only [step, processTasks, hworker, if_pos hfound]
    refine ⟨_, hstep, rank_lt ?_ (Nat.le_refl _)⟩
    simp [workerRank, distance, hworker]
  · have hstep : step q .worker = some { q with worker := .waiting } := by
      simp only [step, processTasks, hworker, if_neg hfound]
    refine ⟨_, hstep, rank_lt ?_ (Nat.le_refl _)⟩
    simp [workerRank, distance, hworker]

/-- The worker takes a task, or is to return. -/
theorem exists_lower_ready (h : q.Inv) (hworker : q.worker = .ready) :
    ∃ q', step q .worker = some q' ∧ q'.rank < q.rank := by
  have hwork : q.HasWork := by
    have hplaced := h.placed
    rwa [hworker] at hplaced
  cases htasks : q.tasks with
  | nil =>
      have hstop : q.stopFlag = true := hwork.resolve_left (fun hne => hne htasks)
      have hstep : step q .worker = some { q with worker := .leaving none } := by
        simp [step, processTasks, hworker, hstop, htasks]
      refine ⟨_, hstep, rank_lt ?_ (Nat.le_refl _)⟩
      simp [workerRank, distance, hworker]
  | cons task tasks =>
      have hstep : step q .worker = some { q with tasks, worker := .leaving (some task) } := by
        cases hstop : q.stopFlag <;> simp [step, processTasks, hworker, hstop, htasks]
      refine ⟨_, hstep, rank_lt ?_ (Nat.le_refl _)⟩
      simp only [workerRank, distance, hworker, htasks, List.length_cons]
      omega

/-- A worker that is neither blocked nor in need of the mutex takes a step. -/
theorem exists_lower_worker (h : q.Inv) (hreturned : q.worker ≠ .returned)
    (hparked : q.worker ≠ .parked)
    (hfree : q.worker = .locking ∨ q.worker = .woken → q.monitor.owner = none) :
    ∃ q', step q .worker = some q' ∧ q'.rank < q.rank := by
  cases hworker : q.worker with
  | locking => exact exists_lower_lock (Or.inl hworker) (hfree (Or.inl hworker))
  | woken => exact exists_lower_lock (Or.inr hworker) (hfree (Or.inr hworker))
  | checking => exact exists_lower_checking hworker
  | ready => exact exists_lower_ready h hworker
  | waiting =>
      have hidle : ¬q.HasWork := by
        have hplaced := h.placed
        rwa [hworker] at hplaced
      have hstep : step q .worker =
          some { q with monitor := q.monitor.drop, worker := .parked } := by
        simp only [step, processTasks, hworker]
      refine ⟨_, hstep, rank_lt ?_ (Nat.zero_le _)⟩
      simp only [HasWork, not_or, not_not, Bool.not_eq_true] at hidle
      simp [workerRank, distance, hworker, hidle]
  | leaving task =>
      cases task with
      | none =>
          have hstep : step q .worker =
              some { q with monitor := q.monitor.drop, worker := .returned } := by
            simp only [step, processTasks, hworker]
          refine ⟨_, hstep, rank_lt ?_ (Nat.zero_le _)⟩
          simp [workerRank, distance, hworker]
      | some task =>
          have hstep : step q .worker =
              some { q with monitor := q.monitor.drop, worker := .popped task } := by
            simp only [step, processTasks, hworker]
          refine ⟨_, hstep, rank_lt ?_ (Nat.zero_le _)⟩
          simp [workerRank, distance, hworker]
  | popped task =>
      have hstep : step q .worker =
          some { q with worker := .running, ran := q.ran ++ [task] } := by
        simp only [step, processTasks, hworker]
      refine ⟨_, hstep, rank_lt ?_ (Nat.le_refl _)⟩
      simp [workerRank, distance, hworker]
  | running =>
      have hstep : step q .worker = some { q with worker := .locking } := by
        simp only [step, processTasks, hworker]
      refine ⟨_, hstep, rank_lt ?_ (Nat.le_refl _)⟩
      simp [workerRank, distance, hworker]
  | parked => exact absurd hworker hparked
  | returned => exact absurd hworker hreturned

/-! ## The callers -/

/-- The worker is in need of the mutex, or of a notification. -/
def NeedsCaller (q : TaskQueue τ) : Prop :=
  q.worker = .locking ∨ q.worker = .woken ∨ q.worker = .parked ∧ q.HasWork

theorem distance_parked (hworker : q.worker = .parked) (hwork : q.HasWork) :
    q.distance = 5 := by
  have htest : ¬(q.tasks.isEmpty && !q.stopFlag) = true := by
    rcases hwork with htasks | hstop
    · simp [htasks]
    · simp [hstop]
  simp only [distance, hworker, if_neg htest]

/-- As long as there is work, the distance is a matter of where the worker is. -/
theorem distance_of_needsCaller (h : q.NeedsCaller) (hworker : q'.worker = q.worker)
    (hwork : q.HasWork → q'.HasWork) : q'.distance = q.distance := by
  rcases h with hlocking | hwoken | ⟨hparked, hsome⟩
  · simp only [distance, hworker, hlocking]
  · simp only [distance, hworker, hwoken]
  · rw [distance_parked (hworker.trans hparked) (hwork hsome), distance_parked hparked hsome]

/-- A step of the caller that owns the mutex. -/
theorem rank_lt_of_caller (h : q.NeedsCaller) (hworker : q'.worker = q.worker)
    (hwork : q.HasWork → q'.HasWork)
    (hlt : 6 * q'.tasks.length + callerRank q'.monitor <
      6 * q.tasks.length + callerRank q.monitor) : q'.rank < q.rank := by
  have hdistance := distance_of_needsCaller h hworker hwork
  unfold rank workerRank
  omega

theorem callerRank_move {n : ℕ} (howner : q.monitor.owner = some (.caller n))
    (op : TaskQueueCall τ) (thrown : Bool) :
    callerRank (q.monitor.move n (.leaving op thrown)) = 1 := by
  have howner' : (q.monitor.move n (.leaving op thrown)).owner = some (.caller n) := howner
  simp [callerRank, howner']

/-- The caller that owns the mutex does its work, or unlocks it. -/
theorem exists_lower_owner (h : q.Inv) {n : ℕ} (howner : q.monitor.owner = some (.caller n))
    (hneeds : q.NeedsCaller) :
    ∃ e q', TaskQueueEvent.isUnderWay e = true ∧ step q e = some q' ∧ q'.rank < q.rank := by
  have hholds := (h.exclusive.caller n).mp howner
  cases hposition : q.monitor.callers n with
  | outside | entering | notifying => simp [hposition, CallerPosition.holds] at hholds
  | inside op =>
      cases op with
      | invoke task =>
          have hrank : callerRank q.monitor = 8 := by simp only [callerRank, howner, hposition]
          cases hstop : q.stopFlag with
          | true =>
              have hstep : step q (.work n) = some { q with
                  monitor := q.monitor.move n (.leaving (.invoke task) true) } := by
                simp [step, work, hposition, hstop]
              refine ⟨_, _, rfl, hstep, rank_lt_of_caller hneeds rfl id ?_⟩
              rw [hrank, callerRank_move howner]
              exact Nat.add_lt_add_left (by decide) _
          | false =>
              have hstep : step q (.work n) = some { q with
                  monitor := q.monitor.move n (.leaving (.invoke task) false)
                  tasks := q.tasks ++ [task]
                  accepted := q.accepted ++ [task] } := by
                simp [step, work, hposition, hstop]
              have hwork : q.HasWork → HasWork { q with
                  monitor := q.monitor.move n (.leaving (.invoke task) false)
                  tasks := q.tasks ++ [task]
                  accepted := q.accepted ++ [task] } := fun _ => Or.inl (by simp)
              refine ⟨_, _, rfl, hstep, rank_lt_of_caller hneeds rfl hwork ?_⟩
              rw [hrank, callerRank_move howner, List.length_append, List.length_singleton]
              omega
      | destroy =>
          have hrank : callerRank q.monitor = 2 := by simp only [callerRank, howner, hposition]
          have hstep : step q (.work n) = some { q with
              monitor := q.monitor.move n (.leaving .destroy false), stopFlag := true } := by
            simp [step, work, hposition]
          refine ⟨_, _, rfl, hstep, rank_lt_of_caller hneeds rfl (fun _ => Or.inr rfl) ?_⟩
          rw [hrank, callerRank_move howner]
          exact Nat.add_lt_add_left (by decide) _
  | leaving op thrown =>
      have hrank : callerRank q.monitor = 1 := by simp only [callerRank, howner, hposition]
      have hstep : step q (.caller n .unlock) = some { q with
          monitor := { q.monitor.move n (if thrown then .outside else .notifying op) with
            owner := none } } := by
        simp [step, Monitor.step, hposition, destructorAfter, workerAfter]
      refine ⟨_, _, rfl, hstep, rank_lt_of_caller hneeds rfl id ?_⟩
      rw [hrank]
      exact Nat.add_lt_add_left Nat.zero_lt_one _

/-- Another caller's step outside the mutex does not change what the owner adds. -/
theorem callerRank_move_of_ne {monitor : Monitor (TaskQueueCall τ)} {n : ℕ}
    (hn : monitor.owner ≠ some (.caller n)) (position : CallerPosition (TaskQueueCall τ)) :
    callerRank (monitor.move n position) = callerRank monitor := by
  unfold callerRank
  change (match monitor.owner with | some (.caller k) => _ | _ => _) = _
  cases howner : monitor.owner with
  | none => rfl
  | some holder =>
      cases holder with
      | waiter => rfl
      | caller k =>
          have hne : k ≠ n := by
            rintro rfl
            exact hn howner
          simp only [Monitor.callers_move_of_ne hne]

/-- A caller that owes the notification to the blocked worker comes to give it. -/
theorem exists_lower_parked (h : q.Inv) (hworker : q.worker = .parked) (hwork : q.HasWork) :
    ∃ e q', TaskQueueEvent.isUnderWay e = true ∧ step q e = some q' ∧ q'.rank < q.rank := by
  have howes : q.monitor.Owes := by
    have hplaced := h.placed
    rw [hworker] at hplaced
    exact hplaced hwork
  obtain ⟨n, hn⟩ := howes
  cases hposition : q.monitor.callers n with
  | outside | entering | inside => simp [hposition, CallerPosition.owes] at hn
  | leaving op thrown =>
      have howner := (h.exclusive.caller n).mpr (by rw [hposition]; rfl)
      exact exists_lower_owner h howner (Or.inr (Or.inr ⟨hworker, hwork⟩))
  | notifying op =>
      have hfree : q.monitor.owner ≠ some (.caller n) := by
        intro howner
        have hholds := (h.exclusive.caller n).mp howner
        simp [hposition, CallerPosition.holds] at hholds
      obtain ⟨destructor, hdestructor⟩ : ∃ destructor,
          q.destructorAfter n .notify = some destructor := by
        unfold destructorAfter
        rw [hposition]
        cases op
        all_goals exact ⟨_, rfl⟩
      have hstep : step q (.caller n .notify) = some { q with
          monitor := q.monitor.move n .outside, destructor, worker := .woken } := by
        simp [step, Monitor.step, hposition, hdestructor, workerAfter, hworker,
          WorkerPosition.notified]
      refine ⟨_, _, rfl, hstep, rank_lt ?_ (Nat.le_of_eq (callerRank_move_of_ne hfree _))⟩
      unfold workerRank
      rw [distance_parked hworker hwork]
      exact Nat.add_lt_add_left (Nat.lt_succ_self 4) _

/-! ## The way to the rest -/

/-- Short of its rest the queue has a step under way that brings it nearer. -/
theorem exists_lower (h : q.Inv) :
    q.AtRest ∨ ∃ e q', TaskQueueEvent.isUnderWay e = true ∧ step q e = some q' ∧ q'.Inv ∧
      q'.rank < q.rank := by
  have hfound : (∃ e q', TaskQueueEvent.isUnderWay e = true ∧ step q e = some q' ∧
      q'.rank < q.rank) → ∃ e q', TaskQueueEvent.isUnderWay e = true ∧ step q e = some q' ∧
        q'.Inv ∧ q'.rank < q.rank := by
    rintro ⟨e, q', he, hstep, hlt⟩
    exact ⟨e, q', he, hstep, h.step hstep, hlt⟩
  have hself : (∃ q', step q .worker = some q' ∧ q'.rank < q.rank) → ∃ e q',
      TaskQueueEvent.isUnderWay e = true ∧ step q e = some q' ∧ q'.rank < q.rank := by
    rintro ⟨q', hstep, hlt⟩
    exact ⟨.worker, q', rfl, hstep, hlt⟩
  by_cases hreturned : q.worker = .returned
  · exact Or.inl (Or.inl hreturned)
  · by_cases hparked : q.worker = .parked
    · by_cases hwork : q.HasWork
      · exact Or.inr (hfound (exists_lower_parked h hparked hwork))
      · exact Or.inl (Or.inr ⟨hparked, hwork⟩)
    · right
      apply hfound
      by_cases hlock : q.worker = .locking ∨ q.worker = .woken
      · cases howner : q.monitor.owner with
        | none => exact hself (exists_lower_worker h hreturned hparked fun _ => howner)
        | some holder =>
            cases holder with
            | waiter =>
                have hholds := h.exclusive.waiter.mp howner
                rcases hlock with hworker | hworker
                all_goals simp [hworker, WorkerPosition.holds] at hholds
            | caller n =>
                have hneeds : q.NeedsCaller := by
                  rcases hlock with hlocking | hwoken
                  · exact Or.inl hlocking
                  · exact Or.inr (Or.inl hwoken)
                exact exists_lower_owner h howner hneeds
      · exact hself (exists_lower_worker h hreturned hparked fun hneeds => absurd hneeds hlock)

/-- At its rest everything accepted has been begun. -/
theorem Inv.ran_eq_of_atRest (h : q.Inv) (hrest : q.AtRest) : q.ran = q.accepted := by
  rcases hrest with hreturned | ⟨hparked, hidle⟩
  · exact (h.drained hreturned).1
  · have hconserved := h.conserved
    rw [hparked, not_not.mp (not_or.mp hidle).1] at hconserved
    simpa [WorkerPosition.inHand] using hconserved

/-- From every reachable state the steps under way lead to the rest, and then every accepted
task has been begun. -/
theorem comes_to_rest {events : List (TaskQueueEvent τ)} (h : Run step AnyStep {} events q) :
    ∃ later q', Run step (fun _ e => e.isUnderWay = true) q later q' ∧
      later.length ≤ 6 * q.tasks.length + 15 ∧ q'.AtRest ∧ q'.ran = q'.accepted := by
  obtain ⟨later, q', hrun, hlength, hinv, hrest⟩ := exists_run_of_rank
    (C := fun _ e => TaskQueueEvent.isUnderWay e = true) rank
    (fun q hq => exists_lower hq) (inv_of_run h)
  exact ⟨later, q', hrun, hlength.trans q.rank_le, hrest, hinv.ran_eq_of_atRest hrest⟩

/-! ## The shutdown -/

/-- The call is that of the destructor, and past its assignment. -/
def IsPastStop : CallerPosition (TaskQueueCall τ) → Prop
  | .leaving .destroy _ | .notifying .destroy => True
  | _ => False

/-- The destructor joins the worker only after it has set the flag. -/
structure StopsFirst (q : TaskQueue τ) : Prop where
  inv : q.Inv
  callers : q.monitor.AllCallers fun position => IsPastStop position → q.stopFlag = true
  joining : q.destructor = .joining ∨ q.destructor = .returned → q.stopFlag = true

theorem stopsFirst_start : StopsFirst ({} : TaskQueue τ) where
  inv := inv_start
  callers := fun _ hpast => hpast.elim
  joining := by simp

/-- The destructor goes on to the join after its notification. -/
theorem destructorAfter_joining {n : ℕ} {e : CallerEvent (TaskQueueCall τ)}
    (h : q.destructorAfter n e = some .joining) :
    q.destructor = .joining ∨ q.monitor.callers n = .notifying .destroy := by
  unfold destructorAfter at h
  split at h
  · simp at h
  · split at h
    next hposition => exact Or.inr hposition
    next => exact Or.inl (Option.some.inj h)
  · exact Or.inl (Option.some.inj h)

theorem StopsFirst.step {e : TaskQueueEvent τ} (h : q.StopsFirst)
    (hstep : TaskQueue.step q e = some q') : q'.StopsFirst := by
  refine ⟨h.inv.step hstep, ?_, ?_⟩
  · cases steps_of_step hstep with
    | caller n e monitor destructor hmonitor hdestructor =>
        refine h.callers.steps hmonitor ?_ ?_ ?_ ?_
        · exact fun hpast => hpast.elim
        · exact fun op _ hpast => hpast.elim
        · exact fun op _ hpast => hpast.elim
        · intro op hleaving hpast
          cases op with
          | invoke task => exact hpast.elim
          | destroy => exact hleaving trivial
    | invoke n task => exact h.callers.move fun hpast => hpast.elim
    | refuse n task => exact h.callers.move fun hpast => hpast.elim
    | destroy n => exact fun _ _ => rfl
    | _ => exact h.callers
  · cases e with
    | caller n e =>
        simp only [TaskQueue.step] at hstep
        split at hstep
        next monitor destructor hmonitor hdestructor =>
          obtain rfl := Option.some.inj hstep
          rintro (rfl | rfl)
          · rcases destructorAfter_joining hdestructor with hjoining | hposition
            · exact h.joining (Or.inl hjoining)
            · apply h.callers n
              rw [hposition]
              trivial
          · exact h.joining (Or.inr (destructorAfter_returned hdestructor rfl))
        next => simp at hstep
    | join =>
        simp only [TaskQueue.step] at hstep
        split at hstep
        next hjoining _ =>
          obtain rfl := Option.some.inj hstep
          exact fun _ => h.joining (Or.inl hjoining)
        next => simp at hstep
    | work n =>
        cases steps_of_step hstep with
        | destroy => exact fun _ => rfl
        | invoke | refuse => exact h.joining
    | wake | worker => cases steps_of_step hstep <;> exact h.joining

theorem stopsFirst_of_run {events : List (TaskQueueEvent τ)}
    (h : Run step AnyStep {} events q) : q.StopsFirst :=
  h.invariant stopsFirst_start (fun hfirst _ hstep => hfirst.step hstep)

/-- After the stop nothing is accepted, and every step of the worker lowers its rank. -/
theorem workerRank_step {e : TaskQueueEvent τ} (h : q.Inv) (hstop : q.stopFlag = true)
    (hstep : step q e = some q') :
    q'.stopFlag = true ∧ q'.accepted = q.accepted ∧
      q'.workerRank + (if e.isOfWorker then 1 else 0) ≤ q.workerRank := by
  have hplaced := h.placed
  cases steps_of_step hstep with
  | caller n e monitor destructor =>
      refine ⟨hstop, rfl, ?_⟩
      cases e with
      | notify =>
          cases hworker : q.worker <;>
            simp [workerRank, distance, workerAfter, WorkerPosition.notified, hworker, hstop,
              TaskQueueEvent.isOfWorker]
      | _ => exact Nat.le_refl _
  | invoke n task hposition hrunning => exact absurd (hrunning.symm.trans hstop) (by simp)
  | refuse | join => exact ⟨hstop, rfl, Nat.le_refl _⟩
  | destroy =>
      refine ⟨rfl, rfl, Nat.le_of_eq ?_⟩
      simp only [workerRank, distance, hstop]
      rfl
  | wake hworker => exact ⟨hstop, rfl, by simp [workerRank, distance, hworker, hstop,
      TaskQueueEvent.isOfWorker]⟩
  | lock hworker =>
      refine ⟨hstop, rfl, ?_⟩
      rcases hworker with hworker | hworker <;>
        simp [workerRank, distance, hworker, TaskQueueEvent.isOfWorker]
  | notFound hworker hrunning => exact absurd (hrunning.symm.trans hstop) (by simp)
  | park hworker =>
      rw [hworker] at hplaced
      exact absurd (Or.inr hstop) hplaced
  | pop task tasks hworker htasks =>
      refine ⟨hstop, rfl, ?_⟩
      simp only [workerRank, distance, hworker, htasks, List.length_cons,
        TaskQueueEvent.isOfWorker, if_true]
      omega
  | found hworker | finish hworker | unlockReturn hworker | unlock task hworker
  | call task hworker | taskReturn hworker =>
      exact ⟨hstop, rfl, by simp [workerRank, distance, hworker, TaskQueueEvent.isOfWorker]⟩

theorem workerRank_le (q : TaskQueue τ) : q.workerRank ≤ 6 * q.tasks.length + 7 := by
  unfold workerRank distance
  split <;> (try split) <;> omega

/-- The destructor is in the join, or past it. -/
def Joins (q : TaskQueue τ) : Prop := q.destructor = .joining ∨ q.destructor = .returned

theorem Joins.step {e : TaskQueueEvent τ} (h : q.Joins) (hstep : TaskQueue.step q e = some q') :
    q'.Joins := by
  cases e with
  | caller n e =>
      simp only [TaskQueue.step] at hstep
      split at hstep
      next monitor destructor hmonitor hdestructor =>
        obtain rfl := Option.some.inj hstep
        unfold destructorAfter at hdestructor
        split at hdestructor
        next =>
          split at hdestructor
          next hnotCalled => rcases h with h | h <;> simp [hnotCalled] at h
          next => simp at hdestructor
        next =>
          split at hdestructor
          next => exact Or.inl (Option.some.inj hdestructor).symm
          next => exact (Option.some.inj hdestructor) ▸ h
        next => exact (Option.some.inj hdestructor) ▸ h
      next => simp at hstep
  | join => cases steps_of_step hstep with
    | join => exact Or.inr rfl
  | work | wake | worker => cases steps_of_step hstep <;> exact h

/-- A step under way, or the end of the join. -/
def EndsShutdown : TaskQueue τ → TaskQueueEvent τ → Prop :=
  fun _ e => e.isUnderWay = true ∨ e = .join

/-- The join ends, from wherever the destructor waits in it. -/
theorem exists_join (h : q.StopsFirst) (hjoins : q.Joins) :
    ∃ rest q', Run step EndsShutdown q rest q' ∧ rest.length ≤ 6 * q.tasks.length + 16 ∧
      q'.destructor = .returned ∧ q'.ran = q'.accepted ∧ q'.accepted = q.accepted := by
  have hstop := h.joining hjoins
  obtain ⟨later, mid, hrun, hlength, ⟨hinv, hmid, hstopped, hsame⟩, hrest⟩ := exists_run_of_rank
    (C := fun _ e => TaskQueueEvent.isUnderWay e = true)
    (I := fun mid : TaskQueue τ => mid.Inv ∧ mid.Joins ∧ mid.stopFlag = true ∧
      mid.accepted = q.accepted) rank
    (by
      rintro s ⟨hs, hjoins, hstop, hsame⟩
      rcases exists_lower hs with hrest | ⟨e, t, he, hstep, ht, hlt⟩
      · exact Or.inl hrest
      · obtain ⟨hstop', haccepted, -⟩ := workerRank_step hs hstop hstep
        exact Or.inr ⟨e, t, he, hstep, ⟨ht, hjoins.step hstep, hstop', haccepted.trans hsame⟩,
          hlt⟩)
    ⟨h.inv, hjoins, hstop, rfl⟩
  have hreturned : mid.worker = .returned := by
    rcases hrest with hreturned | ⟨-, hidle⟩
    · exact hreturned
    · exact absurd (Or.inr hstopped) hidle
  have hran := (hinv.drained hreturned).1
  have hlater : Run step EndsShutdown q later mid := hrun.mono fun _ _ he => Or.inl he
  have hbound := hlength.trans q.rank_le
  rcases hmid with hjoining | hdone
  · have hstep : step mid .join = some { mid with destructor := .returned } := by
      simp only [step, hjoining, hreturned]
    have hjoined := hlater.snoc (Or.inr rfl) hstep
    refine ⟨later ++ [.join], { mid with destructor := .returned }, hjoined, ?_, rfl, hran, hsame⟩
    rw [List.length_append, List.length_singleton]
    omega
  · exact ⟨later, mid, hlater, by omega, hdone, hran, hsame⟩

/-- Whatever happens after the destructor has come to the join: nothing more is accepted, the
worker takes a bounded number of steps, and the steps under way end the join with every
accepted task begun. -/
theorem shutdown_ends {events later : List (TaskQueueEvent τ)}
    (h : Run step AnyStep {} events q) (hjoining : q.destructor = .joining)
    (hlater : Run step AnyStep q later q') :
    later.countP TaskQueueEvent.isOfWorker ≤ 6 * q.tasks.length + 7 ∧
    q'.accepted = q.accepted ∧
    ∃ rest q'', Run step EndsShutdown q' rest q'' ∧
      rest.length ≤ 6 * q'.tasks.length + 16 ∧
      q''.destructor = .returned ∧ q''.ran = q.accepted := by
  have hfirst := stopsFirst_of_run h
  have hjoins : q.Joins := Or.inl hjoining
  obtain ⟨⟨hfirst', hjoins', -, hsame⟩, hcount⟩ := hlater.countP_le
    (I := fun mid : TaskQueue τ => mid.StopsFirst ∧ mid.Joins ∧ mid.stopFlag = true ∧
      mid.accepted = q.accepted) workerRank TaskQueueEvent.isOfWorker
    ⟨hfirst, hjoins, hfirst.joining hjoins, rfl⟩
    (by
      rintro s t e ⟨hs, hjoins, hstop, hsame⟩ - hstep
      obtain ⟨hstop', haccepted, hlower⟩ := workerRank_step hs.inv hstop hstep
      exact ⟨⟨hs.step hstep, hjoins.step hstep, hstop', haccepted.trans hsame⟩, hlower⟩)
  obtain ⟨rest, q'', hrest, hlength, hdone, hran, haccepted⟩ := exists_join hfirst' hjoins'
  refine ⟨?_, hsame, rest, q'', hrest, hlength, hdone, hran.trans (haccepted.trans hsame)⟩
  have hbound := q.workerRank_le
  omega

/-- The worker is in the middle of a task, with another one queued, when the destructor comes
to the join. -/
def joiningRun : List (TaskQueueEvent ℕ) :=
  [.caller 0 (.enter (.invoke 7)), .caller 0 .lock, .work 0, .caller 0 .unlock,
    .caller 0 .notify, .caller 2 (.enter (.invoke 8)), .caller 2 .lock, .work 2,
    .caller 2 .unlock, .worker, .worker, .worker, .worker, .worker,
    .caller 1 (.enter .destroy), .caller 1 .lock, .work 1, .caller 1 .unlock,
    .caller 1 .notify]

theorem comes_to_rest_joiningRun :
    ∃ q later q', Run step AnyStep {} joiningRun q ∧
      Run step (fun _ e => e.isUnderWay = true) q later q' ∧ q'.ran = q'.accepted := by
  have hrun : joiningRun.foldlM step ({} : TaskQueue ℕ) = some _ := rfl
  obtain ⟨later, q', hlater, -, -, hran⟩ := comes_to_rest (run_of_foldlM hrun)
  exact ⟨_, later, q', run_of_foldlM hrun, hlater, hran⟩

theorem shutdown_ends_joiningRun :
    ∃ q rest q', Run step AnyStep {} joiningRun q ∧ q.tasks = [8] ∧
      Run step EndsShutdown q rest q' ∧ q'.destructor = .returned ∧ q'.ran = [7, 8] := by
  have hrun : joiningRun.foldlM step ({} : TaskQueue ℕ) = some _ := rfl
  obtain ⟨-, -, rest, q', hrest, -, hdone, hran⟩ :=
    shutdown_ends (run_of_foldlM hrun) rfl .nil
  exact ⟨_, rest, q', run_of_foldlM hrun, rfl, hrest, hdone, hran⟩

end TaskQueue

end Protoo
