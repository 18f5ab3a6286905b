import Protoo.Utils.MessageQueue
import Protoo.Support.Record

/-!
# The passes of the loop of `Run`

A pass of the loop begins one task at most.  So after `Stop` no more than one task is
begun, and `Run` takes a bounded number of steps to its end unless it blocks.  And while
a delayed task is queued, a pass comes to `m_tasks` only through a wait: each immediate
task then costs a wake-up of its own, however many of them are queued.
-/

namespace Protoo

open Protoo.Support

/-- A step that `Run` takes by itself. -/
def MessageQueueEvent.isOfRunner {τ : Type} : MessageQueueEvent τ → Bool
  | .runner | .inspect _ | .taskThrow => true
  | _ => false

/-- `Run` is called again. -/
def MessageQueueEvent.isRun {τ : Type} : MessageQueueEvent τ → Bool
  | .run => true
  | _ => false

namespace RunPosition

variable {τ : Type}

/-- The tasks that the pass may still begin. -/
def allowance : RunPosition τ → ℕ
  | .outside | .testing | .leaving none | .running => 0
  | _ => 1

/-- The steps of `Run` to the end of the pass and of the loop, if the test of `m_stop` then
ends it. -/
def stepsLeft : RunPosition τ → ℕ
  | .outside => 0
  | .testing => 1
  | .leaving none | .running => 2
  | .popped _ => 3
  | .leaving (some _) => 4
  | .serving => 5
  | .woken => 6
  | .parked _ => 7
  | .waiting _ => 8
  | .inspecting => 9
  | .locking => 10

theorem allowance_le (position : RunPosition τ) : position.allowance ≤ 1 := by
  unfold allowance
  split <;> omega

theorem stepsLeft_le (position : RunPosition τ) : position.stepsLeft ≤ 10 := by
  unfold stepsLeft
  split <;> omega

@[simp] theorem allowance_notified (position : RunPosition τ) :
    position.notified.allowance = position.allowance := by
  cases position <;> rfl

theorem stepsLeft_notified (position : RunPosition τ) :
    position.notified.stepsLeft ≤ position.stepsLeft := by
  cases position with
  | parked deadline => exact Nat.le_succ 6
  | _ => exact Nat.le_refl _

end RunPosition

namespace MessageQueue

variable {τ : Type} {q q' : MessageQueue τ} {e : MessageQueueEvent τ}

/-! ## After `Stop` -/

/-- The number of tasks begun. -/
def begun (q : MessageQueue τ) : ℕ := q.ran.length + q.ranDelayed.length

/-- After `Stop` a step begins only what the pass has left to begin, and a step of `Run`
brings it nearer to its end. -/
theorem stopped_step (hstop : q.stop = true) (hrun : e.isRun = false) (hstep : step q e = some q') :
    q'.stop = true ∧ q'.begun + q'.runner.allowance ≤ q.begun + q.runner.allowance ∧
      q'.runner.stepsLeft + (if e.isOfRunner then 1 else 0) ≤ q.runner.stepsLeft := by
  cases steps_of_step hstep with
  | caller n e =>
      refine ⟨hstop, ?_, ?_⟩
      · cases e <;> simp [begun, runnerAfter]
      · cases e with
        | notify => exact q.runner.stepsLeft_notified
        | _ => exact Nat.le_refl _
  | readPost | readDelayed | push | pushDelayed | tick =>
      exact ⟨hstop, Nat.le_refl _, Nat.le_refl _⟩
  | stop => exact ⟨rfl, Nat.le_refl _, Nat.le_refl _⟩
  | run => exact Bool.noConfusion hrun
  | loop hrunner hgoes => exact absurd (hgoes.symm.trans hstop) Bool.false_ne_true
  | call message hrunner | callDelayed message hrunner =>
      refine ⟨hstop, ?_, ?_⟩
      · simp [begun, hrunner, RunPosition.allowance]
        omega
      · simp [hrunner, RunPosition.stepsLeft, MessageQueueEvent.isOfRunner]
  | waitIdle _ hrunner | skip _ hrunner | pop _ _ hrunner | waitUntil _ _ hrunner
  | exit hrunner | lock hrunner | park _ hrunner | relock hrunner | serveNone hrunner
  | serve _ _ hrunner | unlockNone hrunner | unlock _ hrunner | taskReturn hrunner
  | wake _ hrunner | taskThrow hrunner =>
      refine ⟨hstop, ?_, ?_⟩
      · simp [begun, hrunner, RunPosition.allowance]
      · simp [hrunner, RunPosition.stepsLeft, MessageQueueEvent.isOfRunner]

/-- After `Stop`, and until `Run` is called again, whatever the other threads do: at most one
more task is begun, and `Run` takes at most ten more steps. -/
theorem stop_ends_soon {later : List (MessageQueueEvent τ)} (hstop : q.stop = true)
    (hlater : Run step (fun _ e => e.isRun = false) q later q') :
    q'.begun ≤ q.begun + 1 ∧ later.countP MessageQueueEvent.isOfRunner ≤ 10 := by
  obtain ⟨⟨-, hbegun⟩, hcount⟩ := hlater.countP_le
    (I := fun mid : MessageQueue τ => mid.stop = true ∧
      mid.begun + mid.runner.allowance ≤ q.begun + q.runner.allowance)
    (fun mid => mid.runner.stepsLeft) MessageQueueEvent.isOfRunner ⟨hstop, Nat.le_refl _⟩
    (by
      rintro s t e ⟨hs, hle⟩ hrun hstep
      obtain ⟨ht, hless, hleft⟩ := stopped_step hs hrun hstep
      exact ⟨⟨ht, hless.trans hle⟩, hleft⟩)
  have hallowance := q.runner.allowance_le
  have hleft := q.runner.stepsLeft_le
  exact ⟨by omega, by omega⟩

/-- `Run` is past its test of `m_stop` when the queue is stopped. -/
def stoppedRun : List (MessageQueueEvent ℕ) :=
  [.caller 0 (.enter (.post 1)), .caller 0 .lock, .readClock 0, .work 0, .caller 0 .unlock,
    .caller 0 .notify, .run, .runner, .caller 0 (.enter .stop), .caller 0 .lock, .work 0]

/-- The pass begins the task, and the next test ends the loop. -/
def lastPass : List (MessageQueueEvent ℕ) :=
  [.caller 0 .unlock, .caller 0 .notify, .runner, .inspect 0, .runner, .runner, .runner,
    .runner, .runner]

theorem stop_ends_soon_lastPass :
    ∃ q q', Run step AnyStep (start 0) stoppedRun q ∧
      Run step (fun _ e => e.isRun = false) q lastPass q' ∧ q'.begun ≤ q.begun + 1 ∧
      lastPass.countP MessageQueueEvent.isOfRunner ≤ 10 := by
  obtain ⟨q, q', hstopped, hstop, hfold⟩ : ∃ q q',
      stoppedRun.foldlM step (start 0) = some q ∧ q.stop = true ∧
        lastPass.foldlM step q = some q' := ⟨_, _, rfl, rfl, rfl⟩
  have hlast : Run step (fun _ e => e.isRun = false) q lastPass q' :=
    (run_of_foldlM hfold).of_forall (by simp [lastPass, MessageQueueEvent.isRun])
  exact ⟨q, q', run_of_foldlM hstopped, hlast, stop_ends_soon hstop hlast⟩

/-! ## The price of an immediate task -/

/-- `Run` wakes up from a wait. -/
def wakeUps (q : MessageQueue τ) (e : MessageQueueEvent τ) (_ : MessageQueue τ) : List Unit :=
  match e with
  | .wake => [()]
  | .caller _ .notify => if q.runner.isParked then [()] else []
  | _ => []

/-- An inspection finds no delayed task. -/
def idleInspections (q : MessageQueue τ) (e : MessageQueueEvent τ) (_ : MessageQueue τ) :
    List Unit :=
  match e with
  | .inspect _ => if q.delayedTasks.isEmpty then [()] else []
  | _ => []

/-- The pass is on its way to the front of `m_tasks`. -/
def credit : RunPosition τ → ℕ
  | .woken | .serving => 1
  | _ => 0

/-- Immediate tasks begun or in hand, and the one that the pass may still take. -/
def served (q : MessageQueue τ) : ℕ :=
  q.ran.length + q.runner.tasksInHand.length + credit q.runner

theorem served_step (hstep : step q e = some q') :
    q'.served ≤ q.served + ((wakeUps q e q').length + (idleInspections q e q').length) := by
  cases steps_of_step hstep with
  | caller n e =>
      cases e with
      | notify =>
          cases hrunner : q.runner with
          | _ => simp [served, runnerAfter, wakeUps, credit, hrunner, RunPosition.notified,
              RunPosition.tasksInHand, RunPosition.isParked]
      | _ => exact Nat.le_add_right _ _
  | readPost | readDelayed | push | pushDelayed | stop | tick => exact Nat.le_add_right _ _
  | skip i hrunner hdelayed =>
      simp [served, hrunner, credit, RunPosition.tasksInHand, idleInspections, hdelayed]
  | serveNone hrunner =>
      simp only [served, hrunner, credit, RunPosition.tasksInHand, List.length_nil]
      omega
  | unlock popped hrunner =>
      cases popped
      all_goals simp [served, hrunner, credit, RunPosition.tasksInHand]
  | waitIdle _ hrunner | pop _ _ hrunner | waitUntil _ _ hrunner | run hrunner | exit hrunner
  | loop hrunner | lock hrunner | park _ hrunner | relock hrunner | serve _ _ hrunner
  | unlockNone hrunner | call _ hrunner | callDelayed _ hrunner | taskReturn hrunner
  | wake _ hrunner | taskThrow hrunner =>
      simp [served, hrunner, credit, RunPosition.tasksInHand, wakeUps]

theorem served_le_of_run {events : List (MessageQueueEvent τ)} (h : Run step AnyStep q events q') :
    q'.served ≤ q.served + ((record step wakeUps q events).length +
      (record step idleInspections q events).length) := by
  induction h with
  | nil => exact Nat.le_add_right _ _
  | snoc hrun _ hstep ih =>
      have hnext := served_step hstep
      rw [hrun.record_snoc hstep wakeUps, hrun.record_snoc hstep idleInspections,
        List.length_append, List.length_append]
      omega

/-- The tasks begun are served, and at most one more. -/
theorem served_bounds (q : MessageQueue τ) :
    q.ran.length ≤ q.served ∧ q.served ≤ q.ran.length + 1 := by
  unfold served
  cases q.runner with
  | popped task => cases task <;> simp [RunPosition.tasksInHand, credit]
  | leaving task => rcases task with _ | task | task <;> simp [RunPosition.tasksInHand, credit]
  | _ => simp [RunPosition.tasksInHand, credit]

/-- Every immediate task that is begun has cost a wake-up of its own, or an inspection of its
own that found no delayed task.  In any stretch of a run that comes after, this is so of all
immediate tasks but the one that the pass in progress may have paid for before. -/
theorem immediate_tasks_le {now : ℤ} {events : List (MessageQueueEvent τ)}
    (h : Run step AnyStep (start now) events q) :
    q.ran.length ≤ (record step wakeUps (start now) events).length +
        (record step idleInspections (start now) events).length ∧
      ∀ later q', Run step AnyStep q later q' →
        q'.ran.length ≤ q.ran.length + 1 + (record step wakeUps q later).length +
          (record step idleInspections q later).length := by
  constructor
  · have hserved := served_le_of_run h
    have hran := q.served_bounds.1
    have hnone : (start now : MessageQueue τ).served = 0 := rfl
    omega
  · intro later q' hlater
    have hserved := served_le_of_run hlater
    have hbefore := q.served_bounds.2
    have hafter := q'.served_bounds.1
    omega

/-- Two immediate tasks are queued with a delayed one that is not due, and `Run` is woken
once. -/
def burstRun : List (MessageQueueEvent ℕ) :=
  [.caller 0 (.enter (.postDelayed 1 1000)), .caller 0 .lock, .readClock 0, .work 0,
    .caller 0 .unlock, .caller 0 .notify, .caller 0 (.enter (.post 2)), .caller 0 .lock,
    .readClock 0, .work 0, .caller 0 .unlock, .caller 1 (.enter (.post 3)), .caller 1 .lock,
    .readClock 1, .work 1, .caller 1 .unlock, .caller 1 .notify, .run, .runner, .runner,
    .inspect 0, .runner, .caller 0 .notify, .runner, .runner, .runner, .runner]

theorem immediate_tasks_le_burst :
    ∃ q, Run step AnyStep (start 0) burstRun q ∧ q.ran = [⟨2, 0⟩] ∧ q.tasks = [⟨3, 0⟩] ∧
      q.ran.length ≤ 1 := by
  obtain ⟨q, hrun, hran, htasks⟩ : ∃ q, burstRun.foldlM step (start 0) = some q ∧
      q.ran = [⟨2, 0⟩] ∧ q.tasks = [⟨3, 0⟩] := ⟨_, rfl, rfl, rfl⟩
  have hcount : (record step wakeUps (start 0) burstRun).length +
      (record step idleInspections (start 0) burstRun).length = 1 := by decide +kernel
  exact ⟨q, run_of_foldlM hrun, hran, htasks, hcount ▸ (immediate_tasks_le (run_of_foldlM hrun)).1⟩

end MessageQueue

end Protoo
