import Protoo.Support.Monitor
import Protoo.Support.Run

/-!
# The message queue

`MessageQueue` embeds the C++ class of that name: any number of threads call `Post`,
`PostDelayed` and `Stop`, and one thread at a time calls `Run`.  A task that posts, or
stops the queue, is a caller like any other, on the thread of `Run`.

Times are in nanoseconds of the steady clock, and sums of them are taken as exact.
`std::priority_queue` is the bag of its elements: `top` is an element that none
precedes, and the order of equal ones is open, so the event of an inspection names the
position of the element it finds.

`Run` reads `m_stop` without the lock; the read is taken as atomic.  Both waits may end
without a notification, `wait_until` in particular at its time.
-/

namespace Protoo

open Protoo.Support

structure DelayedMessage (τ : Type) where
  task : τ
  executeTime : ℤ
  deriving DecidableEq

/-- `std::chrono::milliseconds` in the ticks of the clock. -/
def nsPerMs : ℤ := 1000000

/-- The calls that lock `m_mutex`.  `push` and `pushDelayed` are what is left of `Post` and
`PostDelayed` once they have read the clock. -/
inductive MessageQueueCall (τ : Type) where
  | post (task : τ)
  | postDelayed (task : τ) (delayMs : ℤ)
  | push (message : DelayedMessage τ)
  | pushDelayed (message : DelayedMessage τ)
  | stop

/-- What `Run` has popped, and from which queue. -/
inductive Popped (τ : Type) where
  | immediate (message : DelayedMessage τ)
  | delayed (message : DelayedMessage τ)

/-- Where the thread of `Run` is: `testing` is before `!m_stop`, `waiting` and `parked` are
in `wait` or, with a deadline, in `wait_until`, `serving` is before `!m_tasks.empty()`, and
`leaving` is before the unlock. -/
inductive RunPosition (τ : Type) where
  | outside
  | testing
  | locking
  | inspecting
  | waiting (deadline : Option ℤ)
  | parked (deadline : Option ℤ)
  | woken
  | serving
  | leaving (popped : Option (Popped τ))
  | popped (popped : Popped τ)
  | running

/-- `posted` and `ran` record the messages put into `m_tasks` and the tasks of these begun;
`postedDelayed` and `ranDelayed` are the same for `m_delayedTasks`, with the time at which
the task began. -/
structure MessageQueue (τ : Type) where
  monitor : Monitor (MessageQueueCall τ) := {}
  delayedTasks : List (DelayedMessage τ) := []
  tasks : List (DelayedMessage τ) := []
  stop : Bool := false
  runner : RunPosition τ := .outside
  now : ℤ
  posted : List (DelayedMessage τ) := []
  postedDelayed : List (DelayedMessage τ) := []
  ran : List (DelayedMessage τ) := []
  ranDelayed : List (DelayedMessage τ × ℤ) := []

inductive MessageQueueEvent (τ : Type) where
  | caller (n : ℕ) (e : CallerEvent (MessageQueueCall τ))
  | readClock (n : ℕ)
  | work (n : ℕ)
  | tick (d : ℕ)
  | run
  | inspect (i : ℕ)
  | runner
  | wake
  | taskThrow

/-- The call is one that other code makes. -/
def MessageQueueCall.isCall {τ : Type} : MessageQueueCall τ → Bool
  | .push _ | .pushDelayed _ => false
  | _ => true

namespace RunPosition

variable {τ : Type}

/-- `Run` is between a lock and the next unlock. -/
def holds : RunPosition τ → Bool
  | .inspecting | .waiting _ | .serving | .leaving _ => true
  | _ => false

/-- `Run` is blocked. -/
def isParked : RunPosition τ → Bool
  | .parked _ => true
  | _ => false

/-- The message popped from `m_tasks` whose task has not begun. -/
def tasksInHand : RunPosition τ → List (DelayedMessage τ)
  | .leaving (some (.immediate message)) | .popped (.immediate message) => [message]
  | _ => []

/-- The message popped from `m_delayedTasks` whose task has not begun. -/
def delayedInHand : RunPosition τ → List (DelayedMessage τ)
  | .leaving (some (.delayed message)) | .popped (.delayed message) => [message]
  | _ => []

/-- `notify_one` and `notify_all`: no other thread waits. -/
def notified : RunPosition τ → RunPosition τ
  | .parked _ => .woken
  | position => position

@[simp] theorem holds_notified (position : RunPosition τ) :
    position.notified.holds = position.holds := by
  cases position <;> rfl

@[simp] theorem tasksInHand_notified (position : RunPosition τ) :
    position.notified.tasksInHand = position.tasksInHand := by
  cases position <;> rfl

@[simp] theorem delayedInHand_notified (position : RunPosition τ) :
    position.notified.delayedInHand = position.delayedInHand := by
  cases position <;> rfl

/-- A notification moves no thread to a wait. -/
theorem waiting_of_notified {position : RunPosition τ} {deadline : Option ℤ}
    (h : position.notified = .waiting deadline) : position = .waiting deadline := by
  cases position with
  | parked => simp [notified] at h
  | _ => exact h

@[simp] theorem isParked_notified (position : RunPosition τ) :
    position.notified.isParked = false := by
  cases position <;> rfl

end RunPosition

namespace MessageQueue

variable {τ : Type} {q q' : MessageQueue τ}

/-! ## The functions -/

/-- The queue that the constructor leaves, with the time on the clock. -/
def start (now : ℤ) : MessageQueue τ := { now }

/-- `Post` and `PostDelayed` read the clock. -/
def readClock (n : ℕ) (q : MessageQueue τ) : Option (MessageQueue τ) :=
  match q.monitor.callers n with
  | .inside (.post task) =>
      some { q with monitor := q.monitor.move n (.inside (.push ⟨task, q.now⟩)) }
  | .inside (.postDelayed task delayMs) =>
      let executeTime := q.now + delayMs * nsPerMs
      some { q with monitor := q.monitor.move n (.inside (.pushDelayed ⟨task, executeTime⟩)) }
  | _ => none

/-- The pushes of `Post` and `PostDelayed`, and the assignment of `Stop`. -/
def work (n : ℕ) (q : MessageQueue τ) : Option (MessageQueue τ) :=
  match q.monitor.callers n with
  | .inside (.push message) =>
      some { q with
        monitor := q.monitor.move n (.leaving (.push message) false)
        tasks := q.tasks ++ [message]
        posted := q.posted ++ [message] }
  | .inside (.pushDelayed message) =>
      some { q with
        monitor := q.monitor.move n (.leaving (.pushDelayed message) false)
        delayedTasks := q.delayedTasks ++ [message]
        postedDelayed := q.postedDelayed ++ [message] }
  | .inside .stop =>
      some { q with monitor := q.monitor.move n (.leaving .stop false), stop := true }
  | _ => none

/-- The thread of `Run` after a step of a caller. -/
def runnerAfter (q : MessageQueue τ) : CallerEvent (MessageQueueCall τ) → RunPosition τ
  | .notify => q.runner.notified
  | _ => q.runner

/-- A caller can take the step as far as the functions of the class go. -/
def opens : CallerEvent (MessageQueueCall τ) → Bool
  | .enter op => op.isCall
  | _ => true

/-- None of the messages is to be executed before `next`. -/
def IsTop (next : DelayedMessage τ) (messages : List (DelayedMessage τ)) : Prop :=
  ∀ message ∈ messages, next.executeTime ≤ message.executeTime

instance (next : DelayedMessage τ) (messages : List (DelayedMessage τ)) :
    Decidable (IsTop next messages) :=
  inferInstanceAs (Decidable (∀ message ∈ messages, next.executeTime ≤ message.executeTime))

/-- The first conditional of the loop; `i` is the position of `top()`. -/
def inspect (i : ℕ) (q : MessageQueue τ) : Option (MessageQueue τ) :=
  match q.delayedTasks, q.tasks with
  | [], [] => some { q with runner := .waiting none }
  | [], _ :: _ => some { q with runner := .serving }
  | _ :: _, _ =>
      match q.delayedTasks[i]? with
      | none => none
      | some next =>
          if IsTop next q.delayedTasks then
            if next.executeTime ≤ q.now then
              some { q with
                delayedTasks := q.delayedTasks.eraseIdx i
                runner := .leaving (some (.delayed next)) }
            else
              some { q with runner := .waiting (some next.executeTime) }
          else
            none

/-- The next step of `Run`, other than the inspection. -/
def runStep (q : MessageQueue τ) : Option (MessageQueue τ) :=
  match q.runner with
  | .testing => some { q with runner := if q.stop then .outside else .locking }
  | .locking => q.monitor.take.map fun monitor => { q with monitor, runner := .inspecting }
  | .waiting deadline => some { q with monitor := q.monitor.drop, runner := .parked deadline }
  | .woken => q.monitor.take.map fun monitor => { q with monitor, runner := .serving }
  | .serving =>
      match q.tasks with
      | [] => some { q with runner := .leaving none }
      | message :: tasks =>
          some { q with tasks, runner := .leaving (some (.immediate message)) }
  | .leaving none => some { q with monitor := q.monitor.drop, runner := .testing }
  | .leaving (some popped) =>
      some { q with monitor := q.monitor.drop, runner := .popped popped }
  | .popped (.immediate message) =>
      some { q with runner := .running, ran := q.ran ++ [message] }
  | .popped (.delayed message) =>
      some { q with runner := .running, ranDelayed := q.ranDelayed ++ [(message, q.now)] }
  | .running => some { q with runner := .testing }
  | _ => none

/-- One event; `none` when it is not possible in the state. -/
def step (q : MessageQueue τ) : MessageQueueEvent τ → Option (MessageQueue τ)
  | .caller n e =>
      if opens e then
        (q.monitor.step n e).map fun monitor => { q with monitor, runner := q.runnerAfter e }
      else
        none
  | .readClock n => q.readClock n
  | .work n => q.work n
  | .tick d => some { q with now := q.now + d }
  | .run =>
      match q.runner with
      | .outside => some { q with runner := .testing }
      | _ => none
  | .inspect i =>
      match q.runner with
      | .inspecting => q.inspect i
      | _ => none
  | .runner => q.runStep
  | .wake =>
      match q.runner with
      | .parked _ => some { q with runner := .woken }
      | _ => none
  | .taskThrow =>
      match q.runner with
      | .running => some { q with runner := .outside }
      | _ => none

/-! ## What a step can do -/

inductive Steps (q : MessageQueue τ) : MessageQueueEvent τ → MessageQueue τ → Prop where
  | caller (n : ℕ) (e : CallerEvent (MessageQueueCall τ)) (monitor : Monitor (MessageQueueCall τ))
      (hopens : opens e = true) (hmonitor : q.monitor.Steps n e monitor) :
      Steps q (.caller n e) { q with monitor, runner := q.runnerAfter e }
  | readPost (n : ℕ) (task : τ) (hposition : q.monitor.callers n = .inside (.post task)) :
      Steps q (.readClock n)
        { q with monitor := q.monitor.move n (.inside (.push ⟨task, q.now⟩)) }
  | readDelayed (n : ℕ) (task : τ) (delayMs : ℤ)
      (hposition : q.monitor.callers n = .inside (.postDelayed task delayMs)) :
      Steps q (.readClock n) { q with
        monitor := q.monitor.move n
          (.inside (.pushDelayed ⟨task, q.now + delayMs * nsPerMs⟩)) }
  | push (n : ℕ) (message : DelayedMessage τ)
      (hposition : q.monitor.callers n = .inside (.push message)) :
      Steps q (.work n) { q with
        monitor := q.monitor.move n (.leaving (.push message) false)
        tasks := q.tasks ++ [message]
        posted := q.posted ++ [message] }
  | pushDelayed (n : ℕ) (message : DelayedMessage τ)
      (hposition : q.monitor.callers n = .inside (.pushDelayed message)) :
      Steps q (.work n) { q with
        monitor := q.monitor.move n (.leaving (.pushDelayed message) false)
        delayedTasks := q.delayedTasks ++ [message]
        postedDelayed := q.postedDelayed ++ [message] }
  | stop (n : ℕ) (hposition : q.monitor.callers n = .inside .stop) :
      Steps q (.work n)
        { q with monitor := q.monitor.move n (.leaving .stop false), stop := true }
  | tick (d : ℕ) : Steps q (.tick d) { q with now := q.now + d }
  | run (hrunner : q.runner = .outside) : Steps q .run { q with runner := .testing }
  | waitIdle (i : ℕ) (hrunner : q.runner = .inspecting) (hdelayed : q.delayedTasks = [])
      (htasks : q.tasks = []) : Steps q (.inspect i) { q with runner := .waiting none }
  | skip (i : ℕ) (hrunner : q.runner = .inspecting) (hdelayed : q.delayedTasks = [])
      (htasks : q.tasks ≠ []) : Steps q (.inspect i) { q with runner := .serving }
  | pop (i : ℕ) (next : DelayedMessage τ) (hrunner : q.runner = .inspecting)
      (hnext : q.delayedTasks[i]? = some next) (htop : IsTop next q.delayedTasks)
      (hdue : next.executeTime ≤ q.now) :
      Steps q (.inspect i) { q with
        delayedTasks := q.delayedTasks.eraseIdx i
        runner := .leaving (some (.delayed next)) }
  | waitUntil (i : ℕ) (next : DelayedMessage τ) (hrunner : q.runner = .inspecting)
      (hnext : q.delayedTasks[i]? = some next) (htop : IsTop next q.delayedTasks)
      (hdue : q.now < next.executeTime) :
      Steps q (.inspect i) { q with runner := .waiting (some next.executeTime) }
  | exit (hrunner : q.runner = .testing) (hstop : q.stop = true) :
      Steps q .runner { q with runner := .outside }
  | loop (hrunner : q.runner = .testing) (hstop : q.stop = false) :
      Steps q .runner { q with runner := .locking }
  | lock (hrunner : q.runner = .locking) (hfree : q.monitor.owner = none) :
      Steps q .runner { q with
        monitor := { q.monitor with owner := some .waiter }, runner := .inspecting }
  | park (deadline : Option ℤ) (hrunner : q.runner = .waiting deadline) :
      Steps q .runner { q with monitor := q.monitor.drop, runner := .parked deadline }
  | relock (hrunner : q.runner = .woken) (hfree : q.monitor.owner = none) :
      Steps q .runner { q with
        monitor := { q.monitor with owner := some .waiter }, runner := .serving }
  | serveNone (hrunner : q.runner = .serving) (htasks : q.tasks = []) :
      Steps q .runner { q with runner := .leaving none }
  | serve (message : DelayedMessage τ) (tasks : List (DelayedMessage τ))
      (hrunner : q.runner = .serving) (htasks : q.tasks = message :: tasks) :
      Steps q .runner { q with tasks, runner := .leaving (some (.immediate message)) }
  | unlockNone (hrunner : q.runner = .leaving none) :
      Steps q .runner { q with monitor := q.monitor.drop, runner := .testing }
  | unlock (popped : Popped τ) (hrunner : q.runner = .leaving (some popped)) :
      Steps q .runner { q with monitor := q.monitor.drop, runner := .popped popped }
  | call (message : DelayedMessage τ) (hrunner : q.runner = .popped (.immediate message)) :
      Steps q .runner { q with runner := .running, ran := q.ran ++ [message] }
  | callDelayed (message : DelayedMessage τ) (hrunner : q.runner = .popped (.delayed message)) :
      Steps q .runner
        { q with runner := .running, ranDelayed := q.ranDelayed ++ [(message, q.now)] }
  | taskReturn (hrunner : q.runner = .running) : Steps q .runner { q with runner := .testing }
  | wake (deadline : Option ℤ) (hrunner : q.runner = .parked deadline) :
      Steps q .wake { q with runner := .woken }
  | taskThrow (hrunner : q.runner = .running) : Steps q .taskThrow { q with runner := .outside }

theorem steps_of_readClock {n : ℕ} (h : q.readClock n = some q') :
    Steps q (.readClock n) q' := by
  unfold readClock at h
  split at h
  next task hposition => exact Option.some.inj h ▸ .readPost n task hposition
  next task delayMs hposition => exact Option.some.inj h ▸ .readDelayed n task delayMs hposition
  next => simp at h

theorem steps_of_work {n : ℕ} (h : q.work n = some q') : Steps q (.work n) q' := by
  unfold work at h
  split at h
  next message hposition => exact Option.some.inj h ▸ .push n message hposition
  next message hposition => exact Option.some.inj h ▸ .pushDelayed n message hposition
  next hposition => exact Option.some.inj h ▸ .stop n hposition
  next => simp at h

theorem steps_of_inspect {i : ℕ} (hrunner : q.runner = .inspecting)
    (h : q.inspect i = some q') : Steps q (.inspect i) q' := by
  unfold inspect at h
  split at h
  next hdelayed htasks => exact Option.some.inj h ▸ .waitIdle i hrunner hdelayed htasks
  next hdelayed htasks =>
    have hne : q.tasks ≠ [] := by simp [htasks]
    exact Option.some.inj h ▸ .skip i hrunner hdelayed hne
  next =>
    split at h
    next => simp at h
    next next hnext =>
      split at h
      next htop =>
        split at h
        next hdue => exact Option.some.inj h ▸ .pop i next hrunner hnext htop hdue
        next hdue =>
          exact Option.some.inj h ▸ .waitUntil i next hrunner hnext htop (Int.not_le.mp hdue)
      next => simp at h

theorem steps_of_runStep (h : q.runStep = some q') : Steps q .runner q' := by
  unfold runStep at h
  split at h
  next hrunner =>
    by_cases hstop : q.stop = true
    · rw [if_pos hstop] at h
      exact Option.some.inj h ▸ .exit hrunner hstop
    · rw [if_neg hstop] at h
      exact Option.some.inj h ▸ .loop hrunner (eq_false_of_ne_true hstop)
  next hrunner =>
    obtain ⟨monitor, htake, rfl⟩ := Option.map_eq_some_iff.mp h
    obtain ⟨hfree, rfl⟩ := Monitor.take_eq_some htake
    exact .lock hrunner hfree
  next deadline hrunner => exact Option.some.inj h ▸ .park deadline hrunner
  next hrunner =>
    obtain ⟨monitor, htake, rfl⟩ := Option.map_eq_some_iff.mp h
    obtain ⟨hfree, rfl⟩ := Monitor.take_eq_some htake
    exact .relock hrunner hfree
  next hrunner =>
    split at h
    next htasks => exact Option.some.inj h ▸ .serveNone hrunner htasks
    next message tasks htasks =>
      exact Option.some.inj h ▸ .serve message tasks hrunner htasks
  next hrunner => exact Option.some.inj h ▸ .unlockNone hrunner
  next popped hrunner => exact Option.some.inj h ▸ .unlock popped hrunner
  next message hrunner => exact Option.some.inj h ▸ .call message hrunner
  next message hrunner => exact Option.some.inj h ▸ .callDelayed message hrunner
  next hrunner => exact Option.some.inj h ▸ .taskReturn hrunner
  next => simp at h

theorem steps_of_step {e : MessageQueueEvent τ} (h : step q e = some q') : Steps q e q' := by
  cases e with
  | caller n e =>
      simp only [step, Option.ite_none_right_eq_some, Option.map_eq_some_iff] at h
      obtain ⟨hopens, monitor, hmonitor, rfl⟩ := h
      exact .caller n e monitor hopens (Monitor.steps_of_step hmonitor)
  | readClock n => exact steps_of_readClock h
  | work n => exact steps_of_work h
  | tick d => exact Option.some.inj h ▸ .tick d
  | run =>
      simp only [step] at h
      split at h
      next hrunner => exact Option.some.inj h ▸ .run hrunner
      next => simp at h
  | inspect i =>
      simp only [step] at h
      split at h
      next hrunner => exact steps_of_inspect hrunner h
      next => simp at h
  | runner => exact steps_of_runStep h
  | wake =>
      simp only [step] at h
      split at h
      next deadline hrunner => exact Option.some.inj h ▸ .wake deadline hrunner
      next => simp at h
  | taskThrow =>
      simp only [step] at h
      split at h
      next hrunner => exact Option.some.inj h ▸ .taskThrow hrunner
      next => simp at h

/-! ## The mutex -/

/-- The mutex is held as the positions say. -/
def Locked (q : MessageQueue τ) : Prop := q.monitor.Exclusive q.runner.holds

theorem Locked.step {e : MessageQueueEvent τ} (h : q.Locked) (hstep : step q e = some q') :
    q'.Locked := by
  unfold Locked at h ⊢
  cases steps_of_step hstep with
  | caller n e monitor hopens hmonitor =>
      have hholds : (q.runnerAfter e).holds = q.runner.holds := by
        cases e <;> simp [runnerAfter]
      simp only [hholds]
      exact h.steps hmonitor
  | readPost n task hposition | readDelayed n task delayMs hposition | push n message hposition
    | pushDelayed n message hposition | stop n hposition =>
      exact h.move (by rw [hposition]; rfl)
  | tick d => exact h
  | lock hrunner hfree | relock hrunner hfree =>
      rw [hrunner] at h
      exact h.take hfree
  | park deadline hrunner | unlockNone hrunner | unlock popped hrunner =>
      rw [hrunner] at h
      exact h.drop
  | run hrunner | waitIdle i hrunner | skip i hrunner | pop i next hrunner
    | waitUntil i next hrunner | exit hrunner | loop hrunner | serveNone hrunner
    | serve message tasks hrunner | call message hrunner | callDelayed message hrunner
    | taskReturn hrunner | wake deadline hrunner | taskThrow hrunner =>
      rw [hrunner] at h
      exact h

theorem locked_of_run {now : ℤ} {events : List (MessageQueueEvent τ)}
    (hrun : Run step AnyStep (start now) events q) : q.Locked :=
  hrun.invariant (I := Locked) Monitor.exclusive_empty fun h _ hstep => h.step hstep

end MessageQueue

end Protoo
