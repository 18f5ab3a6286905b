import Protoo.Utils.MessageQueue
import Protoo.Support.Agenda
import Mathlib.Data.List.Perm.Basic

/-!
# The order and the due times of the messages

The immediate messages are a queue: what has been posted is what has run, what `Run`
has in hand and what is queued, in this order.  The delayed messages are an agenda in
the sense of `Support.Agenda`.  An entry is pending from the moment its thread has read
the clock: from then on the thread holds the mutex until the entry is in the queue, so
`Run` takes no other entry in between.
-/

namespace Protoo

open Protoo.Support

/-- The delay given, if any, is not negative. -/
def MessageQueueCall.NonNegative {τ : Type} : MessageQueueCall τ → Prop
  | .postDelayed _ delayMs => 0 ≤ delayMs
  | _ => True

namespace MessageQueue

variable {τ : Type} {q q' : MessageQueue τ} {e : MessageQueueEvent τ}

/-- No call gives a negative delay. -/
def NonNegativeDelays (_ : MessageQueue τ) (e : MessageQueueEvent τ) : Prop :=
  ∀ n op, e = .caller n (.enter op) → op.NonNegative

/-! ## Nothing is lost or run twice -/

/-- Every posted message has run, is in hand or is queued. -/
structure Conserved (q : MessageQueue τ) : Prop where
  immediate : q.ran ++ q.runner.tasksInHand ++ q.tasks = q.posted
  delayed : (q.ranDelayed.map Prod.fst ++ q.runner.delayedInHand ++ q.delayedTasks).Perm
    q.postedDelayed

theorem conserved_start (now : ℤ) : Conserved (start now : MessageQueue τ) where
  immediate := rfl
  delayed := List.Perm.refl _

/-- Taking an element out of a list and putting it in front of the others. -/
theorem perm_middle_eraseIdx {α : Type} {l front : List α} {i : ℕ} {x : α}
    (h : l[i]? = some x) : (front ++ [x] ++ l.eraseIdx i).Perm (front ++ [] ++ l) := by
  obtain ⟨hi, rfl⟩ := List.getElem?_eq_some_iff.mp h
  rw [List.append_assoc, List.append_nil]
  exact (List.getElem_cons_eraseIdx_perm hi).append_left front

theorem Conserved.step (h : q.Conserved) (hstep : step q e = some q') : q'.Conserved := by
  have himmediate := h.immediate
  have hdelayed := h.delayed
  cases steps_of_step hstep with
  | caller n e =>
      have htasks : (q.runnerAfter e).tasksInHand = q.runner.tasksInHand := by
        cases e <;> simp [runnerAfter]
      have hdelayedTasks : (q.runnerAfter e).delayedInHand = q.runner.delayedInHand := by
        cases e <;> simp [runnerAfter]
      exact ⟨by simpa only [htasks] using himmediate,
        by simpa only [hdelayedTasks] using hdelayed⟩
  | readPost | readDelayed | stop | tick => exact ⟨himmediate, hdelayed⟩
  | push n message =>
      refine ⟨?_, hdelayed⟩
      rw [← himmediate]
      simp
  | pushDelayed n message =>
      refine ⟨himmediate, ?_⟩
      rw [← List.append_assoc]
      exact hdelayed.append_right [message]
  | pop i next hrunner hnext =>
      rw [hrunner] at himmediate hdelayed
      exact ⟨himmediate, (perm_middle_eraseIdx hnext).trans hdelayed⟩
  | serve message tasks hrunner htasks =>
      rw [hrunner, htasks] at himmediate
      rw [hrunner] at hdelayed
      exact ⟨by simpa [RunPosition.tasksInHand] using himmediate, hdelayed⟩
  | unlock popped hrunner =>
      rw [hrunner] at himmediate hdelayed
      cases popped <;> exact ⟨himmediate, hdelayed⟩
  | call message hrunner =>
      rw [hrunner] at himmediate hdelayed
      exact ⟨by simpa [RunPosition.tasksInHand] using himmediate, hdelayed⟩
  | callDelayed message hrunner =>
      rw [hrunner] at himmediate hdelayed
      exact ⟨himmediate, by simpa [RunPosition.delayedInHand] using hdelayed⟩
  | run hrunner | waitIdle i hrunner | skip i hrunner | waitUntil i next hrunner | exit hrunner
    | loop hrunner | lock hrunner | park deadline hrunner | relock hrunner | serveNone hrunner
    | unlockNone hrunner | taskReturn hrunner | wake deadline hrunner | taskThrow hrunner =>
      rw [hrunner] at himmediate hdelayed
      exact ⟨himmediate, hdelayed⟩

/-! ## The agenda -/

/-- The messages that `Run` has taken from `m_delayedTasks`. -/
def takenDelayed (q : MessageQueue τ) : List (DelayedMessage τ) :=
  q.ranDelayed.map Prod.fst ++ q.runner.delayedInHand

/-- The messages that are queued, or whose thread has read the clock. -/
def pending (delayedTasks : List (DelayedMessage τ)) (m : Monitor (MessageQueueCall τ)) :
    Set (DelayedMessage τ) :=
  {message | message ∈ delayedTasks ∨ m.HasCallerAt (.inside (.pushDelayed message))}

/-- What a call has before its lock, and what is left of it inside. -/
def Announced : CallerPosition (MessageQueueCall τ) → Prop
  | .entering op => op.isCall = true ∧ op.NonNegative
  | .inside op => op.NonNegative
  | _ => True

/-- What the runs without negative delays keep. -/
structure OnTime (q : MessageQueue τ) : Prop where
  locked : q.Locked
  calls : q.monitor.AllCallers Announced
  agenda : InOrder DelayedMessage.executeTime q.takenDelayed (pending q.delayedTasks q.monitor)
    q.now
  due : ∀ entry ∈ q.ranDelayed, entry.1.executeTime ≤ entry.2

theorem onTime_start (now : ℤ) : OnTime (start now : MessageQueue τ) where
  locked := Monitor.exclusive_empty
  calls _ := trivial
  agenda := InOrder.nil _ now
  due _ hentry := absurd hentry List.not_mem_nil

/-- While `Run` holds the mutex what is pending is queued. -/
theorem mem_delayedTasks_of_holds (h : q.Locked) (hholds : q.runner.holds = true)
    {message : DelayedMessage τ} (hmessage : message ∈ pending q.delayedTasks q.monitor) :
    message ∈ q.delayedTasks := by
  rcases hmessage with hqueued | ⟨n, hposition⟩
  · exact hqueued
  · have hfree := h.eq_false_of_inside hposition
    simp [hholds] at hfree

/-- The steps around the work of a call bring no thread before its push. -/
theorem pushing_of_steps (h : q.monitor.AllCallers Announced) {n : ℕ}
    {e : CallerEvent (MessageQueueCall τ)} {monitor : Monitor (MessageQueueCall τ)}
    (hmonitor : q.monitor.Steps n e monitor) {message : DelayedMessage τ}
    (hpushing : monitor.HasCallerAt (.inside (.pushDelayed message))) :
    q.monitor.HasCallerAt (.inside (.pushDelayed message)) := by
  cases hmonitor with
  | lock op hposition hfree =>
      refine hpushing.of_move.resolve_left ?_
      intro heq
      obtain rfl := CallerPosition.inside.inj heq
      have hannounced := h n
      rw [hposition] at hannounced
      simp [Announced, MessageQueueCall.isCall] at hannounced
  | _ => exact hpushing.of_move.resolve_left (by simp)

theorem OnTime.caller (h : q.OnTime) {n : ℕ} {e : CallerEvent (MessageQueueCall τ)}
    {monitor : Monitor (MessageQueueCall τ)} (hopens : opens e = true)
    (hdelay : ∀ op, e = .enter op → op.NonNegative)
    (hmonitor : q.monitor.Steps n e monitor)
    (hlocked : Locked { q with monitor, runner := q.runnerAfter e }) :
    OnTime { q with monitor, runner := q.runnerAfter e } := by
  have htaken : (q.runnerAfter e).delayedInHand = q.runner.delayedInHand := by
    cases e <;> simp [runnerAfter]
  refine ⟨hlocked, ?_, ?_, h.due⟩
  · refine h.calls.steps hmonitor trivial ?_ (fun op hop => hop.2) (fun _ _ => trivial)
    rintro op rfl
    exact ⟨hopens, hdelay op rfl⟩
  · simp only [takenDelayed, htaken]
    apply h.agenda.mono
    rintro message (hqueued | hpushing)
    · exact Or.inl hqueued
    · exact Or.inr (pushing_of_steps h.calls hmonitor hpushing)

/-- A caller moves on without a push, and not to one. -/
theorem OnTime.move (h : q.OnTime) {n : ℕ} {position : CallerPosition (MessageQueueCall τ)}
    (hposition : ∀ message, position ≠ .inside (.pushDelayed message)) :
    InOrder DelayedMessage.executeTime q.takenDelayed
      (pending q.delayedTasks (q.monitor.move n position)) q.now := by
  apply h.agenda.mono
  rintro message (hqueued | hpushing)
  · exact Or.inl hqueued
  · exact Or.inr (hpushing.of_move.resolve_left (hposition message))

/-- The clock read for a delay that is not negative gives a time that has not passed. -/
theorem OnTime.readDelayed (h : q.OnTime) {n : ℕ} {task : τ} {delayMs : ℤ}
    (hposition : q.monitor.callers n = .inside (.postDelayed task delayMs))
    (hlocked : Locked { q with
      monitor := q.monitor.move n (.inside (.pushDelayed ⟨task, q.now + delayMs * nsPerMs⟩)) }) :
    OnTime { q with
      monitor := q.monitor.move n
        (.inside (.pushDelayed ⟨task, q.now + delayMs * nsPerMs⟩)) } := by
  have hdelay : 0 ≤ delayMs := by
    have hannounced := h.calls n
    rwa [hposition] at hannounced
  have hlater : q.now ≤ q.now + delayMs * nsPerMs := by
    unfold nsPerMs
    omega
  refine ⟨hlocked, h.calls.move trivial, ?_, h.due⟩
  refine (h.agenda.insert (y := ⟨task, q.now + delayMs * nsPerMs⟩) hlater).mono ?_
  rintro message (hqueued | hpushing)
  · exact Set.mem_insert_of_mem _ (Or.inl hqueued)
  · rcases hpushing.of_move with heq | hbefore
    · obtain rfl := MessageQueueCall.pushDelayed.inj (CallerPosition.inside.inj heq)
      exact Set.mem_insert _ _
    · exact Set.mem_insert_of_mem _ (Or.inr hbefore)

theorem OnTime.pushDelayed (h : q.OnTime) {n : ℕ} {message : DelayedMessage τ}
    (hposition : q.monitor.callers n = .inside (.pushDelayed message)) :
    InOrder DelayedMessage.executeTime q.takenDelayed
      (pending (q.delayedTasks ++ [message])
        (q.monitor.move n (.leaving (.pushDelayed message) false))) q.now := by
  apply h.agenda.mono
  rintro message' (hqueued | hpushing)
  · rcases List.mem_append.mp hqueued with hold | hnew
    · exact Or.inl hold
    · obtain rfl := List.mem_singleton.mp hnew
      exact Or.inr ⟨n, hposition⟩
  · exact Or.inr (hpushing.of_move.resolve_left (by simp))

/-- `Run` takes the top of the queue, and nothing else is pending then. -/
theorem OnTime.pop (h : q.OnTime) {i : ℕ} {next : DelayedMessage τ}
    (hrunner : q.runner = .inspecting) (hnext : q.delayedTasks[i]? = some next)
    (htop : IsTop next q.delayedTasks) (hdue : next.executeTime ≤ q.now) :
    InOrder DelayedMessage.executeTime (q.ranDelayed.map Prod.fst ++ [next])
      (pending (q.delayedTasks.eraseIdx i) q.monitor) q.now := by
  have hagenda := h.agenda
  have htaken : q.takenDelayed = q.ranDelayed.map Prod.fst := by
    simp [takenDelayed, hrunner, RunPosition.delayedInHand]
  rw [htaken] at hagenda
  have hfirst : ∀ message ∈ pending q.delayedTasks q.monitor,
      next.executeTime ≤ message.executeTime := by
    intro message hmessage
    exact htop message (mem_delayedTasks_of_holds h.locked (by rw [hrunner]; rfl) hmessage)
  refine (hagenda.take (Or.inl (List.mem_of_getElem? hnext)) hfirst hdue).mono ?_
  rintro message (hqueued | hpushing)
  · exact Or.inl (List.mem_of_mem_eraseIdx hqueued)
  · exact Or.inr hpushing

theorem OnTime.step (h : q.OnTime) (hdelays : NonNegativeDelays q e)
    (hstep : step q e = some q') : q'.OnTime := by
  have hlocked := h.locked.step hstep
  have hagenda := h.agenda
  cases steps_of_step hstep with
  | caller n e monitor hopens hmonitor =>
      exact h.caller hopens (fun op he => hdelays n op (by rw [he])) hmonitor hlocked
  | readDelayed n task delayMs hposition => exact h.readDelayed hposition hlocked
  | readPost n task | push n message | stop n =>
      exact ⟨hlocked, h.calls.move trivial, h.move (by simp), h.due⟩
  | pushDelayed n message hposition =>
      exact ⟨hlocked, h.calls.move trivial, h.pushDelayed hposition, h.due⟩
  | tick d =>
      have hlater : q.now ≤ q.now + (d : ℤ) := by omega
      exact ⟨hlocked, h.calls, h.agenda.advance hlater, h.due⟩
  | pop i next hrunner hnext htop hdue =>
      exact ⟨hlocked, h.calls, h.pop hrunner hnext htop hdue, h.due⟩
  | unlock popped hrunner =>
      rw [takenDelayed, hrunner] at hagenda
      cases popped <;> exact ⟨hlocked, h.calls, hagenda, h.due⟩
  | callDelayed message hrunner =>
      rw [takenDelayed, hrunner] at hagenda
      have hran : InOrder DelayedMessage.executeTime
          ((q.ranDelayed ++ [(message, q.now)]).map Prod.fst ++ [])
          (pending q.delayedTasks q.monitor) q.now := by
        simpa [RunPosition.delayedInHand] using hagenda
      refine ⟨hlocked, h.calls, hran, ?_⟩
      intro entry hentry
      rcases List.mem_append.mp hentry with hold | hnew
      · exact h.due entry hold
      · obtain rfl := List.mem_singleton.mp hnew
        exact hagenda.past message (by simp [RunPosition.delayedInHand])
  | run hrunner | waitIdle i hrunner | skip i hrunner | waitUntil i next hrunner | exit hrunner
    | loop hrunner | lock hrunner | park deadline hrunner | relock hrunner | serveNone hrunner
    | serve message tasks hrunner | unlockNone hrunner | call message hrunner
    | taskReturn hrunner | wake deadline hrunner | taskThrow hrunner =>
      rw [takenDelayed, hrunner] at hagenda
      exact ⟨hlocked, h.calls, hagenda, h.due⟩

/-! ## Whole runs -/

/-- Nothing posted is lost or run twice, the immediate messages keep their order, and the
delayed ones run when they are due and in the order of their times. -/
theorem order_and_due_times {now : ℤ} {events : List (MessageQueueEvent τ)}
    (h : Run step NonNegativeDelays (start now) events q) :
    q.ran ++ q.runner.tasksInHand ++ q.tasks = q.posted ∧
    (q.ranDelayed.map Prod.fst ++ q.runner.delayedInHand ++ q.delayedTasks).Perm
      q.postedDelayed ∧
    (∀ message time, (message, time) ∈ q.ranDelayed → message.executeTime ≤ time) ∧
    q.ranDelayed.Pairwise fun first second => first.1.executeTime ≤ second.1.executeTime := by
  have hconserved : q.Conserved :=
    h.invariant (conserved_start now) (fun hq _ hstep => hq.step hstep)
  have honTime : q.OnTime :=
    h.invariant (onTime_start now) (fun hq hdelays hstep => hq.step hdelays hstep)
  refine ⟨hconserved.immediate, hconserved.delayed, ?_, ?_⟩
  · intro message time hentry
    exact honTime.due (message, time) hentry
  · have hsorted := (List.pairwise_append.mp honTime.agenda.sorted).1
    rw [List.pairwise_map] at hsorted
    exact hsorted

/-- Two delayed messages are posted, the later one first, and an immediate one, which runs
after the wait for the second. -/
def twoDelaysRun : List (MessageQueueEvent ℕ) :=
  [.caller 0 (.enter (.postDelayed 2 1)), .caller 0 .lock, .readClock 0, .work 0,
    .caller 0 .unlock, .caller 0 .notify, .caller 1 (.enter (.postDelayed 3 0)), .caller 1 .lock,
    .readClock 1, .work 1, .caller 1 .unlock, .caller 1 .notify, .caller 0 (.enter (.post 1)),
    .caller 0 .lock, .readClock 0, .work 0, .caller 0 .unlock, .caller 0 .notify,
    .run, .runner, .runner, .inspect 1, .runner, .runner, .runner,
    .runner, .runner, .inspect 0, .runner, .tick 1000000, .wake, .runner, .runner, .runner,
    .runner, .runner, .runner, .runner, .inspect 0, .runner, .runner]

theorem order_and_due_times_twoDelays :
    ∃ q, Run step NonNegativeDelays (start 0) twoDelaysRun q ∧
      q.ran ++ q.runner.tasksInHand ++ q.tasks = q.posted ∧ q.ran = [⟨1, 0⟩] ∧
      (q.ranDelayed.Pairwise fun first second => first.1.executeTime ≤ second.1.executeTime) ∧
      q.ranDelayed = [(⟨3, 0⟩, 0), (⟨2, 1000000⟩, 1000000)] := by
  have hfold : twoDelaysRun.foldlM step (start 0 : MessageQueue ℕ) = some _ := rfl
  have hdelays : ∀ e ∈ twoDelaysRun, ∀ q : MessageQueue ℕ, NonNegativeDelays q e := by
    rintro e he q n op rfl
    simp only [twoDelaysRun, List.mem_cons, List.not_mem_nil, or_false, reduceCtorEq, false_or,
      MessageQueueEvent.caller.injEq, CallerEvent.enter.injEq, and_false] at he
    rcases he with ⟨-, rfl⟩ | ⟨-, rfl⟩ | ⟨-, rfl⟩ <;> simp [MessageQueueCall.NonNegative]
  have hrun := (run_of_foldlM hfold).of_forall hdelays
  obtain ⟨himmediate, -, -, hsorted⟩ := order_and_due_times hrun
  exact ⟨_, hrun, himmediate, rfl, hsorted, rfl⟩

end MessageQueue

end Protoo
