import Protoo.Transport.Service

/-!
# Posting tasks and the service loop, step by step

`Service` posts a closure, tests the queue and runs a closure in one step each.  Here
these are taken apart.  `InvokeTask` is a push under the mutex and then
`lws_cancel_service`; the loop tests `tasks.empty()` outside the lock, pops under it, and
runs what it has popped after it.  Any other thread may act between two of these, and the
service thread itself may post, from a callback inside `lws_service` and from a task.

`lws_cancel_service` leaves a wake-up, of which several are one, and a return of
`lws_service` may take it.  Nothing is assumed about when else `lws_service` returns.

The module is about the loop while it goes on: the context exists, `m_closed` is false
and `lws_service` has not failed.  What a task does is left open, except that it may
post.
-/

namespace Protoo

open Protoo.Support

/-- A thread in `InvokeTask`. -/
inductive Poster where
  | service
  | other (thread : ℕ)
  deriving DecidableEq

/-- Where the service thread is: before the loop condition, inside `lws_service` with or
without a callback running, before the test outside the lock, before the lock, past it
with what was popped, or inside the task. -/
inductive LoopPosition (α : Type) where
  | condition
  | waiting
  | callback
  | test
  | pop
  | popped (task : Option α)
  | running

/-- `posting` are the threads between their push and their `lws_cancel_service`, and `ran`
the tasks run so far, the running one included. -/
structure TaskLoop (α : Type) where
  position : LoopPosition α := .condition
  tasks : List α := []
  wakePending : Bool := false
  posting : List Poster := []
  ran : List α := []

/-- `taken` tells whether a return of `lws_service` takes the wake-up. -/
inductive TaskLoopEvent (α : Type) where
  | push (poster : Poster) (task : α)
  | cancelService (poster : Poster)
  | enter
  | callback
  | callbackReturn
  | serviceReturn (taken : Bool)
  | test
  | pop
  | run
  | taskReturn

/-- The task that an event pushes. -/
def TaskLoopEvent.pushed {α : Type} : TaskLoopEvent α → Option α
  | .push _ task => some task
  | _ => none

namespace TaskLoop

variable {α : Type}

/-- The service thread is in code that may post. -/
def inClosure (s : TaskLoop α) : Bool :=
  match s.position with
  | .callback => true
  | .running => true
  | _ => false

/-- The thread may call `InvokeTask`. -/
def mayPost (s : TaskLoop α) : Poster → Bool
  | .service => s.inClosure && decide (Poster.service ∉ s.posting)
  | .other thread => decide (Poster.other thread ∉ s.posting)

def step (s : TaskLoop α) : TaskLoopEvent α → Option (TaskLoop α)
  | .push poster task =>
      if s.mayPost poster then
        some { s with tasks := s.tasks ++ [task], posting := poster :: s.posting }
      else none
  | .cancelService poster =>
      if poster ∈ s.posting then
        some { s with wakePending := true, posting := s.posting.erase poster }
      else none
  | .enter =>
      match s.position with
      | .condition => some { s with position := .waiting }
      | _ => none
  | .callback =>
      match s.position with
      | .waiting => some { s with position := .callback }
      | _ => none
  | .callbackReturn =>
      match s.position with
      | .callback => if .service ∈ s.posting then none else some { s with position := .waiting }
      | _ => none
  | .serviceReturn taken =>
      match s.position with
      | .waiting => some { s with position := .test, wakePending := s.wakePending && !taken }
      | _ => none
  | .test =>
      match s.position with
      | .test => some { s with position := if s.tasks.isEmpty then .condition else .pop }
      | _ => none
  | .pop =>
      match s.position with
      | .pop => some { s with position := .popped s.tasks.head?, tasks := s.tasks.tail }
      | _ => none
  | .run =>
      match s.position with
      | .popped (some task) => some { s with position := .running, ran := s.ran ++ [task] }
      | .popped none => some { s with position := .test }
      | _ => none
  | .taskReturn =>
      match s.position with
      | .running => if .service ∈ s.posting then none else some { s with position := .test }
      | _ => none

/-! ## What a step can do -/

inductive Steps (s : TaskLoop α) : TaskLoopEvent α → TaskLoop α → Prop where
  | push (poster : Poster) (task : α) (hpost : s.mayPost poster = true) :
      Steps s (.push poster task)
        { s with tasks := s.tasks ++ [task], posting := poster :: s.posting }
  | cancelService (poster : Poster) (hposting : poster ∈ s.posting) :
      Steps s (.cancelService poster)
        { s with wakePending := true, posting := s.posting.erase poster }
  | enter (hposition : s.position = .condition) : Steps s .enter { s with position := .waiting }
  | callback (hposition : s.position = .waiting) :
      Steps s .callback { s with position := .callback }
  | callbackReturn (hposition : s.position = .callback) (hposting : .service ∉ s.posting) :
      Steps s .callbackReturn { s with position := .waiting }
  | serviceReturn (taken : Bool) (hposition : s.position = .waiting) :
      Steps s (.serviceReturn taken)
        { s with position := .test, wakePending := s.wakePending && !taken }
  | drained (hposition : s.position = .test) (htasks : s.tasks = []) :
      Steps s .test { s with position := .condition }
  | seen (hposition : s.position = .test) (htasks : s.tasks ≠ []) :
      Steps s .test { s with position := .pop }
  | pop (hposition : s.position = .pop) :
      Steps s .pop { s with position := .popped s.tasks.head?, tasks := s.tasks.tail }
  | run (task : α) (hposition : s.position = .popped (some task)) :
      Steps s .run { s with position := .running, ran := s.ran ++ [task] }
  | nothing (hposition : s.position = .popped none) : Steps s .run { s with position := .test }
  | taskReturn (hposition : s.position = .running) (hposting : .service ∉ s.posting) :
      Steps s .taskReturn { s with position := .test }

/-- The inversion lemma of `step`. -/
theorem steps_of_step {s t : TaskLoop α} {e : TaskLoopEvent α} (h : step s e = some t) :
    Steps s e t := by
  cases e with
  | push poster task =>
      simp only [step, Option.ite_none_right_eq_some, Option.some.injEq] at h
      exact h.2 ▸ .push poster task h.1
  | cancelService poster =>
      simp only [step, Option.ite_none_right_eq_some, Option.some.injEq] at h
      exact h.2 ▸ .cancelService poster h.1
  | enter =>
      simp only [step] at h
      split at h
      next hposition => exact Option.some.inj h ▸ .enter hposition
      next => simp at h
  | callback =>
      simp only [step] at h
      split at h
      next hposition => exact Option.some.inj h ▸ .callback hposition
      next => simp at h
  | callbackReturn =>
      simp only [step] at h
      split at h
      next hposition =>
        rw [Option.ite_none_left_eq_some, Option.some.injEq] at h
        exact h.2 ▸ .callbackReturn hposition h.1
      next => simp at h
  | serviceReturn taken =>
      simp only [step] at h
      split at h
      next hposition => exact Option.some.inj h ▸ .serviceReturn taken hposition
      next => simp at h
  | test =>
      simp only [step] at h
      split at h
      next hposition =>
        obtain rfl := Option.some.inj h
        cases htasks : s.tasks with
        | nil => simpa [htasks] using Steps.drained hposition htasks
        | cons task rest =>
            simpa [htasks] using Steps.seen hposition (htasks ▸ List.cons_ne_nil task rest)
      next => simp at h
  | pop =>
      simp only [step] at h
      split at h
      next hposition => exact Option.some.inj h ▸ .pop hposition
      next => simp at h
  | run =>
      simp only [step] at h
      split at h
      next task hposition => exact Option.some.inj h ▸ .run task hposition
      next hposition => exact Option.some.inj h ▸ .nothing hposition
      next => simp at h
  | taskReturn =>
      simp only [step] at h
      split at h
      next hposition =>
        rw [Option.ite_none_left_eq_some, Option.some.injEq] at h
        exact h.2 ▸ .taskReturn hposition h.1
      next => simp at h

/-! ## No task is forgotten -/

/-- What has been popped and not run. -/
def inHand (s : TaskLoop α) : List α :=
  match s.position with
  | .popped task => task.toList
  | _ => []

/-- The loop has seen the queue empty and looks again only after `lws_service`. -/
def isPastTest (s : TaskLoop α) : Bool :=
  match s.position with
  | .condition => true
  | .waiting => true
  | .callback => true
  | _ => false

/-- Every task pushed has been run, is in hand or is queued, in order, and a task that the
loop does not know of has a wake-up or will get one. -/
structure Kept (pushed : List α) (s : TaskLoop α) : Prop where
  order : s.ran ++ s.inHand ++ s.tasks = pushed
  service : .service ∈ s.posting → s.inClosure = true
  woken : s.isPastTest = true → s.tasks ≠ [] → s.wakePending = true ∨ s.posting ≠ []

theorem head?_toList_append_tail (tasks : List α) : tasks.head?.toList ++ tasks.tail = tasks := by
  cases tasks <;> rfl

/-- The service thread posts in a closure only. -/
theorem inClosure_of_push {s : TaskLoop α} {poster : Poster} (hpost : s.mayPost poster = true)
    (hservice : .service ∈ s.posting → s.inClosure = true)
    (h : .service ∈ poster :: s.posting) : s.inClosure = true := by
  rcases List.mem_cons.mp h with heq | hmem
  · obtain rfl := heq
    exact (Bool.and_eq_true_iff.mp hpost).1
  · exact hservice hmem

/-- Steps that move the service thread and leave the queue alone. -/
theorem Kept.move {pushed : List α} {s : TaskLoop α} (h : Kept pushed s)
    {position : LoopPosition α} {wakePending : Bool}
    (hhand : s.inHand = inHand { s with position, wakePending })
    (hservice : .service ∈ s.posting → inClosure { s with position, wakePending } = true)
    (hwoken : isPastTest { s with position, wakePending } = true → s.tasks ≠ [] →
      wakePending = true ∨ s.posting ≠ []) :
    Kept (pushed ++ []) { s with position, wakePending } := by
  refine ⟨?_, hservice, hwoken⟩
  rw [← hhand, List.append_nil]
  exact h.order

/-- A step pushes at most one task and keeps the rest. -/
theorem Kept.step {pushed : List α} {s t : TaskLoop α} {e : TaskLoopEvent α}
    (h : Kept pushed s) (hstep : TaskLoop.step s e = some t) :
    Kept (pushed ++ e.pushed.toList) t := by
  -- outside a closure the service thread is not posting
  have hnot : s.inClosure = false → .service ∉ s.posting := by
    intro hout hmem
    exact Bool.noConfusion (hout.symm.trans (h.service hmem))
  cases steps_of_step hstep with
  | push poster task hpost =>
      refine ⟨?_, inClosure_of_push hpost h.service, fun _ _ => Or.inr (List.cons_ne_nil _ _)⟩
      rw [← h.order]
      exact (List.append_assoc _ _ _).symm
  | cancelService poster =>
      refine ⟨h.order.trans (List.append_nil _).symm, ?_, fun _ _ => Or.inl rfl⟩
      exact fun hmem => h.service (List.mem_of_mem_erase hmem)
  | enter hposition =>
      refine h.move (by rw [inHand, hposition]; rfl) ?_ fun _ => h.woken ?_
      · exact fun hmem => absurd hmem (hnot (by rw [inClosure, hposition]))
      · rw [isPastTest, hposition]
  | callback hposition =>
      refine h.move (by rw [inHand, hposition]; rfl) (fun _ => rfl) fun _ => h.woken ?_
      rw [isPastTest, hposition]
  | callbackReturn hposition hposting =>
      refine h.move (by rw [inHand, hposition]; rfl) (absurd · hposting) fun _ => h.woken ?_
      rw [isPastTest, hposition]
  | serviceReturn taken hposition =>
      refine h.move (by rw [inHand, hposition]; rfl) ?_ fun hpast => Bool.noConfusion hpast
      exact fun hmem => absurd hmem (hnot (by rw [inClosure, hposition]))
  | drained hposition htasks =>
      refine h.move (by rw [inHand, hposition]; rfl) ?_ fun _ hne => absurd htasks hne
      exact fun hmem => absurd hmem (hnot (by rw [inClosure, hposition]))
  | seen hposition =>
      refine h.move (by rw [inHand, hposition]; rfl) ?_ fun hpast => Bool.noConfusion hpast
      exact fun hmem => absurd hmem (hnot (by rw [inClosure, hposition]))
  | pop hposition =>
      refine ⟨?_, ?_, fun hpast => Bool.noConfusion hpast⟩
      · have hhand : s.inHand = [] := by rw [inHand, hposition]
        have horder := h.order
        rw [hhand, List.append_nil] at horder
        change s.ran ++ s.tasks.head?.toList ++ s.tasks.tail = pushed ++ []
        rw [List.append_assoc, head?_toList_append_tail, List.append_nil, horder]
      · exact fun hmem => absurd hmem (hnot (by rw [inClosure, hposition]))
  | run task hposition =>
      refine ⟨?_, fun _ => rfl, fun hpast => Bool.noConfusion hpast⟩
      have horder := h.order
      rw [inHand, hposition] at horder
      change s.ran ++ [task] ++ [] ++ s.tasks = pushed ++ []
      rw [List.append_nil, List.append_nil]
      exact horder
  | nothing hposition =>
      refine h.move (by rw [inHand, hposition]; rfl) ?_ fun hpast => Bool.noConfusion hpast
      exact fun hmem => absurd hmem (hnot (by rw [inClosure, hposition]))
  | taskReturn hposition hposting =>
      refine h.move (by rw [inHand, hposition]; rfl) (absurd · hposting) ?_
      exact fun hpast => Bool.noConfusion hpast

/-- The tasks pushed in a run, in its order. -/
def pushedTasks (events : List (TaskLoopEvent α)) : List α :=
  events.filterMap TaskLoopEvent.pushed

theorem kept_of_run {events : List (TaskLoopEvent α)} {s : TaskLoop α}
    (hrun : Run step AnyStep {} events s) : Kept (pushedTasks events) s := by
  induction hrun with
  | nil => exact ⟨rfl, fun hmem => absurd hmem List.not_mem_nil, fun _ hne => absurd rfl hne⟩
  | @snoc events s t e _ _ hstep ih =>
      rw [pushedTasks, filterMap_concat]
      exact ih.step hstep

/-- The tasks run are a prefix of those pushed, and whenever the loop waits in
`lws_service` over a task, a wake-up is pending or another thread is about to leave one. -/
theorem never_forgotten {events : List (TaskLoopEvent α)} {s : TaskLoop α}
    (hrun : Run step AnyStep {} events s) :
    s.ran <+: pushedTasks events ∧
      (s.position = .waiting → s.tasks ≠ [] →
        s.wakePending = true ∨ ∃ thread, .other thread ∈ s.posting) := by
  have hkept := kept_of_run hrun
  constructor
  · rw [← hkept.order, List.append_assoc]
    exact List.prefix_append _ _
  · intro hposition hne
    refine (hkept.woken (by rw [isPastTest, hposition]) hne).imp_right fun hposting => ?_
    obtain ⟨poster, hmem⟩ := List.exists_mem_of_ne_nil _ hposting
    cases poster with
    | other thread => exact ⟨thread, hmem⟩
    | service =>
        -- the service thread cannot wait while it posts
        have hclosure := hkept.service hmem
        rw [inClosure, hposition] at hclosure
        exact Bool.noConfusion hclosure

/-- Two threads post while the service thread is in a callback that posts as well, and the
wake-ups become one. -/
def twoPostersRun : List (TaskLoopEvent String) :=
  [.enter, .callback, .push (.other 0) "a", .push .service "b", .cancelService (.other 0),
    .cancelService .service, .callbackReturn, .serviceReturn true, .test, .pop, .run,
    .taskReturn, .test, .pop, .run, .taskReturn, .test, .push (.other 1) "c", .enter]

theorem never_forgotten_twoPosters :
    ∃ s, Run step AnyStep {} twoPostersRun s ∧ s.ran = ["a", "b"] ∧
      (s.wakePending = true ∨ ∃ thread, .other thread ∈ s.posting) := by
  have hrun : twoPostersRun.foldlM step ({} : TaskLoop String) = some _ := rfl
  exact ⟨_, run_of_foldlM hrun, rfl,
    (never_forgotten (run_of_foldlM hrun)).2 rfl (List.cons_ne_nil _ _)⟩

/-! ## The service thread in larger steps -/

/-- The phase in which `Service` has the thread. -/
def phase (s : TaskLoop α) : Phase := if s.isPastTest then .inService else .draining

variable {τ : Type} {lib : JsonLibrary}

/-- `Service` is where the loop is: what has been popped and not run is still in its
queue. -/
structure Follows (service : Service τ) (s : TaskLoop (Task τ)) : Prop where
  phase : service.phase = s.phase
  tasks : service.transport.tasks = s.inHand ++ s.tasks
  keepsRunning : service.transport.keepsRunning = true

/-- The task in hand does not throw. -/
def Returns (lib : JsonLibrary) (s : TaskLoop (Task τ)) (_ : TaskLoopEvent (Task τ)) : Prop :=
  ∀ task ∈ s.inHand, ∀ t : WebSocketTransport τ, ∃ t', t.runTask lib task = .ok t'

theorem keepsRunning_of_runTask {task : Task τ} {t t' : WebSocketTransport τ}
    (h : t.runTask lib task = .ok t') : t'.keepsRunning = t.keepsRunning := by
  rcases WebSocketTransport.runTask_eq_ok h with ⟨-, -, -, -, rfl⟩ | ⟨-, -, -, rfl⟩ <;> rfl

/-- Steps that `Service` does not see. -/
theorem Follows.stay {service : Service τ} {s t : TaskLoop (Task τ)} (h : Follows service s)
    (hphase : s.phase = t.phase) (hqueue : s.inHand ++ s.tasks = t.inHand ++ t.tasks) :
    ∃ service', (service' = service ∨ ∃ e, Service.step lib service e = some service') ∧
      Follows service' t :=
  ⟨service, Or.inl rfl, h.phase.trans hphase, h.tasks.trans hqueue, h.keepsRunning⟩

theorem phase_of_isPastTest {s : TaskLoop α} (h : s.isPastTest = true) : s.phase = .inService :=
  if_pos h

theorem phase_of_not_isPastTest {s : TaskLoop α} (h : s.isPastTest = false) :
    s.phase = .draining := by
  rw [phase, h]
  rfl

/-- A step of the loop is a step of `Service` or none. -/
theorem Follows.step {service : Service τ} {s t : TaskLoop (Task τ)}
    {e : TaskLoopEvent (Task τ)} (h : Follows service s) (hreturns : Returns lib s e)
    (hstep : TaskLoop.step s e = some t) :
    ∃ service', (service' = service ∨ ∃ e', Service.step lib service e' = some service') ∧
      Follows service' t := by
  cases steps_of_step hstep with
  | push poster task =>
      refine ⟨_, Or.inr ⟨.invoke task, rfl⟩, h.phase, ?_, h.keepsRunning⟩
      change service.transport.tasks ++ [task] = s.inHand ++ (s.tasks ++ [task])
      rw [h.tasks, List.append_assoc]
  | cancelService => exact h.stay rfl rfl
  | enter hposition | callback hposition | callbackReturn hposition =>
      refine h.stay (phase_of_isPastTest (by rw [isPastTest, hposition])) ?_
      rw [inHand, hposition]
      rfl
  | serviceReturn taken hposition =>
      have hphase : service.phase = .inService :=
        h.phase.trans (phase_of_isPastTest (by rw [isPastTest, hposition]))
      refine ⟨_, Or.inr ⟨.serviceReturn 0, if_pos hphase⟩, rfl, ?_, ?_⟩
      · have htasks := h.tasks
        rw [inHand, hposition] at htasks
        exact htasks
      · have hopen := (Bool.and_eq_true_iff.mp h.keepsRunning).1
        exact Bool.and_eq_true_iff.mpr ⟨hopen, rfl⟩
  | drained hposition hnil =>
      have hphase : service.phase = .draining :=
        h.phase.trans (phase_of_not_isPastTest (by rw [isPastTest, hposition]))
      have htasks := h.tasks
      rw [inHand, hposition, hnil, List.append_nil] at htasks
      refine ⟨_, Or.inr ⟨.loop, if_pos ⟨hphase, htasks⟩⟩, ?_⟩
      rw [Service.loopTest, if_pos h.keepsRunning]
      exact ⟨rfl, htasks.trans hnil.symm, h.keepsRunning⟩
  | seen hposition | nothing hposition | taskReturn hposition =>
      refine h.stay (phase_of_not_isPastTest (by rw [isPastTest, hposition])) ?_
      rw [inHand, hposition]
      rfl
  | pop hposition =>
      refine h.stay (phase_of_not_isPastTest (by rw [isPastTest, hposition])) ?_
      rw [inHand, hposition]
      exact (head?_toList_append_tail s.tasks).symm
  | run task hposition =>
      have hphase : service.phase = .draining :=
        h.phase.trans (phase_of_not_isPastTest (by rw [isPastTest, hposition]))
      have htasks : service.transport.tasks = task :: s.tasks := by
        rw [h.tasks, inHand, hposition]
        rfl
      have hhand : task ∈ s.inHand := by
        rw [inHand, hposition]
        exact List.mem_singleton_self _
      obtain ⟨t', hrun⟩ := hreturns task hhand { service.transport with tasks := s.tasks }
      refine ⟨service.setTransport t', Or.inr ⟨.runTask, ?_⟩, hphase, ?_, ?_⟩
      · simp only [Service.step, hphase, htasks, hrun]
      · rcases WebSocketTransport.runTask_eq_ok hrun with ⟨-, -, -, -, rfl⟩ | ⟨-, -, -, rfl⟩ <;> rfl
      · exact (keepsRunning_of_runTask hrun).trans h.keepsRunning

/-- Whatever the loop does, with tasks that return, `Service` does in larger steps. -/
theorem exists_follows {events : List (TaskLoopEvent (Task τ))} {s : TaskLoop (Task τ)}
    (hrun : Run step (Returns lib) {} events s) :
    ∃ later service, Run (Service.step lib) AnyStep {} later service ∧ Follows service s := by
  induction hrun with
  | nil =>
      have hstart : [.start true].foldlM (Service.step lib) ({} : Service τ) = some _ := rfl
      exact ⟨_, _, run_of_foldlM hstart, rfl, rfl, rfl⟩
  | snoc _ hreturns hstep ih =>
      obtain ⟨later, service, hlater, hfollows⟩ := ih
      obtain ⟨service', hsame | ⟨e, he⟩, hfollows'⟩ := hfollows.step hreturns hstep
      · exact ⟨later, service', hsame ▸ hlater, hfollows'⟩
      · exact ⟨later ++ [e], service', .snoc hlater trivial he, hfollows'⟩

end TaskLoop

end Protoo
