import Protoo.Rtm.Worker

/-!
# Operations off the worker thread

The task that an operation posts gives its promise the result of the
`...Internal` function with `set_value_at_thread_exit`.  The future therefore has
the same result as the future of a direct call, but it becomes ready when the
worker thread exits and not before, in every run.
-/

namespace Protoo

open Protoo.Support

namespace Rtm

variable {lib : JsonLibrary} {rtm t : Rtm} {e : RtmEvent}

/-! ## Futures while the worker runs -/

/-- The worker does not come back once it has left its function. -/
theorem Steps.isRunning (h : Steps lib rtm e t) (ht : t.phase.isRunning = true) :
    rtm.phase.isRunning = true := by
  cases h with
  | directCall _ _ hphase | directPublish _ _ hphase | drain hphase | exit hphase
  | drained hphase | runTask _ _ _ _ _ hphase | callbackReturn hphase | callbackThrow hphase =>
      rw [hphase]
      rfl
  | _ => exact ht

/-- What a step does to a state that is not published: it stays as it is, or a
task stores its result in it. -/
theorem Steps.getElem?_states (h : Steps lib rtm e t) (ht : t.phase.isRunning = true) {k : ℕ}
    (hk : k < rtm.states.length) :
    t.states[k]? = rtm.states[k]? ∨
      rtm.states[k]? = some .empty ∧ ∃ result, t.states[k]? = some (.atThreadExit result) := by
  cases h with
  | directCall => exact Or.inl (List.getElem?_append_left hk)
  | postedCall => exact Or.inl (List.getElem?_append_left hk)
  | exit => exact Bool.noConfusion ht
  | runTask first second task tasks t hphase htasks hran =>
      cases hran with
      | operation operation promise hempty =>
          rw [Store.getElem?_set_of_empty hempty]
          by_cases hpromise : k = promise
          · subst hpromise
            exact Or.inr ⟨hempty, _, if_pos rfl⟩
          · exact Or.inl (if_neg hpromise)
      | _ => exact Or.inl rfl
  | _ => exact Or.inl rfl

/-- The future of promise `k` is not ready, whether or not its result is stored. -/
def Unpublished (k : ℕ) (rtm : Rtm) : Prop :=
  rtm.states[k]? = some .empty ∨ ∃ result, rtm.states[k]? = some (.atThreadExit result)

theorem Unpublished.step {k : ℕ} (h : Unpublished k rtm) (hstep : step lib rtm e = some t)
    (ht : t.phase.isRunning = true) : Unpublished k t := by
  have hk : k < rtm.states.length := by
    rcases h with hempty | ⟨result, hstored⟩
    · exact (List.getElem?_eq_some_iff.mp hempty).1
    · exact (List.getElem?_eq_some_iff.mp hstored).1
  rcases (steps_of_step hstep).getElem?_states ht hk with hsame | ⟨-, hstored⟩
  · rw [Unpublished, hsame]
    exact h
  · exact Or.inr hstored

/-- A stored result stays the one stored. -/
theorem stored_of_step {k : ℕ} {result : Outcome}
    (h : rtm.states[k]? = some (.atThreadExit result)) (hstep : step lib rtm e = some t)
    (ht : t.phase.isRunning = true) : t.states[k]? = some (.atThreadExit result) := by
  obtain ⟨hk, -⟩ := List.getElem?_eq_some_iff.mp h
  rcases (steps_of_step hstep).getElem?_states ht hk with hsame | ⟨hempty, -⟩
  · exact hsame.trans h
  · simp [h] at hempty

/-- What the steps keep while the worker runs holds after a run that leaves it
running. -/
theorem invariant_of_isRunning {P : Rtm → Prop} {events : List RtmEvent}
    (hrun : Run (step lib) AnyStep rtm events t) (ht : t.phase.isRunning = true)
    (hstart : P rtm)
    (hkeep : ∀ {s t e}, P s → step lib s e = some t → t.phase.isRunning = true → P t) : P t := by
  induction hrun with
  | nil => exact hstart
  | snoc _ _ hstep ih =>
      have hbefore := (steps_of_step hstep).isRunning ht
      exact hkeep (ih hbefore) hstep ht

/-! ## The posted call and the direct call -/

/-- The worker, in the state `before`, executes the task that holds promise `k`. -/
def Executes (lib : JsonLibrary) (operation : Operation) (result : RequestResult) (k : ℕ)
    (before after : Rtm) : Prop :=
  ∃ tasks second, before.tasks = .operation operation k :: tasks ∧
    step lib before (.runTask result second) = some after

/-- Future `k` is ready in `t` and holds what the future of the same call made in
`before` on the worker thread holds. -/
def AgreesWithDirect (lib : JsonLibrary) (operation : Operation) (result : RequestResult)
    (k : ℕ) (before t : Rtm) : Prop :=
  ∃ outcome direct after, call lib operation .worker result before = (direct, after) ∧
    after.states[direct]? = some (.ready outcome) ∧ t.states[k]? = some (.ready outcome)

/-- The future of a direct call is ready. -/
theorem call_worker (lib : JsonLibrary) (operation : Operation) (result : RequestResult)
    (rtm : Rtm) :
    ∃ direct after, call lib operation .worker result rtm = (direct, after) ∧
      after.states[direct]? = some (.ready (outcome lib result operation)) := by
  rw [call_eq]
  simp only [bridge, isRunningOnWorkerThread, if_true, operationInternal_eq]
  exact ⟨_, _, rfl, List.getElem?_concat_length⟩

/-- The task stores the result of the direct call, if the worker survives it. -/
theorem Executes.stored {operation : Operation} {result : RequestResult} {k : ℕ}
    (h : Executes lib operation result k rtm t) (ht : t.phase.isRunning = true) :
    t.states[k]? = some (.atThreadExit (outcome lib result operation)) := by
  obtain ⟨tasks, second, htasks, hstep⟩ := h
  cases ran_of_step htasks hstep with
  | operation _ _ hempty => rw [Store.getElem?_set_of_empty hempty, if_pos rfl]
  | satisfied => exact Bool.noConfusion ht

/-- In every run, whatever the task does, the future of a posted call is not ready
while the worker runs. -/
theorem unpublished_of_run {operation : Operation} {result : RequestResult} {thread : ℕ}
    {posted : Rtm} {events : List RtmEvent}
    (hcall : step lib rtm (.call (.other thread) operation result) = some posted)
    (hrun : Run (step lib) AnyStep posted events t) (ht : t.phase.isRunning = true) :
    Unpublished rtm.states.length t := by
  apply invariant_of_isRunning hrun ht
  · cases steps_of_step hcall with
    | postedCall => exact Or.inl List.getElem?_concat_length
  · exact fun h hstep hnext => h.step hstep hnext

/-- From the execution of its task on, the future holds the result of the direct
call unseen. -/
theorem Executes.stored_of_run {operation : Operation} {result : RequestResult} {k : ℕ}
    {before executed : Rtm} {later : List RtmEvent}
    (h : Executes lib operation result k before executed)
    (hlater : Run (step lib) AnyStep executed later t) (ht : t.phase.isRunning = true) :
    t.states[k]? = some (.atThreadExit (outcome lib result operation)) := by
  induction hlater with
  | nil => exact h.stored ht
  | snoc _ _ hstep ih =>
      have hbefore := (steps_of_step hstep).isRunning ht
      exact stored_of_step (ih hbefore) hstep ht

/-- When the worker leaves its function the two calls agree. -/
theorem agreesWithDirect_exit {operation : Operation} {result : RequestResult} {k : ℕ}
    {before executed : Rtm} {later : List RtmEvent}
    (hexecuted : Executes lib operation result k before executed)
    (hlater : Run (step lib) AnyStep executed later t) (ht : t.phase.isRunning = true) :
    AgreesWithDirect lib operation result k before t.exit := by
  obtain ⟨direct, after, hdirect, hready⟩ := call_worker lib operation result before
  refine ⟨_, direct, after, hdirect, hready, ?_⟩
  rw [exit, Store.getElem?_threadExit, hexecuted.stored_of_run hlater ht]
  rfl

/-- In no run and for no operation, argument, starting state and result does the
posted call agree with the direct one while the worker runs. -/
theorem posted_not_agreesWithDirect {operation : Operation} {result : RequestResult}
    {thread : ℕ} {posted before executed : Rtm} {events later : List RtmEvent}
    (hcall : step lib rtm (.call (.other thread) operation result) = some posted)
    (hrun : Run (step lib) AnyStep posted events before)
    (hexecuted : Executes lib operation result rtm.states.length before executed)
    (hlater : Run (step lib) AnyStep executed later t) (ht : t.phase.isRunning = true) :
    ¬AgreesWithDirect lib operation result rtm.states.length before t := by
  obtain ⟨tasks, second, -, hstep⟩ := hexecuted
  have hwhole : Run (step lib) AnyStep posted (events ++ [.runTask result second] ++ later) t :=
    (hrun.snoc trivial hstep).append hlater
  rintro ⟨outcome, -, -, -, -, hready⟩
  rcases unpublished_of_run hcall hwhole ht with hempty | ⟨stored, hstored⟩
  · simp [hempty] at hready
  · simp [hstored] at hready

/-- The request of an operation has failed. -/
def requestTimeout : RequestResult := ⟨.error (.runtimeError "request timeout"), 0⟩

/-- The main thread's `login` fails, and its future is not ready. -/
theorem posted_not_agreesWithDirect_login :
    ∃ posted before executed,
      step nullLibrary (start "" "" {}) (.call (.other 0) .login requestTimeout) = some posted ∧
      Run (step nullLibrary) AnyStep posted [.test] before ∧
      Executes nullLibrary .login requestTimeout 0 before executed ∧
      executed.phase.isRunning = true ∧
      ¬AgreesWithDirect nullLibrary .login requestTimeout 0 before executed := by
  obtain ⟨posted, before, executed, hcall, hrun, htasks, hstep, hrunning⟩ :
      ∃ posted before executed,
        step nullLibrary (start "" "" {}) (.call (.other 0) .login requestTimeout) =
          some posted ∧
        [RtmEvent.test].foldlM (step nullLibrary) posted = some before ∧
        before.tasks = [.operation .login 0] ∧
        step nullLibrary before (.runTask requestTimeout requestTimeout) = some executed ∧
        executed.phase.isRunning = true :=
    ⟨_, _, _, rfl, rfl, rfl, rfl, rfl⟩
  have hexecuted : Executes nullLibrary .login requestTimeout 0 before executed :=
    ⟨[], requestTimeout, htasks, hstep⟩
  exact ⟨posted, before, executed, hcall, run_of_foldlM hrun, hexecuted, hrunning,
    posted_not_agreesWithDirect hcall (run_of_foldlM hrun) hexecuted .nil hrunning⟩

/-- The main thread subscribes; the worker has executed the task and goes on. -/
theorem subscribe_future_not_ready :
    ∃ posted before executed direct after,
      step nullLibrary (start "" "" {}) (.call (.other 0) (.subscribe "a") ⟨.ok .null, 5⟩) =
        some posted ∧
      Run (step nullLibrary) AnyStep posted [.test] before ∧
      Executes nullLibrary (.subscribe "a") ⟨.ok .null, 5⟩ 0 before executed ∧
      executed.phase.isRunning = true ∧
      call nullLibrary (.subscribe "a") .worker ⟨.ok .null, 5⟩ before = (direct, after) ∧
      after.states[direct]? = some (.ready (.ok (.subscribe ⟨5, "a"⟩))) ∧
      executed.states[0]? = some (.atThreadExit (.ok (.subscribe ⟨5, "a"⟩))) ∧
      ¬AgreesWithDirect nullLibrary (.subscribe "a") ⟨.ok .null, 5⟩ 0 before executed := by
  obtain ⟨posted, before, executed, hcall, hrun, htasks, hstep, hrunning, hstored⟩ :
      ∃ posted before executed,
        step nullLibrary (start "" "" {}) (.call (.other 0) (.subscribe "a") ⟨.ok .null, 5⟩) =
          some posted ∧
        [RtmEvent.test].foldlM (step nullLibrary) posted = some before ∧
        before.tasks = [.operation (.subscribe "a") 0] ∧
        step nullLibrary before (.runTask ⟨.ok .null, 5⟩ requestTimeout) = some executed ∧
        executed.phase.isRunning = true ∧
        executed.states[0]? = some (.atThreadExit (.ok (.subscribe ⟨5, "a"⟩))) :=
    ⟨_, _, _, rfl, rfl, rfl, rfl, rfl, rfl⟩
  obtain ⟨direct, after, hdirect, hready⟩ :=
    call_worker nullLibrary (.subscribe "a") ⟨.ok .null, 5⟩ before
  refine ⟨posted, before, executed, direct, after, hcall, run_of_foldlM hrun,
    ⟨[], requestTimeout, htasks, hstep⟩, hrunning, hdirect, hready, hstored, ?_⟩
  rintro ⟨outcome, -, -, -, -, hnever⟩
  simp [hstored] at hnever

end Rtm

end Protoo
