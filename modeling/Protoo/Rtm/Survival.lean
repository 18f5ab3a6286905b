import Protoo.Rtm.Bridge
import Protoo.Support.Record

/-!
# The worker and its failing tasks

The tasks are executed in the order in which they were posted, each once.  The
tasks of `login`, `logout`, `subscribe` and `unsubscribe` catch every exception;
the reconnect task does not, and neither does the loop.  An exception that leaves
a task ends the process, so the worker survives exactly when no code of the
application throws and both requests of every reconnect succeed.
-/

namespace Protoo

open Protoo.Support

/-- The promise that a posted operation is to satisfy. -/
def RtmTask.promise : RtmTask → Option ℕ
  | .operation _ promise => some promise
  | _ => none

namespace Rtm

/-! ## Tasks posted and executed -/

/-- The task that an event posts. -/
def postedBy (rtm : Rtm) : RtmEvent → Rtm → List RtmTask
  | .call (.other _) operation _, _ => [.operation operation rtm.states.length]
  | .publish _ channelName message, _ => [.publish channelName message]
  | .invokeTask _, _ => [.application]
  | .listener call, _ => [.listener call]
  | .peerReconnected, _ => [.reconnected]
  | _, _ => []

/-- The task that an event executes. -/
def executedBy (rtm : Rtm) : RtmEvent → Rtm → List RtmTask
  | .runTask _ _, _ => rtm.tasks.head?.toList
  | _, _ => []

/-- The tasks posted in a run, in its order. -/
def posted (lib : JsonLibrary) (start : Rtm) (events : List RtmEvent) : List RtmTask :=
  record (step lib) postedBy start events

/-- The tasks executed in a run, in its order. -/
def executed (lib : JsonLibrary) (start : Rtm) (events : List RtmEvent) : List RtmTask :=
  record (step lib) executedBy start events

variable {lib : JsonLibrary} {rtm t : Rtm} {e : RtmEvent}

/-- A task takes no task from the queue, and posts none. -/
theorem Ran.tasks {first second : RequestResult} {task : RtmTask}
    (h : Ran lib first second rtm task t) : t.tasks = rtm.tasks := by
  cases h <;> rfl

/-- Posting appends to the queue and executing takes from its front. -/
theorem Steps.tasks (h : Steps lib rtm e t) :
    rtm.tasks ++ postedBy rtm e t = executedBy rtm e t ++ t.tasks := by
  cases h with
  | runTask first second task tasks t hphase htasks hran =>
      rw [executedBy, htasks, hran.tasks]
      exact List.append_nil _
  | postedCall | directPublish | postedPublish | invokeTask | listener | peerReconnected => rfl
  | _ => exact List.append_nil _

theorem executed_append_tasks {start : Rtm} {events : List RtmEvent}
    (hrun : Run (step lib) AnyStep start events rtm) (hstart : start.tasks = []) :
    executed lib start events ++ rtm.tasks = posted lib start events := by
  have hbalance : start.tasks ++ posted lib start events =
      executed lib start events ++ rtm.tasks :=
    hrun.balance fun _ _ hstep => (steps_of_step hstep).tasks
  rw [hstart] at hbalance
  exact hbalance.symm

/-! ## The promises of the posted operations -/

/-- The promises of the operations in the queue. -/
def promises (rtm : Rtm) : List ℕ := rtm.tasks.filterMap RtmTask.promise

/-- Every operation in the queue has a promise of its own, which has no result. -/
structure PromisesFresh (rtm : Rtm) : Prop where
  nodup : rtm.promises.Nodup
  empty : ∀ promise ∈ rtm.promises, rtm.states[promise]? = some .empty

theorem PromisesFresh.congr (h : PromisesFresh rtm) (hpromises : t.promises.Sublist rtm.promises)
    (hstates : ∀ promise ∈ t.promises,
      rtm.states[promise]? = some .empty → t.states[promise]? = some .empty) :
    PromisesFresh t where
  nodup := h.nodup.sublist hpromises
  empty := fun promise hmem => hstates promise hmem (h.empty promise (hpromises.subset hmem))

/-- Posting a task that has no promise. -/
theorem PromisesFresh.append (h : PromisesFresh rtm) {task : RtmTask} {calls : List PeerCall}
    (htask : task.promise = none) :
    PromisesFresh { rtm with tasks := rtm.tasks ++ [task], calls := calls } := by
  refine h.congr ?_ fun _ _ hempty => hempty
  rw [promises, List.filterMap_append, List.filterMap_cons_none htask, List.filterMap_nil,
    List.append_nil]
  exact List.Sublist.refl _

/-- Posting an operation with a promise made for it. -/
theorem PromisesFresh.post (h : PromisesFresh rtm) (operation : Operation) :
    PromisesFresh { rtm with
      states := rtm.states.make
      tasks := rtm.tasks ++ [.operation operation rtm.states.length] } := by
  have hpromises : ({ rtm with
      states := rtm.states.make
      tasks := rtm.tasks ++ [.operation operation rtm.states.length] } : Rtm).promises =
        rtm.promises ++ [rtm.states.length] := List.filterMap_append
  constructor
  · rw [hpromises, List.nodup_append]
    refine ⟨h.nodup, List.nodup_singleton _, ?_⟩
    rintro promise hmem _ hnew rfl
    obtain rfl := List.mem_singleton.mp hnew
    have hbound := (List.getElem?_eq_some_iff.mp (h.empty _ hmem)).1
    exact absurd hbound (lt_irrefl _)
  · intro promise hmem
    rw [hpromises] at hmem
    rw [Store.getElem?_make]
    rcases List.mem_append.mp hmem with hold | hnew
    · have hempty := h.empty promise hold
      have hbound := (List.getElem?_eq_some_iff.mp hempty).1
      rw [if_neg (Nat.ne_of_lt hbound)]
      exact hempty
    · exact if_pos (List.mem_singleton.mp hnew)

theorem PromisesFresh.drop {task : RtmTask} {tasks : List RtmTask} (h : PromisesFresh rtm)
    (htasks : rtm.tasks = task :: tasks) : PromisesFresh { rtm with tasks } := by
  refine h.congr ?_ fun _ _ hempty => hempty
  have hrest := (List.sublist_cons_self task tasks).filterMap RtmTask.promise
  rw [← htasks] at hrest
  exact hrest

/-- The promise of the operation executed first has no result, and the others are
different from it. -/
theorem PromisesFresh.head {operation : Operation} {promise : ℕ} {tasks : List RtmTask}
    (h : PromisesFresh rtm) (htasks : rtm.tasks = .operation operation promise :: tasks) :
    rtm.states[promise]? = some .empty ∧ promise ∉ ({ rtm with tasks } : Rtm).promises := by
  have hpromises : rtm.promises = promise :: ({ rtm with tasks } : Rtm).promises := by
    rw [promises, htasks]
    rfl
  have hnodup := h.nodup
  rw [hpromises] at hnodup
  refine ⟨h.empty promise ?_, (List.nodup_cons.mp hnodup).1⟩
  rw [hpromises]
  exact List.mem_cons_self

theorem PromisesFresh.step (h : PromisesFresh rtm) (hstep : step lib rtm e = some t) :
    PromisesFresh t := by
  cases steps_of_step hstep with
  | directCall operation result =>
      refine h.congr (List.Sublist.refl _) fun promise _ hempty => ?_
      have hbound := (List.getElem?_eq_some_iff.mp hempty).1
      exact (List.getElem?_append_left hbound).trans hempty
  | postedCall thread operation => exact h.post operation
  | directPublish | postedPublish | invokeTask | listener | peerReconnected => exact h.append rfl
  | exit =>
      refine h.congr (List.Sublist.refl _) fun promise _ hempty => ?_
      rw [Rtm.exit, Store.getElem?_threadExit, hempty]
      rfl
  | runTask first second task tasks t hphase htasks hran =>
      have hrest := h.drop htasks
      cases hran with
      | operation operation promise hempty =>
          obtain ⟨-, hnot⟩ := h.head htasks
          refine hrest.congr (List.Sublist.refl _) fun promise' hmem hempty' => ?_
          have hne : promise' ≠ promise := fun heq => hnot (heq ▸ hmem)
          rw [Store.getElem?_set_of_empty hempty, if_neg hne]
          exact hempty'
      | _ => exact hrest.congr (List.Sublist.refl _) fun _ _ hempty => hempty
  | _ => exact h.congr (List.Sublist.refl _) fun _ _ hempty => hempty

/-! ## Exceptions -/

/-- Both requests of a reconnect task succeed. -/
def TaskSucceeds (lib : JsonLibrary) (first second : RequestResult) (rtm : Rtm) :
    RtmTask → Prop
  | .reconnected => succeeds lib first .login = true ∧
      succeeds lib second (.subscribe rtm.channelName) = true
  | _ => True

instance (lib : JsonLibrary) (first second : RequestResult) (rtm : Rtm) :
    (task : RtmTask) → Decidable (TaskSucceeds lib first second rtm task)
  | .reconnected => inferInstanceAs (Decidable (_ ∧ _))
  | .operation _ _ => isTrue trivial
  | .publish _ _ => isTrue trivial
  | .listener _ => isTrue trivial
  | .application => isTrue trivial

/-- No code of the application throws, and both requests of an executed reconnect
task succeed. -/
def NothingThrows (lib : JsonLibrary) (rtm : Rtm) : RtmEvent → Prop
  | .callbackThrow => False
  | .runTask first second => ∀ task ∈ rtm.tasks.head?, TaskSucceeds lib first second rtm task
  | _ => True

instance (lib : JsonLibrary) (rtm : Rtm) : (e : RtmEvent) → Decidable (NothingThrows lib rtm e)
  | .callbackThrow => isFalse id
  | .runTask _ _ => inferInstanceAs (Decidable (∀ task ∈ rtm.tasks.head?, _))
  | .call _ _ _ => isTrue trivial
  | .publish _ _ _ => isTrue trivial
  | .invokeTask _ => isTrue trivial
  | .listener _ => isTrue trivial
  | .peerReconnected => isTrue trivial
  | .stop => isTrue trivial
  | .test => isTrue trivial
  | .callbackReturn => isTrue trivial

theorem nothingThrows_runTask {first second : RequestResult} {task : RtmTask}
    {tasks : List RtmTask} (htasks : rtm.tasks = task :: tasks) :
    NothingThrows lib rtm (.runTask first second) ↔ TaskSucceeds lib first second rtm task := by
  simp [NothingThrows, htasks]

/-- The worker has not been terminated. -/
def Alive (rtm : Rtm) : Prop := rtm.phase ≠ .terminated

/-- A reconnect task tells the listener exactly when both of its requests have
succeeded. -/
def ReportsReconnect (lib : JsonLibrary) (rtm : Rtm) (e : RtmEvent) (t : Rtm) : Prop :=
  ∀ first second tasks, e = .runTask first second → rtm.tasks = .reconnected :: tasks →
    (t.listenerCalls = rtm.listenerCalls ++ [.onReconnected] ↔
      succeeds lib first .login = true ∧
        succeeds lib second (.subscribe rtm.channelName) = true)

/-- No exception leaves the worker's function, every task is executed or waits, in the
order of posting, and reconnects are reported as they succeed. -/
structure Survives (lib : JsonLibrary) (start : Rtm) (events : List RtmEvent) (rtm : Rtm) :
    Prop where
  alive : Throughout (step lib) start events Alive
  inOrder : executed lib start events ++ rtm.tasks = posted lib start events
  reported : Everywhere (step lib) start events (ReportsReconnect lib)

theorem reportsReconnect_of_step (hstep : step lib rtm e = some t) :
    ReportsReconnect lib rtm e t := by
  rintro first second tasks rfl htasks
  have hnot : ∀ calls : List RtmListenerCall, calls ≠ calls ++ [.onReconnected] := by simp
  cases ran_of_step htasks hstep with
  | loginFails hlogin => exact iff_of_false (hnot _) fun h => by simp [hlogin] at h
  | subscribeFails hlogin hsubscribe =>
      refine iff_of_false (hnot _) fun h => ?_
      exact Bool.noConfusion (h.2.symm.trans hsubscribe)
  | reconnected hlogin hsubscribe => exact iff_of_true rfl ⟨hlogin, hsubscribe⟩

/-- What keeps the worker alive as long as nothing throws. -/
structure AliveInv (rtm : Rtm) : Prop where
  alive : Alive rtm
  fresh : PromisesFresh rtm

theorem AliveInv.step (h : AliveInv rtm) (hC : NothingThrows lib rtm e)
    (hstep : step lib rtm e = some t) : AliveInv t := by
  refine ⟨?_, h.fresh.step hstep⟩
  have halive := h.alive
  cases steps_of_step hstep with
  | callbackThrow => exact hC.elim
  | runTask first second task tasks t hphase htasks hran =>
      have hrunning : ({ rtm with tasks } : Rtm).phase ≠ .terminated := halive
      cases hran with
      | satisfied operation promise hempty => exact absurd (h.fresh.head htasks).1 hempty
      | loginFails hlogin =>
          exact Bool.noConfusion (hlogin.symm.trans ((nothingThrows_runTask htasks).mp hC).1)
      | subscribeFails hlogin hsubscribe =>
          exact Bool.noConfusion
            (hsubscribe.symm.trans ((nothingThrows_runTask htasks).mp hC).2)
      | operation | publish => exact hrunning
      | listener | reconnected | application => exact WorkerPhase.noConfusion
  | drain | exit | drained | callbackReturn => exact WorkerPhase.noConfusion
  | _ => exact halive

theorem nothingThrows_of_alive (hstep : step lib rtm e = some t) (ht : Alive t) :
    NothingThrows lib rtm e := by
  cases steps_of_step hstep with
  | callbackThrow => exact absurd rfl ht
  | runTask first second task tasks t hphase htasks hran =>
      rw [nothingThrows_runTask htasks]
      cases hran with
      | loginFails => exact absurd rfl ht
      | subscribeFails => exact absurd rfl ht
      | reconnected hlogin hsubscribe => exact ⟨hlogin, hsubscribe⟩
      | _ => trivial
  | _ => trivial

theorem aliveInv_start (appId userId : String) (config : RtmConfig) :
    AliveInv (start appId userId config) := by
  refine ⟨WorkerPhase.noConfusion, ⟨List.nodup_nil, ?_⟩⟩
  intro promise hmem
  exact absurd hmem List.not_mem_nil

/-- The worker survives a run exactly when nothing throws in it. -/
theorem survives_iff {appId userId : String} {config : RtmConfig} {events : List RtmEvent}
    (hrun : Run (step lib) AnyStep (start appId userId config) events rtm) :
    Survives lib (start appId userId config) events rtm ↔
      Run (step lib) (NothingThrows lib) (start appId userId config) events rtm := by
  have hiff : Throughout (step lib) (start appId userId config) events Alive ↔
      Run (step lib) (NothingThrows lib) (start appId userId config) events rtm :=
    hrun.throughout_iff (aliveInv_start appId userId config) AliveInv.alive AliveInv.step
      fun _ => nothingThrows_of_alive
  constructor
  · exact fun h => hiff.mp h.alive
  · intro h
    refine ⟨hiff.mpr h, executed_append_tasks hrun rfl, ?_⟩
    exact fun _ _ _ _ _ _ hstep => reportsReconnect_of_step hstep

/-- The connection comes back, the server refuses the token, and a publish is posted
behind the reconnect task. -/
def refusedReconnectRun : List RtmEvent :=
  [.peerReconnected, .publish (.other 0) "a" "hello", .test,
    .runTask requestTimeout requestTimeout]

theorem survives_iff_refusedReconnect :
    ∃ rtm, Run (step nullLibrary) AnyStep (start "" "" {}) refusedReconnectRun rtm ∧
      (Survives nullLibrary (start "" "" {}) refusedReconnectRun rtm ↔
        Run (step nullLibrary) (NothingThrows nullLibrary) (start "" "" {})
          refusedReconnectRun rtm) := by
  obtain ⟨rtm, hrun⟩ : ∃ rtm, refusedReconnectRun.foldlM (step nullLibrary) (start "" "" {}) =
      some rtm := ⟨_, rfl⟩
  exact ⟨rtm, run_of_foldlM hrun, survives_iff (run_of_foldlM hrun)⟩

/-- The refused login ends the process, and the publish is never executed. -/
theorem refused_reconnect_terminates :
    ∃ rtm, Run (step nullLibrary) AnyStep (start "" "" {}) refusedReconnectRun rtm ∧
      rtm.phase = .terminated ∧ rtm.tasks = [.publish "a" "hello"] ∧
      ¬Survives nullLibrary (start "" "" {}) refusedReconnectRun rtm := by
  obtain ⟨rtm, hrun, hphase, htasks⟩ :
      ∃ rtm, refusedReconnectRun.foldlM (step nullLibrary) (start "" "" {}) = some rtm ∧
        rtm.phase = .terminated ∧ rtm.tasks = [.publish "a" "hello"] :=
    ⟨_, rfl, rfl, rfl⟩
  refine ⟨rtm, run_of_foldlM hrun, hphase, htasks, ?_⟩
  exact fun h => h.alive.of_run (run_of_foldlM hrun) hphase

end Rtm

end Protoo
