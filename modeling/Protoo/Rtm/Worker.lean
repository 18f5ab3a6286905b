import Protoo.Rtm.Core
import Protoo.Support.Run

/-!
# The worker thread and the threads around it

`Rtm.step` interleaves the worker's loop with calls of the public functions from
any thread, with the handlers that `connect` installs, which run on the service
thread and post a task each, and with the destructor's `m_bRunning.store(false)`.
A call made on the worker thread comes from code of the application that a task
has called, and is not interrupted by the loop.

The other threads touch `tasks` and make promises, nothing else, so a function
that runs on the worker thread is one step.
-/

namespace Protoo

open Protoo.Support

inductive RtmEvent where
  | call (caller : Caller) (operation : Operation) (result : RequestResult)
  | publish (caller : Caller) (channelName message : String)
  | invokeTask (caller : Caller)
  | listener (call : RtmListenerCall)
  | peerReconnected
  | stop
  | test
  | runTask (first second : RequestResult)
  | callbackReturn
  | callbackThrow

/-- The caller's thread is in code of the application. -/
def Caller.canCall (phase : WorkerPhase) : Caller → Bool
  | .worker => decide (phase = .callback)
  | .other _ => decide (phase ≠ .terminated)

namespace Rtm

/-- The state that the constructor leaves. -/
def start (appId userId : String) (config : RtmConfig) : Rtm := { appId, userId, config }

/-- The worker leaves its function. -/
def exit (rtm : Rtm) : Rtm :=
  { rtm with phase := .exited, states := rtm.states.threadExit }

def step (lib : JsonLibrary) (rtm : Rtm) : RtmEvent → Option Rtm
  | .call caller operation result =>
      if caller.canCall rtm.phase then some (call lib operation caller result rtm).2 else none
  | .publish caller channelName message =>
      if caller.canCall rtm.phase then some (rtm.publish caller channelName message) else none
  | .invokeTask caller =>
      if caller.canCall rtm.phase then some (rtm.invokeTask .application) else none
  | .listener call =>
      if rtm.phase ≠ .terminated ∧ call ≠ .onReconnected then
        some (rtm.invokeTask (.listener call))
      else
        none
  | .peerReconnected =>
      if rtm.phase ≠ .terminated then some (rtm.invokeTask .reconnected) else none
  | .stop => if rtm.phase ≠ .terminated then some { rtm with running := false } else none
  | .test =>
      match rtm.phase, rtm.tasks with
      | .outerLoop, _ => some (if rtm.running then { rtm with phase := .innerLoop } else rtm.exit)
      | .innerLoop, [] => some { rtm with phase := .outerLoop }
      | _, _ => none
  | .runTask first second =>
      match rtm.phase, rtm.tasks with
      | .innerLoop, task :: tasks =>
          some (({ rtm with tasks } : Rtm).runTask lib first second task)
      | _, _ => none
  | .callbackReturn =>
      if rtm.phase = .callback then some { rtm with phase := .innerLoop } else none
  | .callbackThrow => if rtm.phase = .callback then some rtm.terminate else none

/-! ## What an operation does -/

/-- The request that an operation makes. -/
def peerCall (rtm : Rtm) : Operation → PeerCall
  | .login => .request "login" rtm.loginData
  | .logout => .request "logout" (.ofInitializers [("peerId", .string rtm.userId)])
  | .subscribe channelName => .request "joinChannel" (channelData channelName)
  | .unsubscribe channelName => .request "leaveChannel" (channelData channelName)

/-- The operation succeeds: its request does, and for `login` the response can be
written to the log. -/
def succeeds (lib : JsonLibrary) (result : RequestResult) : Operation → Bool
  | .login => (result.reply >>= lib.dump).isOk
  | _ => result.reply.isOk

/-- The value of a successful operation. -/
def response (timestamp : ℤ) : Operation → OperationResponse
  | .login => .login { timeToken := 0 }
  | .logout => .logout { timeToken := timestamp }
  | .subscribe channelName => .subscribe { timeToken := timestamp, channelName }
  | .unsubscribe channelName => .unsubscribe { timeToken := timestamp, channelName }

/-- The result in a future whose operation has succeeded or failed. -/
def settled {α : Type} (succeeded : Bool) (response : α) : Except Exception α :=
  if succeeded then .ok response else .error (.runtimeError "request timeout")

/-- What the future of an operation holds. -/
def outcome (lib : JsonLibrary) (result : RequestResult) (operation : Operation) : Outcome :=
  settled (succeeds lib result operation) (response result.timestamp operation)

/-- The channel kept for reconnects after an operation that succeeded or failed. -/
def channelAfter (channelName : String) : Operation → Bool → String
  | .subscribe channelName', true => channelName'
  | _, _ => channelName

/-- What an operation leaves behind. -/
def perform (lib : JsonLibrary) (operation : Operation) (result : RequestResult) (rtm : Rtm) :
    Rtm :=
  { rtm with
    calls := rtm.calls ++ [rtm.peerCall operation]
    channelName := channelAfter rtm.channelName operation (succeeds lib result operation)
    performed := rtm.performed ++ [(operation, succeeds lib result operation)] }

theorem call_eq (lib : JsonLibrary) (operation : Operation) :
    call lib operation = bridge lib operation := by
  cases operation <;> rfl

theorem loginInternal_eq (lib : JsonLibrary) (result : RequestResult) (rtm : Rtm) :
    rtm.loginInternal lib result =
      (settled (succeeds lib result .login) { timeToken := 0 },
        rtm.perform lib .login result) := by
  obtain ⟨reply, timestamp⟩ := result
  cases reply with
  | error error => rfl
  | ok retJson =>
      simp only [loginInternal, internal, perform, succeeds, peerCall, except_ok_bind]
      cases hdump : lib.dump retJson with
      | error error => rfl
      | ok text => rfl

theorem logoutInternal_eq (lib : JsonLibrary) (result : RequestResult) (rtm : Rtm) :
    rtm.logoutInternal result =
      (settled (succeeds lib result .logout) { timeToken := result.timestamp },
        rtm.perform lib .logout result) := by
  obtain ⟨reply, timestamp⟩ := result
  cases reply <;> rfl

theorem subscribeInternal_eq (lib : JsonLibrary) (channelName : String)
    (result : RequestResult) (rtm : Rtm) :
    rtm.subscribeInternal channelName result =
      (settled (succeeds lib result (.subscribe channelName))
          { timeToken := result.timestamp, channelName },
        rtm.perform lib (.subscribe channelName) result) := by
  obtain ⟨reply, timestamp⟩ := result
  cases reply <;> rfl

theorem unsubscribeInternal_eq (lib : JsonLibrary) (channelName : String)
    (result : RequestResult) (rtm : Rtm) :
    rtm.unsubscribeInternal channelName result =
      (settled (succeeds lib result (.unsubscribe channelName))
          { timeToken := result.timestamp, channelName },
        rtm.perform lib (.unsubscribe channelName) result) := by
  obtain ⟨reply, timestamp⟩ := result
  cases reply <;> rfl

theorem map_settled {α β : Type} (f : α → β) (succeeded : Bool) (response : α) :
    (settled succeeded response).map f = settled succeeded (f response) := by
  cases succeeded <;> rfl

theorem operationInternal_eq (lib : JsonLibrary) (operation : Operation)
    (result : RequestResult) (rtm : Rtm) :
    rtm.operationInternal lib operation result =
      (outcome lib result operation, rtm.perform lib operation result) := by
  cases operation with
  | login => simp [operationInternal, loginInternal_eq, map_settled, outcome, response]
  | logout => simp [operationInternal, logoutInternal_eq lib, map_settled, outcome, response]
  | subscribe channelName =>
      simp [operationInternal, subscribeInternal_eq lib, map_settled, outcome, response]
  | unsubscribe channelName =>
      simp [operationInternal, unsubscribeInternal_eq lib, map_settled, outcome, response]

/-! ## What a task can do -/

/-- The state after a task. -/
inductive Ran (lib : JsonLibrary) (first second : RequestResult) (rtm : Rtm) :
    RtmTask → Rtm → Prop where
  | operation (operation : Operation) (promise : ℕ) (hempty : rtm.states[promise]? = some .empty) :
      Ran lib first second rtm (.operation operation promise)
        { rtm.perform lib operation first with
          states := rtm.states.set promise (.atThreadExit (outcome lib first operation)) }
  | satisfied (operation : Operation) (promise : ℕ)
      (hempty : rtm.states[promise]? ≠ some .empty) :
      Ran lib first second rtm (.operation operation promise)
        (rtm.perform lib operation first).terminate
  | publish (channelName message : String) :
      Ran lib first second rtm (.publish channelName message)
        (rtm.publishInternal channelName message)
  | listener (call : RtmListenerCall) :
      Ran lib first second rtm (.listener call) (rtm.callListener call)
  | loginFails (hlogin : succeeds lib first .login = false) :
      Ran lib first second rtm .reconnected (rtm.perform lib .login first).terminate
  | subscribeFails (hlogin : succeeds lib first .login = true)
      (hsubscribe : succeeds lib second (.subscribe rtm.channelName) = false) :
      Ran lib first second rtm .reconnected
        ((rtm.perform lib .login first).perform lib (.subscribe rtm.channelName)
          second).terminate
  | reconnected (hlogin : succeeds lib first .login = true)
      (hsubscribe : succeeds lib second (.subscribe rtm.channelName) = true) :
      Ran lib first second rtm .reconnected
        (((rtm.perform lib .login first).perform lib (.subscribe rtm.channelName)
          second).callListener .onReconnected)
  | application : Ran lib first second rtm .application { rtm with phase := .callback }

theorem ran_runTask (lib : JsonLibrary) (first second : RequestResult) (rtm : Rtm)
    (task : RtmTask) : Ran lib first second rtm task (rtm.runTask lib first second task) := by
  cases task with
  | operation operation promise =>
      simp only [runTask, runOperation, operationInternal_eq]
      cases hsatisfy : Store.satisfyAtThreadExit promise (outcome lib first operation)
        (rtm.perform lib operation first).states with
      | some states =>
          obtain ⟨hempty, rfl⟩ := Store.satisfyAtThreadExit_eq_some_iff.mp hsatisfy
          exact .operation operation promise hempty
      | none =>
          refine .satisfied operation promise ?_
          intro hempty
          have hsome := Store.satisfyAtThreadExit_eq_some_iff.mpr
            (⟨hempty, rfl⟩ : _ ∧ _ = List.set rtm.states promise
              (.atThreadExit (outcome lib first operation)))
          exact absurd (hsatisfy.symm.trans hsome) (by simp)
  | publish channelName message => exact .publish channelName message
  | listener call => exact .listener call
  | reconnected =>
      simp only [runTask, runReconnected, loginInternal_eq, subscribeInternal_eq lib]
      cases hlogin : succeeds lib first .login with
      | false => exact .loginFails hlogin
      | true =>
          cases hsubscribe : succeeds lib second (.subscribe rtm.channelName) with
          | false =>
              have h : Ran lib first second rtm .reconnected _ := .subscribeFails hlogin hsubscribe
              simpa [settled, perform, channelAfter, hsubscribe, hlogin] using h
          | true =>
              have h : Ran lib first second rtm .reconnected _ := .reconnected hlogin hsubscribe
              simpa [settled, perform, channelAfter, hsubscribe, hlogin] using h
  | application => exact .application

/-! ## What a step can do -/

inductive Steps (lib : JsonLibrary) (rtm : Rtm) : RtmEvent → Rtm → Prop where
  | directCall (operation : Operation) (result : RequestResult) (hphase : rtm.phase = .callback) :
      Steps lib rtm (.call .worker operation result)
        { rtm.perform lib operation result with
          states := rtm.states ++ [.ready (outcome lib result operation)] }
  | postedCall (thread : ℕ) (operation : Operation) (result : RequestResult)
      (hphase : rtm.phase ≠ .terminated) :
      Steps lib rtm (.call (.other thread) operation result)
        { rtm with
          states := rtm.states.make
          tasks := rtm.tasks ++ [.operation operation rtm.states.length] }
  | directPublish (channelName message : String) (hphase : rtm.phase = .callback) :
      Steps lib rtm (.publish .worker channelName message)
        { rtm.publishInternal channelName message with
          tasks := rtm.tasks ++ [.publish channelName message] }
  | postedPublish (thread : ℕ) (channelName message : String)
      (hphase : rtm.phase ≠ .terminated) :
      Steps lib rtm (.publish (.other thread) channelName message)
        { rtm with tasks := rtm.tasks ++ [.publish channelName message] }
  | invokeTask (caller : Caller) (hcall : caller.canCall rtm.phase = true) :
      Steps lib rtm (.invokeTask caller) { rtm with tasks := rtm.tasks ++ [.application] }
  | listener (call : RtmListenerCall) (hphase : rtm.phase ≠ .terminated)
      (hcall : call ≠ .onReconnected) :
      Steps lib rtm (.listener call) { rtm with tasks := rtm.tasks ++ [.listener call] }
  | peerReconnected (hphase : rtm.phase ≠ .terminated) :
      Steps lib rtm .peerReconnected { rtm with tasks := rtm.tasks ++ [.reconnected] }
  | stop (hphase : rtm.phase ≠ .terminated) : Steps lib rtm .stop { rtm with running := false }
  | drain (hphase : rtm.phase = .outerLoop) (hrunning : rtm.running = true) :
      Steps lib rtm .test { rtm with phase := .innerLoop }
  | exit (hphase : rtm.phase = .outerLoop) (hrunning : rtm.running = false) :
      Steps lib rtm .test rtm.exit
  | drained (hphase : rtm.phase = .innerLoop) (htasks : rtm.tasks = []) :
      Steps lib rtm .test { rtm with phase := .outerLoop }
  | runTask (first second : RequestResult) (task : RtmTask) (tasks : List RtmTask) (t : Rtm)
      (hphase : rtm.phase = .innerLoop) (htasks : rtm.tasks = task :: tasks)
      (hran : Ran lib first second { rtm with tasks } task t) :
      Steps lib rtm (.runTask first second) t
  | callbackReturn (hphase : rtm.phase = .callback) :
      Steps lib rtm .callbackReturn { rtm with phase := .innerLoop }
  | callbackThrow (hphase : rtm.phase = .callback) : Steps lib rtm .callbackThrow rtm.terminate

/-- The inversion lemma of `step`. -/
theorem steps_of_step {lib : JsonLibrary} {rtm t : Rtm} {e : RtmEvent}
    (h : step lib rtm e = some t) : Steps lib rtm e t := by
  cases e with
  | call caller operation result =>
      simp only [step, Option.ite_none_right_eq_some, call_eq, Option.some.injEq] at h
      obtain ⟨hcall, rfl⟩ := h
      cases caller with
      | worker =>
          simp only [bridge, isRunningOnWorkerThread, if_true, operationInternal_eq]
          exact .directCall operation result (of_decide_eq_true hcall)
      | other thread => exact .postedCall thread operation result (of_decide_eq_true hcall)
  | publish caller channelName message =>
      simp only [step, Option.ite_none_right_eq_some, Option.some.injEq] at h
      obtain ⟨hcall, rfl⟩ := h
      cases caller with
      | worker => exact .directPublish channelName message (of_decide_eq_true hcall)
      | other thread =>
          exact .postedPublish thread channelName message (of_decide_eq_true hcall)
  | invokeTask caller =>
      simp only [step, Option.ite_none_right_eq_some, Option.some.injEq] at h
      obtain ⟨hcall, rfl⟩ := h
      exact .invokeTask caller hcall
  | listener call =>
      simp only [step, Option.ite_none_right_eq_some, Option.some.injEq] at h
      obtain ⟨⟨hphase, hcall⟩, rfl⟩ := h
      exact .listener call hphase hcall
  | peerReconnected =>
      simp only [step, Option.ite_none_right_eq_some, Option.some.injEq] at h
      obtain ⟨hphase, rfl⟩ := h
      exact .peerReconnected hphase
  | stop =>
      simp only [step, Option.ite_none_right_eq_some, Option.some.injEq] at h
      obtain ⟨hphase, rfl⟩ := h
      exact .stop hphase
  | test =>
      simp only [step] at h
      split at h
      next hphase =>
        obtain rfl := Option.some.inj h
        by_cases hrunning : rtm.running = true
        · rw [if_pos hrunning]
          exact .drain hphase hrunning
        · rw [if_neg hrunning]
          exact .exit hphase (Bool.eq_false_of_not_eq_true hrunning)
      next hphase htasks =>
        obtain rfl := Option.some.inj h
        exact .drained hphase htasks
      next => simp at h
  | runTask first second =>
      simp only [step] at h
      split at h
      next task tasks hphase htasks =>
        refine .runTask first second task tasks t hphase htasks ?_
        exact Option.some.inj h ▸ ran_runTask lib first second { rtm with tasks } task
      next => simp at h
  | callbackReturn =>
      simp only [step, Option.ite_none_right_eq_some, Option.some.injEq] at h
      obtain ⟨hphase, rfl⟩ := h
      exact .callbackReturn hphase
  | callbackThrow =>
      simp only [step, Option.ite_none_right_eq_some, Option.some.injEq] at h
      obtain ⟨hphase, rfl⟩ := h
      exact .callbackThrow hphase

theorem ran_of_step {lib : JsonLibrary} {rtm t : Rtm} {first second : RequestResult}
    {task : RtmTask} {tasks : List RtmTask} (htasks : rtm.tasks = task :: tasks)
    (h : step lib rtm (.runTask first second) = some t) :
    Ran lib first second { rtm with tasks } task t := by
  cases steps_of_step h with
  | runTask _ _ task' tasks' _ _ htasks' hran =>
      obtain ⟨rfl, rfl⟩ := List.cons.inj (htasks'.symm.trans htasks)
      exact hran

/-- A library that knows the response `null`. -/
def nullLibrary : JsonLibrary := JsonLibrary.ofTable [(.null, "null")] (by decide)

end Rtm

end Protoo
