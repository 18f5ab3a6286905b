import Protoo.Rtm.Worker

/-!
# Notifications of publishes

`publish` off the worker thread posts one task, and the tasks are run in order.
On the worker thread it notifies at once and posts the task as well, so the call
is sent twice.  `PublishedOnce` holds of a drained worker exactly when no call of
`publish` was made on the worker thread.
-/

namespace Protoo

open Protoo.Support

/-- A call of `publish`. -/
structure PublishCall where
  caller : Caller
  channelName : String
  message : String
  deriving DecidableEq

/-- The notification that the call asks for. -/
def PublishCall.peerCall (call : PublishCall) : PeerCall :=
  .notify "channelMsgText" (Rtm.publishData call.channelName call.message)

def PeerCall.isNotify : PeerCall → Bool
  | .request _ _ => false
  | .notify _ _ => true

/-- The notification that a task will make. -/
def RtmTask.notification : RtmTask → Option PeerCall
  | .publish channelName message =>
      some (.notify "channelMsgText" (Rtm.publishData channelName message))
  | _ => none

def RtmEvent.publishCalls : RtmEvent → List PublishCall
  | .publish caller channelName message => [{ caller, channelName, message }]
  | _ => []

namespace Rtm

/-- The calls of `publish` in a run, in its order. -/
def publishCalls (events : List RtmEvent) : List PublishCall :=
  events.flatMap RtmEvent.publishCalls

/-- The calls of `Peer::notify`. -/
def notified (rtm : Rtm) : List PeerCall := rtm.calls.filter PeerCall.isNotify

/-- The notifications of the tasks that have not been run. -/
def queued (rtm : Rtm) : List PeerCall := rtm.tasks.filterMap RtmTask.notification

/-- Every call has one notification with its arguments, and those of one thread
are in the order of its calls. -/
def PublishedOnce (calls : List PublishCall) (notified : List PeerCall) : Prop :=
  ∃ order : List PublishCall, order.Perm calls ∧ order.map PublishCall.peerCall = notified ∧
    ∀ caller, order.filter (fun call => call.caller = caller) =
      calls.filter fun call => call.caller = caller

variable {lib : JsonLibrary} {rtm t : Rtm} {e : RtmEvent}

/-- What a step does to the notifications on their way. -/
inductive Published (rtm : Rtm) (e : RtmEvent) (t : Rtm) : Prop where
  | posts (hcaller : ∀ call ∈ e.publishCalls, call.caller ≠ .worker)
      (hnotified : t.notified = rtm.notified)
      (hqueued : t.queued = rtm.queued ++ e.publishCalls.map PublishCall.peerCall)
  | runs (notification : PeerCall) (hnone : e.publishCalls = [])
      (hnotified : t.notified = rtm.notified ++ [notification])
      (hqueued : rtm.queued = notification :: t.queued)
  | direct (call : PublishCall) (hcall : e.publishCalls = [call]) (hcaller : call.caller = .worker)
      (hnotified : t.notified = rtm.notified ++ [call.peerCall])
      (hqueued : t.queued = rtm.queued ++ [call.peerCall])

theorem Published.congr (hnone : e.publishCalls = []) (hnotified : t.notified = rtm.notified)
    (hqueued : t.queued = rtm.queued) : Published rtm e t := by
  refine .posts ?_ hnotified ?_
  · simp [hnone]
  · rw [hnone, hqueued, List.map_nil, List.append_nil]

/-- Posting a task that notifies of nothing. -/
theorem queued_append {task : RtmTask} (htask : task.notification = none) (rtm : Rtm) :
    (rtm.tasks ++ [task]).filterMap RtmTask.notification = rtm.queued := by
  rw [List.filterMap_append, List.filterMap_cons_none htask, List.filterMap_nil, List.append_nil]
  rfl

theorem isNotify_peerCall (operation : Operation) (rtm : Rtm) :
    (rtm.peerCall operation).isNotify = false := by
  cases operation <;> rfl

theorem notified_perform (lib : JsonLibrary) (operation : Operation) (result : RequestResult)
    (rtm : Rtm) : (rtm.perform lib operation result).notified = rtm.notified := by
  unfold notified perform
  rw [List.filter_append, List.filter_singleton, isNotify_peerCall]
  exact List.append_nil _

/-- What a task does to the calls of the peer. -/
theorem Ran.calls {first second : RequestResult} {task : RtmTask}
    (h : Ran lib first second rtm task t) :
    t.tasks = rtm.tasks ∧ ∃ calls, t.calls = rtm.calls ++ calls ∧
      calls.filter PeerCall.isNotify = task.notification.toList := by
  cases h with
  | operation | satisfied | loginFails =>
      refine ⟨rfl, _, rfl, ?_⟩
      simp [isNotify_peerCall, RtmTask.notification]
  | subscribeFails | reconnected =>
      refine ⟨rfl, _, List.append_assoc _ _ _, ?_⟩
      simp [isNotify_peerCall, RtmTask.notification]
  | publish => exact ⟨rfl, _, rfl, rfl⟩
  | listener | application => exact ⟨rfl, [], (List.append_nil _).symm, rfl⟩

theorem Published.ran {first second : RequestResult} {task : RtmTask} {tasks : List RtmTask}
    (htasks : rtm.tasks = task :: tasks)
    (h : Ran lib first second { rtm with tasks } task t) :
    Published rtm (.runTask first second) t := by
  obtain ⟨hrest, calls, hcalls, hfilter⟩ := h.calls
  have hnotified : t.notified = rtm.notified ++ task.notification.toList := by
    rw [notified, hcalls, List.filter_append, hfilter]
    rfl
  have hqueued : rtm.queued = task.notification.toList ++ t.queued := by
    rw [queued, htasks, queued, hrest, List.filterMap_cons]
    cases task.notification <;> rfl
  cases hnotification : task.notification with
  | none =>
      rw [hnotification] at hnotified hqueued
      exact .congr rfl (hnotified.trans (List.append_nil _)) hqueued.symm
  | some notification =>
      rw [hnotification] at hnotified hqueued
      exact .runs notification rfl hnotified hqueued

theorem Steps.published (h : Steps lib rtm e t) : Published rtm e t := by
  cases h with
  | directCall operation result =>
      exact .congr rfl (notified_perform lib operation result rtm) rfl
  | postedCall => exact .congr rfl rfl (queued_append rfl rtm)
  | directPublish channelName message =>
      refine .direct ⟨.worker, channelName, message⟩ rfl rfl ?_ ?_
      · exact List.filter_append _ _
      · exact List.filterMap_append
  | postedPublish thread channelName message =>
      refine .posts ?_ rfl List.filterMap_append
      simp [RtmEvent.publishCalls]
  | invokeTask | listener | peerReconnected => exact .congr rfl rfl (queued_append rfl rtm)
  | runTask first second task tasks t hphase htasks hran => exact .ran htasks hran
  | _ => exact .congr rfl rfl rfl

/-! ## Runs -/

/-- The calls made on the worker thread. -/
def workerCalls (calls : List PublishCall) : List PublishCall :=
  calls.filter fun call => call.caller = .worker

theorem publishCalls_append (events : List RtmEvent) (e : RtmEvent) :
    publishCalls (events ++ [e]) = publishCalls events ++ e.publishCalls := by
  rw [publishCalls, List.flatMap_append, List.flatMap_singleton]
  rfl

/-- Every call is notified of or queued once, and those of the worker thread once
more. -/
theorem length_notified {start : Rtm} {events : List RtmEvent}
    (hrun : Run (step lib) AnyStep start events rtm) :
    rtm.notified.length + rtm.queued.length =
      start.notified.length + start.queued.length + (publishCalls events).length +
        (workerCalls (publishCalls events)).length := by
  induction hrun with
  | nil => rfl
  | snoc _ _ hstep ih =>
      rw [publishCalls_append, workerCalls, List.filter_append, List.length_append,
        List.length_append]
      unfold workerCalls at ih
      cases (steps_of_step hstep).published with
      | posts hcaller hnotified hqueued =>
          have hnone := List.filter_eq_nil_iff.mpr fun call hcall =>
            decide_eq_true_iff.not.mpr (hcaller call hcall)
          rw [hnotified, hqueued, hnone]
          simp only [List.length_append, List.length_map, List.length_nil]
          omega
      | runs notification hnone hnotified hqueued =>
          rw [hqueued, List.length_cons] at ih
          rw [hnotified, hnone]
          simp only [List.length_append, List.length_singleton, List.length_nil, List.filter_nil]
          omega
      | direct call hcall hcaller hnotified hqueued =>
          rw [hnotified, hqueued, hcall]
          simp only [List.length_append, List.length_singleton, List.filter_singleton, hcaller,
            decide_true, cond_true]
          omega

/-- Without calls on the worker thread the notifications follow the calls. -/
theorem notified_append_queued {start : Rtm} {events : List RtmEvent}
    (hrun : Run (step lib) AnyStep start events rtm)
    (hcaller : ∀ call ∈ publishCalls events, call.caller ≠ .worker) :
    rtm.notified ++ rtm.queued =
      start.notified ++ start.queued ++ (publishCalls events).map PublishCall.peerCall := by
  induction hrun with
  | nil => exact (List.append_nil _).symm
  | snoc _ _ hstep ih =>
      rw [publishCalls_append] at hcaller ⊢
      rw [List.map_append, ← List.append_assoc,
        ← ih fun call hcall => hcaller call (List.mem_append_left _ hcall)]
      cases (steps_of_step hstep).published with
      | posts _ hnotified hqueued => rw [hnotified, hqueued, List.append_assoc]
      | runs notification hnone hnotified hqueued =>
          rw [hnotified, hqueued, hnone]
          simp
      | direct call hcall hworker =>
          refine absurd hworker (hcaller call (List.mem_append_right _ ?_))
          rw [hcall]
          exact List.mem_singleton_self call

/-- When the worker has drained its queue, every publish has been sent once and in
its thread's order exactly if none was called on the worker thread. -/
theorem publishedOnce_iff {appId userId : String} {config : RtmConfig}
    {events : List RtmEvent}
    (hrun : Run (step lib) AnyStep (start appId userId config) events rtm)
    (hdrained : rtm.tasks = []) :
    PublishedOnce (publishCalls events) rtm.notified ↔
      ∀ call ∈ publishCalls events, call.caller ≠ .worker := by
  have hqueued : rtm.queued = [] := by
    rw [queued, hdrained]
    rfl
  constructor
  · rintro ⟨order, hperm, horder, -⟩ call hcall hworker
    have hlength := length_notified hrun
    rw [← horder, List.length_map, hperm.length_eq, hqueued] at hlength
    have hpos : 0 < (workerCalls (publishCalls events)).length := by
      apply List.length_pos_of_mem
      exact List.mem_filter.mpr ⟨hcall, decide_eq_true hworker⟩
    have hstart : (start appId userId config).notified.length +
        (start appId userId config).queued.length = 0 := rfl
    simp only [List.length_nil] at hlength
    omega
  · intro hcaller
    have hall := notified_append_queued hrun hcaller
    rw [hqueued, List.append_nil] at hall
    exact ⟨publishCalls events, List.Perm.refl _, hall.symm, fun _ => rfl⟩

/-- Two publishes of the main thread. -/
def mainThreadRun : List RtmEvent :=
  [.publish (.other 0) "a" "hello", .publish (.other 0) "a" "world", .test,
    .runTask ⟨.ok .null, 0⟩ ⟨.ok .null, 0⟩, .runTask ⟨.ok .null, 0⟩ ⟨.ok .null, 0⟩]

/-- A publish in `onConnected`. -/
def callbackRun : List RtmEvent :=
  [.listener .onConnected, .test, .runTask ⟨.ok .null, 0⟩ ⟨.ok .null, 0⟩,
    .publish .worker "a" "hello", .callbackReturn, .runTask ⟨.ok .null, 0⟩ ⟨.ok .null, 0⟩]

theorem publishedOnce_iff_mainThread :
    ∃ rtm, Run (step nullLibrary) AnyStep (start "" "" {}) mainThreadRun rtm ∧
      rtm.tasks = [] ∧ PublishedOnce (publishCalls mainThreadRun) rtm.notified := by
  obtain ⟨rtm, hrun, htasks⟩ :
      ∃ rtm, mainThreadRun.foldlM (step nullLibrary) (start "" "" {}) = some rtm ∧
        rtm.tasks.length = 0 :=
    ⟨_, rfl, rfl⟩
  have hdrained : rtm.tasks = [] := List.length_eq_zero_iff.mp htasks
  refine ⟨rtm, run_of_foldlM hrun, hdrained, ?_⟩
  exact (publishedOnce_iff (run_of_foldlM hrun) hdrained).mpr (by decide)

/-- The publish of the callback is sent twice. -/
theorem callback_publish_sent_twice :
    ∃ rtm, Run (step nullLibrary) AnyStep (start "" "" {}) callbackRun rtm ∧
      rtm.tasks = [] ∧ (publishCalls callbackRun).length = 1 ∧ rtm.notified.length = 2 ∧
      ¬PublishedOnce (publishCalls callbackRun) rtm.notified := by
  obtain ⟨rtm, hrun, htasks, hlength⟩ :
      ∃ rtm, callbackRun.foldlM (step nullLibrary) (start "" "" {}) = some rtm ∧
        rtm.tasks.length = 0 ∧ rtm.notified.length = 2 :=
    ⟨_, rfl, rfl, rfl⟩
  refine ⟨rtm, run_of_foldlM hrun, List.length_eq_zero_iff.mp htasks, rfl, hlength, ?_⟩
  rintro ⟨order, hperm, horder, -⟩
  have hcalls : order.length = 1 := hperm.length_eq
  rw [← horder, List.length_map, hcalls] at hlength
  exact absurd hlength (by decide)

end Rtm

end Protoo
