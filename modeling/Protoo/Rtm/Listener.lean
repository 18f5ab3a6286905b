import Protoo.Rtm.Connect
import Protoo.Rtm.Survival

/-!
# What the listener is told

An event of the service thread becomes a task, the tasks of all threads wait in one
queue, and the worker turns those that are for the listener into calls.  Nothing
else calls the listener, and the queue keeps the order.  So the calls made and
those waiting are, in a row, the calls that the events ask for.
-/

namespace Protoo

open Protoo.Support

/-- The call of the listener that the service thread's call on the peer asks for. -/
def ListenerCall.notice : ListenerCall → Option RtmListenerCall
  | .onConnected => some .onConnected
  | .onReConnected => some .onReconnected
  | .onClosed => some .onClosed
  | .onFailed => none
  | .onMessage message =>
      if Message.kind message = .notification then
        Rtm.noticeCall (message.field "method") (message.field "data")
      else none

/-- The call of the listener that a task ends with, if nothing throws. -/
def RtmTask.notice : RtmTask → Option RtmListenerCall
  | .listener call => some call
  | .reconnected => some .onReconnected
  | _ => none

namespace Rtm

/-- The calls of the listener that wait in the queue. -/
def waiting (rtm : Rtm) : List RtmListenerCall := rtm.tasks.filterMap RtmTask.notice

theorem notice_expectedTask (call : ListenerCall) :
    (expectedTask call).bind RtmTask.notice = call.notice := by
  cases call with
  | onMessage message =>
      simp only [expectedTask, ListenerCall.notice]
      split
      · cases noticeCall (message.field "method") (message.field "data") <;> rfl
      · rfl
  | _ => rfl

theorem filterMap_toList {α β : Type} (f : α → Option β) (a : Option α) :
    a.toList.filterMap f = (a.bind f).toList := by
  cases a with
  | none => rfl
  | some a => cases h : f a <;> simp [h]

theorem noticeCall_ne_onReconnected (method data : Json) :
    noticeCall method data ≠ some .onReconnected := by
  unfold noticeCall
  split
  · split
    · split
      · split <;> simp
      · split
        · simp
        · split <;> simp
    · simp
  · simp

/-- Posting a task that is not for the listener. -/
theorem waiting_append {task : RtmTask} (htask : task.notice = none) (rtm : Rtm) :
    (rtm.tasks ++ [task]).filterMap RtmTask.notice = rtm.waiting := by
  rw [List.filterMap_append, List.filterMap_cons_none htask, List.filterMap_nil, List.append_nil]
  rfl

variable {lib : JsonLibrary} {rtm t : Rtm} {e : RtmEvent}

/-- A task that throws nothing makes its call of the listener. -/
theorem Ran.listenerCalls {first second : RequestResult} {task : RtmTask}
    (h : Ran lib first second rtm task t) (halive : Alive t) :
    t.listenerCalls = rtm.listenerCalls ++ task.notice.toList := by
  cases h with
  | satisfied | loginFails | subscribeFails => exact absurd rfl halive
  | listener | reconnected => rfl
  | operation | publish | application => exact (List.append_nil _).symm

/-- What is not of the peer keeps the calls of the listener in a row, those made before
those waiting. -/
theorem Steps.listenerCalls (h : Steps lib rtm e t) (he : e.isOfPeer = false)
    (halive : Alive t) : t.listenerCalls ++ t.waiting = rtm.listenerCalls ++ rtm.waiting := by
  cases h with
  | listener | peerReconnected => exact Bool.noConfusion he
  | postedCall | directPublish | postedPublish | invokeTask =>
      exact congrArg (rtm.listenerCalls ++ ·) (waiting_append rfl rtm)
  | runTask first second task tasks t hphase htasks hran =>
      have hwaiting : rtm.waiting = task.notice.toList ++ t.waiting := by
        rw [waiting, htasks, waiting, hran.tasks, List.filterMap_cons]
        cases task.notice <;> rfl
      rw [hran.listenerCalls halive, hwaiting, List.append_assoc]
  | callbackThrow => exact absurd rfl halive
  | _ => rfl

end Rtm

namespace ConnectedRtm

variable {lib : JsonLibrary} {s t : ConnectedRtm} {e : ConnectEvent}

/-- Every callback is installed before the first event, and nothing throws on the
worker. -/
def InstalledFirst (lib : JsonLibrary) (s : ConnectedRtm) : ConnectEvent → Prop
  | .install => True
  | .peer _ => s.remaining = []
  | .rtm e => Rtm.NothingThrows lib s.rtm e

instance (lib : JsonLibrary) (s : ConnectedRtm) :
    (e : ConnectEvent) → Decidable (InstalledFirst lib s e)
  | .install => isTrue trivial
  | .peer _ => inferInstanceAs (Decidable (s.remaining = []))
  | .rtm e => inferInstanceAs (Decidable (Rtm.NothingThrows lib s.rtm e))

/-- The calls of the listener, made and waiting, are those that the events ask for. -/
structure ListenerInv (s : ConnectedRtm) : Prop where
  alive : Rtm.AliveInv s.rtm
  calls : s.rtm.listenerCalls ++ s.rtm.waiting = s.calls.filterMap ListenerCall.notice

/-- A callback posts its task as the events of the peer in `Rtm.step` do. -/
theorem exists_step_of_expectedTask {rtm : Rtm} {call : ListenerCall} {task : RtmTask}
    (hphase : rtm.phase ≠ .terminated) (htask : Rtm.expectedTask call = some task) :
    ∃ e : RtmEvent, e.isOfPeer = true ∧ Rtm.step lib rtm e = some (rtm.invokeTask task) := by
  cases call with
  | onConnected =>
      obtain rfl := Option.some.inj htask
      exact ⟨.listener .onConnected, rfl, if_pos ⟨hphase, RtmListenerCall.noConfusion⟩⟩
  | onReConnected =>
      obtain rfl := Option.some.inj htask
      exact ⟨.peerReconnected, rfl, if_pos hphase⟩
  | onClosed =>
      obtain rfl := Option.some.inj htask
      exact ⟨.listener .onClosed, rfl, if_pos ⟨hphase, RtmListenerCall.noConfusion⟩⟩
  | onFailed => simp [Rtm.expectedTask] at htask
  | onMessage message =>
      simp only [Rtm.expectedTask] at htask
      split at htask
      next =>
        obtain ⟨notice, hnotice, rfl⟩ := Option.map_eq_some_iff.mp htask
        refine ⟨.listener notice, rfl, if_pos ⟨hphase, ?_⟩⟩
        rintro rfl
        exact Rtm.noticeCall_ne_onReconnected _ _ hnotice
      next => simp at htask

theorem ListenerInv.step (h : ListenerInv s) (hC : InstalledFirst lib s e)
    (hstep : step lib s e = some t) : ListenerInv t := by
  cases steps_of_step hstep with
  | install callback remaining => exact ⟨h.alive, h.calls⟩
  | peer call hphase =>
      have hinstalled : call.callback ∉ s.remaining := by
        rw [show s.remaining = [] from hC]
        exact List.not_mem_nil
      rw [if_neg hinstalled]
      constructor
      · cases htask : Rtm.expectedTask call with
        | none =>
            rw [Option.toList_none, List.append_nil]
            exact h.alive
        | some task =>
            obtain ⟨e, he, hnext⟩ : ∃ e : RtmEvent, e.isOfPeer = true ∧
                Rtm.step lib s.rtm e = some (s.rtm.invokeTask task) :=
              exists_step_of_expectedTask hphase htask
            refine h.alive.step ?_ hnext
            cases e with
            | listener | peerReconnected => trivial
            | _ => exact Bool.noConfusion he
      · change s.rtm.listenerCalls ++ (s.rtm.tasks ++ _).filterMap RtmTask.notice =
          (s.calls ++ [call]).filterMap ListenerCall.notice
        rw [filterMap_concat, List.filterMap_append, ← List.append_assoc, Rtm.filterMap_toList,
          Rtm.notice_expectedTask, ← h.calls]
        rfl
  | rtm e rtm he hnext =>
      have halive := h.alive.step hC hnext
      refine ⟨halive, ?_⟩
      exact ((Rtm.steps_of_step hnext).listenerCalls he halive.alive).trans h.calls

/-- With the callbacks installed first and nothing thrown, the listener is called as the
events ask for, in their order, and once the queue is empty for all of them. -/
theorem listenerCalls_in_order {appId userId : String} {config : RtmConfig}
    {events : List ConnectEvent}
    (hrun : Run (step lib) (InstalledFirst lib) (start appId userId config) events s) :
    s.rtm.listenerCalls <+: s.calls.filterMap ListenerCall.notice ∧
      (s.rtm.tasks = [] →
        s.rtm.listenerCalls = s.calls.filterMap ListenerCall.notice) := by
  have hinv : ListenerInv s := by
    refine hrun.invariant (I := ListenerInv) ⟨?_, rfl⟩ fun h hC hstep => h.step hC hstep
    exact Rtm.aliveInv_start appId userId config
  refine ⟨⟨s.rtm.waiting, hinv.calls⟩, fun hempty => ?_⟩
  have hcalls := hinv.calls
  rw [Rtm.waiting, hempty] at hcalls
  exact (List.append_nil _).symm.trans hcalls

/-- The connection is established, a member joins, and the worker has told the listener
of the connection. -/
def memberJoinRun : List ConnectEvent :=
  (connectOrder.map fun _ => .install) ++
    [.peer .onConnected,
      .peer (.onMessage (Message.createNotification "memberJoin"
        (.object [("channelId", .string "a"), ("peerId", .string "b")]))),
      .rtm (.call (.other 0) .login ⟨.ok .null, 0⟩), .rtm .test,
      .rtm (.runTask ⟨.ok .null, 0⟩ ⟨.ok .null, 0⟩)]

theorem listenerCalls_in_order_memberJoin :
    ∃ s, Run (step Rtm.nullLibrary) (InstalledFirst Rtm.nullLibrary) (start "" "" {})
        memberJoinRun s ∧
      s.rtm.listenerCalls <+: s.calls.filterMap ListenerCall.notice := by
  have hrun : Run (step Rtm.nullLibrary) (InstalledFirst Rtm.nullLibrary) (start "" "" {})
      memberJoinRun _ := run_of_guarded_foldlM rfl
  exact ⟨_, hrun, (listenerCalls_in_order hrun).1⟩

end ConnectedRtm

end Protoo
