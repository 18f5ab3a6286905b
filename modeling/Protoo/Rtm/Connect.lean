import Protoo.Rtm.Callbacks

/-!
# Setting up the client

`connect` constructs the peer, whose transport starts the service thread at once,
and then installs the callbacks one after the other.  `ConnectedRtm` interleaves
the rest of `connect` with the calls that the service thread makes on the peer,
whatever they are, and with everything else that happens to the client.  An event
whose callback is not installed yet is dropped by the peer.
-/

namespace Protoo

open Protoo.Support

/-- The callback that the peer looks for when the transport makes the call. -/
def ListenerCall.callback : ListenerCall → Callback
  | .onConnected => .onPeerConnected
  | .onReConnected => .onPeerReConnected
  | .onClosed => .onPeerClosed
  | .onFailed => .onPeerFailed
  | .onMessage _ => .onServerNotification

/-- The callbacks in the order in which `connect` installs them. -/
def connectOrder : List Callback :=
  [.onPeerConnected, .onPeerReConnected, .onPeerClosed, .onPeerDisconnected, .onPeerFailed,
    .onServerNotification, .onServerRequest]

/-- `remaining` are the callbacks that `connect` has still to install, `calls` the
calls made on the peer. -/
structure ConnectedRtm where
  rtm : Rtm
  remaining : List Callback := connectOrder
  calls : List ListenerCall := []

inductive ConnectEvent where
  | install
  | peer (call : ListenerCall)
  | rtm (e : RtmEvent)

/-- Only the callbacks post the tasks that call the listener. -/
def RtmEvent.isOfPeer : RtmEvent → Bool
  | .listener _ => true
  | .peerReconnected => true
  | _ => false

namespace Rtm

/-- `onConnected`, `onReConnected`, `onClosed`, `onFailed` and `onMessage` of the peer:
the task that the callback posts, if it is installed. -/
def callbackTask (remaining : List Callback) : ListenerCall →
    Except Exception (Option RtmTask)
  | .onConnected =>
      return if .onPeerConnected ∈ remaining then none else some (.listener .onConnected)
  | .onReConnected =>
      return if .onPeerReConnected ∈ remaining then none else some .reconnected
  | .onClosed =>
      return if .onPeerClosed ∈ remaining then none else some (.listener .onClosed)
  | .onFailed => return none
  | .onMessage message => do
      match ← Peer.onMessage message with
      | .notification notification =>
          if .onServerNotification ∈ remaining then return none
          else onServerNotification notification
      | _ => return none

/-- The task that corresponds to a call. -/
def expectedTask : ListenerCall → Option RtmTask
  | .onConnected => some (.listener .onConnected)
  | .onReConnected => some .reconnected
  | .onClosed => some (.listener .onClosed)
  | .onFailed => none
  | .onMessage message =>
      if Message.kind message = .notification then
        (noticeCall (message.field "method") (message.field "data")).map .listener
      else none

end Rtm

namespace ConnectedRtm

/-- The state in which the peer has just been constructed. -/
def start (appId userId : String) (config : RtmConfig) : ConnectedRtm where
  rtm := Rtm.start appId userId config

/-- One event; a callback that throws ends the process. -/
def step (lib : JsonLibrary) (s : ConnectedRtm) : ConnectEvent → Option ConnectedRtm
  | .install =>
      match s.remaining with
      | _ :: remaining => some { s with remaining }
      | [] => none
  | .peer call =>
      if s.rtm.phase = .terminated then none
      else
        match Rtm.callbackTask s.remaining call with
        | .ok task => some { s with
            rtm := task.elim s.rtm s.rtm.invokeTask
            calls := s.calls ++ [call] }
        | .error _ => none
  | .rtm e =>
      if e.isOfPeer then none else (Rtm.step lib s.rtm e).map fun rtm => { s with rtm }

/-! ## What a callback posts -/

/-- An installed callback posts the task that corresponds to the call, and a missing one
posts nothing. -/
theorem callbackTask_eq_ok {remaining : List Callback} {call : ListenerCall}
    {task : Option RtmTask} (h : Rtm.callbackTask remaining call = .ok task) :
    task = if call.callback ∈ remaining then none else Rtm.expectedTask call := by
  cases call with
  | onConnected | onReConnected | onClosed => exact (Except.ok.inj h).symm
  | onFailed =>
      rw [← Except.ok.inj h]
      exact (ite_self none).symm
  | onMessage message =>
      simp only [Rtm.callbackTask] at h
      obtain ⟨dispatch, hdispatch, h⟩ := exists_of_bind_eq_ok h
      have hindex := Peer.isIndexable_of_onMessage hdispatch
      obtain rfl := Except.ok.inj ((Peer.onMessage_of_kind hindex).symm.trans hdispatch)
      cases hkind : Message.kind message with
      | notification =>
          obtain ⟨members, hmembers, hmethod, hdata⟩ := Peer.exists_touched hkind
          simp only [hkind, hmembers] at h
          by_cases hmissing : Callback.onServerNotification ∈ remaining
          · rw [if_pos hmissing] at h
            exact (Except.ok.inj h).symm.trans (if_pos hmissing).symm
          · rw [if_neg hmissing] at h
            have hreadable := Rtm.readable_of_onServerNotification h
            rw [hmethod, hdata] at hreadable
            rw [Rtm.onServerNotification_of_readable hmethod hdata hreadable] at h
            refine (Except.ok.inj h).symm.trans (Eq.trans ?_ (if_neg hmissing).symm)
            exact (if_pos hkind).symm
      | request | response | none =>
          simp only [hkind] at h
          have hnone : Rtm.expectedTask (.onMessage message) = none := by
            simp [Rtm.expectedTask, hkind]
          rw [← Except.ok.inj h, hnone, ite_self]

/-! ## What a step can do -/

inductive Steps (lib : JsonLibrary) (s : ConnectedRtm) : ConnectEvent → ConnectedRtm → Prop where
  | install (callback : Callback) (remaining : List Callback)
      (hremaining : s.remaining = callback :: remaining) :
      Steps lib s .install { s with remaining }
  | peer (call : ListenerCall) (hphase : s.rtm.phase ≠ .terminated) :
      Steps lib s (.peer call)
        { s with
          rtm := { s.rtm with tasks := s.rtm.tasks ++
            (if call.callback ∈ s.remaining then none else Rtm.expectedTask call).toList }
          calls := s.calls ++ [call] }
  | rtm (e : RtmEvent) (rtm : Rtm) (he : e.isOfPeer = false)
      (hstep : Rtm.step lib s.rtm e = some rtm) : Steps lib s (.rtm e) { s with rtm }

theorem steps_of_step {lib : JsonLibrary} {s t : ConnectedRtm} {e : ConnectEvent}
    (h : step lib s e = some t) : Steps lib s e t := by
  cases e with
  | install =>
      simp only [step] at h
      split at h
      next callback remaining hremaining =>
        exact Option.some.inj h ▸ .install callback remaining hremaining
      next => simp at h
  | peer call =>
      simp only [step] at h
      split at h
      next => simp at h
      next hphase =>
        split at h
        next task htask =>
          obtain rfl := Option.some.inj h
          obtain rfl := callbackTask_eq_ok htask
          have hpost : ∀ task : Option RtmTask, task.elim s.rtm s.rtm.invokeTask =
              { s.rtm with tasks := s.rtm.tasks ++ task.toList } := by
            rintro (rfl | task)
            · simp
            · rfl
          rw [hpost]
          exact .peer call hphase
        next => simp at h
  | rtm e =>
      simp only [step, Option.ite_none_left_eq_some, Option.map_eq_some_iff] at h
      obtain ⟨he, rtm, hstep, rfl⟩ := h
      exact .rtm e rtm (Bool.eq_false_of_not_eq_true he) hstep

/-! ## Events during the setup -/

/-- Every call of the transport that has a corresponding task leads to exactly that task
being posted. -/
def PostsExpected (s : ConnectedRtm) (e : ConnectEvent) (t : ConnectedRtm) : Prop :=
  ∀ call, e = .peer call → t.rtm.tasks = s.rtm.tasks ++ (Rtm.expectedTask call).toList

/-- A call that has a corresponding task comes after the installation of its
callback. -/
def InstalledInTime (s : ConnectedRtm) : ConnectEvent → Prop
  | .peer call => (Rtm.expectedTask call).isSome = true → call.callback ∉ s.remaining
  | _ => True

variable {lib : JsonLibrary} {s t : ConnectedRtm} {e : ConnectEvent}

theorem postsExpected_step_iff (hstep : step lib s e = some t) :
    PostsExpected s e t ↔ s.InstalledInTime e := by
  cases steps_of_step hstep with
  | install | rtm => exact iff_of_true (fun _ he => ConnectEvent.noConfusion he) trivial
  | peer call hphase =>
      constructor
      · intro h hsome hmissing
        have hsame := h call rfl
        simp only [if_pos hmissing, Option.toList_none, List.append_nil] at hsame
        obtain ⟨task, htask⟩ := Option.isSome_iff_exists.mp hsome
        simp [htask] at hsame
      · rintro hinstalled _ ⟨rfl⟩
        by_cases hmissing : call.callback ∈ s.remaining
        · have hnone : Rtm.expectedTask call = none := by
            rw [← Option.not_isSome_iff_eq_none]
            exact fun hsome => hinstalled hsome hmissing
          simp [hnone]
        · simp [if_neg hmissing]

/-- Every event of a run leads to the posting of its task exactly when it comes after
the installation of its callback. -/
theorem postsExpected_iff {appId userId : String} {config : RtmConfig}
    {events : List ConnectEvent}
    (hrun : Run (step lib) AnyStep (start appId userId config) events s) :
    Everywhere (step lib) (start appId userId config) events PostsExpected ↔
      Run (step lib) InstalledInTime (start appId userId config) events s :=
  hrun.everywhere_iff postsExpected_step_iff

/-- The server answers before `connect` has installed the first callback. -/
def fastServerRun : List ConnectEvent :=
  .peer .onConnected :: connectOrder.map fun _ => .install

theorem postsExpected_iff_fastServer :
    ∃ s, Run (step Rtm.nullLibrary) AnyStep (start "" "" {}) fastServerRun s ∧
      (Everywhere (step Rtm.nullLibrary) (start "" "" {}) fastServerRun PostsExpected ↔
        Run (step Rtm.nullLibrary) InstalledInTime (start "" "" {}) fastServerRun s) := by
  have hrun : fastServerRun.foldlM (step Rtm.nullLibrary) (start "" "" {}) = some _ := rfl
  exact ⟨_, run_of_foldlM hrun, postsExpected_iff (run_of_foldlM hrun)⟩

/-- The first connection is dropped: all callbacks are installed, and nothing has been
posted. -/
theorem first_connection_dropped :
    ∃ s, Run (step Rtm.nullLibrary) AnyStep (start "" "" {}) fastServerRun s ∧
      s.remaining = [] ∧ s.calls = [.onConnected] ∧ s.rtm.tasks = [] ∧
      ¬Everywhere (step Rtm.nullLibrary) (start "" "" {}) fastServerRun PostsExpected := by
  have hrun : fastServerRun.foldlM (step Rtm.nullLibrary) (start "" "" {}) = some _ := rfl
  refine ⟨_, run_of_foldlM hrun, rfl, rfl, rfl, ?_⟩
  intro h
  have hfirst : step Rtm.nullLibrary (start "" "" {}) (.peer .onConnected) = some _ := rfl
  have hposts := h [] (.peer .onConnected) _ _ ⟨_, rfl⟩ .nil hfirst .onConnected rfl
  exact List.cons_ne_nil _ _ hposts.symm

end ConnectedRtm

end Protoo
