import Protoo.Rtm.Connect
import Protoo.Rtm.Publish
import Protoo.Rpc.Fifo

/-!
# The client with all its threads

`RtmSystem` puts the worker and the callbacks (`ConnectedRtm`) on the peer with its
service thread (`Client`), from the construction of the peer to the end of `~RTM`.
A call that the service thread makes on the peer is handed to the callbacks in the
same step, and a notification that the worker makes is posted in the same step.

A request of the worker is the steps of `Peer::request` and then `get`, which waits
for the peer's promise.  The task that makes it is out of the queue of the source as
soon as it starts; here it stays the first one of `tasks` until `get` has returned,
and is then executed on `Rtm` with the results.  The other threads only append to
the queue, so nobody can tell.
-/

namespace Protoo

open Protoo.Support

/-- Where the destructor is: before its first statement, in the join of the worker, in
`m_pPeer.reset()`, or past its end. -/
inductive DestructorProgress where
  | notCalled
  | stopping
  | resetting
  | returned
  deriving DecidableEq

/-- `request` is the operation whose request the worker waits for, with the promise of
the peer, and `login` the result of the login of the reconnect task in execution. -/
structure RtmSystem where
  front : ConnectedRtm
  client : Client := {}
  request : Option (Operation × ℕ) := none
  login : Option RequestResult := none
  destructor : DestructorProgress := .notCalled

inductive SystemEvent where
  | install
  | client (e : ClientEvent)
  | rtm (e : RtmEvent)
  | request (operation : Operation) (draw : Draw)
  | postTimeout
  | postSend
  | reply (timestamp : ℤ)
  | stop
  | destroyPeer
  | destroyed

/-- The events of the service thread.  A callback for a notification that throws ends
the process, so a handler that returns is the only one here. -/
def ClientEvent.isOfServiceThread : ClientEvent → Bool
  | .receive _ _ (.ok ()) => true
  | .postCancel => true
  | .erase => true
  | .timer => true
  | .service _ => true
  | _ => false

/-- The task makes a request. -/
def RtmTask.makesRequest : RtmTask → Bool
  | .operation _ _ => true
  | .reconnected => true
  | _ => false

/-- The message of a notification. -/
def PeerCall.message : PeerCall → Option Json
  | .notify method data => some (Message.createNotification method data)
  | .request _ _ => none

/-- The peer notifies; the requests are made step by step. -/
def Client.carryOut (c : Client) : PeerCall → Client
  | .notify method data => { c with peer := c.peer.notify method data }
  | .request _ _ => c

namespace RtmSystem

/-- The state in which the peer has just been constructed. -/
def start (appId userId : String) (config : RtmConfig) : RtmSystem where
  front := .start appId userId config

def rtm (s : RtmSystem) : Rtm := s.front.rtm

/-- The notifications made between two states of the worker. -/
def notifications (rtm rtm' : Rtm) : List PeerCall := rtm'.notified.drop rtm.notified.length

/-- The worker's state becomes `rtm`, and the peer carries out the notifications. -/
def carryOut (s : RtmSystem) (rtm : Rtm) : RtmSystem :=
  { s with
    front := { s.front with rtm }
    client := (notifications s.rtm rtm).foldl Client.carryOut s.client }

/-- A step of the worker or of a thread that calls the public functions. -/
def rtmStep (lib : JsonLibrary) (s : RtmSystem) (e : RtmEvent) : Option RtmSystem :=
  (ConnectedRtm.step lib s.front (.rtm e)).map fun front => s.carryOut front.rtm

/-- The events that are steps of their own.  The worker makes none while it waits for a
request, and the tasks that make requests are executed by `reply`. -/
def mayTake (s : RtmSystem) : RtmEvent → Bool
  | .call (.other _) _ _ => true
  | .publish (.other _) _ _ => true
  | .invokeTask (.other _) => true
  | .publish .worker _ _ => s.request.isNone
  | .invokeTask .worker => s.request.isNone
  | .test => s.request.isNone
  | .runTask _ _ => s.request.isNone && !s.rtm.tasks.head?.any RtmTask.makesRequest
  | .callbackReturn => s.request.isNone
  | .callbackThrow => s.request.isNone
  | _ => false

/-- The operation whose request the worker makes next: one that code of the
application calls, or one of the task in execution. -/
def mayRequest (s : RtmSystem) (operation : Operation) : Bool :=
  match s.rtm.phase, s.rtm.tasks with
  | .callback, _ => true
  | .innerLoop, .operation operation' _ :: _ => decide (operation = operation')
  | .innerLoop, .reconnected :: _ =>
      decide (operation = if s.login.isNone then .login else .subscribe s.rtm.channelName)
  | _, _ => false

/-- The requests of the first task are done, and it is executed with their results. -/
def executeTask (lib : JsonLibrary) (first second : RequestResult) (s : RtmSystem) :
    Option RtmSystem :=
  ({ s with request := none, login := none }).rtmStep lib (.runTask first second)

/-- `get` returns, and the operation goes on with the result. -/
def takeReply (lib : JsonLibrary) (operation : Operation) (result : RequestResult)
    (s : RtmSystem) : Option RtmSystem :=
  match s.rtm.phase, s.rtm.tasks with
  | .callback, _ => ({ s with request := none }).rtmStep lib (.call .worker operation result)
  | .innerLoop, .operation _ _ :: _ => s.executeTask lib result result
  | .innerLoop, .reconnected :: _ =>
      match s.login with
      | some first => s.executeTask lib first result
      | none =>
          if Rtm.succeeds lib result .login then
            some { s with request := none, login := some result }
          else s.executeTask lib result result
  | _, _ => none

/-- The callbacks for the calls that the service thread has made on the peer. -/
def report (lib : JsonLibrary) (calls : List ListenerCall) (front : ConnectedRtm) :
    Option ConnectedRtm :=
  calls.foldlM (fun front call => ConnectedRtm.step lib front (.peer call)) front

/-- The process has been ended by an exception, or `~RTM` has returned. -/
def IsOver (s : RtmSystem) : Prop := s.rtm.phase = .terminated ∨ s.destructor = .returned

instance (s : RtmSystem) : Decidable s.IsOver := inferInstanceAs (Decidable (_ ∨ _))

/-- One event; `none` when it is not possible in the state. -/
def possibleStep (lib : JsonLibrary) (s : RtmSystem) : SystemEvent → Option RtmSystem
  | .install => (ConnectedRtm.step lib s.front .install).map fun front => { s with front }
  | .client e =>
      if e.isOfServiceThread then do
        let client ← Client.step lib s.client e
        let front ← report lib (client.calls.drop s.client.calls.length) s.front
        return { s with client, front }
      else none
  | .rtm e => if s.mayTake e then s.rtmStep lib e else none
  | .request operation draw =>
      if s.request = none ∧ s.mayRequest operation then
        match s.rtm.peerCall operation with
        | .request method data =>
            (Client.step lib s.client (.register draw method data)).map fun client => { s with
              client
              request := some (operation, s.client.peer.states.length) }
        | .notify _ _ => none
      else none
  | .postTimeout =>
      (Client.step lib s.client (.postTimeout 0)).map fun client => { s with client }
  | .postSend =>
      (Client.step lib s.client (.postSend 0)).map fun client => { s with client }
  | .reply timestamp =>
      match s.request, s.client.requests with
      | some (operation, promise), [] =>
          match s.client.peer.states[promise]? with
          | some (.ready reply) => s.takeReply lib operation { reply, timestamp }
          | _ => none
      | _, _ => none
  | .stop =>
      if s.destructor = .notCalled then
        (Rtm.step lib s.rtm .stop).map fun rtm => { s with
          front := { s.front with rtm }
          destructor := .stopping }
      else none
  | .destroyPeer =>
      if s.destructor = .stopping ∧ s.rtm.phase = .exited then
        (Client.step lib s.client .destroy).map fun client => { s with
          client
          destructor := .resetting }
      else none
  | .destroyed =>
      if s.destructor = .resetting ∧
          (s.client.phase = .exited ∨ s.client.phase = .initFailed) then
        some { s with destructor := .returned }
      else none

def step (lib : JsonLibrary) (s : RtmSystem) (e : SystemEvent) : Option RtmSystem :=
  if s.IsOver then none else s.possibleStep lib e

/-! ## What a step can do -/

inductive Steps (lib : JsonLibrary) (s : RtmSystem) : SystemEvent → RtmSystem → Prop where
  | install (callback : Callback) (remaining : List Callback)
      (hremaining : s.front.remaining = callback :: remaining) :
      Steps lib s .install { s with front := { s.front with remaining } }
  | client (e : ClientEvent) (client : Client) (front : ConnectedRtm)
      (he : e.isOfServiceThread = true) (hclient : Client.Steps lib s.client e client)
      (hfront : report lib (client.calls.drop s.client.calls.length) s.front = some front) :
      Steps lib s (.client e) { s with client, front }
  | rtm (e : RtmEvent) (rtm : Rtm) (hmay : s.mayTake e = true)
      (hrtm : Rtm.Steps lib s.rtm e rtm) : Steps lib s (.rtm e) (s.carryOut rtm)
  | request (operation : Operation) (draw : Draw) (method : String) (data : Json)
      (client : Client) (hnone : s.request = none) (hmay : s.mayRequest operation = true)
      (hcall : s.rtm.peerCall operation = .request method data)
      (hclient : Client.Steps lib s.client (.register draw method data) client) :
      Steps lib s (.request operation draw)
        { s with client, request := some (operation, s.client.peer.states.length) }
  | postTimeout (client : Client) (hclient : Client.Steps lib s.client (.postTimeout 0) client) :
      Steps lib s .postTimeout { s with client }
  | postSend (client : Client) (hclient : Client.Steps lib s.client (.postSend 0) client) :
      Steps lib s .postSend { s with client }
  | called (operation : Operation) (promise : ℕ) (reply : Reply) (timestamp : ℤ) (rtm : Rtm)
      (hrequest : s.request = some (operation, promise)) (hposted : s.client.requests = [])
      (hrtm : Rtm.Steps lib s.rtm (.call .worker operation { reply, timestamp }) rtm) :
      Steps lib s (.reply timestamp) (carryOut { s with request := none } rtm)
  | loggedIn (operation : Operation) (promise : ℕ) (reply : Reply) (timestamp : ℤ)
      (tasks : List RtmTask) (hrequest : s.request = some (operation, promise))
      (hposted : s.client.requests = []) (hphase : s.rtm.phase = .innerLoop)
      (htasks : s.rtm.tasks = .reconnected :: tasks) (hlogin : s.login = none) :
      Steps lib s (.reply timestamp)
        { s with request := none, login := some { reply, timestamp } }
  | executed (operation : Operation) (promise : ℕ) (timestamp : ℤ)
      (first second : RequestResult) (rtm : Rtm)
      (hrequest : s.request = some (operation, promise)) (hposted : s.client.requests = [])
      (hrtm : Rtm.Steps lib s.rtm (.runTask first second) rtm) :
      Steps lib s (.reply timestamp) (carryOut { s with request := none, login := none } rtm)
  | stop (hdestructor : s.destructor = .notCalled) :
      Steps lib s .stop
        { s with
          front := { s.front with rtm := { s.rtm with running := false } }
          destructor := .stopping }
  | destroyPeer (hdestructor : s.destructor = .stopping) (hphase : s.rtm.phase = .exited) :
      Steps lib s .destroyPeer
        { s with
          client := s.client.setTransport s.client.peer.transport.setClosed
          destructor := .resetting }
  | destroyed (hdestructor : s.destructor = .resetting)
      (hphase : s.client.phase = .exited ∨ s.client.phase = .initFailed) :
      Steps lib s .destroyed { s with destructor := .returned }

theorem exists_of_rtmStep {lib : JsonLibrary} {s t : RtmSystem} {e : RtmEvent}
    (h : s.rtmStep lib e = some t) : ∃ rtm, Rtm.Steps lib s.rtm e rtm ∧ t = s.carryOut rtm := by
  obtain ⟨front, hfront, rfl⟩ := Option.map_eq_some_iff.mp h
  cases ConnectedRtm.steps_of_step hfront with
  | rtm e rtm he hstep => exact ⟨rtm, Rtm.steps_of_step hstep, rfl⟩

theorem steps_of_takeReply {lib : JsonLibrary} {s t : RtmSystem} {operation : Operation}
    {promise : ℕ} {reply : Reply} {timestamp : ℤ}
    (hrequest : s.request = some (operation, promise)) (hposted : s.client.requests = [])
    (h : s.takeReply lib operation { reply, timestamp } = some t) :
    Steps lib s (.reply timestamp) t := by
  have hexecuted : ∀ first second, s.executeTask lib first second = some t →
      Steps lib s (.reply timestamp) t := by
    intro first second hexecute
    obtain ⟨rtm, hrtm, rfl⟩ := exists_of_rtmStep hexecute
    exact .executed operation promise timestamp first second rtm hrequest hposted hrtm
  unfold takeReply at h
  split at h
  next =>
    obtain ⟨rtm, hrtm, rfl⟩ := exists_of_rtmStep h
    exact .called operation promise reply timestamp rtm hrequest hposted hrtm
  next => exact hexecuted _ _ h
  next tasks hphase htasks =>
    split at h
    next => exact hexecuted _ _ h
    next hlogin =>
      split at h
      next =>
        obtain rfl := Option.some.inj h
        exact .loggedIn operation promise reply timestamp tasks hrequest hposted hphase htasks
          hlogin
      next => exact hexecuted _ _ h
  next => simp at h

/-- The inversion lemma of `step`. -/
theorem steps_of_step {lib : JsonLibrary} {s t : RtmSystem} {e : SystemEvent}
    (h : step lib s e = some t) : ¬s.IsOver ∧ Steps lib s e t := by
  obtain ⟨hover, h⟩ := Option.ite_none_left_eq_some.mp h
  refine ⟨hover, ?_⟩
  cases e with
  | install =>
      obtain ⟨front, hfront, rfl⟩ := Option.map_eq_some_iff.mp h
      cases ConnectedRtm.steps_of_step hfront with
      | install callback remaining hremaining => exact .install callback remaining hremaining
  | client e =>
      obtain ⟨he, h⟩ := Option.ite_none_right_eq_some.mp h
      obtain ⟨client, hclient, h⟩ := Option.bind_eq_some_iff.mp h
      obtain ⟨front, hfront, h⟩ := Option.bind_eq_some_iff.mp h
      obtain rfl := Option.some.inj h
      exact .client e client front he (Client.steps_of_step hclient) hfront
  | rtm e =>
      obtain ⟨hmay, h⟩ := Option.ite_none_right_eq_some.mp h
      obtain ⟨rtm, hrtm, rfl⟩ := exists_of_rtmStep h
      exact .rtm e rtm hmay hrtm
  | request operation draw =>
      obtain ⟨⟨hnone, hmay⟩, h⟩ := Option.ite_none_right_eq_some.mp h
      split at h
      next method data hcall =>
        obtain ⟨client, hclient, rfl⟩ := Option.map_eq_some_iff.mp h
        exact .request operation draw method data client hnone hmay hcall
          (Client.steps_of_step hclient)
      next => simp at h
  | postTimeout =>
      obtain ⟨client, hclient, rfl⟩ := Option.map_eq_some_iff.mp h
      exact .postTimeout client (Client.steps_of_step hclient)
  | postSend =>
      obtain ⟨client, hclient, rfl⟩ := Option.map_eq_some_iff.mp h
      exact .postSend client (Client.steps_of_step hclient)
  | reply timestamp =>
      simp only [possibleStep] at h
      split at h
      next operation promise hrequest hposted =>
        split at h
        next => exact steps_of_takeReply hrequest hposted h
        next => simp at h
      next => simp at h
  | stop =>
      obtain ⟨hdestructor, h⟩ := Option.ite_none_right_eq_some.mp h
      obtain ⟨rtm, hrtm, rfl⟩ := Option.map_eq_some_iff.mp h
      cases Rtm.steps_of_step hrtm with
      | stop => exact .stop hdestructor
  | destroyPeer =>
      obtain ⟨⟨hdestructor, hphase⟩, h⟩ := Option.ite_none_right_eq_some.mp h
      obtain ⟨client, hclient, rfl⟩ := Option.map_eq_some_iff.mp h
      cases Client.steps_of_step hclient with
      | destroy => exact .destroyPeer hdestructor hphase
  | destroyed =>
      obtain ⟨⟨hdestructor, hphase⟩, h⟩ := Option.ite_none_right_eq_some.mp h
      obtain rfl := Option.some.inj h
      exact .destroyed hdestructor hphase

end RtmSystem

/-! ## Messages on their way -/

namespace Client

variable {lib : JsonLibrary} {c c' : Client} {e : ClientEvent}

/-- The texts written and queued, and the dumps of the messages still posted. -/
def pipeline (lib : JsonLibrary) (c : Client) : List (Except Exception String) :=
  c.texts.map .ok ++ c.posted.map lib.dump

theorem Steps.pipeline (h : Steps lib c e c') :
    c'.pipeline lib =
      c.pipeline lib ++ (e.outgoing c).map fun o => lib.dump o.message := by
  unfold Client.pipeline
  cases h.traffic with
  | posts htexts hposted =>
      rw [htexts, hposted, List.map_append, List.map_map, List.append_assoc]
      rfl
  | dumps message text hposted hdump htexts hnone =>
      rw [hnone, htexts, hposted]
      simp [hdump]

theorem Steps.written_mono (h : Steps lib c e c') : c.written <+: c'.written := by
  cases h with
  | receive chunk final handled c' hidle hphase hreceived =>
      cases hreceived with
      | buffered => exact List.prefix_refl _
      | completed => exact List.prefix_refl _
  | service e s hidle hown hservice => exact hservice.written_mono
  | _ => exact List.prefix_refl _

/-- No send is posted and no text is queued. -/
def NothingQueued (c : Client) : Prop := c.posted = [] ∧ c.peer.transport.msgQueue = []

instance (c : Client) : Decidable c.NothingQueued := inferInstanceAs (Decidable (_ ∧ _))

theorem NothingQueued.pipeline {lib : JsonLibrary} {c : Client} (h : c.NothingQueued) :
    c.pipeline lib = c.written.map .ok := by
  rw [Client.pipeline, texts, h.1, h.2, List.append_nil]
  exact List.append_nil _

/-- With nothing queued and nothing sent, nothing is queued afterwards. -/
theorem NothingQueued.of_pipeline {lib : JsonLibrary} {c c' : Client} (h : c.NothingQueued)
    (hsame : c'.pipeline lib = c.pipeline lib) (hwritten : c.written <+: c'.written) :
    c'.NothingQueued := by
  have hlength := congrArg List.length hsame
  rw [h.pipeline] at hlength
  simp only [Client.pipeline, texts, List.length_append, List.length_map] at hlength
  have hmore := hwritten.length_le
  constructor
  · exact List.eq_nil_of_length_eq_zero (by omega)
  · exact List.eq_nil_of_length_eq_zero (by omega)

/-- The service thread leaves the calls of `request` alone. -/
theorem Steps.requests (h : Steps lib c e c') (he : e.isOfServiceThread = true) :
    c'.requests = c.requests := by
  cases h with
  | receive chunk final handled c' hidle hphase hreceived =>
      cases hreceived with
      | buffered => rfl
      | completed => rfl
  | register | postTimeout | postSend | notify | accept | reject | destroy =>
      exact Bool.noConfusion he
  | _ => rfl

/-- It posts no message. -/
theorem Steps.pipeline_of_isOfServiceThread (h : Steps lib c e c')
    (he : e.isOfServiceThread = true) : c'.pipeline lib = c.pipeline lib := by
  have hnone : e.outgoing c = [] := by
    cases e with
    | register | postTimeout | postSend | notify | accept | reject | destroy =>
        exact Bool.noConfusion he
    | _ => rfl
  rw [h.pipeline, hnone, List.map_nil, List.append_nil]

/-- Without a call of `request` no timer is scheduled and no request is sent. -/
theorem Steps.requests_ne_nil (h : Steps lib c e c') {i : ℕ}
    (he : e = .postTimeout i ∨ e = .postSend i) : c.requests ≠ [] := by
  intro hnil
  rcases he with rfl | rfl
  · cases h with
    | postTimeout _ call hcall =>
        rw [hnil] at hcall
        exact absurd hcall.symm (Option.some_ne_none _)
  · cases h with
    | postSend _ call hcall =>
        rw [hnil] at hcall
        exact absurd hcall.symm (Option.some_ne_none _)

/-- Notifications are posted and change nothing else. -/
theorem foldl_carryOut_frame (notifications : List PeerCall) (c : Client) :
    ∃ tasks, notifications.foldl carryOut c =
      c.setTransport { c.peer.transport with tasks } := by
  induction notifications generalizing c with
  | nil => exact ⟨_, rfl⟩
  | cons notification notifications ih =>
      rw [List.foldl_cons]
      obtain ⟨tasks, heq⟩ := ih (c.carryOut notification)
      rw [heq]
      cases notification <;> exact ⟨tasks, rfl⟩

theorem pipeline_foldl_carryOut (notifications : List PeerCall) (c : Client) :
    (notifications.foldl carryOut c).pipeline lib =
      c.pipeline lib ++ (notifications.filterMap PeerCall.message).map lib.dump := by
  induction notifications generalizing c with
  | nil => exact (List.append_nil _).symm
  | cons notification notifications ih =>
      rw [List.foldl_cons, ih]
      cases notification with
      | notify method data =>
          have hnotify : Steps lib c (.notify method data) (c.carryOut (.notify method data)) :=
            .notify method data
          rw [hnotify.pipeline, List.append_assoc]
          rfl
      | request method data => rfl

end Client

/-! ## What the threads do to the worker -/

/-- The event is a step of the worker's thread. -/
def RtmEvent.isOfWorker : RtmEvent → Bool
  | .call .worker _ _ => true
  | .publish .worker _ _ => true
  | .invokeTask .worker => true
  | .test => true
  | .runTask _ _ => true
  | .callbackReturn => true
  | .callbackThrow => true
  | _ => false

namespace Rtm

variable {lib : JsonLibrary} {rtm t : Rtm} {e : RtmEvent}

/-- The other threads append to the queue. -/
theorem Steps.of_others (h : Steps lib rtm e t) (he : e.isOfWorker = false) :
    t.phase = rtm.phase ∧ t.calls = rtm.calls ∧ ∃ new, t.tasks = rtm.tasks ++ new := by
  cases h with
  | postedCall | postedPublish | listener | peerReconnected => exact ⟨rfl, rfl, _, rfl⟩
  | invokeTask caller => exact ⟨rfl, rfl, _, rfl⟩
  | stop => exact ⟨rfl, rfl, [], (List.append_nil _).symm⟩
  | _ => exact Bool.noConfusion he

/-- The worker's own steps are taken while it runs. -/
theorem Steps.isRunning_of_worker (h : Steps lib rtm e t) (he : e.isOfWorker = true) :
    rtm.phase.isRunning = true := by
  cases h with
  | directCall _ _ hphase | directPublish _ _ hphase | drain hphase | exit hphase
  | drained hphase | runTask _ _ _ _ _ hphase | callbackReturn hphase | callbackThrow hphase =>
      rw [hphase]
      rfl
  | invokeTask caller hcall =>
      cases caller with
      | worker =>
          rw [of_decide_eq_true hcall]
          rfl
      | other => exact Bool.noConfusion he
  | _ => exact Bool.noConfusion he

end Rtm

namespace RtmSystem

variable {lib : JsonLibrary} {s t : RtmSystem} {e : SystemEvent}

/-- What the service thread reports is posted, if anything is. -/
theorem exists_posted_of_report {calls : List ListenerCall} {front front' : ConnectedRtm}
    (h : report lib calls front = some front') :
    ∃ new calls', front' =
      { front with
        rtm := { front.rtm with tasks := front.rtm.tasks ++ new }
        calls := calls' } := by
  induction calls generalizing front with
  | nil =>
      obtain rfl := Option.some.inj h
      refine ⟨[], front.calls, ?_⟩
      rw [List.append_nil]
  | cons call calls ih =>
      obtain ⟨mid, hmid, hrest⟩ := Option.bind_eq_some_iff.mp h
      obtain ⟨new, calls', rfl⟩ := ih hrest
      cases ConnectedRtm.steps_of_step hmid with
      | peer =>
          refine ⟨(if call.callback ∈ front.remaining then none
            else Rtm.expectedTask call).toList ++ new, calls', ?_⟩
          rw [← List.append_assoc]

theorem rtm_carryOut (s : RtmSystem) (rtm : Rtm) : (s.carryOut rtm).rtm = rtm := rfl

/-- Of the client, what the worker does changes the queue of the transport. -/
theorem client_carryOut (s : RtmSystem) (rtm : Rtm) :
    ∃ tasks, (s.carryOut rtm).client =
      s.client.setTransport { s.client.peer.transport with tasks } :=
  Client.foldl_carryOut_frame (notifications s.rtm rtm) s.client

theorem requests_carryOut (s : RtmSystem) (rtm : Rtm) :
    (s.carryOut rtm).client.requests = s.client.requests := by
  obtain ⟨tasks, heq⟩ := s.client_carryOut rtm
  rw [heq]
  rfl

theorem phase_carryOut (s : RtmSystem) (rtm : Rtm) :
    (s.carryOut rtm).client.phase = s.client.phase := by
  obtain ⟨tasks, heq⟩ := s.client_carryOut rtm
  rw [heq]
  rfl

theorem written_carryOut (s : RtmSystem) (rtm : Rtm) :
    (s.carryOut rtm).client.written = s.client.written := by
  obtain ⟨tasks, heq⟩ := s.client_carryOut rtm
  rw [heq]
  rfl

theorem notifications_of_calls {rtm t : Rtm} (h : t.calls = rtm.calls) :
    notifications rtm t = [] := by
  have hsame : t.notified = rtm.notified := congrArg (List.filter PeerCall.isNotify) h
  rw [notifications, hsame]
  exact List.drop_length

/-- The destructor's first statement apart, a step posts to the worker's queue or is a
step of the worker or of a thread that calls the public functions. -/
theorem Steps.moved (h : Steps lib s e t) (hstop : e ≠ .stop) :
    (∃ new, t.rtm = { s.rtm with tasks := s.rtm.tasks ++ new }) ∨
      ∃ e, e ≠ .stop ∧ Rtm.Steps lib s.rtm e t.rtm := by
  cases h with
  | stop => exact absurd rfl hstop
  | rtm e rtm hmay hrtm =>
      refine Or.inr ⟨e, ?_, hrtm⟩
      rintro rfl
      exact Bool.noConfusion hmay
  | called operation promise reply timestamp rtm hrequest hposted hrtm =>
      exact Or.inr ⟨_, RtmEvent.noConfusion, hrtm⟩
  | executed operation promise timestamp first second rtm hrequest hposted hrtm =>
      exact Or.inr ⟨_, RtmEvent.noConfusion, hrtm⟩
  | client e client front he hclient hfront =>
      obtain ⟨new, calls, rfl⟩ := exists_posted_of_report hfront
      exact Or.inl ⟨new, rfl⟩
  | _ => exact Or.inl ⟨[], by rw [List.append_nil]; rfl⟩

/-- Where the worker's request is. -/
structure RequestInv (s : RtmSystem) : Prop where
  idle : s.request = none → s.client.requests = []
  busy : s.request ≠ none → s.rtm.phase = .callback ∨ s.rtm.phase = .innerLoop
  login : s.login ≠ none → s.rtm.phase = .innerLoop ∧ ∃ tasks, s.rtm.tasks = .reconnected :: tasks

theorem requestInv_start (appId userId : String) (config : RtmConfig) :
    RequestInv (start appId userId config) where
  idle := fun _ => rfl
  busy := fun h => absurd rfl h
  login := fun h => absurd rfl h

theorem request_of_mayTake {e : RtmEvent} (hmay : s.mayTake e = true)
    (he : e.isOfWorker = true) : s.request = none := by
  cases e with
  | call caller =>
      cases caller with
      | worker => exact Bool.noConfusion hmay
      | other => exact Bool.noConfusion he
  | publish caller | invokeTask caller =>
      cases caller with
      | worker => exact Option.isNone_iff_eq_none.mp hmay
      | other => exact Bool.noConfusion he
  | test | callbackReturn | callbackThrow => exact Option.isNone_iff_eq_none.mp hmay
  | runTask => exact Option.isNone_iff_eq_none.mp (Bool.and_eq_true_iff.mp hmay).1
  | listener | peerReconnected | stop => exact Bool.noConfusion hmay

/-- While the worker waits for a request only the other threads take steps. -/
theorem isOfWorker_of_mayTake {e : RtmEvent} (hmay : s.mayTake e = true)
    (hrequest : s.request ≠ none) : e.isOfWorker = false := by
  apply Bool.eq_false_of_not_eq_true
  exact fun hworker => hrequest (request_of_mayTake hmay hworker)

/-- A step of the worker keeps the login of a reconnect task only with the task. -/
theorem login_of_mayTake {e : RtmEvent} {rtm : Rtm} (hmay : s.mayTake e = true)
    (hrtm : Rtm.Steps lib s.rtm e rtm) {tasks : List RtmTask}
    (hphase : s.rtm.phase = .innerLoop) (htasks : s.rtm.tasks = .reconnected :: tasks) :
    rtm.phase = .innerLoop ∧ ∃ tasks, rtm.tasks = .reconnected :: tasks := by
  cases hworker : e.isOfWorker with
  | false =>
      obtain ⟨hsame, -, new, hnew⟩ := hrtm.of_others hworker
      exact ⟨hsame.trans hphase, tasks ++ new, by rw [hnew, htasks, List.cons_append]⟩
  | true =>
      cases hrtm with
      | directCall | directPublish | drain | exit | callbackReturn | callbackThrow =>
          exact WorkerPhase.noConfusion (hphase.symm.trans ‹_›)
      | drained _ hempty => exact absurd (htasks.symm.trans hempty) (List.cons_ne_nil _ _)
      | runTask first second =>
          have hno := (Bool.and_eq_true_iff.mp hmay).2
          rw [htasks] at hno
          exact Bool.noConfusion hno
      | invokeTask caller =>
          refine ⟨hphase, tasks ++ [.application], ?_⟩
          rw [htasks, List.cons_append]
      | _ => exact Bool.noConfusion hworker

theorem RequestInv.step (h : RequestInv s) (hsteps : Steps lib s e t) : RequestInv t := by
  cases hsteps with
  | install | stop | destroyed => exact ⟨h.idle, h.busy, h.login⟩
  | destroyPeer => exact ⟨h.idle, h.busy, h.login⟩
  | client e client front he hclient hfront =>
      obtain ⟨new, calls, rfl⟩ := exists_posted_of_report hfront
      refine ⟨fun hnone => ?_, h.busy, fun hlogin => ?_⟩
      · exact (hclient.requests he).trans (h.idle hnone)
      · obtain ⟨hphase, tasks, htasks⟩ := h.login hlogin
        refine ⟨hphase, tasks ++ new, ?_⟩
        change s.rtm.tasks ++ new = _
        rw [htasks, List.cons_append]
  | rtm e rtm hmay hrtm =>
      refine ⟨fun hnone => ?_, fun hsome => ?_, fun hlogin => ?_⟩
      · exact (s.requests_carryOut rtm).trans (h.idle hnone)
      · have hbusy : s.request ≠ none := hsome
        obtain ⟨hsame, -⟩ := hrtm.of_others (isOfWorker_of_mayTake hmay hbusy)
        rw [rtm_carryOut, hsame]
        exact h.busy hbusy
      · obtain ⟨hphase, tasks, htasks⟩ := h.login hlogin
        exact login_of_mayTake hmay hrtm hphase htasks
  | request operation draw method data client hnone hmay =>
      refine ⟨fun hno => absurd hno (Option.some_ne_none _), fun _ => ?_, h.login⟩
      change s.rtm.phase = .callback ∨ s.rtm.phase = .innerLoop
      simp only [mayRequest] at hmay
      split at hmay
      next hphase => exact Or.inl hphase
      next hphase _ => exact Or.inr hphase
      next hphase _ => exact Or.inr hphase
      next => exact Bool.noConfusion hmay
  | postTimeout client hclient =>
      refine ⟨fun hnone => ?_, h.busy, h.login⟩
      exact absurd (h.idle hnone) (hclient.requests_ne_nil (Or.inl rfl))
  | postSend client hclient =>
      refine ⟨fun hnone => ?_, h.busy, h.login⟩
      exact absurd (h.idle hnone) (hclient.requests_ne_nil (Or.inr rfl))
  | called operation promise reply timestamp rtm hrequest hposted hrtm =>
      refine ⟨fun _ => ?_, fun hno => absurd rfl hno, fun hlogin => ?_⟩
      · exact (requests_carryOut _ rtm).trans hposted
      · obtain ⟨hphase, -⟩ := h.login hlogin
        cases hrtm with
        | directCall _ _ hcallback => exact WorkerPhase.noConfusion (hphase.symm.trans hcallback)
  | loggedIn operation promise reply timestamp tasks hrequest hposted hphase htasks =>
      exact ⟨fun _ => hposted, fun hno => absurd rfl hno, fun _ => ⟨hphase, tasks, htasks⟩⟩
  | executed operation promise timestamp first second rtm hrequest hposted hrtm =>
      refine ⟨fun _ => ?_, fun hno => absurd rfl hno, fun hno => absurd rfl hno⟩
      exact (requests_carryOut _ rtm).trans hposted

/-! ## What is sent -/

/-- The messages that a step gives to `send`. -/
def sends (s : RtmSystem) (e : SystemEvent) (t : RtmSystem) : List Json :=
  match e with
  | .postSend => s.client.requests.head?.toList.map fun r => r.call.request
  | _ => (notifications s.rtm t.rtm).filterMap PeerCall.message

theorem sends_of_ne (hsend : e ≠ .postSend) :
    s.sends e t = (notifications s.rtm t.rtm).filterMap PeerCall.message := by
  cases e with
  | postSend => exact absurd rfl hsend
  | _ => rfl

/-- A step in which the worker asks for no notification and no request is posted. -/
theorem sends_of_calls (hsend : e ≠ .postSend) (hcalls : t.rtm.calls = s.rtm.calls) :
    s.sends e t = [] := by
  rw [sends_of_ne hsend, notifications_of_calls hcalls]
  rfl

theorem pipeline_of_calls (hsend : e ≠ .postSend) (hcalls : t.rtm.calls = s.rtm.calls)
    (hsame : t.client.pipeline lib = s.client.pipeline lib) :
    t.client.pipeline lib = s.client.pipeline lib ++ (s.sends e t).map lib.dump := by
  rw [sends_of_calls hsend hcalls, hsame]
  exact (List.append_nil _).symm

theorem Steps.pipeline (h : Steps lib s e t) :
    t.client.pipeline lib = s.client.pipeline lib ++ (s.sends e t).map lib.dump := by
  cases h with
  | rtm | called | executed => exact Client.pipeline_foldl_carryOut _ s.client
  | client e client front he hclient hfront =>
      obtain ⟨new, calls, rfl⟩ := exists_posted_of_report hfront
      exact pipeline_of_calls SystemEvent.noConfusion rfl
        (hclient.pipeline_of_isOfServiceThread he)
  | request operation draw method data client hnone hmay hcall hclient =>
      exact pipeline_of_calls SystemEvent.noConfusion rfl
        (hclient.pipeline.trans (List.append_nil _))
  | postTimeout client hclient =>
      exact pipeline_of_calls SystemEvent.noConfusion rfl
        (hclient.pipeline.trans (List.append_nil _))
  | postSend client hclient =>
      have hpipeline := hclient.pipeline
      rw [ClientEvent.outgoing, ← List.head?_eq_getElem?] at hpipeline
      refine hpipeline.trans (congrArg (s.client.pipeline lib ++ ·) ?_)
      cases hhead : s.client.requests.head? <;> simp [sends, hhead]
  | install | loggedIn | stop | destroyPeer | destroyed =>
      exact pipeline_of_calls SystemEvent.noConfusion rfl rfl

theorem Steps.written_mono (h : Steps lib s e t) : s.client.written <+: t.client.written := by
  cases h with
  | client e client front he hclient => exact hclient.written_mono
  | request operation draw method data client hnone hmay hcall hclient =>
      exact hclient.written_mono
  | postTimeout client hclient => exact hclient.written_mono
  | postSend client hclient => exact hclient.written_mono
  | rtm e rtm | called _ _ _ _ rtm | executed _ _ _ _ _ rtm =>
      rw [written_carryOut]
  | install | loggedIn | stop | destroyPeer | destroyed => exact List.prefix_refl _

end RtmSystem

end Protoo
