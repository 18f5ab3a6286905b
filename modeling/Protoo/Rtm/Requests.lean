import Protoo.Rtm.Relogin
import Protoo.Peer.Ranges
import Protoo.Rpc.Identity

/-!
# The requests of the worker

All requests of `RTM` are made on the worker's thread, which waits for each of them
in `get`.  So no two of them are pending at once, and `m_promises` holds at most the
entry of the one that is waited for and the entry that `handleResponse` or the closure
of a timeout is about to erase: the worker may go on as soon as its promise is completed,
which is before the cancel is posted and before the entry is erased.

`FreshDraw` is the condition on steps under which this overlap costs no request its
entry.
-/

namespace Protoo

open Protoo.Support

/-! ## The client in the system -/

/-- The event of the peer that the worker's call is; a request is made step by step. -/
def PeerCall.clientEvent : PeerCall → Option ClientEvent
  | .notify method data => some (.notify method data)
  | .request _ _ => none

namespace Client

variable {lib : JsonLibrary} {c c' : Client} {e : ClientEvent} {ids : List ℤ}

theorem run_foldl_carryOut (lib : JsonLibrary) (calls : List PeerCall) (c : Client) :
    Run (step lib) AnyStep c (calls.filterMap PeerCall.clientEvent) (calls.foldl carryOut c) := by
  induction calls generalizing c with
  | nil => exact .nil
  | cons call calls ih =>
      cases call with
      | notify method data =>
          have hstep : step lib c (.notify method data) = some (c.carryOut (.notify method data)) :=
            rfl
          exact Run.cons trivial hstep (ih _)
      | request method data => exact ih c

/-- A result is not taken back. -/
theorem Steps.empty_of_lt (h : Steps lib c e c') {k : ℕ} (hk : k < c.peer.states.length)
    (hempty : c'.peer.states[k]? = some .empty) : c.peer.states[k]? = some .empty := by
  cases h.change hk with
  | same hsame => exact hsame.symm.trans hempty
  | dropped _ _ hready | timeout _ _ _ _ _ hready | response _ _ _ _ _ _ _ _ _ _ hready =>
      rw [hready] at hempty
      simp at hempty

/-- A promise without a result had none before the step, or the step has made it. -/
theorem WellFormed.empty_before (h : WellFormed ids c) (hstep : Client.step lib c e = some c')
    {k : ℕ} (hempty : c'.peer.states[k]? = some .empty) :
    c.peer.states[k]? = some .empty ∨ e.newIds ≠ [] ∧ k = c.peer.states.length := by
  by_cases hk : k < c.peer.states.length
  · exact Or.inl ((steps_of_step hstep).empty_of_lt hk hempty)
  · right
    obtain ⟨hlt, -⟩ := List.getElem?_eq_some_iff.mp hempty
    rw [(h.step hstep).length, List.length_append, ← h.length] at hlt
    cases e with
    | register draw method data =>
        refine ⟨List.cons_ne_nil _ _, ?_⟩
        simp only [ClientEvent.newIds, List.length_singleton] at hlt
        omega
    | _ =>
        simp only [ClientEvent.newIds, List.length_nil] at hlt
        omega

/-! ## Delays of the timer -/

/-- What is given to the timer, by a call in progress, by a posted closure or when it was
armed, has the property `P`. -/
structure DelaysMeet (P : ℤ → Prop) (c : Client) : Prop where
  requests : ∀ r ∈ c.requests, P r.call.timeoutMs
  tasks : ∀ afterMs id, Task.schedule afterMs id ∈ c.peer.transport.tasks → P afterMs
  sul : ∀ delay, c.peer.transport.sul = some delay →
    ∃ afterMs, P afterMs ∧ delay = afterMs * usPerMs

/-- A step that makes no call, posts no timeout and arms no timer. -/
theorem DelaysMeet.mono {P : ℤ → Prop} (h : c.DelaysMeet P)
    (hrequests : ∀ r ∈ c'.requests, r ∈ c.requests)
    (htasks : ∀ afterMs id, Task.schedule afterMs id ∈ c'.peer.transport.tasks →
      Task.schedule afterMs id ∈ c.peer.transport.tasks)
    (hsul : c'.peer.transport.sul = c.peer.transport.sul ∨ c'.peer.transport.sul = none) :
    c'.DelaysMeet P where
  requests r hr := h.requests r (hrequests r hr)
  tasks afterMs id hmem := h.tasks afterMs id (htasks afterMs id hmem)
  sul delay hdelay := by
    rcases hsul with hsame | hnone
    · exact h.sul delay (hsame.symm.trans hdelay)
    · exact absurd (hdelay.symm.trans hnone) (Option.some_ne_none _)

/-- The posted closure of a timeout arms the timer with its delay. -/
theorem DelaysMeet.runTask {P : ℤ → Prop} (h : c.DelaysMeet P) {task : Task ℤ}
    {rest : List (Task ℤ)} {t : WebSocketTransport ℤ}
    (htasks : c.peer.transport.tasks = task :: rest)
    (hrun : ({ c.peer.transport with tasks := rest }).runTask lib task = .ok t) :
    DelaysMeet P (c.setTransport t) := by
  have hrest : DelaysMeet P (c.setTransport { c.peer.transport with tasks := rest }) :=
    h.mono (fun r hr => hr) (fun afterMs id hmem => htasks ▸ List.mem_cons_of_mem task hmem)
      (Or.inl rfl)
  cases task with
  | send message =>
      obtain ⟨msg, -, rfl⟩ := WebSocketTransport.runSend_eq_ok hrun
      exact ⟨hrest.requests, hrest.tasks, hrest.sul⟩
  | schedule afterMs scheduled =>
      obtain rfl := Except.ok.inj hrun
      unfold WebSocketTransport.runSchedule
      split
      next =>
        refine ⟨hrest.requests, hrest.tasks, ?_⟩
        intro delay hdelay
        refine ⟨afterMs, h.tasks afterMs scheduled ?_, (Option.some.inj hdelay).symm⟩
        exact htasks ▸ List.mem_cons_self
      next => exact hrest
  | cancel =>
      obtain rfl := Except.ok.inj hrun
      unfold WebSocketTransport.runCancel
      split
      next => exact hrest.mono (fun r hr => hr) (fun _ _ hmem => hmem) (Or.inr rfl)
      next => exact hrest

theorem DelaysMeet.step {P : ℤ → Prop} (h : c.DelaysMeet P) (hsteps : Steps lib c e c')
    (hregister : ∀ draw method data, e = .register draw method data →
      P (c.peer.registered draw method data).timeoutMs) : c'.DelaysMeet P := by
  have hposts : ∀ {task : Task ℤ}, (∀ afterMs id, task ≠ .schedule afterMs id) →
      ∀ afterMs id, Task.schedule afterMs id ∈ (c.peer.transport.invokeTask task).tasks →
        Task.schedule afterMs id ∈ c.peer.transport.tasks :=
    fun hother afterMs id hmem => schedule_mem_of_invokeTask hother hmem
  cases hsteps with
  | register draw method data =>
      refine ⟨?_, ?_, ?_⟩
      · intro r hr
        rcases List.mem_append.mp hr with hold | hnew
        · exact h.requests r hold
        · obtain rfl := List.mem_singleton.mp hnew
          exact hregister draw method data rfl
      · rw [Peer.release_transport]
        exact h.tasks
      · rw [Peer.release_transport]
        exact h.sul
  | postTimeout i call hcall =>
      have hdelay : P call.timeoutMs := h.requests ⟨call, false⟩ (List.mem_of_getElem? hcall)
      refine ⟨?_, ?_, h.sul⟩
      · intro r hr
        rcases List.mem_or_eq_of_mem_set hr with hold | rfl
        · exact h.requests r hold
        · exact hdelay
      · intro afterMs id hmem
        rcases List.mem_append.mp hmem with hold | hnew
        · exact h.tasks afterMs id hold
        · obtain ⟨rfl, rfl⟩ := Task.schedule.inj (List.mem_singleton.mp hnew)
          exact hdelay
  | postSend i call hcall =>
      refine h.mono (fun r hr => List.mem_of_mem_eraseIdx hr) ?_ (Or.inl ?_)
      · rw [Peer.transport_returnRequest]
        exact hposts (by simp)
      · rw [Peer.transport_returnRequest]
        rfl
  | notify | accept | reject | postCancel =>
      exact h.mono (fun r hr => hr) (hposts (by simp)) (Or.inl rfl)
  | receive chunk final handled c' hidle hphase hreceived =>
      cases hreceived with
      | buffered | completed => exact h.mono (fun r hr => hr) (fun _ _ hmem => hmem) (Or.inl rfl)
  | erase => exact h.mono (fun r hr => hr) (fun _ _ hmem => hmem) (Or.inl rfl)
  | eraseTimedOut id =>
      refine h.mono (fun r hr => hr) ?_ (Or.inl ?_)
      · rw [Peer.transport_eraseEntry]
        exact fun _ _ hmem => hmem
      · rw [Peer.transport_eraseEntry]
  | timerIgnored | timeout =>
      exact h.mono (fun r hr => hr) (fun _ _ hmem => hmem) (Or.inr rfl)
  | destroy => exact h.mono (fun r hr => hr) (fun _ _ hmem => hmem) (Or.inl rfl)
  | service e s hidle hown hservice =>
      by_cases hrunTask : e = .runTask
      · subst hrunTask
        cases hservice with
        | runTask task rest t hphase htasks hrun => exact h.runTask htasks hrun
      · have hkeeps := hservice.keeps hown hrunTask
        refine h.mono (fun r hr => hr) ?_ (Or.inl hkeeps.sul)
        intro afterMs id hmem
        have hmem' : Task.schedule afterMs id ∈ s.transport.tasks := hmem
        rw [hkeeps.tasks] at hmem'
        exact hmem'

/-! ## Entries that wait for their response -/

/-- A promise whose entry is not about to be erased keeps the entry until it is completed. -/
theorem Steps.entered (h : Steps lib c e c') (hnil : e.newIds = []) {k : ℕ} {id : ℤ}
    (hlookup : c.peer.promises.lookup id = some k) (hfound : c.handler.found ≠ some id) :
    Completed c'.peer.states k ∨
      c'.peer.promises.lookup id = some k ∧ c'.handler.found ≠ some id := by
  cases h with
  | register draw method data => exact absurd hnil (List.cons_ne_nil _ _)
  | postSend i call hcall =>
      rw [Peer.promises_returnRequest]
      exact Or.inr ⟨hlookup, hfound⟩
  | receive chunk final handled c' hidle hphase hreceived =>
      cases hreceived with
      | buffered => exact Or.inr ⟨hlookup, hfound⟩
      | completed message id' promise calls hparse hresponse hid hentry hempty =>
          by_cases hsame : id' = id
          · subst hsame
            obtain rfl := Option.some.inj (hlookup.symm.trans hentry)
            refine Or.inl ⟨_, ?_, Peer.replyOf_ne_brokenPromise message⟩
            rw [Store.getElem?_set_of_empty hempty, if_pos rfl]
          · exact Or.inr ⟨hlookup, fun h => hsame (Option.some.inj h)⟩
  | postCancel id' hhandler =>
      have hsame : c.handler.found = some id' := congrArg Handler.found hhandler
      exact Or.inr ⟨hlookup, fun h => hfound (hsame.trans h)⟩
  | erase id' hhandler | eraseTimedOut id' hhandler =>
      have hne : id ≠ id' := by
        rintro rfl
        exact hfound (congrArg Handler.found hhandler)
      refine Or.inr ⟨?_, Option.some_ne_none id |>.symm⟩
      exact (congrArg (Finmap.lookup id) (Peer.promises_eraseEntry _ _ _)).trans
        ((Finmap.lookup_erase_ne hne).trans hlookup)
  | timeout id' promise hidle hphase hsul htask hentry hempty =>
      by_cases hsame : id' = id
      · subst hsame
        obtain rfl := Option.some.inj (hlookup.symm.trans hentry)
        refine Or.inl ⟨.error (.runtimeError "request timeout"), ?_, by simp⟩
        rw [Store.getElem?_set_of_empty hempty, if_pos rfl]
      · exact Or.inr ⟨hlookup, fun h => hsame (Option.some.inj h)⟩
  | _ => exact Or.inr ⟨hlookup, hfound⟩

/-- The entry of the promise `k` is in the map and is not about to be erased. -/
def Entered (c : Client) (k : ℕ) : Prop :=
  ∃ id, c.peer.promises.lookup id = some k ∧ c.handler.found ≠ some id

/-- Every promise is completed or has its entry. -/
def Answerable (c : Client) : Prop :=
  ∀ k < c.peer.states.length, Completed c.peer.states k ∨ c.Entered k

/-- A promise that has its entry has no result. -/
theorem WellFormed.empty_of_entered (h : WellFormed ids c) {k : ℕ} (hk : c.Entered k) :
    c.peer.states[k]? = some .empty := by
  obtain ⟨id, hlookup, hfound⟩ := hk
  exact (h.pending id k hlookup).resolve_right hfound

theorem Answerable.step (h : c.Answerable) (hformed : WellFormed ids c) (hnil : e.newIds = [])
    (hstep : Client.step lib c e = some c') : c'.Answerable := by
  have hsteps := steps_of_step hstep
  have hlength := (hformed.step hstep).length
  rw [hnil, List.append_nil, ← hformed.length] at hlength
  intro k hk
  rcases h k (hlength ▸ hk) with hcompleted | ⟨id, hlookup, hfound⟩
  · exact Or.inl (hsteps.completed_of_completed hcompleted)
  · rcases hsteps.entered hnil hlookup hfound with hcompleted | hentered
    · exact Or.inl hcompleted
    · exact Or.inr ⟨id, hentered⟩

end Client

namespace RtmSystem

variable {lib : JsonLibrary} {s t : RtmSystem} {e : SystemEvent}

/-- The events of the client in a step of the system from `s` to `t`. -/
def clientEvents (s : RtmSystem) (e : SystemEvent) (t : RtmSystem) : List ClientEvent :=
  match e with
  | .client e => [e]
  | .request operation draw =>
      match s.rtm.peerCall operation with
      | .request method data => [.register draw method data]
      | .notify _ _ => []
  | .postTimeout => [.postTimeout 0]
  | .postSend => [.postSend 0]
  | .destroyPeer => [.destroy]
  | _ => (notifications s.rtm t.rtm).filterMap PeerCall.clientEvent

/-- Every step of the system is made of steps of its client. -/
theorem run_clientEvents (h : step lib s e = some t) :
    Run (Client.step lib) AnyStep s.client (clientEvents s e t) t.client := by
  have hsingle : ∀ {c : Client} {e : ClientEvent} {c' : Client}, Client.step lib c e = some c' →
      Run (Client.step lib) AnyStep c [e] c' := fun hstep => Run.cons trivial hstep .nil
  have hsteps := (steps_of_step h).2
  obtain ⟨-, h⟩ := Option.ite_none_left_eq_some.mp h
  cases hsteps with
  | client e client front =>
      obtain ⟨-, h⟩ := Option.ite_none_right_eq_some.mp h
      obtain ⟨client', hclient, h⟩ := Option.bind_eq_some_iff.mp h
      obtain ⟨front', -, h⟩ := Option.bind_eq_some_iff.mp h
      obtain rfl : client' = client := congrArg RtmSystem.client (Option.some.inj h)
      exact hsingle hclient
  | request operation draw method data client hnone hmay hcall =>
      obtain ⟨-, h⟩ := Option.ite_none_right_eq_some.mp h
      simp only [hcall] at h
      obtain ⟨client', hclient, h⟩ := Option.map_eq_some_iff.mp h
      obtain rfl : client' = client := congrArg RtmSystem.client h
      simp only [clientEvents, hcall]
      exact hsingle hclient
  | postTimeout client | postSend client =>
      obtain ⟨client', hclient, h⟩ := Option.map_eq_some_iff.mp h
      obtain rfl : client' = client := congrArg RtmSystem.client h
      exact hsingle hclient
  | destroyPeer => exact hsingle rfl
  | rtm | called | executed => exact Client.run_foldl_carryOut lib _ s.client
  | install | loggedIn | stop | destroyed =>
      have hnone : notifications s.rtm s.rtm = [] := notifications_of_calls rfl
      unfold clientEvents
      change Run (Client.step lib) AnyStep s.client
        ((notifications s.rtm s.rtm).filterMap PeerCall.clientEvent) s.client
      rw [hnone]
      exact .nil

/-- Only a request registers an id. -/
theorem newIds_clientEvents (hsteps : Steps lib s e t)
    (hrequest : ∀ operation draw, e ≠ .request operation draw) :
    ∀ e' ∈ clientEvents s e t, e'.newIds = [] := by
  have hnotify : ∀ calls : List PeerCall, ∀ e' ∈ calls.filterMap PeerCall.clientEvent,
      e'.newIds = [] := by
    intro calls e' he'
    obtain ⟨call, -, hcall⟩ := List.mem_filterMap.mp he'
    cases call with
    | notify method data =>
        obtain rfl := Option.some.inj hcall
        rfl
    | request method data => exact absurd hcall.symm (Option.some_ne_none _)
  cases hsteps with
  | client e client front he =>
      intro e' he'
      obtain rfl := List.mem_singleton.mp he'
      cases e' with
      | register draw method data => exact Bool.noConfusion he
      | _ => rfl
  | request operation draw => exact absurd rfl (hrequest operation draw)
  | postTimeout | postSend | destroyPeer =>
      intro e' he'
      obtain rfl := List.mem_singleton.mp he'
      rfl
  | _ => exact hnotify _

/-! ## One request at a time -/

/-- The worker waits for the promise `k`. -/
def Awaits (s : RtmSystem) (k : ℕ) : Prop := ∃ operation, s.request = some (operation, k)

theorem Awaits.unique {k l : ℕ} (hk : s.Awaits k) (hl : s.Awaits l) : k = l := by
  obtain ⟨operation, hk⟩ := hk
  obtain ⟨operation', hl⟩ := hl
  exact (Prod.mk.inj (Option.some.inj (hk.symm.trans hl))).2

theorem not_awaits (h : s.request = none) (k : ℕ) : ¬s.Awaits k := by
  rintro ⟨operation, hk⟩
  exact Option.some_ne_none _ (hk.symm.trans h)

/-- A promise without a result is the one that the worker waits for, and so is that of a call
of `request` in progress. -/
structure OneAtATime (s : RtmSystem) : Prop where
  request : RequestInv s
  formed : ∃ ids, s.client.WellFormed ids
  pending : ∀ k : ℕ, s.client.peer.states[k]? = some .empty → s.Awaits k
  call : ∀ r ∈ s.client.requests, s.Awaits r.call.promise

theorem oneAtATime_start (appId userId : String) (config : RtmConfig) :
    OneAtATime (start appId userId config) where
  request := requestInv_start appId userId config
  formed := ⟨[], Client.wellFormed_init⟩
  pending := by simp [start]
  call := by simp [start]

/-- The worker goes on only when the promise that it waits for has a result. -/
theorem ready_of_reply {timestamp : ℤ} (h : step lib s (.reply timestamp) = some t) :
    ∃ k reply, s.Awaits k ∧ s.client.requests = [] ∧
      s.client.peer.states[k]? = some (.ready reply) := by
  obtain ⟨-, h⟩ := Option.ite_none_left_eq_some.mp h
  simp only [possibleStep] at h
  split at h
  next operation promise hrequest hposted =>
    split at h
    next reply hready => exact ⟨promise, reply, ⟨operation, hrequest⟩, hposted, hready⟩
    next => exact absurd h.symm (Option.some_ne_none _)
  next => exact absurd h.symm (Option.some_ne_none _)

/-- Without a registration no promise is new. -/
theorem empty_of_clientEvents {ids : List ℤ} (hformed : s.client.WellFormed ids)
    (h : step lib s e = some t) (hrequest : ∀ operation draw, e ≠ .request operation draw) :
    t.client.WellFormed ids ∧
      ∀ k : ℕ, t.client.peer.states[k]? = some .empty →
        s.client.peer.states[k]? = some .empty := by
  have hnone := newIds_clientEvents (steps_of_step h).2 hrequest
  have hrun : Run (Client.step lib) (fun _ e => e.newIds = []) s.client (clientEvents s e t)
      t.client := (run_clientEvents h).of_forall fun e' he' _ => hnone e' he'
  refine hrun.invariant (I := fun c => c.WellFormed ids ∧ ∀ k : ℕ,
    c.peer.states[k]? = some .empty → s.client.peer.states[k]? = some .empty)
    ⟨hformed, fun _ hk => hk⟩ ?_
  rintro c c' e' ⟨hc, hbefore⟩ hnil hstep
  constructor
  · simpa only [hnil, List.append_nil] using hc.step hstep
  · intro k hk
    rcases hc.empty_before hstep hk with hold | ⟨hne, -⟩
    · exact hbefore k hold
    · exact absurd hnil hne

/-- A request is made when no promise is without a result, and its own is the new one. -/
theorem OneAtATime.register (h : OneAtATime s) {operation : Operation} {draw : Draw}
    (hstep : step lib s (.request operation draw) = some t) : OneAtATime t := by
  have hsteps := (steps_of_step hstep).2
  have hrun := run_clientEvents hstep
  have hrequestInv := h.request.step hsteps
  cases hsteps with
  | request operation draw method data client hnone hmay hcall hclient =>
      obtain ⟨ids, hformed⟩ := h.formed
      simp only [clientEvents, hcall] at hrun
      have hregister : Client.step lib s.client (.register draw method data) = some client := by
        simpa using foldlM_of_run hrun
      refine ⟨hrequestInv, ⟨_, hformed.step hregister⟩, ?_, ?_⟩
      · intro k hk
        rcases hformed.empty_before hregister hk with hold | ⟨-, hnew⟩
        · exact absurd (h.pending k hold) (not_awaits hnone k)
        · exact ⟨operation, by rw [hnew]⟩
      · cases hclient with
        | register =>
            intro r hr
            rw [h.request.idle hnone, List.nil_append] at hr
            obtain rfl := List.mem_singleton.mp hr
            exact ⟨operation, rfl⟩

theorem OneAtATime.step (h : OneAtATime s) (hstep : RtmSystem.step lib s e = some t) :
    OneAtATime t := by
  by_cases hrequest : ∃ operation draw, e = .request operation draw
  · obtain ⟨operation, draw, rfl⟩ := hrequest
    exact h.register hstep
  · have hother : ∀ operation draw, e ≠ .request operation draw :=
      fun operation draw he => hrequest ⟨operation, draw, he⟩
    obtain ⟨ids, hformed⟩ := h.formed
    obtain ⟨hformed', hempty⟩ := empty_of_clientEvents hformed hstep hother
    have hsteps := (steps_of_step hstep).2
    by_cases hreply : ∃ timestamp, e = .reply timestamp
    · obtain ⟨timestamp, rfl⟩ := hreply
      obtain ⟨l, reply, hl, hposted, hready⟩ := ready_of_reply hstep
      have hnone : ∀ k : ℕ, t.client.peer.states[k]? ≠ some .empty := by
        intro k hk
        obtain rfl := (h.pending k (hempty k hk)).unique hl
        rw [hempty k hk] at hready
        simp at hready
      refine ⟨h.request.step hsteps, ⟨ids, hformed'⟩, fun k hk => absurd hk (hnone k), ?_⟩
      have hrequests : t.client.requests = s.client.requests := by
        cases hsteps with
        | loggedIn => rfl
        | called | executed => exact requests_carryOut _ _
      rw [hrequests, hposted]
      exact fun r hr => absurd hr List.not_mem_nil
    · have hsame : t.request = s.request := by
        cases hsteps with
        | request operation draw => exact absurd rfl (hother operation draw)
        | called _ _ _ timestamp | loggedIn _ _ _ timestamp | executed _ _ timestamp =>
            exact absurd ⟨timestamp, rfl⟩ hreply
        | _ => rfl
      have hawaits : ∀ k, s.Awaits k → t.Awaits k := by
        rintro k ⟨operation, hk⟩
        exact ⟨operation, hsame.trans hk⟩
      refine ⟨h.request.step hsteps, ⟨ids, hformed'⟩,
        fun k hk => hawaits k (h.pending k (hempty k hk)), ?_⟩
      intro r hr
      apply hawaits
      cases hsteps with
      | client e client front he hclient =>
          exact h.call r ((hclient.requests he) ▸ hr)
      | rtm e rtm => exact h.call r (by rwa [requests_carryOut] at hr)
      | request operation draw => exact absurd rfl (hother operation draw)
      | postTimeout client hclient =>
          cases hclient with
          | postTimeout _ call hcall =>
              rcases List.mem_or_eq_of_mem_set hr with hold | rfl
              · exact h.call r hold
              · exact h.call ⟨call, false⟩ (List.mem_of_getElem? hcall)
      | postSend client hclient =>
          cases hclient with
          | postSend => exact h.call r (List.mem_of_mem_eraseIdx hr)
      | called _ _ _ timestamp | loggedIn _ _ _ timestamp | executed _ _ timestamp =>
          exact absurd ⟨timestamp, rfl⟩ hreply
      | install | stop | destroyPeer | destroyed => exact h.call r hr

/-! ## Two entries at most -/

/-- The map holds at most the entry that the worker waits for and the one in erasure. -/
theorem OneAtATime.card_le (h : OneAtATime s) : s.client.peer.promises.keys.card ≤ 2 := by
  obtain ⟨ids, hformed⟩ := h.formed
  let awaited : Option ℤ := s.request.bind fun request => ids[request.2]?
  have hsubset : s.client.peer.promises.keys ⊆
      awaited.toFinset ∪ s.client.handler.found.toFinset := by
    intro id hid
    obtain ⟨k, hlookup⟩ := Finmap.mem_iff.mp (Finmap.mem_keys.mp hid)
    rw [Finset.mem_union, Option.mem_toFinset, Option.mem_toFinset]
    rcases hformed.pending id k hlookup with hempty | hfound
    · obtain ⟨operation, hrequest⟩ := h.pending k hempty
      left
      change s.request.bind (fun request => ids[request.2]?) = some id
      rw [hrequest]
      exact hformed.entry id k hlookup
    · exact Or.inr hfound
  have hone : ∀ o : Option ℤ, o.toFinset.card ≤ 1 := by
    intro o
    cases o with
    | none => exact Nat.zero_le 1
    | some id => exact Nat.le_refl 1
  calc s.client.peer.promises.keys.card
      ≤ (awaited.toFinset ∪ s.client.handler.found.toFinset).card := Finset.card_le_card hsubset
    _ ≤ awaited.toFinset.card + s.client.handler.found.toFinset.card := Finset.card_union_le _ _
    _ ≤ 2 := Nat.add_le_add (hone _) (hone _)

/-- The timeout with one entry in the map, or with two. -/
def IsWorkerTimeout (afterMs : ℤ) : Prop := afterMs = 226500 ∨ afterMs = 228000

theorem isWorkerTimeout_of_card {size : ℕ} (hpos : 0 < size) (hle : size ≤ 2) :
    IsWorkerTimeout (timeoutMs size) := by
  rw [timeoutMs_eq (hle.trans (by decide))]
  unfold IsWorkerTimeout
  omega

/-- The main thread logs in, and the service thread has run the closures of the request. -/
def awaitingRun : List SystemEvent :=
  [.client (.service (.start true)), .client (.service (.connect .handle)),
    .client (.service .established), .rtm (.call (.other 0) .login ⟨.ok .null, 0⟩), .rtm .test,
    .request .login (.ofNat 1), .postTimeout, .postSend, .client (.service (.serviceReturn 0)),
    .client (.service .runTask), .client (.service .runTask), .client (.service .loop)]

theorem delaysMeet_step (hs : OneAtATime s) (h : s.client.DelaysMeet IsWorkerTimeout)
    (hstep : step lib s e = some t) : t.client.DelaysMeet IsWorkerTimeout := by
  have ht := hs.step hstep
  have hsteps := (steps_of_step hstep).2
  by_cases hrequest : ∃ operation draw, e = .request operation draw
  · obtain ⟨operation, draw, rfl⟩ := hrequest
    cases hsteps with
    | request operation draw method data client hnone hmay hcall hclient =>
        have hle := ht.card_le
        refine h.step hclient ?_
        intro draw' method' data' heq
        obtain ⟨rfl, rfl, rfl⟩ := ClientEvent.register.inj heq
        cases hclient with
        | register =>
            rw [Peer.release_promises] at hle
            refine isWorkerTimeout_of_card (Finset.card_pos.mpr ⟨draw.number, ?_⟩) hle
            exact Finmap.mem_keys.mpr ((Finmap.mem_insert).mpr (Or.inl rfl))
  · have hnone := newIds_clientEvents hsteps fun operation draw he =>
      hrequest ⟨operation, draw, he⟩
    have hrun : Run (Client.step lib) (fun _ e => e.newIds = []) s.client (clientEvents s e t)
        t.client := (run_clientEvents hstep).of_forall fun e' he' _ => hnone e' he'
    refine hrun.invariant h fun hc hnil hclient => hc.step (Client.steps_of_step hclient) ?_
    rintro draw method data rfl
    exact absurd hnil (List.cons_ne_nil _ _)

/-- In every reachable state at most one promise is without a result, and it is the one that
the worker waits for; the map has at most two entries; and every timeout computed for a call,
posted or armed is one of two. -/
theorem requests_one_at_a_time {appId userId : String} {config : RtmConfig}
    {events : List SystemEvent}
    (hrun : Run (step lib) AnyStep (start appId userId config) events s) :
    (∀ k : ℕ, s.client.peer.states[k]? = some .empty →
      ∃ operation, s.request = some (operation, k)) ∧
    s.client.peer.promises.keys.card ≤ 2 ∧
    (∀ r ∈ s.client.requests, r.call.timeoutMs = 226500 ∨ r.call.timeoutMs = 228000) ∧
    (∀ afterMs id, Task.schedule afterMs id ∈ s.client.peer.transport.tasks →
      afterMs = 226500 ∨ afterMs = 228000) ∧
    ∀ delay, s.client.peer.transport.sul = some delay →
      delay = 226500 * usPerMs ∨ delay = 228000 * usPerMs := by
  have hinv : OneAtATime s ∧ s.client.DelaysMeet IsWorkerTimeout := by
    refine hrun.invariant (I := fun s => OneAtATime s ∧ s.client.DelaysMeet IsWorkerTimeout)
      ⟨oneAtATime_start appId userId config, ?_⟩ ?_
    · exact ⟨fun r hr => absurd hr List.not_mem_nil,
        fun _ _ hmem => absurd hmem List.not_mem_nil,
        fun delay hdelay => absurd hdelay.symm (Option.some_ne_none _)⟩
    · exact fun h _ hstep => ⟨h.1.step hstep, delaysMeet_step h.1 h.2 hstep⟩
  refine ⟨hinv.1.pending, hinv.1.card_le, hinv.2.requests, hinv.2.tasks, ?_⟩
  intro delay hdelay
  obtain ⟨afterMs, rfl | rfl, rfl⟩ := hinv.2.sul delay hdelay
  · exact Or.inl rfl
  · exact Or.inr rfl

theorem requests_one_at_a_time_login :
    ∃ s, Run (step loginLibrary) AnyStep (start "" "" {}) awaitingRun s ∧
      s.client.peer.promises.keys.card ≤ 2 ∧ ∃ operation, s.request = some (operation, 0) := by
  obtain ⟨s, hrun, hempty⟩ := (Option.any_eq_true _ _).mp
    (by decide +kernel : (awaitingRun.foldlM (step loginLibrary) (start "" "" {})).any
      (fun s => decide (s.client.peer.states[0]? = some .empty)) = true)
  obtain ⟨hpending, hcard, -⟩ := requests_one_at_a_time (run_of_foldlM hrun)
  exact ⟨s, run_of_foldlM hrun, hcard, hpending 0 (of_decide_eq_true hempty)⟩

/-! ## Every request gets its result -/

/-- Every request has been completed, by a response or by its timeout, or it is the one that
the worker waits for and its entry is there to complete it. -/
def Fulfils (s : RtmSystem) : Prop :=
  ∀ k < s.client.peer.states.length,
    Completed s.client.peer.states k ∨ s.Awaits k ∧ s.client.Entered k

/-- The id drawn for a request is not the one whose entry is in erasure. -/
def FreshDraw (s : RtmSystem) : SystemEvent → Prop
  | .request _ draw => s.client.handler.found ≠ some draw.number
  | _ => True

instance (s : RtmSystem) : (e : SystemEvent) → Decidable (FreshDraw s e)
  | .request _ draw => inferInstanceAs (Decidable (s.client.handler.found ≠ some draw.number))
  | .install => isTrue trivial
  | .client _ => isTrue trivial
  | .rtm _ => isTrue trivial
  | .postTimeout => isTrue trivial
  | .postSend => isTrue trivial
  | .reply _ => isTrue trivial
  | .stop => isTrue trivial
  | .destroyPeer => isTrue trivial
  | .destroyed => isTrue trivial

theorem OneAtATime.fulfils (h : OneAtATime s) (hanswerable : s.client.Answerable) :
    s.Fulfils := by
  obtain ⟨ids, hformed⟩ := h.formed
  intro k hk
  rcases hanswerable k hk with hcompleted | hentered
  · exact Or.inl hcompleted
  · exact Or.inr ⟨h.pending k (hformed.empty_of_entered hentered), hentered⟩

/-- With a fresh id the new promise has its entry, and all others are completed. -/
theorem answerable_register (h : OneAtATime s) (hanswerable : s.client.Answerable)
    {operation : Operation} {draw : Draw} (hC : s.client.handler.found ≠ some draw.number)
    (hstep : step lib s (.request operation draw) = some t) : t.client.Answerable := by
  have hrun := run_clientEvents hstep
  cases (steps_of_step hstep).2 with
  | request operation draw method data client hnone hmay hcall hclient =>
      obtain ⟨ids, hformed⟩ := h.formed
      simp only [clientEvents, hcall] at hrun
      have hregister : Client.step lib s.client (.register draw method data) = some client := by
        simpa using foldlM_of_run hrun
      have hlength := (hformed.step hregister).length
      rw [List.length_append] at hlength
      intro k hk
      by_cases hold : k < s.client.peer.states.length
      · rcases hanswerable k hold with hcompleted | hentered
        · exact Or.inl (hclient.completed_of_completed hcompleted)
        · exact absurd (h.pending k (hformed.empty_of_entered hentered)) (not_awaits hnone k)
      · obtain rfl : k = ids.length := by
          have hlt : k < ids.length + 1 := Nat.lt_of_lt_of_eq hk hlength
          rw [hformed.length] at hold
          exact Nat.le_antisymm (Nat.lt_succ_iff.mp hlt) (Nat.not_lt.mp hold)
        refine Or.inr ⟨draw.number, (hformed.registered hclient).2, ?_⟩
        cases hclient
        exact hC

theorem answerable_step (h : OneAtATime s) (hanswerable : s.client.Answerable)
    (hC : s.FreshDraw e) (hstep : step lib s e = some t) : t.client.Answerable := by
  by_cases hrequest : ∃ operation draw, e = .request operation draw
  · obtain ⟨operation, draw, rfl⟩ := hrequest
    exact answerable_register h hanswerable hC hstep
  · obtain ⟨ids, hformed⟩ := h.formed
    have hnone := newIds_clientEvents (steps_of_step hstep).2 fun operation draw he =>
      hrequest ⟨operation, draw, he⟩
    have hrun : Run (Client.step lib) (fun _ e => e.newIds = []) s.client (clientEvents s e t)
        t.client := (run_clientEvents hstep).of_forall fun e' he' _ => hnone e' he'
    refine (hrun.invariant (I := fun c => c.WellFormed ids ∧ c.Answerable)
      ⟨hformed, hanswerable⟩ ?_).2
    rintro c c' e' ⟨hc, hkept⟩ hnil hclient
    refine ⟨?_, hkept.step hc hnil hclient⟩
    simpa only [hnil, List.append_nil] using hc.step hclient

theorem fulfilInv_step (h : OneAtATime s ∧ s.client.Answerable) (hC : s.FreshDraw e)
    (hstep : step lib s e = some t) : OneAtATime t ∧ t.client.Answerable :=
  ⟨h.1.step hstep, answerable_step h.1 h.2 hC hstep⟩

/-- A request that is made with the id of the entry in erasure loses its own entry. -/
theorem freshDraw_of_fulfils (h : OneAtATime s) (hstep : step lib s e = some t)
    (hfulfils : t.Fulfils) : s.FreshDraw e := by
  cases e with
  | request operation draw =>
      have hrun := run_clientEvents hstep
      cases (steps_of_step hstep).2 with
      | request operation draw method data client hnone hmay hcall hclient =>
          obtain ⟨ids, hformed⟩ := h.formed
          simp only [clientEvents, hcall] at hrun
          have hregister : Client.step lib s.client (.register draw method data) = some client := by
            simpa using foldlM_of_run hrun
          obtain ⟨hempty, hlookup⟩ := hformed.registered hclient
          obtain ⟨hlt, -⟩ := List.getElem?_eq_some_iff.mp hempty
          rcases hfulfils ids.length hlt with hcompleted | ⟨-, id, hid, hfound⟩
          · exact absurd hcompleted (not_completed_of_empty hempty)
          · obtain rfl := (hformed.step hregister).entry_unique hlookup hid
            cases hclient
            exact hfound
  | _ => trivial

/-- All requests get their results, all along a run, exactly if no request is made with the
id of an entry that `handleResponse` or the closure of a timeout is about to erase. -/
theorem fulfils_iff {appId userId : String} {config : RtmConfig} {events : List SystemEvent}
    (hrun : Run (step lib) AnyStep (start appId userId config) events s) :
    Throughout (step lib) (start appId userId config) events Fulfils ↔
      Run (step lib) FreshDraw (start appId userId config) events s := by
  apply hrun.throughout_iff (I := fun s => OneAtATime s ∧ s.client.Answerable)
  · exact ⟨oneAtATime_start appId userId config, fun k hk => absurd hk (Nat.not_lt_zero k)⟩
  · exact fun h => h.1.fulfils h.2
  · exact fulfilInv_step
  · exact fun h hstep hfulfils => freshDraw_of_fulfils h.1 hstep hfulfils

theorem fulfils_iff_login :
    ∃ s, Run (step loginLibrary) FreshDraw (start "" "" {}) awaitingRun s ∧
      Throughout (step loginLibrary) (start "" "" {}) awaitingRun Fulfils := by
  obtain ⟨s, hrun, -⟩ := (Option.any_eq_true _ _).mp
    (by decide +kernel : (awaitingRun.foldlM
      (fun s e => if FreshDraw s e then step loginLibrary s e else none) (start "" "" {})).any
        (fun _ => true) = true)
  have hfresh : Run (step loginLibrary) FreshDraw (start "" "" {}) awaitingRun s :=
    run_of_guarded_foldlM hrun
  exact ⟨s, hfresh, (fulfils_iff (hfresh.mono fun _ _ _ => trivial)).mpr hfresh⟩

end RtmSystem

end Protoo
