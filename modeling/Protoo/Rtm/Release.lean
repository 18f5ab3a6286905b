import Protoo.Rtm.Requests

/-!
# The timeout of the request that the worker waits for

The worker goes on as soon as its promise is completed, and `handleResponse` posts the
cancel after that.  If the worker has made its next request and posted its timeout by
then, the cancel disarms the timer of that request, and without a response the worker
waits for ever.

`CancelsInTime` is the condition on steps that excludes exactly this.  Under it and
`FreshDraw` the timer can release the worker from every request.
-/

namespace Protoo

open Protoo.Support

namespace Client

variable {lib : JsonLibrary} {c c' : Client} {e : ClientEvent} {ids : List ℤ}

/-! ## The timer after the posted closures -/

/-- The id that the timer is armed for after a posted closure. -/
def armedAfter (armed : Option ℤ) : Task ℤ → Option ℤ
  | .send _ => armed
  | .schedule _ id => some id
  | .cancel => none

/-- The id that the timer is armed for. -/
def armed (c : Client) : Option ℤ :=
  if c.peer.transport.sul.isSome then c.peer.transport.task else none

/-- The id that it will be armed for when all posted closures have run. -/
def toBeArmed (c : Client) : Option ℤ := c.peer.transport.tasks.foldl armedAfter c.armed

/-- What the closures leave is what they find or does not depend on it. -/
theorem foldl_armedAfter (tasks : List (Task ℤ)) (armed armed' : Option ℤ) :
    tasks.foldl armedAfter armed = armed ∨
      tasks.foldl armedAfter armed = tasks.foldl armedAfter armed' := by
  induction tasks generalizing armed armed' with
  | nil => exact Or.inl rfl
  | cons task tasks ih =>
      cases task with
      | send message => exact ih armed armed'
      | schedule afterMs id => exact Or.inr rfl
      | cancel => exact Or.inr rfl

theorem toBeArmed_of_posted (task : Task ℤ)
    (htransport : c'.peer.transport = c.peer.transport.invokeTask task) :
    c'.toBeArmed = armedAfter c.toBeArmed task := by
  unfold toBeArmed armed
  rw [htransport, WebSocketTransport.invokeTask, List.foldl_append]
  rfl

theorem toBeArmed_congr (htasks : c'.peer.transport.tasks = c.peer.transport.tasks)
    (htask : c'.peer.transport.task = c.peer.transport.task)
    (hsul : c'.peer.transport.sul = c.peer.transport.sul) : c'.toBeArmed = c.toBeArmed := by
  unfold toBeArmed armed
  rw [htasks, htask, hsul]

/-- A posted closure that runs does what it was posted for. -/
theorem toBeArmed_runTask (hcontext : c.peer.transport.hasContext = true) {task : Task ℤ}
    {rest : List (Task ℤ)} {t : WebSocketTransport ℤ}
    (htasks : c.peer.transport.tasks = task :: rest)
    (hrun : ({ c.peer.transport with tasks := rest }).runTask lib task = .ok t) :
    (c.setTransport t).toBeArmed = c.toBeArmed := by
  have hcontext' : ({ c.peer.transport with tasks := rest }).hasContext = true := hcontext
  have hfold : c.toBeArmed = rest.foldl armedAfter (armedAfter c.armed task) := by
    unfold toBeArmed
    rw [htasks]
    rfl
  rw [hfold]
  cases task with
  | send message =>
      obtain ⟨msg, -, rfl⟩ := WebSocketTransport.runSend_eq_ok hrun
      rfl
  | schedule afterMs scheduled =>
      obtain rfl := Except.ok.inj hrun
      rw [WebSocketTransport.runSchedule_of_hasContext hcontext']
      rfl
  | cancel =>
      obtain rfl := Except.ok.inj hrun
      rw [WebSocketTransport.runCancel_of_hasContext hcontext']
      rfl

/-- The timer fires, and the closures posted before have the last word. -/
theorem toBeArmed_timer {id : ℤ} (h : c.toBeArmed = some id)
    (htasks : c'.peer.transport.tasks = c.peer.transport.tasks)
    (hsul : c'.peer.transport.sul = none) :
    c.peer.transport.task = some id ∨ c'.toBeArmed = some id := by
  have hnone : c'.armed = none := by
    unfold armed
    rw [hsul]
    rfl
  rcases foldl_armedAfter c.peer.transport.tasks c.armed c'.armed with hkept | hsame
  · left
    have harmed : c.armed = some id := hkept.symm.trans h
    unfold armed at harmed
    split at harmed
    next => exact harmed
    next => exact absurd harmed.symm (Option.some_ne_none _)
  · right
    unfold toBeArmed
    rw [htasks, ← hsame]
    exact h

/-- The timeout of a request that waits for its response is still to be posted, or the timer
will be armed for it when all posted closures have run. -/
def TimeoutKept (c : Client) : Prop :=
  ∀ id k, c.peer.promises.lookup id = some k → c.peer.states[k]? = some .empty →
    c.TimeoutUnposted id ∨ c.toBeArmed = some id

/-- A step that takes no timeout away. -/
theorem TimeoutKept.mono (h : c.TimeoutKept)
    (hpending : ∀ id k, c'.peer.promises.lookup id = some k →
      c'.peer.states[k]? = some .empty →
      c.peer.promises.lookup id = some k ∧ c.peer.states[k]? = some .empty)
    (hunposted : ∀ id, c.TimeoutUnposted id → c'.TimeoutUnposted id)
    (harmed : c'.toBeArmed = c.toBeArmed) : c'.TimeoutKept := by
  intro id k hlookup hempty
  obtain ⟨hlookup', hempty'⟩ := hpending id k hlookup hempty
  rcases h id k hlookup' hempty' with hcall | hsame
  · exact Or.inl (hunposted id hcall)
  · exact Or.inr (harmed.trans hsame)

/-- The timer fires for a request that no longer waits, or completes it. -/
theorem TimeoutKept.timer (h : c.TimeoutKept)
    (hpending : ∀ id k, c'.peer.promises.lookup id = some k →
      c'.peer.states[k]? = some .empty →
      c.peer.promises.lookup id = some k ∧ c.peer.states[k]? = some .empty)
    (hrequests : c'.requests = c.requests)
    (htasks : c'.peer.transport.tasks = c.peer.transport.tasks)
    (hsul : c'.peer.transport.sul = none)
    (hfired : ∀ id k, c.peer.transport.task = some id →
      c'.peer.promises.lookup id = some k → c'.peer.states[k]? ≠ some .empty) :
    c'.TimeoutKept := by
  intro id k hlookup hempty
  obtain ⟨hlookup', hempty'⟩ := hpending id k hlookup hempty
  rcases h id k hlookup' hempty' with hcall | harmed
  · left
    unfold TimeoutUnposted
    rw [hrequests]
    exact hcall
  · rcases toBeArmed_timer harmed htasks hsul with htask | hlater
    · exact absurd hempty (hfired id k htask hlookup)
    · exact Or.inr hlater

theorem TimeoutKept.register (h : c.TimeoutKept) (hformed : WellFormed ids c) (draw : Draw)
    (method : String) (data : Json)
    (hsteps : Steps lib c (.register draw method data) c') : c'.TimeoutKept := by
  intro id k hlookup hempty
  cases hsteps with
  | register =>
      have hsteps : Steps lib c (.register draw method data) _ := .register draw method data
      rw [Peer.release_promises] at hlookup
      by_cases hid : id = draw.number
      · refine Or.inl ⟨{ call := c.peer.registered draw method data }, ?_, hid.symm, rfl⟩
        exact List.mem_append_right _ (List.mem_singleton_self _)
      · have hold : c.peer.promises.lookup id = some k :=
          (Finmap.lookup_insert_of_ne _ hid).symm.trans hlookup
        have hbefore := hsteps.empty_of_lt (hformed.lt_length hold) hempty
        rcases h id k hold hbefore with ⟨r, hr, hcall⟩ | harmed
        · exact Or.inl ⟨r, List.mem_append_left _ hr, hcall⟩
        · right
          unfold toBeArmed armed
          rw [Peer.release_transport]
          exact harmed

theorem TimeoutKept.postSend (h : c.TimeoutKept) (hformed : WellFormed ids c) {i : ℕ}
    (hsteps : Steps lib c (.postSend i) c') : c'.TimeoutKept := by
  have hempty : ∀ {k}, k < c.peer.states.length → c'.peer.states[k]? = some .empty →
      c.peer.states[k]? = some .empty := fun hk hempty => hsteps.empty_of_lt hk hempty
  cases hsteps with
  | postSend i call hcall =>
      apply h.mono
      · intro id k hlookup hnone
        rw [Peer.promises_returnRequest] at hlookup
        have hold : c.peer.promises.lookup id = some k := hlookup
        exact ⟨hold, hempty (hformed.lt_length hold) hnone⟩
      · rintro id ⟨r, hr, hid, hposted⟩
        refine ⟨r, ?_, hid, hposted⟩
        obtain ⟨j, hj⟩ := List.mem_iff_getElem?.mp hr
        refine List.mem_eraseIdx_iff_getElem?.mpr ⟨j, ?_, hj⟩
        rintro rfl
        obtain rfl := Option.some.inj (hcall.symm.trans hj)
        exact Bool.noConfusion hposted
      · exact toBeArmed_of_posted (.send call.request) (Peer.transport_returnRequest _ _ _)

theorem lookup_of_erase {promises : Finmap (fun _ : ℤ => ℕ)} {id id' : ℤ} {k : ℕ}
    (h : (promises.erase id).lookup id' = some k) :
    id' ≠ id ∧ promises.lookup id' = some k := by
  by_cases hsame : id' = id
  · subst hsame
    rw [Finmap.lookup_erase] at h
    exact absurd h.symm (Option.some_ne_none k)
  · rw [Finmap.lookup_erase_ne hsame] at h
    exact ⟨hsame, h⟩

/-- The loop has a context, without which no timer would be armed. -/
def HasLoopContext (c : Client) : Prop := c.InLoop → c.peer.transport.hasContext = true

theorem HasLoopContext.step (h : c.HasLoopContext) (hsteps : Steps lib c e c') :
    c'.HasLoopContext := by
  cases hsteps with
  | register =>
      intro hloop
      rw [Peer.release_transport]
      exact h hloop
  | postSend =>
      intro hloop
      rw [Peer.transport_returnRequest]
      exact h hloop
  | eraseTimedOut =>
      intro hloop
      rw [Peer.transport_eraseEntry]
      exact h hloop
  | receive chunk final handled c' hidle hphase hreceived =>
      cases hreceived with
      | buffered | completed => exact h
  | service e s hidle hown hservice => exact hservice.hasContext h
  | _ => exact h

theorem HasLoopContext.foldl_carryOut (h : c.HasLoopContext) (calls : List PeerCall) :
    (calls.foldl carryOut c).HasLoopContext := by
  obtain ⟨tasks, heq⟩ := foldl_carryOut_frame calls c
  rw [heq]
  exact h

/-- The cancel is posted when no request has posted its timeout and waits for its
response. -/
def CancelHarmless (c : Client) : Prop :=
  ∀ id k, c.peer.promises.lookup id = some k → c.peer.states[k]? = some .empty →
    c.TimeoutUnposted id

theorem TimeoutKept.step (h : c.TimeoutKept) (hformed : WellFormed ids c)
    (hcontext : c.HasLoopContext) (hsteps : Steps lib c e c')
    (hcall : ∀ (i : ℕ) (call : RequestCall), c.requests[i]? = some ⟨call, false⟩ → ∀ id k,
      c.peer.promises.lookup id = some k → c.peer.states[k]? = some .empty → id = call.id)
    (hcancel : e = .postCancel → c.CancelHarmless) : c'.TimeoutKept := by
  have hempty : ∀ {k}, k < c.peer.states.length → c'.peer.states[k]? = some .empty →
      c.peer.states[k]? = some .empty := fun hk hempty => hsteps.empty_of_lt hk hempty
  cases hsteps with
  | register draw method data =>
      have hregister : Steps lib c (.register draw method data) _ := .register draw method data
      exact h.register hformed draw method data hregister
  | postTimeout i call hposting =>
      intro id k hlookup hnone
      right
      rw [toBeArmed_of_posted (.schedule call.timeoutMs call.id) rfl,
        hcall i call hposting id k hlookup hnone]
      rfl
  | postSend i call hposting =>
      have hsend : Steps lib c (.postSend i) _ := .postSend i call hposting
      exact h.postSend hformed hsend
  | notify method data =>
      exact h.mono (fun _ _ hlookup hnone => ⟨hlookup, hnone⟩) (fun _ hposting => hposting)
        (toBeArmed_of_posted (.send _) rfl)
  | accept request data response =>
      exact h.mono (fun _ _ hlookup hnone => ⟨hlookup, hnone⟩) (fun _ hposting => hposting)
        (toBeArmed_of_posted (.send response) rfl)
  | reject request errorCode errorReason response =>
      exact h.mono (fun _ _ hlookup hnone => ⟨hlookup, hnone⟩) (fun _ hposting => hposting)
        (toBeArmed_of_posted (.send response) rfl)
  | receive chunk final handled c' hidle hphase hreceived =>
      cases hreceived with
      | buffered =>
          exact h.mono (fun _ _ hlookup hnone => ⟨hlookup, hnone⟩) (fun _ hposting => hposting)
            rfl
      | completed =>
          refine h.mono ?_ (fun _ hposting => hposting) rfl
          exact fun id k hlookup hnone => ⟨hlookup, hempty (hformed.lt_length hlookup) hnone⟩
  | postCancel id hhandler =>
      exact fun id k hlookup hnone => Or.inl (hcancel rfl id k hlookup hnone)
  | erase id hhandler =>
      refine h.mono ?_ (fun _ hposting => hposting) rfl
      intro id' k hlookup hnone
      have hlookup' : (c.peer.eraseEntry c.held id).promises.lookup id' = some k := hlookup
      rw [Peer.promises_eraseEntry] at hlookup'
      have hold := lookup_of_erase hlookup'
      exact ⟨hold.2, hempty (hformed.lt_length hold.2) hnone⟩
  | eraseTimedOut id hhandler =>
      refine h.mono ?_ (fun _ hposting => hposting) ?_
      · intro id' k hlookup hnone
        rw [Peer.promises_eraseEntry] at hlookup
        have hold := lookup_of_erase hlookup
        exact ⟨hold.2, hempty (hformed.lt_length hold.2) hnone⟩
      · unfold toBeArmed armed
        rw [Peer.transport_eraseEntry]
  | timerIgnored hidle hphase hsul hnone =>
      refine h.timer (fun _ _ hlookup hnone => ⟨hlookup, hnone⟩) rfl rfl rfl ?_
      intro id k htask hlookup
      exact absurd ((hnone id htask).symm.trans hlookup) (Option.some_ne_none k).symm
  | timeout id promise hidle hphase hsul htask hlookup hpromise =>
      apply h.timer
      · intro id' k hlookup' hnone
        exact ⟨hlookup', hempty (hformed.lt_length hlookup') hnone⟩
      · rfl
      · rfl
      · rfl
      · intro id' k htask' hlookup'
        obtain rfl := Option.some.inj (htask'.symm.trans htask)
        obtain rfl := Option.some.inj (hlookup'.symm.trans hlookup)
        rw [Store.getElem?_set_of_empty hpromise, if_pos rfl]
        simp
  | destroy =>
      exact h.mono (fun _ _ hlookup hnone => ⟨hlookup, hnone⟩) (fun _ hposting => hposting) rfl
  | service e s hidle hown hservice =>
      refine h.mono (fun _ _ hlookup hnone => ⟨hlookup, hnone⟩) (fun _ hposting => hposting) ?_
      by_cases hrunTask : e = .runTask
      · subst hrunTask
        cases hservice with
        | runTask task rest t hphase htasks hrun =>
            exact toBeArmed_runTask (hcontext (Or.inr hphase)) htasks hrun
      · have hkeeps := hservice.keeps hown hrunTask
        exact toBeArmed_congr hkeeps.tasks hkeeps.task hkeeps.sul

theorem TimeoutKept.foldl_carryOut (h : c.TimeoutKept) (calls : List PeerCall) :
    (calls.foldl carryOut c).TimeoutKept := by
  induction calls generalizing c with
  | nil => exact h
  | cons call calls ih =>
      rw [List.foldl_cons]
      apply ih
      cases call with
      | notify method data =>
          exact h.mono (fun _ _ hlookup hnone => ⟨hlookup, hnone⟩) (fun _ hposting => hposting)
            (toBeArmed_of_posted (.send _) rfl)
      | request method data => exact h

end Client

namespace RtmSystem

variable {lib : JsonLibrary} {s t : RtmSystem} {e : SystemEvent}

/-- A cancel is posted before the worker has posted the timeout of its next request. -/
def CancelsInTime (s : RtmSystem) : SystemEvent → Prop
  | .client .postCancel => s.client.CancelHarmless
  | _ => True

theorem hasLoopContext_step (h : s.client.HasLoopContext) (hsteps : Steps lib s e t) :
    t.client.HasLoopContext := by
  cases hsteps with
  | client e client front he hclient => exact h.step hclient
  | request _ _ _ _ client hnone hmay hcall hclient => exact h.step hclient
  | postTimeout client hclient => exact h.step hclient
  | postSend client hclient => exact h.step hclient
  | rtm | called | executed => exact h.foldl_carryOut _
  | install | loggedIn | stop | destroyPeer | destroyed => exact h

/-- The one request that waits for its response is the one whose call is in progress. -/
theorem OneAtATime.eq_call (h : OneAtATime s) {i : ℕ} {call : RequestCall} {posted : Bool}
    (hcall : s.client.requests[i]? = some ⟨call, posted⟩) {id : ℤ} {k : ℕ}
    (hlookup : s.client.peer.promises.lookup id = some k)
    (hempty : s.client.peer.states[k]? = some .empty) : id = call.id := by
  obtain ⟨ids, hformed⟩ := h.formed
  have hmem := List.mem_of_getElem? hcall
  obtain rfl := (h.pending k hempty).unique (h.call _ hmem)
  exact Option.some.inj ((hformed.entry id _ hlookup).symm.trans (hformed.call _ hmem))

theorem timeoutKept_step (h : OneAtATime s) (hcontext : s.client.HasLoopContext)
    (hkept : s.client.TimeoutKept) (hC : s.CancelsInTime e) (hsteps : Steps lib s e t) :
    t.client.TimeoutKept := by
  obtain ⟨ids, hformed⟩ := h.formed
  have hclient : ∀ {e' : ClientEvent} {client : Client}, Client.Steps lib s.client e' client →
      (e' = .postCancel → s.client.CancelHarmless) → client.TimeoutKept :=
    fun hstep hcancel => hkept.step hformed hcontext hstep
      (fun i call hcall id k hlookup hempty => h.eq_call hcall hlookup hempty) hcancel
  cases hsteps with
  | client e client front he hstep =>
      apply hclient hstep
      rintro rfl
      exact hC
  | request _ _ _ _ client hnone hmay hcall hstep =>
      exact hclient hstep (fun he => ClientEvent.noConfusion he)
  | postTimeout client hstep => exact hclient hstep (fun he => ClientEvent.noConfusion he)
  | postSend client hstep => exact hclient hstep (fun he => ClientEvent.noConfusion he)
  | destroyPeer => exact hclient .destroy (fun he => ClientEvent.noConfusion he)
  | rtm | called | executed => exact hkept.foldl_carryOut _
  | install | loggedIn | stop | destroyed => exact hkept

/-- A cancel that is posted later will disarm the timer. -/
theorem cancelsInTime_of_kept (hsteps : Steps lib s e t) (hkept : t.client.TimeoutKept) :
    s.CancelsInTime e := by
  cases hsteps with
  | client e client front he hclient =>
      cases hclient with
      | postCancel id hhandler =>
          intro id' k hlookup hempty
          rcases hkept id' k hlookup hempty with hcall | harmed
          · exact hcall
          · have hnone : Client.toBeArmed { s.client with
                peer := s.client.peer.postCancel
                handler := .cancelled id } = none := Client.toBeArmed_of_posted .cancel rfl
            exact absurd (harmed.symm.trans hnone) (Option.some_ne_none _)
      | _ => trivial
  | _ => trivial

theorem timeoutInv_start (appId userId : String) (config : RtmConfig) :
    (start appId userId config).client.HasLoopContext ∧
      (start appId userId config).client.TimeoutKept :=
  ⟨Client.timeoutInv_init.context, fun _ k hlookup => absurd hlookup.symm (Option.some_ne_none k)⟩

theorem timeoutInv_step
    (h : OneAtATime s ∧ s.client.HasLoopContext ∧ s.client.TimeoutKept) (hC : s.CancelsInTime e)
    (hstep : step lib s e = some t) :
    OneAtATime t ∧ t.client.HasLoopContext ∧ t.client.TimeoutKept :=
  have hsteps := (steps_of_step hstep).2
  ⟨h.1.step hstep, hasLoopContext_step h.2.1 hsteps, timeoutKept_step h.1 h.2.1 h.2.2 hC hsteps⟩

/-- The timer is armed for the request that the worker waits for, or is going to be, all
along a run exactly if every cancel is posted before the timeout of the next request. -/
theorem timeoutKept_iff {appId userId : String} {config : RtmConfig} {events : List SystemEvent}
    (hrun : Run (step lib) AnyStep (start appId userId config) events s) :
    Throughout (step lib) (start appId userId config) events (fun s => s.client.TimeoutKept) ↔
      Run (step lib) CancelsInTime (start appId userId config) events s := by
  apply hrun.throughout_iff
    (I := fun s => OneAtATime s ∧ s.client.HasLoopContext ∧ s.client.TimeoutKept)
  · exact ⟨oneAtATime_start appId userId config, timeoutInv_start appId userId config⟩
  · exact fun h => h.2.2
  · exact timeoutInv_step
  · exact fun h hstep hkept => cancelsInTime_of_kept (steps_of_step hstep).2 hkept

/-- No cancel is posted before a response. -/
theorem cancelsInTime_awaitingRun : ∀ e ∈ awaitingRun, ∀ s, CancelsInTime s e := by
  simp [awaitingRun, CancelsInTime]

theorem timeoutKept_iff_login :
    ∃ s, Run (step loginLibrary) CancelsInTime (start "" "" {}) awaitingRun s ∧
      Throughout (step loginLibrary) (start "" "" {}) awaitingRun
        (fun s => s.client.TimeoutKept) := by
  obtain ⟨s, hrun, -⟩ := (Option.any_eq_true _ _).mp
    (by decide +kernel : (awaitingRun.foldlM (step loginLibrary) (start "" "" {})).any
      (fun _ => true) = true)
  have hcancels : Run (step loginLibrary) CancelsInTime (start "" "" {}) awaitingRun s :=
    (run_of_foldlM hrun).of_forall cancelsInTime_awaitingRun
  exact ⟨s, hcancels, (timeoutKept_iff (run_of_foldlM hrun)).mpr hcancels⟩

/-! ## The worker is released -/

end RtmSystem

end Protoo
