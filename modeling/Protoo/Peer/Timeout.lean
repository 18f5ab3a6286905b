import Protoo.Peer.Client

/-!
# Live timeouts of pending requests

The transport has one timer, `m_sul`, and one closure, `m_task`, for all
requests.  A posted `scheduleTask` replaces both, and a posted
`cancelScheduledTask` disarms the timer whichever request it was armed for.  So
a pending request loses its timeout when one of the two runs while the timer is
armed for it, unless another `scheduleTask` for its id is still to come.

`KeepsTimeouts` is the condition on steps that excludes exactly this.
-/

namespace Protoo

open Protoo.Support

namespace Client

def InLoop (c : Client) : Prop := c.service.InLoop

/-- The timer is armed with the closure that fails the request `id`. -/
def ArmedFor (c : Client) (id : ℤ) : Prop :=
  c.peer.transport.sul.isSome = true ∧ c.peer.transport.task = some id

/-- The closure that arms the timer for `id` is among `tasks`. -/
def ScheduleQueued (tasks : List (Task ℤ)) (id : ℤ) : Prop :=
  ∃ afterMs, Task.schedule afterMs id ∈ tasks

/-- A call of `request` has entered `id` and not yet posted its timeout. -/
def TimeoutUnposted (c : Client) (id : ℤ) : Prop :=
  ∃ r ∈ c.requests, r.call.id = id ∧ r.timeoutPosted = false

/-- Every pending request whose call has posted its timeout has it queued or armed; that
of a request being timed out is running. -/
def TimeoutsLive (c : Client) : Prop :=
  ∀ id ∈ c.peer.promises, c.handler ≠ .timedOut id →
    c.ArmedFor id ∨ ScheduleQueued c.peer.transport.tasks id ∨ c.TimeoutUnposted id

/-- A schedule or a cancel runs only if the request that the timer is armed for
is not pending, or is the one scheduled, or has another schedule to come. -/
def KeepsTimeouts (c : Client) : ClientEvent → Prop
  | .service .runTask =>
      match c.peer.transport.tasks with
      | .schedule _ scheduled :: rest => ∀ id ∈ c.peer.promises, c.ArmedFor id →
          id = scheduled ∨ ScheduleQueued rest id ∨ c.TimeoutUnposted id
      | .cancel :: rest => ∀ id ∈ c.peer.promises, c.ArmedFor id →
          ScheduleQueued rest id ∨ c.TimeoutUnposted id
      | _ => True
  | _ => True

/-- What the runs that keep the timeouts keep: the loop has a context, without
which no timer would be armed, and the timeouts are live. -/
structure TimeoutInv (c : Client) : Prop where
  context : c.InLoop → c.peer.transport.hasContext = true
  live : c.TimeoutsLive

/-! ## Steps that take no timeout away -/

/-- A step that only enters new ids by calls of its own, and otherwise drops
nothing of what makes a timeout live. -/
theorem TimeoutsLive.mono {c c' : Client} (h : c.TimeoutsLive)
    (hpromises : ∀ id ∈ c'.peer.promises, id ∈ c.peer.promises ∨ c'.TimeoutUnposted id)
    (harmed : ∀ id ∈ c'.peer.promises, c.ArmedFor id → c'.ArmedFor id)
    (htasks : c.peer.transport.tasks <+: c'.peer.transport.tasks)
    (hunposted : ∀ id, c.TimeoutUnposted id →
      ScheduleQueued c'.peer.transport.tasks id ∨ c'.TimeoutUnposted id)
    (hhandler : ∀ id, c.handler = .timedOut id → c'.handler = .timedOut id) :
    c'.TimeoutsLive := by
  intro id hid hrunning
  rcases hpromises id hid with hold | hnew
  · rcases h id hold (mt (hhandler id) hrunning) with harm | ⟨afterMs, hmem⟩ | hcall
    · exact Or.inl (harmed id hid harm)
    · exact Or.inr (Or.inl ⟨afterMs, htasks.subset hmem⟩)
    · exact Or.inr (hunposted id hcall)
  · exact Or.inr (Or.inr hnew)

/-- Posting a closure leaves every timeout live. -/
theorem TimeoutsLive.invokeTask {c c' : Client} (h : c.TimeoutsLive) (task : Task ℤ)
    (hpromises : c'.peer.promises = c.peer.promises)
    (htransport : c'.peer.transport = c.peer.transport.invokeTask task)
    (hrequests : c'.requests = c.requests)
    (hhandler : ∀ id, c.handler = .timedOut id → c'.handler = .timedOut id) :
    c'.TimeoutsLive := by
  apply h.mono
  · intro id hid
    rw [hpromises] at hid
    exact Or.inl hid
  · intro id _ harmed
    unfold ArmedFor
    rw [htransport]
    exact harmed
  · rw [htransport]
    exact List.prefix_append _ _
  · intro id hcall
    unfold TimeoutUnposted
    rw [hrequests]
    exact Or.inr hcall
  · exact hhandler

/-- So does anything else that leaves the timer and the posted closures and enters
no id. -/
theorem TimeoutsLive.congr {c c' : Client} (h : c.TimeoutsLive)
    (hpromises : ∀ id ∈ c'.peer.promises, id ∈ c.peer.promises)
    (htasks : c'.peer.transport.tasks = c.peer.transport.tasks)
    (htask : c'.peer.transport.task = c.peer.transport.task)
    (hsul : c'.peer.transport.sul = c.peer.transport.sul)
    (hrequests : c'.requests = c.requests)
    (hhandler : ∀ id, c.handler = .timedOut id → c'.handler = .timedOut id) :
    c'.TimeoutsLive := by
  apply h.mono
  · exact fun id hid => Or.inl (hpromises id hid)
  · intro id _ harmed
    unfold ArmedFor
    rw [htask, hsul]
    exact harmed
  · rw [htasks]
  · intro id hcall
    unfold TimeoutUnposted
    rw [hrequests]
    exact Or.inr hcall
  · exact hhandler

theorem timeoutsLive_register {c : Client} (h : c.TimeoutsLive) (held : List ℕ) (draw : Draw)
    (method : String) (data : Json) :
    TimeoutsLive { c with
      peer := (c.peer.enter draw.number).release held (c.peer.promises.lookup draw.number)
      requests := c.requests ++ [{ call := c.peer.registered draw method data }] } := by
  apply h.mono
  · intro id hid
    simp only [Peer.release_promises, Peer.enter, Finmap.mem_insert] at hid
    rcases hid with hnew | hold
    · refine Or.inr ⟨{ call := c.peer.registered draw method data }, ?_, hnew.symm, rfl⟩
      exact List.mem_append_right _ (List.mem_singleton_self _)
    · exact Or.inl hold
  · intro id _ harmed
    unfold ArmedFor
    rw [Peer.release_transport]
    exact harmed
  · rw [Peer.release_transport]
    exact List.prefix_refl _
  · rintro id ⟨r, hr, hid, hposted⟩
    exact Or.inr ⟨r, List.mem_append_left _ hr, hid, hposted⟩
  · exact fun id hrunning => hrunning

theorem timeoutsLive_postTimeout {c : Client} (h : c.TimeoutsLive) {i : ℕ} {call : RequestCall}
    (hcall : c.requests[i]? = some ⟨call, false⟩) :
    TimeoutsLive { c with
      peer := c.peer.postTimeout call
      requests := c.requests.set i ⟨call, true⟩ } := by
  apply h.mono
  · exact fun id hid => Or.inl hid
  · exact fun id _ harmed => harmed
  · exact List.prefix_append _ _
  · rintro id ⟨r, hr, hid, hposted⟩
    obtain ⟨j, hj⟩ := List.mem_iff_getElem?.mp hr
    by_cases hij : i = j
    · subst hij
      obtain rfl := Option.some.inj (hcall.symm.trans hj)
      exact Or.inl ⟨call.timeoutMs, List.mem_append_right _ (by simp [← hid])⟩
    · refine Or.inr ⟨r, List.mem_iff_getElem?.mpr ⟨j, ?_⟩, hid, hposted⟩
      rw [List.getElem?_set_ne hij]
      exact hj
  · exact fun id hrunning => hrunning

theorem timeoutsLive_postSend {c : Client} (h : c.TimeoutsLive) {i : ℕ} {call : RequestCall}
    (hcall : c.requests[i]? = some ⟨call, true⟩) (held : List ℕ) :
    TimeoutsLive { c with
      peer := (c.peer.postSend call).returnRequest held call
      requests := c.requests.eraseIdx i } := by
  apply h.mono
  · intro id hid
    rw [Peer.promises_returnRequest] at hid
    exact Or.inl hid
  · intro id _ harmed
    unfold ArmedFor
    rw [Peer.transport_returnRequest]
    exact harmed
  · rw [Peer.transport_returnRequest]
    exact List.prefix_append _ _
  · rintro id ⟨r, hr, hid, hposted⟩
    refine Or.inr ⟨r, ?_, hid, hposted⟩
    obtain ⟨j, hj⟩ := List.mem_iff_getElem?.mp hr
    refine List.mem_eraseIdx_iff_getElem?.mpr ⟨j, ?_, hj⟩
    rintro rfl
    obtain rfl := Option.some.inj (hcall.symm.trans hj)
    exact Bool.noConfusion hposted
  · exact fun id hrunning => hrunning

/-! ## Steps of the timer -/

/-- The timer fires for no pending request. -/
theorem timeoutsLive_timerIgnored {c : Client} (h : c.TimeoutsLive)
    (hlookup : ∀ id, c.peer.transport.task = some id → c.peer.promises.lookup id = none) :
    TimeoutsLive (c.setTransport { c.peer.transport with sul := none }) := by
  apply h.mono
  · exact fun id hid => Or.inl hid
  · intro id hid harmed
    have hnone := hlookup id harmed.2
    have hmem : id ∈ c.peer.promises := hid
    rw [Finmap.lookup_eq_none] at hnone
    exact absurd hmem hnone
  · exact List.prefix_refl _
  · exact fun id hcall => Or.inr hcall
  · exact fun id hrunning => hrunning

/-- The timer fires for the request `id` and takes no timeout from another. -/
theorem timeoutsLive_timeout {c : Client} (h : c.TimeoutsLive) {id : ℤ}
    (hidle : c.handler = .idle) (htask : c.peer.transport.task = some id)
    (states : Store Reply) :
    TimeoutsLive { c with
      peer := { c.peer with transport := { c.peer.transport with sul := none }, states }
      handler := .timedOut id } := by
  intro id' hid' hrunning
  rcases h id' hid' (by simp [hidle]) with harmed | hlater
  · obtain rfl := Option.some.inj (harmed.2.symm.trans htask)
    exact absurd rfl hrunning
  · exact Or.inr hlater

/-- The entry of the request that was timed out goes. -/
theorem timeoutsLive_eraseTimedOut {c : Client} (h : c.TimeoutsLive) {id : ℤ}
    (hhandler : c.handler = .timedOut id) (held : List ℕ) :
    TimeoutsLive { c with peer := c.peer.eraseEntry held id, handler := .idle } := by
  intro id' hid' _
  rw [Peer.promises_eraseEntry, Finmap.mem_erase] at hid'
  have hrunning : c.handler ≠ .timedOut id' := by
    rw [hhandler]
    exact fun heq => hid'.1 (Handler.timedOut.inj heq).symm
  unfold ArmedFor
  rw [Peer.transport_eraseEntry]
  exact h id' hid'.2 hrunning

/-! ## The posted closures -/

/-- Dropping the head of the task queue that schedules nothing. -/
theorem scheduleQueued_of_cons {task : Task ℤ} {rest : List (Task ℤ)} {id : ℤ}
    (h : ScheduleQueued (task :: rest) id) :
    (∃ afterMs, task = .schedule afterMs id) ∨ ScheduleQueued rest id := by
  obtain ⟨afterMs, hmem⟩ := h
  rcases List.mem_cons.mp hmem with heq | hrest
  · exact Or.inl ⟨afterMs, heq.symm⟩
  · exact Or.inr ⟨afterMs, hrest⟩

/-- A posted closure keeps the timeouts live under the condition. -/
theorem timeoutsLive_runTask {lib : JsonLibrary} {c : Client} (h : c.TimeoutsLive)
    (hcontext : c.peer.transport.hasContext = true) {task : Task ℤ} {rest : List (Task ℤ)}
    {t : WebSocketTransport ℤ} (htasks : c.peer.transport.tasks = task :: rest)
    (hrun : ({ c.peer.transport with tasks := rest }).runTask lib task = .ok t)
    (hC : c.KeepsTimeouts (.service .runTask)) : TimeoutsLive (c.setTransport t) := by
  intro id hid hrunning
  have hlive : c.ArmedFor id ∨ ScheduleQueued (task :: rest) id ∨ c.TimeoutUnposted id := by
    have hid' := h id hid hrunning
    rwa [htasks] at hid'
  have hcontext' : ({ c.peer.transport with tasks := rest }).hasContext = true := hcontext
  simp only [KeepsTimeouts, htasks] at hC
  cases task with
  | send message =>
      obtain ⟨msg, -, rfl⟩ := WebSocketTransport.runSend_eq_ok hrun
      rcases hlive with harmed | hqueued | hcall
      · exact Or.inl harmed
      · rcases scheduleQueued_of_cons hqueued with ⟨afterMs, heq⟩ | hrest
        · simp at heq
        · exact Or.inr (Or.inl hrest)
      · exact Or.inr (Or.inr hcall)
  | schedule afterMs scheduled =>
      obtain rfl := Except.ok.inj hrun
      rw [WebSocketTransport.runSchedule_of_hasContext hcontext']
      have hnow : id = scheduled ∨ ScheduleQueued rest id ∨ c.TimeoutUnposted id := by
        rcases hlive with harmed | hqueued | hcall
        · exact hC id hid harmed
        · rcases scheduleQueued_of_cons hqueued with ⟨afterMs', heq⟩ | hrest
          · exact Or.inl (Task.schedule.inj heq).2.symm
          · exact Or.inr (Or.inl hrest)
        · exact Or.inr (Or.inr hcall)
      rcases hnow with rfl | hlater
      · exact Or.inl ⟨rfl, rfl⟩
      · exact Or.inr hlater
  | cancel =>
      obtain rfl := Except.ok.inj hrun
      rw [WebSocketTransport.runCancel_of_hasContext hcontext']
      rcases hlive with harmed | hqueued | hcall
      · exact Or.inr (hC id hid harmed)
      · rcases scheduleQueued_of_cons hqueued with ⟨afterMs, heq⟩ | hrest
        · simp at heq
        · exact Or.inr (Or.inl hrest)
      · exact Or.inr (Or.inr hcall)

/-- Timeouts that are live after a posted closure were not taken away by it. -/
theorem keepsTimeouts_of_runTask {lib : JsonLibrary} {c : Client} (hidle : c.handler = .idle)
    (hcontext : c.peer.transport.hasContext = true) {task : Task ℤ} {rest : List (Task ℤ)}
    {t : WebSocketTransport ℤ} (htasks : c.peer.transport.tasks = task :: rest)
    (hrun : ({ c.peer.transport with tasks := rest }).runTask lib task = .ok t)
    (hlive : TimeoutsLive (c.setTransport t)) : c.KeepsTimeouts (.service .runTask) := by
  have hcontext' : ({ c.peer.transport with tasks := rest }).hasContext = true := hcontext
  have hrunning : ∀ id, (c.setTransport t).handler ≠ .timedOut id := by simp [setTransport, hidle]
  simp only [KeepsTimeouts, htasks]
  cases task with
  | send message => trivial
  | schedule afterMs scheduled =>
      obtain rfl := Except.ok.inj hrun
      rw [WebSocketTransport.runSchedule_of_hasContext hcontext'] at hlive
      intro id hid _
      rcases hlive id hid (hrunning id) with harmed | hlater
      · exact Or.inl (Option.some.inj harmed.2).symm
      · exact Or.inr hlater
  | cancel =>
      obtain rfl := Except.ok.inj hrun
      rw [WebSocketTransport.runCancel_of_hasContext hcontext'] at hlive
      intro id hid _
      rcases hlive id hid (hrunning id) with harmed | hlater
      · exact absurd harmed.1 (by simp [setTransport])
      · exact hlater

/-! ## Whole runs -/

theorem timeoutInv_init : TimeoutInv ({} : Client) where
  context := by
    rintro (hphase | hphase)
    · exact Phase.noConfusion hphase
    · exact Phase.noConfusion hphase
  live := fun id hid => absurd hid (Finmap.notMem_empty)

theorem TimeoutInv.step {lib : JsonLibrary} {c c' : Client} {e : ClientEvent}
    (h : TimeoutInv c) (hC : c.KeepsTimeouts e) (hstep : step lib c e = some c') :
    TimeoutInv c' := by
  cases steps_of_step hstep with
  | register draw method data =>
      refine ⟨?_, timeoutsLive_register h.live c.held draw method data⟩
      intro hloop
      rw [Peer.release_transport]
      exact h.context hloop
  | postTimeout i call hcall => exact ⟨h.context, timeoutsLive_postTimeout h.live hcall⟩
  | postSend i call hcall =>
      refine ⟨?_, timeoutsLive_postSend h.live hcall _⟩
      intro hloop
      rw [Peer.transport_returnRequest]
      exact h.context hloop
  | notify method data => exact ⟨h.context, h.live.invokeTask _ rfl rfl rfl fun _ h => h⟩
  | accept request data response => exact ⟨h.context, h.live.invokeTask _ rfl rfl rfl fun _ h => h⟩
  | reject request errorCode errorReason response =>
      exact ⟨h.context, h.live.invokeTask _ rfl rfl rfl fun _ h => h⟩
  | receive chunk final handled c' hidle hphase hreceived =>
      cases hreceived with
      | buffered =>
          exact ⟨h.context, h.live.congr (fun _ hid => hid) rfl rfl rfl rfl (by simp [hidle])⟩
      | completed =>
          exact ⟨h.context, h.live.congr (fun _ hid => hid) rfl rfl rfl rfl (by simp [hidle])⟩
  | postCancel id hhandler =>
      refine ⟨h.context, h.live.invokeTask _ rfl rfl rfl ?_⟩
      simp [hhandler]
  | erase id hhandler =>
      refine ⟨h.context, h.live.congr ?_ rfl rfl rfl rfl (by simp [hhandler])⟩
      intro id' hid'
      have hmem : id' ∈ (c.peer.eraseEntry c.held id).promises := hid'
      rw [Peer.promises_eraseEntry, Finmap.mem_erase] at hmem
      exact hmem.2
  | eraseTimedOut id hhandler =>
      refine ⟨?_, timeoutsLive_eraseTimedOut h.live hhandler c.held⟩
      intro hloop
      rw [Peer.transport_eraseEntry]
      exact h.context hloop
  | timerIgnored _ _ _ hlookup => exact ⟨h.context, timeoutsLive_timerIgnored h.live hlookup⟩
  | timeout id promise hidle _ _ htask =>
      exact ⟨h.context, timeoutsLive_timeout h.live hidle htask _⟩
  | destroy => exact ⟨h.context, h.live.congr (fun _ hid => hid) rfl rfl rfl rfl fun _ h => h⟩
  | service e s hidle hown hservice =>
      refine ⟨hservice.hasContext h.context, ?_⟩
      by_cases hrunTask : e = .runTask
      · subst hrunTask
        cases hservice with
        | runTask task rest t hphase htasks hrun =>
            exact timeoutsLive_runTask h.live (h.context (Or.inr hphase)) htasks hrun hC
      · have hkeeps := hservice.keeps hown hrunTask
        exact h.live.congr (fun _ hid => hid) hkeeps.tasks hkeeps.task hkeeps.sul rfl
          fun _ h => h

/-- A step after which the timeouts are live has kept them. -/
theorem keepsTimeouts_of_live {lib : JsonLibrary} {c c' : Client} {e : ClientEvent}
    (h : TimeoutInv c) (hstep : step lib c e = some c')
    (hlive : c'.InLoop → c'.TimeoutsLive) : c.KeepsTimeouts e := by
  cases steps_of_step hstep with
  | service e s hidle hown hservice =>
      cases hservice with
      | runTask task rest t hphase htasks hrun =>
          exact keepsTimeouts_of_runTask hidle (h.context (Or.inr hphase)) htasks hrun
            (hlive (Or.inr hphase))
      | _ => trivial
  | _ => trivial

/-- While the loop runs, every pending request has its timeout queued or armed
exactly when no posted schedule or cancel takes the timer from a pending
request. -/
theorem timeoutsLive_iff {lib : JsonLibrary} {events : List ClientEvent} {c : Client}
    (hrun : Run (step lib) AnyStep {} events c) :
    Throughout (step lib) {} events (fun c => c.InLoop → c.TimeoutsLive) ↔
      Run (step lib) KeepsTimeouts {} events c := by
  apply hrun.throughout_iff (I := TimeoutInv) timeoutInv_init
  · exact fun h _ => h.live
  · exact TimeoutInv.step
  · exact keepsTimeouts_of_live

/-- Two requests, and the texts they are sent as. -/
def firstDraw : Draw := .ofNat 1

def secondDraw : Draw := .ofNat 2

def requestText (draw : Draw) (text : String) : Json × String :=
  (Message.createRequest draw.number "a" .null, text)

def requestLibrary : JsonLibrary :=
  JsonLibrary.ofTable
    [requestText firstDraw
        "\x7b\"data\":null,\"id\":1,\"method\":\"a\",\"request\":true\x7d",
      requestText secondDraw
        "\x7b\"data\":null,\"id\":2,\"method\":\"a\",\"request\":true\x7d"]
    (by decide)

/-- Two requests are issued one after the other and their tasks run. -/
def twoRequestsRun : List ClientEvent :=
  [.service (.start true), .register firstDraw "a" .null, .postTimeout 0, .postSend 0,
    .register secondDraw "a" .null, .postTimeout 0, .postSend 0,
    .service (.serviceReturn 0), .service .runTask, .service .runTask, .service .runTask,
    .service .runTask]

theorem timeoutsLive_iff_twoRequests :
    ∃ c, Run (step requestLibrary) AnyStep {} twoRequestsRun c ∧
      (Throughout (step requestLibrary) {} twoRequestsRun
          (fun c => c.InLoop → c.TimeoutsLive) ↔
        Run (step requestLibrary) KeepsTimeouts {} twoRequestsRun c) := by
  have hrun : twoRequestsRun.foldlM (step requestLibrary) ({} : Client) = some _ := rfl
  exact ⟨_, run_of_foldlM hrun, timeoutsLive_iff (run_of_foldlM hrun)⟩

/-- The second request's timeout has replaced the first's, which is pending. -/
theorem first_timeout_lost :
    ¬ Throughout (step requestLibrary) ({} : Client) twoRequestsRun
      (fun c => c.InLoop → c.TimeoutsLive) := by
  intro h
  have hrun : twoRequestsRun.foldlM (step requestLibrary) ({} : Client) = some _ := rfl
  have hlive := h.of_run (run_of_foldlM hrun) (Or.inr rfl)
  rcases hlive 1 (by decide) (by decide) with harmed | ⟨afterMs, hmem⟩ | ⟨r, hr, -⟩
  · exact absurd harmed.2 (by decide)
  · exact absurd hmem (List.not_mem_nil)
  · exact absurd hr (List.not_mem_nil)

end Client

end Protoo
