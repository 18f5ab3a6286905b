import Protoo.Rtm.Flush

/-!
# What is sent first on a new connection

`onPeerReConnected` posts the reconnect task behind everything that the worker has
still to do, and the transport keeps its queue over the loss of a connection.  So
what was accepted before, or is sent by code of the application that the worker runs
first, is written on the new connection before the login.  With nothing of the kind
on its way the first text is the login of the reconnect task.  A request that has been
written does not count: the worker sends nothing while it waits for the reply.
-/

namespace Protoo

open Protoo.Support

/-- The task only calls the application. -/
def RtmTask.isCallback : RtmTask → Bool
  | .listener _ => true
  | .application => true
  | _ => false

def RtmTask.isReconnected : RtmTask → Bool
  | .reconnected => true
  | _ => false

/-- A publish in code of the application that the worker runs. -/
def RtmEvent.isDirectPublish : RtmEvent → Bool
  | .publish .worker _ _ => true
  | _ => false

namespace RtmSystem

variable {lib : JsonLibrary} {s t u v : RtmSystem} {e : SystemEvent}

/-- The tasks that the worker has still to begin, when it has no further request to make for
the one in execution: it executes none, or code of the application, or it waits for the
last request of the first task. -/
inductive StillToBegin (s : RtmSystem) : List RtmTask → Prop where
  | free (hrequest : s.request = none) (hlogin : s.login = none) : StillToBegin s s.rtm.tasks
  | callback (hphase : s.rtm.phase = .callback) : StillToBegin s s.rtm.tasks
  | operation (operation : Operation) (promise : ℕ) (tasks : List RtmTask)
      (hrequest : s.request ≠ none) (hphase : s.rtm.phase = .innerLoop)
      (htasks : s.rtm.tasks = .operation operation promise :: tasks) : StillToBegin s tasks
  | reconnected (tasks : List RtmTask) (hrequest : s.request ≠ none) (hlogin : s.login ≠ none)
      (htasks : s.rtm.tasks = .reconnected :: tasks) : StillToBegin s tasks

/-- Nothing accepted earlier is still to be sent: the transport has no posted send and
no text, no request has its message still to post, and the tasks that the worker has still
to begin only call the application. -/
structure NothingOnItsWay (s : RtmSystem) : Prop where
  queued : s.client.NothingQueued
  posted : s.client.requests = []
  tasks : ∃ tasks, s.StillToBegin tasks ∧ ∀ task ∈ tasks, task.isCallback = true

/-- A reconnect task is in the worker's queue. -/
def ReconnectWaits (s : RtmSystem) : Prop := s.rtm.tasks.any RtmTask.isReconnected = true

/-- While a reconnect task waits, code of the application that the worker runs sends
nothing. -/
def CallbacksSilent (s : RtmSystem) : SystemEvent → Prop
  | .rtm e => e.isDirectPublish = true → ¬s.ReconnectWaits
  | .request _ _ => s.rtm.phase = .callback → ¬s.ReconnectWaits
  | _ => True

instance (s : RtmSystem) : Decidable s.ReconnectWaits := inferInstanceAs (Decidable (_ = true))

instance (s : RtmSystem) : (e : SystemEvent) → Decidable (CallbacksSilent s e)
  | .rtm e => inferInstanceAs (Decidable (e.isDirectPublish = true → ¬s.ReconnectWaits))
  | .request _ _ => inferInstanceAs (Decidable (s.rtm.phase = .callback → ¬s.ReconnectWaits))
  | .install => isTrue trivial
  | .client _ => isTrue trivial
  | .postTimeout => isTrue trivial
  | .postSend => isTrue trivial
  | .reply _ => isTrue trivial
  | .stop => isTrue trivial
  | .destroyPeer => isTrue trivial
  | .destroyed => isTrue trivial

/-- The login request that a reconnect task issues. -/
def loginRequest (s : RtmSystem) : SystemEvent → RtmSystem → List Json
  | .request .login draw, _ =>
      if s.rtm.phase = .innerLoop ∧ s.rtm.tasks.head?.any RtmTask.isReconnected = true then
        [Registration.message ⟨draw, "login", s.rtm.loginData⟩]
      else []
  | _, _ => []

/-- The login requests that reconnect tasks issue in a run. -/
def loginRequests (lib : JsonLibrary) (start : RtmSystem) (events : List SystemEvent) :
    List Json :=
  record (step lib) loginRequest start events

/-- The first text written in the run is that of the first login request issued in it
by a reconnect task. -/
def LoginFirst (lib : JsonLibrary) (start : RtmSystem) (events : List SystemEvent)
    (s : RtmSystem) : Prop :=
  ∃ texts, s.client.written = start.client.written ++ texts ∧
    ∀ text ∈ texts.head?, ∃ login ∈ (loginRequests lib start events).head?,
      lib.dump login = .ok text

/-! ## Until the login is sent -/

/-- How far the first login has come: its task waits behind tasks that only call the
application, its request has been registered, or it has been sent.  `written` are the
texts of earlier connections and `logins` the login requests issued since. -/
inductive LoginProgress (lib : JsonLibrary) (written : List String) (logins : List Json)
    (s : RtmSystem) : Prop where
  | waits (before after : List RtmTask)
      (htasks : s.StillToBegin (before ++ .reconnected :: after))
      (hbefore : ∀ task ∈ before, task.isCallback = true) (hposted : s.client.requests = [])
      (hlogins : logins = []) (hsame : s.client.pipeline lib = written.map .ok)
  | registered (login : Json) (hrequest : s.request ≠ none)
      (hcall : s.client.requests.map (fun r => r.call.request) = [login])
      (hlogins : logins.head? = some login)
      (hsame : s.client.pipeline lib = written.map .ok)
  | sent (login : Json) (hlogins : logins.head? = some login)
      (hleading : written.map .ok ++ [lib.dump login] <+: s.client.pipeline lib)

theorem reconnectWaits_of_tasks {before after : List RtmTask}
    (htasks : s.rtm.tasks = before ++ .reconnected :: after) : s.ReconnectWaits := by
  rw [ReconnectWaits, htasks, List.any_append, List.any_cons]
  simp [RtmTask.isReconnected]

/-- A worker that waits for no request has still to begin all its tasks. -/
theorem StillToBegin.of_request_eq_none {tasks : List RtmTask} (h : s.StillToBegin tasks)
    (hinv : RequestInv s) (hrequest : s.request = none) :
    s.rtm.tasks = tasks ∧ s.login = none := by
  cases h with
  | free _ hlogin => exact ⟨rfl, hlogin⟩
  | callback hphase =>
      refine ⟨rfl, ?_⟩
      by_contra hsome
      exact WorkerPhase.noConfusion (hphase.symm.trans (hinv.login hsome).1)
  | operation _ _ _ hsome => exact absurd hrequest hsome
  | reconnected _ hsome => exact absurd hrequest hsome

/-- Tasks posted are begun after the others. -/
theorem StillToBegin.append {tasks new : List RtmTask} (h : s.StillToBegin tasks)
    (hrequest : v.request = s.request) (hlogin : v.login = s.login)
    (hphase : v.rtm.phase = s.rtm.phase) (htasks : v.rtm.tasks = s.rtm.tasks ++ new) :
    v.StillToBegin (tasks ++ new) := by
  cases h with
  | free hnone hno =>
      rw [← htasks]
      exact .free (hrequest.trans hnone) (hlogin.trans hno)
  | callback hcallback =>
      rw [← htasks]
      exact .callback (hphase.trans hcallback)
  | operation operation promise tasks hsome hinner hhead =>
      refine .operation operation promise _ (hrequest ▸ hsome) (hphase.trans hinner) ?_
      rw [htasks, hhead, List.cons_append]
  | reconnected tasks hsome hyes hhead =>
      refine .reconnected _ (hrequest ▸ hsome) (hlogin ▸ hyes) ?_
      rw [htasks, hhead, List.cons_append]

/-- The reply to a call of the application's code leaves the tasks. -/
theorem StillToBegin.called {tasks : List RtmTask} {operation : Operation}
    {result : RequestResult} {rtm : Rtm} (h : s.StillToBegin tasks) (hinv : RequestInv s)
    (hrequest : s.request ≠ none)
    (hrtm : Rtm.Steps lib s.rtm (.call .worker operation result) rtm) :
    rtm.notified = s.rtm.notified ∧
      StillToBegin { s with front := { s.front with rtm }, request := none } tasks := by
  cases hrtm with
  | directCall _ _ hcallback =>
      refine ⟨Rtm.notified_perform lib operation result s.rtm, ?_⟩
      cases h with
      | free hnone => exact absurd hnone hrequest
      | callback => exact .callback hcallback
      | operation _ _ _ _ hinner => exact WorkerPhase.noConfusion (hcallback.symm.trans hinner)
      | reconnected _ _ hlogin =>
          exact WorkerPhase.noConfusion (hcallback.symm.trans (hinv.login hlogin).1)

/-- The reply to the last request of a task ends the task. -/
theorem StillToBegin.executed {tasks : List RtmTask} {first second : RequestResult} {rtm : Rtm}
    (h : s.StillToBegin tasks) (hrequest : s.request ≠ none)
    (hrtm : Rtm.Steps lib s.rtm (.runTask first second) rtm) :
    rtm.notified = s.rtm.notified ∧
      StillToBegin { s with front := { s.front with rtm }, request := none, login := none }
        tasks := by
  cases hrtm with
  | runTask first second task rest rtm hphase hhead hran =>
      obtain ⟨hrest, calls, hcalls, hfilter⟩ := hran.calls
      obtain ⟨htasks, hnone⟩ : tasks = rest ∧ task.notification = none := by
        cases h with
        | free hno => exact absurd hno hrequest
        | callback hcallback => exact WorkerPhase.noConfusion (hphase.symm.trans hcallback)
        | operation _ _ _ _ _ htasks | reconnected _ _ _ htasks =>
            obtain ⟨rfl, rfl⟩ := List.cons.inj (hhead.symm.trans htasks)
            exact ⟨rfl, rfl⟩
      refine ⟨?_, ?_⟩
      · rw [Rtm.notified, hcalls, List.filter_append, hfilter, hnone]
        exact List.append_nil _
      · have hafter : rtm.tasks = rest := hrest
        rw [htasks, ← hafter]
        exact .free rfl rfl

/-- Steps of the worker before it reaches the reconnect task. -/
theorem waits_of_rtmSteps {e : RtmEvent} {rtm : Rtm} {before after : List RtmTask}
    (hmay : s.mayTake e = true) (hworker : e.isOfWorker = true)
    (hC : CallbacksSilent s (.rtm e)) (hrtm : Rtm.Steps lib s.rtm e rtm)
    (htasks : s.rtm.tasks = before ++ .reconnected :: after)
    (hbefore : ∀ task ∈ before, task.isCallback = true) :
    rtm.calls = s.rtm.calls ∧ ∃ before after, rtm.tasks = before ++ .reconnected :: after ∧
      ∀ task ∈ before, task.isCallback = true := by
  cases hrtm with
  | directCall => exact Bool.noConfusion hmay
  | directPublish => exact absurd (reconnectWaits_of_tasks htasks) (hC rfl)
  | invokeTask caller =>
      refine ⟨rfl, before, after ++ [.application], ?_, hbefore⟩
      rw [htasks, List.append_assoc, List.cons_append]
  | drain | exit | drained | callbackReturn | callbackThrow =>
      exact ⟨rfl, before, after, htasks, hbefore⟩
  | runTask first second task tasks t hphase hhead hran =>
      have hno := (Bool.and_eq_true_iff.mp hmay).2
      cases before with
      | nil =>
          rw [htasks] at hno
          exact Bool.noConfusion hno
      | cons task' before =>
          obtain ⟨rfl, rfl⟩ := List.cons.inj (hhead.symm.trans htasks)
          have hcallback := hbefore task List.mem_cons_self
          refine ⟨?_, before, after, ?_, fun task hmem => hbefore task
            (List.mem_cons_of_mem _ hmem)⟩
          · cases hran with
            | listener | application => rfl
            | _ => exact Bool.noConfusion hcallback
          · cases hran with
            | listener | application => rfl
            | _ => exact Bool.noConfusion hcallback
  | _ => exact Bool.noConfusion hworker

/-- The first request is the login of the reconnect task. -/
theorem login_of_mayRequest {operation : Operation} {draw : Draw} {before after : List RtmTask}
    (hmay : s.mayRequest operation = true) (hC : CallbacksSilent s (.request operation draw))
    (htasks : s.rtm.tasks = before ++ .reconnected :: after)
    (hbefore : ∀ task ∈ before, task.isCallback = true) (hlogin : s.login = none) :
    operation = .login ∧
      loginRequest s (.request .login draw) t =
        [Registration.message ⟨draw, "login", s.rtm.loginData⟩] := by
  have hfirst : ∀ task tasks, s.rtm.tasks = task :: tasks →
      task = .reconnected ∨ task.isCallback = true := by
    intro task tasks hhead
    cases before with
    | nil => exact Or.inl (List.cons.inj (hhead.symm.trans htasks)).1
    | cons task' before =>
        obtain ⟨rfl, -⟩ := List.cons.inj (hhead.symm.trans htasks)
        exact Or.inr (hbefore task List.mem_cons_self)
  simp only [mayRequest] at hmay
  split at hmay
  next hphase => exact absurd (reconnectWaits_of_tasks htasks) (hC hphase)
  next operation' promise tasks hphase hhead =>
    rcases hfirst _ _ hhead with hreconnected | hcallback
    · exact RtmTask.noConfusion hreconnected
    · exact Bool.noConfusion hcallback
  next tasks hphase hhead =>
    rw [hlogin] at hmay
    refine ⟨of_decide_eq_true hmay, if_pos ⟨hphase, ?_⟩⟩
    rw [hhead]
    rfl
  next => exact Bool.noConfusion hmay

theorem LoginProgress.congr {written : List String} {logins : List Json}
    (h : LoginProgress lib written logins s) (hrequest : v.request = s.request)
    (hlogin : v.login = s.login) (hrequests : v.client.requests = s.client.requests)
    (hpipeline : v.client.pipeline lib = s.client.pipeline lib)
    (hphase : v.rtm.phase = s.rtm.phase) (htasks : ∃ new, v.rtm.tasks = s.rtm.tasks ++ new) :
    LoginProgress lib written logins v := by
  cases h with
  | waits before after hwaits hbefore hposted hlogins hsame =>
      obtain ⟨new, hnew⟩ := htasks
      have hlater := hwaits.append hrequest hlogin hphase hnew
      rw [List.append_assoc, List.cons_append] at hlater
      exact .waits before (after ++ new) hlater hbefore (hrequests.trans hposted) hlogins
        (hpipeline.trans hsame)
  | registered login hsome hcall hlogins hsame =>
      refine .registered login (hrequest ▸ hsome) ?_ hlogins (hpipeline.trans hsame)
      rw [hrequests]
      exact hcall
  | sent login hlogins hleading => exact .sent login hlogins (hpipeline ▸ hleading)

/-- A step of the service thread sends nothing and posts behind the waiting tasks. -/
theorem LoginProgress.step_client {written : List String} {logins : List Json}
    {e : ClientEvent} {client : Client} {front : ConnectedRtm}
    (h : LoginProgress lib written logins s) (he : e.isOfServiceThread = true)
    (hclient : Client.Steps lib s.client e client)
    (hfront : report lib (client.calls.drop s.client.calls.length) s.front = some front) :
    LoginProgress lib written logins { s with client, front } := by
  obtain ⟨new, calls, rfl⟩ := exists_posted_of_report hfront
  exact h.congr rfl rfl (hclient.requests he) (hclient.pipeline_of_isOfServiceThread he) rfl
    ⟨new, rfl⟩

/-- A login that has been sent stays the first one. -/
theorem LoginProgress.sent_step {written : List String} {logins : List Json} {login : Json}
    (hlogins : logins.head? = some login)
    (hleading : written.map .ok ++ [lib.dump login] <+: s.client.pipeline lib)
    (hsteps : Steps lib s e t) :
    LoginProgress lib written (logins ++ loginRequest s e t) t := by
  refine .sent login ?_ ?_
  · rw [List.head?_append, hlogins]
    rfl
  · rw [hsteps.pipeline]
    exact hleading.trans (List.prefix_append _ _)

/-- Only a reconnect task issues a login request that is recorded. -/
theorem loginRequest_of_ne (hrequest : ∀ operation draw, e ≠ .request operation draw) :
    loginRequest s e t = [] := by
  cases e with
  | request operation draw => exact absurd rfl (hrequest operation draw)
  | _ => rfl

/-- A step of a worker that makes no notification. -/
theorem carryOut_of_notified {rtm : Rtm} (h : rtm.notified = s.rtm.notified) :
    s.carryOut rtm = { s with front := { s.front with rtm } } := by
  rw [carryOut, notifications, h, List.drop_length]
  rfl

theorem carryOut_of_calls {rtm : Rtm} (h : rtm.calls = s.rtm.calls) :
    s.carryOut rtm = { s with front := { s.front with rtm } } :=
  carryOut_of_notified (congrArg (List.filter PeerCall.isNotify) h)

theorem LoginProgress.step_waits {written : List String} {before after : List RtmTask}
    (hwaits : s.StillToBegin (before ++ .reconnected :: after))
    (hbefore : ∀ task ∈ before, task.isCallback = true) (hposted : s.client.requests = [])
    (hsame : s.client.pipeline lib = written.map .ok)
    (hinv : RequestInv s) (hC : CallbacksSilent s e) (hsteps : Steps lib s e t) :
    LoginProgress lib written (loginRequest s e t) t := by
  have h : LoginProgress lib written [] s :=
    .waits before after hwaits hbefore hposted rfl hsame
  cases hsteps with
  | install | stop | destroyPeer | destroyed =>
      rw [loginRequest_of_ne (by simp)]
      exact h.congr rfl rfl rfl rfl rfl ⟨[], (List.append_nil _).symm⟩
  | client e client front he hclient hfront =>
      rw [loginRequest_of_ne (by simp)]
      exact h.step_client he hclient hfront
  | rtm e rtm hmay hrtm =>
      rw [loginRequest_of_ne (by simp)]
      cases hworker : e.isOfWorker with
      | false =>
          obtain ⟨hphase, hcalls, new, hnew⟩ := hrtm.of_others hworker
          rw [carryOut_of_calls hcalls]
          exact h.congr rfl rfl rfl rfl hphase ⟨new, hnew⟩
      | true =>
          have hnone := request_of_mayTake hmay hworker
          obtain ⟨htasks, hlogin⟩ := hwaits.of_request_eq_none hinv hnone
          obtain ⟨hcalls, before, after, htasks', hbefore'⟩ :=
            waits_of_rtmSteps hmay hworker hC hrtm htasks hbefore
          rw [carryOut_of_calls hcalls]
          exact .waits before after (htasks' ▸ .free hnone hlogin) hbefore' hposted rfl hsame
  | request operation draw method data client hnone hmay hcall hclient =>
      obtain ⟨htasks, hlogin⟩ := hwaits.of_request_eq_none hinv hnone
      obtain ⟨rfl, hissued⟩ := login_of_mayRequest hmay hC htasks hbefore hlogin
      rw [hissued]
      obtain ⟨rfl, rfl⟩ := PeerCall.request.inj hcall
      refine .registered _ (Option.some_ne_none _) ?_ rfl ?_
      · cases hclient with
        | register =>
            change (s.client.requests ++ _).map _ = _
            rw [hposted]
            rfl
      · exact (hclient.pipeline.trans (List.append_nil _)).trans hsame
  | postTimeout client hclient => exact absurd hposted (hclient.requests_ne_nil (Or.inl rfl))
  | postSend client hclient => exact absurd hposted (hclient.requests_ne_nil (Or.inr rfl))
  | called operation promise reply timestamp rtm hrequest _ hrtm =>
      rw [loginRequest_of_ne (by simp)]
      have hsome : s.request ≠ none := hrequest ▸ Option.some_ne_none _
      obtain ⟨hnotified, hwaits'⟩ := hwaits.called hinv hsome hrtm
      rw [carryOut_of_notified (s := { s with request := none }) hnotified]
      exact .waits before after hwaits' hbefore hposted rfl hsame
  | executed operation promise timestamp first second rtm hrequest _ hrtm =>
      rw [loginRequest_of_ne (by simp)]
      have hsome : s.request ≠ none := hrequest ▸ Option.some_ne_none _
      obtain ⟨hnotified, hwaits'⟩ := hwaits.executed hsome hrtm
      rw [carryOut_of_notified (s := { s with request := none, login := none }) hnotified]
      exact .waits before after hwaits' hbefore hposted rfl hsame
  | loggedIn operation promise reply timestamp tasks hrequest _ hphase htasks hlogin =>
      -- a reconnect task that waits for its login has still to join the channel
      generalize before ++ .reconnected :: after = waiting at hwaits
      cases hwaits with
      | free hnone => exact absurd (hrequest.symm.trans hnone) (Option.some_ne_none _)
      | callback hcallback => exact WorkerPhase.noConfusion (hphase.symm.trans hcallback)
      | operation _ _ _ _ _ hhead =>
          exact RtmTask.noConfusion (List.cons.inj (htasks.symm.trans hhead)).1
      | reconnected _ _ hsome => exact absurd hlogin hsome

theorem LoginProgress.step_registered {written : List String} {logins : List Json} {login : Json}
    (hrequest : s.request ≠ none)
    (hcall : s.client.requests.map (fun r => r.call.request) = [login])
    (hlogins : logins.head? = some login)
    (hsame : s.client.pipeline lib = written.map .ok) (hsteps : Steps lib s e t) :
    LoginProgress lib written logins t := by
  have h : LoginProgress lib written logins s := .registered login hrequest hcall hlogins hsame
  obtain ⟨registered, hregistered, hlogin⟩ := List.map_eq_singleton_iff.mp hcall
  have hone : s.client.requests ≠ [] := hregistered ▸ List.cons_ne_nil _ _
  cases hsteps with
  | install | stop | destroyPeer | destroyed =>
      exact h.congr rfl rfl rfl rfl rfl ⟨[], (List.append_nil _).symm⟩
  | client e client front he hclient hfront =>
      exact h.step_client he hclient hfront
  | rtm e rtm hmay hrtm =>
      obtain ⟨hphase, hcalls, new, hnew⟩ := hrtm.of_others (isOfWorker_of_mayTake hmay hrequest)
      rw [carryOut_of_calls hcalls]
      exact h.congr rfl rfl rfl rfl hphase ⟨new, hnew⟩
  | request operation draw method data client hnone => exact absurd hnone hrequest
  | postTimeout client hclient =>
      have hpipeline := hclient.pipeline.trans (List.append_nil _)
      refine .registered login hrequest ?_ hlogins (hpipeline.trans hsame)
      cases hclient with
      | postTimeout _ call hget =>
          rw [hregistered] at hget ⊢
          obtain rfl := Option.some.inj hget
          exact congrArg (fun login => [login]) hlogin
  | postSend client hclient =>
      refine .sent login hlogins ?_
      have hpipeline := hclient.pipeline
      rw [ClientEvent.outgoing, hregistered, hsame] at hpipeline
      rw [hpipeline, ← hlogin]
      exact List.prefix_refl _
  | called _ _ _ _ _ _ hposted | loggedIn _ _ _ _ _ _ hposted
  | executed _ _ _ _ _ _ _ hposted => exact absurd hposted hone

theorem LoginProgress.step {written : List String} {logins : List Json}
    (h : LoginProgress lib written logins s) (hinv : RequestInv s) (hC : CallbacksSilent s e)
    (hsteps : Steps lib s e t) : LoginProgress lib written (logins ++ loginRequest s e t) t := by
  cases h with
  | waits before after hwaits hbefore hposted hlogins hsame =>
      rw [hlogins]
      exact .step_waits hwaits hbefore hposted hsame hinv hC hsteps
  | registered login hrequest hcall hlogins hsame =>
      have hnone : loginRequest s e t = [] := by
        apply loginRequest_of_ne
        rintro operation draw rfl
        cases hsteps with
        | request _ _ _ _ _ hno => exact hrequest hno
      rw [hnone, List.append_nil]
      exact .step_registered hrequest hcall hlogins hsame hsteps
  | sent login hlogins hleading => exact .sent_step hlogins hleading hsteps

/-- What is sent first is written first. -/
theorem LoginProgress.first {written : List String} {logins : List Json}
    (h : LoginProgress lib written logins s) (hwritten : written <+: s.client.written) :
    ∃ texts, s.client.written = written ++ texts ∧
      ∀ text ∈ texts.head?, ∃ login ∈ logins.head?, lib.dump login = .ok text := by
  obtain ⟨texts, htexts⟩ := hwritten
  refine ⟨texts, htexts.symm, ?_⟩
  have hnone : s.client.pipeline lib = written.map .ok → texts = [] := by
    intro hsame
    have hlength := congrArg List.length hsame
    rw [Client.pipeline, Client.texts, ← htexts] at hlength
    simp only [List.length_append, List.length_map] at hlength
    exact List.eq_nil_of_length_eq_zero (by omega)
  cases h with
  | waits _ _ _ _ _ _ hsame | registered _ _ _ _ hsame =>
      rw [hnone hsame]
      exact fun text htext => absurd htext.symm (Option.some_ne_none _)
  | sent login hlogins hleading =>
      intro text htext
      refine ⟨login, hlogins, ?_⟩
      obtain ⟨later, rfl⟩ := List.head?_eq_some_iff.mp htext
      rw [Client.pipeline, Client.texts, ← htexts] at hleading
      simp only [List.map_append, List.append_assoc, List.prefix_append_right_inj,
        List.map_cons, List.cons_append, List.cons_prefix_cons] at hleading
      exact hleading.1

/-! ## The reconnection -/

/-- A reconnection that is established posts the reconnect task. -/
theorem progress_of_established (hnothing : s.NothingOnItsWay)
    (hinstalled : .onPeerReConnected ∉ s.front.remaining)
    (hreconnection : s.client.peer.transport.establishedCall = .onReConnected)
    (hsteps : Steps lib s (.client (.service .established)) t) :
    LoginProgress lib t.client.written [] t := by
  obtain ⟨tasks, hbegin, hcallbacks⟩ := hnothing.tasks
  cases hsteps with
  | client _ client front he hclient hfront =>
      have hpipeline := (hclient.pipeline.trans (List.append_nil _)).trans hnothing.queued.pipeline
      cases hclient with
      | service _ service hidle hown hservice =>
          cases hservice with
          | established wsi hphase hconn =>
              have hcalls : (Client.setService (s.client.service.established wsi)
                  s.client).calls.drop s.client.calls.length = [.onReConnected] := by
                change (s.client.calls ++ [s.client.peer.transport.establishedCall]).drop _ = _
                rw [List.drop_left, hreconnection]
              rw [hcalls] at hfront
              obtain ⟨front', hpeer, hlast⟩ := Option.bind_eq_some_iff.mp hfront
              obtain rfl := Option.some.inj hlast
              cases ConnectedRtm.steps_of_step hpeer with
              | peer =>
                  refine .waits tasks [] (hbegin.append rfl rfl rfl ?_) hcallbacks
                    hnothing.posted rfl hpipeline
                  change s.rtm.tasks ++ _ = _
                  rw [ListenerCall.callback, if_neg hinstalled]
                  rfl

/-- On a reconnection that is established with nothing on its way the first text is the
login of the reconnect task, unless a callback of the application sends before it. -/
theorem loginFirst_of_nothingOnItsWay {appId userId : String} {config : RtmConfig}
    {before later : List SystemEvent}
    (hrun : Run (step lib) AnyStep (start appId userId config) before s)
    (hnothing : s.NothingOnItsWay) (hinstalled : .onPeerReConnected ∉ s.front.remaining)
    (hreconnection : s.client.peer.transport.establishedCall = .onReConnected)
    (hstep : step lib s (.client (.service .established)) = some t)
    (hlater : Run (step lib) CallbacksSilent t later u) : LoginFirst lib t later u := by
  have hinv : RequestInv s :=
    hrun.invariant (requestInv_start appId userId config)
      fun h _ hstep => h.step (steps_of_step hstep).2
  have hsteps := (steps_of_step hstep).2
  have hprogress : LoginProgress lib t.client.written (loginRequests lib t later) u ∧
      RequestInv u ∧ t.client.written <+: u.client.written := by
    induction hlater with
    | nil =>
        refine ⟨?_, hinv.step hsteps, List.prefix_refl _⟩
        exact progress_of_established hnothing hinstalled hreconnection hsteps
    | snoc hprev hC hnext ih =>
        have hsteps' := (steps_of_step hnext).2
        refine ⟨?_, ih.2.1.step hsteps', ih.2.2.trans hsteps'.written_mono⟩
        rw [loginRequests, hprev.record_snoc hnext]
        exact ih.1.step ih.2.1 hC hsteps'
  exact hprogress.1.first hprogress.2.2

/-- The login request of the reconnect task, and its text. -/
def loginText : Json × String :=
  (Registration.message ⟨.ofNat 1, "login", (Rtm.start "" "" {}).loginData⟩,
    "\x7b\"data\":\x7b\"accessToken\":\"\",\"appId\":\"\",\"device\":\x7b\"name\":\"pc\"," ++
      "\"version\":\"1.0.0\"\x7d,\"displayName\":\"pc\"\x7d,\"id\":1," ++
      "\"method\":\"login\",\"request\":true\x7d")

/-- The JSON library on the login. -/
def loginLibrary : JsonLibrary := JsonLibrary.ofTable [loginText] (List.nodup_singleton _)

/-- The connection is lost, and the worker has told the listener. -/
def outageRun : List SystemEvent :=
  connectedRun ++
    [.client (.service .closed), .rtm .test, .rtm (.runTask ⟨.ok .null, 0⟩ ⟨.ok .null, 0⟩),
      .rtm .callbackReturn, .rtm .test]

/-- The connection is about to be established again. -/
def reconnectingRun : List SystemEvent := outageRun ++ [.client (.service (.connect .handle))]

/-- The same with a publish of the main thread during the outage. -/
def outagePublishRun : List SystemEvent :=
  outageRun ++ publishRun ++ [.client (.service (.connect .handle))]

/-- The service thread writes what has been posted. -/
def writeRun : List SystemEvent :=
  [.client (.service (.serviceReturn 0)), .client (.service .runTask),
    .client (.service .loop), .client (.service .writeable)]

/-- The worker reaches the reconnect task and sends its login, and the service thread
writes it. -/
def loginRun : List SystemEvent :=
  [.rtm .test, .request .login (.ofNat 1), .postTimeout, .postSend,
    .client (.service (.serviceReturn 0)), .client (.service .runTask),
    .client (.service .runTask), .client (.service .loop), .client (.service .writeable)]

theorem loginFirst_of_nothingOnItsWay_outage :
    ∃ s t u, Run (step loginLibrary) AnyStep (start "" "" {}) reconnectingRun s ∧
      step loginLibrary s (.client (.service .established)) = some t ∧
      Run (step loginLibrary) CallbacksSilent t loginRun u ∧
      u.client.written = [loginText.2] ∧ LoginFirst loginLibrary t loginRun u := by
  obtain ⟨s, t, hrun, hqueued, hposted, hrequest, hnone, htasks, hinstalled, hreconnection, hstep,
      hlogin⟩ :
      ∃ s t, reconnectingRun.foldlM (step loginLibrary) (start "" "" {}) = some s ∧
        s.client.NothingQueued ∧ s.client.requests = [] ∧ s.request = none ∧ s.login = none ∧
        s.rtm.tasks = [] ∧
        s.front.remaining = [] ∧
        s.client.peer.transport.establishedCall = .onReConnected ∧
        step loginLibrary s (.client (.service .established)) = some t ∧
        (loginRun.foldlM (fun s e => if CallbacksSilent s e then step loginLibrary s e else none)
          t).any (fun u => decide (u.client.written = [loginText.2])) = true :=
    ⟨_, _, rfl, ⟨rfl, rfl⟩, rfl, rfl, rfl, rfl, rfl, rfl, rfl, by decide +kernel⟩
  obtain ⟨u, hlater, hwritten⟩ := (Option.any_eq_true _ _).mp hlogin
  refine ⟨s, t, u, run_of_foldlM hrun, hstep, run_of_guarded_foldlM hlater,
    of_decide_eq_true hwritten, ?_⟩
  refine loginFirst_of_nothingOnItsWay (run_of_foldlM hrun)
    ⟨hqueued, hposted, _, .free hrequest hnone, ?_⟩ ?_ hreconnection hstep
    (run_of_guarded_foldlM hlater)
  · rw [htasks]
    exact fun task hmem => absurd hmem List.not_mem_nil
  · rw [hinstalled]
    exact List.not_mem_nil

/-- The main thread publishes during the outage, and the text is the first one on the
new connection. -/
theorem outage_publish_first :
    ∃ s t u, Run (step publishLibrary) AnyStep (start "" "" {}) outagePublishRun s ∧
      s.front.remaining = [] ∧ s.client.peer.transport.establishedCall = .onReConnected ∧
      step publishLibrary s (.client (.service .established)) = some t ∧
      Run (step publishLibrary) CallbacksSilent t writeRun u ∧
      t.client.written = [] ∧ u.client.written = [publishText.2] ∧
      ¬LoginFirst publishLibrary t writeRun u := by
  obtain ⟨s, t, u, hrun, hinstalled, hreconnection, hstep, hlater, hbefore, hwritten, hlogins⟩ :
      ∃ s t u, outagePublishRun.foldlM (step publishLibrary) (start "" "" {}) = some s ∧
        s.front.remaining = [] ∧
        s.client.peer.transport.establishedCall = .onReConnected ∧
        step publishLibrary s (.client (.service .established)) = some t ∧
        Run (step publishLibrary) CallbacksSilent t writeRun u ∧
        t.client.written = [] ∧ u.client.written = [publishText.2] ∧
        loginRequests publishLibrary t writeRun = [] :=
    ⟨_, _, _, rfl, rfl, rfl, rfl, run_of_guarded_foldlM rfl, rfl, rfl, rfl⟩
  refine ⟨s, t, u, run_of_foldlM hrun, hinstalled, hreconnection, hstep, hlater, hbefore,
    hwritten, ?_⟩
  rintro ⟨texts, htexts, hfirst⟩
  rw [hbefore, hwritten, List.nil_append] at htexts
  obtain ⟨login, hlogin, -⟩ := hfirst publishText.2 (by rw [← htexts]; rfl)
  rw [hlogins] at hlogin
  exact absurd hlogin.symm (Option.some_ne_none _)

end RtmSystem

end Protoo
