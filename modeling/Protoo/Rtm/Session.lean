import Protoo.Rtm.Worker

/-!
# The session after a reconnect

The reconnect task logs in whether or not the client was logged in, and joins
`m_channelName`, which is the channel of the last successful subscribe: an
unsubscribe does not clear it, and a second subscribe replaces the first.  The
reconnect restores the session exactly when the client was logged in and that
channel was the only one it was subscribed to.
-/

namespace Protoo

open Protoo.Support

namespace Rtm

/-! ## The session that the operations have made -/

/-- Some `set` has no later `clear`. -/
def Since {α : Type*} (set clear : α) : List α → Prop
  | [] => False
  | first :: later => first = set ∧ clear ∉ later ∨ Since set clear later

instance decidableSince {α : Type*} [DecidableEq α] (set clear : α) :
    (events : List α) → Decidable (Since set clear events)
  | [] => inferInstanceAs (Decidable False)
  | first :: later =>
      have : Decidable (Since set clear later) := decidableSince set clear later
      inferInstanceAs (Decidable (first = set ∧ clear ∉ later ∨ Since set clear later))

theorem since_iff {α : Type*} {set clear : α} {events : List α} :
    Since set clear events ↔ ∃ before later, events = before ++ set :: later ∧ clear ∉ later := by
  induction events with
  | nil => simp [Since]
  | cons first events ih =>
      rw [Since, ih]
      constructor
      · rintro (⟨rfl, hclear⟩ | ⟨before, later, rfl, hclear⟩)
        · exact ⟨[], events, rfl, hclear⟩
        · exact ⟨first :: before, later, rfl, hclear⟩
      · rintro ⟨before, later, heq, hclear⟩
        rcases List.append_eq_cons_iff.mp heq.symm with ⟨-, hlater⟩ | ⟨before', -, hevents⟩
        · obtain ⟨rfl, rfl⟩ := List.cons.inj hlater
          exact Or.inl ⟨rfl, hclear⟩
        · exact Or.inr ⟨before', later, hevents, hclear⟩

theorem Since.mem {α : Type*} {set clear : α} {events : List α} (h : Since set clear events) :
    set ∈ events := by
  obtain ⟨before, later, rfl, -⟩ := since_iff.mp h
  exact List.mem_append_right before List.mem_cons_self

/-- A successful login is not followed by a successful logout. -/
def LoggedIn (performed : List (Operation × Bool)) : Prop :=
  Since (.login, true) (.logout, true) performed

/-- The channel was subscribed successfully and not successfully unsubscribed
since. -/
def Subscribed (performed : List (Operation × Bool)) (channelName : String) : Prop :=
  Since (.subscribe channelName, true) (.unsubscribe channelName, true) performed

instance (performed : List (Operation × Bool)) : Decidable (LoggedIn performed) :=
  decidableSince _ _ _

instance (performed : List (Operation × Bool)) (channelName : String) :
    Decidable (Subscribed performed channelName) :=
  decidableSince _ _ _

def subscribedChannel : Operation × Bool → Option String
  | (.subscribe channelName, true) => some channelName
  | _ => none

/-- The channel of the last successful subscribe. -/
def lastSubscribed (performed : List (Operation × Bool)) : Option String :=
  (performed.filterMap subscribedChannel).getLast?

theorem lastSubscribed_append (performed : List (Operation × Bool)) (operation : Operation)
    (succeeded : Bool) :
    lastSubscribed (performed ++ [(operation, succeeded)]) =
      (subscribedChannel (operation, succeeded)).or (lastSubscribed performed) := by
  rw [lastSubscribed, lastSubscribed, filterMap_concat]
  cases subscribedChannel (operation, succeeded) with
  | none => rw [Option.toList_none, List.append_nil, Option.none_or]
  | some channelName => rw [Option.toList_some, List.getLast?_concat, Option.some_or]

theorem exists_lastSubscribed {performed : List (Operation × Bool)} {channelName : String}
    (h : Subscribed performed channelName) :
    ∃ last, lastSubscribed performed = some last := by
  have hmem : channelName ∈ performed.filterMap subscribedChannel :=
    List.mem_filterMap.mpr ⟨_, h.mem, rfl⟩
  exact ⟨_, List.getLast?_eq_getLast_of_ne_nil (List.ne_nil_of_mem hmem)⟩

/-! ## The channel kept for reconnects -/

/-- `m_channelName` is the channel of the last successful subscribe. -/
def KeepsLastSubscribed (rtm : Rtm) : Prop :=
  rtm.channelName = (lastSubscribed rtm.performed).getD ""

variable {lib : JsonLibrary} {rtm t : Rtm} {e : RtmEvent}

theorem KeepsLastSubscribed.perform (h : KeepsLastSubscribed rtm) (operation : Operation)
    (result : RequestResult) : KeepsLastSubscribed (rtm.perform lib operation result) := by
  unfold KeepsLastSubscribed Rtm.perform at *
  rw [lastSubscribed_append]
  cases succeeds lib result operation with
  | false => cases operation <;> exact h
  | true =>
      cases operation with
      | subscribe channelName => rfl
      | _ => exact h

theorem KeepsLastSubscribed.ran {first second : RequestResult} {task : RtmTask}
    (h : KeepsLastSubscribed rtm) (hran : Ran lib first second rtm task t) :
    KeepsLastSubscribed t := by
  cases hran with
  | operation operation | satisfied operation => exact h.perform operation first
  | loginFails => exact h.perform .login first
  | subscribeFails | reconnected => exact (h.perform .login first).perform _ second
  | _ => exact h

theorem KeepsLastSubscribed.step (h : KeepsLastSubscribed rtm)
    (hstep : Rtm.step lib rtm e = some t) : KeepsLastSubscribed t := by
  cases steps_of_step hstep with
  | directCall operation result => exact h.perform operation result
  | runTask first second task tasks t hphase htasks hran =>
      have htask : KeepsLastSubscribed { rtm with tasks } := h
      exact htask.ran hran
  | _ => exact h

theorem keepsLastSubscribed_of_run {appId userId : String} {config : RtmConfig}
    {events : List RtmEvent}
    (hrun : Run (Rtm.step lib) AnyStep (start appId userId config) events rtm) :
    KeepsLastSubscribed rtm :=
  hrun.invariant rfl fun h _ hstep => h.step hstep

/-! ## The reconnect -/

/-- What the peer was asked to do between two states. -/
def issued (rtm t : Rtm) : List PeerCall := t.calls.drop rtm.calls.length

/-- The requests `issued` restore the session: a login exactly if the client was
logged in, and a join of exactly the subscribed channels. -/
structure Restores (performed : List (Operation × Bool)) (issued : List PeerCall) : Prop where
  login : (∃ data, .request "login" data ∈ issued) ↔ LoggedIn performed
  channels : ∀ data, .request "joinChannel" data ∈ issued ↔
    ∃ channelName, Subscribed performed channelName ∧ data = channelData channelName

/-- A reconnect whose requests succeed logs in and joins `m_channelName`. -/
theorem issued_reconnected {first second : RequestResult} {tasks : List RtmTask}
    (htasks : rtm.tasks = .reconnected :: tasks)
    (hlogin : succeeds lib first .login = true)
    (hsubscribe : succeeds lib second (.subscribe rtm.channelName) = true)
    (hstep : Rtm.step lib rtm (.runTask first second) = some t) :
    issued rtm t = [.request "login" rtm.loginData,
      .request "joinChannel" (channelData rtm.channelName)] := by
  cases ran_of_step htasks hstep with
  | loginFails hfails => exact Bool.noConfusion (hfails.symm.trans hlogin)
  | subscribeFails _ hfails => exact Bool.noConfusion (hfails.symm.trans hsubscribe)
  | reconnected =>
      unfold issued callListener Rtm.perform
      rw [List.append_assoc, List.drop_left]
      rfl

theorem channelData_inj {channelName channelName' : String} :
    channelData channelName = channelData channelName' ↔ channelName = channelName' := by
  constructor
  · intro h
    simpa [channelData, Json.ofInitializers, Json.emplaceMember, Json.assignMember] using h
  · exact congrArg channelData

/-- A reconnect restores the session exactly when the client was logged in and
subscribed to the channel of the last successful subscribe and to no other. -/
theorem restores_iff {appId userId : String} {config : RtmConfig} {events : List RtmEvent}
    {first second : RequestResult} {tasks : List RtmTask}
    (hrun : Run (Rtm.step lib) AnyStep (start appId userId config) events rtm)
    (htasks : rtm.tasks = .reconnected :: tasks)
    (hlogin : succeeds lib first .login = true)
    (hsubscribe : succeeds lib second (.subscribe rtm.channelName) = true)
    (hstep : Rtm.step lib rtm (.runTask first second) = some t) :
    Restores rtm.performed (issued rtm t) ↔
      LoggedIn rtm.performed ∧ ∃ last, lastSubscribed rtm.performed = some last ∧
        ∀ channelName, Subscribed rtm.performed channelName ↔ channelName = last := by
  have hkept : rtm.channelName = (lastSubscribed rtm.performed).getD "" :=
    keepsLastSubscribed_of_run hrun
  rw [issued_reconnected htasks hlogin hsubscribe hstep]
  constructor
  · rintro ⟨hloggedIn, hchannels⟩
    have hjoined : ∀ channelName,
        Subscribed rtm.performed channelName ↔ channelName = rtm.channelName := by
      intro channelName
      have hdata := hchannels (channelData channelName)
      simpa [channelData_inj] using hdata.symm
    obtain ⟨last, hlast⟩ := exists_lastSubscribed ((hjoined rtm.channelName).mpr rfl)
    have hsame : rtm.channelName = last := by
      rw [hkept, hlast]
      rfl
    rw [hsame] at hjoined
    exact ⟨hloggedIn.mp ⟨_, List.mem_cons_self⟩, last, hlast, hjoined⟩
  · rintro ⟨hloggedIn, last, hlast, hsubscribed⟩
    have hsame : rtm.channelName = last := by
      rw [hkept, hlast]
      rfl
    constructor
    · exact iff_of_true ⟨_, List.mem_cons_self⟩ hloggedIn
    · intro data
      simp [hsubscribed, hsame]

/-- The request of an operation has succeeded. -/
def requestDone : RequestResult := ⟨.ok .null, 0⟩

/-- The main thread logs in and performs `operations`, then the connection is lost
and comes back. -/
def reconnectRun (operations : List Operation) : List RtmEvent :=
  (Operation.login :: operations).map (fun operation =>
      .call (.other 0) operation requestDone) ++
    [.test] ++
    (Operation.login :: operations).map (fun _ => .runTask requestDone requestDone) ++
    [.peerReconnected]

theorem restores_iff_oneChannel :
    ∃ rtm t, Run (Rtm.step nullLibrary) AnyStep (start "" "" {}) (reconnectRun [.subscribe "a"])
        rtm ∧
      Rtm.step nullLibrary rtm (.runTask requestDone requestDone) = some t ∧
      Restores rtm.performed (issued rtm t) := by
  obtain ⟨rtm, t, hrun, htasks, hperformed, hchannel, hstep⟩ :
      ∃ rtm t, (reconnectRun [.subscribe "a"]).foldlM (Rtm.step nullLibrary) (start "" "" {}) =
          some rtm ∧
        rtm.tasks = [.reconnected] ∧
        rtm.performed = [(.login, true), (.subscribe "a", true)] ∧ rtm.channelName = "a" ∧
        Rtm.step nullLibrary rtm (.runTask requestDone requestDone) = some t :=
    ⟨_, _, rfl, rfl, rfl, rfl, rfl⟩
  refine ⟨rtm, t, run_of_foldlM hrun, hstep, ?_⟩
  apply (restores_iff (run_of_foldlM hrun) htasks (by rfl) (by rw [hchannel]; rfl) hstep).mpr
  rw [hperformed]
  refine ⟨by decide, "a", rfl, fun channelName => ?_⟩
  simp [Subscribed, Since, eq_comm]

/-- After an unsubscribe the reconnect joins the channel again. -/
theorem unsubscribed_channel_joined :
    ∃ rtm t, Run (Rtm.step nullLibrary) AnyStep (start "" "" {})
        (reconnectRun [.subscribe "a", .unsubscribe "a"]) rtm ∧
      Rtm.step nullLibrary rtm (.runTask requestDone requestDone) = some t ∧
      ¬Subscribed rtm.performed "a" ∧
      .request "joinChannel" (channelData "a") ∈ issued rtm t ∧
      ¬Restores rtm.performed (issued rtm t) := by
  obtain ⟨rtm, t, hrun, hperformed, hissued, hstep⟩ :
      ∃ rtm t, (reconnectRun [.subscribe "a", .unsubscribe "a"]).foldlM (Rtm.step nullLibrary)
          (start "" "" {}) = some rtm ∧
        rtm.performed = [(.login, true), (.subscribe "a", true), (.unsubscribe "a", true)] ∧
        issued rtm t = [.request "login" (start "" "" {}).loginData,
          .request "joinChannel" (channelData "a")] ∧
        Rtm.step nullLibrary rtm (.runTask requestDone requestDone) = some t :=
    ⟨_, _, rfl, rfl, rfl, rfl⟩
  have hnone : ∀ channelName, ¬Subscribed rtm.performed channelName := by
    intro channelName
    rw [hperformed]
    simp +contextual [Subscribed, Since, eq_comm]
  have hjoined : .request "joinChannel" (channelData "a") ∈ issued rtm t := by
    rw [hissued]
    exact List.mem_cons_of_mem _ List.mem_cons_self
  refine ⟨rtm, t, run_of_foldlM hrun, hstep, hnone "a", hjoined, ?_⟩
  intro hrestores
  obtain ⟨channelName, hsubscribed, -⟩ := (hrestores.channels _).mp hjoined
  exact hnone channelName hsubscribed

end Rtm

end Protoo
