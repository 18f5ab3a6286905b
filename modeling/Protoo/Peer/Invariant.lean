import Protoo.Peer.Client

/-!
# The entries of the map and the promises behind them

`WellFormed ids c` relates a client to the list of the ids registered so far, in
the order of the registrations, which is also the order in which the promises
were made.  An entry holds a promise of its own id, and the promise has no
result unless `handleResponse` or the closure of a timeout has just completed it;
an id without an entry has had a promise completed.  `WellFormed.step` extends the
list with every registration.
-/

namespace Protoo

open Protoo.Support

/-- A promise was completed by a response or by a timeout. -/
def Completed (states : Store Reply) (k : ℕ) : Prop :=
  ∃ reply, states[k]? = some (.ready reply) ∧ reply ≠ .error .brokenPromise

/-- The entry whose promise the service thread has completed and not yet erased. -/
def Handler.found : Handler → Option ℤ
  | .idle => none
  | .completed id => some id
  | .cancelled id => some id
  | .timedOut id => some id

/-- The ids that an event registers. -/
def ClientEvent.newIds : ClientEvent → List ℤ
  | .register draw _ _ => [draw.number]
  | _ => []

namespace Peer

theorem replyOf_ne_brokenPromise (response : Json) :
    replyOf response ≠ .error .brokenPromise := by
  unfold replyOf
  split <;> simp

theorem getElem?_states_release (held : List ℕ) (promise : Option ℕ) (p : Peer) (j : ℕ) :
    (p.release held promise).states[j]? =
      if promise = some j ∧ j ∉ held then
        p.states[j]?.map (SharedState.abandon (.error .brokenPromise))
      else p.states[j]? := by
  cases promise with
  | none => simp [release]
  | some k =>
      unfold release
      by_cases hheld : k ∈ held
      · by_cases hkj : k = j
        · subst hkj
          simp [hheld]
        · simp [hheld, hkj]
      · by_cases hkj : k = j
        · subst hkj
          simp [hheld, Store.getElem?_abandon]
        · simp [hheld, hkj, Store.getElem?_abandon]

/-- A release gives the destroyed promise the broken-promise error, if it has no
result, and does nothing else. -/
theorem release_cases (held : List ℕ) (promise : Option ℕ) (p : Peer) (k : ℕ) :
    (p.release held promise).states[k]? = p.states[k]? ∨
      (promise = some k ∧ p.states[k]? = some .empty ∧
        (p.release held promise).states[k]? = some (.ready (.error .brokenPromise))) := by
  rw [getElem?_states_release]
  split
  next hreleased =>
    cases hstate : p.states[k]? with
    | none => exact Or.inl rfl
    | some state =>
        cases state with
        | empty => exact Or.inr ⟨hreleased.1, rfl, rfl⟩
        | atThreadExit reply => exact Or.inl rfl
        | ready reply => exact Or.inl rfl
  next => exact Or.inl rfl

/-- A release of another promise does not touch the state. -/
theorem getElem?_states_release_of_ne {held : List ℕ} {promise : Option ℕ} {p : Peer} {k : ℕ}
    (h : promise ≠ some k) : (p.release held promise).states[k]? = p.states[k]? := by
  rw [getElem?_states_release, if_neg]
  exact fun hk => h hk.1

theorem length_states_enter (id : ℤ) (p : Peer) :
    (p.enter id).states.length = p.states.length + 1 := by
  simp [enter]

theorem getElem?_states_enter (id : ℤ) (p : Peer) (k : ℕ) :
    (p.enter id).states[k]? = if k = p.states.length then some .empty else p.states[k]? :=
  Store.getElem?_make p.states k

theorem length_states_returnRequest (held : List ℕ) (call : RequestCall) (p : Peer) :
    (p.returnRequest held call).states.length = p.states.length := by
  unfold returnRequest
  split
  · rfl
  · exact length_states_release _ _ _

end Peer

namespace Client

/-- The event may destroy the promise `k`: another registration replaces its
entry, the last call that holds it returns, or its entry is erased. -/
def Drops (c : Client) (k : ℕ) : ClientEvent → Prop
  | .register draw _ _ => c.peer.promises.lookup draw.number = some k
  | .postSend i => ∃ call, c.requests[i]? = some ⟨call, true⟩ ∧ call.promise = k ∧
      c.peer.promises.lookup call.id ≠ some k
  | .erase => ∃ id, c.handler.found = some id ∧ c.peer.promises.lookup id = some k
  | _ => False

/-- What an event does to the promise `k`. -/
inductive Change (lib : JsonLibrary) (c : Client) (e : ClientEvent) (c' : Client) (k : ℕ) :
    Prop where
  | same (h : c'.peer.states[k]? = c.peer.states[k]?)
  | dropped (hdrops : c.Drops k e) (hempty : c.peer.states[k]? = some .empty)
      (h : c'.peer.states[k]? = some (.ready (.error .brokenPromise)))
  | timeout (id : ℤ) (he : e = .timer) (htask : c.peer.transport.task = some id)
      (hlookup : c.peer.promises.lookup id = some k)
      (hempty : c.peer.states[k]? = some .empty)
      (h : c'.peer.states[k]? = some (.ready (.error (.runtimeError "request timeout"))))
  | response (chunk : String) (final : Bool) (handled : Except Exception Unit)
      (message : Json) (id : ℤ) (he : e = .receive chunk final handled)
      (hparse : Message.parse lib (c.peer.transport.receivedMsg ++ chunk) = .ok message)
      (hid : message.field "id" = .integer id) (hlookup : c.peer.promises.lookup id = some k)
      (hempty : c.peer.states[k]? = some .empty)
      (h : c'.peer.states[k]? = some (.ready (Peer.replyOf message)))

theorem Steps.change {lib : JsonLibrary} {c c' : Client} {e : ClientEvent}
    (h : Steps lib c e c') {k : ℕ} (hk : k < c.peer.states.length) : Change lib c e c' k := by
  cases h with
  | register draw method data =>
      have henter : (c.peer.enter draw.number).states[k]? = c.peer.states[k]? := by
        rw [Peer.getElem?_states_enter, if_neg (Nat.ne_of_lt hk)]
      rcases Peer.release_cases c.held (c.peer.promises.lookup draw.number)
        (c.peer.enter draw.number) k with hsame | ⟨hreplaced, hempty, hready⟩
      · exact .same (hsame.trans henter)
      · exact .dropped hreplaced (henter.symm.trans hempty) hready
  | postSend i call hcall =>
      by_cases hentry : c.peer.promises.lookup call.id = some call.promise
      · have hreturn : ∀ held, (c.peer.postSend call).returnRequest held call =
            c.peer.postSend call := fun held => if_pos hentry
        rw [hreturn]
        exact .same rfl
      · have hreturn : ∀ held, (c.peer.postSend call).returnRequest held call =
            (c.peer.postSend call).release held (some call.promise) :=
          fun held => if_neg hentry
        rw [hreturn]
        rcases Peer.release_cases ((c.requests.eraseIdx i).map fun r => r.call.promise)
          (some call.promise) (c.peer.postSend call) k with hsame | ⟨hpromise, hempty, hready⟩
        · exact .same hsame
        · obtain rfl := Option.some.inj hpromise
          exact .dropped ⟨call, hcall, rfl, hentry⟩ hempty hready
  | receive chunk final handled c' hidle hphase hreceived =>
      cases hreceived with
      | buffered => exact .same rfl
      | completed message id promise calls hparse hresponse hid hlookup hempty =>
          by_cases hkp : k = promise
          · subst hkp
            refine .response chunk final handled message id rfl hparse hid hlookup hempty ?_
            rw [Store.getElem?_set_of_empty hempty, if_pos rfl]
          · refine .same ?_
            rw [Store.getElem?_set_of_empty hempty, if_neg hkp]
  | erase id hhandler | eraseTimedOut id hhandler =>
      rcases Peer.release_cases c.held (c.peer.promises.lookup id) c.peer k with
        hsame | ⟨hentry, hempty, hready⟩
      · exact .same ((congrArg (·[k]?) (Peer.states_eraseEntry c.held id c.peer)).trans hsame)
      · exact .dropped ⟨id, congrArg Handler.found hhandler, hentry⟩ hempty
          ((congrArg (·[k]?) (Peer.states_eraseEntry c.held id c.peer)).trans hready)
  | timeout id promise hidle hphase hsul htask hlookup hempty =>
      by_cases hkp : k = promise
      · subst hkp
        refine .timeout id rfl htask hlookup hempty ?_
        rw [Store.getElem?_set_of_empty hempty, if_pos rfl]
      · refine .same ?_
        rw [Store.getElem?_set_of_empty hempty, if_neg hkp]
  | _ => exact .same rfl

/-- A promise that has a result keeps it. -/
theorem Steps.ready {lib : JsonLibrary} {c c' : Client} {e : ClientEvent}
    (h : Steps lib c e c') {k : ℕ} {reply : Reply}
    (hk : c.peer.states[k]? = some (.ready reply)) :
    c'.peer.states[k]? = some (.ready reply) := by
  obtain ⟨hlength, -⟩ := List.getElem?_eq_some_iff.mp hk
  cases h.change hlength with
  | same heq => exact heq.trans hk
  | dropped _ hempty => simp [hempty] at hk
  | timeout id _ _ _ hempty => simp [hempty] at hk
  | response chunk final handled message id _ _ _ _ hempty => simp [hempty] at hk

structure WellFormed (ids : List ℤ) (c : Client) : Prop where
  length : c.peer.states.length = ids.length
  entry : ∀ id k, c.peer.promises.lookup id = some k → ids[k]? = some id
  pending : ∀ id k, c.peer.promises.lookup id = some k →
    c.peer.states[k]? = some .empty ∨ c.handler.found = some id
  call : ∀ r ∈ c.requests, ids[r.call.promise]? = some r.call.id
  found : ∀ id, c.handler.found = some id →
    ∃ k, ids[k]? = some id ∧ Completed c.peer.states k
  served : ∀ id ∈ ids, c.peer.promises.lookup id = none →
    ∃ k, ids[k]? = some id ∧ Completed c.peer.states k

theorem wellFormed_init : WellFormed [] ({} : Client) where
  length := rfl
  entry := by simp
  pending := by simp
  call := by simp
  found := by simp [Handler.found]
  served := by simp

/-- A completed promise of an id stays completed when the list of ids grows. -/
theorem Steps.completed {lib : JsonLibrary} {c c' : Client} {e : ClientEvent}
    (h : Steps lib c e c') {ids : List ℤ} {id : ℤ}
    (hk : ∃ k, ids[k]? = some id ∧ Completed c.peer.states k) (newIds : List ℤ) :
    ∃ k, (ids ++ newIds)[k]? = some id ∧ Completed c'.peer.states k := by
  obtain ⟨k, hid, reply, hready, hne⟩ := hk
  obtain ⟨hlength, -⟩ := List.getElem?_eq_some_iff.mp hid
  refine ⟨k, ?_, reply, h.ready hready, hne⟩
  rw [List.getElem?_append_left hlength]
  exact hid

/-- Steps that leave the map, the promises, the calls and the handler alone. -/
theorem WellFormed.congr {ids : List ℤ} {c c' : Client} (h : WellFormed ids c)
    (hpromises : c'.peer.promises = c.peer.promises)
    (hstates : c'.peer.states = c.peer.states)
    (hcalls : c'.requests.map CallInProgress.call = c.requests.map CallInProgress.call)
    (hfound : c'.handler.found = c.handler.found) : WellFormed ids c' where
  length := by
    rw [hstates]
    exact h.length
  entry := by
    rw [hpromises]
    exact h.entry
  pending := by
    rw [hpromises, hstates, hfound]
    exact h.pending
  call := by
    intro r hr
    have hmem : r.call ∈ c.requests.map CallInProgress.call := by
      rw [← hcalls]
      exact List.mem_map_of_mem hr
    obtain ⟨r', hr', heq⟩ := List.mem_map.mp hmem
    rw [← heq]
    exact h.call r' hr'
  found := by
    rw [hstates, hfound]
    exact h.found
  served := by
    rw [hpromises, hstates]
    exact h.served

/-- An entry's promise was made before. -/
theorem WellFormed.lt_length {ids : List ℤ} {c : Client} (h : WellFormed ids c) {id : ℤ}
    {k : ℕ} (hk : c.peer.promises.lookup id = some k) : k < c.peer.states.length := by
  obtain ⟨hlength, -⟩ := List.getElem?_eq_some_iff.mp (h.entry id k hk)
  rw [h.length]
  exact hlength

/-- Two entries with one promise are one entry. -/
theorem WellFormed.entry_unique {ids : List ℤ} {c : Client} (h : WellFormed ids c)
    {id id' : ℤ} {k : ℕ} (hk : c.peer.promises.lookup id = some k)
    (hk' : c.peer.promises.lookup id' = some k) : id = id' :=
  Option.some.inj ((h.entry id k hk).symm.trans (h.entry id' k hk'))

/-- Completing the promise of one entry leaves those of the others without a result. -/
theorem WellFormed.pending_set {ids : List ℤ} {c : Client} (h : WellFormed ids c)
    (hidle : c.handler = .idle) {id id' : ℤ} {promise k : ℕ}
    (hlookup : c.peer.promises.lookup id = some promise)
    (hempty : c.peer.states[promise]? = some .empty) (hid' : id' ≠ id)
    (hk : c.peer.promises.lookup id' = some k) (reply : Reply) :
    (c.peer.states.set promise (.ready reply))[k]? = some .empty := by
  rw [Store.getElem?_set_of_empty hempty, if_neg]
  · rcases h.pending id' k hk with hempty' | hfound
    · exact hempty'
    · rw [hidle] at hfound
      exact absurd hfound (by simp [Handler.found])
  · rintro rfl
    exact hid' (h.entry_unique hk hlookup)

theorem WellFormed.register (lib : JsonLibrary) {ids : List ℤ} {c : Client}
    (h : WellFormed ids c) (draw : Draw) (method : String) (data : Json) :
    WellFormed (ids ++ [draw.number]) { c with
      peer := (c.peer.enter draw.number).release c.held (c.peer.promises.lookup draw.number)
      requests := c.requests ++ [{ call := c.peer.registered draw method data }] } := by
  have hsteps : Steps lib c (.register draw method data) _ := .register draw method data
  have hold : ∀ {k : ℕ} {id : ℤ}, ids[k]? = some id → (ids ++ [draw.number])[k]? = some id := by
    intro k id hid
    obtain ⟨hk, -⟩ := List.getElem?_eq_some_iff.mp hid
    rw [List.getElem?_append_left hk]
    exact hid
  have hnew : (ids ++ [draw.number])[c.peer.states.length]? = some draw.number := by
    rw [h.length, List.getElem?_concat_length]
  have hlookup : ∀ id, ((c.peer.enter draw.number).release c.held
      (c.peer.promises.lookup draw.number)).promises.lookup id =
        if id = draw.number then some c.peer.states.length else c.peer.promises.lookup id := by
    intro id
    rw [Peer.release_promises]
    by_cases hid : id = draw.number
    · subst hid
      simp [Peer.enter]
    · simp [Peer.enter, Finmap.lookup_insert_of_ne _ hid, hid]
  constructor
  · rw [Peer.length_states_release, Peer.length_states_enter, h.length]
    simp
  · intro id k hk
    rw [hlookup] at hk
    split at hk
    next hid =>
      obtain rfl := Option.some.inj hk
      rw [hid]
      exact hnew
    next => exact hold (h.entry id k hk)
  · intro id k hk
    rw [hlookup] at hk
    split at hk
    next hid =>
      -- the promise just made is not the one that was replaced
      obtain rfl := Option.some.inj hk
      left
      rw [Peer.getElem?_states_release_of_ne, Peer.getElem?_states_enter, if_pos rfl]
      intro hreplaced
      exact Nat.lt_irrefl _ (h.lt_length hreplaced)
    next hid =>
      rcases h.pending id k hk with hempty | hfound
      · left
        rw [Peer.getElem?_states_release_of_ne, Peer.getElem?_states_enter,
          if_neg (Nat.ne_of_lt (h.lt_length hk)), hempty]
        intro hreplaced
        exact hid (h.entry_unique hk hreplaced)
      · exact Or.inr hfound
  · intro r hr
    rcases List.mem_append.mp hr with hr | hr
    · exact hold (h.call r hr)
    · obtain rfl := List.mem_singleton.mp hr
      exact hnew
  · intro id hid
    exact hsteps.completed (h.found id hid) [draw.number]
  · intro id hmem hnone
    rw [hlookup] at hnone
    split at hnone
    next => exact absurd hnone (by simp)
    next hid =>
      have hmem' : id ∈ ids := by
        rcases List.mem_append.mp hmem with hmem | hmem
        · exact hmem
        · exact absurd (List.mem_singleton.mp hmem) hid
      exact hsteps.completed (h.served id hmem' hnone) [draw.number]

theorem WellFormed.postSend (lib : JsonLibrary) {ids : List ℤ} {c : Client}
    (h : WellFormed ids c) {i : ℕ} {call : RequestCall}
    (hcall : c.requests[i]? = some ⟨call, true⟩) :
    WellFormed ids { c with
      peer := (c.peer.postSend call).returnRequest
        ((c.requests.eraseIdx i).map fun r => r.call.promise) call
      requests := c.requests.eraseIdx i } := by
  have hsteps : Steps lib c (.postSend i) _ := .postSend i call hcall
  have hid : ids[call.promise]? = some call.id :=
    h.call ⟨call, true⟩ (List.mem_of_getElem? hcall)
  constructor
  · rw [Peer.length_states_returnRequest]
    exact h.length
  · intro id k hk
    rw [Peer.promises_returnRequest] at hk
    exact h.entry id k hk
  · intro id k hk
    rw [Peer.promises_returnRequest] at hk
    rcases h.pending id k hk with hempty | hfound
    · left
      unfold Peer.returnRequest
      split
      next => exact hempty
      next hreplaced =>
        rw [Peer.getElem?_states_release_of_ne]
        · exact hempty
        · intro hsame
          -- the returning call's own entry would then be this one
          obtain rfl := Option.some.inj hsame
          obtain rfl := Option.some.inj (hid.symm.trans (h.entry id call.promise hk))
          exact hreplaced hk
    · exact Or.inr hfound
  · intro r hr
    exact h.call r (List.mem_of_mem_eraseIdx hr)
  · intro id hfound
    simpa using hsteps.completed (h.found id hfound) []
  · intro id hmem hnone
    rw [Peer.promises_returnRequest] at hnone
    simpa using hsteps.completed (h.served id hmem hnone) []

/-- Completing the promise of an entry: `c'` is inside `handleResponse` or inside the
closure of a timeout for it. -/
theorem WellFormed.complete {lib : JsonLibrary} {ids : List ℤ} {c c' : Client} {e : ClientEvent}
    (h : WellFormed ids c) (hsteps : Steps lib c e c') (hidle : c.handler = .idle) {id : ℤ}
    {promise : ℕ} {reply : Reply} (hlookup : c.peer.promises.lookup id = some promise)
    (hempty : c.peer.states[promise]? = some .empty) (hne : reply ≠ .error .brokenPromise)
    (hpromises : c'.peer.promises = c.peer.promises)
    (hstates : c'.peer.states = c.peer.states.set promise (.ready reply))
    (hrequests : c'.requests = c.requests) (hfound : c'.handler.found = some id) :
    WellFormed ids c' := by
  constructor
  · rw [hstates, List.length_set]
    exact h.length
  · rw [hpromises]
    exact h.entry
  · intro id' k hk
    rw [hpromises] at hk
    by_cases hid' : id' = id
    · exact Or.inr (hid' ▸ hfound)
    · rw [hstates]
      exact Or.inl (h.pending_set hidle hlookup hempty hid' hk reply)
  · rw [hrequests]
    exact h.call
  · intro id' hfound'
    obtain rfl := Option.some.inj (hfound.symm.trans hfound')
    refine ⟨promise, h.entry id promise hlookup, reply, ?_, hne⟩
    rw [hstates, Store.getElem?_set_of_empty hempty, if_pos rfl]
  · intro id' hmem hnone
    rw [hpromises] at hnone
    simpa using hsteps.completed (h.served id' hmem hnone) []

/-- Erasing the entry whose promise was completed. -/
theorem WellFormed.erase {lib : JsonLibrary} {ids : List ℤ} {c c' : Client} {id : ℤ}
    (h : WellFormed ids c) (hsteps : Steps lib c .erase c') (hfound : c.handler.found = some id)
    (hpromises : c'.peer.promises = c.peer.promises.erase id)
    (hstates : c'.peer.states = (c.peer.release c.held (c.peer.promises.lookup id)).states)
    (hrequests : c'.requests = c.requests) (hidle : c'.handler = .idle) :
    WellFormed ids c' := by
  have hlookup : ∀ {id' k}, c'.peer.promises.lookup id' = some k →
      id' ≠ id ∧ c.peer.promises.lookup id' = some k := by
    intro id' k hk
    rw [hpromises] at hk
    by_cases hid' : id' = id
    · subst hid'
      simp at hk
    · rw [Finmap.lookup_erase_ne hid'] at hk
      exact ⟨hid', hk⟩
  constructor
  · rw [hstates, Peer.length_states_release]
    exact h.length
  · intro id' k hk
    exact h.entry id' k (hlookup hk).2
  · intro id' k hk
    obtain ⟨hid', hold⟩ := hlookup hk
    left
    rw [hstates, Peer.getElem?_states_release_of_ne]
    · rcases h.pending id' k hold with hempty | hfound'
      · exact hempty
      · exact absurd (Option.some.inj (hfound'.symm.trans hfound)) hid'
    · exact fun herased => hid' (h.entry_unique hold herased)
  · rw [hrequests]
    exact h.call
  · intro id' hfound'
    rw [hidle] at hfound'
    exact absurd hfound' (by simp [Handler.found])
  · intro id' hmem hnone
    by_cases hid' : id' = id
    · subst hid'
      simpa using hsteps.completed (h.found id' hfound) []
    · rw [hpromises, Finmap.lookup_erase_ne hid'] at hnone
      simpa using hsteps.completed (h.served id' hmem hnone) []

/-- A call that posts its timeout is the same call. -/
theorem map_call_set {requests : List CallInProgress} {i : ℕ} {call : RequestCall}
    {posted : Bool} (h : requests[i]? = some ⟨call, posted⟩) (posted' : Bool) :
    (requests.set i ⟨call, posted'⟩).map CallInProgress.call =
      requests.map CallInProgress.call := by
  obtain ⟨hi, hget⟩ := List.getElem?_eq_some_iff.mp h
  rw [List.map_set]
  apply List.ext_getElem?
  intro j
  rw [List.getElem?_set]
  split
  next hij =>
    subst hij
    simp [hi, hget]
  next => rfl

/-- Every step keeps the client well formed for the ids it has registered. -/
theorem WellFormed.step {lib : JsonLibrary} {ids : List ℤ} {c c' : Client} {e : ClientEvent}
    (h : WellFormed ids c) (hstep : step lib c e = some c') :
    WellFormed (ids ++ e.newIds) c' := by
  have hsteps := steps_of_step hstep
  by_cases hregister : ∃ draw method data, e = .register draw method data
  · obtain ⟨draw, method, data, rfl⟩ := hregister
    cases hsteps with
    | register => exact h.register lib draw method data
  · have hnil : e.newIds = [] := by
      cases e with
      | register draw method data => exact absurd ⟨draw, method, data, rfl⟩ hregister
      | _ => rfl
    rw [hnil, List.append_nil]
    cases hsteps with
    | register draw method data => exact absurd ⟨draw, method, data, rfl⟩ hregister
    | postTimeout i call hcall => exact h.congr rfl rfl (map_call_set hcall true) rfl
    | postSend i call hcall => exact h.postSend lib hcall
    | notify | accept | reject => exact h.congr rfl rfl rfl rfl
    | receive chunk final handled c' hidle hphase hreceived =>
        cases hreceived with
        | buffered => exact h.congr rfl rfl rfl rfl
        | completed message id promise calls hparse hresponse hid hlookup hempty =>
            exact h.complete (steps_of_step hstep) hidle hlookup hempty
              (Peer.replyOf_ne_brokenPromise message) rfl rfl rfl rfl
    | postCancel id hhandler =>
        have hfound : c.handler.found = some id := congrArg Handler.found hhandler
        exact h.congr rfl rfl rfl hfound.symm
    | erase id hhandler | eraseTimedOut id hhandler =>
        exact h.erase (steps_of_step hstep) (congrArg Handler.found hhandler)
          (Peer.promises_eraseEntry _ _ _) (Peer.states_eraseEntry _ _ _) rfl rfl
    | timerIgnored => exact h.congr rfl rfl rfl rfl
    | timeout id promise hidle hphase hsul htask hlookup hempty =>
        exact h.complete (steps_of_step hstep) hidle hlookup hempty (by simp) rfl rfl rfl rfl
    | destroy | service => exact h.congr rfl rfl rfl rfl

/-- Outside `handleResponse` and the closure of a timeout a promise that has an entry has
no result. -/
theorem empty_of_lookup {lib : JsonLibrary} {events : List ClientEvent} {c : Client}
    (hrun : Run (step lib) AnyStep {} events c) (hidle : c.handler = .idle) {id : ℤ} {k : ℕ}
    (hlookup : c.peer.promises.lookup id = some k) : c.peer.states[k]? = some .empty := by
  obtain ⟨ids, hformed⟩ : ∃ ids, c.WellFormed ids :=
    hrun.invariant (I := fun c => ∃ ids, c.WellFormed ids) ⟨[], wellFormed_init⟩
      fun ⟨ids, h⟩ _ hstep => ⟨_, h.step hstep⟩
  rcases hformed.pending id k hlookup with hempty | hfound
  · exact hempty
  · rw [hidle] at hfound
    exact absurd hfound (by simp [Handler.found])

end Client

end Protoo
