import Protoo.Peer.Specification
import Protoo.Support.Fate

/-!
# Completion of requests

The events of this module are the registrations, the accepted responses and the
firings of timers, each run without interruption, in any order and number.  The
reference for them is `PeerEvent.semantics`: the first later event that concerns
the id of a request decides it.  `Refines` relates a peer to the table of the
reference, every event keeps it, and so a peer completes every request as the
reference says, never gives a promise a second result and never throws.
-/

namespace Protoo

open Protoo.Support

/-- A text that `Message::parse` accepts as a response. -/
structure ResponseText (lib : JsonLibrary) where
  raw : String
  message : Json
  accepted : Message.parse lib raw = .ok message
  isResponse : (message.field "response").isBoolean = true

inductive PeerEvent (lib : JsonLibrary) where
  | request (draw : Draw) (method : String) (data : Json)
  | response (text : ResponseText lib)
  | timeout (id : ℤ)

variable {lib : JsonLibrary}

/-- The id of an accepted response is an integer. -/
def ResponseText.id (text : ResponseText lib) : ℤ :=
  match text.message.field "id" with
  | .integer id => id
  | _ => 0

/-- What an event does to the request pending under its id: a response gives its
data or the response error, a timer the timeout error, and another registration
destroys the promise. -/
def PeerEvent.semantics : Semantics (PeerEvent lib) ℤ Reply where
  concerns
    | .request draw _ _ => draw.number
    | .response text => text.id
    | .timeout id => id
  settles
    | .request _ _ _ => .error .brokenPromise
    | .response text => Peer.replyOf text.message
    | .timeout _ => .error (.runtimeError "request timeout")
  opens
    | .request _ _ _ => true
    | .response _ => false
    | .timeout _ => false

namespace Peer

/-- One event, run without interruption. -/
def react (p : Peer) : PeerEvent lib → Except Exception Peer
  | .request draw method data => do
      let (_, p) ← p.request draw method data
      return p
  | .response text => do
      let message ← Message.parse lib text.raw
      match ← onMessage message with
      | .response response => p.handleResponse response
      | _ => return p
  | .timeout id => p.onTimeout id

def run (events : List (PeerEvent lib)) : Except Exception Peer :=
  events.foldlM react {}

/-- The peer holds the promises of the table, and its map the undecided ones. -/
structure Refines (p : Peer) (table : List (ℤ × SharedState Reply)) : Prop where
  states : p.states = table.map Prod.snd
  pending : ∀ id k, p.promises.lookup id = some k ↔ table[k]? = some (id, .empty)

theorem Refines.getElem?_states {p : Peer} {table : List (ℤ × SharedState Reply)}
    (h : Refines p table) (k : ℕ) : p.states[k]? = table[k]?.map Prod.snd := by
  rw [h.states, List.getElem?_map]

theorem Refines.unsatisfied {p : Peer} {table : List (ℤ × SharedState Reply)}
    (h : Refines p table) {id : ℤ} {k : ℕ} (hk : p.promises.lookup id = some k) :
    p.states[k]? = some .empty := by
  rw [h.getElem?_states, (h.pending id k).mp hk]
  rfl

/-! ## The two ways a request is decided -/

/-- The entry of an id is removed once its promise has a result. -/
theorem eraseEntry_of_ready {p : Peer} {id : ℤ} {k : ℕ} {reply : Reply}
    (hk : p.promises.lookup id = some k) (hready : p.states[k]? = some (.ready reply)) :
    p.eraseEntry [] id = { p with promises := p.promises.erase id } := by
  simp [eraseEntry, hk, release, Store.abandon_of_ready hready]

theorem Refines.congr {p q : Peer} {table : List (ℤ × SharedState Reply)}
    (h : Refines p table) (hpromises : q.promises = p.promises)
    (hstates : q.states = p.states) : Refines q table where
  states := hstates.trans h.states
  pending := by
    rw [hpromises]
    exact h.pending

/-- Without an entry of its id a response or a timer decides nothing. -/
theorem Refines.advance_of_lookup_eq_none {p : Peer} {table : List (ℤ × SharedState Reply)}
    (h : Refines p table) {e : PeerEvent lib} (hopens : PeerEvent.semantics.opens e = false)
    (hnone : p.promises.lookup (PeerEvent.semantics.concerns e) = none) :
    PeerEvent.semantics.advance e table = table := by
  have hmap : table.map (PeerEvent.semantics.settle e) = table := by
    apply Semantics.map_settle_of_no_pending
    intro k hk
    rw [(h.pending _ k).mpr hk] at hnone
    exact Option.some_ne_none k hnone
  simp [Semantics.advance, hmap, hopens]

/-- The states after an event has decided the entry `k` of its id. -/
theorem Refines.set_ready {p : Peer} {table : List (ℤ × SharedState Reply)}
    (h : Refines p table) {e : PeerEvent lib} {k : ℕ}
    (hk : p.promises.lookup (PeerEvent.semantics.concerns e) = some k) :
    (table.map (PeerEvent.semantics.settle e)).map Prod.snd =
      p.states.set k (.ready (PeerEvent.semantics.settles e)) := by
  rw [h.states]
  apply Semantics.map_settle_of_pending ((h.pending _ k).mp hk)
  intro j hj
  have hj' := (h.pending _ j).mpr hj
  rw [hk] at hj'
  exact (Option.some.inj hj').symm

/-- With an entry of its id, a response or a timer gives the promise its result
and erases the entry. -/
theorem Refines.complete {p : Peer} {table : List (ℤ × SharedState Reply)}
    (h : Refines p table) {e : PeerEvent lib} (hopens : PeerEvent.semantics.opens e = false)
    {k : ℕ} (hk : p.promises.lookup (PeerEvent.semantics.concerns e) = some k) :
    ∃ states, Store.satisfy k (PeerEvent.semantics.settles e) p.states = some states ∧
      Refines (({ p with states }).eraseEntry [] (PeerEvent.semantics.concerns e))
        (PeerEvent.semantics.advance e table) := by
  have hempty : p.states[k]? = some .empty := h.unsatisfied hk
  refine ⟨_, Store.satisfy_eq_some_iff.mpr ⟨hempty, rfl⟩, ?_⟩
  have hready : (p.states.set k (.ready (PeerEvent.semantics.settles e)))[k]? =
      some (.ready (PeerEvent.semantics.settles e)) := by
    obtain ⟨hlength, -⟩ := List.getElem?_eq_some_iff.mp hempty
    exact List.getElem?_set_self hlength
  rw [eraseEntry_of_ready (p := { p with
    states := p.states.set k (.ready (PeerEvent.semantics.settles e)) }) hk hready]
  constructor
  · simp [Semantics.advance, hopens, ← h.set_ready hk]
  · intro id j
    rw [Semantics.getElem?_advance_eq_empty_iff, ← h.pending id j]
    by_cases hid : id = PeerEvent.semantics.concerns e
    · subst hid
      simp [hopens]
    · simp [Finmap.lookup_erase_ne hid, hid, hopens]

/-! ## The events -/

theorem Refines.response {p : Peer} {table : List (ℤ × SharedState Reply)}
    (h : Refines p table) (text : ResponseText lib) :
    ∃ p', p.react (.response text) = .ok p' ∧
      Refines p' (PeerEvent.semantics.advance (.response text) table) := by
  obtain ⟨object, -, hdecode⟩ := exists_of_bind_eq_ok text.accepted
  obtain ⟨id, hid, hresponse, hrequest⟩ :=
    exists_isResponse_of_decode hdecode text.isResponse
  have hconcerns : PeerEvent.semantics.concerns (.response text) = id := by
    simp [PeerEvent.semantics, ResponseText.id, hid]
  have hread : IsResponse ((text.message.touch "request").touch "response") id :=
    (hresponse.touch (by decide)).touch (by decide)
  have hreact : p.react (.response text) =
      p.handleResponse ((text.message.touch "request").touch "response") := by
    simp [react, text.accepted, onMessage_eq hresponse.isIndexable, hrequest,
      text.isResponse]
  rw [hreact, handleResponse_eq hread]
  cases hlookup : p.promises.lookup id with
  | none =>
      refine ⟨p, rfl, ?_⟩
      rw [h.advance_of_lookup_eq_none rfl (hconcerns ▸ hlookup)]
      exact h
  | some k =>
      obtain ⟨states, hsatisfy, hrefines⟩ :=
        h.complete (e := .response text) rfl (hconcerns ▸ hlookup)
      have hsettles : PeerEvent.semantics.settles (.response text) =
          replyOf ((text.message.touch "request").touch "response") := by
        simp [PeerEvent.semantics]
      rw [hsettles] at hsatisfy
      rw [hconcerns] at hrefines
      refine ⟨({ p with states }).postCancel.eraseEntry [] id, by simp only [hsatisfy], ?_⟩
      refine hrefines.congr ?_ ?_
      · simp [eraseEntry, release_promises, postCancel]
      · simp [eraseEntry, release, postCancel, hlookup]

theorem Refines.timeout {p : Peer} {table : List (ℤ × SharedState Reply)}
    (h : Refines p table) (id : ℤ) :
    ∃ p', p.react (.timeout id : PeerEvent lib) = .ok p' ∧
      Refines p' (PeerEvent.semantics.advance (.timeout id : PeerEvent lib) table) := by
  have hreact : p.react (.timeout id : PeerEvent lib) = p.onTimeout id := rfl
  rw [hreact, onTimeout_eq]
  cases hlookup : p.promises.lookup id with
  | none =>
      refine ⟨p, rfl, ?_⟩
      rw [h.advance_of_lookup_eq_none (e := (.timeout id : PeerEvent lib)) rfl hlookup]
      exact h
  | some k =>
      obtain ⟨states, hsatisfy, hrefines⟩ :=
        h.complete (e := (.timeout id : PeerEvent lib)) rfl hlookup
      have hsatisfy' : Store.satisfy k (.error (.runtimeError "request timeout")) p.states =
          some states := hsatisfy
      exact ⟨({ p with states }).eraseEntry [] id, by simp only [hsatisfy'], hrefines⟩

/-- A registration settles the promise it replaces and appends its own. -/
theorem Refines.states_register {p : Peer} {table : List (ℤ × SharedState Reply)}
    (h : Refines p table) (draw : Draw) (method : String) (data : Json) :
    ((p.enter draw.number).release [] (p.promises.lookup draw.number)).states =
      (PeerEvent.semantics.advance (.request draw method data : PeerEvent lib) table).map
        Prod.snd := by
  have hadvance : PeerEvent.semantics.advance (.request draw method data : PeerEvent lib) table =
      table.map (PeerEvent.semantics.settle (.request draw method data : PeerEvent lib)) ++
        [(draw.number, .empty)] := rfl
  rw [hadvance, List.map_append]
  cases hlookup : p.promises.lookup draw.number with
  | none =>
      have hmap : table.map (PeerEvent.semantics.settle
          (.request draw method data : PeerEvent lib)) = table := by
        apply Semantics.map_settle_of_no_pending
        intro k hk
        have hk' := (h.pending draw.number k).mpr hk
        rw [hlookup] at hk'
        exact Option.some_ne_none k hk'.symm
      rw [hmap, ← h.states]
      rfl
  | some k =>
      have hk := h.unsatisfied hlookup
      obtain ⟨hlength, -⟩ := List.getElem?_eq_some_iff.mp hk
      have hempty : p.states.make[k]? = some .empty := by
        rw [Store.make, List.getElem?_append_left hlength, hk]
      have habandon : ((p.enter draw.number).release [] (some k)).states =
          p.states.make.set k (.ready (.error .brokenPromise)) :=
        Store.abandon_of_empty hempty _
      rw [habandon, h.set_ready (e := (.request draw method data : PeerEvent lib)) hlookup,
        Store.make, List.set_append_left _ _ hlength]
      rfl

theorem request_eq (draw : Draw) (method : String) (data : Json) (p : Peer) :
    p.request draw method data = .ok (p.states.length,
      (((p.enter draw.number).release [] (p.promises.lookup draw.number)).postTimeout
        (p.registered draw method data)).postSend (p.registered draw method data)) := by
  simp [request, register_eq, registered]

theorem Refines.request {p : Peer} {table : List (ℤ × SharedState Reply)}
    (h : Refines p table) (draw : Draw) (method : String) (data : Json) :
    ∃ p', p.react (.request draw method data : PeerEvent lib) = .ok p' ∧
      Refines p'
        (PeerEvent.semantics.advance (.request draw method data : PeerEvent lib) table) := by
  have hlength : p.states.length = table.length := by rw [h.states, List.length_map]
  refine ⟨_, by simp only [react, request_eq]; rfl, ?_⟩
  suffices hentered : Refines
      ((p.enter draw.number).release [] (p.promises.lookup draw.number))
      (PeerEvent.semantics.advance (.request draw method data : PeerEvent lib) table) from
    hentered.congr rfl rfl
  constructor
  · exact h.states_register draw method data
  · intro id k
    rw [release_promises, Semantics.getElem?_advance_eq_empty_iff, ← h.pending id k]
    by_cases hid : id = draw.number
    · subst hid
      simp [enter, PeerEvent.semantics, hlength, eq_comm]
    · simp [enter, Finmap.lookup_insert_of_ne _ hid, PeerEvent.semantics, hid]

/-- Every event succeeds and advances the table. -/
theorem Refines.react {p : Peer} {table : List (ℤ × SharedState Reply)}
    (h : Refines p table) (e : PeerEvent lib) :
    ∃ p', p.react e = .ok p' ∧ Refines p' (PeerEvent.semantics.advance e table) := by
  cases e with
  | request draw method data => exact h.request draw method data
  | response text => exact h.response text
  | timeout id => exact h.timeout id

theorem run_concat (events : List (PeerEvent lib)) (e : PeerEvent lib) :
    run (events ++ [e]) = run events >>= fun p => p.react e := by
  unfold run
  rw [List.foldlM_append]
  cases List.foldlM react ({} : Peer) events with
  | error error => rfl
  | ok p => cases hreact : p.react e <;> simp [hreact]

/-- Every list of events leads to a peer that holds the table of the reference. -/
theorem exists_run_refines (events : List (PeerEvent lib)) :
    ∃ p, run events = .ok p ∧ Refines p (PeerEvent.semantics.outcomes events) := by
  induction events using List.reverseRecOn with
  | nil =>
      refine ⟨{}, rfl, rfl, ?_⟩
      intro id k
      simp [Semantics.outcomes]
  | append_singleton events e ih =>
      obtain ⟨p, hrun, hrefines⟩ := ih
      obtain ⟨p', hreact, hrefines'⟩ := hrefines.react e
      refine ⟨p', ?_, ?_⟩
      · rw [run_concat, hrun]
        exact hreact
      · rw [Semantics.outcomes_concat]
        exact hrefines'

/-! ## Whole runs -/

/-- What the events `events` have made of the peer `p`, and what any next event
does to it. -/
structure CompletesByReference (events : List (PeerEvent lib)) (p : Peer) : Prop where
  /-- The promise of a registration is entered under its id, has the fate that the
  later events decide, and is entered as long as none of them concerns the id. -/
  fate : ∀ before draw method data later,
    events = before ++ .request draw method data :: later →
      ∃ p₀ k p₁, run before = .ok p₀ ∧ p₀.request draw method data = .ok (k, p₁) ∧
        p₁.promises.lookup draw.number = some k ∧ p₁.states[k]? = some .empty ∧
        p.states[k]? = some (PeerEvent.semantics.fate draw.number later) ∧
        (p.promises.lookup draw.number = some k ↔
          ∀ e ∈ later, PeerEvent.semantics.concerns e ≠ draw.number)
  unsatisfied : ∀ id k, p.promises.lookup id = some k → p.states[k]? = some .empty
  /-- The next event does not throw.  It leaves the entries of other ids and the
  futures registered under them; it enters a new promise or leaves its id without
  an entry; and without an entry of its id, a response or a timer changes nothing. -/
  next : ∀ e : PeerEvent lib, ∃ p', p.react e = .ok p' ∧
    (∀ id, id ≠ PeerEvent.semantics.concerns e →
      p'.promises.lookup id = p.promises.lookup id) ∧
    (∀ (k : ℕ) id, (PeerEvent.semantics.outcomes events)[k]?.map Prod.fst = some id →
      id ≠ PeerEvent.semantics.concerns e → p'.states[k]? = p.states[k]?) ∧
    p'.promises.lookup (PeerEvent.semantics.concerns e) =
      (if PeerEvent.semantics.opens e then some p.states.length else none) ∧
    (PeerEvent.semantics.opens e = false →
      p.promises.lookup (PeerEvent.semantics.concerns e) = none →
        p'.promises = p.promises ∧ p'.states = p.states)

/-- An entry after one more event, for every other id and for the event's own. -/
theorem Refines.lookup_advance {p p' : Peer} {table : List (ℤ × SharedState Reply)}
    {e : PeerEvent lib} (h : Refines p table)
    (h' : Refines p' (PeerEvent.semantics.advance e table)) (id : ℤ) :
    p'.promises.lookup id =
      if id = PeerEvent.semantics.concerns e then
        if PeerEvent.semantics.opens e then some p.states.length else none
      else p.promises.lookup id := by
  have hlength : p.states.length = table.length := by rw [h.states, List.length_map]
  apply Option.ext
  intro k
  rw [h'.pending, Semantics.getElem?_advance_eq_empty_iff, ← h.pending]
  by_cases hid : id = PeerEvent.semantics.concerns e
  · by_cases hopens : PeerEvent.semantics.opens e = true
    · simp [hid, hopens, hlength, eq_comm]
    · simp [hid, hopens]
  · simp [hid]

theorem Refines.completesByReference {p : Peer} {events : List (PeerEvent lib)}
    (h : Refines p (PeerEvent.semantics.outcomes events)) : CompletesByReference events p where
  unsatisfied := fun _ _ => h.unsatisfied
  fate := by
    rintro before draw method data later rfl
    obtain ⟨p₀, hrun, hrefines⟩ := exists_run_refines before
    have hlength : p₀.states.length = (PeerEvent.semantics.outcomes before).length := by
      rw [hrefines.states, List.length_map]
    have hopening := Semantics.getElem?_outcomes_split (S := PeerEvent.semantics) before
      (e := (.request draw method data : PeerEvent lib)) later rfl
    obtain ⟨p₁, hreact, hrefines'⟩ :=
      hrefines.react (.request draw method data : PeerEvent lib)
    have hrequest : p₀.request draw method data = .ok (p₀.states.length, p₁) := by
      simp only [Peer.react, request_eq, except_ok_bind, except_pure,
        Except.ok.injEq] at hreact
      rw [request_eq, hreact]
    have hentry : p₁.promises.lookup draw.number = some p₀.states.length := by
      rw [hrefines.lookup_advance hrefines' draw.number]
      simp [PeerEvent.semantics]
    refine ⟨p₀, p₀.states.length, p₁, hrun, hrequest, hentry, hrefines'.unsatisfied hentry,
      ?_, ?_⟩
    · rw [h.getElem?_states, hlength, hopening]
      rfl
    · rw [h.pending, hlength, hopening, ← Semantics.fate_eq_empty_iff]
      simp [PeerEvent.semantics]
  next := by
    intro e
    obtain ⟨p', hreact, hrefines⟩ := h.react e
    refine ⟨p', hreact, ?_, ?_, ?_, ?_⟩
    · intro id hid
      rw [h.lookup_advance hrefines, if_neg hid]
    · intro k id hk hid
      rw [h.getElem?_states, hrefines.getElem?_states]
      obtain ⟨⟨i, state⟩, hopening, rfl⟩ := Option.map_eq_some_iff.mp hk
      rw [Semantics.getElem?_advance_of_ne hopening hid, hopening]
    · rw [h.lookup_advance hrefines, if_pos rfl]
    · intro hopens hnone
      constructor
      · apply Finmap.ext_lookup
        intro id
        rw [h.lookup_advance hrefines]
        split
        next hid => rw [hid, hnone, hopens, if_neg Bool.false_ne_true]
        next => rfl
      · rw [hrefines.states, h.states, h.advance_of_lookup_eq_none hopens hnone]

/-- Requests are completed as the reference says, whatever the events. -/
theorem run_completesByReference (events : List (PeerEvent lib)) :
    ∃ p, run events = .ok p ∧ CompletesByReference events p := by
  obtain ⟨p, hrun, hrefines⟩ := exists_run_refines events
  exact ⟨p, hrun, hrefines.completesByReference⟩

end Peer

end Protoo
