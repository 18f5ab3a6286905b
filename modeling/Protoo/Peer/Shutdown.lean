import Protoo.Peer.Invariant
import Protoo.Peer.Timeout
import Protoo.Support.Fate
import Protoo.Support.Record

/-!
# Pending requests at the end of the service loop

Only callbacks of the service loop complete promises, and nothing completes the
pending ones when the loop ends.  `exchanges` are the events of a run that matter
here, the requests and the ends of their handling by the service thread.  They
decide which ids are in the map (`mem_promises_iff`), so nobody is left waiting
exactly when the loop is left with every request concluded and none is issued
afterwards; otherwise the promise stays pending in every continuation
(`waits_forever`).
-/

namespace Protoo

open Protoo.Support

/-- A request is issued under an id, or the service thread comes to the end of the
handling of a response with the id, or of its timeout. -/
inductive Exchange where
  | issued (id : ℤ)
  | concluded (id : ℤ)

/-- A request waits until the next exchange of its id. -/
def Exchange.semantics : Semantics Exchange ℤ Unit where
  concerns
    | .issued id => id
    | .concluded id => id
  settles _ := ()
  opens
    | .issued _ => true
    | .concluded _ => false

namespace Client

/-- Once the service thread has left its loop, no promise is in the map. -/
def NobodyWaits (c : Client) : Prop :=
  c.phase = .exited → c.peer.promises = ∅

def exchange (c : Client) : ClientEvent → List Exchange
  | .register draw _ _ => [.issued draw.number]
  | .erase => c.handler.found.toList.map .concluded
  | _ => []

def exchanges (lib : JsonLibrary) (events : List ClientEvent) : List Exchange :=
  record (step lib) (fun c e _ => c.exchange e) {} events

/-- The service thread leaves its loop. -/
def LeavesLoop (c : Client) : ClientEvent → Prop
  | .service (.start true) => c.peer.transport.keepsRunning = false
  | .service .loop => c.peer.transport.keepsRunning = false
  | _ => False

/-- When the loop is left, the last request under every id has been concluded, and no
request is issued afterwards. -/
def ConcludedBeforeExit (lib : JsonLibrary) (events : List ClientEvent) : Prop :=
  ∀ before e after c, events = before ++ e :: after → Run (step lib) AnyStep {} before c →
    c.LeavesLoop e →
    (∀ id, ¬Exchange.semantics.Pending id (exchanges lib before)) ∧
      ∀ e' ∈ after, e'.newIds = []

/-! ## The entries of the map -/

/-- A step that enters no id. -/
theorem Steps.promises_eq_empty {lib : JsonLibrary} {c c' : Client} {e : ClientEvent}
    (h : Steps lib c e c') (hnew : e.newIds = []) (hempty : c.peer.promises = ∅) :
    c'.peer.promises = ∅ := by
  have herase : ∀ id, c.peer.promises.erase id = ∅ := by
    intro id
    apply Finmap.ext_lookup
    intro id'
    by_cases hid : id' = id
    · subst hid
      simp
    · rw [Finmap.lookup_erase_ne hid, hempty]
  cases h with
  | register => simp [ClientEvent.newIds] at hnew
  | postSend => rw [Peer.promises_returnRequest, ← hempty]; rfl
  | receive chunk final handled c' hidle hphase hreceived =>
      cases hreceived with
      | buffered => exact hempty
      | completed => exact hempty
  | erase id =>
      have hpromises : (c.peer.eraseEntry c.held id).promises = ∅ := by
        rw [Peer.promises_eraseEntry, herase]
      exact hpromises
  | eraseTimedOut id => rw [Peer.promises_eraseEntry, herase]
  | _ => exact hempty

/-- A step changes the entries as its exchanges say. -/
theorem Steps.mem_promises {lib : JsonLibrary} {c c' : Client} {e : ClientEvent}
    (h : Steps lib c e c') {earlier : List Exchange} {id : ℤ}
    (hentries : id ∈ c.peer.promises ↔ Exchange.semantics.Pending id earlier) :
    id ∈ c'.peer.promises ↔ Exchange.semantics.Pending id (earlier ++ c.exchange e) := by
  have hsame : id ∈ c.peer.promises ↔ Exchange.semantics.Pending id (earlier ++ []) := by
    rw [List.append_nil]
    exact hentries
  cases h with
  | register draw method data =>
      rw [exchange, Semantics.pending_concat, ← hentries, Peer.release_promises, Peer.enter,
        Finmap.mem_insert]
      by_cases hid : id = draw.number
      · simp [Exchange.semantics, hid]
      · simp [Exchange.semantics, hid]
  | erase id' hhandler | eraseTimedOut id' hhandler =>
      have hexchange : c.exchange .erase = [.concluded id'] := by
        simp [exchange, hhandler, Handler.found]
      have herased : id ∈ (c.peer.eraseEntry c.held id').promises ↔
          id ∈ c.peer.promises ∧ id ≠ id' := by
        rw [Peer.promises_eraseEntry, Finmap.mem_erase, and_comm]
      rw [hexchange, Semantics.pending_concat, ← hentries]
      refine herased.trans ?_
      simp [Exchange.semantics]
  | postSend i call hcall =>
      rw [Peer.promises_returnRequest]
      exact hsame
  | receive chunk final handled c' hidle hphase hreceived =>
      cases hreceived with
      | buffered => exact hsame
      | completed => exact hsame
  | _ => exact hsame

/-- The entries of the map are the requests that have not been concluded. -/
theorem mem_promises_iff {lib : JsonLibrary} {events : List ClientEvent} {c : Client}
    (hrun : Run (step lib) AnyStep {} events c) (id : ℤ) :
    id ∈ c.peer.promises ↔ Exchange.semantics.Pending id (exchanges lib events) := by
  induction hrun with
  | nil => exact iff_of_false Finmap.notMem_empty List.not_mem_nil
  | snoc hrun _ hstep ih =>
      unfold exchanges
      rw [hrun.record_snoc hstep]
      exact (steps_of_step hstep).mem_promises ih

/-! ## The end of the loop -/

theorem Steps.exited {lib : JsonLibrary} {c c' : Client} {e : ClientEvent}
    (h : Steps lib c e c') (hexited : c.phase = .exited) : c'.phase = .exited := by
  cases h with
  | receive chunk final handled c' hidle hphase hreceived =>
      exact Phase.noConfusion (hphase.symm.trans hexited)
  | service e s hidle hown hservice => exact absurd hexited (hservice.not_exited hown)
  | _ => exact hexited

/-- A step after which the loop has ended has left it, or found it ended. -/
theorem Steps.leavesLoop {lib : JsonLibrary} {c c' : Client} {e : ClientEvent}
    (h : Steps lib c e c') (hexited : c'.phase = .exited) :
    c.phase = .exited ∨ c.LeavesLoop e := by
  cases h with
  | receive chunk final handled c' hidle hphase hreceived =>
      cases hreceived with
      | buffered => exact Or.inl hexited
      | completed => exact Or.inl hexited
  | service e s hidle hown hservice =>
      obtain ⟨rfl | rfl, hstop⟩ := hservice.of_exited hown hexited
      · exact Or.inr hstop
      · exact Or.inr hstop
  | _ => exact Or.inl hexited

/-- Leaving the loop ends it, and enters nothing in the map. -/
theorem LeavesLoop.step {lib : JsonLibrary} {c c' : Client} {e : ClientEvent}
    (h : c.LeavesLoop e) (hstep : step lib c e = some c') :
    c'.phase = .exited ∧ c'.peer.promises = c.peer.promises := by
  cases steps_of_step hstep with
  | service e s hidle hown hservice =>
      refine ⟨?_, rfl⟩
      cases hservice with
      | start created =>
          cases created with
          | false => exact h.elim
          | true =>
              change (Service.start true c.service).phase = .exited
              unfold Service.start
              rw [if_pos rfl, Service.phase_loopTest, if_neg]
              exact ne_true_of_eq_false h
      | loop =>
          change (Service.loopTest c.service).phase = .exited
          rw [Service.phase_loopTest, if_neg]
          exact ne_true_of_eq_false h
      | _ => exact h.elim
  | _ => exact h.elim

/-- If the loop has ended, some step has left it. -/
theorem exists_leavesLoop {lib : JsonLibrary} {events : List ClientEvent} {c : Client}
    (hrun : Run (step lib) AnyStep {} events c) (hexited : c.phase = .exited) :
    ∃ before e after mid, events = before ++ e :: after ∧
      Run (step lib) AnyStep {} before mid ∧ mid.LeavesLoop e := by
  induction hrun with
  | nil => exact Phase.noConfusion hexited
  | @snoc events c c' e hrun _ hstep ih =>
      rcases (steps_of_step hstep).leavesLoop hexited with hold | hleaves
      · obtain ⟨before, e', after, mid, rfl, hbefore, hleaves⟩ := ih hold
        exact ⟨before, e', after ++ [e], mid, by simp, hbefore, hleaves⟩
      · exact ⟨events, e, [], c, rfl, hrun, hleaves⟩

/-- Whoever issues a request after the loop has ended waits. -/
theorem newIds_eq_nil_of_nobodyWaits {lib : JsonLibrary} {c c' : Client} {e : ClientEvent}
    (hstep : step lib c e = some c') (hexited : c.phase = .exited) (h : c'.NobodyWaits) :
    e.newIds = [] := by
  have hsteps := steps_of_step hstep
  have hempty := h (hsteps.exited hexited)
  cases hsteps with
  | register draw method data =>
      have hentered : draw.number ∈ (((c.peer.enter draw.number).release c.held
          (c.peer.promises.lookup draw.number)).promises) := by
        rw [Peer.release_promises]
        simp [Peer.enter]
      rw [hempty] at hentered
      exact absurd hentered Finmap.notMem_empty
  | _ => rfl

/-- With nobody waiting, what the loop leaves and what comes after it is concluded. -/
theorem concludedBeforeExit_of_nobodyWaits {lib : JsonLibrary} {events : List ClientEvent}
    {c : Client} (hrun : Run (step lib) AnyStep {} events c)
    (h : Throughout (step lib) {} events NobodyWaits) : ConcludedBeforeExit lib events := by
  rintro before e after mid rfl hbefore hleaves
  obtain ⟨mid', hbefore', hrest⟩ := hrun.split
  obtain rfl := hbefore.unique hbefore'
  obtain ⟨left, hleft, hafter⟩ := hrest.uncons
  have hsoFar : Run (step lib) AnyStep {} (before ++ [e]) left := hbefore.snoc trivial hleft
  obtain ⟨hexited, hpromises⟩ := hleaves.step hleft
  constructor
  · intro id hpending
    have hempty := h _ left (by simp) hsoFar hexited
    rw [← mem_promises_iff hbefore, ← hpromises, hempty] at hpending
    exact Finmap.notMem_empty hpending
  · intro e' he'
    obtain ⟨first, last, rfl⟩ := List.append_of_mem he'
    obtain ⟨next, hfirst, hlast⟩ := hafter.split
    obtain ⟨next', hnext, -⟩ := hlast.uncons
    have hexited' : next.phase = .exited :=
      hfirst.invariant (I := fun c => c.phase = .exited) hexited
        fun hexited _ hstep => (steps_of_step hstep).exited hexited
    apply newIds_eq_nil_of_nobodyWaits hnext hexited'
    refine h (before ++ e :: (first ++ [e'])) _ ?_ ?_
    · exact ⟨last, by simp⟩
    · have hall := (hsoFar.append hfirst).snoc (e := e') trivial hnext
      simpa using hall

/-- What is concluded when the loop is left stays so. -/
theorem nobodyWaits_of_concludedBeforeExit {lib : JsonLibrary} {events : List ClientEvent}
    {c : Client} (hrun : Run (step lib) AnyStep {} events c)
    (h : ConcludedBeforeExit lib events) : c.NobodyWaits := by
  intro hexited
  obtain ⟨before, e, after, mid, rfl, hbefore, hleaves⟩ := exists_leavesLoop hrun hexited
  obtain ⟨hconcluded, hnone⟩ := h before e after mid rfl hbefore hleaves
  obtain ⟨mid', hbefore', hrest⟩ := hrun.split
  obtain rfl := hbefore.unique hbefore'
  obtain ⟨left, hleft, hafter⟩ := hrest.uncons
  have hempty : left.peer.promises = ∅ := by
    apply Finmap.ext_lookup
    intro id
    rw [(hleaves.step hleft).2, Finmap.lookup_empty, Finmap.lookup_eq_none,
      mem_promises_iff hbefore]
    exact hconcluded id
  have hquiet : Run (step lib) (fun _ e => e.newIds = []) left after c :=
    hafter.of_forall fun e' he' _ => hnone e' he'
  exact hquiet.invariant (I := fun c => c.peer.promises = ∅) hempty
    fun hempty hnew hstep => (steps_of_step hstep).promises_eq_empty hnew hempty

/-- Nobody is left waiting exactly when every request is concluded before the loop is
left and none is issued afterwards. -/
theorem nobodyWaits_iff {lib : JsonLibrary} {events : List ClientEvent} {c : Client}
    (hrun : Run (step lib) AnyStep {} events c) :
    Throughout (step lib) {} events NobodyWaits ↔ ConcludedBeforeExit lib events := by
  constructor
  · exact concludedBeforeExit_of_nobodyWaits hrun
  · intro h before mid hprefix hmid
    obtain ⟨later, rfl⟩ := hprefix
    apply nobodyWaits_of_concludedBeforeExit hmid
    rintro first e after c' rfl hfirst hleaves
    obtain ⟨hconcluded, hnone⟩ := h first e (after ++ later) c' (by simp) hfirst hleaves
    exact ⟨hconcluded, fun e' he' => hnone e' (List.mem_append_left _ he')⟩

/-! ## What a pending request then waits for -/

/-- The service thread has left its loop and `k` is pending under `id`. -/
structure WaitsAfterExit (id : ℤ) (k : ℕ) (ids : List ℤ) (c : Client) : Prop where
  wellFormed : WellFormed ids c
  exited : c.phase = .exited
  idle : c.handler = .idle
  entry : c.peer.promises.lookup id = some k
  empty : c.peer.states[k]? = some .empty

/-- Only another registration of the same id can still change the promise. -/
theorem WaitsAfterExit.step {lib : JsonLibrary} {id : ℤ} {k : ℕ} {ids : List ℤ} {c c' : Client}
    {e : ClientEvent} (h : WaitsAfterExit id k ids c) (hnew : id ∉ e.newIds)
    (hstep : step lib c e = some c') : WaitsAfterExit id k (ids ++ e.newIds) c' := by
  have hwell := h.wellFormed.step hstep
  have hnotInService : c.phase ≠ .inService := by simp [h.exited]
  have hnotFound : ∀ id', c.handler.found ≠ some id' := by simp [h.idle, Handler.found]
  cases steps_of_step hstep with
  | register draw method data =>
      have hne : id ≠ draw.number := by simpa [ClientEvent.newIds] using hnew
      refine ⟨hwell, h.exited, h.idle, ?_, ?_⟩
      · rw [Peer.release_promises]
        simpa [Peer.enter, Finmap.lookup_insert_of_ne _ hne] using h.entry
      · rw [Peer.getElem?_states_release_of_ne, Peer.getElem?_states_enter,
          if_neg (Nat.ne_of_lt (h.wellFormed.lt_length h.entry))]
        · exact h.empty
        · exact fun hreplaced => hne (h.wellFormed.entry_unique h.entry hreplaced)
  | postSend i call hcall =>
      refine ⟨hwell, h.exited, h.idle, ?_, ?_⟩
      · rw [Peer.promises_returnRequest]
        exact h.entry
      · unfold Peer.returnRequest
        split
        next => exact h.empty
        next hreplaced =>
          rw [Peer.getElem?_states_release_of_ne]
          · exact h.empty
          · intro hsame
            obtain rfl := Option.some.inj hsame
            have hid := h.wellFormed.call ⟨call, true⟩ (List.mem_of_getElem? hcall)
            have hsame := hid.symm.trans (h.wellFormed.entry id call.promise h.entry)
            exact hreplaced (Option.some.inj hsame ▸ h.entry)
  | postTimeout | notify | accept | reject | destroy =>
      exact ⟨hwell, h.exited, h.idle, h.entry, h.empty⟩
  | receive _ _ _ _ _ hphase | timerIgnored _ hphase | timeout _ _ _ hphase =>
      exact absurd hphase hnotInService
  | postCancel id' hhandler | erase id' hhandler | eraseTimedOut id' hhandler =>
      exact absurd (congrArg Handler.found hhandler) (hnotFound id')
  | service e s hidle hown hservice => exact absurd h.exited (hservice.not_exited hown)

/-- In every continuation without another registration of the id, the promise
stays pending and its future never becomes ready. -/
theorem waits_forever {lib : JsonLibrary} {id : ℤ} {k : ℕ} {ids : List ℤ} {c c' : Client}
    {events : List ClientEvent} (h : WaitsAfterExit id k ids c)
    (hrun : Run (step lib) (fun _ e => id ∉ e.newIds) c events c') :
    ∃ ids', WaitsAfterExit id k ids' c' := by
  apply hrun.invariant ⟨ids, h⟩
  rintro c c' e ⟨ids, h⟩ hnew hstep
  exact ⟨_, h.step hnew hstep⟩

/-- A request is written, and the server closes the connection before it answers. -/
def closedByServerRun : List ClientEvent :=
  [.service (.start true), .service (.connect .handle), .service .established,
    .register firstDraw "a" .null, .postTimeout 0, .postSend 0, .service (.serviceReturn 0),
    .service .runTask, .service .runTask, .service .loop, .service .writeable,
    .service .peerInitiatedClose, .service (.serviceReturn 0), .service .loop]

theorem nobodyWaits_iff_closedByServer :
    ∃ c, Run (step requestLibrary) AnyStep {} closedByServerRun c ∧
      (Throughout (step requestLibrary) {} closedByServerRun NobodyWaits ↔
        ConcludedBeforeExit requestLibrary closedByServerRun) := by
  have hrun : closedByServerRun.foldlM (step requestLibrary) ({} : Client) = some _ := rfl
  exact ⟨_, run_of_foldlM hrun, nobodyWaits_iff (run_of_foldlM hrun)⟩

/-- The loop has ended and the request is still in the map. -/
theorem request_waits_after_close :
    ¬ Throughout (step requestLibrary) ({} : Client) closedByServerRun NobodyWaits := by
  intro h
  have hrun : closedByServerRun.foldlM (step requestLibrary) ({} : Client) = some _ := rfl
  have hempty := h.of_run (run_of_foldlM hrun) rfl
  have hmem : (1 : ℤ) ∈ (∅ : Finmap (fun _ : ℤ => ℕ)) := hempty ▸ (by decide)
  exact Finmap.notMem_empty hmem

end Client

end Protoo
