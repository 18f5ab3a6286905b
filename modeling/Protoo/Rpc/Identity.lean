import Protoo.Rpc.Safety
import Mathlib.Data.List.Nodup

/-!
# Request ids identify requests exactly when the draws do

Nothing compares a drawn id with the ids in use.  While the ids drawn in a run
are pairwise distinct, every promise stays in the map under its own id until it
is completed, and only its own response or its own timeout completes it.  With
two equal draws the second registration takes the first promise's place.
-/

namespace Protoo

open Protoo.Support

/-! ## Distinct ids in the client -/

theorem not_completed_of_empty {states : Store Reply} {k : ℕ}
    (h : states[k]? = some .empty) : ¬Completed states k := by
  rintro ⟨reply, hready, -⟩
  simp [h] at hready

namespace Client

/-- Every promise waits in `m_promises` under its own id until a response or a
timeout has completed it. -/
def PendingUntilCompleted (ids : List ℤ) (c : Client) : Prop :=
  ∀ k id, ids[k]? = some id →
    (c.peer.states[k]? = some .empty ∧ c.peer.promises.lookup id = some k) ∨
      Completed c.peer.states k

/-- With distinct ids the entry that `handleResponse` or the closure of a timeout has found
is the one of the promise it has completed. -/
theorem WellFormed.completed_of_found {ids : List ℤ} {c : Client} (h : WellFormed ids c)
    (hnodup : ids.Nodup) {k : ℕ} {id : ℤ} (hid : ids[k]? = some id)
    (hfound : c.handler.found = some id) : Completed c.peer.states k := by
  obtain ⟨k', hk', hcompleted⟩ := h.found id hfound
  obtain ⟨hlt, -⟩ := List.getElem?_eq_some_iff.mp hid
  obtain rfl := (List.getElem?_inj hlt hnodup).mp (hid.trans hk'.symm)
  exact hcompleted

/-- With distinct ids no event destroys a promise that has no result. -/
theorem PendingUntilCompleted.not_drops {ids : List ℤ} {c : Client} {e : ClientEvent}
    (h : PendingUntilCompleted ids c) (hformed : WellFormed ids c)
    (hnodup : (ids ++ e.newIds).Nodup) {k : ℕ} {id : ℤ} (hid : ids[k]? = some id)
    (hempty : c.peer.states[k]? = some .empty) : ¬c.Drops k e := by
  have hlookup : c.peer.promises.lookup id = some k :=
    ((h k id hid).resolve_right (not_completed_of_empty hempty)).2
  intro hdrops
  cases e with
  | register draw method data =>
      have hmem : draw.number ∈ ids :=
        List.mem_of_getElem? (hformed.entry draw.number k hdrops)
      exact (List.nodup_append.mp hnodup).2.2 _ hmem _ (List.mem_singleton_self _) rfl
  | postSend i =>
      obtain ⟨call, hcall, rfl, hne⟩ := hdrops
      have hcallId := hformed.call ⟨call, true⟩ (List.mem_of_getElem? hcall)
      obtain rfl := Option.some.inj (hid.symm.trans hcallId)
      exact hne hlookup
  | erase =>
      obtain ⟨id', hfound, hentry⟩ := hdrops
      obtain rfl := hformed.entry_unique hlookup hentry
      exact not_completed_of_empty hempty
        (hformed.completed_of_found (List.nodup_append.mp hnodup).1 hid hfound)
  | _ => exact hdrops

/-- With distinct ids the entry of a promise without a result stays in the map. -/
theorem Steps.lookup_of_empty {lib : JsonLibrary} {ids : List ℤ} {c c' : Client}
    {e : ClientEvent} (h : Steps lib c e c') (hformed : WellFormed ids c)
    (hnodup : (ids ++ e.newIds).Nodup) {k : ℕ} {id : ℤ}
    (hempty : c.peer.states[k]? = some .empty)
    (hlookup : c.peer.promises.lookup id = some k) : c'.peer.promises.lookup id = some k := by
  have hid := hformed.entry id k hlookup
  cases h with
  | register draw method data =>
      have hne : id ≠ draw.number := by
        rintro rfl
        exact (List.nodup_append.mp hnodup).2.2 _ (List.mem_of_getElem? hid) _
          (List.mem_singleton_self _) rfl
      rw [Peer.release_promises]
      exact (Finmap.lookup_insert_of_ne _ hne).trans hlookup
  | postSend i call hcall =>
      rw [Peer.promises_returnRequest]
      exact hlookup
  | receive chunk final handled c' hidle hphase hreceived =>
      cases hreceived with
      | buffered => exact hlookup
      | completed => exact hlookup
  | erase id' hhandler | eraseTimedOut id' hhandler =>
      have hne : id ≠ id' := by
        rintro rfl
        exact not_completed_of_empty hempty
          (hformed.completed_of_found (List.nodup_append.mp hnodup).1 hid
            (congrArg Handler.found hhandler))
      exact (congrArg (Finmap.lookup id) (Peer.promises_eraseEntry _ _ _)).trans
        ((Finmap.lookup_erase_ne hne).trans hlookup)
  | _ => exact hlookup

/-- The promise that a registration makes. -/
theorem WellFormed.registered {lib : JsonLibrary} {ids : List ℤ} {c c' : Client}
    {draw : Draw} {method : String} {data : Json} (h : WellFormed ids c)
    (hsteps : Steps lib c (.register draw method data) c') :
    c'.peer.states[ids.length]? = some .empty ∧
      c'.peer.promises.lookup draw.number = some ids.length := by
  cases hsteps with
  | register =>
      rw [← h.length, Peer.release_promises]
      refine ⟨?_, Finmap.lookup_insert _⟩
      rw [Peer.getElem?_states_release_of_ne, Peer.getElem?_states_enter, if_pos rfl]
      intro hreplaced
      exact Nat.lt_irrefl _ (h.lt_length hreplaced)

theorem Steps.completed_of_completed {lib : JsonLibrary} {c c' : Client} {e : ClientEvent}
    (h : Steps lib c e c') {k : ℕ} (hk : Completed c.peer.states k) :
    Completed c'.peer.states k := by
  obtain ⟨reply, hready, hne⟩ := hk
  exact ⟨reply, h.ready hready, hne⟩

/-- Every step keeps the promises in the map until they are completed, as long as
the ids stay distinct. -/
theorem PendingUntilCompleted.step {lib : JsonLibrary} {ids : List ℤ} {c c' : Client}
    {e : ClientEvent} (h : PendingUntilCompleted ids c) (hformed : WellFormed ids c)
    (hnodup : (ids ++ e.newIds).Nodup) (hstep : Client.step lib c e = some c') :
    PendingUntilCompleted (ids ++ e.newIds) c' := by
  have hsteps := steps_of_step hstep
  intro k id hk
  by_cases hlt : k < ids.length
  · rw [List.getElem?_append_left hlt] at hk
    rcases h k id hk with ⟨hempty, hlookup⟩ | hcompleted
    · cases hsteps.change (hformed.lt_length hlookup) with
      | same heq =>
          have hkept := hsteps.lookup_of_empty hformed hnodup hempty hlookup
          exact Or.inl ⟨heq.trans hempty, hkept⟩
      | dropped hdrops => exact absurd hdrops (h.not_drops hformed hnodup hk hempty)
      | timeout _ _ _ _ _ hready => exact Or.inr ⟨_, hready, by simp⟩
      | response _ _ _ message _ _ _ _ _ _ hready =>
          exact Or.inr ⟨_, hready, Peer.replyOf_ne_brokenPromise message⟩
    · exact Or.inr (hsteps.completed_of_completed hcompleted)
  · rw [List.getElem?_append_right (Nat.not_lt.mp hlt)] at hk
    cases e with
    | register draw method data =>
        obtain ⟨hzero, rfl⟩ : k - ids.length = 0 ∧ draw.number = id := by
          simpa [ClientEvent.newIds, List.getElem?_singleton] using hk
        obtain rfl : k = ids.length := by omega
        exact Or.inl (hformed.registered hsteps)
    | _ => simp [ClientEvent.newIds] at hk

end Client

namespace RpcEvent

/-- The draws of `generateRandomNumber` that an event makes. -/
def draws : RpcEvent → List Draw
  | .client (.register draw _ _) => [draw]
  | _ => []

end RpcEvent

namespace Rpc

/-- The draws of a run, in its order. -/
def drawsOf (events : List RpcEvent) : List Draw := events.flatMap RpcEvent.draws

/-- Every future waits in `m_promises` under its own id until a response or a
timeout has completed it. -/
def PendingUntilCompleted (s : Rpc) : Prop :=
  s.client.PendingUntilCompleted (s.registrations.map Registration.id)

/-- The server sent response `i` for the request of promise `k`. -/
def Answers (s : Rpc) (i k : ℕ) : Prop :=
  ∃ r q reg, s.responses[i]? = some r ∧ s.served[r.served]? = some q ∧ s.ServedFor q k reg

/-- The step changes a future only by delivering a response to its own request or
by firing its own timeout. -/
def ChangesOnlyOwn (s : Rpc) (e : RpcEvent) (t : Rpc) : Prop :=
  ∀ (k : ℕ) reg, s.registrations[k]? = some reg →
    t.client.peer.states[k]? ≠ s.client.peer.states[k]? →
    (∃ i, e = .deliver i ∧ s.Answers i k) ∨
      (e = .client .timer ∧ s.client.peer.transport.task = some reg.id)

/-- Along the run `events`, an id identifies one request. -/
def Identified (lib : JsonLibrary) (events : List RpcEvent) : Prop :=
  Throughout (step lib) {} events PendingUntilCompleted ∧
    Everywhere (step lib) {} events ChangesOnlyOwn

variable {lib : JsonLibrary} {s t : Rpc}

/-! ## The draws of a run are the ids of its registrations -/

theorem Steps.map_draw_registrations {e : RpcEvent} (h : Steps lib s e t) :
    t.registrations.map Registration.draw =
      s.registrations.map Registration.draw ++ e.draws := by
  cases h with
  | client e c hreceive hstep =>
      rw [List.map_append]
      congr 1
      cases e <;> rfl
  | _ => simp [RpcEvent.draws]

theorem map_draw_registrations {events : List RpcEvent}
    (hrun : Run (step lib) AnyStep {} events s) :
    s.registrations.map Registration.draw = drawsOf events := by
  induction hrun with
  | nil => rfl
  | snoc _ _ hstep ih =>
      rw [(steps_of_step hstep).map_draw_registrations, ih, drawsOf, drawsOf,
        List.flatMap_append, List.flatMap_singleton]

theorem map_id_registrations_eq {events : List RpcEvent}
    (hrun : Run (step lib) AnyStep {} events s) :
    s.registrations.map Registration.id = (drawsOf events).map Draw.number := by
  rw [← map_draw_registrations hrun, List.map_map]
  rfl

/-! ## Distinct draws -/

/-- The draws made before an event and those it makes are a part of the draws of
the whole run. -/
theorem nodup_of_prefix {before events : List RpcEvent} {e : RpcEvent}
    (hb : before ++ [e] <+: events) (hnodup : ((drawsOf events).map Draw.number).Nodup) :
    ((drawsOf before).map Draw.number ++ e.draws.map Draw.number).Nodup := by
  obtain ⟨later, rfl⟩ := hb
  rw [drawsOf, List.flatMap_append, List.flatMap_append, List.flatMap_singleton, List.map_append,
    List.map_append] at hnodup
  exact (List.nodup_append.mp hnodup).1

theorem map_number_draws (e : ClientEvent) :
    (RpcEvent.client e).draws.map Draw.number = e.newIds := by
  cases e <;> rfl

theorem Inv.lt_length (h : Inv lib s) {k : ℕ} {reg : Registration}
    (hk : s.registrations[k]? = some reg) : k < s.client.peer.states.length := by
  obtain ⟨hlt, -⟩ := List.getElem?_eq_some_iff.mp hk
  rw [h.wellFormed.length, List.length_map]
  exact hlt

/-- An entry of the map holds the promise of the registration with its id. -/
theorem Inv.id_of_lookup (h : Inv lib s) {k : ℕ} {reg : Registration} {id : ℤ}
    (hk : s.registrations[k]? = some reg)
    (hlookup : s.client.peer.promises.lookup id = some k) : id = reg.id := by
  have hid := h.wellFormed.entry id k hlookup
  rw [List.getElem?_map, hk] at hid
  exact (Option.some.inj hid).symm

/-- The client's own steps complete a promise only by its own timeout. -/
theorem Inv.changesOnlyOwn_client (h : Inv lib s) (hpending : PendingUntilCompleted s)
    {e : ClientEvent} {c : Client} (hreceive : e.isReceive = false)
    (hstep : Client.step lib s.client e = some c)
    (hnodup : (s.registrations.map Registration.id ++ e.newIds).Nodup) {k : ℕ}
    {reg : Registration} (hk : s.registrations[k]? = some reg)
    (hchange : c.peer.states[k]? ≠ s.client.peer.states[k]?) :
    e = .timer ∧ s.client.peer.transport.task = some reg.id := by
  cases (Client.steps_of_step hstep).change (h.lt_length hk) with
  | same heq => exact absurd heq hchange
  | dropped hdrops hempty =>
      have hid : (s.registrations.map Registration.id)[k]? = some reg.id := by
        rw [List.getElem?_map, hk]
        rfl
      exact absurd hdrops (hpending.not_drops h.wellFormed hnodup hid hempty)
  | timeout id he htask hlookup =>
      obtain rfl := h.id_of_lookup hk hlookup
      exact ⟨he, htask⟩
  | response _ _ _ _ _ he =>
      rw [he] at hreceive
      exact Bool.noConfusion hreceive

/-- A delivered response completes no promise but that of the request it was sent
for. -/
theorem Inv.answers_of_deliver (h : Inv lib s) {i : ℕ} {r : ServerResponse} {c : Client}
    (hr : s.responses[i]? = some r)
    (hstep : Client.step lib s.client (.receive r.text true (.ok ())) = some c)
    (hnodup : (s.registrations.map Registration.id).Nodup) {k : ℕ} {reg : Registration}
    (hk : s.registrations[k]? = some reg)
    (hchange : c.peer.states[k]? ≠ s.client.peer.states[k]?) : s.Answers i k := by
  obtain ⟨q, j, reg', message, hq, hserved, hparse, -, hid, -⟩ :=
    h.parse_response (List.mem_of_getElem? hr)
  obtain ⟨hidle, -⟩ := Client.receive_of_step hstep
  cases (Client.steps_of_step hstep).change (h.lt_length hk) with
  | same heq => exact absurd heq hchange
  | dropped hdrops => exact hdrops.elim
  | timeout id he => exact ClientEvent.noConfusion he
  | response chunk final handled message' id he hparse' hid' hlookup =>
      obtain ⟨rfl, -, -⟩ := ClientEvent.receive.inj he
      rw [h.buffer.receivedMsg_of_idle hidle, String.empty_append, hparse] at hparse'
      obtain rfl := Except.ok.inj hparse'
      obtain rfl := Json.integer.inj (hid.symm.trans hid')
      -- the entry found is the one of the request that was served
      obtain ⟨o, ho, ⟨hpromise, hj, hmessage⟩, hrequest⟩ := hserved
      have hregId : reg'.id = reg.id := h.id_of_lookup hk hlookup
      have hjk : j = k := by
        have hlt := (List.getElem?_eq_some_iff.mp hj).1
        apply (List.getElem?_inj (by simpa using hlt) hnodup).mp
        rw [List.getElem?_map, List.getElem?_map, hj, hk]
        exact congrArg some hregId
      subst hjk
      exact ⟨r, q, reg', hr, hq, o, ho, ⟨hpromise, hj, hmessage⟩, hrequest⟩

theorem Inv.identified_step (h : Inv lib s) (hpending : PendingUntilCompleted s)
    {e : RpcEvent} (hstep : Rpc.step lib s e = some t)
    (hnodup : (s.registrations.map Registration.id ++ e.draws.map Draw.number).Nodup) :
    PendingUntilCompleted t ∧ ChangesOnlyOwn s e t := by
  cases steps_of_step hstep with
  | client e c hreceive hclient =>
      rw [map_number_draws] at hnodup
      constructor
      · unfold PendingUntilCompleted
        rw [List.map_append, map_id_registrations]
        exact hpending.step h.wellFormed hnodup hclient
      · intro k reg hk hchange
        obtain ⟨rfl, htask⟩ :=
          h.changesOnlyOwn_client hpending hreceive hclient hnodup hk hchange
        exact Or.inr ⟨rfl, htask⟩
  | serve | serveOther | respond => exact ⟨hpending, fun _ _ _ hchange => absurd rfl hchange⟩
  | deliver i r c hr hclient =>
      simp only [RpcEvent.draws, List.map_nil, List.append_nil] at hnodup
      constructor
      · have hkept := hpending.step h.wellFormed
          (by simpa only [ClientEvent.newIds, List.append_nil] using hnodup) hclient
        simp only [ClientEvent.newIds, List.append_nil] at hkept
        exact hkept
      · intro k reg hk hchange
        exact Or.inl ⟨i, rfl,
          h.answers_of_deliver hr hclient hnodup hk hchange⟩

theorem pendingUntilCompleted_of_nodup {events : List RpcEvent}
    (hrun : Run (step lib) AnyStep {} events s)
    (hnodup : ((drawsOf events).map Draw.number).Nodup) : PendingUntilCompleted s := by
  induction hrun with
  | nil => simp [PendingUntilCompleted, Client.PendingUntilCompleted]
  | snoc hrun _ hstep ih =>
      have hstepNodup := nodup_of_prefix (List.prefix_refl _) hnodup
      have hpending := ih (List.nodup_append.mp hstepNodup).1
      rw [← map_id_registrations_eq hrun] at hstepNodup
      exact ((inv_of_run hrun).identified_step hpending hstep hstepNodup).1

theorem identified_of_nodup {events : List RpcEvent}
    (hnodup : ((drawsOf events).map Draw.number).Nodup) : Identified lib events := by
  constructor
  · rintro before s ⟨later, rfl⟩ hrun
    apply pendingUntilCompleted_of_nodup hrun
    rw [drawsOf, List.flatMap_append, List.map_append] at hnodup
    exact (List.nodup_append.mp hnodup).1
  · intro before e s t hb hrun hstep
    have hstepNodup := nodup_of_prefix hb hnodup
    have hpending :=
      pendingUntilCompleted_of_nodup hrun (List.nodup_append.mp hstepNodup).1
    rw [← map_id_registrations_eq hrun] at hstepNodup
    exact ((inv_of_run hrun).identified_step hpending hstep hstepNodup).2

/-! ## Equal draws -/

/-- Every draw is used for one request, and nothing else happens. -/
def registrationsOnly (draws : List Draw) : List RpcEvent :=
  draws.map fun draw => .client (.register draw "" .null)

theorem drawsOf_registrationsOnly (draws : List Draw) :
    drawsOf (registrationsOnly draws) = draws := by
  induction draws with
  | nil => rfl
  | cons draw draws ih => exact congrArg (draw :: ·) ih

/-- In such a run no promise is completed. -/
theorem exists_run_registrationsOnly (lib : JsonLibrary) (draws : List Draw) :
    ∃ s, Run (step lib) AnyStep {} (registrationsOnly draws) s ∧
      ∀ k, ¬Completed s.client.peer.states k := by
  induction draws using List.reverseRecOn with
  | nil => exact ⟨{}, .nil, fun k => by simp [Completed]⟩
  | append_singleton draws draw ih =>
      obtain ⟨s, hrun, hnone⟩ := ih
      obtain ⟨c, hclient⟩ : ∃ c, Client.step lib s.client (.register draw "" .null) = some c := by
        simp only [Client.step, Peer.register_eq]
        exact ⟨_, rfl⟩
      have hstep : step lib s (.client (.register draw "" .null)) = some { s with
          client := c
          registrations := s.registrations ++ [{ draw, method := "", data := .null }]
          sent := s.sent ++ [] } := by
        simp only [step, hclient]
        rfl
      have hevents : registrationsOnly (draws ++ [draw]) =
          registrationsOnly draws ++ [.client (.register draw "" .null)] := List.map_append
      rw [hevents]
      refine ⟨_, hrun.snoc trivial hstep, ?_⟩
      rintro k ⟨reply, hready, hne⟩
      have hsteps := Client.steps_of_step hclient
      have hformed := (inv_of_run hrun).wellFormed
      by_cases hk : k < s.client.peer.states.length
      · cases hsteps.change hk with
        | same heq => exact hnone k ⟨reply, heq.symm.trans hready, hne⟩
        | dropped _ _ hbroken =>
            obtain rfl := SharedState.ready.inj (Option.some.inj (hbroken.symm.trans hready))
            exact hne rfl
        | timeout _ he => exact ClientEvent.noConfusion he
        | response _ _ _ _ _ he => exact ClientEvent.noConfusion he
      · exact hformed.not_ready_of_le hclient (Nat.not_lt.mp hk) hready

theorem nodup_of_pendingUntilCompleted (hpending : PendingUntilCompleted s)
    (hnone : ∀ k, ¬Completed s.client.peer.states k) :
    (s.registrations.map Registration.id).Nodup := by
  rw [List.nodup_iff_getElem?_ne_getElem?]
  intro j k hjk hk heq
  obtain ⟨id, hid⟩ : ∃ id, (s.registrations.map Registration.id)[k]? = some id :=
    ⟨_, List.getElem?_eq_getElem hk⟩
  have hlookupK := ((hpending k id hid).resolve_right (hnone k)).2
  have hlookupJ := ((hpending j id (heq.trans hid)).resolve_right (hnone j)).2
  exact Nat.ne_of_lt hjk (Option.some.inj (hlookupJ.symm.trans hlookupK))

/-- An id identifies one request, in every run with the given draws, exactly when
the drawn ids are pairwise distinct. -/
theorem identified_iff_nodup (lib : JsonLibrary) (draws : List Draw) :
    (∀ events s, Run (step lib) AnyStep {} events s → drawsOf events = draws →
      Identified lib events) ↔ (draws.map Draw.number).Nodup := by
  constructor
  · intro h
    obtain ⟨s, hrun, hnone⟩ := exists_run_registrationsOnly lib draws
    obtain ⟨hpending, -⟩ := h _ s hrun (drawsOf_registrationsOnly draws)
    rw [← drawsOf_registrationsOnly draws, ← map_id_registrations_eq hrun]
    exact nodup_of_pendingUntilCompleted (hpending.of_run hrun) hnone
  · rintro hnodup events s hrun rfl
    exact identified_of_nodup hnodup

/-- Two requests with one id; the response to the first arrives after its timeout. -/
def lateResponseRun : List RpcEvent :=
  [.client (.service (.start true)), .client (.service (.connect .handle)),
    .client (.service .established), .client (.register (.ofNat 1) "a" .null),
    .client (.postTimeout 0), .client (.postSend 0), .client (.service (.serviceReturn 0)),
    .client (.service .runTask), .client (.service .runTask), .client (.service .loop),
    .client (.service .writeable), .serve 0, .respond 0 (.success (.string "b")),
    .client .timer, .client .erase, .client (.register (.ofNat 1) "a" .null)]

/-- A second request with the id of a pending one. -/
def replacingRun : List RpcEvent :=
  [.client (.register (.ofNat 1) "a" .null), .client (.postTimeout 0),
    .client (.postSend 0), .client (.register (.ofNat 1) "b" .null)]

/-- The second request abandons the promise of the first, and the response to the
first completes the future of the second. -/
theorem second_request_same_id :
    (∃ s, Run (step exchangeLibrary) AnyStep {} replacingRun s ∧
      s.client.peer.states = [.ready (.error .brokenPromise), .empty] ∧
      ¬Identified exchangeLibrary replacingRun) ∧
    ∃ s t, Run (step exchangeLibrary) AnyStep {} lateResponseRun s ∧
      step exchangeLibrary s (.deliver 0) = some t ∧
      s.client.peer.states = [.ready (.error (.runtimeError "request timeout")), .empty] ∧
      t.client.peer.states = [.ready (.error (.runtimeError "request timeout")),
        .ready (.ok (.string "b"))] ∧
      ¬Identified exchangeLibrary (lateResponseRun ++ [.deliver 0]) := by
  constructor
  · obtain ⟨s, hrun, hstates, hregistered⟩ :
        ∃ s, replacingRun.foldlM (step exchangeLibrary) ({} : Rpc) = some s ∧
          s.client.peer.states = [.ready (.error .brokenPromise), .empty] ∧
          s.registrations.map Registration.id = [1, 1] :=
      ⟨_, rfl, rfl, rfl⟩
    refine ⟨s, run_of_foldlM hrun, hstates, ?_⟩
    rintro ⟨hpending, -⟩
    have hfirst := hpending.of_run (run_of_foldlM hrun) 0 1
    rw [hregistered, hstates] at hfirst
    rcases hfirst rfl with ⟨hempty, -⟩ | ⟨reply, hready, hne⟩
    · simp at hempty
    · simp only [List.getElem?_cons_zero, Option.some.injEq, SharedState.ready.injEq] at hready
      exact hne hready.symm
  · obtain ⟨s, t, reg, hrun, hstep, hs, ht, hreg, hsent, hserved, hresponses⟩ :
        ∃ s t reg, lateResponseRun.foldlM (step exchangeLibrary) ({} : Rpc) = some s ∧
          step exchangeLibrary s (.deliver 0) = some t ∧
          s.client.peer.states = [.ready (.error (.runtimeError "request timeout")), .empty] ∧
          t.client.peer.states = [.ready (.error (.runtimeError "request timeout")),
            .ready (.ok (.string "b"))] ∧
          s.registrations[1]? = some reg ∧
          s.sent.map Outgoing.promise = [some 0] ∧
          s.served.map ServedRequest.position = [0] ∧
          s.responses.map ServerResponse.served = [0] :=
      ⟨_, _, _, rfl, rfl, rfl, rfl, rfl, rfl, rfl, rfl⟩
    refine ⟨s, t, run_of_foldlM hrun, hstep, hs, ht, ?_⟩
    rintro ⟨-, honly⟩
    have hown := honly lateResponseRun (.deliver 0) s t (List.prefix_refl _)
      (run_of_foldlM hrun) hstep 1 reg hreg (by rw [hs, ht]; simp)
    rcases hown with ⟨i, hi, r, q, reg', hr, hq, o, ho, ⟨hpromise, -, -⟩, -⟩ | ⟨he, -⟩
    · obtain rfl := RpcEvent.deliver.inj hi
      have hr' := congrArg (Option.map ServerResponse.served) hr
      have hq' := congrArg (Option.map ServedRequest.position) hq
      have ho' := congrArg (Option.map Outgoing.promise) ho
      rw [← List.getElem?_map, hresponses] at hr'
      rw [← Option.some.inj hr', ← List.getElem?_map, hserved] at hq'
      rw [← Option.some.inj hq', ← List.getElem?_map, hsent, Option.map_some, hpromise] at ho'
      simp at ho'
    · exact RpcEvent.noConfusion he

end Rpc

end Protoo
