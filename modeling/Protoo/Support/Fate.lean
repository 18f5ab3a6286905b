import Protoo.Support.SharedState
import Mathlib.Data.List.Induction

/-!
# Openings decided by the first later event of their key

A `Semantics` says of every event which key it concerns, which result it gives,
and whether it also opens a new one-shot result under that key.  The fate of an
opening is then decided by the first later event that concerns its key, whatever
that event is.  `outcomes` is the reference semantics this gives to a whole list
of events, and `advance` the table machine that computes it event by event.
-/

namespace Protoo.Support

/-- Which key an event concerns, the result it gives to an undecided opening of
that key, and whether it makes a new opening. -/
structure Semantics (ε ι ρ : Type*) where
  concerns : ε → ι
  settles : ε → ρ
  opens : ε → Bool

namespace Semantics

variable {ε ι ρ : Type*} [DecidableEq ι] (S : Semantics ε ι ρ)

/-- The state of an opening under `i` after the events `later`. -/
def fate (i : ι) (later : List ε) : SharedState ρ :=
  match later.find? (fun e => S.concerns e = i) with
  | none => .empty
  | some e => .ready (S.settles e)

/-- The openings of a list of events, oldest first, with their keys and fates. -/
def outcomes : List ε → List (ι × SharedState ρ)
  | [] => []
  | e :: later =>
      if S.opens e then (S.concerns e, S.fate (S.concerns e) later) :: outcomes later
      else outcomes later

/-- An opening under `i` is undecided after the events. -/
def Pending (i : ι) (events : List ε) : Prop := (i, .empty) ∈ S.outcomes events

/-- What one event does to an earlier opening. -/
def settle (e : ε) (opening : ι × SharedState ρ) : ι × SharedState ρ :=
  if opening.1 = S.concerns e then (opening.1, opening.2.abandon (S.settles e)) else opening

/-- What one event does to the table of all openings. -/
def advance (e : ε) (table : List (ι × SharedState ρ)) : List (ι × SharedState ρ) :=
  table.map (S.settle e) ++ if S.opens e then [(S.concerns e, .empty)] else []

variable {S}

theorem fate_concat (i : ι) (later : List ε) (e : ε) :
    S.fate i (later ++ [e]) =
      if i = S.concerns e then (S.fate i later).abandon (S.settles e) else S.fate i later := by
  unfold fate
  rw [List.find?_append]
  cases hfind : later.find? (fun e => S.concerns e = i) with
  | some first => simp
  | none =>
      by_cases he : i = S.concerns e
      · simp [he]
      · have hne : ¬S.concerns e = i := fun h => he h.symm
        simp [he, hne]

theorem fate_eq_empty_iff {i : ι} {later : List ε} :
    S.fate i later = .empty ↔ ∀ e ∈ later, S.concerns e ≠ i := by
  unfold fate
  cases hfind : later.find? (fun e => S.concerns e = i) with
  | none => simpa using List.find?_eq_none.mp hfind
  | some first =>
      have hmem : first ∈ later := List.mem_of_find?_eq_some hfind
      have hfirst : S.concerns first = i := by simpa using List.find?_some hfind
      simp only [reduceCtorEq, false_iff]
      intro hall
      exact hall first hmem hfirst

/-- The fates after one more event are those before it, advanced. -/
theorem outcomes_concat (events : List ε) (e : ε) :
    S.outcomes (events ++ [e]) = S.advance e (S.outcomes events) := by
  induction events with
  | nil => simp [outcomes, advance, fate]
  | cons first later ih =>
      rw [List.cons_append]
      by_cases hopens : S.opens first = true
      · have hhead : (S.concerns first, S.fate (S.concerns first) (later ++ [e])) =
            S.settle e (S.concerns first, S.fate (S.concerns first) later) := by
          rw [fate_concat]
          unfold settle
          split <;> rfl
        simp only [outcomes, hopens, if_true, ih, hhead]
        rfl
      · simp only [outcomes, hopens, ih]
        rfl

/-- The opening made by one event has the fate that the later events decide. -/
theorem getElem?_outcomes_split (before : List ε) {e : ε} (later : List ε)
    (hopens : S.opens e = true) :
    (S.outcomes (before ++ e :: later))[(S.outcomes before).length]? =
      some (S.concerns e, S.fate (S.concerns e) later) := by
  induction before with
  | nil => simp [outcomes, hopens]
  | cons first before ih =>
      by_cases hfirst : S.opens first = true
      · simpa [outcomes, hfirst] using ih
      · simpa [outcomes, hfirst] using ih

theorem getElem?_advance (e : ε) (table : List (ι × SharedState ρ)) (k : ℕ) :
    (S.advance e table)[k]? =
      if k < table.length then table[k]?.map (S.settle e)
      else if k = table.length ∧ S.opens e = true then some (S.concerns e, .empty)
      else none := by
  unfold advance
  rw [List.getElem?_append, List.length_map, List.getElem?_map]
  by_cases hk : k < table.length
  · simp [hk]
  · by_cases hopens : S.opens e = true
    · by_cases heq : k = table.length
      · simp [heq, hopens]
      · have hpos : ¬k - table.length = 0 := by omega
        simp [hk, heq, hopens, hpos]
    · simp [hk, hopens]

theorem settle_eq_empty_iff {e : ε} {opening : ι × SharedState ρ} {i : ι} :
    S.settle e opening = (i, .empty) ↔ opening = (i, .empty) ∧ i ≠ S.concerns e := by
  obtain ⟨j, state⟩ := opening
  unfold settle
  by_cases hj : j = S.concerns e
  · subst hj
    cases state <;> simp [SharedState.abandon, eq_comm]
  · simp only [hj, if_false, Prod.mk.injEq]
    constructor
    · rintro ⟨rfl, rfl⟩
      exact ⟨⟨rfl, rfl⟩, hj⟩
    · exact And.left

/-- An opening of the advanced table is undecided when it was so before an event
of another key, or when the event has just made it. -/
theorem getElem?_advance_eq_empty_iff {e : ε} {table : List (ι × SharedState ρ)} {k : ℕ}
    {i : ι} :
    (S.advance e table)[k]? = some (i, .empty) ↔
      (table[k]? = some (i, .empty) ∧ i ≠ S.concerns e) ∨
        (k = table.length ∧ S.opens e = true ∧ i = S.concerns e) := by
  rw [getElem?_advance]
  by_cases hk : k < table.length
  · have hne : k ≠ table.length := Nat.ne_of_lt hk
    rw [List.getElem?_eq_getElem hk]
    simp [hk, hne, settle_eq_empty_iff]
  · have hnone : table[k]? = none := List.getElem?_eq_none (Nat.not_lt.mp hk)
    rw [if_neg hk, hnone]
    by_cases hnew : k = table.length ∧ S.opens e = true
    · rw [if_pos hnew]
      constructor
      · intro h
        exact Or.inr ⟨hnew.1, hnew.2, (Prod.mk.inj (Option.some.inj h)).1.symm⟩
      · rintro (⟨h, -⟩ | ⟨-, -, hi⟩)
        · exact absurd h (by simp)
        · rw [hi]
    · rw [if_neg hnew]
      constructor
      · intro h
        exact absurd h (by simp)
      · rintro (⟨h, -⟩ | ⟨heq, hopens, -⟩)
        · exact absurd h (by simp)
        · exact absurd ⟨heq, hopens⟩ hnew

/-- What is undecided after one more event. -/
theorem pending_concat {i : ι} {events : List ε} {e : ε} :
    S.Pending i (events ++ [e]) ↔
      (S.Pending i events ∧ i ≠ S.concerns e) ∨ (S.opens e = true ∧ i = S.concerns e) := by
  unfold Pending
  rw [outcomes_concat, List.mem_iff_getElem?, List.mem_iff_getElem?]
  simp only [getElem?_advance_eq_empty_iff, exists_or, exists_and_right, exists_eq, true_and]

/-- An event leaves the openings of all other keys as they are. -/
theorem getElem?_advance_of_ne {e : ε} {table : List (ι × SharedState ρ)} {k : ℕ} {i : ι}
    {state : SharedState ρ} (h : table[k]? = some (i, state)) (hi : i ≠ S.concerns e) :
    (S.advance e table)[k]? = some (i, state) := by
  obtain ⟨hk, -⟩ := List.getElem?_eq_some_iff.mp h
  rw [getElem?_advance, if_pos hk, h]
  simp [settle, hi]

/-- An event leaves what is not an undecided opening of its key. -/
theorem settle_of_ne {e : ε} {opening : ι × SharedState ρ}
    (h : opening ≠ (S.concerns e, .empty)) : S.settle e opening = opening := by
  obtain ⟨i, state⟩ := opening
  by_cases hi : i = S.concerns e
  · subst hi
    cases state with
    | empty => exact absurd rfl h
    | atThreadExit result => simp [settle, SharedState.abandon]
    | ready result => simp [settle, SharedState.abandon]
  · simp [settle, hi]

/-- With the one undecided opening of its key at `k`, an event decides that. -/
theorem map_settle_of_pending {e : ε} {table : List (ι × SharedState ρ)} {k : ℕ}
    (hk : table[k]? = some (S.concerns e, .empty))
    (hunique : ∀ j, table[j]? = some (S.concerns e, .empty) → j = k) :
    (table.map (S.settle e)).map Prod.snd =
      (table.map Prod.snd).set k (.ready (S.settles e)) := by
  obtain ⟨hlength, -⟩ := List.getElem?_eq_some_iff.mp hk
  apply List.ext_getElem?
  intro j
  rw [List.getElem?_set, List.getElem?_map, List.getElem?_map, List.getElem?_map]
  by_cases hj : k = j
  · subst hj
    rw [hk, if_pos rfl, if_pos (by simpa using hlength)]
    simp [settle]
  · rw [if_neg hj]
    cases hopening : table[j]? with
    | none => rfl
    | some opening =>
        have hother : opening ≠ (S.concerns e, .empty) := by
          rintro rfl
          exact hj (hunique j hopening).symm
        simp [settle_of_ne hother]

/-- Without an undecided opening of its key an event decides nothing. -/
theorem map_settle_of_no_pending {e : ε} {table : List (ι × SharedState ρ)}
    (h : ∀ k : ℕ, table[k]? ≠ some (S.concerns e, .empty)) : table.map (S.settle e) = table := by
  apply List.ext_getElem?
  intro j
  rw [List.getElem?_map]
  cases hopening : table[j]? with
  | none => rfl
  | some opening =>
      have hother : opening ≠ (S.concerns e, .empty) := by
        rintro rfl
        exact h j hopening
      simp [settle_of_ne hother]

end Semantics

end Protoo.Support
