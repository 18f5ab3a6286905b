import Mathlib.Data.Set.Insert
import Mathlib.Order.Basic

/-!
# Entries taken in the order of their times

An agenda holds entries, each with the time at which it is due.  Entries are taken from
it one by one, each when its time has come and none that is still held precedes it;
entries are added at any moment, but not for a time that has passed.  Then the entries
are taken in the order of their times, over the whole history.

`InOrder` is the invariant that carries this, with one rule for each thing that can
happen.
-/

namespace Protoo.Support

variable {α T : Type*} [LinearOrder T] {due : α → T} {taken : List α} {pending : Set α}
  {now : T}

/-- What has been taken is sorted, is due, and precedes what is pending. -/
structure InOrder (due : α → T) (taken : List α) (pending : Set α) (now : T) : Prop where
  sorted : taken.Pairwise fun x y => due x ≤ due y
  past : ∀ x ∈ taken, due x ≤ now
  before : ∀ x ∈ taken, ∀ y ∈ pending, due x ≤ due y

namespace InOrder

theorem nil (pending : Set α) (now : T) : InOrder due [] pending now where
  sorted := List.Pairwise.nil
  past _ hx := absurd hx List.not_mem_nil
  before _ hx := absurd hx List.not_mem_nil

/-- Entries may be dropped. -/
theorem mono (h : InOrder due taken pending now) {pending' : Set α}
    (hsubset : ∀ y ∈ pending', y ∈ pending) : InOrder due taken pending' now where
  sorted := h.sorted
  past := h.past
  before x hx y hy := h.before x hx y (hsubset y hy)

/-- Time passes. -/
theorem advance (h : InOrder due taken pending now) {later : T} (hlater : now ≤ later) :
    InOrder due taken pending later where
  sorted := h.sorted
  past x hx := le_trans (h.past x hx) hlater
  before := h.before

/-- An entry is added for a time that has not passed. -/
theorem insert (h : InOrder due taken pending now) {y : α} (hy : now ≤ due y) :
    InOrder due taken (insert y pending) now where
  sorted := h.sorted
  past := h.past
  before x hx z hz := by
    rcases Set.mem_insert_iff.mp hz with rfl | hz
    · exact le_trans (h.past x hx) hy
    · exact h.before x hx z hz

/-- An entry that is due and that no other precedes is taken. -/
theorem take (h : InOrder due taken pending now) {x : α} (hx : x ∈ pending)
    (hfirst : ∀ y ∈ pending, due x ≤ due y) (hdue : due x ≤ now) :
    InOrder due (taken ++ [x]) pending now where
  sorted := by
    refine List.pairwise_append.mpr ⟨h.sorted, List.pairwise_singleton _ _, ?_⟩
    intro z hz y hy
    obtain rfl := List.mem_singleton.mp hy
    exact h.before z hz y hx
  past z hz := by
    rcases List.mem_append.mp hz with hz | hz
    · exact h.past z hz
    · obtain rfl := List.mem_singleton.mp hz
      exact hdue
  before z hz y hy := by
    rcases List.mem_append.mp hz with hz | hz
    · exact h.before z hz y hy
    · obtain rfl := List.mem_singleton.mp hz
      exact hfirst y hy

end InOrder

end Protoo.Support
