import Mathlib.Data.List.Basic

/-!
# Longest match

A scanner reads letters as long as its automaton has a move and then stops, successfully
if the state it is in is an accepting one.  When every state can still reach an accepting
one, this is the longest match: the scanner succeeds exactly if a beginning of the input
is a word and no word goes on with the next letter of the input.

The automaton is any partial transition function with a test for the accepting states.
-/

namespace Protoo.Support

variable {σ α : Type*} (move : σ → α → Option σ) (accepting : σ → Bool)

/-- The automaton can read the word from the state and ends in an accepting one. -/
inductive Accepts : σ → List α → Prop where
  | nil {s : σ} (h : accepting s = true) : Accepts s []
  | cons {s next : σ} {a : α} {word : List α} (hmove : move s a = some next)
      (hrest : Accepts next word) : Accepts s (a :: word)

/-- Read as far as possible: the word and what is left. -/
def munch (s : σ) : List α → Option (List α × List α)
  | [] => if accepting s = true then some ([], []) else none
  | a :: input =>
      match move s a with
      | some next => (munch next input).map fun result => (a :: result.1, result.2)
      | none => if accepting s = true then some ([], a :: input) else none

variable {move accepting}

theorem accepts_nil_iff {s : σ} : Accepts move accepting s [] ↔ accepting s = true :=
  ⟨fun h => by cases h; assumption, .nil⟩

theorem accepts_cons_iff {s : σ} {a : α} {word : List α} :
    Accepts move accepting s (a :: word) ↔
      ∃ next, move s a = some next ∧ Accepts move accepting next word :=
  ⟨fun h => by cases h with | cons hmove hrest => exact ⟨_, hmove, hrest⟩,
    fun ⟨_, hmove, hrest⟩ => .cons hmove hrest⟩

/-- No word from the state goes on with the first letter of what is left. -/
def Maximal (move : σ → α → Option σ) (accepting : σ → Bool) (s : σ) (word rest : List α) : Prop :=
  ∀ a ∈ rest.head?, ¬ ∃ more, Accepts move accepting s (word ++ a :: more)

theorem munch_of_accepts {s : σ} {word rest : List α} (h : Accepts move accepting s word)
    (hlive : ∀ s, ∃ word, Accepts move accepting s word)
    (hmax : Maximal move accepting s word rest) :
    munch move accepting s (word ++ rest) = some (word, rest) := by
  induction h with
  | @nil s haccept =>
      cases rest with
      | nil => exact if_pos haccept
      | cons a rest =>
          cases hmove : move s a with
          | none => simp [munch, hmove, haccept]
          | some next =>
              obtain ⟨more, hmore⟩ := hlive next
              exact absurd ⟨more, .cons hmove hmore⟩ (hmax a rfl)
  | @cons s next a word hmove hrest ih =>
      have hnext : Maximal move accepting next word rest :=
        fun b hb ⟨more, hmore⟩ => hmax b hb ⟨more, .cons hmove hmore⟩
      simp [munch, hmove, ih hnext]

theorem accepts_of_munch {s : σ} {input word rest : List α}
    (h : munch move accepting s input = some (word, rest)) :
    input = word ++ rest ∧ Accepts move accepting s word ∧
      Maximal move accepting s word rest := by
  induction input generalizing s word with
  | nil =>
      rw [munch] at h
      split at h
      next haccept =>
        cases h
        exact ⟨rfl, .nil haccept, fun a ha => nomatch ha⟩
      next => exact nomatch h
  | cons a input ih =>
      rw [munch] at h
      split at h
      next next hmove =>
        obtain ⟨⟨word', rest'⟩, hmunch, heq⟩ := Option.map_eq_some_iff.mp h
        cases heq
        obtain ⟨rfl, haccepts, hmax⟩ := ih hmunch
        refine ⟨rfl, .cons hmove haccepts, fun b hb ⟨more, hmore⟩ => ?_⟩
        obtain ⟨next', hmove', hrest⟩ := accepts_cons_iff.mp hmore
        obtain rfl := Option.some.inj (hmove.symm.trans hmove')
        exact hmax b hb ⟨more, hrest⟩
      next hmove =>
        split at h
        next haccept =>
          cases h
          refine ⟨rfl, .nil haccept, fun b hb ⟨more, hmore⟩ => ?_⟩
          obtain rfl := Option.some.inj hb
          obtain ⟨next, hmove', -⟩ := accepts_cons_iff.mp hmore
          rw [hmove] at hmove'
          exact nomatch hmove'
        next => exact nomatch h

/-- The scanner finds the longest match. -/
theorem munch_iff (hlive : ∀ s, ∃ word, Accepts move accepting s word) {s : σ}
    {input word rest : List α} :
    munch move accepting s input = some (word, rest) ↔
      input = word ++ rest ∧ Accepts move accepting s word ∧
        Maximal move accepting s word rest := by
  constructor
  · exact accepts_of_munch
  · rintro ⟨rfl, haccepts, hmax⟩
    exact munch_of_accepts haccepts hlive hmax

end Protoo.Support
