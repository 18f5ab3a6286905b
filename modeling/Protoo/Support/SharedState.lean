import Mathlib.Data.List.Basic

/-!
# One-shot results and stores of them

A `SharedState ρ` is the state that a promise and its future share.  It starts
empty, takes at most one result, and the future is ready once the result is
published; a result given "at thread exit" is stored at once but published only
when the thread that gave it exits.  A `Store ρ` holds the states of all
promises made so far; the position in the list is the identity of the promise.

Nothing here depends on what the results are.
-/

namespace Protoo.Support

/-- The state shared by a promise and its future. -/
inductive SharedState (ρ : Type*) where
  | empty
  | atThreadExit (result : ρ)
  | ready (result : ρ)
  deriving Repr, DecidableEq

namespace SharedState

variable {ρ : Type*}

/-- Give a result and publish it.  `none` is the error raised when a result
has been given before. -/
def satisfy (result : ρ) : SharedState ρ → Option (SharedState ρ)
  | .empty => some (.ready result)
  | _ => none

/-- Give a result that is published when the current thread exits. -/
def satisfyAtThreadExit (result : ρ) : SharedState ρ → Option (SharedState ρ)
  | .empty => some (.atThreadExit result)
  | _ => none

/-- The thread that gave the result exits. -/
def threadExit : SharedState ρ → SharedState ρ
  | .atThreadExit result => .ready result
  | s => s

/-- The promise is destroyed: a state without a result becomes ready with the
error `broken`. -/
def abandon (broken : ρ) : SharedState ρ → SharedState ρ
  | .empty => .ready broken
  | s => s

@[simp] theorem abandon_empty (broken : ρ) :
    (empty : SharedState ρ).abandon broken = .ready broken := rfl

@[simp] theorem abandon_ready (broken result : ρ) :
    (ready result : SharedState ρ).abandon broken = .ready result := rfl

end SharedState

/-! ## Stores -/

/-- The shared states of all promises made so far. -/
abbrev Store (ρ : Type*) := List (SharedState ρ)

namespace Store

variable {ρ : Type*}

/-- Make a new promise; its identity is the length of the store. -/
def make (store : Store ρ) : Store ρ := store ++ [.empty]

/-- Apply a partial update to the state of promise `k`. -/
def update (f : SharedState ρ → Option (SharedState ρ)) (k : ℕ)
    (store : Store ρ) : Option (Store ρ) :=
  (store[k]?.bind f).map fun s => store.set k s

def satisfy (k : ℕ) (result : ρ) (store : Store ρ) : Option (Store ρ) :=
  store.update (SharedState.satisfy result) k

def satisfyAtThreadExit (k : ℕ) (result : ρ) (store : Store ρ) : Option (Store ρ) :=
  store.update (SharedState.satisfyAtThreadExit result) k

def abandon (k : ℕ) (broken : ρ) (store : Store ρ) : Store ρ :=
  store.modify k (SharedState.abandon broken)

def threadExit (store : Store ρ) : Store ρ :=
  store.map SharedState.threadExit

theorem getElem?_make (store : Store ρ) (j : ℕ) :
    store.make[j]? = if j = store.length then some .empty else store[j]? := by
  rw [make, List.getElem?_append]
  rcases Nat.lt_trichotomy j store.length with h | h | h
  · simp [h, Nat.ne_of_lt h]
  · simp [h]
  · have hlen : store.length ≤ j := Nat.le_of_lt h
    have hpos : ¬j - store.length = 0 := Nat.sub_ne_zero_of_lt h
    simp [Nat.not_lt.mpr hlen, Nat.ne_of_gt h, hpos]

@[simp] theorem length_make (store : Store ρ) : store.make.length = store.length + 1 := by
  simp [make]

/-- Giving promise `k` a result succeeds exactly when it has none. -/
theorem satisfy_eq_some_iff {store store' : Store ρ} {k : ℕ} {result : ρ} :
    store.satisfy k result = some store' ↔
      store[k]? = some .empty ∧ store' = store.set k (.ready result) := by
  unfold satisfy update
  cases h : store[k]? with
  | none => simp
  | some s => cases s <;> simp [SharedState.satisfy, eq_comm]

theorem satisfyAtThreadExit_eq_some_iff {store store' : Store ρ} {k : ℕ} {result : ρ} :
    store.satisfyAtThreadExit k result = some store' ↔
      store[k]? = some .empty ∧ store' = store.set k (.atThreadExit result) := by
  unfold satisfyAtThreadExit update
  cases h : store[k]? with
  | none => simp
  | some s => cases s <;> simp [SharedState.satisfyAtThreadExit, eq_comm]

/-- The store after promise `k`, which had no result, has been given one. -/
theorem getElem?_set_of_empty {store : Store ρ} {k : ℕ} (h : store[k]? = some .empty)
    (state : SharedState ρ) (j : ℕ) :
    (store.set k state)[j]? = if j = k then some state else store[j]? := by
  obtain ⟨hk, -⟩ := List.getElem?_eq_some_iff.mp h
  rw [List.getElem?_set]
  by_cases hkj : k = j
  · subst hkj
    rw [if_pos rfl, if_pos hk, if_pos rfl]
  · rw [if_neg hkj, if_neg fun hjk => hkj hjk.symm]

@[simp] theorem length_abandon (store : Store ρ) (k : ℕ) (broken : ρ) :
    (store.abandon k broken).length = store.length := by
  simp [abandon]

theorem getElem?_abandon (store : Store ρ) (k j : ℕ) (broken : ρ) :
    (store.abandon k broken)[j]? =
      if k = j then store[j]?.map (SharedState.abandon broken) else store[j]? := by
  rw [abandon, List.getElem?_modify]
  split <;> cases store[j]? <;> rfl

/-- A promise that has a result can be destroyed without effect. -/
theorem abandon_of_ready {store : Store ρ} {k : ℕ} {result : ρ}
    (h : store[k]? = some (.ready result)) (broken : ρ) : store.abandon k broken = store := by
  apply List.ext_getElem?
  intro j
  rw [getElem?_abandon]
  split
  next hkj =>
    subst hkj
    simp [h]
  next => rfl

/-- Destroying a promise that has none gives it the result `broken`. -/
theorem abandon_of_empty {store : Store ρ} {k : ℕ} (h : store[k]? = some .empty) (broken : ρ) :
    store.abandon k broken = store.set k (.ready broken) := by
  obtain ⟨hk, -⟩ := List.getElem?_eq_some_iff.mp h
  apply List.ext_getElem?
  intro j
  rw [getElem?_abandon, List.getElem?_set]
  by_cases hkj : k = j
  · subst hkj
    rw [if_pos rfl, if_pos rfl, if_pos hk, h]
    rfl
  · rw [if_neg hkj, if_neg hkj]

theorem getElem?_threadExit (store : Store ρ) (j : ℕ) :
    store.threadExit[j]? = store[j]?.map SharedState.threadExit := by
  simp [threadExit]

end Store

end Protoo.Support
