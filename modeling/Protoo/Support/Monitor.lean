import Mathlib.Data.Nat.Notation
import Mathlib.Logic.Function.Basic

/-!
# A mutex with one waiter and any number of callers

One thread, the waiter, takes the mutex to look at a protected state and may block
until it is notified.  Any number of other threads, the callers, each lock the
mutex, work on the protected state, unlock the mutex and then notify.  An
exception in the work unlocks the mutex as well but skips the notification.

The module follows the mutex and the callers through these steps, whatever the
protected state is.  `Exclusive` says that a thread is between its lock and its
unlock exactly if it owns the mutex, and `Owes` that some caller has done its work
and still has its notification to give.  Both are kept by every step of a caller,
`Owes` unless it is the notification itself.
-/

namespace Protoo.Support

/-- The threads that can own the mutex. -/
inductive Holder where
  | waiter
  | caller (n : ℕ)
  deriving DecidableEq

/-- Where a caller is in a call; `thrown` tells that its work raised an exception. -/
inductive CallerPosition (Op : Type*) where
  | outside
  | entering (op : Op)
  | inside (op : Op)
  | leaving (op : Op) (thrown : Bool)
  | notifying (op : Op)

/-- The steps of a caller other than its work. -/
inductive CallerEvent (Op : Type*) where
  | enter (op : Op)
  | lock
  | unlock
  | notify

structure Monitor (Op : Type*) where
  owner : Option Holder := none
  callers : ℕ → CallerPosition Op := fun _ => .outside

variable {Op : Type*}

namespace CallerPosition

/-- Between the lock and the unlock. -/
def holds : CallerPosition Op → Bool
  | .inside _ | .leaving _ _ => true
  | _ => false

/-- After the work and before the notification. -/
def owes : CallerPosition Op → Bool
  | .leaving _ false | .notifying _ => true
  | _ => false

end CallerPosition

namespace Monitor

variable {m m' : Monitor Op} {n : ℕ} {e : CallerEvent Op} {b : Bool}

/-- The caller `n` moves to `position`. -/
def move (n : ℕ) (position : CallerPosition Op) (m : Monitor Op) : Monitor Op :=
  { m with callers := Function.update m.callers n position }

@[simp] theorem callers_move_self (n : ℕ) (position : CallerPosition Op) (m : Monitor Op) :
    (m.move n position).callers n = position := by
  simp [move]

theorem callers_move_of_ne {n k : ℕ} (h : k ≠ n) (position : CallerPosition Op)
    (m : Monitor Op) : (m.move n position).callers k = m.callers k := by
  simp [move, h]

/-! ## Steps -/

/-- A step of the caller `n` other than its work. -/
def step (m : Monitor Op) (n : ℕ) : CallerEvent Op → Option (Monitor Op)
  | .enter op =>
      match m.callers n with
      | .outside => some (m.move n (.entering op))
      | _ => none
  | .lock =>
      match m.callers n, m.owner with
      | .entering op, none => some { m.move n (.inside op) with owner := some (.caller n) }
      | _, _ => none
  | .unlock =>
      match m.callers n with
      | .leaving op thrown =>
          some { m.move n (if thrown then .outside else .notifying op) with owner := none }
      | _ => none
  | .notify =>
      match m.callers n with
      | .notifying _ => some (m.move n .outside)
      | _ => none

/-- The waiter locks the mutex. -/
def take (m : Monitor Op) : Option (Monitor Op) :=
  match m.owner with
  | none => some { m with owner := some .waiter }
  | some _ => none

/-- The waiter unlocks the mutex. -/
def drop (m : Monitor Op) : Monitor Op := { m with owner := none }

/-- What a step of the caller `n` can do. -/
inductive Steps (m : Monitor Op) (n : ℕ) : CallerEvent Op → Monitor Op → Prop where
  | enter (op : Op) (hposition : m.callers n = .outside) :
      Steps m n (.enter op) (m.move n (.entering op))
  | lock (op : Op) (hposition : m.callers n = .entering op) (hfree : m.owner = none) :
      Steps m n .lock { m.move n (.inside op) with owner := some (.caller n) }
  | unlock (op : Op) (hposition : m.callers n = .leaving op false) :
      Steps m n .unlock { m.move n (.notifying op) with owner := none }
  | throw (op : Op) (hposition : m.callers n = .leaving op true) :
      Steps m n .unlock { m.move n .outside with owner := none }
  | notify (op : Op) (hposition : m.callers n = .notifying op) :
      Steps m n .notify (m.move n .outside)

theorem steps_of_step (h : m.step n e = some m') : Steps m n e m' := by
  cases e with
  | enter op =>
      simp only [step] at h
      split at h
      next hposition => exact Option.some.inj h ▸ .enter op hposition
      next => simp at h
  | lock =>
      simp only [step] at h
      split at h
      next op hposition hfree => exact Option.some.inj h ▸ .lock op hposition hfree
      next => simp at h
  | unlock =>
      simp only [step] at h
      split at h
      next op thrown hposition =>
        cases thrown with
        | false => exact Option.some.inj h ▸ .unlock op hposition
        | true => exact Option.some.inj h ▸ .throw op hposition
      next => simp at h
  | notify =>
      simp only [step] at h
      split at h
      next op hposition => exact Option.some.inj h ▸ .notify op hposition
      next => simp at h

theorem take_eq_some (h : m.take = some m') :
    m.owner = none ∧ m' = { m with owner := some .waiter } := by
  unfold take at h
  split at h
  next hfree => exact ⟨hfree, (Option.some.inj h).symm⟩
  next => simp at h

/-! ## Mutual exclusion -/

/-- A thread owns the mutex exactly while it is between its lock and its unlock; `b`
tells whether the waiter is. -/
structure Exclusive (b : Bool) (m : Monitor Op) : Prop where
  waiter : m.owner = some .waiter ↔ b = true
  caller : ∀ n, m.owner = some (.caller n) ↔ (m.callers n).holds = true

theorem exclusive_empty : Exclusive false ({} : Monitor Op) where
  waiter := by simp
  caller n := by simp [CallerPosition.holds]

/-- The caller `n` moves on its side of the lock. -/
theorem Exclusive.move (h : Exclusive b m) {position : CallerPosition Op}
    (hholds : position.holds = (m.callers n).holds) : Exclusive b (m.move n position) where
  waiter := h.waiter
  caller k := by
    by_cases hk : k = n
    · subst hk
      rw [callers_move_self, hholds]
      exact h.caller k
    · rw [callers_move_of_ne hk]
      exact h.caller k

/-- The caller `n`, which owns the mutex, gives it up. -/
theorem Exclusive.moveOut (h : Exclusive b m) (hholds : (m.callers n).holds = true)
    {position : CallerPosition Op} (hout : position.holds = false) :
    Exclusive b { m.move n position with owner := none } where
  waiter := by
    have hb : ¬ b = true := by
      intro hb
      have hwaiter := h.waiter.mpr hb
      rw [(h.caller n).mpr hholds] at hwaiter
      simp at hwaiter
    simp [hb]
  caller k := by
    by_cases hk : k = n
    · subst hk
      simp [hout]
    · have hother : ¬ (m.callers k).holds = true := by
        intro hheld
        have howner := (h.caller k).mpr hheld
        rw [(h.caller n).mpr hholds] at howner
        exact hk (Holder.caller.inj (Option.some.inj howner)).symm
      simpa [callers_move_of_ne hk] using hother

/-- A caller that finds the mutex free takes it. -/
theorem Exclusive.moveIn (h : Exclusive b m) (hfree : m.owner = none)
    {position : CallerPosition Op} (hin : position.holds = true) :
    Exclusive b { m.move n position with owner := some (.caller n) } where
  waiter := by
    have hb : ¬ b = true := by
      intro hb
      have hwaiter := h.waiter.mpr hb
      simp [hfree] at hwaiter
    simp [hb]
  caller k := by
    by_cases hk : k = n
    · subst hk
      simp [hin]
    · have hother : ¬ (m.callers k).holds = true := by
        intro hheld
        have howner := (h.caller k).mpr hheld
        simp [hfree] at howner
      simp [callers_move_of_ne hk, hother, Ne.symm hk]

theorem Exclusive.steps (h : Exclusive b m) (hstep : Steps m n e m') : Exclusive b m' := by
  cases hstep with
  | enter op hposition => exact h.move (by rw [hposition]; rfl)
  | lock op hposition hfree => exact h.moveIn hfree rfl
  | unlock op hposition => exact h.moveOut (by rw [hposition]; rfl) rfl
  | throw op hposition => exact h.moveOut (by rw [hposition]; rfl) rfl
  | notify op hposition => exact h.move (by rw [hposition]; rfl)

theorem Exclusive.take (h : Exclusive b m) (hfree : m.owner = none) :
    Exclusive true { m with owner := some .waiter } where
  waiter := by simp
  caller n := by
    have hother := h.caller n
    simp only [hfree] at hother
    simpa using hother

theorem Exclusive.drop (h : Exclusive true m) : Exclusive false m.drop where
  waiter := by simp [Monitor.drop]
  caller n := by
    have hother := h.caller n
    simp only [h.waiter.mpr rfl] at hother
    simpa [Monitor.drop] using hother

/-- While a caller is at work the waiter does not own the mutex. -/
theorem Exclusive.eq_false_of_inside (h : Exclusive b m) {op : Op}
    (hposition : m.callers n = .inside op) : b = false := by
  apply eq_false_of_ne_true
  intro hb
  have hwaiter := h.waiter.mpr hb
  rw [(h.caller n).mpr (by rw [hposition]; rfl)] at hwaiter
  simp at hwaiter

/-! ## Notifications to come -/

/-- Some caller has done its work and has not yet notified. -/
def Owes (m : Monitor Op) : Prop := ∃ n, (m.callers n).owes = true

/-- A caller that has just done its work owes the notification. -/
theorem owes_move {position : CallerPosition Op} (h : position.owes = true) :
    (m.move n position).Owes :=
  ⟨n, by simpa using h⟩

theorem Owes.move (h : m.Owes) {position : CallerPosition Op}
    (howes : (m.callers n).owes = true → position.owes = true) : (m.move n position).Owes := by
  obtain ⟨k, hk⟩ := h
  by_cases hkn : k = n
  · subst hkn
    exact owes_move (howes hk)
  · exact ⟨k, by rw [callers_move_of_ne hkn]; exact hk⟩

/-- Only the notification itself settles what a caller owes. -/
theorem Owes.steps (h : m.Owes) (hstep : Steps m n e m') (hnotify : e ≠ .notify) :
    m'.Owes := by
  cases hstep with
  | enter op hposition => exact h.move (by simp [hposition, CallerPosition.owes])
  | lock op hposition hfree =>
      have hmoved : (m.move n (.inside op)).Owes :=
        h.move (by simp [hposition, CallerPosition.owes])
      exact hmoved
  | unlock op hposition =>
      have hmoved : (m.move n (.notifying op)).Owes := h.move (fun _ => rfl)
      exact hmoved
  | throw op hposition =>
      have hmoved : (m.move n .outside).Owes :=
        h.move (by simp [hposition, CallerPosition.owes])
      exact hmoved
  | notify op hposition => exact absurd rfl hnotify

/-- While the waiter owns the mutex nobody comes to owe a notification. -/
theorem Exclusive.owes_steps_iff (h : Exclusive true m) (hstep : Steps m n e m') (k : ℕ) :
    (m'.callers k).owes = true ↔ (m.callers k).owes = true ∧ ¬(k = n ∧ e = .notify) := by
  have hwaiter := h.waiter.mpr rfl
  have hnone : ∀ {position : CallerPosition Op}, m.callers n = position →
      position.holds = false := by
    rintro position rfl
    apply eq_false_of_ne_true
    intro hholds
    rw [(h.caller n).mpr hholds] at hwaiter
    exact Holder.noConfusion (Option.some.inj hwaiter)
  have hother : ∀ (position : CallerPosition Op), k ≠ n →
      ((m.move n position).callers k).owes = (m.callers k).owes :=
    fun position hk => congrArg CallerPosition.owes (callers_move_of_ne hk position m)
  cases hstep with
  | enter op hposition =>
      by_cases hk : k = n
      · subst hk
        simp [hposition, CallerPosition.owes]
      · simp [hother _ hk]
  | lock op hposition hfree => exact absurd (hfree.symm.trans hwaiter) (Option.some_ne_none _).symm
  | unlock op hposition | throw op hposition => exact Bool.noConfusion (hnone hposition)
  | notify op hposition =>
      by_cases hk : k = n
      · subst hk
        simp [CallerPosition.owes]
      · simp [hother _ hk, hk]

/-! ## The positions of the callers -/

/-- Some caller is at the position. -/
def HasCallerAt (position : CallerPosition Op) (m : Monitor Op) : Prop :=
  ∃ n, m.callers n = position

/-- The caller that moves is the only one that can be new at a position. -/
theorem HasCallerAt.of_move {position position' : CallerPosition Op}
    (h : (m.move n position').HasCallerAt position) :
    position' = position ∨ m.HasCallerAt position := by
  obtain ⟨k, hk⟩ := h
  by_cases hkn : k = n
  · subst hkn
    rw [callers_move_self] at hk
    exact Or.inl hk
  · rw [callers_move_of_ne hkn] at hk
    exact Or.inr ⟨k, hk⟩

/-- Every caller is at a position with the property `P`. -/
def AllCallers (P : CallerPosition Op → Prop) (m : Monitor Op) : Prop :=
  ∀ n, P (m.callers n)

theorem AllCallers.move {P : CallerPosition Op → Prop} (h : m.AllCallers P)
    {position : CallerPosition Op} (hposition : P position) :
    (m.move n position).AllCallers P := by
  intro k
  by_cases hk : k = n
  · subst hk
    rw [callers_move_self]
    exact hposition
  · rw [callers_move_of_ne hk]
    exact h k

/-- A property that calls have when they begin, and keep on both sides of the lock, is one
of all callers. -/
theorem AllCallers.steps {P : CallerPosition Op → Prop} (h : m.AllCallers P)
    (hstep : Steps m n e m') (houtside : P .outside)
    (henter : ∀ op, e = .enter op → P (.entering op))
    (hlock : ∀ op, P (.entering op) → P (.inside op))
    (hunlock : ∀ op, P (.leaving op false) → P (.notifying op)) : m'.AllCallers P := by
  cases hstep with
  | enter op hposition => exact h.move (henter op rfl)
  | lock op hposition hfree =>
      have hmoved : (m.move n (.inside op)).AllCallers P :=
        h.move (hlock op (hposition ▸ h n))
      exact hmoved
  | unlock op hposition =>
      have hmoved : (m.move n (.notifying op)).AllCallers P :=
        h.move (hunlock op (hposition ▸ h n))
      exact hmoved
  | throw op hposition =>
      have hmoved : (m.move n .outside).AllCallers P := h.move houtside
      exact hmoved
  | notify op hposition => exact h.move houtside

end Monitor

end Protoo.Support
