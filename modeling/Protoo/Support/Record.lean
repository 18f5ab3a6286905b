import Protoo.Support.Run

/-!
# Records of runs

A record lists what the steps of a run put out, in the order of the steps.  The
rules of this module read a record off a run step by step, and turn a balance
kept by every step (what was there and what came in is what went out and what is
left) into the balance of the whole run.
-/

namespace Protoo.Support

variable {σ ε α : Type*} {step : σ → ε → Option σ} {C : σ → ε → Prop}
  {start s t : σ} {events : List ε} {e : ε}

/-- What the steps of `events` put out, each `f` of the state before it, its event
and the state after it. -/
def record (step : σ → ε → Option σ) (f : σ → ε → σ → List α) : σ → List ε → List α
  | _, [] => []
  | s, e :: events =>
      match step s e with
      | some t => f s e t ++ record step f t events
      | none => []

theorem record_append_of_foldlM (f : σ → ε → σ → List α)
    (h : events.foldlM step start = some s) (later : List ε) :
    record step f start (events ++ later) =
      record step f start events ++ record step f s later := by
  induction events generalizing start with
  | nil =>
      obtain rfl : start = s := by simpa using h
      rfl
  | cons e events ih =>
      rw [List.foldlM_cons] at h
      obtain ⟨mid, hstep, hrest⟩ := Option.bind_eq_some_iff.mp h
      simp only [List.cons_append, record, hstep, ih hrest, List.append_assoc]

/-- The record of a run and a continuation. -/
theorem Run.record_append (h : Run step C start events s) (f : σ → ε → σ → List α)
    (later : List ε) :
    record step f start (events ++ later) =
      record step f start events ++ record step f s later :=
  record_append_of_foldlM f (foldlM_of_run h) later

/-- The record of a run and one more step. -/
theorem Run.record_snoc (h : Run step C start events s) (hstep : step s e = some t)
    (f : σ → ε → σ → List α) :
    record step f start (events ++ [e]) = record step f start events ++ f s e t := by
  rw [h.record_append f [e]]
  simp only [record, hstep, List.append_nil]

/-- What is in the contents at the start or came in along a run has gone out, in
the same order, or is still there. -/
theorem Run.balance {contents : σ → List α} {input output : σ → ε → σ → List α}
    (h : Run step C start events s)
    (hstep : ∀ {before s e t}, Run step C start before s → C s e → step s e = some t →
      contents s ++ input s e t = output s e t ++ contents t) :
    contents start ++ record step input start events =
      record step output start events ++ contents s := by
  induction h with
  | nil => simp [record]
  | snoc hrun hC hnext ih =>
      rw [hrun.record_snoc hnext input, hrun.record_snoc hnext output, ← List.append_assoc, ih,
        List.append_assoc, hstep hrun hC hnext, List.append_assoc]

end Protoo.Support
