import Mathlib.Data.List.Infix

/-!
# Finite runs of partial labelled steps

A system is given by a partial step function `step : σ → ε → Option σ`: the
event `e` is possible in `s` exactly when `step s e` is `some t`, and then leads
to `t`.  `Run step C start events s` says that `events` leads from `start` to
`s` and that every event meets the condition `C` in the state where it happens.

The module supplies the induction rule for invariants and the rules by which a property
of whole runs is characterized by a condition on single steps, or on the events alone.
-/

namespace Protoo.Support

variable {σ ε : Type*} {step : σ → ε → Option σ} {C D : σ → ε → Prop}
  {start s t : σ} {events : List ε} {e : ε}

/-- `events`, oldest first, leads from `start` to the last index, every event
meeting `C` in the state where it happens. -/
inductive Run (step : σ → ε → Option σ) (C : σ → ε → Prop) (start : σ) :
    List ε → σ → Prop where
  | nil : Run step C start [] start
  | snoc {events : List ε} {s t : σ} {e : ε} :
      Run step C start events s → C s e → step s e = some t →
        Run step C start (events ++ [e]) t

/-- The condition met by every step. -/
def AnyStep : σ → ε → Prop := fun _ _ => True

/-- Every state that the run `events` passes through has the property `P`. -/
def Throughout (step : σ → ε → Option σ) (start : σ) (events : List ε)
    (P : σ → Prop) : Prop :=
  ∀ before s, before <+: events → Run step AnyStep start before s → P s

/-- Every state that the run `events` passes through has the property `P` together with
the events up to it. -/
def AllAlong (step : σ → ε → Option σ) (start : σ) (events : List ε)
    (P : List ε → σ → Prop) : Prop :=
  ∀ before s, before <+: events → Run step AnyStep start before s → P before s

/-- Every event of the list meets `D` after the events before it. -/
def Along (events : List ε) (D : List ε → ε → Prop) : Prop :=
  ∀ before e, before ++ [e] <+: events → D before e

/-- Every step of the run `events` has the property `Q` of the state before it,
its event and the state after it. -/
def Everywhere (step : σ → ε → Option σ) (start : σ) (events : List ε)
    (Q : σ → ε → σ → Prop) : Prop :=
  ∀ before e s t, before ++ [e] <+: events → Run step AnyStep start before s →
    step s e = some t → Q s e t

/-! ## Building runs and comparing their conditions -/

theorem Run.mono (h : Run step C start events s)
    (hCD : ∀ s e, C s e → D s e) : Run step D start events s := by
  induction h with
  | nil => exact .nil
  | snoc _ hC hstep ih => exact .snoc ih (hCD _ _ hC) hstep

/-- A condition on events alone is met by a run whose events meet it. -/
theorem Run.of_forall (h : Run step AnyStep start events s)
    (hC : ∀ e ∈ events, ∀ s, C s e) : Run step C start events s := by
  induction h with
  | nil => exact .nil
  | @snoc events s t e _ _ hstep ih =>
      refine .snoc (ih fun e he => hC e (List.mem_append_left _ he)) ?_ hstep
      exact hC e (List.mem_append_right _ (List.mem_singleton_self e)) s

theorem Run.append {mid : σ} {later : List ε}
    (h : Run step C start events mid) (h' : Run step C mid later s) :
    Run step C start (events ++ later) s := by
  induction h' with
  | nil => simpa using h
  | snoc _ hC hstep ih =>
      rw [← List.append_assoc]
      exact .snoc ih hC hstep

theorem Run.cons {mid : σ} {later : List ε} (hC : C start e)
    (hstep : step start e = some mid) (h : Run step C mid later s) :
    Run step C start (e :: later) s :=
  (Run.snoc .nil hC hstep : Run step C start ([] ++ [e]) mid).append h

/-- Folding the step function over a list of events yields the run it names;
this is how concrete runs are exhibited. -/
theorem run_of_foldlM (h : events.foldlM step start = some s) :
    Run step AnyStep start events s := by
  induction events generalizing start with
  | nil =>
      have hs : start = s := by simpa using h
      exact hs ▸ .nil
  | cons e events ih =>
      rw [List.foldlM_cons] at h
      obtain ⟨mid, hstep, hrest⟩ := Option.bind_eq_some_iff.mp h
      exact Run.cons trivial hstep (ih hrest)

/-- The same under a condition that is checked on the way. -/
theorem run_of_guarded_foldlM [∀ s e, Decidable (C s e)]
    (h : events.foldlM (fun s e => if C s e then step s e else none) start = some s) :
    Run step C start events s := by
  induction events generalizing start with
  | nil =>
      have hs : start = s := by simpa using h
      exact hs ▸ .nil
  | cons e events ih =>
      rw [List.foldlM_cons] at h
      obtain ⟨mid, hguarded, hrest⟩ := Option.bind_eq_some_iff.mp h
      obtain ⟨hC, hstep⟩ := Option.ite_none_right_eq_some.mp hguarded
      exact Run.cons hC hstep (ih hrest)

theorem foldlM_of_run (h : Run step C start events s) :
    events.foldlM step start = some s := by
  induction h with
  | nil => rfl
  | snoc _ _ hstep ih => simp [List.foldlM_append, ih, hstep]

/-- The last step of a run meets the condition in the state before it. -/
theorem Run.last_step (h : Run step C start (events ++ [e]) s) :
    ∃ mid, Run step C start events mid ∧ C mid e := by
  generalize hlist : events ++ [e] = whole at h
  cases h with
  | nil => simp at hlist
  | snoc hrun hC _ =>
      obtain ⟨rfl, he⟩ := List.append_inj' hlist rfl
      obtain rfl := List.singleton_inj.mp he
      exact ⟨_, hrun, hC⟩

/-- A run of two lists of events is a run of the first and one of the second. -/
theorem Run.split {later : List ε} (h : Run step C start (events ++ later) s) :
    ∃ mid, Run step C start events mid ∧ Run step C mid later s := by
  induction later using List.reverseRecOn generalizing s with
  | nil => exact ⟨s, by simpa using h, .nil⟩
  | append_singleton later e ih =>
      rw [← List.append_assoc] at h
      generalize hlist : events ++ later ++ [e] = whole at h
      cases h with
      | nil => simp at hlist
      | snoc hrun hC hstep =>
          obtain ⟨rfl, he⟩ := List.append_inj' hlist rfl
          obtain rfl := List.singleton_inj.mp he
          obtain ⟨mid, hbefore, hafter⟩ := ih hrun
          exact ⟨mid, hbefore, .snoc hafter hC hstep⟩

/-- The first step of a run, and the run after it. -/
theorem Run.uncons (h : Run step C start (e :: events) s) :
    ∃ mid, step start e = some mid ∧ Run step C mid events s := by
  have hcons : Run step C start ([e] ++ events) s := h
  obtain ⟨mid, hfirst, hrest⟩ := hcons.split
  have hfold := foldlM_of_run hfirst
  rw [List.foldlM_cons] at hfold
  obtain ⟨mid', hstep, hnil⟩ := Option.bind_eq_some_iff.mp hfold
  obtain rfl : mid' = mid := by simpa using hnil
  exact ⟨mid', hstep, hrest⟩

/-- A list of events leads to one state only. -/
theorem Run.unique (h : Run step C start events s)
    (h' : Run step D start events t) : s = t :=
  Option.some.inj ((foldlM_of_run h).symm.trans (foldlM_of_run h'))

/-- What is collected from the events of a run, one event later. -/
theorem filterMap_concat {α β : Type*} (f : α → Option β) (l : List α) (a : α) :
    (l ++ [a]).filterMap f = l.filterMap f ++ (f a).toList := by
  rw [List.filterMap_append]
  cases h : f a <;> simp [h]

/-! ## Invariants -/

/-- What holds at the start and is kept by every step meeting `C` holds at the
end of every run whose steps meet `C`. -/
theorem Run.invariant {I : σ → Prop} (h : Run step C start events s)
    (hstart : I start)
    (hkeep : ∀ {s t e}, I s → C s e → step s e = some t → I t) : I s := by
  induction h with
  | nil => exact hstart
  | snoc _ hC hstep ih => exact hkeep ih hC hstep

theorem Throughout.of_run {P : σ → Prop} (h : Throughout step start events P)
    (hrun : Run step AnyStep start events s) : P s :=
  h events s (List.prefix_refl events) hrun

/-- A prefix of a run is the run of that prefix, under the same condition. -/
theorem Run.exists_prefix (h : Run step C start events s) {before : List ε}
    (hb : before <+: events) : ∃ mid, Run step C start before mid := by
  induction h with
  | nil => exact ⟨start, List.prefix_nil.mp hb ▸ .nil⟩
  | @snoc events s t e hrun hC hstep ih =>
      rcases List.prefix_concat_iff.mp hb with heq | hprefix
      · exact ⟨t, heq ▸ .snoc hrun hC hstep⟩
      · exact ih hprefix

/-- What holds of every event of a list and of one more event. -/
theorem along_concat_iff {D : List ε → ε → Prop} :
    Along (events ++ [e]) D ↔ Along events D ∧ D events e := by
  constructor
  · intro h
    refine ⟨?_, h events e (List.prefix_refl _)⟩
    intro before e' hb
    exact h before e' (hb.trans (List.prefix_append events [e]))
  · rintro ⟨h, hlast⟩ before e' hb
    rcases List.prefix_concat_iff.mp hb with heq | hprefix
    · obtain ⟨rfl, he⟩ := List.append_inj' heq rfl
      obtain rfl := List.singleton_inj.mp he
      exact hlast
    · exact h before e' hprefix

theorem Along.mono {D : List ε → ε → Prop} (h : Along events D) {before : List ε}
    (hb : before <+: events) : Along before D :=
  fun first e hfirst => h first e (hfirst.trans hb)

theorem along_nil {D : List ε → ε → Prop} : Along [] D :=
  fun _ _ hb => absurd (List.prefix_nil.mp hb) (by simp)

/-- What is kept by every step whose event meets a condition on the events so far. -/
theorem Run.invariant_along {I : List ε → σ → Prop} {D : List ε → ε → Prop}
    (hrun : Run step AnyStep start events s) (hD : Along events D) (hstart : I [] start)
    (hkeep : ∀ {events s t e}, I events s → D events e → step s e = some t →
      I (events ++ [e]) t) : I events s := by
  induction hrun with
  | nil => exact hstart
  | snoc _ _ hstep ih =>
      obtain ⟨hbefore, hlast⟩ := along_concat_iff.mp hD
      exact hkeep (ih hbefore) hlast hstep

/-- What holds all along a run and after one more step. -/
theorem Run.allAlong_concat_iff {P : List ε → σ → Prop}
    (hrun : Run step AnyStep start events s) (hstep : step s e = some t) :
    AllAlong step start (events ++ [e]) P ↔ AllAlong step start events P ∧ P (events ++ [e]) t := by
  constructor
  · intro h
    refine ⟨?_, h _ t (List.prefix_refl _) (.snoc hrun trivial hstep)⟩
    intro before mid hb
    exact h before mid (hb.trans (List.prefix_append events [e]))
  · rintro ⟨h, hlast⟩ before mid hb hmid
    rcases List.prefix_concat_iff.mp hb with rfl | hprefix
    · obtain rfl := hmid.unique (.snoc hrun trivial hstep : Run step AnyStep start _ t)
      exact hlast
    · exact h before mid hprefix hmid

/-- The condition `C` characterizes a property `P` of states over whole runs: if an
invariant implying `P` is kept by the steps meeting `C`, and a step that leaves `P` true
meets `C`, then `P` holds throughout a run exactly when all its steps meet `C`. -/
theorem Run.throughout_iff {P I : σ → Prop}
    (hrun : Run step AnyStep start events s) (hstart : I start)
    (himp : ∀ {s}, I s → P s)
    (hkeep : ∀ {s t e}, I s → C s e → step s e = some t → I t)
    (hexact : ∀ {s t e}, I s → step s e = some t → P t → C s e) :
    Throughout step start events P ↔ Run step C start events s := by
  constructor
  · intro h
    induction hrun with
    | nil => exact .nil
    | snoc hprev _ hstep ih =>
        obtain ⟨hbefore, hlast⟩ := (hprev.allAlong_concat_iff (P := fun _ => P) hstep).mp h
        have hC := ih hbefore
        exact .snoc hC (hexact (hC.invariant hstart hkeep) hstep hlast) hstep
  · intro hC before mid hb hmid
    obtain ⟨mid', hmid'⟩ := hC.exists_prefix hb
    exact hmid.unique hmid' ▸ himp (hmid'.invariant hstart hkeep)

/-- A property of the events so far and the state characterized by a condition on the
events alone. -/
theorem Run.allAlong_iff_along {P I : List ε → σ → Prop} {D : List ε → ε → Prop}
    (hrun : Run step AnyStep start events s) (hstart : I [] start)
    (himp : ∀ {events s}, I events s → P events s)
    (hkeep : ∀ {events s t e}, I events s → D events e → step s e = some t →
      I (events ++ [e]) t)
    (hexact : ∀ {events s t e}, I events s → step s e = some t → P (events ++ [e]) t →
      D events e) :
    AllAlong step start events P ↔ Along events D := by
  induction hrun with
  | nil =>
      refine iff_of_true ?_ along_nil
      intro before mid hb hmid
      obtain rfl := List.prefix_nil.mp hb
      obtain rfl := hmid.unique (.nil : Run step AnyStep start [] start)
      exact himp hstart
  | snoc hprev _ hstep ih =>
      rw [hprev.allAlong_concat_iff hstep, along_concat_iff, ih]
      apply and_congr_right
      intro hbefore
      have hinv := hprev.invariant_along hbefore hstart hkeep
      exact ⟨hexact hinv hstep, fun hlast => himp (hkeep hinv hlast hstep)⟩

/-- What holds of every step of a run and of one more step. -/
theorem Run.everywhere_concat_iff {Q : σ → ε → σ → Prop}
    (hrun : Run step AnyStep start events s) (hstep : step s e = some t) :
    Everywhere step start (events ++ [e]) Q ↔ Everywhere step start events Q ∧ Q s e t := by
  constructor
  · intro h
    refine ⟨?_, h events e s t (List.prefix_refl _) hrun hstep⟩
    intro before e' s' t' hb
    exact h before e' s' t' (hb.trans (List.prefix_append events [e]))
  · rintro ⟨h, hlast⟩ before e' s' t' hb hbefore hstep'
    rcases List.prefix_concat_iff.mp hb with heq | hprefix
    · obtain ⟨rfl, he⟩ := List.append_inj' heq rfl
      obtain rfl := List.singleton_inj.mp he
      obtain rfl := hrun.unique hbefore
      obtain rfl := Option.some.inj (hstep.symm.trans hstep')
      exact hlast
    · exact h before e' s' t' hprefix hbefore hstep'

/-- The same for a condition on single steps: no invariant is needed when it decides each
step. -/
theorem Run.everywhere_iff {Q : σ → ε → σ → Prop}
    (hrun : Run step AnyStep start events s)
    (hiff : ∀ {s e t}, step s e = some t → (Q s e t ↔ C s e)) :
    Everywhere step start events Q ↔ Run step C start events s := by
  constructor
  · intro h
    induction hrun with
    | nil => exact .nil
    | @snoc events s t e hprev _ hstep ih =>
        obtain ⟨hbefore, hQ⟩ := (hprev.everywhere_concat_iff hstep).mp h
        exact .snoc (ih hbefore) ((hiff hstep).mp hQ) hstep
  · intro hC before e mid t hb hmid hstep
    obtain ⟨last, hlast⟩ := hC.exists_prefix hb
    obtain ⟨mid', hmid', hCe⟩ := hlast.last_step
    rw [hmid.unique hmid'] at hstep ⊢
    exact (hiff hstep).mpr hCe

/-! ## Ranks -/

/-- The goal is within reach, in no more steps than the rank, if short of it some step that
meets `C` lowers the rank. -/
theorem exists_run_of_rank {I Goal : σ → Prop} (rank : σ → ℕ)
    (hlower : ∀ s, I s → Goal s ∨ ∃ e t, C s e ∧ step s e = some t ∧ I t ∧ rank t < rank s)
    (hs : I s) :
    ∃ events t, Run step C s events t ∧ events.length ≤ rank s ∧ I t ∧ Goal t := by
  induction hn : rank s using Nat.strong_induction_on generalizing s with
  | _ n ih =>
      rcases hlower s hs with hgoal | ⟨e, mid, hC, hstep, hmid, hlt⟩
      · exact ⟨[], s, .nil, Nat.zero_le _, hs, hgoal⟩
      · obtain ⟨events, t, hrun, hlength, ht, hgoal⟩ := ih (rank mid) (hn ▸ hlt) hmid rfl
        refine ⟨e :: events, t, .cons hC hstep hrun, ?_, ht, hgoal⟩
        rw [List.length_cons]
        exact hn ▸ Nat.succ_le_of_lt (Nat.lt_of_le_of_lt hlength hlt)

/-- A rank that no step raises, and that the counted ones lower, bounds their number. -/
theorem Run.countP_le {I : σ → Prop} (rank : σ → ℕ) (counted : ε → Bool)
    (h : Run step C start events s) (hstart : I start)
    (hkeep : ∀ {s t e}, I s → C s e → step s e = some t →
      I t ∧ rank t + (if counted e then 1 else 0) ≤ rank s) :
    I s ∧ events.countP counted + rank s ≤ rank start := by
  induction h with
  | nil => exact ⟨hstart, by simp⟩
  | @snoc events s t e _ hC hstep ih =>
      obtain ⟨hs, hle⟩ := ih
      obtain ⟨ht, hlower⟩ := hkeep hs hC hstep
      refine ⟨ht, ?_⟩
      rw [List.countP_append, List.countP_singleton]
      omega

end Protoo.Support
