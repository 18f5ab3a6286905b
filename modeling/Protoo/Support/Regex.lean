import Mathlib.Data.List.Basic

/-!
# Backtracking regular expressions

A `Regex α` is built from single letters, of which each tests a letter with a predicate,
from optional and repeated letters, sequence, choice and numbered groups.  `results`
lists what is left of a text after each way to match its beginning, with what the groups
have captured, in the order in which a backtracking matcher tries them: the left choice
before the right one, and a greedy quantifier before its shorter ways.  `regexMatch` is
the first way that leaves nothing.

The rules about the first result serve to compute a match, and those about membership to
say what every match looks like.
-/

namespace Protoo.Support

variable {α : Type*}

inductive Regex (α : Type*) where
  | empty
  | one (accepts : α → Bool)
  | optional (accepts : α → Bool)
  | many (accepts : α → Bool)
  | seq (first second : Regex α)
  | either (first second : Regex α)
  | group (index : ℕ) (body : Regex α)

/-- What the groups have captured, the latest first. -/
abbrev Captures (α : Type*) := List (ℕ × List α)

/-- What is left after a greedy repetition of a letter, the longest way first. -/
def splits (accepts : α → Bool) : List α → List (List α)
  | [] => [[]]
  | a :: rest => if accepts a then splits accepts rest ++ [a :: rest] else [a :: rest]

namespace Regex

/-- What is left after a beginning of the text, and the captures. -/
def results : Regex α → List α → Captures α → List (List α × Captures α)
  | .empty, text, captures => [(text, captures)]
  | .one _, [], _ => []
  | .one accepts, a :: rest, captures => if accepts a then [(rest, captures)] else []
  | .optional _, [], captures => [([], captures)]
  | .optional accepts, a :: rest, captures =>
      if accepts a then [(rest, captures), (a :: rest, captures)] else [(a :: rest, captures)]
  | .many accepts, text, captures => (splits accepts text).map fun rest => (rest, captures)
  | .seq first second, text, captures =>
      (first.results text captures).flatMap fun result => second.results result.1 result.2
  | .either first second, text, captures =>
      first.results text captures ++ second.results text captures
  | .group index body, text, captures =>
      (body.results text captures).map fun result =>
        (result.1, (index, text.take (text.length - result.1.length)) :: result.2)

/-- `regex_match`: the captures of the first way to match the whole text. -/
def regexMatch (r : Regex α) (text : List α) : Option (Captures α) :=
  ((r.results text []).find? fun result => result.1.isEmpty).map Prod.snd

/-- The letters of a word, one after the other. -/
def word [DecidableEq α] : List α → Regex α
  | [] => .empty
  | a :: letters => .seq (.one fun b => decide (b = a)) (word letters)

end Regex

/-! ## One step of the matcher -/

namespace Regex

variable (accepts : α → Bool) (first second body : Regex α) (text : List α)
  (captures : Captures α)

theorem results_empty : empty.results text captures = [(text, captures)] := rfl

theorem results_one_cons (a : α) (rest : List α) :
    (one accepts).results (a :: rest) captures = if accepts a then [(rest, captures)] else [] :=
  rfl

theorem results_optional_nil :
    (optional accepts).results [] captures = [([], captures)] :=
  rfl

theorem results_optional_cons (a : α) (rest : List α) :
    (optional accepts).results (a :: rest) captures =
      if accepts a then [(rest, captures), (a :: rest, captures)] else [(a :: rest, captures)] :=
  rfl

theorem results_many :
    (many accepts).results text captures =
      (splits accepts text).map fun rest => (rest, captures) :=
  rfl

theorem results_seq :
    (seq first second).results text captures =
      (first.results text captures).flatMap fun result => second.results result.1 result.2 :=
  rfl

theorem results_either :
    (either first second).results text captures =
      first.results text captures ++ second.results text captures :=
  rfl

theorem results_group (index : ℕ) :
    (group index body).results text captures =
      (body.results text captures).map fun result =>
        (result.1, (index, text.take (text.length - result.1.length)) :: result.2) :=
  rfl

end Regex

/-! ## The first result -/

theorem splits_eq_cons (accepts : α → Bool) (text : List α) :
    ∃ others, splits accepts text = text.dropWhile accepts :: others := by
  induction text with
  | nil => exact ⟨[], rfl⟩
  | cons a rest ih =>
      cases ha : accepts a with
      | true =>
          obtain ⟨others, hothers⟩ := ih
          refine ⟨others ++ [a :: rest], ?_⟩
          rw [splits, if_pos ha, hothers, List.dropWhile_cons_of_pos ha]
          rfl
      | false => exact ⟨[], by simp [splits, ha]⟩

/-- A repetition takes what it can, up to a letter it does not accept. -/
theorem dropWhile_append_of_stop {accepts : α → Bool} {taken rest : List α}
    (htaken : ∀ a ∈ taken, accepts a = true) (hstop : ∀ a ∈ rest.head?, accepts a = false) :
    (taken ++ rest).dropWhile accepts = rest := by
  rw [List.dropWhile_append_of_pos htaken]
  cases rest with
  | nil => rfl
  | cons a rest => exact List.dropWhile_cons_of_neg (by simp [hstop a rfl])

theorem find?_of_head? {β : Type*} {p : β → Bool} {l : List β} {b : β} (hhead : l.head? = some b)
    (hb : p b = true) : l.find? p = some b := by
  obtain ⟨rest, rfl⟩ := List.head?_eq_some_iff.mp hhead
  exact List.find?_cons_of_pos hb

namespace Regex

variable {r first second : Regex α} {accepts : α → Bool} {text rest : List α}
  {captures later : Captures α}

theorem head?_optional_of_accepts {a : α} (h : accepts a = true) :
    ((optional accepts).results (a :: rest) captures).head? = some (rest, captures) := by
  rw [results_optional_cons, if_pos h]
  rfl

theorem head?_optional_of_not (h : ∀ a ∈ text.head?, accepts a = false) :
    ((optional accepts).results text captures).head? = some (text, captures) := by
  cases text with
  | nil => rfl
  | cons a rest => simp [results_optional_cons, h a rfl]

theorem head?_many (htaken : ∀ a ∈ text, accepts a = true)
    (hstop : ∀ a ∈ rest.head?, accepts a = false) :
    ((many accepts).results (text ++ rest) captures).head? = some (rest, captures) := by
  obtain ⟨others, hothers⟩ := splits_eq_cons accepts (text ++ rest)
  rw [results_many, hothers, dropWhile_append_of_stop htaken hstop]
  rfl

theorem head?_seq {result : List α × Captures α}
    (hfirst : (first.results text captures).head? = some (rest, later))
    (hsecond : (second.results rest later).head? = some result) :
    ((seq first second).results text captures).head? = some result := by
  obtain ⟨others, hothers⟩ := List.head?_eq_some_iff.mp hfirst
  obtain ⟨others', hothers'⟩ := List.head?_eq_some_iff.mp hsecond
  rw [results_seq, hothers, List.flatMap_cons, hothers']
  rfl

/-- What a group captures is what its body has taken. -/
theorem take_length_sub (taken rest : List α) :
    (taken ++ rest).take ((taken ++ rest).length - rest.length) = taken := by
  rw [List.length_append, Nat.add_sub_cancel]
  exact List.take_left

theorem head?_group (index : ℕ)
    (h : (r.results (text ++ rest) captures).head? = some (rest, later)) :
    ((group index r).results (text ++ rest) captures).head? =
      some (rest, (index, text) :: later) := by
  rw [results_group, List.head?_map, h, Option.map_some, take_length_sub]

/-- When the first way of the first part can be completed, it is the one that is taken. -/
theorem find?_seq_of_head? {p : List α × Captures α → Bool}
    (hfirst : (first.results text captures).head? = some (rest, later))
    (haccepted : ∃ result ∈ second.results rest later, p result = true) :
    ((seq first second).results text captures).find? p = (second.results rest later).find? p := by
  obtain ⟨others, hothers⟩ := List.head?_eq_some_iff.mp hfirst
  rw [results_seq, hothers, List.flatMap_cons, List.find?_append, Option.or_of_isSome]
  exact List.find?_isSome.mpr haccepted

/-! ## Every result -/

theorem mem_splits :
    rest ∈ splits accepts text ↔
      ∃ taken, text = taken ++ rest ∧ ∀ a ∈ taken, accepts a = true := by
  induction text with
  | nil =>
      constructor
      · intro h
        exact ⟨[], (List.mem_singleton.mp h).symm, by simp⟩
      · rintro ⟨taken, htext, -⟩
        exact List.mem_singleton.mpr (List.append_eq_nil_iff.mp htext.symm).2
  | cons a letters ih =>
      constructor
      · intro h
        rw [splits] at h
        split at h
        next ha =>
          rcases List.mem_append.mp h with h | h
          · obtain ⟨taken, rfl, htaken⟩ := ih.mp h
            exact ⟨a :: taken, rfl, List.forall_mem_cons.mpr ⟨ha, htaken⟩⟩
          · exact ⟨[], (List.mem_singleton.mp h).symm, by simp⟩
        next => exact ⟨[], (List.mem_singleton.mp h).symm, by simp⟩
      · rintro ⟨taken, htext, htaken⟩
        cases taken with
        | nil =>
            obtain rfl : a :: letters = rest := htext
            rw [splits]
            split <;> simp
        | cons b taken =>
            obtain ⟨rfl, rfl⟩ := List.cons.inj htext
            obtain ⟨hb, htaken⟩ := List.forall_mem_cons.mp htaken
            rw [splits, if_pos hb]
            exact List.mem_append_left _ (ih.mpr ⟨taken, rfl, htaken⟩)

theorem mem_one :
    (rest, later) ∈ (one accepts).results text captures ↔
      later = captures ∧ ∃ a, text = a :: rest ∧ accepts a = true := by
  cases text with
  | nil =>
      constructor
      · intro h
        exact absurd h List.not_mem_nil
      · rintro ⟨-, b, htext, -⟩
        cases htext
  | cons a letters =>
      constructor
      · intro h
        rw [results_one_cons] at h
        split at h
        next ha =>
          obtain ⟨rfl, rfl⟩ := Prod.mk.inj (List.mem_singleton.mp h)
          exact ⟨rfl, a, rfl, ha⟩
        next => exact absurd h List.not_mem_nil
      · rintro ⟨rfl, b, htext, hb⟩
        obtain ⟨rfl, rfl⟩ := List.cons.inj htext
        rw [results_one_cons, if_pos hb]
        exact List.mem_singleton_self _

theorem mem_optional :
    (rest, later) ∈ (optional accepts).results text captures ↔
      later = captures ∧ (text = rest ∨ ∃ a, text = a :: rest ∧ accepts a = true) := by
  cases text with
  | nil =>
      rw [results_optional_nil, List.mem_singleton, Prod.mk.injEq]
      constructor
      · rintro ⟨rfl, rfl⟩
        exact ⟨rfl, Or.inl rfl⟩
      · rintro ⟨rfl, rfl | ⟨a, htext, -⟩⟩
        · exact ⟨rfl, rfl⟩
        · exact absurd htext (by simp)
  | cons a letters =>
      have hskip : (rest, later) = (a :: letters, captures) → later = captures ∧
          (a :: letters = rest ∨ ∃ b, a :: letters = b :: rest ∧ accepts b = true) := by
        intro heq
        obtain ⟨rfl, rfl⟩ := Prod.mk.inj heq
        exact ⟨rfl, Or.inl rfl⟩
      constructor
      · intro h
        rw [results_optional_cons] at h
        split at h
        next ha =>
          rcases List.mem_cons.mp h with htake | h
          · obtain ⟨rfl, rfl⟩ := Prod.mk.inj htake
            exact ⟨rfl, Or.inr ⟨a, rfl, ha⟩⟩
          · exact hskip (List.mem_singleton.mp h)
        next => exact hskip (List.mem_singleton.mp h)
      · rintro ⟨rfl, rfl | ⟨b, htext, hb⟩⟩
        · rw [results_optional_cons]
          split <;> simp
        · obtain ⟨rfl, rfl⟩ := List.cons.inj htext
          rw [results_optional_cons, if_pos hb]
          exact List.mem_cons_self

theorem mem_many :
    (rest, later) ∈ (many accepts).results text captures ↔
      later = captures ∧ ∃ taken, text = taken ++ rest ∧ ∀ a ∈ taken, accepts a = true := by
  rw [results_many, List.mem_map]
  constructor
  · rintro ⟨rest', hmem, heq⟩
    obtain ⟨rfl, rfl⟩ := Prod.mk.inj heq
    exact ⟨rfl, mem_splits.mp hmem⟩
  · rintro ⟨rfl, h⟩
    exact ⟨rest, mem_splits.mpr h, rfl⟩

theorem mem_seq {result : List α × Captures α} :
    result ∈ (seq first second).results text captures ↔
      ∃ mid inner, (mid, inner) ∈ first.results text captures ∧
        result ∈ second.results mid inner := by
  simp [results_seq]

theorem mem_either {result : List α × Captures α} :
    result ∈ (either first second).results text captures ↔
      result ∈ first.results text captures ∨ result ∈ second.results text captures := by
  simp [results_either]

/-- A result is an end of the text. -/
theorem exists_append_of_mem (h : (rest, later) ∈ r.results text captures) :
    ∃ taken, text = taken ++ rest := by
  induction r generalizing text captures rest later with
  | empty => exact ⟨[], (Prod.mk.inj (List.mem_singleton.mp h)).1.symm⟩
  | one =>
      obtain ⟨-, a, rfl, -⟩ := mem_one.mp h
      exact ⟨[a], rfl⟩
  | optional =>
      obtain ⟨-, rfl | ⟨a, rfl, -⟩⟩ := mem_optional.mp h
      · exact ⟨[], rfl⟩
      · exact ⟨[a], rfl⟩
  | many =>
      obtain ⟨-, taken, htext, -⟩ := mem_many.mp h
      exact ⟨taken, htext⟩
  | seq first second ihFirst ihSecond =>
      obtain ⟨mid, inner, hmid, hrest⟩ := mem_seq.mp h
      obtain ⟨taken, rfl⟩ := ihFirst hmid
      obtain ⟨taken', rfl⟩ := ihSecond hrest
      exact ⟨taken ++ taken', (List.append_assoc _ _ _).symm⟩
  | either first second ihFirst ihSecond =>
      rcases mem_either.mp h with h | h
      · exact ihFirst h
      · exact ihSecond h
  | group index body ih =>
      obtain ⟨⟨rest', inner⟩, hmem, heq⟩ := List.mem_map.mp h
      obtain ⟨rfl, -⟩ := Prod.mk.inj heq
      exact ih hmem

theorem mem_group {index : ℕ} :
    (rest, later) ∈ (group index r).results text captures ↔
      ∃ taken inner, text = taken ++ rest ∧ (rest, inner) ∈ r.results text captures ∧
        later = (index, taken) :: inner := by
  rw [results_group, List.mem_map]
  constructor
  · rintro ⟨⟨rest', inner⟩, hmem, heq⟩
    obtain ⟨rfl, rfl⟩ := Prod.mk.inj heq
    obtain ⟨taken, rfl⟩ := exists_append_of_mem hmem
    exact ⟨taken, inner, rfl, hmem, by rw [take_length_sub]⟩
  · rintro ⟨taken, inner, rfl, hmem, rfl⟩
    exact ⟨(rest, inner), hmem, by rw [take_length_sub]⟩

theorem mem_word [DecidableEq α] {letters : List α} :
    (rest, later) ∈ (word letters).results text captures ↔
      later = captures ∧ text = letters ++ rest := by
  induction letters generalizing text with
  | nil =>
      rw [word, results_empty, List.mem_singleton, Prod.mk.injEq, and_comm, eq_comm (a := rest)]
      rfl
  | cons a letters ih =>
      rw [word, mem_seq]
      constructor
      · rintro ⟨mid, inner, hmid, hrest⟩
        obtain ⟨rfl, b, rfl, hb⟩ := mem_one.mp hmid
        obtain ⟨rfl, rfl⟩ := ih.mp hrest
        obtain rfl := of_decide_eq_true hb
        exact ⟨rfl, rfl⟩
      · rintro ⟨rfl, rfl⟩
        exact ⟨letters ++ rest, later, mem_one.mpr ⟨rfl, a, rfl, decide_eq_true rfl⟩,
          ih.mpr ⟨rfl, rfl⟩⟩

theorem mem_of_regexMatch (h : r.regexMatch text = some captures) :
    ([], captures) ∈ r.results text [] := by
  obtain ⟨⟨rest, later⟩, hfind, rfl⟩ := Option.map_eq_some_iff.mp h
  obtain rfl : rest = [] := by simpa using List.find?_some hfind
  exact List.mem_of_find?_eq_some hfind

end Regex

end Protoo.Support
