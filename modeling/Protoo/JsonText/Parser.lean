import Protoo.JsonText.Grammar

/-!
# The parser

`sax_parse_internal` is one loop over the tokens with a stack of flags for the open
containers; each turn reads a value or the beginning of one and then, when a value is
complete, looks at the innermost container for what may follow.  The events go to
`json_sax_dom_parser`.

`parse_iff` is the result: the parser returns a value exactly for the texts of the
grammar, and this value.
-/

namespace Protoo.JsonText

/-- The exceptions of `parse`: `parse_error` and, for a number too large for a `double`,
`out_of_range`. -/
inductive ParseError where
  | syntaxError
  | outOfRange
  deriving DecidableEq

/-- The state of `sax_parse_internal` between two turns of its loop.  The innermost
container comes first in `states`, `true` for an array. -/
structure Parser where
  input : List Char
  lastToken : Token
  states : List Bool
  skipToStateEvaluation : Bool
  dom : Dom

/-- The end of a turn: the value is complete, or the loop goes on. -/
inductive Turn where
  | done (p : Parser)
  | again (p : Parser)

section

variable (floats : FloatText)

namespace Parser

def getToken (p : Parser) : Parser :=
  { p with lastToken := (scan floats p.input).1, input := (scan floats p.input).2 }

/-- The key and the separator behind it. -/
def parseKey (p : Parser) : Except ParseError Parser :=
  match p.lastToken with
  | .valueString key =>
      let q := getToken floats { p with dom := p.dom.key key }
      if q.lastToken = .nameSeparator then .ok q else .error .syntaxError
  | _ => .error .syntaxError

/-- The end of a container, after which the loop looks at the one around it. -/
def close (states : List Bool) (p : Parser) : Parser :=
  { p with dom := p.dom.endContainer, states := states, skipToStateEvaluation := true }

/-- The second half of a turn, after a value was read. -/
def stateEvaluation (p : Parser) : Except ParseError Turn :=
  match p.states with
  | [] => .ok (.done p)
  | true :: states =>
      let q := getToken floats p
      if q.lastToken = .valueSeparator then .ok (.again (getToken floats q))
      else if q.lastToken = .endArray then .ok (.again (q.close states))
      else .error .syntaxError
  | false :: states =>
      let q := getToken floats p
      if q.lastToken = .valueSeparator then do
        let r ← parseKey floats (getToken floats q)
        .ok (.again (getToken floats r))
      else if q.lastToken = .endObject then .ok (.again (q.close states))
      else .error .syntaxError

/-- A turn of the loop. -/
def turn (p : Parser) : Except ParseError Turn :=
  if p.skipToStateEvaluation then stateEvaluation floats { p with skipToStateEvaluation := false }
  else
    match p.lastToken with
    | .beginObject =>
        let q := getToken floats { p with dom := p.dom.startObject }
        if q.lastToken = .endObject then
          stateEvaluation floats { q with dom := q.dom.endContainer }
        else do
          let r ← parseKey floats q
          .ok (.again (getToken floats { r with states := false :: r.states }))
    | .beginArray =>
        let q := getToken floats { p with dom := p.dom.startArray }
        if q.lastToken = .endArray then
          stateEvaluation floats { q with dom := q.dom.endContainer }
        else .ok (.again { q with states := true :: q.states })
    | .valueFloat none => .error .outOfRange
    | .valueFloat (some q) => stateEvaluation floats { p with dom := p.dom.value (.float q) }
    | .literalFalse => stateEvaluation floats { p with dom := p.dom.value (.boolean false) }
    | .literalNull => stateEvaluation floats { p with dom := p.dom.value .null }
    | .literalTrue => stateEvaluation floats { p with dom := p.dom.value (.boolean true) }
    | .valueInteger n => stateEvaluation floats { p with dom := p.dom.value (.integer n) }
    | .valueString s => stateEvaluation floats { p with dom := p.dom.value (.string s) }
    | .valueUnsigned n => stateEvaluation floats { p with dom := p.dom.value (.integer n) }
    | .parseError => .error .syntaxError
    | .endOfInput => .error .syntaxError
    | .endArray | .endObject | .nameSeparator | .valueSeparator => .error .syntaxError

variable {floats}

theorem parseKey_iff {p q : Parser} :
    parseKey floats p = .ok q ↔
      ∃ key, p.lastToken = .valueString key ∧
        q = getToken floats { p with dom := p.dom.key key } ∧ q.lastToken = .nameSeparator := by
  constructor
  · intro h
    rw [parseKey] at h
    split at h
    next key hkey =>
      dsimp only at h
      split at h
      next hcolon =>
        obtain rfl := Except.ok.inj h
        exact ⟨key, hkey, rfl, hcolon⟩
      next => exact nomatch h
    next => exact nomatch h
  · rintro ⟨key, hkey, rfl, hcolon⟩
    rw [parseKey, hkey]
    exact if_pos hcolon

variable (floats)

/-- What may follow a value. -/
inductive Evaluates (p : Parser) : Turn → Prop where
  | done (hstates : p.states = []) : Evaluates p (.done p)
  | nextElement {states : List Bool} (hstates : p.states = true :: states)
      (htoken : (getToken floats p).lastToken = .valueSeparator) :
      Evaluates p (.again (getToken floats (getToken floats p)))
  | endArray {states : List Bool} (hstates : p.states = true :: states)
      (htoken : (getToken floats p).lastToken = .endArray) :
      Evaluates p (.again ((getToken floats p).close states))
  | nextMember {states : List Bool} {q : Parser} (hstates : p.states = false :: states)
      (htoken : (getToken floats p).lastToken = .valueSeparator)
      (hkey : parseKey floats (getToken floats (getToken floats p)) = .ok q) :
      Evaluates p (.again (getToken floats q))
  | endObject {states : List Bool} (hstates : p.states = false :: states)
      (htoken : (getToken floats p).lastToken = .endObject) :
      Evaluates p (.again ((getToken floats p).close states))

/-- What a turn can do. -/
inductive Takes (p : Parser) : Turn → Prop where
  | resumed {t : Turn} (hskip : p.skipToStateEvaluation = true)
      (h : Evaluates floats { p with skipToStateEvaluation := false } t) : Takes p t
  | scalar {v : Json} {t : Turn} (hskip : p.skipToStateEvaluation = false)
      (hscalar : p.lastToken.scalar = some v)
      (h : Evaluates floats { p with dom := p.dom.value v } t) : Takes p t
  | emptyObject {q : Parser} {t : Turn} (hskip : p.skipToStateEvaluation = false)
      (htoken : p.lastToken = .beginObject)
      (hq : q = getToken floats { p with dom := p.dom.startObject })
      (hend : q.lastToken = .endObject)
      (h : Evaluates floats { q with dom := q.dom.endContainer } t) : Takes p t
  | object {q : Parser} (hskip : p.skipToStateEvaluation = false)
      (htoken : p.lastToken = .beginObject)
      (hkey : parseKey floats (getToken floats { p with dom := p.dom.startObject }) = .ok q) :
      Takes p (.again (getToken floats { q with states := false :: q.states }))
  | emptyArray {q : Parser} {t : Turn} (hskip : p.skipToStateEvaluation = false)
      (htoken : p.lastToken = .beginArray)
      (hq : q = getToken floats { p with dom := p.dom.startArray })
      (hend : q.lastToken = .endArray)
      (h : Evaluates floats { q with dom := q.dom.endContainer } t) : Takes p t
  | array {q : Parser} (hskip : p.skipToStateEvaluation = false)
      (htoken : p.lastToken = .beginArray)
      (hq : q = getToken floats { p with dom := p.dom.startArray })
      (hend : q.lastToken ≠ .endArray) : Takes p (.again { q with states := true :: q.states })

variable {floats}

theorem stateEvaluation_iff {p : Parser} {t : Turn} :
    stateEvaluation floats p = .ok t ↔ Evaluates floats p t := by
  constructor
  · intro h
    rw [stateEvaluation] at h
    split at h
    next hstates =>
      obtain rfl := Except.ok.inj h
      exact .done hstates
    next states hstates =>
      dsimp only at h
      split at h
      next htoken =>
        obtain rfl := Except.ok.inj h
        exact .nextElement hstates htoken
      next =>
        split at h
        next htoken =>
          obtain rfl := Except.ok.inj h
          exact .endArray hstates htoken
        next => exact nomatch h
    next states hstates =>
      dsimp only at h
      split at h
      next htoken =>
        obtain ⟨q, hkey, hq⟩ := exists_of_bind_eq_ok h
        obtain rfl := Except.ok.inj hq
        exact .nextMember hstates htoken hkey
      next =>
        split at h
        next htoken =>
          obtain rfl := Except.ok.inj h
          exact .endObject hstates htoken
        next => exact nomatch h
  · intro h
    cases h with
    | done hstates => simp [stateEvaluation, hstates]
    | nextElement hstates htoken => simp [stateEvaluation, hstates, htoken]
    | endArray hstates htoken => simp [stateEvaluation, hstates, htoken]
    | nextMember hstates htoken hkey => simp [stateEvaluation, hstates, htoken, hkey]
    | endObject hstates htoken => simp [stateEvaluation, hstates, htoken]

/-! A turn by the token it begins with. -/

theorem turn_scalar {p : Parser} {v : Json} (hskip : p.skipToStateEvaluation = false)
    (h : p.lastToken.scalar = some v) :
    turn floats p = stateEvaluation floats { p with dom := p.dom.value v } := by
  obtain ⟨input, token, states, skip, dom⟩ := p
  obtain rfl : skip = false := hskip
  rw [turn, if_neg Bool.false_ne_true]
  cases token with
  | literalTrue | literalFalse | literalNull | valueString | valueUnsigned | valueInteger =>
      obtain rfl := Option.some.inj h
      rfl
  | valueFloat value =>
      cases value with
      | none => exact nomatch h
      | some q =>
          obtain rfl := Option.some.inj h
          rfl
  | _ => exact nomatch h

theorem turn_emptyObject {p q : Parser} (hskip : p.skipToStateEvaluation = false)
    (htoken : p.lastToken = .beginObject)
    (hq : q = getToken floats { p with dom := p.dom.startObject })
    (hend : q.lastToken = .endObject) :
    turn floats p = stateEvaluation floats { q with dom := q.dom.endContainer } := by
  obtain ⟨input, token, states, skip, dom⟩ := p
  obtain rfl : skip = false := hskip
  obtain rfl : token = .beginObject := htoken
  subst hq
  exact if_pos hend

theorem turn_object {p q : Parser} (hskip : p.skipToStateEvaluation = false)
    (htoken : p.lastToken = .beginObject)
    (hkey : parseKey floats (getToken floats { p with dom := p.dom.startObject }) = .ok q) :
    turn floats p = .ok (.again (getToken floats { q with states := false :: q.states })) := by
  obtain ⟨input, token, states, skip, dom⟩ := p
  obtain rfl : skip = false := hskip
  obtain rfl : token = .beginObject := htoken
  obtain ⟨key, hstring, -, -⟩ := parseKey_iff.mp hkey
  have hne := ne_of_eq_of_ne hstring (nofun : Token.valueString key ≠ .endObject)
  have hbind : ∀ r : Except ParseError Parser, r = .ok q →
      (do let q ← r
          .ok (Turn.again (getToken floats { q with states := false :: q.states }))) =
        Except.ok (Turn.again (getToken floats { q with states := false :: q.states })) := by
    rintro _ rfl
    rfl
  exact (if_neg hne).trans (hbind _ hkey)

theorem turn_emptyArray {p q : Parser} (hskip : p.skipToStateEvaluation = false)
    (htoken : p.lastToken = .beginArray)
    (hq : q = getToken floats { p with dom := p.dom.startArray })
    (hend : q.lastToken = .endArray) :
    turn floats p = stateEvaluation floats { q with dom := q.dom.endContainer } := by
  obtain ⟨input, token, states, skip, dom⟩ := p
  obtain rfl : skip = false := hskip
  obtain rfl : token = .beginArray := htoken
  subst hq
  exact if_pos hend

theorem turn_array {p q : Parser} (hskip : p.skipToStateEvaluation = false)
    (htoken : p.lastToken = .beginArray)
    (hq : q = getToken floats { p with dom := p.dom.startArray })
    (hend : q.lastToken ≠ .endArray) :
    turn floats p = .ok (.again { q with states := true :: q.states }) := by
  obtain ⟨input, token, states, skip, dom⟩ := p
  obtain rfl : skip = false := hskip
  obtain rfl : token = .beginArray := htoken
  subst hq
  exact if_neg hend

theorem turn_iff {p : Parser} {t : Turn} : turn floats p = .ok t ↔ Takes floats p t := by
  constructor
  · intro h
    rw [turn] at h
    split at h
    next hskip => exact .resumed hskip (stateEvaluation_iff.mp h)
    next hskip =>
      have hskip : p.skipToStateEvaluation = false := eq_false_of_ne_true hskip
      have hscalar : ∀ {v : Json}, p.lastToken.scalar = some v →
          stateEvaluation floats { p with dom := p.dom.value v } = .ok t → Takes floats p t :=
        fun hv h => .scalar hskip hv (stateEvaluation_iff.mp h)
      split at h
      next htoken =>
        dsimp only at h
        split at h
        next hend => exact .emptyObject hskip htoken rfl hend (stateEvaluation_iff.mp h)
        next =>
          obtain ⟨q, hkey, hq⟩ := exists_of_bind_eq_ok h
          obtain rfl := Except.ok.inj hq
          exact .object hskip htoken hkey
      next htoken =>
        dsimp only at h
        split at h
        next hend => exact .emptyArray hskip htoken rfl hend (stateEvaluation_iff.mp h)
        next hend =>
          obtain rfl := Except.ok.inj h
          exact .array hskip htoken rfl hend
      next => exact nomatch h
      next q htoken => exact hscalar (htoken ▸ rfl) h
      next htoken => exact hscalar (htoken ▸ rfl) h
      next htoken => exact hscalar (htoken ▸ rfl) h
      next htoken => exact hscalar (htoken ▸ rfl) h
      next n htoken => exact hscalar (htoken ▸ rfl) h
      next string htoken => exact hscalar (htoken ▸ rfl) h
      next n htoken => exact hscalar (htoken ▸ rfl) h
      all_goals exact nomatch h
  · intro h
    cases h with
    | resumed hskip h => rw [turn, if_pos hskip, stateEvaluation_iff.mpr h]
    | scalar hskip hscalar h => rw [turn_scalar hskip hscalar, stateEvaluation_iff.mpr h]
    | emptyObject hskip htoken hq hend h =>
        rw [turn_emptyObject hskip htoken hq hend, stateEvaluation_iff.mpr h]
    | object hskip htoken hkey => exact turn_object hskip htoken hkey
    | emptyArray hskip htoken hq hend h =>
        rw [turn_emptyArray hskip htoken hq hend, stateEvaluation_iff.mpr h]
    | array hskip htoken hq hend => exact turn_array hskip htoken hq hend

/-! ## The loop ends -/

/-- What is left to do: the input and the token read last, unless this one ends the loop. -/
def weight (p : Parser) : ℕ :=
  if p.skipToStateEvaluation = false ∧ p.lastToken.ends = true then 0 else p.input.length + 1

theorem weight_le (p : Parser) : p.weight ≤ p.input.length + 1 := by
  unfold weight
  split
  · exact Nat.zero_le _
  · exact Nat.le_refl _

theorem lexeme_getToken {p : Parser} {token : Token} (h : (getToken floats p).lastToken = token)
    (hends : token.ends = false) : Lexeme floats p.input token (getToken floats p).input :=
  (scan_iff (Token.ne_parseError hends)).mp (h ▸ rfl)

theorem length_getToken_lt {p : Parser} {token : Token}
    (h : (getToken floats p).lastToken = token) (hends : token.ends = false) :
    (getToken floats p).input.length < p.input.length :=
  (lexeme_getToken h hends).length_lt hends

/-- Reading a token makes progress. -/
theorem weight_getToken_le (p : Parser) (hskip : p.skipToStateEvaluation = false) :
    (getToken floats p).weight ≤ p.input.length := by
  unfold weight
  split
  · exact Nat.zero_le _
  next h => exact length_getToken_lt rfl (eq_false_of_ne_true fun hends => h ⟨hskip, hends⟩)

/-- The parser after a key has less input. -/
theorem parseKey_keeps {p q : Parser} (h : parseKey floats p = .ok q) :
    q.input.length < p.input.length ∧ q.skipToStateEvaluation = p.skipToStateEvaluation := by
  obtain ⟨key, -, rfl, hcolon⟩ := parseKey_iff.mp h
  exact ⟨length_getToken_lt hcolon rfl, rfl⟩

/-- After a value the loop goes on only with less input. -/
theorem Evaluates.weight_le {p q : Parser} (h : Evaluates floats p (.again q))
    (hskip : p.skipToStateEvaluation = false) : q.weight ≤ p.input.length := by
  cases h with
  | nextElement hstates htoken =>
      have hlt := length_getToken_lt htoken rfl
      exact (weight_getToken_le (getToken floats p) hskip).trans hlt.le
  | endArray hstates htoken | endObject hstates htoken =>
      have hlt := length_getToken_lt htoken rfl
      exact (Parser.weight_le _).trans hlt
  | @nextMember states r hstates htoken hkey =>
      have hlt := length_getToken_lt htoken rfl
      obtain ⟨key, hstring, -, -⟩ := parseKey_iff.mp hkey
      have hlt' := length_getToken_lt hstring rfl
      obtain ⟨hshort, hsame⟩ := parseKey_keeps hkey
      have hle : (getToken floats r).weight ≤ r.input.length :=
        weight_getToken_le r (hsame.trans hskip)
      omega

/-- A turn after which the loop goes on makes progress. -/
theorem weight_lt_of_turn {p q : Parser} (h : turn floats p = .ok (.again q)) :
    q.weight < p.weight := by
  have hweight : ∀ {token : Token}, p.lastToken = token → token.ends = false →
      p.weight = p.input.length + 1 := by
    rintro token rfl hends
    exact if_neg fun hlast => absurd (hlast.2.symm.trans hends) (by decide)
  cases turn_iff.mp h with
  | resumed hskip h =>
      have hle := h.weight_le rfl
      have hmore : p.weight = p.input.length + 1 :=
        if_neg fun hlast => absurd (hskip.symm.trans hlast.1) (by decide)
      exact hmore ▸ Nat.lt_succ_of_le hle
  | scalar hskip hscalar h =>
      have hmore := hweight rfl (Token.ends_of_scalar hscalar)
      exact hmore ▸ Nat.lt_succ_of_le (h.weight_le hskip)
  | emptyObject hskip htoken hq hend h | emptyArray hskip htoken hq hend h =>
      subst hq
      have hle := h.weight_le hskip
      have hlt := length_getToken_lt hend rfl
      rw [hweight htoken rfl]
      exact Nat.lt_succ_of_le (hle.trans hlt.le)
  | object hskip htoken hkey =>
      obtain ⟨key, hstring, -, -⟩ := parseKey_iff.mp hkey
      have hlt := length_getToken_lt hstring rfl
      obtain ⟨hshort, hsame⟩ := parseKey_keeps hkey
      rw [hweight htoken rfl]
      refine Nat.lt_succ_of_le ((weight_getToken_le _ (hsame.trans hskip)).trans ?_)
      exact hshort.le.trans hlt.le
  | array hskip htoken hq hend =>
      subst hq
      rw [hweight htoken rfl]
      exact Nat.lt_succ_of_le (weight_getToken_le { p with dom := p.dom.startArray } hskip)

variable (floats)

/-- `sax_parse_internal`: the state in which the loop ends. -/
def run (p : Parser) : Except ParseError Parser :=
  match _ : turn floats p with
  | .error error => .error error
  | .ok (.done q) => .ok q
  | .ok (.again q) => run q
termination_by p.weight
decreasing_by exact weight_lt_of_turn ‹_›

/-- The loop goes on from the end of a turn. -/
def proceed : Except ParseError Turn → Except ParseError Parser
  | .error error => .error error
  | .ok (.done q) => .ok q
  | .ok (.again q) => run floats q

theorem run_eq (p : Parser) : run floats p = proceed floats (turn floats p) := by
  rw [run]
  split
  next error h => rw [h, proceed]
  next q h => rw [h, proceed]
  next q h => rw [h, proceed]

/-- What the loop does once a value was read. -/
def resume (p : Parser) : Except ParseError Parser := proceed floats (stateEvaluation floats p)

end Parser

/-- `parser::parse` in strict mode, with the first token read by the constructor. -/
def parse (text : List Char) : Except ParseError Json := do
  let p ← Parser.run floats
    ⟨(scanFirst floats text).2, (scanFirst floats text).1, [], false, Dom.start⟩
  if (p.getToken floats).lastToken = .endOfInput then .ok p.dom.root else .error .syntaxError

namespace Parser

/-! ## Texts of the grammar are read -/

/-- The parser read the first token of the input, which begins the next value. -/
structure Before (p : Parser) (input : List Char) (states : List Bool) (frames : List Frame) :
    Prop where
  token : scan floats input = (p.lastToken, p.input)
  states : p.states = states
  skip : p.skipToStateEvaluation = false
  awaits : p.dom.Awaits frames

variable {floats}

/-- The parser read the value and looks at what follows. -/
structure After (p : Parser) (rest : List Char) (states : List Bool) (frames : List Frame)
    (v : Json) : Prop where
  input : p.input = rest
  states : p.states = states
  skip : p.skipToStateEvaluation = false
  holds : p.dom.Holds frames v

theorem run_of_turn {p q : Parser} (h : turn floats p = stateEvaluation floats q) :
    run floats p = resume floats q := by
  rw [run_eq, h, resume]

theorem run_again {p q : Parser} (h : turn floats p = .ok (.again q)) :
    run floats p = run floats q := by
  rw [run_eq, h, proceed]

theorem resume_again {p q : Parser} (h : Evaluates floats p (.again q)) :
    resume floats p = run floats q := by
  rw [resume, stateEvaluation_iff.mpr h, proceed]

/-- A closed container is a value of the container around it. -/
theorem run_close (p : Parser) (hskip : p.skipToStateEvaluation = false) (states : List Bool) :
    run floats (p.close states) =
      resume floats { p with dom := p.dom.endContainer, states := states } := by
  refine run_of_turn ?_
  obtain ⟨input, token, states', skip, dom⟩ := p
  obtain rfl : skip = false := hskip
  rfl

theorem Before.lexeme {p : Parser} {input rest : List Char} {states : List Bool}
    {frames : List Frame} {token : Token} (hp : Before floats p input states frames)
    (h : Lexeme floats input token rest) : p.lastToken = token ∧ p.input = rest :=
  Prod.mk.inj (hp.token.symm.trans h.scan)

theorem scan_getToken {p : Parser} {input : List Char} (h : p.input = input) :
    scan floats input = ((getToken floats p).lastToken, (getToken floats p).input) := h ▸ rfl

/-- The next token of the input. -/
theorem getToken_of_lexeme {p : Parser} {rest : List Char} {token : Token}
    (h : Lexeme floats p.input token rest) :
    (getToken floats p).lastToken = token ∧ (getToken floats p).input = rest :=
  Prod.mk.inj h.scan

variable (floats)

/-- The parser read the first token of a pair, in an object with the members before it. -/
structure AtPair (p : Parser) (input : List Char) (outer : List Frame) (members : Members) :
    Prop where
  token : scan floats input = (p.lastToken, p.input)
  skip : p.skipToStateEvaluation = false
  hopen : p.dom.Open outer (.object members.list)

variable {floats}

/-- After the key the parser reads its value. -/
theorem AtPair.parseKey {p : Parser} {input colon first : List Char} {outer : List Frame}
    {members : Members} {key : String} (hp : AtPair floats p input outer members)
    (hkey : Lexeme floats input (.valueString key) colon)
    (hcolon : Lexeme floats colon .nameSeparator first) (states : List Bool) :
    ∃ q, Parser.parseKey floats p = .ok q ∧ q.states = p.states ∧
      Before floats (getToken floats { q with states := false :: states }) first
        (false :: states) (.object members key :: outer) := by
  obtain ⟨htoken, rfl⟩ := Prod.mk.inj (hp.token.symm.trans hkey.scan)
  obtain ⟨hname, rfl⟩ := getToken_of_lexeme (p := { p with dom := p.dom.key key }) hcolon
  refine ⟨_, parseKey_iff.mpr ⟨key, htoken, rfl, hname⟩, rfl, ?_⟩
  exact ⟨rfl, rfl, hp.skip, hp.hopen.key key⟩

/-- The end of an array or object in which a value was read. -/
theorem After.close {p : Parser} {mid rest : List Char} {states : List Bool} {kind : Bool}
    {frame : Frame} {outer : List Frame} {v : Json} {token : Token}
    (hp : After p mid (kind :: states) (frame :: outer) v) (hend : Lexeme floats mid token rest)
    (hclose : (getToken floats p).lastToken = token →
      Evaluates floats p (.again ((getToken floats p).close states))) :
    ∃ q, After q rest states outer (frame.fill v) ∧ resume floats p = resume floats q := by
  obtain ⟨htoken, hinput⟩ := getToken_of_lexeme (hp.input ▸ hend)
  refine ⟨_, ?_, (resume_again (hclose htoken)).trans
    (run_close (getToken floats p) hp.skip states)⟩
  exact ⟨hinput, rfl, hp.skip, hp.holds.hopen.endContainer⟩

mutual

/-- A value of the grammar is read, and the loop goes on behind it. -/
theorem run_valueText {input rest : List Char} {v : Json} :
    ValueText floats input v rest → ∀ {p : Parser} {states : List Bool} {frames : List Frame},
      Before floats p input states frames →
        ∃ q, After q rest states frames v ∧ run floats p = resume floats q
  | .scalar h hscalar, p, states, frames, hp => by
      obtain ⟨htoken, hinput⟩ := hp.lexeme h
      refine ⟨_, ?_, run_of_turn (turn_scalar hp.skip (htoken ▸ hscalar))⟩
      exact ⟨hinput, hp.states, hp.skip, hp.awaits.value v⟩
  | .emptyArray h hend, p, states, frames, hp => by
      obtain ⟨htoken, rfl⟩ := hp.lexeme h
      obtain ⟨hclose, rfl⟩ := getToken_of_lexeme (p := { p with dom := p.dom.startArray }) hend
      have hopen := hp.awaits.startContainer (.array [])
      refine ⟨_, ?_, run_of_turn (turn_emptyArray hp.skip htoken rfl hclose)⟩
      exact ⟨rfl, hp.states, hp.skip, hopen.endContainer⟩
  | .emptyObject h hend, p, states, frames, hp => by
      obtain ⟨htoken, rfl⟩ := hp.lexeme h
      obtain ⟨hclose, rfl⟩ := getToken_of_lexeme (p := { p with dom := p.dom.startObject }) hend
      have hopen := hp.awaits.startContainer (.object [])
      refine ⟨_, ?_, run_of_turn (turn_emptyObject hp.skip htoken rfl hclose)⟩
      exact ⟨rfl, hp.states, hp.skip, hopen.endContainer⟩
  | .array h helements, p, states, frames, hp => by
      obtain ⟨htoken, hinput⟩ := hp.lexeme h
      obtain ⟨token, after, hfirst, hne⟩ := helements.first
      have hopen := hp.awaits.startContainer (.array [])
      have hnext : (getToken floats { p with dom := p.dom.startArray }).lastToken = token :=
        (getToken_of_lexeme (p := { p with dom := p.dom.startArray }) (hinput ▸ hfirst)).1
      have hturn := turn_array hp.skip htoken rfl (ne_of_eq_of_ne hnext hne)
      let r := getToken floats { p with dom := p.dom.startArray }
      have hbefore : Before floats { r with states := true :: r.states } _ (true :: states)
          (.array [] :: frames) :=
        ⟨scan_getToken hinput, congrArg (true :: ·) hp.states, hp.skip, .element hopen⟩
      obtain ⟨q, hq, hrun⟩ := run_elementsText helements hbefore
      exact ⟨q, hq, (run_again hturn).trans hrun⟩
  | .object h hmembers, p, states, frames, hp => by
      obtain ⟨htoken, hinput⟩ := hp.lexeme h
      have hopen := hp.awaits.startContainer (.object [])
      have hpair : AtPair floats (getToken floats { p with dom := p.dom.startObject }) _ frames
          .empty := ⟨scan_getToken hinput, hp.skip, hopen⟩
      obtain ⟨r, hkey, hsame, q, hq, hrun⟩ := run_membersText hmembers states hpair
      obtain rfl : r.states = states := hsame.trans hp.states
      exact ⟨q, hq, (run_again (turn_object hp.skip htoken hkey)).trans hrun⟩

theorem run_elementsText {input rest : List Char} {vs : List Json} :
    ElementsText floats input vs rest → ∀ {p : Parser} {states : List Bool}
      {elements : List Json} {outer : List Frame},
      Before floats p input (true :: states) (.array elements :: outer) →
        ∃ q, After q rest states outer (.array (elements ++ vs)) ∧
          run floats p = resume floats q
  | .last h hend, p, states, elements, outer, hp => by
      obtain ⟨q, hq, hrun⟩ := run_valueText h hp
      obtain ⟨r, hr, hresume⟩ := hq.close hend (.endArray hq.states)
      exact ⟨r, hr, hrun.trans hresume⟩
  | .cons h hseparator helements, p, states, elements, outer, hp => by
      obtain ⟨q, hq, hrun⟩ := run_valueText h hp
      obtain ⟨hnext, hinput⟩ := getToken_of_lexeme (hq.input ▸ hseparator)
      have hbefore : Before floats (getToken floats (getToken floats q)) _ (true :: states) _ :=
        ⟨scan_getToken hinput, hq.states, hq.skip, .element hq.holds.hopen⟩
      obtain ⟨r, hr, hrest⟩ := run_elementsText helements hbefore
      rw [List.append_assoc] at hr
      exact ⟨r, hr, hrun.trans ((resume_again (.nextElement hq.states hnext)).trans hrest)⟩

theorem run_membersText {input rest : List Char} {pairs : List (String × Json)} :
    MembersText floats input pairs rest → ∀ (states : List Bool) {p : Parser}
      {members : Members} {outer : List Frame}, AtPair floats p input outer members →
        ∃ r, Parser.parseKey floats p = .ok r ∧ r.states = p.states ∧
          ∃ q, After q rest states outer (.object (members.ofPairs pairs).list) ∧
            run floats (getToken floats { r with states := false :: states }) =
              resume floats q
  | .last hkey hcolon h hend, states, p, members, outer, hp => by
      obtain ⟨r, hparse, hsame, hbefore⟩ := hp.parseKey hkey hcolon states
      obtain ⟨q, hq, hrun⟩ := run_valueText h hbefore
      obtain ⟨q', hq', hresume⟩ := hq.close hend (.endObject hq.states)
      exact ⟨r, hparse, hsame, q', hq', hrun.trans hresume⟩
  | .cons hkey hcolon h hseparator hmembers, states, p, members, outer, hp => by
      obtain ⟨r, hparse, hsame, hbefore⟩ := hp.parseKey hkey hcolon states
      obtain ⟨q, hq, hrun⟩ := run_valueText h hbefore
      obtain ⟨hnext, hinput⟩ := getToken_of_lexeme (hq.input ▸ hseparator)
      have hpair : AtPair floats (getToken floats (getToken floats q)) _ outer _ :=
        ⟨scan_getToken hinput, hq.skip, hq.holds.hopen_member⟩
      obtain ⟨r', hparse', hsame', q', hq', hrest⟩ := run_membersText hmembers states hpair
      have hstates : r'.states = false :: states := hsame'.trans hq.states
      have hresume := resume_again (.nextMember hq.states hnext hparse')
      rw [← hstates] at hrest
      exact ⟨r, hparse, hsame, q', hq', hrun.trans (hresume.trans hrest)⟩

end

/-! ## Only texts of the grammar are read -/

theorem takes_of_run {p result : Parser} (h : run floats p = .ok result) :
    ∃ t, Takes floats p t ∧ proceed floats (.ok t) = .ok result := by
  rw [run_eq] at h
  cases hturn : turn floats p with
  | error error =>
      rw [hturn, proceed] at h
      exact nomatch h
  | ok t => exact ⟨t, turn_iff.mp hturn, hturn ▸ h⟩

theorem evaluates_of_resume {p result : Parser} (h : resume floats p = .ok result) :
    ∃ t, Evaluates floats p t ∧ proceed floats (.ok t) = .ok result := by
  rw [resume] at h
  cases hevaluation : stateEvaluation floats p with
  | error error =>
      rw [hevaluation, proceed] at h
      exact nomatch h
  | ok t => exact ⟨t, stateEvaluation_iff.mp hevaluation, hevaluation ▸ h⟩

theorem lexeme_of_lastToken {p : Parser} {input : List Char} {token : Token}
    (hread : scan floats input = (p.lastToken, p.input)) (h : p.lastToken = token)
    (hends : token.ends = false) : Lexeme floats input token p.input :=
  (scan_iff (Token.ne_parseError hends)).mp (h ▸ hread)

variable (floats)

/-- On an input shorter than `n` the loop begins with a value of the grammar. -/
def Sound (n : ℕ) : Prop :=
  ∀ (input : List Char) (p : Parser) (states : List Bool) (frames : List Frame) (result : Parser),
    input.length < n → Before floats p input states frames → run floats p = .ok result →
      ∃ v rest, ValueText floats input v rest

variable {floats}

theorem Sound.elementsText {n : ℕ} (hsound : Sound floats n) :
    ∀ (m : ℕ) (input : List Char) (p : Parser) (states : List Bool) (elements : List Json)
      (outer : List Frame) (result : Parser), input.length = m → m < n →
      Before floats p input (true :: states) (.array elements :: outer) →
      run floats p = .ok result → ∃ vs rest, ElementsText floats input vs rest := by
  intro m
  induction m using Nat.strong_induction_on with
  | _ m ih =>
      intro input p states elements outer result hlength hlt hp hrun
      obtain ⟨v, mid, hv⟩ := hsound input p _ _ result (hlength ▸ hlt) hp hrun
      obtain ⟨q, hq, hresume⟩ := run_valueText hv hp
      obtain ⟨t, ht, hproceed⟩ := evaluates_of_resume (hresume.symm.trans hrun)
      cases ht with
      | done hstates => exact nomatch hq.states.symm.trans hstates
      | nextElement hstates htoken =>
          have hnext := lexeme_getToken htoken rfl
          rw [hq.input] at hnext
          have hshort : (getToken floats q).input.length < m :=
            hlength ▸ (hnext.length_lt rfl).trans hv.length_lt
          obtain ⟨vs, rest, hvs⟩ := ih _ hshort _ _ states _ outer result rfl (hshort.trans hlt)
            ⟨scan_getToken rfl, hq.states, hq.skip, .element hq.holds.hopen⟩ hproceed
          exact ⟨_, _, .cons hv hnext hvs⟩
      | endArray hstates htoken =>
          have hend := lexeme_getToken htoken rfl
          rw [hq.input] at hend
          exact ⟨_, _, .last hv hend⟩
      | nextMember hstates | endObject hstates =>
          exact nomatch (List.cons.inj (hq.states.symm.trans hstates)).1

theorem Sound.membersText {n : ℕ} (hsound : Sound floats n) :
    ∀ (m : ℕ) (input : List Char) (p r : Parser) (states : List Bool) (members : Members)
      (outer : List Frame) (result : Parser), input.length = m → m < n →
      AtPair floats p input outer members → parseKey floats p = .ok r →
      run floats (getToken floats { r with states := false :: states }) = .ok result →
        ∃ pairs rest, MembersText floats input pairs rest := by
  intro m
  induction m using Nat.strong_induction_on with
  | _ m ih =>
      intro input p r states members outer result hlength hlt hp hkey hrun
      obtain ⟨key, hstring, hr, hname⟩ := parseKey_iff.mp hkey
      have hlexeme := lexeme_of_lastToken hp.token hstring rfl
      have hcolon : Lexeme floats p.input .nameSeparator r.input := by
        subst hr
        exact lexeme_getToken (p := { p with dom := p.dom.key key }) hname rfl
      obtain ⟨r', hkey', -, hbefore⟩ := hp.parseKey hlexeme hcolon states
      obtain rfl := Except.ok.inj (hkey.symm.trans hkey')
      have hfirst : r.input.length < m :=
        hlength ▸ (hcolon.length_lt rfl).trans (hlexeme.length_lt rfl)
      obtain ⟨v, mid, hv⟩ := hsound _ _ _ _ result (hfirst.trans hlt) hbefore hrun
      obtain ⟨q, hq, hresume⟩ := run_valueText hv hbefore
      obtain ⟨t, ht, hproceed⟩ := evaluates_of_resume (hresume.symm.trans hrun)
      cases ht with
      | done hstates => exact nomatch hq.states.symm.trans hstates
      | nextElement hstates | endArray hstates =>
          exact nomatch (List.cons.inj (hq.states.symm.trans hstates)).1
      | @nextMember _ q' hstates htoken hkey' =>
          have hnext := lexeme_getToken htoken rfl
          rw [hq.input] at hnext
          have hshort : (getToken floats q).input.length < m :=
            ((hnext.length_lt rfl).trans hv.length_lt).trans hfirst
          obtain ⟨key', -, hq', -⟩ := parseKey_iff.mp hkey'
          have hsame : q'.states = false :: states := by
            subst hq'
            exact hq.states
          have hrest : run floats (getToken floats { q' with states := false :: states }) =
              .ok result := by
            rw [← hsame]
            exact hproceed
          obtain ⟨pairs, rest, hpairs⟩ := ih _ hshort _ _ q' states _ outer result rfl
            (hshort.trans hlt) ⟨scan_getToken rfl, hq.skip, hq.holds.hopen_member⟩ hkey' hrest
          exact ⟨_, _, .cons hlexeme hcolon hv hnext hpairs⟩
      | endObject hstates htoken =>
          have hend := lexeme_getToken htoken rfl
          rw [hq.input] at hend
          exact ⟨_, _, .last hlexeme hcolon hv hend⟩

/-- What the loop reads without an error begins with a value of the grammar. -/
theorem sound (n : ℕ) : Sound floats n := by
  induction n with
  | zero =>
      intro input p states frames result hlength
      exact absurd hlength (Nat.not_lt_zero _)
  | succ n ih =>
      intro input p states frames result hlength hp hrun
      have hshort : ∀ {token : Token}, p.lastToken = token → token.ends = false →
          p.input.length < n := fun htoken hends =>
        Nat.lt_of_lt_of_le ((lexeme_of_lastToken hp.token htoken hends).length_lt hends)
          (Nat.le_of_lt_succ hlength)
      obtain ⟨t, ht, hproceed⟩ := takes_of_run hrun
      cases ht with
      | resumed hskip => exact nomatch hp.skip.symm.trans hskip
      | @scalar v t hskip hscalar h =>
          have hlexeme := lexeme_of_lastToken hp.token rfl (Token.ends_of_scalar hscalar)
          exact ⟨v, _, .scalar hlexeme hscalar⟩
      | emptyObject hskip htoken hq hend h =>
          subst hq
          have hclose := lexeme_getToken (p := { p with dom := p.dom.startObject }) hend rfl
          exact ⟨_, _, .emptyObject (lexeme_of_lastToken hp.token htoken rfl) hclose⟩
      | @object q hskip htoken hkey =>
          have hbegin := lexeme_of_lastToken hp.token htoken rfl
          have hpair : AtPair floats (getToken floats { p with dom := p.dom.startObject }) p.input
              frames .empty :=
            ⟨scan_getToken rfl, hp.skip, hp.awaits.startContainer (.object [])⟩
          obtain ⟨pairs, rest, hpairs⟩ := ih.membersText _ _ _ q q.states _ _ result rfl
            (hshort htoken rfl) hpair hkey hproceed
          exact ⟨_, _, .object hbegin hpairs⟩
      | emptyArray hskip htoken hq hend h =>
          subst hq
          have hclose := lexeme_getToken (p := { p with dom := p.dom.startArray }) hend rfl
          exact ⟨_, _, .emptyArray (lexeme_of_lastToken hp.token htoken rfl) hclose⟩
      | array hskip htoken hq hend =>
          subst hq
          have hbegin := lexeme_of_lastToken hp.token htoken rfl
          let r := getToken floats { p with dom := p.dom.startArray }
          have hbefore : Before floats { r with states := true :: r.states } p.input
              (true :: states) (.array [] :: frames) :=
            ⟨scan_getToken rfl, congrArg (true :: ·) hp.states, hp.skip,
              .element (hp.awaits.startContainer (.array []))⟩
          obtain ⟨vs, rest, hvs⟩ := ih.elementsText _ _ _ states _ _ result rfl
            (hshort htoken rfl) hbefore hproceed
          exact ⟨_, _, .array hbegin hvs⟩

theorem resume_done {p : Parser} (h : p.states = []) : resume floats p = .ok p := by
  rw [resume, stateEvaluation_iff.mpr (.done h), proceed]

theorem before_start {text body : List Char} (h : skipBom text = some body) :
    Before floats ⟨(scanFirst floats text).2, (scanFirst floats text).1, [], false, Dom.start⟩
      body [] [] := by
  have hfirst : scanFirst floats text = scan floats body := by rw [scanFirst, h]
  rw [hfirst]
  exact ⟨rfl, rfl, rfl, Dom.awaits_start⟩

end Parser

open Protoo.JsonText.Parser

variable {floats}

/-- What the parser returns is the value of a text of the grammar. -/
theorem documentText_of_parse {text : List Char} {v : Json} (h : parse floats text = .ok v) :
    DocumentText floats text v := by
  obtain ⟨p, hrun, hend⟩ := exists_of_bind_eq_ok h
  cases hbom : skipBom text with
  | none =>
      obtain ⟨t, ht, -⟩ := takes_of_run hrun
      have hfirst : (scanFirst floats text).1 = .parseError := by rw [scanFirst, hbom]
      cases ht with
      | resumed hskip => exact nomatch hskip
      | scalar hskip hscalar => exact nomatch hfirst ▸ hscalar
      | emptyObject hskip htoken | object hskip htoken | emptyArray hskip htoken
      | array hskip htoken => exact nomatch hfirst.symm.trans htoken
  | some body =>
      have hbefore : Before floats _ body [] [] := before_start hbom
      obtain ⟨v', rest, hv⟩ := sound _ _ _ _ _ _ (Nat.lt_succ_self _) hbefore hrun
      obtain ⟨q, hq, hresume⟩ := run_valueText hv hbefore
      have hsame := hrun.symm.trans (hresume.trans (resume_done hq.states))
      obtain rfl := Except.ok.inj hsame
      split at hend
      next htoken =>
        have hroot : v' = v := hq.holds.root_eq.symm.trans (Except.ok.inj hend)
        have hlast : Lexeme floats p.input .endOfInput (getToken floats p).input :=
          (scan_iff (by decide)).mp (htoken ▸ rfl)
        rw [hq.input] at hlast
        exact ⟨body, rest, _, hbom, hroot ▸ hv, hlast⟩
      next => exact nomatch hend

/-- A text of the grammar is accepted. -/
theorem DocumentText.parse {text : List Char} {v : Json} (h : DocumentText floats text v) :
    parse floats text = .ok v := by
  obtain ⟨body, rest, after, hbom, hv, hlast⟩ := h
  obtain ⟨q, hq, hresume⟩ := run_valueText hv (before_start hbom)
  obtain ⟨htoken, -⟩ := getToken_of_lexeme (hq.input ▸ hlast)
  rw [JsonText.parse, hresume, resume_done hq.states, except_ok_bind, if_pos htoken,
    hq.holds.root_eq]

/-- The parser returns a value exactly for a text of the grammar, and returns this value. -/
theorem parse_iff (text : List Char) (v : Json) :
    parse floats text = .ok v ↔ DocumentText floats text v :=
  ⟨documentText_of_parse, DocumentText.parse⟩

/-- The grammar is unambiguous. -/
theorem ValueText.unique {input rest rest' : List Char} {v v' : Json}
    (h : ValueText floats input v rest) (h' : ValueText floats input v' rest') :
    v = v' ∧ rest = rest' := by
  have hbefore : Before floats
      ⟨(scan floats input).2, (scan floats input).1, [], false, Dom.start⟩ input [] [] :=
    ⟨rfl, rfl, rfl, Dom.awaits_start⟩
  obtain ⟨q, hq, hrun⟩ := run_valueText h hbefore
  obtain ⟨q', hq', hrun'⟩ := run_valueText h' hbefore
  rw [resume_done hq.states] at hrun
  rw [resume_done hq'.states] at hrun'
  obtain rfl := Except.ok.inj (hrun.symm.trans hrun')
  exact ⟨hq.holds.root_eq.symm.trans hq'.holds.root_eq, hq.input.symm.trans hq'.input⟩

end

end Protoo.JsonText
