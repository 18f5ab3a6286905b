import Mathlib.Data.List.TakeWhile
import Protoo.Support.Regex
import Protoo.Transport.Core

/-!
# The URL of the server

The constructor of `WebSocketTransport` takes its URL apart with a regular expression.
The expression is ambiguous: the colon is optional, and the group after it takes any text
up to a slash or a space.  `UrlParts` are the parts of a URL that the client is meant to
be given, and `inverts` says that the expression takes them apart again, and that of any
URL it accepts the host is all it can be.

A letter stands for one `char` of the string, as it is; the expression tests ASCII only.
-/

namespace Protoo

open Protoo.Support

/-- The members that the constructor sets from the URL; `port` is `none` while the member
has no value. -/
structure Endpoint where
  urlPrefix : String := ""
  url : String := ""
  path : String := ""
  port : Option ℤ := none
  deriving DecidableEq

/-- `[^...]`. -/
def noneOf (letters : String) (c : Char) : Bool := !letters.toList.contains c

/-- The text up to the first NUL, which is what `c_str` shows to a C function. -/
def cStr (s : String) : List Char := s.toList.takeWhile fun c => c ≠ '\x00'

/-- `std::isspace` in the C locale. -/
def isSpace (c : Char) : Bool := [' ', '\t', '\n', '\x0b', '\x0c', '\r'].contains c

/-- `atoi`; a value outside the range of `int` is undefined. -/
def atoi (s : String) : Option ℤ :=
  let text := s.toList.dropWhile isSpace
  let (sign, text) : ℤ × List Char := match text with
    | '-' :: text => (-1, text)
    | '+' :: text => (1, text)
    | text => (1, text)
  let value := sign * Nat.ofDigitChars 10 (text.takeWhile Char.isDigit) 0
  if -2147483648 ≤ value ∧ value ≤ 2147483647 then some value else none

/-- `what[index]`. -/
def subMatch (what : Captures Char) (index : ℕ) : String :=
  String.ofList ((what.lookup index).getD [])

namespace WebSocketTransport

/-- The part of the expression after the host: `:?([^/ ]*)(/?[^ #]*)`. -/
def expressionTail : Regex Char :=
  .seq (.optional fun c => c = ':')
    (.seq (.group 3 (.many (noneOf "/ ")))
      (.group 4 (.seq (.optional fun c => c = '/') (.many (noneOf " #")))))

/-- The part from the host on: `([^/ :]+):?([^/ ]*)(/?[^ #]*)`. -/
def expressionFromHost : Regex Char :=
  .seq (.group 2 (.seq (.one (noneOf "/ :")) (.many (noneOf "/ :")))) expressionTail

/-- `ex`: `(ws|wss)://([^/ :]+):?([^/ ]*)(/?[^ #]*)`. -/
def ex : Regex Char :=
  .seq (.group 1 (.either (.word "ws".toList) (.word "wss".toList)))
    (.seq (.word "://".toList) expressionFromHost)

/-- `regex_match` on the URL. -/
def matchUrl (url : String) : Option (Captures Char) := ex.regexMatch (cStr url)

/-- What the constructor makes of the URL. -/
def endpoint (url : String) : Endpoint :=
  match matchUrl url with
  | some what =>
      let protocol := subMatch what 1
      let domain := subMatch what 2
      let port := subMatch what 3
      let path := subMatch what 4
      { urlPrefix := protocol
        path
        url := domain
        port :=
          if port = "" then if protocol = "ws" then some 80 else some 443
          else atoi port }
  | none => {}

end WebSocketTransport

/-- A URL that is not accepted leaves every member as it was. -/
theorem WebSocketTransport.endpoint_of_matchUrl_eq_none {url : String}
    (h : WebSocketTransport.matchUrl url = none) : WebSocketTransport.endpoint url = {} := by
  rw [WebSocketTransport.endpoint, h]

/-- The parts of a URL. -/
structure UrlParts where
  scheme : String
  host : String
  port : Option ℕ
  path : String
  scheme_eq : scheme = "ws" ∨ scheme = "wss"
  host_ne : host ≠ ""
  host_letters : ∀ c ∈ host.toList, c ∉ ['/', ' ', ':', '\x00']
  port_range : ∀ n ∈ port, 1 ≤ n ∧ n ≤ 65535
  path_start : path = "" ∨ path.toList.head? = some '/'
  path_letters : ∀ c ∈ path.toList, c ∉ [' ', '#', '\x00']

namespace UrlParts

/-- The port as it is written. -/
def portText (parts : UrlParts) : String := (parts.port.map fun n => ":" ++ toString n).getD ""

def write (parts : UrlParts) : String :=
  parts.scheme ++ "://" ++ parts.host ++ parts.portText ++ parts.path

/-- The members that the parts stand for. -/
def endpoint (parts : UrlParts) : Endpoint where
  urlPrefix := parts.scheme
  url := parts.host
  path := parts.path
  port := some (parts.port.getD (if parts.scheme = "ws" then 80 else 443))

end UrlParts

/-! ## What every match looks like -/

theorem forall_mem_of_all {p : Char → Prop} [DecidablePred p] {text : List Char}
    (h : (text.all fun c => decide (p c)) = true) : ∀ c ∈ text, p c :=
  fun c hc => of_decide_eq_true (List.all_eq_true.mp h c hc)

theorem noneOf_iff {letters : String} {c : Char} :
    noneOf letters c = true ↔ c ∉ letters.toList := by
  simp [noneOf]

namespace WebSocketTransport

open Regex

/-- A text that the tail matches: up to a slash there is no space, and after it no space
and no `#`. -/
def IsTail (text : List Char) : Prop :=
  ∃ before after, text = before ++ after ∧ (∀ c ∈ before, noneOf "/ " c = true) ∧
    ∀ c ∈ after, noneOf " #" c = true

theorem exists_of_mem_tail {text : List Char} {captures later : Captures Char}
    (h : ([], later) ∈ expressionTail.results text captures) :
    ∃ colon port path, (colon = [] ∨ colon = [':']) ∧ text = colon ++ port ++ path ∧
      later = (4, path) :: (3, port) :: captures ∧ (∀ c ∈ port, noneOf "/ " c = true) ∧
      ∀ c ∈ path, noneOf " #" c = true := by
  obtain ⟨afterColon, captures', hcolon, h⟩ := mem_seq.mp h
  obtain ⟨afterPort, inner, hport, hpath⟩ := mem_seq.mp h
  obtain ⟨port, inner', rfl, hmany, rfl⟩ := mem_group.mp hport
  obtain ⟨rfl, taken, hsame, htaken⟩ := mem_many.mp hmany
  obtain rfl := List.append_cancel_right hsame
  obtain ⟨path, inner', rfl, hbody, rfl⟩ := mem_group.mp hpath
  obtain ⟨afterSlash, inner, hslash, hrest⟩ := mem_seq.mp hbody
  obtain ⟨rfl, tail, rfl, htail⟩ := mem_many.mp hrest
  rw [List.append_nil, List.append_nil] at hslash
  obtain ⟨rfl, htaken'⟩ := mem_optional.mp hslash
  have hletters : ∀ c ∈ path, noneOf " #" c = true := by
    rcases htaken' with rfl | ⟨c, rfl, hc⟩
    · exact htail
    · obtain rfl := of_decide_eq_true hc
      exact List.forall_mem_cons.mpr ⟨by decide, htail⟩
  obtain ⟨rfl, rfl | ⟨c, rfl, hc⟩⟩ := mem_optional.mp hcolon
  · exact ⟨[], port, path, Or.inl rfl, by simp, rfl, htaken, hletters⟩
  · obtain rfl := of_decide_eq_true hc
    exact ⟨[':'], port, path, Or.inr rfl, by simp, rfl, htaken, hletters⟩

theorem IsTail.exists_mem {text : List Char} (h : IsTail text) (captures : Captures Char) :
    ∃ result ∈ expressionTail.results text captures, result.1.isEmpty = true := by
  obtain ⟨before, after, rfl, hbefore, hafter⟩ := h
  refine ⟨([], (4, after) :: (3, before) :: captures), ?_, rfl⟩
  -- no colon, the port up to the slash, no slash, and the rest
  refine mem_seq.mpr ⟨before ++ after, captures, mem_optional.mpr ⟨rfl, Or.inl rfl⟩, ?_⟩
  refine mem_seq.mpr ⟨after, (3, before) :: captures, ?_, ?_⟩
  · exact mem_group.mpr
      ⟨before, captures, rfl, mem_many.mpr ⟨rfl, before, rfl, hbefore⟩, rfl⟩
  · refine mem_group.mpr ⟨after, _, (List.append_nil _).symm, ?_, rfl⟩
    refine mem_seq.mpr ⟨after, _, mem_optional.mpr ⟨rfl, Or.inl rfl⟩, ?_⟩
    exact mem_many.mpr ⟨rfl, after, (List.append_nil _).symm, hafter⟩

/-- An end of a tail is a tail. -/
theorem IsTail.of_append {taken rest : List Char} (h : IsTail (taken ++ rest)) : IsTail rest := by
  obtain ⟨before, after, heq, hbefore, hafter⟩ := h
  rcases List.append_eq_append_iff.mp heq with ⟨mid, rfl, rfl⟩ | ⟨mid, rfl, rfl⟩
  · exact ⟨mid, after, rfl, fun c hc => hbefore c (List.mem_append_right _ hc), hafter⟩
  · exact ⟨[], rest, rfl, by simp, fun c hc => hafter c (List.mem_append_right _ hc)⟩

theorem isTail_of_mem {text : List Char} {captures later : Captures Char}
    (h : ([], later) ∈ expressionTail.results text captures) : IsTail text := by
  obtain ⟨colon, port, path, hcolon, rfl, -, hport, hpath⟩ := exists_of_mem_tail h
  refine ⟨colon ++ port, path, rfl, ?_, hpath⟩
  rcases hcolon with rfl | rfl
  · exact hport
  · exact List.forall_mem_cons.mpr ⟨by decide, hport⟩

/-! ## The host -/

/-- The host group takes all it can. -/
theorem head?_host {host rest : List Char} (hne : host ≠ [])
    (hhost : ∀ c ∈ host, noneOf "/ :" c = true) (hrest : ∀ c ∈ rest.head?, noneOf "/ :" c = false)
    (captures : Captures Char) :
    ((Regex.group 2 (.seq (.one (noneOf "/ :")) (.many (noneOf "/ :")))).results
      (host ++ rest) captures).head? = some (rest, (2, host) :: captures) := by
  apply head?_group
  obtain ⟨c, letters, rfl⟩ := List.exists_cons_of_ne_nil hne
  obtain ⟨hc, hletters⟩ := List.forall_mem_cons.mp hhost
  refine head?_seq ?_ (head?_many hletters hrest)
  rw [List.cons_append, results_one_cons, if_pos hc]
  rfl

/-- From the host on: when the text is accepted at all, the host is all it can be, and the
rest is a tail. -/
theorem exists_of_mem_fromHost {text : List Char} {captures later : Captures Char}
    (h : ([], later) ∈ expressionFromHost.results text captures) :
    text.takeWhile (noneOf "/ :") ≠ [] ∧ IsTail (text.dropWhile (noneOf "/ :")) := by
  obtain ⟨rest, inner, hhost, htail⟩ := mem_seq.mp h
  obtain ⟨host, inner', rfl, hbody, rfl⟩ := mem_group.mp hhost
  obtain ⟨mid, inner'', hone, hmany⟩ := mem_seq.mp hbody
  obtain ⟨rfl, c, htext, hc⟩ := mem_one.mp hone
  obtain ⟨rfl, taken, rfl, htaken⟩ := mem_many.mp hmany
  obtain rfl : host = c :: taken := List.append_cancel_right htext
  have hletters : ∀ a ∈ c :: taken, noneOf "/ :" a = true := List.forall_mem_cons.mpr ⟨hc, htaken⟩
  constructor
  · rw [List.cons_append, List.takeWhile_cons_of_pos hc]
    exact List.cons_ne_nil _ _
  · rw [List.dropWhile_append_of_pos hletters]
    have hrest := isTail_of_mem htail
    rw [← List.takeWhile_append_dropWhile (p := noneOf "/ :") (l := rest)] at hrest
    exact hrest.of_append

/-- The first way through the scheme is the only one. -/
theorem results_ex {scheme : List Char} (h : scheme = "ws".toList ∨ scheme = "wss".toList)
    (text : List Char) :
    ex.results (scheme ++ "://".toList ++ text) [] =
      expressionFromHost.results text [(1, scheme)] := by
  rcases h with rfl | rfl <;>
    simp [ex, results_seq, results_group, results_either, results_one_cons, results_empty, word]

theorem exists_of_mem_ex {text : List Char} {later : Captures Char}
    (h : ([], later) ∈ ex.results text []) :
    ∃ scheme rest, (scheme = "ws".toList ∨ scheme = "wss".toList) ∧
      text = scheme ++ "://".toList ++ rest := by
  obtain ⟨afterScheme, inner, hscheme, h⟩ := mem_seq.mp h
  obtain ⟨rest, inner', hslashes, -⟩ := mem_seq.mp h
  obtain ⟨scheme, inner'', rfl, hword, -⟩ := mem_group.mp hscheme
  obtain ⟨-, rfl⟩ := mem_word.mp hslashes
  refine ⟨scheme, rest, ?_, (List.append_assoc _ _ _).symm⟩
  rcases mem_either.mp hword with hws | hwss
  · exact Or.inl (List.append_cancel_right (mem_word.mp hws).2)
  · exact Or.inr (List.append_cancel_right (mem_word.mp hwss).2)

theorem head?_dropWhile {accepts : Char → Bool} (text : List Char) :
    ∀ c ∈ (text.dropWhile accepts).head?, accepts c = false := by
  intro c hc
  have hnot := List.head?_dropWhile_not accepts text
  rw [hc] at hnot
  exact hnot

/-- What an accepted URL looks like, and what the groups have captured of it. -/
structure IsSplit (text scheme host colon port path : List Char) : Prop where
  text : text = scheme ++ "://".toList ++ (host ++ (colon ++ port ++ path))
  scheme : scheme = "ws".toList ∨ scheme = "wss".toList
  host : host = (host ++ (colon ++ port ++ path)).takeWhile (noneOf "/ :")
  colon : colon = [] ∨ colon = [':']
  port : ∀ c ∈ port, noneOf "/ " c = true
  path : ∀ c ∈ path, noneOf " #" c = true

theorem exists_of_regexMatch {text : List Char} {what : Captures Char}
    (h : ex.regexMatch text = some what) :
    ∃ scheme host colon port path, IsSplit text scheme host colon port path ∧
      what = [(4, path), (3, port), (2, host), (1, scheme)] := by
  obtain ⟨scheme, rest, hscheme, rfl⟩ := exists_of_mem_ex (mem_of_regexMatch h)
  have hmem := mem_of_regexMatch h
  rw [results_ex hscheme] at hmem
  obtain ⟨hne, htail⟩ := exists_of_mem_fromHost hmem
  have hrest := List.takeWhile_append_dropWhile (p := noneOf "/ :") (l := rest)
  have hhead := head?_host hne (fun c hc => List.mem_takeWhile_imp hc) (head?_dropWhile rest)
    [(1, scheme)]
  rw [hrest] at hhead
  rw [regexMatch, results_ex hscheme, expressionFromHost,
    find?_seq_of_head? hhead (htail.exists_mem _)] at h
  obtain ⟨⟨left, later⟩, hfind, rfl⟩ := Option.map_eq_some_iff.mp h
  obtain rfl : left = [] := by simpa using List.find?_some hfind
  obtain ⟨colon, port, path, hcolon, htext, hwhat, hport, hpath⟩ :=
    exists_of_mem_tail (List.mem_of_find?_eq_some hfind)
  rw [htext] at hrest
  refine ⟨scheme, _, colon, port, path, ⟨?_, hscheme, ?_, hcolon, hport, hpath⟩, hwhat⟩
  · rw [hrest]
  · rw [hrest]

/-! ## The match of given parts -/

theorem head?_tail {colonPort port path : List Char}
    (hcolon : colonPort = [] ∧ port = [] ∨ colonPort = ':' :: port)
    (hport : ∀ c ∈ port, noneOf "/ " c = true) (hstart : path = [] ∨ path.head? = some '/')
    (hpath : ∀ c ∈ path, noneOf " #" c = true) (captures : Captures Char) :
    (expressionTail.results (colonPort ++ path) captures).head? =
      some ([], (4, path) :: (3, port) :: captures) := by
  have hslash : ∀ c ∈ path.head?, c = '/' := by
    rcases hstart with rfl | hstart
    · simp
    · simp [hstart]
  have hfirst : ((Regex.optional fun c => decide (c = ':')).results (colonPort ++ path)
      captures).head? = some (port ++ path, captures) := by
    rcases hcolon with ⟨rfl, rfl⟩ | rfl
    · refine head?_optional_of_not fun c hc => ?_
      rw [hslash c hc]
      decide
    · exact head?_optional_of_accepts (by decide)
  have hbody : ((Regex.seq (.optional fun c => decide (c = '/')) (.many (noneOf " #"))).results
      (path ++ []) ((3, port) :: captures)).head? = some ([], (3, port) :: captures) := by
    cases path with
    | nil => exact head?_seq (head?_optional_of_not (by simp)) (head?_many hpath (by simp))
    | cons c letters =>
        obtain rfl := hslash c rfl
        refine head?_seq (head?_optional_of_accepts (by decide)) ?_
        exact head?_many (fun c hc => hpath c (List.mem_cons_of_mem _ hc)) (by simp)
  have hgroup := head?_group 4 hbody
  rw [List.append_nil] at hgroup
  refine head?_seq hfirst (head?_seq (head?_group 3 (head?_many hport ?_)) hgroup)
  intro c hc
  rw [hslash c hc]
  decide

theorem regexMatch_parts {scheme host colonPort port path : List Char}
    (hscheme : scheme = "ws".toList ∨ scheme = "wss".toList) (hne : host ≠ [])
    (hhost : ∀ c ∈ host, noneOf "/ :" c = true)
    (hcolon : colonPort = [] ∧ port = [] ∨ colonPort = ':' :: port)
    (hport : ∀ c ∈ port, noneOf "/ " c = true) (hstart : path = [] ∨ path.head? = some '/')
    (hpath : ∀ c ∈ path, noneOf " #" c = true) :
    ex.regexMatch (scheme ++ "://".toList ++ (host ++ (colonPort ++ path))) =
      some [(4, path), (3, port), (2, host), (1, scheme)] := by
  have hstop : ∀ c ∈ (colonPort ++ path).head?, noneOf "/ :" c = false := by
    rcases hcolon with ⟨rfl, -⟩ | rfl
    · rcases hstart with rfl | hstart
      · simp
      · intro c hc
        rw [List.nil_append, hstart] at hc
        obtain rfl := Option.some.inj hc
        decide
    · intro c hc
      obtain rfl := Option.some.inj hc
      decide
  have hhead := head?_seq (head?_host hne hhost hstop [(1, scheme)])
    (head?_tail hcolon hport hstart hpath _)
  rw [regexMatch, results_ex hscheme, expressionFromHost, find?_of_head? hhead rfl]
  rfl

/-! ## The port -/

end WebSocketTransport

theorem atoi_of_isDigit {text : List Char} (hne : text ≠ []) (h : ∀ c ∈ text, c.isDigit = true)
    (hrange : Nat.ofDigitChars 10 text 0 ≤ 2147483647) :
    atoi (String.ofList text) = some (Nat.ofDigitChars 10 text 0 : ℤ) := by
  obtain ⟨c, digits, rfl⟩ := List.exists_cons_of_ne_nil hne
  have hc := h c List.mem_cons_self
  have hspace : isSpace c = false := by
    simp only [isSpace, List.contains_eq_mem, decide_eq_false_iff_not]
    intro hmem
    have hnot : ∀ a ∈ [' ', '\t', '\n', '\x0b', '\x0c', '\r'], a.isDigit = false :=
      forall_mem_of_all rfl
    exact Bool.false_ne_true ((hnot c hmem).symm.trans hc)
  have hminus : c ≠ '-' := by
    rintro rfl
    exact absurd hc (by decide)
  have hplus : c ≠ '+' := by
    rintro rfl
    exact absurd hc (by decide)
  rw [atoi, String.toList_ofList, List.dropWhile_cons_of_neg (Bool.eq_false_iff.mp hspace)]
  split
  next hmatch =>
    split at hmatch
    · exact absurd (List.cons.inj ‹_›).1 hminus
    · exact absurd (List.cons.inj ‹_›).1 hplus
    · obtain ⟨rfl, rfl⟩ := Prod.mk.inj hmatch
      rw [List.takeWhile_eq_self_iff.mpr h, one_mul, if_pos (by omega)]

theorem atoi_toString {n : ℕ} (h : n ≤ 65535) : atoi (toString n) = some (n : ℤ) := by
  have hvalue : Nat.ofDigitChars 10 (Nat.toDigits 10 n) 0 = n := Nat.ofDigitChars_ten_toDigits
  rw [Nat.toString_eq_ofList_toDigits, atoi_of_isDigit Nat.toDigits_ne_nil, hvalue]
  · exact fun c hc => Nat.isDigit_of_mem_toDigits (by decide) (by decide) hc
  · omega

/-! ## Writing and matching -/

theorem cStr_of_not_mem {s : String} (h : '\x00' ∉ s.toList) : cStr s = s.toList := by
  refine List.takeWhile_eq_self_iff.mpr fun c hc => decide_eq_true ?_
  rintro rfl
  exact h hc

theorem noneOf_of_forall {letters : String} {forbidden text : List Char}
    (hsub : letters.toList ⊆ forbidden) (h : ∀ c ∈ text, c ∉ forbidden) :
    ∀ c ∈ text, noneOf letters c = true :=
  fun c hc => noneOf_iff.mpr fun hmem => h c hc (hsub hmem)

@[simp] theorem subMatch_groups (scheme host port path : List Char) :
    subMatch [(4, path), (3, port), (2, host), (1, scheme)] 1 = String.ofList scheme ∧
      subMatch [(4, path), (3, port), (2, host), (1, scheme)] 2 = String.ofList host ∧
      subMatch [(4, path), (3, port), (2, host), (1, scheme)] 3 = String.ofList port ∧
      subMatch [(4, path), (3, port), (2, host), (1, scheme)] 4 = String.ofList path :=
  ⟨rfl, rfl, rfl, rfl⟩

namespace UrlParts

variable (parts : UrlParts)

/-- The group of the port. -/
def portDigits : String := (parts.port.map fun n => toString n).getD ""

theorem portText_eq :
    parts.portText = "" ∧ parts.portDigits = "" ∨ parts.portText = ":" ++ parts.portDigits := by
  rw [portText, portDigits]
  cases parts.port with
  | none => exact Or.inl ⟨rfl, rfl⟩
  | some n => exact Or.inr rfl

theorem isDigit_of_mem_portDigits : ∀ c ∈ parts.portDigits.toList, c.isDigit = true := by
  rw [portDigits]
  cases parts.port with
  | none => simp
  | some n =>
      intro c hc
      rw [Option.map_some, Option.getD_some, Nat.toString_eq_ofList_toDigits,
        String.toList_ofList] at hc
      exact Nat.isDigit_of_mem_toDigits (by decide) (by decide) hc

theorem not_mem_write : '\x00' ∉ parts.write.toList := by
  have hhost : '\x00' ∉ parts.host.toList := fun h => parts.host_letters _ h (by decide)
  have hpath : '\x00' ∉ parts.path.toList := fun h => parts.path_letters _ h (by decide)
  have hdigits : '\x00' ∉ parts.portDigits.toList := fun h =>
    absurd (parts.isDigit_of_mem_portDigits _ h) (by decide)
  have hport : '\x00' ∉ parts.portText.toList := by
    rcases parts.portText_eq with ⟨h, -⟩ | h
    · rw [h]
      decide
    · rw [h, String.toList_append, List.mem_append, not_or]
      exact ⟨by decide, hdigits⟩
  have hscheme : '\x00' ∉ parts.scheme.toList := by
    rcases parts.scheme_eq with h | h <;> rw [h] <;> decide
  simp only [write, String.toList_append, List.mem_append, not_or]
  exact ⟨⟨⟨⟨hscheme, by decide⟩, hhost⟩, hport⟩, hpath⟩

theorem matchUrl_write :
    WebSocketTransport.matchUrl parts.write =
      some [(4, parts.path.toList), (3, parts.portDigits.toList), (2, parts.host.toList),
        (1, parts.scheme.toList)] := by
  rw [WebSocketTransport.matchUrl, cStr_of_not_mem parts.not_mem_write]
  simp only [write, String.toList_append, List.append_assoc]
  rw [← List.append_assoc parts.scheme.toList]
  refine WebSocketTransport.regexMatch_parts ?_ ?_ ?_ ?_ ?_ ?_ ?_
  · exact parts.scheme_eq.imp (congrArg String.toList) (congrArg String.toList)
  · rw [Ne, String.toList_eq_nil_iff]
    exact parts.host_ne
  · exact noneOf_of_forall (by decide) parts.host_letters
  · refine parts.portText_eq.imp (fun h => ?_) fun h => ?_
    · rw [h.1, h.2]
      exact ⟨rfl, rfl⟩
    · rw [h, String.toList_append]
      rfl
  · intro c hc
    have hdigit := parts.isDigit_of_mem_portDigits c hc
    rw [noneOf_iff]
    intro hmem
    have hnot : ∀ a ∈ "/ ".toList, a.isDigit = false := forall_mem_of_all rfl
    exact Bool.false_ne_true ((hnot c hmem).symm.trans hdigit)
  · exact parts.path_start.imp_left String.toList_eq_nil_iff.mpr
  · exact noneOf_of_forall (by decide) parts.path_letters

theorem endpoint_write : WebSocketTransport.endpoint parts.write = parts.endpoint := by
  have hport : (if parts.portDigits = "" then if parts.scheme = "ws" then some 80 else some 443
      else atoi parts.portDigits) = parts.endpoint.port := by
    rw [UrlParts.endpoint, portDigits]
    cases hport : parts.port with
    | none =>
        rw [Option.map_none, Option.getD_none, if_pos rfl, Option.getD_none]
        split <;> rfl
    | some n =>
        have hne : toString n ≠ "" := by
          rw [Nat.toString_eq_ofList_toDigits, Ne, String.ofList_eq_empty_iff]
          exact Nat.toDigits_ne_nil
        rw [Option.map_some, Option.getD_some, if_neg hne, Option.getD_some,
          atoi_toString (parts.port_range n hport).2]
  simp only [WebSocketTransport.endpoint, parts.matchUrl_write, subMatch_groups,
    String.ofList_toList, hport]
  rfl

end UrlParts

namespace WebSocketTransport

theorem exists_of_matchUrl {url : String} (hnul : '\x00' ∉ url.toList) {what : Captures Char}
    (h : matchUrl url = some what) :
    ∃ colon, (colon = "" ∨ colon = ":") ∧ (subMatch what 1 = "ws" ∨ subMatch what 1 = "wss") ∧
      url = subMatch what 1 ++ "://" ++ subMatch what 2 ++ colon ++ subMatch what 3 ++
        subMatch what 4 ∧
      ∀ after, url = subMatch what 1 ++ "://" ++ after →
        (subMatch what 2).toList = after.toList.takeWhile (noneOf "/ :") := by
  rw [matchUrl, cStr_of_not_mem hnul] at h
  obtain ⟨scheme, host, colon, port, path, hsplit, rfl⟩ := exists_of_regexMatch h
  obtain ⟨h₁, h₂, h₃, h₄⟩ := subMatch_groups scheme host port path
  rw [h₁, h₂, h₃, h₄]
  refine ⟨String.ofList colon, ?_, ?_, ?_, ?_⟩
  · exact hsplit.colon.imp (congrArg String.ofList) (congrArg String.ofList)
  · exact hsplit.scheme.imp (fun h => by rw [h, String.ofList_toList])
      fun h => by rw [h, String.ofList_toList]
  · rw [← String.toList_inj, hsplit.text]
    simp
  · intro after hafter
    have hlist := congrArg String.toList hafter
    rw [hsplit.text] at hlist
    simp only [String.toList_append, String.toList_ofList] at hlist
    rw [String.toList_ofList, ← List.append_cancel_left hlist]
    exact hsplit.host

/-- The expression takes the parts of a URL apart again; and of every URL that it accepts,
the groups and what stands between them are all there is, and the host is all it can be. -/
theorem inverts :
    (∀ parts : UrlParts, (matchUrl parts.write).isSome = true ∧
      endpoint parts.write = parts.endpoint) ∧
    ∀ url : String, '\x00' ∉ url.toList → ∀ what, matchUrl url = some what →
      ∃ colon, (colon = "" ∨ colon = ":") ∧
        (subMatch what 1 = "ws" ∨ subMatch what 1 = "wss") ∧
        url = subMatch what 1 ++ "://" ++ subMatch what 2 ++ colon ++ subMatch what 3 ++
          subMatch what 4 ∧
        ∀ after, url = subMatch what 1 ++ "://" ++ after →
          (subMatch what 2).toList = after.toList.takeWhile (noneOf "/ :") := by
  refine ⟨fun parts => ⟨?_, parts.endpoint_write⟩, fun url hnul what h => ?_⟩
  · rw [parts.matchUrl_write]
    rfl
  · exact exists_of_matchUrl hnul h

/-- Both directions at a URL with a port and a query. -/
theorem inverts_query :
    endpoint "ws://example.com:4443/?roomId=1" =
        { urlPrefix := "ws", url := "example.com", path := "/?roomId=1", port := some 4443 } ∧
      ∃ colon, "ws://h:1/p" = "ws" ++ "://" ++ "h" ++ colon ++ "1" ++ "/p" := by
  constructor
  · exact (inverts.1 ⟨"ws", "example.com", some 4443, "/?roomId=1", Or.inl rfl, by decide,
      forall_mem_of_all rfl, by decide, Or.inr rfl, forall_mem_of_all rfl⟩).2
  · obtain ⟨colon, -, -, h, -⟩ := inverts.2 "ws://h:1/p" (by decide)
      [(4, "/p".toList), (3, "1".toList), (2, "h".toList), (1, "ws".toList)] (by decide)
    exact ⟨colon, h⟩

end WebSocketTransport

end Protoo
