import Mathlib.Algebra.Group.Int.Defs
import Mathlib.Algebra.Group.Nat.Defs
import Mathlib.Data.Rat.Defs
import Mathlib.Data.Prod.Basic
import Mathlib.Data.List.Nodup

/-!
# JSON values and the accessors the program uses

A `std::string` is a sequence of bytes; a `String` here holds one byte per
character.  `Json` follows `nlohmann::json`: an object is its list of members in
key order, a floating-point number is its exact rational value, and the two
integer kinds are one constructor.  Binary values, discarded values, infinities,
NaN and the sign of a zero are left out; the parser gives none of the first four,
and the program builds none.

The accessors are those of the vendored `json.hpp` (3.11.3) that the program
calls.  `subscript` is `operator[]` on a non-const value: reading a missing key
inserts it with the value null, and a null value becomes an object.  Serializing
and parsing text are a parameter, `JsonLibrary`.
-/

namespace Protoo

/-- The exceptions of the program and of the libraries it calls. -/
inductive Exception where
  /-- `nlohmann::json::type_error` with its number and text. -/
  | typeError (number : ℕ) (text : String)
  /-- `nlohmann::json::parse_error`. -/
  | parseError
  /-- `std::runtime_error` with its text. -/
  | runtimeError (text : String)
  /-- `std::future_error` with `promise_already_satisfied`. -/
  | promiseAlreadySatisfied
  /-- `std::future_error` with `broken_promise`. -/
  | brokenPromise
  deriving Repr, DecidableEq

section ExceptSimp

variable {ε α β : Type}

/-! The reductions by which `simp` executes a `do` block in `Except`. -/

@[simp] theorem except_ok_bind (a : α) (f : α → Except ε β) :
    (Except.ok a >>= f) = f a := rfl

@[simp] theorem except_error_bind (error : ε) (f : α → Except ε β) :
    ((Except.error error : Except ε α) >>= f) = .error error := rfl

@[simp] theorem except_pure (a : α) : (pure a : Except ε α) = .ok a := rfl

@[simp] theorem except_map_ok (f : α → β) (a : α) :
    (Except.ok a : Except ε α).map f = .ok (f a) := rfl

@[simp] theorem except_map_error (f : α → β) (error : ε) :
    (Except.error error : Except ε α).map f = .error error := rfl

/-- The step a successful computation took first. -/
theorem exists_of_bind_eq_ok {x : Except ε α} {f : α → Except ε β} {b : β}
    (h : (x >>= f) = .ok b) : ∃ a, x = .ok a ∧ f a = .ok b := by
  cases x with
  | error error => simp at h
  | ok a => exact ⟨a, rfl, h⟩

end ExceptSimp

inductive Json where
  | null
  | boolean (b : Bool)
  | integer (n : ℤ)
  | float (q : ℚ)
  | string (s : String)
  | array (elements : List Json)
  | object (members : List (String × Json))

namespace Json

/-! ## Equality -/

mutual

/-- `operator==` on values of the same kind. -/
def beq : Json → Json → Bool
  | .null, .null => true
  | .boolean a, .boolean b => a == b
  | .integer a, .integer b => a == b
  | .float a, .float b => a == b
  | .string a, .string b => a == b
  | .array a, .array b => beqElements a b
  | .object a, .object b => beqMembers a b
  | _, _ => false

def beqElements : List Json → List Json → Bool
  | [], [] => true
  | x :: xs, y :: ys => beq x y && beqElements xs ys
  | _, _ => false

def beqMembers : List (String × Json) → List (String × Json) → Bool
  | [], [] => true
  | (k, x) :: xs, (l, y) :: ys => k == l && beq x y && beqMembers xs ys
  | _, _ => false

end

mutual

theorem beq_eq_true_iff : ∀ a b : Json, beq a b = true ↔ a = b
  | .null, b => by cases b <;> simp [beq]
  | .boolean _, b => by cases b <;> simp [beq]
  | .integer _, b => by cases b <;> simp [beq]
  | .float _, b => by cases b <;> simp [beq]
  | .string _, b => by cases b <;> simp [beq]
  | .array xs, b => by cases b <;> simp [beq, beqElements_eq_true_iff xs]
  | .object xs, b => by cases b <;> simp [beq, beqMembers_eq_true_iff xs]

theorem beqElements_eq_true_iff : ∀ xs ys : List Json, beqElements xs ys = true ↔ xs = ys
  | [], ys => by cases ys <;> simp [beqElements]
  | x :: xs, ys => by
      cases ys <;> simp [beqElements, beq_eq_true_iff x, beqElements_eq_true_iff xs]

theorem beqMembers_eq_true_iff :
    ∀ xs ys : List (String × Json), beqMembers xs ys = true ↔ xs = ys
  | [], ys => by cases ys <;> simp [beqMembers]
  | (k, x) :: xs, ys => by
      cases ys <;>
        simp [beqMembers, beq_eq_true_iff x, beqMembers_eq_true_iff xs, Prod.ext_iff]

end

instance : DecidableEq Json := fun a b => decidable_of_iff _ (beq_eq_true_iff a b)

/-! ## Members of an object -/

/-- The order of the keys of an object. -/
def keyLt (key k : String) : Bool := decide (key < k)

/-- `members[key] = value`: the members stay in key order. -/
def assignMember (key : String) (value : Json) :
    List (String × Json) → List (String × Json)
  | [] => [(key, value)]
  | (k, v) :: rest =>
      if keyLt key k then (key, value) :: (k, v) :: rest
      else if key = k then (key, value) :: rest
      else (k, v) :: assignMember key value rest

/-- `members.emplace(key, value)`: an existing member is kept. -/
def emplaceMember (key : String) (value : Json)
    (members : List (String × Json)) : List (String × Json) :=
  match members.lookup key with
  | some _ => members
  | none => assignMember key value members

/-- The object written as an initializer list of key and value pairs. -/
def ofInitializers (pairs : List (String × Json)) : Json :=
  .object (pairs.foldl (fun members pair => emplaceMember pair.1 pair.2 members) [])

@[simp] theorem lookup_cons_eq (k l : String) (v : Json) (rest : List (String × Json)) :
    ((l, v) :: rest).lookup k = if k = l then some v else rest.lookup k := by
  by_cases h : k = l
  · simp [h]
  · have hbeq : (k == l) = false := beq_eq_false_iff_ne.mpr h
    simp [List.lookup_cons, hbeq, h]

theorem lookup_assignMember (key k : String) (value : Json)
    (members : List (String × Json)) :
    (assignMember key value members).lookup k =
      if k = key then some value else members.lookup k := by
  induction members with
  | nil => simp [assignMember]
  | cons member rest ih =>
      obtain ⟨l, v⟩ := member
      by_cases hlt : keyLt key l = true
      · simp [assignMember, hlt]
      · by_cases heq : key = l
        · subst heq
          by_cases hk : k = key <;> simp [assignMember, hlt, hk]
        · by_cases hk : k = l
          · have hne : l ≠ key := Ne.symm heq
            simp [assignMember, hlt, heq, hk, hne]
          · simp [assignMember, hlt, heq, hk, ih]

theorem lookup_emplaceMember (key k : String) (value : Json)
    (members : List (String × Json)) :
    (emplaceMember key value members).lookup k =
      if k = key then some ((members.lookup key).getD value)
      else members.lookup k := by
  unfold emplaceMember
  cases h : members.lookup key with
  | none => simp [lookup_assignMember]
  | some old =>
      by_cases hk : k = key
      · simp [hk, h]
      · simp [hk]

/-! ## Accessors -/

/-- The name `type_name()` gives a value in error texts. -/
def typeName : Json → String
  | .null => "null"
  | .boolean _ => "boolean"
  | .integer _ => "number"
  | .float _ => "number"
  | .string _ => "string"
  | .array _ => "array"
  | .object _ => "object"

def isBoolean : Json → Bool
  | .boolean _ => true
  | _ => false

/-- `contains(key)`. -/
def contains (key : String) : Json → Bool
  | .object members => (members.lookup key).isSome
  | _ => false

/-- `operator[](key)` on a non-const value: the element read and the value as
it is afterwards. -/
def subscript (key : String) : Json → Except Exception (Json × Json)
  | .null => .ok (.null, .object [(key, .null)])
  | .object members =>
      .ok ((members.lookup key).getD .null, .object (emplaceMember key .null members))
  | j => .error (.typeError 305
      ("cannot use operator[] with a string argument with " ++ j.typeName))

/-- Conversion of a 64-bit integer to `int`. -/
def wrapInt (n : ℤ) : ℤ := n.bmod (2 ^ 32)

/-- Conversion of a `double` to `int`: truncation towards zero.  A result out of
range is undefined in the language; the value here is the one x86-64 gives. -/
def truncateToInt (q : ℚ) : ℤ :=
  let n := q.num.tdiv q.den
  if -2 ^ 31 ≤ n ∧ n < 2 ^ 31 then n else -2 ^ 31

/-- `get<int>()`. -/
def getInt : Json → Except Exception ℤ
  | .integer n => .ok (wrapInt n)
  | .float q => .ok (truncateToInt q)
  | .boolean b => .ok (if b then 1 else 0)
  | j => .error (.typeError 302 ("type must be number, but is " ++ j.typeName))

/-- `get<std::string>()`. -/
def getString : Json → Except Exception String
  | .string s => .ok s
  | j => .error (.typeError 302 ("type must be string, but is " ++ j.typeName))

/-- `get<bool>()`. -/
def getBool : Json → Except Exception Bool
  | .boolean b => .ok b
  | j => .error (.typeError 302 ("type must be boolean, but is " ++ j.typeName))

/-- The value read under `key`, null when there is none. -/
def field (key : String) : Json → Json
  | .object members => (members.lookup key).getD .null
  | _ => .null

theorem eq_boolean_of_getBool {j : Json} {b : Bool} (h : j.getBool = .ok b) : j = .boolean b := by
  cases j with
  | boolean b' => exact congrArg Json.boolean (Except.ok.inj h)
  | _ => cases h

theorem exists_getBool_eq {j : Json} (h : j.isBoolean = true) :
    ∃ b, j.getBool = .ok b := by
  cases j with
  | boolean b => exact ⟨b, rfl⟩
  | _ => simp [isBoolean] at h

theorem field_eq_null {j : Json} {key : String} (h : j.contains key = false) :
    j.field key = .null := by
  cases j with
  | object members =>
      have hnone : members.lookup key = none := by simpa [contains] using h
      simp [field, hnone]
  | _ => rfl

theorem exists_eq_boolean {j : Json} (h : j.isBoolean = true) : ∃ b, j = .boolean b := by
  cases j with
  | boolean b => exact ⟨b, rfl⟩
  | _ => simp [isBoolean] at h

/-- `operator[]` with a string key does not throw. -/
def isIndexable : Json → Bool
  | .null => true
  | .object _ => true
  | _ => false

/-- The value after a read under `key`. -/
def touch (key : String) : Json → Json
  | .null => .object [(key, .null)]
  | .object members => .object (emplaceMember key .null members)
  | j => j

theorem subscript_eq {j : Json} (h : j.isIndexable = true) (key : String) :
    j.subscript key = .ok (j.field key, j.touch key) := by
  cases j with
  | null => rfl
  | object members => rfl
  | _ => simp [isIndexable] at h

@[simp] theorem isIndexable_touch (j : Json) (key : String) :
    (j.touch key).isIndexable = j.isIndexable := by
  cases j <;> rfl

/-- The null that a read may insert is not seen by later reads. -/
@[simp] theorem field_touch (j : Json) (key k : String) :
    (j.touch key).field k = j.field k := by
  cases j with
  | null =>
      by_cases hk : k = key <;> simp [touch, field, hk]
  | object members =>
      simp only [touch, field, lookup_emplaceMember]
      by_cases hk : k = key
      · subst hk
        cases members.lookup k <;> simp
      · simp [hk]
  | _ => rfl

theorem contains_touch_of_ne {key k : String} (h : k ≠ key) (j : Json) :
    (j.touch key).contains k = j.contains k := by
  cases j with
  | null => simp [touch, contains, h]
  | object members => simp [touch, contains, lookup_emplaceMember, h]
  | _ => rfl

@[simp] theorem field_object (key : String) (members : List (String × Json)) :
    field key (.object members) = (members.lookup key).getD .null := rfl

/-- An `int` survives its conversion to JSON and back. -/
theorem wrapInt_of_range {n : ℤ} (hlow : -2 ^ 31 ≤ n) (hhigh : n < 2 ^ 31) :
    wrapInt n = n := by
  unfold wrapInt
  rw [Int.bmod_eq_of_le] <;> omega

/-- What `get<int>()` returns is an `int`. -/
theorem wrapInt_of_getInt {j : Json} {n : ℤ} (h : j.getInt = .ok n) : wrapInt n = n := by
  cases j with
  | integer m =>
      obtain rfl := Except.ok.inj h
      exact Int.bmod_bmod
  | float q =>
      obtain rfl := Except.ok.inj h
      unfold truncateToInt
      simp only
      split
      next hrange => exact wrapInt_of_range hrange.1 hrange.2
      next => exact wrapInt_of_range (by omega) (by omega)
  | boolean b =>
      obtain rfl := Except.ok.inj h
      cases b <;> rfl
  | _ => simp [getInt] at h

end Json

/-! ## Serialization -/

/-- `json::dump` and `json::parse`.  Dumping a value with a string that is not
valid UTF-8 throws; parsing a dumped text gives the value back.  This is asked of all values
of `Json`, the integers and objects that `json` cannot hold among them, so that the data of
a message needs no condition. -/
structure JsonLibrary where
  dump : Json → Except Exception String
  parse : String → Except Exception Json
  parse_dump : ∀ {value text}, dump value = .ok text → parse text = .ok value

/-- The library restricted to finitely many values with their texts: any other
value is not dumped and any other text is refused. -/
def JsonLibrary.ofTable (table : List (Json × String))
    (h : (table.map Prod.snd).Nodup) : JsonLibrary where
  dump value :=
    match table.find? (fun entry => entry.1 = value) with
    | some entry => .ok entry.2
    | none => .error (.typeError 316 "invalid UTF-8 byte")
  parse text :=
    match table.find? (fun entry => entry.2 = text) with
    | some entry => .ok entry.1
    | none => .error .parseError
  parse_dump := by
    intro value text hdump
    cases hfind : table.find? (fun entry => entry.1 = value) with
    | none => simp [hfind] at hdump
    | some entry =>
        have htext : entry.2 = text := by simpa [hfind] using hdump
        have hvalue : entry.1 = value := by simpa using List.find?_some hfind
        have hmem : entry ∈ table := List.mem_of_find?_eq_some hfind
        cases hback : table.find? (fun entry => entry.2 = text) with
        | none =>
            have := List.find?_eq_none.mp hback entry hmem
            simp [htext] at this
        | some entry' =>
            have htext' : entry'.2 = text := by simpa using List.find?_some hback
            have hmem' : entry' ∈ table := List.mem_of_find?_eq_some hback
            have hsame : entry' = entry :=
              List.inj_on_of_nodup_map h hmem' hmem (htext'.trans htext.symm)
            simp [hsame, hvalue]

theorem JsonLibrary.mem_of_dump_ofTable {table : List (Json × String)}
    {h : (table.map Prod.snd).Nodup} {value : Json} {text : String}
    (hdump : (ofTable table h).dump value = .ok text) : (value, text) ∈ table := by
  cases hfind : table.find? (fun entry => entry.1 = value) with
  | none => simp [ofTable, hfind] at hdump
  | some entry =>
      have htext : entry.2 = text := by simpa [ofTable, hfind] using hdump
      have hvalue : entry.1 = value := by simpa using List.find?_some hfind
      rw [← htext, ← hvalue]
      exact List.mem_of_find?_eq_some hfind

theorem JsonLibrary.mem_of_parse_ofTable {table : List (Json × String)}
    {h : (table.map Prod.snd).Nodup} {value : Json} {text : String}
    (hparse : (ofTable table h).parse text = .ok value) : (value, text) ∈ table := by
  cases hfind : table.find? (fun entry => entry.2 = text) with
  | none => simp [ofTable, hfind] at hparse
  | some entry =>
      have hvalue : entry.1 = value := by simpa [ofTable, hfind] using hparse
      have htext : entry.2 = text := by simpa using List.find?_some hfind
      rw [← htext, ← hvalue]
      exact List.mem_of_find?_eq_some hfind

end Protoo
