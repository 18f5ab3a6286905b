import Protoo.Json
import Mathlib.Data.List.Pairwise
import Mathlib.Data.String.Basic

/-!
# The document under construction

`json_sax_dom_parser` builds the value in place: `root` is changed through the pointers
on `ref_stack`, one for each open container, and through `object_element`, the member
that the next value of an object is written to.  A pointer is a path from the root here.

The containers that are open can also be seen one inside the other, each without the
value that is being read into it.  `Dom.Awaits` and `Dom.Holds` say that the pointers on the
stack lead to these containers; each function is shown to keep this, which is why no
pointer dangles and `root` is the value that was read.
-/

namespace Protoo.JsonText

/-! ## Members in key order -/

/-- The keys of the members rise. -/
def SortedKeys (members : List (String × Json)) : Prop :=
  members.Pairwise fun m n => m.1 < n.1

theorem keyLt_iff {key k : String} : Json.keyLt key k = true ↔ key < k := decide_eq_true_iff

theorem mem_keys_assignMember {key : String} {value : Json} {members : List (String × Json)}
    {member : String × Json} (h : member ∈ Json.assignMember key value members) :
    member.1 = key ∨ ∃ old ∈ members, old.1 = member.1 := by
  induction members with
  | nil =>
      obtain rfl := List.mem_singleton.mp h
      exact .inl rfl
  | cons first rest ih =>
      obtain ⟨k, v⟩ := first
      rw [Json.assignMember] at h
      split at h
      · rcases List.mem_cons.mp h with rfl | hmem
        · exact .inl rfl
        · exact .inr ⟨member, hmem, rfl⟩
      · split at h
        · rcases List.mem_cons.mp h with rfl | hmem
          · exact .inl rfl
          · exact .inr ⟨member, List.mem_cons_of_mem _ hmem, rfl⟩
        · rcases List.mem_cons.mp h with rfl | hmem
          · exact .inr ⟨(k, v), List.mem_cons_self, rfl⟩
          · rcases ih hmem with heq | ⟨old, hold, heq⟩
            · exact .inl heq
            · exact .inr ⟨old, List.mem_cons_of_mem _ hold, heq⟩

/-- Assigning a member keeps the order. -/
theorem sortedKeys_assignMember {key : String} {value : Json} {members : List (String × Json)}
    (h : SortedKeys members) : SortedKeys (Json.assignMember key value members) := by
  induction members with
  | nil => exact List.pairwise_singleton _ _
  | cons first rest ih =>
      obtain ⟨k, v⟩ := first
      obtain ⟨hfirst, hrest⟩ := List.pairwise_cons.mp h
      rw [Json.assignMember]
      split
      next hlt =>
        have hkey := keyLt_iff.mp hlt
        refine List.pairwise_cons.mpr ⟨fun member hmem => ?_, h⟩
        rcases List.mem_cons.mp hmem with rfl | hmem
        · exact hkey
        · exact lt_trans hkey (hfirst member hmem)
      next hlt =>
        split
        next heq =>
          subst heq
          exact List.pairwise_cons.mpr ⟨hfirst, hrest⟩
        next hne =>
          have hkey : k < key :=
            lt_of_le_of_ne (not_lt.mp (mt keyLt_iff.mpr hlt)) (Ne.symm hne)
          refine List.pairwise_cons.mpr ⟨fun member hmem => ?_, ih hrest⟩
          rcases mem_keys_assignMember hmem with heq | ⟨old, hold, heq⟩
          · exact heq ▸ hkey
          · exact heq ▸ hfirst old hold

/-- The second of two assignments to a key counts. -/
theorem assignMember_assignMember (key : String) (value old : Json)
    (members : List (String × Json)) :
    Json.assignMember key value (Json.assignMember key old members) =
      Json.assignMember key value members := by
  have hirrefl : ¬ Json.keyLt key key = true := mt keyLt_iff.mp (lt_irrefl key)
  induction members with
  | nil => simp [Json.assignMember, hirrefl]
  | cons first rest ih =>
      obtain ⟨k, v⟩ := first
      by_cases hlt : Json.keyLt key k = true
      · simp [Json.assignMember, hlt, hirrefl]
      · by_cases heq : key = k
        · subst heq
          simp [Json.assignMember, hirrefl]
        · simp [Json.assignMember, hlt, heq, ih]

theorem mem_keys_of_lookup {key : String} {value : Json} {members : List (String × Json)}
    (h : members.lookup key = some value) : ∃ member ∈ members, member.1 = key := by
  obtain ⟨before, after, rfl, -⟩ := List.lookup_eq_some_iff.mp h
  exact ⟨(key, value), by simp, rfl⟩

theorem mem_assignMember_self (key : String) (value : Json) (members : List (String × Json)) :
    (key, value) ∈ Json.assignMember key value members := by
  induction members with
  | nil => exact List.mem_singleton.mpr rfl
  | cons first rest ih =>
      rw [Json.assignMember]
      split
      · exact List.mem_cons_self
      · split
        · exact List.mem_cons_self
        · exact List.mem_cons_of_mem _ ih

/-- An assignment after the member was created by reading it. -/
theorem assignMember_emplaceMember (key : String) (value : Json) (members : List (String × Json)) :
    Json.assignMember key value (Json.emplaceMember key .null members) =
      Json.assignMember key value members := by
  unfold Json.emplaceMember
  split
  · rfl
  · exact assignMember_assignMember key value .null members

theorem sortedKeys_emplaceMember {key : String} {value : Json} {members : List (String × Json)}
    (h : SortedKeys members) : SortedKeys (Json.emplaceMember key value members) := by
  unfold Json.emplaceMember
  split
  · exact h
  · exact sortedKeys_assignMember h

theorem mem_keys_emplaceMember (key : String) (value : Json) (members : List (String × Json)) :
    ∃ member ∈ Json.emplaceMember key value members, member.1 = key := by
  unfold Json.emplaceMember
  split
  next old hlookup => exact mem_keys_of_lookup hlookup
  next => exact ⟨_, mem_assignMember_self key value members, rfl⟩

/-- The member with the key is changed. -/
def modifyMember (key : String) (f : Json → Json) (members : List (String × Json)) :
    List (String × Json) :=
  members.map fun member => if member.1 = key then (member.1, f member.2) else member

theorem modifyMember_cons (key : String) (f : Json → Json) (member : String × Json)
    (members : List (String × Json)) :
    modifyMember key f (member :: members) =
      (if member.1 = key then (member.1, f member.2) else member) ::
        modifyMember key f members := rfl

theorem modifyMember_of_lt {key : String} {f : Json → Json} {members : List (String × Json)}
    (h : ∀ member ∈ members, key < member.1) : modifyMember key f members = members := by
  refine (List.map_congr_left fun member hmem => if_neg ?_).trans (List.map_id _)
  exact ne_of_gt (h member hmem)

theorem modifyMember_assignMember {key : String} {f : Json → Json} {value : Json}
    {members : List (String × Json)} (h : SortedKeys members) :
    modifyMember key f (Json.assignMember key value members) =
      Json.assignMember key (f value) members := by
  induction members with
  | nil => simp [Json.assignMember, modifyMember]
  | cons first rest ih =>
      obtain ⟨k, v⟩ := first
      obtain ⟨hfirst, hrest⟩ := List.pairwise_cons.mp h
      rw [Json.assignMember, Json.assignMember]
      split
      next hlt =>
        have hkey := keyLt_iff.mp hlt
        have htail : modifyMember key f ((k, v) :: rest) = (k, v) :: rest := by
          refine modifyMember_of_lt fun member hmem => ?_
          rcases List.mem_cons.mp hmem with rfl | hmem
          · exact hkey
          · exact lt_trans hkey (hfirst member hmem)
        rw [modifyMember_cons, if_pos rfl, htail]
      next =>
        split
        next heq =>
          subst heq
          rw [modifyMember_cons, if_pos rfl, modifyMember_of_lt hfirst]
        next hne =>
          rw [modifyMember_cons, if_neg (Ne.symm hne), ih hrest]

/-- Writing to a member that is there is an assignment. -/
theorem modifyMember_eq_assignMember {key : String} {value : Json}
    {members : List (String × Json)} (h : SortedKeys members)
    (hkey : ∃ member ∈ members, member.1 = key) :
    modifyMember key (fun _ => value) members = Json.assignMember key value members := by
  induction members with
  | nil =>
      obtain ⟨member, hmem, -⟩ := hkey
      exact nomatch hmem
  | cons first rest ih =>
      obtain ⟨k, v⟩ := first
      obtain ⟨hfirst, hrest⟩ := List.pairwise_cons.mp h
      obtain ⟨member, hmem, rfl⟩ := hkey
      rcases List.mem_cons.mp hmem with rfl | hmem
      · have hirrefl : ¬ Json.keyLt k k = true := mt keyLt_iff.mp (lt_irrefl k)
        rw [Json.assignMember, if_neg hirrefl, if_pos rfl, modifyMember_cons, if_pos rfl,
          modifyMember_of_lt hfirst]
      · have hlt : k < member.1 := hfirst member hmem
        have hnot : ¬ Json.keyLt member.1 k = true := mt keyLt_iff.mp (lt_asymm hlt)
        rw [Json.assignMember, if_neg hnot, if_neg (ne_of_gt hlt), modifyMember_cons,
          if_neg (ne_of_lt hlt), ih hrest ⟨member, hmem, rfl⟩]

/-! ## The parser's document -/

/-- A step of a pointer: into an array or into an object. -/
inductive Step where
  | element (index : ℕ)
  | member (key : String)
  deriving DecidableEq

/-- The value a pointer leads to. -/
def valueAt : List Step → Json → Json
  | [], j => j
  | .element i :: path, .array elements => valueAt path (elements.getD i .null)
  | .member key :: path, .object members => valueAt path ((members.lookup key).getD .null)
  | _ :: _, _ => .null

/-- The value a pointer leads to is changed. -/
def modifyAt (f : Json → Json) : List Step → Json → Json
  | [], j => f j
  | .element i :: path, .array elements => .array (elements.modify i (modifyAt f path))
  | .member key :: path, .object members => .object (modifyMember key (modifyAt f path) members)
  | _ :: _, j => j

/-- `emplace_back` -/
def pushBack (value : Json) : Json → Json
  | .array elements => .array (elements ++ [value])
  | j => j

/-- `operator[]` on the members, by which a new one is null. -/
def touchMember (key : String) : Json → Json
  | .object members => .object (Json.emplaceMember key .null members)
  | j => j

/-- `json_sax_dom_parser`; the innermost container comes first on the stack. -/
structure Dom where
  root : Json
  refStack : List (List Step)
  objectElement : List Step

namespace Dom

/-- The document before the parser starts, whose root is null. -/
def start : Dom := ⟨.null, [], []⟩

/-- `handle_value`: the document and the pointer to the value. -/
def handleValue (value : Json) (d : Dom) : Dom × List Step :=
  match d.refStack with
  | [] => ({ d with root := value }, [])
  | back :: _ =>
      match valueAt back d.root with
      | .array elements =>
          ({ d with root := modifyAt (pushBack value) back d.root },
            back ++ [.element elements.length])
      | _ =>
          ({ d with root := modifyAt (fun _ => value) d.objectElement d.root }, d.objectElement)

/-- The events of a value without parts. -/
def value (v : Json) (d : Dom) : Dom := (d.handleValue v).1

/-- `start_object` and `start_array`, with the empty container. -/
def startContainer (container : Json) (d : Dom) : Dom :=
  let (next, pointer) := d.handleValue container
  { next with refStack := pointer :: next.refStack }

/-- `start_object` -/
def startObject (d : Dom) : Dom := d.startContainer (.object [])

/-- `start_array` -/
def startArray (d : Dom) : Dom := d.startContainer (.array [])

/-- `key` -/
def key (k : String) (d : Dom) : Dom :=
  match d.refStack with
  | [] => d
  | back :: _ =>
      { d with root := modifyAt (touchMember k) back d.root, objectElement := back ++ [.member k] }

/-- `end_object` and `end_array`. -/
def endContainer (d : Dom) : Dom := { d with refStack := d.refStack.tail }

end Dom

/-! ## The open containers -/

/-- Members in key order. -/
structure Members where
  list : List (String × Json)
  sorted : SortedKeys list

namespace Members

/-- No members. -/
def empty : Members := ⟨[], List.Pairwise.nil⟩

/-- `members[key] = value` -/
def assign (members : Members) (key : String) (value : Json) : Members :=
  ⟨Json.assignMember key value members.list, sortedKeys_assignMember members.sorted⟩

/-- The members the parser has after the pairs were read. -/
def ofPairs (members : Members) (pairs : List (String × Json)) : Members :=
  pairs.foldl (fun members pair => members.assign pair.1 pair.2) members

end Members

/-- An open container without the value that is read into it. -/
inductive Frame where
  | array (elements : List Json)
  | object (members : Members) (key : String)

namespace Frame

/-- The container with the value in its place. -/
def fill (value : Json) : Frame → Json
  | .array elements => .array (elements ++ [value])
  | .object members key => .object (Json.assignMember key value members.list)

/-- The container as it is before the value is known. -/
def waiting : Frame → Json
  | .array elements => .array elements
  | .object members key => .object (Json.emplaceMember key .null members.list)

/-- The step to the value. -/
def step : Frame → Step
  | .array elements => .element elements.length
  | .object _ key => .member key

end Frame

/-- The document around a value in the containers, the innermost first. -/
def plug : List Frame → Json → Json
  | [], v => v
  | frame :: outer, v => plug outer (frame.fill v)

/-- The pointer to that value. -/
def pathOf : List Frame → List Step
  | [] => []
  | frame :: outer => pathOf outer ++ [frame.step]

/-- The pointers to the containers. -/
def refs : List Frame → List (List Step)
  | [] => []
  | _ :: outer => pathOf outer :: refs outer

theorem valueAt_append (path path' : List Step) (j : Json) :
    valueAt (path ++ path') j = valueAt path' (valueAt path j) := by
  have hnull : ∀ path, valueAt path .null = .null := by
    intro path
    cases path with
    | nil => rfl
    | cons step path => cases step <;> rfl
  induction path generalizing j with
  | nil => rfl
  | cons step path ih =>
      cases step <;> cases j <;> simp [valueAt, ih, hnull]

theorem modifyAt_append (f : Json → Json) (path path' : List Step) (j : Json) :
    modifyAt f (path ++ path') j = modifyAt (modifyAt f path') path j := by
  induction path generalizing j with
  | nil => rfl
  | cons step path ih =>
      have ih' := funext ih
      cases step <;> cases j <;> simp [modifyAt, ih']

theorem valueAt_step_fill (frame : Frame) (v : Json) :
    valueAt [frame.step] (frame.fill v) = v := by
  cases frame with
  | array elements => simp [Frame.step, Frame.fill, valueAt]
  | object members key => simp [Frame.step, Frame.fill, valueAt, Json.lookup_assignMember]

theorem modify_last (f : Json → Json) (elements : List Json) (v : Json) :
    (elements ++ [v]).modify elements.length f = elements ++ [f v] := by
  induction elements with
  | nil => rfl
  | cons first rest ih => exact congrArg (first :: ·) ih

theorem modifyAt_step_fill (f : Json → Json) (frame : Frame) (v : Json) :
    modifyAt f [frame.step] (frame.fill v) = frame.fill (f v) := by
  cases frame with
  | array elements => exact congrArg Json.array (modify_last f elements v)
  | object members key =>
      rw [Frame.step, Frame.fill, modifyAt, modifyMember_assignMember members.sorted]
      rfl

/-- Writing to the value of the open member completes it. -/
theorem modifyAt_step_waiting (v : Json) (members : Members) (key : String) :
    modifyAt (fun _ => v) [(Frame.object members key).step] (Frame.object members key).waiting =
      (Frame.object members key).fill v := by
  rw [Frame.step, Frame.waiting, Frame.fill, modifyAt]
  have hwrite : modifyMember key (fun _ => v) (Json.emplaceMember key .null members.list) =
      Json.assignMember key v (Json.emplaceMember key .null members.list) :=
    modifyMember_eq_assignMember (sortedKeys_emplaceMember members.sorted)
      (mem_keys_emplaceMember key .null members.list)
  rw [assignMember_emplaceMember] at hwrite
  exact congrArg Json.object hwrite

/-- The pointer leads to the value in the containers. -/
theorem valueAt_pathOf (frames : List Frame) (v : Json) :
    valueAt (pathOf frames) (plug frames v) = v := by
  induction frames generalizing v with
  | nil => rfl
  | cons frame outer ih => rw [pathOf, plug, valueAt_append, ih, valueAt_step_fill]

/-- A change through the pointer changes this value and nothing else. -/
theorem modifyAt_pathOf (f : Json → Json) (frames : List Frame) (v : Json) :
    modifyAt f (pathOf frames) (plug frames v) = plug frames (f v) := by
  induction frames generalizing v f with
  | nil => rfl
  | cons frame outer ih => rw [pathOf, plug, modifyAt_append, ih, modifyAt_step_fill, plug]

namespace Dom

/-- The value `v` was read into the containers. -/
structure Holds (d : Dom) (frames : List Frame) (v : Json) : Prop where
  root : d.root = plug frames v
  refStack : d.refStack = refs frames

/-- The container was begun in the containers around it. -/
structure Open (d : Dom) (outer : List Frame) (container : Json) : Prop where
  root : d.root = plug outer container
  refStack : d.refStack = pathOf outer :: refs outer

/-- The next value belongs into the containers. -/
inductive Awaits (d : Dom) : List Frame → Prop where
  | document (hrefs : d.refStack = []) : Awaits d []
  | element {elements : List Json} {outer : List Frame} (hopen : d.Open outer (.array elements)) :
      Awaits d (.array elements :: outer)
  | member {members : Members} {key : String} {outer : List Frame}
      (hopen : d.Open outer (Frame.object members key).waiting)
      (helement : d.objectElement = pathOf (.object members key :: outer)) :
      Awaits d (.object members key :: outer)

theorem awaits_start : start.Awaits [] := .document rfl

theorem Holds.root_eq {d : Dom} {v : Json} (h : d.Holds [] v) : d.root = v := h.root

theorem Holds.hopen {d : Dom} {frame : Frame} {outer : List Frame} {v : Json}
    (h : d.Holds (frame :: outer) v) : d.Open outer (frame.fill v) := ⟨h.root, h.refStack⟩

theorem Holds.hopen_member {d : Dom} {members : Members} {key : String} {outer : List Frame}
    {v : Json} (h : d.Holds (.object members key :: outer) v) :
    d.Open outer (.object (members.assign key v).list) := h.hopen

/-- `handle_value` puts the value where it belongs and returns a pointer to it. -/
theorem Awaits.handleValue {d : Dom} {frames : List Frame} (h : d.Awaits frames) (v : Json) :
    (d.handleValue v).1.Holds frames v ∧ (d.handleValue v).2 = pathOf frames := by
  cases h with
  | document hrefs =>
      rw [Dom.handleValue, hrefs]
      exact ⟨⟨rfl, rfl⟩, rfl⟩
  | @element elements outer hopen =>
      have hback : valueAt (pathOf outer) d.root = .array elements := by
        rw [hopen.root, valueAt_pathOf]
      rw [Dom.handleValue, hopen.refStack]
      simp only [hback]
      refine ⟨⟨?_, rfl⟩, rfl⟩
      rw [hopen.root, modifyAt_pathOf]
      rfl
  | @member members key outer hopen helement =>
      have hback : valueAt (pathOf outer) d.root =
          .object (Json.emplaceMember key .null members.list) := by
        rw [hopen.root, valueAt_pathOf, Frame.waiting]
      rw [Dom.handleValue, hopen.refStack]
      simp only [hback]
      refine ⟨⟨?_, rfl⟩, helement⟩
      rw [helement, hopen.root, pathOf, modifyAt_append, modifyAt_pathOf, modifyAt_step_waiting,
        plug]

theorem Awaits.value {d : Dom} {frames : List Frame} (h : d.Awaits frames) (v : Json) :
    (d.value v).Holds frames v := (h.handleValue v).1

theorem Awaits.startContainer {d : Dom} {frames : List Frame} (h : d.Awaits frames)
    (container : Json) : (d.startContainer container).Open frames container := by
  obtain ⟨hholds, hpointer⟩ := h.handleValue container
  refine ⟨hholds.root, ?_⟩
  rw [Dom.startContainer]
  simp only [hpointer, hholds.refStack]

theorem Open.key {d : Dom} {outer : List Frame} {members : Members}
    (h : d.Open outer (.object members.list)) (k : String) :
    (d.key k).Awaits (.object members k :: outer) := by
  have hkey : d.key k = { d with
      root := modifyAt (touchMember k) (pathOf outer) d.root,
      objectElement := pathOf outer ++ [.member k] } := by
    rw [Dom.key, h.refStack]
  rw [hkey]
  refine .member ⟨?_, h.refStack⟩ rfl
  change modifyAt _ _ d.root = _
  rw [h.root, modifyAt_pathOf]
  rfl

theorem Open.endContainer {d : Dom} {outer : List Frame} {container : Json}
    (h : d.Open outer container) : d.endContainer.Holds outer container := by
  refine ⟨h.root, ?_⟩
  rw [Dom.endContainer, h.refStack]
  rfl

end Dom

end Protoo.JsonText
