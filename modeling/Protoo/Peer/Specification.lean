import Protoo.Peer.Core

/-!
# The peer: what each function does

One lemma for each function of the peer, with the JSON accesses resolved.  A
registration always succeeds, with the drawn number as the id.  A text that the
decoder accepts as a response has an id of type `int` and, if it has a field
`ok` at all, a boolean one, so that `handleResponse` reads it without an
exception; what it then does depends on the entry of the id alone.
-/

namespace Protoo

open Protoo.Support

namespace Peer

/-! ## Registration -/

/-- The call that `register` leaves in progress. -/
def registered (draw : Draw) (method : String) (data : Json) (p : Peer) : RequestCall where
  id := draw.number
  promise := p.states.length
  request := (Message.createRequest draw.number method data).touch "id"
  timeoutMs := Protoo.timeoutMs (p.promises.insert draw.number p.states.length).keys.card

/-- The peer with the new promise entered, before the replaced one is released. -/
def enter (id : ℤ) (p : Peer) : Peer :=
  { p with
    states := Store.make p.states
    promises := p.promises.insert id p.states.length }

/-- A release changes the states of the promises, and makes none. -/
theorem release_frame (held : List ℕ) (promise : Option ℕ) (p : Peer) :
    ∃ states : Store Reply, states.length = p.states.length ∧
      p.release held promise = { p with states } := by
  cases promise with
  | none => exact ⟨p.states, rfl, rfl⟩
  | some k =>
      simp only [release]
      split
      · exact ⟨p.states, rfl, rfl⟩
      · exact ⟨Store.abandon k (.error .brokenPromise) p.states, by simp, rfl⟩

theorem release_promises (held : List ℕ) (promise : Option ℕ) (p : Peer) :
    (p.release held promise).promises = p.promises := by
  obtain ⟨states, -, heq⟩ := p.release_frame held promise
  rw [heq]

theorem release_transport (held : List ℕ) (promise : Option ℕ) (p : Peer) :
    (p.release held promise).transport = p.transport := by
  obtain ⟨states, -, heq⟩ := p.release_frame held promise
  rw [heq]

theorem length_states_release (held : List ℕ) (promise : Option ℕ) (p : Peer) :
    (p.release held promise).states.length = p.states.length := by
  obtain ⟨states, hlength, heq⟩ := p.release_frame held promise
  rw [heq]
  exact hlength

@[simp] theorem transport_eraseEntry (held : List ℕ) (id : ℤ) (p : Peer) :
    (p.eraseEntry held id).transport = p.transport := by
  rw [eraseEntry, release_transport]

theorem states_eraseEntry (held : List ℕ) (id : ℤ) (p : Peer) :
    (p.eraseEntry held id).states = (p.release held (p.promises.lookup id)).states := by
  unfold eraseEntry
  cases p.promises.lookup id with
  | none => rfl
  | some k =>
      simp only [release]
      split <;> rfl

@[simp] theorem promises_eraseEntry (held : List ℕ) (id : ℤ) (p : Peer) :
    (p.eraseEntry held id).promises = p.promises.erase id := by
  rw [eraseEntry, release_promises]

/-- A registration draws the id, enters a new promise under it and releases the
promise it replaces. -/
theorem register_eq (held : List ℕ) (draw : Draw) (method : String) (data : Json) (p : Peer) :
    p.register held draw method data =
      .ok (p.registered draw method data,
        (p.enter draw.number).release held (p.promises.lookup draw.number)) := by
  have hindex : (Message.createRequest draw.number method data).isIndexable = true := by
    rw [Message.createRequest_eq]
    rfl
  have hid : ((Message.createRequest draw.number method data).field "id").getInt =
      .ok draw.number := by
    rw [Message.createRequest_eq]
    have hfield : (Message.Decoded.request draw.number method data).toJson.field "id" =
        .integer draw.number := by
      simp [Message.Decoded.toJson]
    rw [hfield, Json.getInt, Draw.wrapInt_number]
  simp [register, Json.subscript_eq hindex, hid, registered, enter, release_promises]

/-! ## Dispatch -/

/-- What `onMessage` makes of a message it can read. -/
theorem onMessage_eq {message : Json} (h : message.isIndexable = true) :
    onMessage message = .ok (
      if (message.field "request").isBoolean then .request (message.touch "request")
      else if (message.field "response").isBoolean then
        .response ((message.touch "request").touch "response")
      else if (message.field "notification").isBoolean then
        .notification (((message.touch "request").touch "response").touch "notification")
      else .invalid) := by
  simp only [onMessage, Json.subscript_eq, h, Json.isIndexable_touch, Json.field_touch,
    except_ok_bind, except_pure]
  split
  · rfl
  · split
    · rfl
    · split <;> rfl

/-- A message that `handleResponse` reads without an exception. -/
structure IsResponse (response : Json) (id : ℤ) : Prop where
  isIndexable : response.isIndexable = true
  id : (response.field "id").getInt = .ok id
  ok : response.contains "ok" = true → (response.field "ok").isBoolean = true

/-- The result a response carries. -/
def replyOf (response : Json) : Reply :=
  if response.field "ok" = .boolean true then .ok (response.field "data")
  else .error (.runtimeError "response error")

@[simp] theorem replyOf_touch (response : Json) (key : String) :
    replyOf (response.touch key) = replyOf response := by
  simp [replyOf]

theorem IsResponse.touch {response : Json} {id : ℤ} (h : IsResponse response id)
    {key : String} (hkey : "ok" ≠ key) : IsResponse (response.touch key) id where
  isIndexable := by
    rw [Json.isIndexable_touch]
    exact h.isIndexable
  id := by
    rw [Json.field_touch]
    exact h.id
  ok := by
    rw [Json.contains_touch_of_ne hkey, Json.field_touch]
    exact h.ok

/-- What the decoder returns for a response is read without an exception. -/
theorem exists_isResponse_of_decode {object message : Json}
    (h : Message.decode object = .ok message)
    (hresponse : (message.field "response").isBoolean = true) :
    ∃ id, message.field "id" = .integer id ∧ IsResponse message id ∧
      (message.field "request").isBoolean = false := by
  obtain ⟨shape, hshape, rfl⟩ := Message.exists_decoded_of_decode h
  obtain ⟨hindex, ⟨id, hid⟩, hrequest, hok⟩ := Message.Decoded.of_isBoolean_response hresponse
  have hfield := Message.Decoded.field_id_toJson hid
  -- an id read by `get<int>()` survives being read again
  have hread : (shape.toJson.field "id").getInt = .ok id := by
    rw [hfield, Json.getInt,
      Json.wrapInt_of_getInt (Message.Decoded.getInt_of_ofFields hshape hid)]
  exact ⟨id, hfield, ⟨hindex, hread, hok⟩, hrequest⟩

/-- What `onMessage` made of a decoded message tells how the message reads. -/
theorem response_of_dispatch {object message response : Json}
    (hdecode : Message.decode object = .ok message)
    (hdispatch : onMessage message = .ok (.response response)) :
    (message.field "response").isBoolean = true ∧
      ∃ id, message.field "id" = .integer id ∧ IsResponse response id ∧
        replyOf response = replyOf message := by
  rw [onMessage_eq (Message.isIndexable_of_decode hdecode), Except.ok.injEq] at hdispatch
  split at hdispatch
  · exact Dispatch.noConfusion hdispatch
  · split at hdispatch
    next hresponse =>
      obtain rfl := Dispatch.response.inj hdispatch
      obtain ⟨id, hid, hread, -⟩ := exists_isResponse_of_decode hdecode hresponse
      refine ⟨hresponse, id, hid, ?_, by simp⟩
      exact (hread.touch (by decide)).touch (by decide)
    next =>
      split at hdispatch
      · exact Dispatch.noConfusion hdispatch
      · exact Dispatch.noConfusion hdispatch

/-! ## Responses -/

/-- `handleResponse` up to the completion: the entry of the id decides. -/
theorem completeResponse_eq {response : Json} {id : ℤ} (h : IsResponse response id)
    (p : Peer) :
    p.completeResponse response =
      match p.promises.lookup id with
      | none => .ok (none, p)
      | some promise =>
          match Store.satisfy promise (replyOf response) p.states with
          | some states => .ok (some id, { p with states })
          | none => .error .promiseAlreadySatisfied := by
  by_cases hcontains : response.contains "ok" = true
  · obtain ⟨b, hb⟩ := Json.exists_eq_boolean (h.ok hcontains)
    cases hlookup : p.promises.lookup id with
    | none =>
        simp [completeResponse, Json.subscript_eq, h.isIndexable, h.id, hlookup, hb,
          Json.getBool, Json.contains_touch_of_ne, hcontains]
    | some promise =>
        cases b <;>
          simp [completeResponse, Json.subscript_eq, h.isIndexable, h.id, hlookup, hb,
            Json.getBool, Json.contains_touch_of_ne, hcontains, replyOf] <;> rfl
  · have hfalse : response.contains "ok" = false := Bool.eq_false_of_not_eq_true hcontains
    have hnull : response.field "ok" = .null := Json.field_eq_null hfalse
    cases hlookup : p.promises.lookup id with
    | none =>
        simp [completeResponse, Json.subscript_eq, h.isIndexable, h.id, hlookup,
          Json.contains_touch_of_ne, hfalse]
    | some promise =>
        simp [completeResponse, Json.subscript_eq, h.isIndexable, h.id, hlookup, hnull,
          Json.contains_touch_of_ne, hfalse, replyOf]
        rfl

/-- `handleResponse`, run without interruption. -/
theorem handleResponse_eq {response : Json} {id : ℤ} (h : IsResponse response id) (p : Peer) :
    p.handleResponse response =
      match p.promises.lookup id with
      | none => .ok p
      | some promise =>
          match Store.satisfy promise (replyOf response) p.states with
          | some states => .ok (({ p with states }).postCancel.eraseEntry [] id)
          | none => .error .promiseAlreadySatisfied := by
  rw [handleResponse, completeResponse_eq h]
  cases p.promises.lookup id with
  | none => rfl
  | some promise =>
      cases hsatisfy : Store.satisfy promise (replyOf response) p.states <;> simp [hsatisfy]

/-! ## Timeouts -/

/-- A timeout finds no entry, or completes the promise of the entry. -/
theorem completeTimeout_eq_ok {id : ℤ} {p : Peer} {result : Option ℤ × Peer}
    (h : p.completeTimeout id = .ok result) :
    (p.promises.lookup id = none ∧ result = (none, p)) ∨
      ∃ promise, p.promises.lookup id = some promise ∧ p.states[promise]? = some .empty ∧
        result = (some id, { p with
          states := p.states.set promise
            (.ready (.error (.runtimeError "request timeout"))) }) := by
  unfold completeTimeout at h
  cases hlookup : p.promises.lookup id with
  | none =>
      simp only [hlookup, Except.ok.injEq] at h
      exact Or.inl ⟨rfl, h.symm⟩
  | some promise =>
      simp only [hlookup] at h
      split at h
      next states hsatisfy =>
        obtain ⟨hempty, rfl⟩ := Store.satisfy_eq_some_iff.mp hsatisfy
        exact Or.inr ⟨promise, rfl, hempty, (Except.ok.inj h).symm⟩
      next => simp at h

/-- The closure, run without interruption. -/
theorem onTimeout_eq (id : ℤ) (p : Peer) :
    p.onTimeout id =
      match p.promises.lookup id with
      | none => .ok p
      | some promise =>
          match Store.satisfy promise (.error (.runtimeError "request timeout")) p.states with
          | some states => .ok (({ p with states }).eraseEntry [] id)
          | none => .error .promiseAlreadySatisfied := by
  rw [onTimeout, completeTimeout]
  cases p.promises.lookup id with
  | none => rfl
  | some promise =>
      cases hsatisfy : Store.satisfy promise (.error (.runtimeError "request timeout")) p.states <;>
        simp [hsatisfy]

end Peer

end Protoo
