import Protoo.Rpc.Fifo

/-!
# Results of requests come from the server

Every text on its way is accounted for: a message posted by a call of `request`
is that call's message (`SentBy`), a request the server decodes is one of these
(`ServedFor`), a response answers a decoded request, and a result in a future is
the reply of a response with the future's id, or one of the two errors the client
makes itself.  `Rpc.Inv` states this chain and every step keeps it.  The chain
fixes the ids only; which of several calls with one id a response was meant for
it does not say.
-/

namespace Protoo

open Protoo.Support

/-! ## The receive buffer between messages -/

namespace Client

/-- The buffer is empty whenever the service thread is not inside
`handleResponse`. -/
def BufferClean (c : Client) : Prop :=
  (∀ id, c.handler ≠ .completed id ∧ c.handler ≠ .cancelled id) →
    c.peer.transport.receivedMsg = ""

theorem BufferClean.receivedMsg_of_idle {c : Client} (h : c.BufferClean)
    (hidle : c.handler = .idle) : c.peer.transport.receivedMsg = "" := by
  apply h
  simp [hidle]

theorem Steps.bufferClean {lib : JsonLibrary} {c c' : Client} {e : ClientEvent}
    (h : Steps lib c e c') (hreceive : e.isReceive = false) (hc : c.BufferClean) :
    c'.BufferClean := by
  intro houtside
  cases h with
  | register => rw [Peer.release_transport]; exact hc houtside
  | postSend => rw [Peer.transport_returnRequest]; exact hc houtside
  | receive => simp [ClientEvent.isReceive] at hreceive
  | postCancel id => exact absurd rfl (houtside id).2
  | erase => rfl
  | eraseTimedOut id hhandler =>
      rw [Peer.transport_eraseEntry]
      exact hc (by simp [hhandler])
  | timeout _ _ hidle => exact hc.receivedMsg_of_idle hidle
  | service e s hidle hown hservice => exact (hservice.receivedMsg hown).trans (hc houtside)
  | _ => exact hc houtside

/-- A text that decodes to a response, received as one chunk over an empty
buffer. -/
theorem bufferClean_receive {lib : JsonLibrary} {c : Client} {text : String}
    {message : Json} (hparse : Message.parse lib text = .ok message)
    (hresponse : (message.field "response").isBoolean = true) (hc : c.BufferClean)
    (hpending : ∀ id k, c.peer.promises.lookup id = some k →
      c.peer.states[k]? = some .empty)
    (hidle : c.handler = .idle) : BufferClean (c.receive lib text true (.ok ())) := by
  have hbuffer : c.peer.transport.receivedMsg = "" := hc.receivedMsg_of_idle hidle
  obtain ⟨object, -, hdecode⟩ := exists_of_bind_eq_ok hparse
  obtain ⟨id, -, hread, hrequest⟩ := Peer.exists_isResponse_of_decode hdecode hresponse
  have hread' : Peer.IsResponse ((message.touch "request").touch "response") id :=
    (hread.touch (by decide)).touch (by decide)
  have hdispatch : Peer.onMessage message =
      .ok (.response ((message.touch "request").touch "response")) := by
    simp [Peer.onMessage_eq hread.isIndexable, hrequest, hresponse]
  intro houtside
  by_cases hchunk : 0 < text.length
  · simp only [receive, WebSocketTransport.receive, hchunk, if_true, hbuffer,
      String.empty_append, hparse, hdispatch, Peer.completeResponse_eq hread',
      setTransport] at houtside ⊢
    cases hlookup : c.peer.promises.lookup id with
    | none => rfl
    | some promise =>
        have hsatisfy : Store.satisfy promise (Peer.replyOf
            ((message.touch "request").touch "response")) c.peer.states = some _ :=
          Store.satisfy_eq_some_iff.mpr ⟨hpending id promise hlookup, rfl⟩
        simp only [hlookup, hsatisfy] at houtside
        exact absurd rfl (houtside id).1
  · simp only [receive, WebSocketTransport.receive, hchunk, if_false]
    exact hbuffer

theorem receive_of_step {lib : JsonLibrary} {c c' : Client} {chunk : String} {final : Bool}
    {handled : Except Exception Unit}
    (h : step lib c (.receive chunk final handled) = some c') :
    c.handler = .idle ∧ c' = c.receive lib chunk final handled := by
  simp only [step] at h
  split at h
  next hidle _ _ => exact ⟨hidle, (Option.some.inj h).symm⟩
  next => simp at h

/-- The calls in progress are those before and the one just registered. -/
theorem Steps.calls {lib : JsonLibrary} {c c' : Client} {e : ClientEvent}
    (h : Steps lib c e c') {r : CallInProgress} (hr : r ∈ c'.requests) :
    (∃ r₀ ∈ c.requests, r₀.call = r.call) ∨
      ∃ draw method data, e = .register draw method data ∧
        r.call = c.peer.registered draw method data := by
  cases h with
  | register draw method data =>
      rcases List.mem_append.mp hr with hold | hnew
      · exact Or.inl ⟨r, hold, rfl⟩
      · obtain rfl := List.mem_singleton.mp hnew
        exact Or.inr ⟨draw, method, data, rfl, rfl⟩
  | postTimeout i call hcall =>
      left
      rcases List.mem_or_eq_of_mem_set hr with hold | rfl
      · exact ⟨r, hold, rfl⟩
      · exact ⟨⟨call, false⟩, List.mem_of_getElem? hcall, rfl⟩
  | postSend i call hcall => exact Or.inl ⟨r, List.mem_of_mem_eraseIdx hr, rfl⟩
  | receive chunk final handled c' hidle hphase hreceived =>
      cases hreceived with
      | buffered => exact Or.inl ⟨r, hr, rfl⟩
      | completed => exact Or.inl ⟨r, hr, rfl⟩
  | _ => exact Or.inl ⟨r, hr, rfl⟩

/-- A promise made by the step has no result yet. -/
theorem WellFormed.not_ready_of_le {lib : JsonLibrary} {ids : List ℤ} {c c' : Client}
    {e : ClientEvent} (h : WellFormed ids c) (hstep : Client.step lib c e = some c') {k : ℕ}
    (hk : c.peer.states.length ≤ k) {reply : Reply} :
    c'.peer.states[k]? ≠ some (.ready reply) := by
  have hlength := (h.step hstep).length
  intro hready
  obtain ⟨hlt, -⟩ := List.getElem?_eq_some_iff.mp hready
  rw [hlength, List.length_append, ← h.length] at hlt
  cases steps_of_step hstep with
  | register draw method data =>
      rw [Peer.getElem?_states_release_of_ne, Peer.getElem?_states_enter] at hready
      · split at hready
        next => simp at hready
        next =>
          rw [List.getElem?_eq_none hk] at hready
          simp at hready
      · intro hreplaced
        exact absurd (h.lt_length hreplaced) (Nat.not_lt.mpr hk)
  | _ =>
      simp only [ClientEvent.newIds, List.length_nil, Nat.add_zero] at hlt
      exact absurd hlt (Nat.not_lt.mpr hk)

end Client

namespace Rpc

/-! ## Where messages come from -/

/-- The message was posted by the call of `request` that made promise `k`. -/
def SentBy (s : Rpc) (o : Outgoing) (k : ℕ) (reg : Registration) : Prop :=
  o.promise = some k ∧ s.registrations[k]? = some reg ∧ o.message = reg.message

/-- The request was decoded from the text of the call that made promise `k`. -/
def ServedFor (s : Rpc) (q : ServedRequest) (k : ℕ) (reg : Registration) : Prop :=
  ∃ o, s.sent[q.position]? = some o ∧ s.SentBy o k reg ∧
    q.request = (Message.Decoded.request reg.id reg.method reg.data).toJson

/-- The response answers a request with the id of promise `k`. -/
def RespondsTo (s : Rpc) (r : ServerResponse) (k : ℕ) : Prop :=
  ∃ q j reg reg', s.served[r.served]? = some q ∧ s.ServedFor q j reg ∧
    s.registrations[k]? = some reg' ∧ reg'.id = reg.id

/-- Where the result of promise `k` can come from. -/
inductive Accounted (s : Rpc) (k : ℕ) : Reply → Prop where
  | broken : Accounted s k (.error .brokenPromise)
  | timeout : Accounted s k (.error (.runtimeError "request timeout"))
  | response (r : ServerResponse) (hr : r ∈ s.responses) (hk : s.RespondsTo r k) :
      Accounted s k r.answer.reply

structure Inv (lib : JsonLibrary) (s : Rpc) : Prop where
  wellFormed : s.client.WellFormed (s.registrations.map Registration.id)
  buffer : s.client.BufferClean
  fifo : Fifo lib s
  calls : ∀ r ∈ s.client.requests, ∃ reg, s.registrations[r.call.promise]? = some reg ∧
    r.call.request = reg.message
  sent : ∀ o ∈ s.sent, (∃ k reg, s.SentBy o k reg) ∨ Message.isRequest o.message = false
  served : ∀ q ∈ s.served, ∃ k reg, s.ServedFor q k reg
  responses : ∀ r ∈ s.responses, ∃ q response, s.served[r.served]? = some q ∧
    r.answer.create q.request = .ok response ∧ lib.dump response = .ok r.text
  results : ∀ k reply, s.client.peer.states[k]? = some (.ready reply) → s.Accounted k reply

/-! ## The lists only grow -/

/-- The records of `t` continue those of `s`. -/
structure Extends (s t : Rpc) : Prop where
  registrations : s.registrations <+: t.registrations
  sent : s.sent <+: t.sent
  served : s.served <+: t.served
  responses : s.responses <+: t.responses

theorem Steps.extends {lib : JsonLibrary} {s t : Rpc} {e : RpcEvent} (h : Steps lib s e t) :
    Extends s t := by
  cases h with
  | client e =>
      exact ⟨List.prefix_append _ _, List.prefix_append _ _, List.prefix_refl _,
        List.prefix_refl _⟩
  | serve =>
      exact ⟨List.prefix_refl _, List.prefix_refl _, List.prefix_append _ _,
        List.prefix_refl _⟩
  | serveOther =>
      exact ⟨List.prefix_refl _, List.prefix_refl _, List.prefix_refl _, List.prefix_refl _⟩
  | respond =>
      exact ⟨List.prefix_refl _, List.prefix_refl _, List.prefix_refl _,
        List.prefix_append _ _⟩
  | deliver =>
      exact ⟨List.prefix_refl _, List.prefix_refl _, List.prefix_refl _, List.prefix_refl _⟩

theorem getElem?_of_prefix {α : Type*} {l l' : List α} (h : l <+: l') {i : ℕ} {a : α}
    (ha : l[i]? = some a) : l'[i]? = some a := by
  obtain ⟨hi, rfl⟩ := List.getElem?_eq_some_iff.mp ha
  exact List.prefix_iff_getElem?.mp h i hi

variable {lib : JsonLibrary} {s t : Rpc}

theorem SentBy.extend {o : Outgoing} {k : ℕ} {reg : Registration} (h : s.SentBy o k reg)
    (hext : Extends s t) : t.SentBy o k reg := by
  obtain ⟨hpromise, hreg, hmessage⟩ := h
  exact ⟨hpromise, getElem?_of_prefix hext.registrations hreg, hmessage⟩

theorem ServedFor.extend {q : ServedRequest} {k : ℕ} {reg : Registration}
    (h : s.ServedFor q k reg) (hext : Extends s t) : t.ServedFor q k reg := by
  obtain ⟨o, ho, hsent, hrequest⟩ := h
  exact ⟨o, getElem?_of_prefix hext.sent ho, hsent.extend hext, hrequest⟩

theorem RespondsTo.extend {r : ServerResponse} {k : ℕ} (h : s.RespondsTo r k)
    (hext : Extends s t) : t.RespondsTo r k := by
  obtain ⟨q, j, reg, reg', hq, hserved, hreg', hid⟩ := h
  exact ⟨q, j, reg, reg', getElem?_of_prefix hext.served hq, hserved.extend hext,
    getElem?_of_prefix hext.registrations hreg', hid⟩

theorem Accounted.extend {k : ℕ} {reply : Reply} (h : s.Accounted k reply)
    (hext : Extends s t) : t.Accounted k reply := by
  cases h with
  | broken => exact .broken
  | timeout => exact .timeout
  | response r hr hk => exact .response r (hext.responses.subset hr) (hk.extend hext)

/-! ## Decoding what was sent -/

/-- What the server decodes as a request is the request of some call. -/
theorem Inv.exists_servedFor (h : Inv lib s) {position : ℕ} {text : String} {message : Json}
    (htext : s.client.written[position]? = some text)
    (hparse : Message.parse lib text = .ok message)
    (hrequest : Message.isRequest message = true) :
    ∃ k reg, s.ServedFor { position, request := message } k reg := by
  obtain ⟨o, ho, hdump⟩ := h.fifo.exists_sent htext
  obtain ⟨object, hobject, hdecode⟩ := exists_of_bind_eq_ok hparse
  obtain rfl := Except.ok.inj ((lib.parse_dump hdump).symm.trans hobject)
  rcases h.sent o (List.mem_of_getElem? ho) with ⟨k, reg, hsent⟩ | hother
  · refine ⟨k, reg, o, ho, hsent, ?_⟩
    obtain ⟨-, -, hmessage⟩ := hsent
    have hround : Message.decode reg.message =
        .ok (Message.Decoded.request reg.id reg.method reg.data).toJson :=
      Message.decode_request reg.draw.wrapInt_number reg.method reg.data "id"
    rw [hmessage, hround] at hdecode
    exact (Except.ok.inj hdecode).symm
  · rw [Message.isRequest_of_decode hdecode hrequest] at hother
    exact Bool.noConfusion hother

/-- The id of a decoded request is the id of its call. -/
theorem ServedFor.getInt_id {q : ServedRequest} {k : ℕ} {reg : Registration}
    (h : s.ServedFor q k reg) :
    q.request.isIndexable = true ∧ (q.request.field "id").getInt = .ok reg.id := by
  obtain ⟨o, -, -, hrequest⟩ := h
  rw [hrequest]
  refine ⟨rfl, ?_⟩
  rw [Message.Decoded.field_id_toJson rfl, Json.getInt, Registration.id,
    reg.draw.wrapInt_number]

/-- What the client makes of the text of a response. -/
theorem Inv.parse_response (h : Inv lib s) {r : ServerResponse} (hr : r ∈ s.responses) :
    ∃ q k reg message, s.served[r.served]? = some q ∧ s.ServedFor q k reg ∧
      Message.parse lib r.text = .ok message ∧
      (message.field "response").isBoolean = true ∧ message.field "id" = .integer reg.id ∧
      Peer.replyOf message = r.answer.reply := by
  obtain ⟨q, response, hq, hcreate, hdump⟩ := h.responses r hr
  obtain ⟨k, reg, hserved⟩ := h.served q (List.mem_of_getElem? hq)
  obtain ⟨hindex, hid⟩ := hserved.getInt_id
  have hwrap : Json.wrapInt reg.id = reg.id := reg.draw.wrapInt_number
  have hparse : Message.parse lib r.text = Message.decode response := by
    rw [Message.parse, lib.parse_dump hdump, except_ok_bind]
  cases hanswer : r.answer with
  | success data =>
      rw [hanswer, Answer.create, Message.createSuccessResponse_eq hindex hid] at hcreate
      obtain rfl := Except.ok.inj hcreate
      rw [Message.decode_success hwrap] at hparse
      refine ⟨q, k, reg, _, hq, hserved, hparse, ?_, ?_, ?_⟩
      all_goals
        simp +decide [Message.Decoded.toJson, Json.isBoolean, Peer.replyOf, Answer.reply]
  | failure errorCode errorReason =>
      rw [hanswer, Answer.create, Message.createErrorResponse_eq hindex hid] at hcreate
      obtain rfl := Except.ok.inj hcreate
      rw [Message.decode_failure hwrap] at hparse
      refine ⟨q, k, reg, _, hq, hserved, hparse, ?_, ?_, ?_⟩
      all_goals
        simp +decide [Message.Decoded.toJson, Json.isBoolean, Peer.replyOf, Answer.reply]

/-! ## Steps -/

theorem inv_init (lib : JsonLibrary) : Inv lib ({} : Rpc) where
  wellFormed := Client.wellFormed_init
  buffer := fun _ => rfl
  fifo := fifo_init lib
  calls := by simp
  sent := by simp
  served := by simp
  responses := by simp
  results := by simp

theorem map_id_registrations (e : ClientEvent) :
    e.registrations.map Registration.id = e.newIds := by
  cases e <;> rfl

/-- A result that a step of the client leaves was there before, is an error of the
client's own, or came with a received response. -/
theorem Inv.result_cases (h : Inv lib s) {e : ClientEvent} {c : Client}
    (hstep : Client.step lib s.client e = some c) {k : ℕ} {reply : Reply}
    (hk : c.peer.states[k]? = some (.ready reply)) :
    s.Accounted k reply ∨
      ∃ chunk final handled message id, e = .receive chunk final handled ∧
        Message.parse lib (s.client.peer.transport.receivedMsg ++ chunk) = .ok message ∧
        message.field "id" = .integer id ∧ s.client.peer.promises.lookup id = some k ∧
        reply = Peer.replyOf message := by
  have hlt : k < s.client.peer.states.length := by
    by_contra hle
    exact h.wellFormed.not_ready_of_le hstep (Nat.not_lt.mp hle) hk
  cases (Client.steps_of_step hstep).change hlt with
  | same heq => exact Or.inl (h.results k reply (heq.symm.trans hk))
  | dropped _ _ hready =>
      obtain rfl := SharedState.ready.inj (Option.some.inj (hready.symm.trans hk))
      exact Or.inl .broken
  | timeout id _ _ _ _ hready =>
      obtain rfl := SharedState.ready.inj (Option.some.inj (hready.symm.trans hk))
      exact Or.inl .timeout
  | response chunk final handled message id he hparse hid hlookup _ hready =>
      obtain rfl := SharedState.ready.inj (Option.some.inj (hready.symm.trans hk))
      exact Or.inr ⟨chunk, final, handled, message, id, he, hparse, hid, hlookup, rfl⟩

/-- The calls in progress after a step of the client. -/
theorem Inv.calls_step (h : Inv lib s) {e : ClientEvent} {c : Client}
    (hstep : Client.step lib s.client e = some c) {r : CallInProgress} (hr : r ∈ c.requests) :
    ∃ reg, (s.registrations ++ e.registrations)[r.call.promise]? = some reg ∧
      r.call.request = reg.message := by
  rcases (Client.steps_of_step hstep).calls hr with
    ⟨r₀, hr₀, hcall⟩ | ⟨draw, method, data, rfl, hcall⟩
  · obtain ⟨reg, hreg, hrequest⟩ := h.calls r₀ hr₀
    rw [← hcall]
    exact ⟨reg, getElem?_of_prefix (List.prefix_append _ _) hreg, hrequest⟩
  · refine ⟨{ draw, method, data }, ?_, ?_⟩
    · have hlength : s.client.peer.states.length = s.registrations.length := by
        rw [h.wellFormed.length, List.length_map]
      rw [hcall, Peer.registered, hlength, ClientEvent.registrations,
        List.getElem?_concat_length]
    · rw [hcall]
      rfl

/-- The messages that a step of the client posts. -/
theorem Inv.outgoing (h : Inv lib s) {e : ClientEvent} {o : Outgoing}
    (ho : o ∈ e.outgoing s.client) :
    (∃ k reg, s.SentBy o k reg) ∨ Message.isRequest o.message = false := by
  cases e with
  | postSend i =>
      cases hcall : s.client.requests[i]? with
      | none => simp [ClientEvent.outgoing, hcall] at ho
      | some r =>
          simp only [ClientEvent.outgoing, hcall, List.mem_singleton] at ho
          obtain ⟨reg, hreg, hrequest⟩ := h.calls r (List.mem_of_getElem? hcall)
          subst ho
          exact Or.inl ⟨r.call.promise, reg, rfl, hreg, hrequest⟩
  | notify method data =>
      obtain rfl := List.mem_singleton.mp ho
      exact Or.inr (Message.isRequest_createNotification method data)
  | accept request data =>
      cases hcreate : Message.createSuccessResponse request (.string data) with
      | error error => simp [ClientEvent.outgoing, hcreate] at ho
      | ok response =>
          simp only [ClientEvent.outgoing, hcreate, List.mem_singleton] at ho
          obtain ⟨id, -, rfl⟩ := Message.exists_of_createSuccessResponse hcreate
          subst ho
          exact Or.inr (Message.isRequest_success id _)
  | reject request errorCode errorReason =>
      cases hcreate : Message.createErrorResponse request errorCode errorReason with
      | error error => simp [ClientEvent.outgoing, hcreate] at ho
      | ok response =>
          simp only [ClientEvent.outgoing, hcreate, List.mem_singleton] at ho
          obtain ⟨id, -, rfl⟩ := Message.exists_of_createErrorResponse hcreate
          subst ho
          exact Or.inr (Message.isRequest_failure id errorCode errorReason)
  | _ => simp [ClientEvent.outgoing] at ho

theorem Inv.client (h : Inv lib s) {e : ClientEvent} {c : Client}
    (hreceive : e.isReceive = false) (hstep : Client.step lib s.client e = some c) :
    Inv lib { s with
      client := c
      registrations := s.registrations ++ e.registrations
      sent := s.sent ++ e.outgoing s.client } := by
  have hsteps := Client.steps_of_step hstep
  have hext := (@Steps.client lib s e c hreceive hstep).extends
  constructor
  · simpa [map_id_registrations] using h.wellFormed.step hstep
  · exact hsteps.bufferClean hreceive h.buffer
  · exact h.fifo.traffic hsteps.traffic rfl
  · exact fun r hr => h.calls_step hstep hr
  · intro o ho
    have hold : (∃ k reg, s.SentBy o k reg) ∨ Message.isRequest o.message = false := by
      rcases List.mem_append.mp ho with hsent | hnew
      · exact h.sent o hsent
      · exact h.outgoing hnew
    exact hold.imp_left fun ⟨k, reg, hsent⟩ => ⟨k, reg, hsent.extend hext⟩
  · intro q hq
    obtain ⟨k, reg, hserved⟩ := h.served q hq
    exact ⟨k, reg, hserved.extend hext⟩
  · exact h.responses
  · intro k reply hk
    rcases h.result_cases hstep hk with haccounted | ⟨chunk, final, handled, _, _, rfl, _⟩
    · exact haccounted.extend hext
    · exact Bool.noConfusion hreceive

theorem Inv.deliver (h : Inv lib s) {r : ServerResponse} {c : Client} (hr : r ∈ s.responses)
    (hstep : Client.step lib s.client (.receive r.text true (.ok ())) = some c) :
    Inv lib { s with client := c } := by
  have hsteps := Client.steps_of_step hstep
  have hext : Extends s { s with client := c } :=
    ⟨List.prefix_refl _, List.prefix_refl _, List.prefix_refl _, List.prefix_refl _⟩
  obtain ⟨q, j, reg, message, hq, hserved, hparse, hresponse, hid, hreply⟩ :=
    h.parse_response hr
  obtain ⟨hidle, hreceived⟩ := Client.receive_of_step hstep
  have hbuffer : s.client.peer.transport.receivedMsg = "" :=
    h.buffer.receivedMsg_of_idle hidle
  constructor
  · simpa [ClientEvent.newIds] using h.wellFormed.step hstep
  · rw [hreceived]
    apply Client.bufferClean_receive hparse hresponse h.buffer ?_ hidle
    intro id k hk
    rcases h.wellFormed.pending id k hk with hempty | hfound
    · exact hempty
    · simp [hidle, Handler.found] at hfound
  · exact h.fifo.traffic hsteps.traffic (by simp [ClientEvent.outgoing])
  · intro r hr
    simpa [ClientEvent.registrations] using h.calls_step hstep hr
  · exact h.sent
  · exact h.served
  · exact h.responses
  · intro k reply hk
    rcases h.result_cases hstep hk with haccounted |
      ⟨chunk, final, handled, message', id, he, hparse', hid', hlookup, rfl⟩
    · exact haccounted.extend hext
    · obtain ⟨rfl, -, -⟩ := ClientEvent.receive.inj he
      rw [hbuffer, String.empty_append, hparse] at hparse'
      obtain rfl := Except.ok.inj hparse'
      obtain rfl := Json.integer.inj (hid.symm.trans hid')
      rw [hreply]
      refine .response r hr ?_
      have hentry := h.wellFormed.entry reg.id k hlookup
      rw [List.getElem?_map, Option.map_eq_some_iff] at hentry
      obtain ⟨reg', hreg', heq⟩ := hentry
      exact ⟨q, j, reg, reg', hq, hserved.extend hext, hreg', heq⟩

theorem Inv.step {t : Rpc} {e : RpcEvent} (h : Inv lib s) (hstep : step lib s e = some t) :
    Inv lib t := by
  have hsteps := steps_of_step hstep
  have hext := hsteps.extends
  cases hsteps with
  | client e c hreceive hclient => exact h.client hreceive hclient
  | serve position text message htext hparse hrequest =>
      refine { h with served := ?_, responses := ?_, results := ?_ }
      · intro q hq
        rcases List.mem_append.mp hq with hold | hnew
        · obtain ⟨k, reg, hserved⟩ := h.served q hold
          exact ⟨k, reg, hserved.extend hext⟩
        · obtain rfl := List.mem_singleton.mp hnew
          exact h.exists_servedFor htext hparse hrequest
      · intro r hr
        obtain ⟨q, response, hq, hcreate, hdump⟩ := h.responses r hr
        exact ⟨q, response, getElem?_of_prefix hext.served hq, hcreate, hdump⟩
      · exact fun k reply hk => (h.results k reply hk).extend hext
  | serveOther => exact h
  | respond served answer q response text hserved hcreate hdump =>
      refine { h with responses := ?_, results := ?_ }
      · intro r hr
        rcases List.mem_append.mp hr with hold | hnew
        · exact h.responses r hold
        · obtain rfl := List.mem_singleton.mp hnew
          exact ⟨q, response, hserved, hcreate, hdump⟩
      · exact fun k reply hk => (h.results k reply hk).extend hext
  | deliver response r c hresponse hclient =>
      exact h.deliver (List.mem_of_getElem? hresponse) hclient

/-! ## Whole runs -/

/-- A value in a future was sent by the server for a request with the future's id,
and so was a response error; a response that finds no entry comes after the
completion of a request with its id. -/
structure Safe (s : Rpc) : Prop where
  value : ∀ (k : ℕ) v, s.client.peer.states[k]? = some (.ready (.ok v)) →
    ∃ reg r q reg', s.registrations[k]? = some reg ∧ r ∈ s.responses ∧
      r.answer = .success v ∧ s.served[r.served]? = some q ∧
      q.request.field "id" = .integer reg.id ∧
      reg' ∈ s.registrations ∧ reg'.id = reg.id ∧
      q.request.field "method" = .string reg'.method ∧ q.request.field "data" = reg'.data
  responseError : ∀ k : ℕ,
    s.client.peer.states[k]? = some (.ready (.error (.runtimeError "response error"))) →
    ∃ reg r q errorCode errorReason, s.registrations[k]? = some reg ∧ r ∈ s.responses ∧
      r.answer = .failure errorCode errorReason ∧ s.served[r.served]? = some q ∧
      q.request.field "id" = .integer reg.id
  noEntry : ∀ r ∈ s.responses, ∀ q id, s.served[r.served]? = some q →
    q.request.field "id" = .integer id → s.client.peer.promises.lookup id = none →
    ∃ (k : ℕ) (reg : Registration), s.registrations[k]? = some reg ∧ reg.id = id ∧
      Completed s.client.peer.states k

theorem ServedFor.fields {q : ServedRequest} {k : ℕ} {reg : Registration}
    (h : s.ServedFor q k reg) :
    reg ∈ s.registrations ∧ q.request.field "id" = .integer reg.id ∧
      q.request.field "method" = .string reg.method ∧ q.request.field "data" = reg.data := by
  obtain ⟨o, -, ⟨-, hreg, -⟩, hrequest⟩ := h
  refine ⟨List.mem_of_getElem? hreg, ?_, ?_, ?_⟩
  all_goals
    simp +decide [hrequest, Message.Decoded.toJson]

theorem Inv.safe (h : Inv lib s) : Safe s where
  value := by
    intro k v hk
    generalize hreply : (Except.ok v : Reply) = reply at hk
    cases h.results k reply hk with
    | broken => simp at hreply
    | timeout => simp at hreply
    | response r hr hresponds =>
        obtain ⟨q, j, reg, reg', hq, hserved, hreg', hid⟩ := hresponds
        obtain ⟨hmem, hfieldId, hmethod, hdata⟩ := hserved.fields
        have hanswer : r.answer = .success v := by
          cases hcase : r.answer with
          | success data =>
              rw [hcase] at hreply
              rw [Except.ok.inj hreply]
          | failure errorCode errorReason =>
              rw [hcase] at hreply
              simp [Answer.reply] at hreply
        exact ⟨reg', r, q, reg, hreg', hr, hanswer, hq, hid ▸ hfieldId, hmem, hid.symm, hmethod,
          hdata⟩
  responseError := by
    intro k hk
    generalize hreply : (.error (.runtimeError "response error") : Reply) = reply at hk
    cases h.results k reply hk with
    | broken => simp at hreply
    | timeout => simp at hreply
    | response r hr hresponds =>
        obtain ⟨q, j, reg, reg', hq, hserved, hreg', hid⟩ := hresponds
        obtain ⟨-, hfieldId, -, -⟩ := hserved.fields
        cases hanswer : r.answer with
        | success data =>
            rw [hanswer] at hreply
            simp [Answer.reply] at hreply
        | failure errorCode errorReason =>
            exact ⟨reg', r, q, errorCode, errorReason, hreg', hr, hanswer, hq,
              hid ▸ hfieldId⟩
  noEntry := by
    intro r hr q id hq hfield hnone
    obtain ⟨k, reg, hserved⟩ := h.served q (List.mem_of_getElem? hq)
    obtain ⟨hmem, hfieldId, -, -⟩ := hserved.fields
    obtain rfl := Json.integer.inj (hfieldId.symm.trans hfield)
    obtain ⟨j, hj, hcompleted⟩ :=
      h.wellFormed.served reg.id (List.mem_map_of_mem hmem) hnone
    rw [List.getElem?_map, Option.map_eq_some_iff] at hj
    obtain ⟨reg', hreg', hid⟩ := hj
    exact ⟨j, reg', hreg', hid, hcompleted⟩

theorem inv_of_run {events : List RpcEvent} (hrun : Run (step lib) AnyStep {} events s) :
    Inv lib s :=
  hrun.invariant (inv_init lib) fun h _ hstep => h.step hstep

/-- Whatever the client's threads, the server and the network do, results come
from the server's responses to requests with their ids. -/
theorem rpc_safe {events : List RpcEvent} (hrun : Run (step lib) AnyStep {} events s) :
    Safe s :=
  (inv_of_run hrun).safe

/-- The library of one exchange: the request and its response. -/
def exchangeLibrary : JsonLibrary :=
  JsonLibrary.ofTable
    [(Message.createRequest 1 "a" .null,
        "\x7b\"data\":null,\"id\":1,\"method\":\"a\",\"request\":true\x7d"),
      ((Message.Decoded.success 1 (.string "b")).toJson,
        "\x7b\"data\":\"b\",\"id\":1,\"ok\":true,\"response\":true\x7d")]
    (by decide)

/-- One request is written, served, answered and completed. -/
def exchangeRun : List RpcEvent :=
  [.client (.service (.start true)), .client (.service (.connect .handle)),
    .client (.service .established), .client (.register (.ofNat 1) "a" .null),
    .client (.postTimeout 0), .client (.postSend 0), .client (.service (.serviceReturn 0)),
    .client (.service .runTask), .client (.service .runTask), .client (.service .loop),
    .client (.service .writeable), .serve 0, .respond 0 (.success (.string "b")), .deliver 0,
    .client .postCancel, .client .erase]

theorem rpc_safe_exchange :
    ∃ s, Run (step exchangeLibrary) AnyStep {} exchangeRun s ∧ Safe s ∧
      s.client.peer.states = [.ready (.ok (.string "b"))] := by
  have hrun : exchangeRun.foldlM (step exchangeLibrary) ({} : Rpc) = some _ := rfl
  exact ⟨_, run_of_foldlM hrun, rpc_safe (run_of_foldlM hrun), rfl⟩

end Rpc

end Protoo
