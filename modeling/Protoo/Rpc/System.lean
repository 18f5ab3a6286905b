import Protoo.Peer.Invariant

/-!
# A client, a server and the network between them

`Rpc` composes a client with a server that decodes the texts it receives and
answers decoded requests.  The network loses, duplicates and reorders: a text
that was written once may be served at any later time and any number of times,
or never, and so may a response be delivered; events therefore name texts by
their positions in lists that only grow.

Three of the lists are records that no step reads back into a decision of the
program: the calls of `request` in the order of their registrations, which is
also the order of their promises; the messages posted with `send`, with the call
that posted them; and the requests the server has decoded.
-/

namespace Protoo

open Protoo.Support

/-- A call of `request` with the id it was given. -/
structure Registration where
  draw : Draw
  method : String
  data : Json

def Registration.id (r : Registration) : ℤ := r.draw.number

/-- The message that the call posts; reading its id has touched it. -/
def Registration.message (r : Registration) : Json :=
  (Message.createRequest r.id r.method r.data).touch "id"

/-- A message posted with `send`, and the promise of the call of `request` that
posted it. -/
structure Outgoing where
  message : Json
  promise : Option ℕ

/-- A request the server has decoded from the text written at `position`. -/
structure ServedRequest where
  position : ℕ
  request : Json

inductive Answer where
  | success (data : Json)
  | failure (errorCode : ℤ) (errorReason : String)

/-- The response to the request served at position `served`. -/
structure ServerResponse where
  served : ℕ
  answer : Answer
  text : String

/-- The server's call of the response constructor. -/
def Answer.create (request : Json) : Answer → Except Exception Json
  | .success data => Message.createSuccessResponse request data
  | .failure errorCode errorReason => Message.createErrorResponse request errorCode errorReason

/-- What the answer makes of the client's future. -/
def Answer.reply : Answer → Reply
  | .success data => .ok data
  | .failure _ _ => .error (.runtimeError "response error")

structure Rpc where
  client : Client := {}
  registrations : List Registration := []
  sent : List Outgoing := []
  served : List ServedRequest := []
  responses : List ServerResponse := []

inductive RpcEvent where
  | client (e : ClientEvent)
  | serve (position : ℕ)
  | respond (served : ℕ) (answer : Answer)
  | deliver (response : ℕ)

namespace ClientEvent

def isReceive : ClientEvent → Bool
  | .receive _ _ _ => true
  | _ => false

def registrations : ClientEvent → List Registration
  | .register draw method data => [{ draw, method, data }]
  | _ => []

/-- The messages that an event posts. -/
def outgoing (c : Client) : ClientEvent → List Outgoing
  | .postSend i =>
      match c.requests[i]? with
      | some r => [{ message := r.call.request, promise := some r.call.promise }]
      | none => []
  | .notify method data =>
      [{ message := Message.createNotification method data, promise := none }]
  | .accept request data =>
      match Message.createSuccessResponse request (.string data) with
      | .ok response => [{ message := response, promise := none }]
      | .error _ => []
  | .reject request errorCode errorReason =>
      match Message.createErrorResponse request errorCode errorReason with
      | .ok response => [{ message := response, promise := none }]
      | .error _ => []
  | _ => []

end ClientEvent

namespace Rpc

/-- The server receives a text. -/
def serve (lib : JsonLibrary) (position : ℕ) (s : Rpc) : Option Rpc :=
  match s.client.written[position]? with
  | none => none
  | some text =>
      match Message.parse lib text with
      | .error _ => none
      | .ok message =>
          if Message.isRequest message then
            some { s with served := s.served ++ [{ position, request := message }] }
          else
            some s

/-- The server answers a request it has decoded. -/
def respond (lib : JsonLibrary) (served : ℕ) (answer : Answer) (s : Rpc) : Option Rpc :=
  match s.served[served]? with
  | none => none
  | some r =>
      match answer.create r.request >>= lib.dump with
      | .error _ => none
      | .ok text => some { s with responses := s.responses ++ [{ served, answer, text }] }

/-- One event.  The client receives nothing but responses of the server, each as
one final chunk. -/
def step (lib : JsonLibrary) (s : Rpc) : RpcEvent → Option Rpc
  | .client e =>
      if e.isReceive then none
      else (Client.step lib s.client e).map fun client => { s with
        client
        registrations := s.registrations ++ e.registrations
        sent := s.sent ++ e.outgoing s.client }
  | .serve position => s.serve lib position
  | .respond served answer => s.respond lib served answer
  | .deliver response =>
      match s.responses[response]? with
      | none => none
      | some r =>
          (Client.step lib s.client (.receive r.text true (.ok ()))).map fun client =>
            { s with client }

/-! ## What a step can do -/

inductive Steps (lib : JsonLibrary) (s : Rpc) : RpcEvent → Rpc → Prop where
  | client (e : ClientEvent) (c : Client) (hreceive : e.isReceive = false)
      (hstep : Client.step lib s.client e = some c) :
      Steps lib s (.client e)
        { s with
          client := c
          registrations := s.registrations ++ e.registrations
          sent := s.sent ++ e.outgoing s.client }
  | serve (position : ℕ) (text : String) (message : Json)
      (htext : s.client.written[position]? = some text)
      (hparse : Message.parse lib text = .ok message)
      (hrequest : Message.isRequest message = true) :
      Steps lib s (.serve position)
        { s with served := s.served ++ [{ position, request := message }] }
  | serveOther (position : ℕ) : Steps lib s (.serve position) s
  | respond (served : ℕ) (answer : Answer) (r : ServedRequest) (response : Json) (text : String)
      (hserved : s.served[served]? = some r) (hcreate : answer.create r.request = .ok response)
      (hdump : lib.dump response = .ok text) :
      Steps lib s (.respond served answer)
        { s with responses := s.responses ++ [{ served, answer, text }] }
  | deliver (response : ℕ) (r : ServerResponse) (c : Client)
      (hresponse : s.responses[response]? = some r)
      (hstep : Client.step lib s.client (.receive r.text true (.ok ())) = some c) :
      Steps lib s (.deliver response) { s with client := c }

/-- The inversion lemma of `step`. -/
theorem steps_of_step {lib : JsonLibrary} {s t : Rpc} {e : RpcEvent}
    (h : step lib s e = some t) : Steps lib s e t := by
  cases e with
  | client e =>
      simp only [step, Option.ite_none_left_eq_some, Option.map_eq_some_iff] at h
      obtain ⟨hreceive, c, hstep, rfl⟩ := h
      exact .client e c (Bool.eq_false_of_not_eq_true hreceive) hstep
  | serve position =>
      simp only [step, serve] at h
      split at h
      next => simp at h
      next text htext =>
        split at h
        next => simp at h
        next message hparse =>
          split at h
          next hrequest =>
            obtain rfl := Option.some.inj h
            exact .serve position text message htext hparse hrequest
          next =>
            obtain rfl := Option.some.inj h
            exact .serveOther position
  | respond served answer =>
      simp only [step, respond] at h
      split at h
      next => simp at h
      next r hserved =>
        split at h
        next => simp at h
        next text htext =>
          obtain ⟨response, hcreate, hdump⟩ := exists_of_bind_eq_ok htext
          obtain rfl := Option.some.inj h
          exact .respond served answer r response text hserved hcreate hdump
  | deliver response =>
      simp only [step] at h
      split at h
      next => simp at h
      next r hresponse =>
        obtain ⟨c, hstep, rfl⟩ := Option.map_eq_some_iff.mp h
        exact .deliver response r c hresponse hstep

end Rpc

end Protoo
