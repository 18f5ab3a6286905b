import Protoo.Transport.Core
import Protoo.Support.SharedState
import Mathlib.Data.Finmap

/-!
# The peer: state and functions

`Peer` embeds `protoo::Peer`: the map `m_promises` from request ids to promises
and the transport it owns.  A `std::shared_ptr<std::promise<json>>` is a position
in `states`, the store of the states shared with the futures.

`request` and `handleResponse` are composed of the steps at which another thread
may interleave: entering the promise in the map, posting the timeout, posting the
message; completing the promise, posting the cancel, erasing the entry.  The
argument `held` of some of these lists the promises that a call of `request` in
progress still holds; a promise that loses its entry is destroyed only if it is
not held.
-/

namespace Protoo

open Protoo.Support

/-- The future of a request yields a JSON value or an exception. -/
abbrev Reply := Except Exception Json

/-- The closure given to `scheduleTask` captures the id whose request it fails,
so `ℤ` is the type of timer closures here. -/
structure Peer where
  promises : Finmap (fun _ : ℤ => ℕ) := ∅
  states : Store Reply := []
  transport : WebSocketTransport ℤ := {}

/-- The local variables of a call of `request` once its promise is entered. -/
structure RequestCall where
  id : ℤ
  promise : ℕ
  request : Json
  timeoutMs : ℤ

/-- `int timeout_ms = 15000 * (15 + (0.1 * m_promises.size()))`, the `double`
arithmetic taken as exact. -/
def timeoutMs (size : ℕ) : ℤ :=
  Json.truncateToInt (15000 * (15 + 1 / 10 * (size : ℚ)))

/-- What `onMessage` calls, with the message as its reads have left it. -/
inductive Dispatch where
  | request (message : Json)
  | response (message : Json)
  | notification (message : Json)
  | invalid

namespace Peer

/-! ## Requests -/

/-- The entry that held `promise` is gone: without another holder the promise is
destroyed. -/
def release (held : List ℕ) (promise : Option ℕ) (p : Peer) : Peer :=
  match promise with
  | none => p
  | some k =>
      if k ∈ held then p
      else { p with states := Store.abandon k (.error .brokenPromise) p.states }

/-- `request` up to the insertion into `m_promises`. -/
def register (held : List ℕ) (draw : Draw) (method : String) (data : Json) (p : Peer) :
    Except Exception (RequestCall × Peer) := do
  let request := Message.createRequest draw.number method data
  let (idValue, request) ← request.subscript "id"
  let id ← idValue.getInt
  let promise := p.states.length
  let replaced := p.promises.lookup id
  let p := { p with states := Store.make p.states, promises := p.promises.insert id promise }
  let p := p.release held replaced
  return ({ id, promise, request, timeoutMs := Protoo.timeoutMs p.promises.keys.card }, p)

/-- The call of `scheduleTask` in `request`. -/
def postTimeout (call : RequestCall) (p : Peer) : Peer :=
  { p with transport := p.transport.scheduleTask call.timeoutMs call.id }

/-- The call of `send` in `request`. -/
def postSend (call : RequestCall) (p : Peer) : Peer :=
  { p with transport := p.transport.send call.request }

/-- `request`, run without interruption: the promise whose future it returns. -/
def request (draw : Draw) (method : String) (data : Json) (p : Peer) :
    Except Exception (ℕ × Peer) := do
  let (call, p) ← p.register [] draw method data
  return (call.promise, (p.postTimeout call).postSend call)

/-- `notify`. -/
def notify (method : String) (data : Json) (p : Peer) : Peer :=
  { p with transport := p.transport.send (Message.createNotification method data) }

/-! ## Received messages -/

/-- `onMessage`. -/
def onMessage (message : Json) : Except Exception Dispatch := do
  let (request, message) ← message.subscript "request"
  if request.isBoolean then
    return .request message
  else
    let (response, message) ← message.subscript "response"
    if response.isBoolean then
      return .response message
    else
      let (notification, message) ← message.subscript "notification"
      if notification.isBoolean then
        return .notification message
      else
        return .invalid

/-- `handleResponse` up to the completion of the promise: the id of the entry it
found. -/
def completeResponse (response : Json) (p : Peer) : Except Exception (Option ℤ × Peer) := do
  let (idValue, response) ← response.subscript "id"
  let id ← idValue.getInt
  let it := p.promises.lookup id
  let isOk ←
    if response.contains "ok" then do
      let (ok, _) ← response.subscript "ok"
      ok.getBool
    else
      pure false
  match it with
  | none => return (none, p)
  | some promise =>
      let result : Reply ←
        if isOk then do
          let (data, _) ← response.subscript "data"
          pure (.ok data)
        else
          pure (.error (.runtimeError "response error"))
      match Store.satisfy promise result p.states with
      | some states => return (some id, { p with states })
      | none => throw .promiseAlreadySatisfied

/-- The call of `cancelScheduledTask` in `handleResponse`. -/
def postCancel (p : Peer) : Peer :=
  { p with transport := p.transport.cancelScheduledTask }

/-- `m_promises.erase(it)`. -/
def eraseEntry (held : List ℕ) (id : ℤ) (p : Peer) : Peer :=
  ({ p with promises := p.promises.erase id }).release held (p.promises.lookup id)

/-- `handleResponse`, run without interruption. -/
def handleResponse (response : Json) (p : Peer) : Except Exception Peer := do
  match ← p.completeResponse response with
  | (none, p) => return p
  | (some id, p) => return p.postCancel.eraseEntry [] id

/-- The closure `request` gives to `scheduleTask`, up to the completion of the promise: the
id of the entry it found. -/
def completeTimeout (id : ℤ) (p : Peer) : Except Exception (Option ℤ × Peer) :=
  match p.promises.lookup id with
  | none => .ok (none, p)
  | some promise =>
      match Store.satisfy promise (.error (.runtimeError "request timeout")) p.states with
      | some states => .ok (some id, { p with states })
      | none => .error .promiseAlreadySatisfied

/-- The closure, run without interruption. -/
def onTimeout (id : ℤ) (p : Peer) : Except Exception Peer := do
  match ← p.completeTimeout id with
  | (none, p) => return p
  | (some id, p) => return p.eraseEntry [] id

end Peer

end Protoo
