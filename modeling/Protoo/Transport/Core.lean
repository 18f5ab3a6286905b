import Protoo.Message

/-!
# The transport: state and functions

`WebSocketTransport` embeds the members of the C++ class that decide its
behaviour, each under the source's name without the prefix `m_`; `hasContext` is
`m_context != nullptr`.  `lws` is what the library keeps behind that pointer: the
connection, and the one-shot request made by `lws_callback_on_writable`.

The closures given to `InvokeTask` are data: `Task` has one constructor for each
place that posts one.  `τ` is the type of the closures given to `scheduleTask`.
The wake-up `lws_cancel_service` has no effect on this state.
-/

namespace Protoo

/-- A `struct lws *`; every connection attempt gets a new one. -/
abbrev Wsi := ℕ

/-- The connection the library is working on. -/
inductive Connection where
  | none
  | connecting (wsi : Wsi)
  | established (wsi : Wsi)
  deriving Repr, DecidableEq

structure LwsContext where
  connection : Connection := .none
  nextWsi : Wsi := 0
  writableRequested : Bool := false
  deriving Repr, DecidableEq

/-- `struct ConnectionInfo`; `sul` tells whether a connection attempt is
scheduled. -/
structure ConnectionInfo where
  sul : Bool := false
  wsi : Option Wsi := none
  retryCount : ℕ := 0
  deriving Repr, DecidableEq

/-- The closures posted by `send`, `scheduleTask` and `cancelScheduledTask`. -/
inductive Task (τ : Type) where
  | send (message : Json)
  | schedule (afterMs : ℤ) (task : τ)
  | cancel

/-- `sul` is the delay in microseconds of the armed timer. -/
structure WebSocketTransport (τ : Type) where
  hasContext : Bool := false
  lws : LwsContext := {}
  connectionInfo : ConnectionInfo := {}
  closed : Bool := false
  receivedMsg : String := ""
  noMsg : Bool := true
  msgQueue : List String := []
  task : Option τ := none
  sul : Option ℤ := none
  tasks : List (Task τ) := []
  serviceRet : ℤ := 0

/-- The calls the transport makes on its `TransportListener`. -/
inductive ListenerCall where
  | onConnected
  | onReConnected
  | onClosed
  | onFailed
  | onMessage (message : Json)
  deriving DecidableEq

/-- `LWS_US_PER_MS`. -/
def usPerMs : ℤ := 1000

namespace LwsContext

/-- `lws_callback_on_writable`.  A handle that is not the current connection's
has no effect here. -/
def callbackOnWritable (wsi : Wsi) (lws : LwsContext) : LwsContext :=
  if lws.connection = .connecting wsi ∨ lws.connection = .established wsi then
    { lws with writableRequested := true }
  else
    lws

@[simp] theorem connection_callbackOnWritable (wsi : Wsi) (lws : LwsContext) :
    (lws.callbackOnWritable wsi).connection = lws.connection := by
  unfold callbackOnWritable
  split <;> rfl

end LwsContext

namespace WebSocketTransport

variable {τ : Type}

/-! ## Posting -/

/-- `InvokeTask`. -/
def invokeTask (task : Task τ) (t : WebSocketTransport τ) : WebSocketTransport τ :=
  { t with tasks := t.tasks ++ [task] }

def send (message : Json) (t : WebSocketTransport τ) : WebSocketTransport τ :=
  t.invokeTask (.send message)

def scheduleTask (afterMs : ℤ) (task : τ) (t : WebSocketTransport τ) :
    WebSocketTransport τ :=
  t.invokeTask (.schedule afterMs task)

def cancelScheduledTask (t : WebSocketTransport τ) : WebSocketTransport τ :=
  t.invokeTask .cancel

/-! ## The posted closures -/

/-- The closure of `send`; an exception of `dump` leaves it. -/
def runSend (lib : JsonLibrary) (message : Json) (t : WebSocketTransport τ) :
    Except Exception (WebSocketTransport τ) := do
  let msg ← lib.dump message
  let t := { t with msgQueue := t.msgQueue ++ [msg], noMsg := false }
  match t.connectionInfo.wsi with
  | some wsi => return { t with lws := t.lws.callbackOnWritable wsi }
  | none => return t

/-- The closure of `scheduleTask`. -/
def runSchedule (afterMs : ℤ) (task : τ) (t : WebSocketTransport τ) :
    WebSocketTransport τ :=
  if t.hasContext then
    { t with task := some task, sul := some (afterMs * usPerMs) }
  else
    t

/-- The closure of `cancelScheduledTask`. -/
def runCancel (t : WebSocketTransport τ) : WebSocketTransport τ :=
  if t.hasContext then { t with sul := none } else t

def runTask (lib : JsonLibrary) (task : Task τ) (t : WebSocketTransport τ) :
    Except Exception (WebSocketTransport τ) :=
  match task with
  | .send message => t.runSend lib message
  | .schedule afterMs task => .ok (t.runSchedule afterMs task)
  | .cancel => .ok t.runCancel

/-- What a posted send does when the message can be dumped: the text is queued
and the connection last connected is asked for a writable callback. -/
theorem runSend_eq_ok {lib : JsonLibrary} {message : Json} {t t' : WebSocketTransport τ}
    (h : t.runSend lib message = .ok t') :
    ∃ msg, lib.dump message = .ok msg ∧
      t' = { t with
        msgQueue := t.msgQueue ++ [msg]
        noMsg := false
        lws := t.connectionInfo.wsi.elim t.lws t.lws.callbackOnWritable } := by
  unfold runSend at h
  cases hdump : lib.dump message with
  | error error => simp [hdump] at h
  | ok msg =>
      refine ⟨msg, rfl, ?_⟩
      cases hwsi : t.connectionInfo.wsi with
      | none =>
          simp only [hdump, except_ok_bind, hwsi, except_pure, Except.ok.injEq] at h
          exact h.symm
      | some wsi =>
          simp only [hdump, except_ok_bind, hwsi, except_pure, Except.ok.injEq] at h
          exact h.symm

/-- What a posted closure does: a send queues its text, and the two others touch
nothing but the timer. -/
theorem runTask_eq_ok {lib : JsonLibrary} {task : Task τ} {t t' : WebSocketTransport τ}
    (h : t.runTask lib task = .ok t') :
    (∃ message msg, task = .send message ∧ lib.dump message = .ok msg ∧
      t' = { t with
        msgQueue := t.msgQueue ++ [msg]
        noMsg := false
        lws := t.connectionInfo.wsi.elim t.lws t.lws.callbackOnWritable }) ∨
    ((∀ message, task ≠ .send message) ∧ ∃ closure sul, t' = { t with task := closure, sul }) := by
  cases task with
  | send message =>
      obtain ⟨msg, hdump, heq⟩ := runSend_eq_ok h
      exact Or.inl ⟨message, msg, rfl, hdump, heq⟩
  | schedule afterMs closure =>
      refine Or.inr ⟨by simp, ?_⟩
      obtain rfl := Except.ok.inj h
      unfold runSchedule
      split
      · exact ⟨_, _, rfl⟩
      · exact ⟨t.task, t.sul, rfl⟩
  | cancel =>
      refine Or.inr ⟨by simp, ?_⟩
      obtain rfl := Except.ok.inj h
      unfold runCancel
      split
      · exact ⟨t.task, none, rfl⟩
      · exact ⟨t.task, t.sul, rfl⟩

theorem runSchedule_of_hasContext {t : WebSocketTransport τ} (h : t.hasContext = true)
    (afterMs : ℤ) (task : τ) :
    t.runSchedule afterMs task = { t with task := some task, sul := some (afterMs * usPerMs) } :=
  if_pos h

theorem runCancel_of_hasContext {t : WebSocketTransport τ} (h : t.hasContext = true) :
    t.runCancel = { t with sul := none } :=
  if_pos h

/-! ## The callbacks -/

/-- `LWS_CALLBACK_CLIENT_ESTABLISHED`: the listener call made. -/
def establishedCall (t : WebSocketTransport τ) : ListenerCall :=
  if 0 < t.connectionInfo.retryCount then .onReConnected else .onConnected

/-- `LWS_CALLBACK_CLIENT_RECEIVE` up to the dispatch: the text to dispatch, when
this chunk completes one. -/
def receive (chunk : String) (final : Bool) (t : WebSocketTransport τ) :
    WebSocketTransport τ × Option String :=
  if 0 < chunk.length then
    let t := { t with receivedMsg := t.receivedMsg ++ chunk }
    if final then (t, some t.receivedMsg) else (t, none)
  else
    (t, none)

/-- The end of `LWS_CALLBACK_CLIENT_RECEIVE`, after `onMessage` has returned. -/
def clearReceived (t : WebSocketTransport τ) : WebSocketTransport τ :=
  { t with receivedMsg := "" }

/-- `LWS_CALLBACK_CLIENT_WRITEABLE`: the text handed to `lws_write`, if any. -/
def writeable (t : WebSocketTransport τ) : WebSocketTransport τ × Option String :=
  match t.msgQueue with
  | msg :: rest => ({ t with msgQueue := rest }, some msg)
  | [] => ({ t with noMsg := true }, none)

/-- `lws_retry_sul_schedule` with the policy `LWS_RETRY_CONCEAL_ALWAYS`: the
counter goes up by one, the attempt is scheduled and the result is 0. -/
def retrySulSchedule (t : WebSocketTransport τ) : WebSocketTransport τ × ℤ :=
  ({ t with connectionInfo :=
      { t.connectionInfo with
        sul := true
        retryCount := min (t.connectionInfo.retryCount + 1) 65535 } }, 0)

/-- The label `do_retry` of the callback, and the retry branch of
`connectClient`. -/
def doRetry (t : WebSocketTransport τ) : WebSocketTransport τ :=
  let (t, ret) := t.retrySulSchedule
  if ret = 0 then t else { t with closed := true }

/-- `LWS_CALLBACK_WS_PEER_INITIATED_CLOSE`, and the first statement of the
destructor. -/
def setClosed (t : WebSocketTransport τ) : WebSocketTransport τ :=
  { t with closed := true }

/-- The condition of the service loop. -/
def keepsRunning (t : WebSocketTransport τ) : Bool :=
  !t.closed && decide (0 ≤ t.serviceRet)

end WebSocketTransport

end Protoo
