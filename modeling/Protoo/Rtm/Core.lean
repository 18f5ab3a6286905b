import Protoo.Peer.Core

/-!
# The RTM client: state and functions

`Rtm` embeds the class `RTM` between the end of `connect` and the end of
`~RTM`.  Its peer is seen from outside: `calls` lists what `m_pPeer` was asked to
do, and the result of a request is an argument of the function that waits for
it.  A future is a position in `states`, the store of the states shared with the
promises.

The closures in `tasks` are data: `RtmTask` has one constructor for each place
that posts one.  `performed` records the operations that were carried out, and
whether they succeeded; no function of the program reads it.
-/

namespace Protoo

open Protoo.Support

/-- The fields of `RTMConfig` that `connect` and the operations read. -/
structure RtmConfig where
  serverUrl : Option String := none
  token : Option String := none

structure LoginResponse where
  timeToken : ℤ
  deriving DecidableEq

structure LogoutResponse where
  timeToken : ℤ
  deriving DecidableEq

structure SubscribeResponse where
  timeToken : ℤ
  channelName : String
  deriving DecidableEq

structure UnsubscribeResponse where
  timeToken : ℤ
  channelName : String
  deriving DecidableEq

/-- The value in the future of an operation. -/
inductive OperationResponse where
  | login (response : LoginResponse)
  | logout (response : LogoutResponse)
  | subscribe (response : SubscribeResponse)
  | unsubscribe (response : UnsubscribeResponse)
  deriving DecidableEq

abbrev Outcome := Except Exception OperationResponse

/-- A call of one of the four operations with its argument. -/
inductive Operation where
  | login
  | logout
  | subscribe (channelName : String)
  | unsubscribe (channelName : String)
  deriving DecidableEq

/-- What an operation finds when its request is done: the result of the future,
and the milliseconds of the system clock. -/
structure RequestResult where
  reply : Reply
  timestamp : ℤ

inductive PeerCall where
  | request (method : String) (data : Json)
  | notify (method : String) (data : Json)
  deriving DecidableEq

inductive QRtmPresenceEventType where
  | remoteJoinChannel
  | remoteLeaveChannel
  deriving DecidableEq

structure QRtmPresenceEvent where
  type : QRtmPresenceEventType
  channelName : String
  publisher : String
  deriving DecidableEq

/-- The calls of the application's `RTMListener`. -/
inductive RtmListenerCall where
  | onReceiveMessage (channelId peerId msg : String)
  | onReceivePresence (channelId : String) (event : QRtmPresenceEvent)
  | onConnected
  | onDisconnected
  | onReconnected
  | onClosed
  deriving DecidableEq

/-- The closures given to `RTM::InvokeTask`.  `application` is one that the
application itself passes. -/
inductive RtmTask where
  | operation (operation : Operation) (promise : ℕ)
  | publish (channelName message : String)
  | listener (call : RtmListenerCall)
  | reconnected
  | application

/-- The thread that calls. -/
inductive Caller where
  | worker
  | other (thread : ℕ)
  deriving DecidableEq

/-- Where the worker thread is: before the test of `m_bRunning`, before the test
of `tasks.empty()`, or in code of the application called by a task.  An exception
that leaves a task leaves the thread's function, and the program is terminated. -/
inductive WorkerPhase where
  | outerLoop
  | innerLoop
  | callback
  | exited
  | terminated
  deriving DecidableEq

def WorkerPhase.isRunning : WorkerPhase → Bool
  | .outerLoop => true
  | .innerLoop => true
  | .callback => true
  | .exited => false
  | .terminated => false

structure Rtm where
  appId : String
  userId : String
  config : RtmConfig := {}
  channelName : String := ""
  running : Bool := true
  tasks : List RtmTask := []
  phase : WorkerPhase := .outerLoop
  states : Store Outcome := []
  calls : List PeerCall := []
  listenerCalls : List RtmListenerCall := []
  performed : List (Operation × Bool) := []

namespace Rtm

/-! ## Operations on the worker thread -/

/-- What the four operations have in common: the request, and one error for every
exception of the request and of the code after it. -/
def internal {α : Type} (operation : Operation) (method : String) (requestData : Json)
    (result : RequestResult) (onReply : Json → Rtm → Except Exception (α × Rtm)) (rtm : Rtm) :
    Except Exception α × Rtm :=
  let rtm := { rtm with calls := rtm.calls ++ [.request method requestData] }
  match result.reply >>= fun retJson => onReply retJson rtm with
  | .ok (response, rtm) =>
      (.ok response, { rtm with performed := rtm.performed ++ [(operation, true)] })
  | .error _ =>
      (.error (.runtimeError "request timeout"),
        { rtm with performed := rtm.performed ++ [(operation, false)] })

/-- `requestData` of `loginInternal`. -/
def loginData (rtm : Rtm) : Json :=
  .ofInitializers
    [("displayName", .string "pc"),
      ("device", .ofInitializers [("name", .string "pc"), ("version", .string "1.0.0")]),
      ("accessToken", .string (rtm.config.token.getD "")),
      ("appId", .string rtm.appId)]

/-- `requestData` of `subscribeInternal` and `unsubscribeInternal`. -/
def channelData (channelName : String) : Json :=
  .ofInitializers [("channelId", .string channelName)]

/-- `loginInternal`: the result in the future it returns.  Writing the response to
the log dumps it. -/
def loginInternal (lib : JsonLibrary) (result : RequestResult) (rtm : Rtm) :
    Except Exception LoginResponse × Rtm :=
  internal .login "login" rtm.loginData result
    (fun retJson rtm => do
      let _ ← lib.dump retJson
      return ({ timeToken := 0 }, rtm)) rtm

/-- `logoutInternal`. -/
def logoutInternal (result : RequestResult) (rtm : Rtm) :
    Except Exception LogoutResponse × Rtm :=
  internal .logout "logout" (.ofInitializers [("peerId", .string rtm.userId)]) result
    (fun _ rtm => return ({ timeToken := result.timestamp }, rtm)) rtm

/-- `subscribeInternal`. -/
def subscribeInternal (channelName : String) (result : RequestResult) (rtm : Rtm) :
    Except Exception SubscribeResponse × Rtm :=
  internal (.subscribe channelName) "joinChannel" (channelData channelName) result
    (fun _ rtm =>
      return ({ timeToken := result.timestamp, channelName }, { rtm with channelName })) rtm

/-- `unsubscribeInternal`. -/
def unsubscribeInternal (channelName : String) (result : RequestResult) (rtm : Rtm) :
    Except Exception UnsubscribeResponse × Rtm :=
  internal (.unsubscribe channelName) "leaveChannel" (channelData channelName) result
    (fun _ rtm => return ({ timeToken := result.timestamp, channelName }, rtm)) rtm

/-- The `...Internal` function of an operation. -/
def operationInternal (lib : JsonLibrary) (operation : Operation) (result : RequestResult)
    (rtm : Rtm) : Outcome × Rtm :=
  match operation with
  | .login => (rtm.loginInternal lib result).map (Except.map .login) id
  | .logout => (rtm.logoutInternal result).map (Except.map .logout) id
  | .subscribe channelName =>
      (rtm.subscribeInternal channelName result).map (Except.map .subscribe) id
  | .unsubscribe channelName =>
      (rtm.unsubscribeInternal channelName result).map (Except.map .unsubscribe) id

/-- `requestData` of `publishInternal`. -/
def publishData (channelName message : String) : Json :=
  .ofInitializers [("channelId", .string channelName), ("msg", .string message)]

/-- `publishInternal`. -/
def publishInternal (channelName message : String) (rtm : Rtm) : Rtm :=
  { rtm with
    calls := rtm.calls ++ [.notify "channelMsgText" (publishData channelName message)] }

/-! ## The public functions -/

/-- `InvokeTask`. -/
def invokeTask (task : RtmTask) (rtm : Rtm) : Rtm :=
  { rtm with tasks := rtm.tasks ++ [task] }

/-- `IsRunningOnWorkerThread`. -/
def isRunningOnWorkerThread : Caller → Bool
  | .worker => true
  | .other _ => false

/-- An operation and the future it returns: on the worker thread the one of the
`...Internal` function, else that of the promise which the posted task holds. -/
def bridge (lib : JsonLibrary) (operation : Operation) (caller : Caller)
    (result : RequestResult) (rtm : Rtm) : ℕ × Rtm :=
  if isRunningOnWorkerThread caller then
    let (outcome, rtm) := rtm.operationInternal lib operation result
    (rtm.states.length, { rtm with states := rtm.states ++ [.ready outcome] })
  else
    let promise := rtm.states.length
    (promise, ({ rtm with states := rtm.states.make }).invokeTask (.operation operation promise))

/-- `RTM::login`. -/
def login (lib : JsonLibrary) : Caller → RequestResult → Rtm → ℕ × Rtm :=
  bridge lib .login

/-- `RTM::logout`. -/
def logout (lib : JsonLibrary) : Caller → RequestResult → Rtm → ℕ × Rtm :=
  bridge lib .logout

/-- `RTM::subscribe`. -/
def subscribe (lib : JsonLibrary) (channelName : String) :
    Caller → RequestResult → Rtm → ℕ × Rtm :=
  bridge lib (.subscribe channelName)

/-- `RTM::unsubscribe`. -/
def unsubscribe (lib : JsonLibrary) (channelName : String) :
    Caller → RequestResult → Rtm → ℕ × Rtm :=
  bridge lib (.unsubscribe channelName)

/-- The public function of an operation. -/
def call (lib : JsonLibrary) : Operation → Caller → RequestResult → Rtm → ℕ × Rtm
  | .login => login lib
  | .logout => logout lib
  | .subscribe channelName => subscribe lib channelName
  | .unsubscribe channelName => unsubscribe lib channelName

/-- `RTM::publish`.  On the worker thread the call is carried out at once, and a
task is posted all the same. -/
def publish (caller : Caller) (channelName message : String) (rtm : Rtm) : Rtm :=
  let rtm :=
    if isRunningOnWorkerThread caller then rtm.publishInternal channelName message else rtm
  rtm.invokeTask (.publish channelName message)

/-! ## Tasks -/

/-- An exception has left the worker's function. -/
def terminate (rtm : Rtm) : Rtm := { rtm with phase := .terminated }

/-- The worker enters a function of the listener. -/
def callListener (call : RtmListenerCall) (rtm : Rtm) : Rtm :=
  { rtm with listenerCalls := rtm.listenerCalls ++ [call], phase := .callback }

/-- The task an operation posts.  With the promise already satisfied
`set_exception_at_thread_exit` throws again. -/
def runOperation (lib : JsonLibrary) (operation : Operation) (promise : ℕ)
    (result : RequestResult) (rtm : Rtm) : Rtm :=
  let (outcome, rtm) := rtm.operationInternal lib operation result
  match Store.satisfyAtThreadExit promise outcome rtm.states with
  | some states => { rtm with states }
  | none => rtm.terminate

/-- The task `onPeerReConnected` posts; its calls of `login` and `subscribe` are
made on the worker thread, and `get` throws what the future holds. -/
def runReconnected (lib : JsonLibrary) (first second : RequestResult) (rtm : Rtm) : Rtm :=
  match rtm.loginInternal lib first with
  | (.error _, rtm) => rtm.terminate
  | (.ok _, rtm) =>
      match rtm.subscribeInternal rtm.channelName second with
      | (.error _, rtm) => rtm.terminate
      | (.ok _, rtm) => rtm.callListener .onReconnected

/-- One task.  `first` and `second` are the results of the requests it makes. -/
def runTask (lib : JsonLibrary) (first second : RequestResult) (rtm : Rtm) : RtmTask → Rtm
  | .operation operation promise => rtm.runOperation lib operation promise first
  | .publish channelName message => rtm.publishInternal channelName message
  | .listener call => rtm.callListener call
  | .reconnected => rtm.runReconnected lib first second
  | .application => { rtm with phase := .callback }

end Rtm

end Protoo
