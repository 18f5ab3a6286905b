import Protoo.Rtm.Worker
import Protoo.Peer.Invariant

/-!
# The callbacks of the RTM client

`connect` installs seven callbacks on the peer.  They run on the service thread,
inside the callback of the library, and post tasks to the worker.  This module
embeds them and `Peer::onMessage` with them, to its end: the texts it writes to
the log, the handler it calls and the exceptions that leave it.

The decoder and `onMessage` decide on the kind of a message by the same cascade,
and they always agree.  What the decoder does not check are the fields that
`onServerNotification` reads as strings.
-/

namespace Protoo

open Protoo.Support

namespace Json

def isString : Json → Bool
  | .string _ => true
  | _ => false

theorem isString_iff {j : Json} : j.isString = true ↔ ∃ s, j = .string s := by
  cases j <;> simp [isString]

/-- `operator[](key)` on a const value.  A missing key is the caller's error; the
value read is then null here. -/
def constSubscript (key : String) : Json → Except Exception Json
  | .object members => .ok ((members.lookup key).getD .null)
  | j => .error (.typeError 305
      ("cannot use operator[] with a string argument with " ++ j.typeName))

theorem isIndexable_of_contains {j : Json} {key : String} (h : j.contains key = true) :
    j.isIndexable = true := by
  cases j with
  | object => rfl
  | _ => exact Bool.noConfusion h

end Json

/-! ## The callbacks -/

/-- The callbacks that `connect` installs. -/
inductive Callback where
  | onPeerConnected
  | onPeerReConnected
  | onPeerClosed
  | onPeerDisconnected
  | onPeerFailed
  | onServerNotification
  | onServerRequest
  deriving DecidableEq

namespace Rtm

/-- `onServerNotification`: the task it posts. -/
def onServerNotification (data : Json) : Except Exception (Option RtmTask) := do
  let method ← (← data.constSubscript "method").getString
  let msgData ← data.constSubscript "data"
  if msgData.contains "channelId" = false ∨ msgData.contains "peerId" = false then
    return none
  else
    let (channelIdValue, msgData) ← msgData.subscript "channelId"
    let channelId ← channelIdValue.getString
    let (peerIdValue, msgData) ← msgData.subscript "peerId"
    let peerId ← peerIdValue.getString
    if method = "channelMsgText" then
      let (msgValue, _) ← msgData.subscript "msg"
      let msg ← msgValue.getString
      return some (.listener (.onReceiveMessage channelId peerId msg))
    else if method = "memberJoin" then
      return some (.listener
        (.onReceivePresence channelId ⟨.remoteJoinChannel, channelId, peerId⟩))
    else if method = "memberLeave" then
      return some (.listener
        (.onReceivePresence channelId ⟨.remoteLeaveChannel, channelId, peerId⟩))
    else
      return none

/-- The fields that the callback reads as strings are strings. -/
structure Readable (method data : Json) : Prop where
  methodIsString : method.isString = true
  idsAreStrings : data.contains "channelId" = true → data.contains "peerId" = true →
    (data.field "channelId").isString = true ∧ (data.field "peerId").isString = true
  msgIsString : data.contains "channelId" = true → data.contains "peerId" = true →
    method = .string "channelMsgText" → (data.field "msg").isString = true

/-- The call of the listener that a notification asks for. -/
def noticeCall (method data : Json) : Option RtmListenerCall :=
  if data.contains "channelId" = true ∧ data.contains "peerId" = true then
    match method, data.field "channelId", data.field "peerId" with
    | .string method, .string channelId, .string peerId =>
        if method = "channelMsgText" then
          match data.field "msg" with
          | .string msg => some (.onReceiveMessage channelId peerId msg)
          | _ => none
        else if method = "memberJoin" then
          some (.onReceivePresence channelId ⟨.remoteJoinChannel, channelId, peerId⟩)
        else if method = "memberLeave" then
          some (.onReceivePresence channelId ⟨.remoteLeaveChannel, channelId, peerId⟩)
        else none
    | _, _, _ => none
  else none

/-- On a readable notification the callback posts the call that it asks for. -/
theorem onServerNotification_of_readable {members : List (String × Json)} {method data : Json}
    (hmethod : Json.field "method" (.object members) = method)
    (hdata : Json.field "data" (.object members) = data) (h : Readable method data) :
    onServerNotification (.object members) = .ok ((noticeCall method data).map .listener) := by
  obtain ⟨name, rfl⟩ := Json.isString_iff.mp h.methodIsString
  rw [Json.field_object] at hmethod hdata
  simp only [onServerNotification, Json.constSubscript, hmethod, hdata, except_ok_bind,
    Json.getString]
  by_cases hcontains : data.contains "channelId" = true ∧ data.contains "peerId" = true
  · obtain ⟨hchannelId, hpeerId⟩ := hcontains
    have hindex := Json.isIndexable_of_contains hchannelId
    obtain ⟨hchannel, hpeer⟩ := h.idsAreStrings hchannelId hpeerId
    obtain ⟨channelId, hchannel⟩ := Json.isString_iff.mp hchannel
    obtain ⟨peerId, hpeer⟩ := Json.isString_iff.mp hpeer
    by_cases htext : name = "channelMsgText"
    · obtain ⟨msg, hmsg⟩ :=
        Json.isString_iff.mp (h.msgIsString hchannelId hpeerId (congrArg _ htext))
      simp [noticeCall, Json.subscript_eq, hindex, hchannelId, hpeerId, hchannel, hpeer, htext,
        hmsg]
    · by_cases hjoin : name = "memberJoin"
      · simp [noticeCall, Json.subscript_eq, hindex, hchannelId, hpeerId, hchannel, hpeer, hjoin]
      · by_cases hleave : name = "memberLeave"
        · simp [noticeCall, Json.subscript_eq, hindex, hchannelId, hpeerId, hchannel, hpeer,
            hleave]
        · simp [noticeCall, Json.subscript_eq, hindex, hchannelId, hpeerId, hchannel, hpeer,
            htext, hjoin, hleave]
  · have hmissing : data.contains "channelId" = false ∨ data.contains "peerId" = false := by
      simpa [imp_iff_not_or] using hcontains
    unfold noticeCall
    rw [if_pos hmissing, if_neg hcontains]
    rfl

theorem isString_of_getString {j : Json} {s : String} (h : j.getString = .ok s) :
    j.isString = true := by
  cases j with
  | string => rfl
  | _ => simp [Json.getString] at h

/-- The callback returns on readable notifications only. -/
theorem readable_of_onServerNotification {members : List (String × Json)}
    {task : Option RtmTask} (h : onServerNotification (.object members) = .ok task) :
    Readable (Json.field "method" (.object members)) (Json.field "data" (.object members)) := by
  simp only [onServerNotification, Json.constSubscript, except_ok_bind] at h
  obtain ⟨method, hmethod, h⟩ := exists_of_bind_eq_ok h
  by_cases hmissing : ((members.lookup "data").getD .null).contains "channelId" = false ∨
      ((members.lookup "data").getD .null).contains "peerId" = false
  · refine ⟨isString_of_getString hmethod, ?_, ?_⟩
    · intro hchannelId hpeerId
      rw [Json.field_object] at hchannelId hpeerId
      simp [hchannelId, hpeerId] at hmissing
    · intro hchannelId hpeerId
      rw [Json.field_object] at hchannelId hpeerId
      simp [hchannelId, hpeerId] at hmissing
  · rw [if_neg hmissing] at h
    simp only [not_or, Bool.not_eq_false] at hmissing
    have hindex := Json.isIndexable_of_contains hmissing.1
    simp only [Json.subscript_eq, hindex, Json.isIndexable_touch, Json.field_touch,
      except_ok_bind] at h
    obtain ⟨channelId, hchannel, h⟩ := exists_of_bind_eq_ok h
    obtain ⟨peerId, hpeer, h⟩ := exists_of_bind_eq_ok h
    refine ⟨isString_of_getString hmethod, fun _ _ => ⟨isString_of_getString hchannel,
      isString_of_getString hpeer⟩, fun _ _ htext => ?_⟩
    rw [Json.field_object] at htext
    rw [htext] at hmethod
    obtain rfl := Except.ok.inj hmethod
    rw [if_pos rfl] at h
    obtain ⟨msg, hmsg, -⟩ := exists_of_bind_eq_ok h
    exact isString_of_getString hmsg

end Rtm

/-! ## Messages to their end -/

/-- `onMessage` to its end, with the callbacks that `connect` installs: the kind of
the handler called, the peer, and the task posted to the worker.  `onServerRequest`
writes to the log and does nothing else. -/
def Peer.onMessageToEnd (lib : JsonLibrary) (message : Json) (p : Peer) :
    Except Exception (MessageKind × Peer × Option RtmTask) := do
  let _ ← lib.dump message
  match ← Peer.onMessage message with
  | .request request =>
      let _ ← lib.dump request
      return (.request, p, none)
  | .response response =>
      let _ ← lib.dump response
      let p ← p.handleResponse response
      return (.response, p, none)
  | .notification notification =>
      let _ ← lib.dump notification
      let task ← Rtm.onServerNotification notification
      return (.notification, p, task)
  | .invalid =>
      let _ ← lib.dump (((message.touch "request").touch "response").touch "notification")
      return (.none, p, none)

/-- Writing accepted messages to the log does not throw: an accepted text is valid
UTF-8, which is all that `dump` asks for, and a read inserts a key that is. -/
structure JsonLibrary.LogsMessages (lib : JsonLibrary) : Prop where
  parsed : ∀ {text message}, Message.parse lib text = .ok message →
    ∃ logged, lib.dump message = .ok logged
  touched : ∀ {value logged}, lib.dump value = .ok logged →
    ∀ key ∈ ["request", "response", "notification"],
      ∃ logged, lib.dump (value.touch key) = .ok logged

/-- A notification whose fields the callback can read; messages of other kinds are all
handled. -/
def Tolerated (object : Json) : Prop :=
  Message.kind object = .notification → Rtm.Readable (object.field "method") (object.field "data")

namespace Message

/-- Of a notification the decoder keeps the method and the data, whatever they are. -/
theorem fields_of_decode {object message : Json} (h : decode object = .ok message)
    (hkind : kind object = .notification) :
    message.field "method" = object.field "method" ∧
      message.field "data" = object.field "data" := by
  obtain ⟨shape, hshape, rfl⟩ := exists_decoded_of_decode h
  rw [kind_of_ofFields hshape] at hkind
  cases Decoded.reads_of_ofFields hshape with
  | notification => simp +decide [Decoded.toJson]
  | _ => exact MessageKind.noConfusion hkind

theorem isBoolean_response_of_kind {message : Json} (h : kind message = .response) :
    (message.field "response").isBoolean = true := by
  unfold kind at h
  split at h
  · exact MessageKind.noConfusion h
  · split at h
    next hresponse => exact hresponse
    next => split at h <;> exact MessageKind.noConfusion h

end Message

namespace Peer

theorem onMessage_of_kind {message : Json} (h : message.isIndexable = true) :
    onMessage message = .ok (match Message.kind message with
      | .request => .request (message.touch "request")
      | .response => .response ((message.touch "request").touch "response")
      | .notification =>
          .notification (((message.touch "request").touch "response").touch "notification")
      | .none => .invalid) := by
  rw [onMessage_eq h]
  unfold Message.kind
  split
  · rfl
  · split
    · rfl
    · split <;> rfl

/-- Reading the markers of a notification leaves an object with the same fields. -/
theorem exists_touched {message : Json} (h : Message.kind message = .notification) :
    ∃ members, ((message.touch "request").touch "response").touch "notification" =
        .object members ∧
      Json.field "method" (.object members) = message.field "method" ∧
      Json.field "data" (.object members) = message.field "data" := by
  have hobject : ∃ members, message = .object members := by
    cases message with
    | object members => exact ⟨members, rfl⟩
    | _ => simp [Message.kind, Json.field, Json.isBoolean] at h
  obtain ⟨members, rfl⟩ := hobject
  obtain ⟨members', hmembers⟩ : ∃ members',
      (((Json.object members).touch "request").touch "response").touch "notification" =
        .object members' := ⟨_, rfl⟩
  refine ⟨members', hmembers, ?_, ?_⟩
  · rw [← hmembers]
    simp only [Json.field_touch]
  · rw [← hmembers]
    simp only [Json.field_touch]

/-- What `onMessage` can read is an object or null. -/
theorem isIndexable_of_onMessage {message : Json} {dispatch : Dispatch}
    (h : onMessage message = .ok dispatch) : message.isIndexable = true := by
  cases message with
  | null | object => rfl
  | _ => simp [onMessage, Json.subscript] at h

/-- A response is handled without an exception: the promise it finds has no result. -/
theorem exists_handleResponse {lib : JsonLibrary} {events : List ClientEvent} {c : Client}
    (hrun : Run (Client.step lib) AnyStep {} events c) (hidle : c.handler = .idle)
    {response : Json} {id : ℤ} (hresponse : IsResponse response id) :
    ∃ p, c.peer.handleResponse response = .ok p := by
  rw [handleResponse_eq hresponse]
  cases hlookup : c.peer.promises.lookup id with
  | none => exact ⟨_, rfl⟩
  | some promise =>
      have hsatisfy : Store.satisfy promise (replyOf response) c.peer.states = some _ :=
        Store.satisfy_eq_some_iff.mpr ⟨Client.empty_of_lookup hrun hidle hlookup, rfl⟩
      simp only [hsatisfy]
      exact ⟨_, rfl⟩

/-- An accepted message is handled by the handler of its kind and nothing escapes into
the callback of the library, exactly when it is no notification or its fields can be
read. -/
theorem handled_iff {lib : JsonLibrary} (hlogs : lib.LogsMessages) {events : List ClientEvent}
    {c : Client} (hrun : Run (Client.step lib) AnyStep {} events c) (hidle : c.handler = .idle)
    {text : String} {object message : Json} (hparse : lib.parse text = .ok object)
    (hdecode : Message.decode object = .ok message) :
    (∃ p task, c.peer.onMessageToEnd lib message = .ok (Message.kind object, p, task)) ↔
      Tolerated object := by
  have hkind := Message.kind_of_decode hdecode
  have haccepted : Message.parse lib text = .ok message := by
    rw [Message.parse, hparse]
    exact hdecode
  obtain ⟨logged, hlogged⟩ := hlogs.parsed haccepted
  obtain ⟨logged₁, hlogged₁⟩ := hlogs.touched hlogged "request" (by simp)
  obtain ⟨logged₂, hlogged₂⟩ := hlogs.touched hlogged₁ "response" (by simp)
  obtain ⟨logged₃, hlogged₃⟩ := hlogs.touched hlogged₂ "notification" (by simp)
  simp only [onMessageToEnd, hlogged, onMessage_of_kind (Message.isIndexable_of_decode hdecode),
    hkind, except_ok_bind]
  cases hobject : Message.kind object with
  | request =>
      simp only [hlogged₁, except_ok_bind]
      exact iff_of_true ⟨_, _, rfl⟩ fun h => MessageKind.noConfusion (hobject.symm.trans h)
  | response =>
      have hboolean : (message.field "response").isBoolean = true := by
        rw [hobject] at hkind
        exact Message.isBoolean_response_of_kind hkind
      obtain ⟨id, -, hresponse, -⟩ := exists_isResponse_of_decode hdecode hboolean
      have hread : IsResponse ((message.touch "request").touch "response") id :=
        (hresponse.touch (by decide)).touch (by decide)
      obtain ⟨p, hp⟩ := exists_handleResponse hrun hidle hread
      simp only [hlogged₂, hp, except_ok_bind]
      exact iff_of_true ⟨_, _, rfl⟩ fun h => MessageKind.noConfusion (hobject.symm.trans h)
  | notification =>
      obtain ⟨members, hmembers, hmethod, hdata⟩ := exists_touched (hkind.trans hobject)
      obtain ⟨hsameMethod, hsameData⟩ := Message.fields_of_decode hdecode hobject
      rw [hsameMethod] at hmethod
      rw [hsameData] at hdata
      rw [hmembers] at hlogged₃
      simp only [hmembers, hlogged₃, except_ok_bind]
      constructor
      · rintro ⟨p, task, hok⟩ -
        obtain ⟨task', htask, -⟩ := exists_of_bind_eq_ok hok
        have hreadable := Rtm.readable_of_onServerNotification htask
        rwa [hmethod, hdata] at hreadable
      · intro h
        rw [Rtm.onServerNotification_of_readable hmethod hdata (h hobject)]
        exact ⟨_, _, rfl⟩
  | none =>
      simp only [hlogged₃, except_ok_bind]
      exact iff_of_true ⟨_, _, rfl⟩ fun h => MessageKind.noConfusion (hobject.symm.trans h)

/-- A notification with this method, as the decoder leaves it, and what reading it
makes of it, with their texts. -/
def notificationTexts (method : Json) (text : String) : List (Json × String) :=
  [(.object [("data", .null), ("id", .null), ("method", method),
      ("notification", .boolean true)],
    "\x7b\"data\":null,\"id\":null,\"method\":" ++ text ++ ",\"notification\":true\x7d"),
  (.object [("data", .null), ("id", .null), ("method", method),
      ("notification", .boolean true), ("request", .null)],
    "\x7b\"data\":null,\"id\":null,\"method\":" ++ text ++
      ",\"notification\":true,\"request\":null\x7d"),
  (.object [("data", .null), ("id", .null), ("method", method),
      ("notification", .boolean true), ("response", .null)],
    "\x7b\"data\":null,\"id\":null,\"method\":" ++ text ++
      ",\"notification\":true,\"response\":null\x7d"),
  (.object [("data", .null), ("id", .null), ("method", method),
      ("notification", .boolean true), ("request", .null), ("response", .null)],
    "\x7b\"data\":null,\"id\":null,\"method\":" ++ text ++
      ",\"notification\":true,\"request\":null,\"response\":null\x7d")]

/-- The JSON library on a notification with the method "a". -/
def methodLibrary : JsonLibrary :=
  JsonLibrary.ofTable (notificationTexts (.string "a") "\"a\"") (by decide)

/-- The JSON library on a notification without a method. -/
def noMethodLibrary : JsonLibrary :=
  JsonLibrary.ofTable (notificationTexts .null "null") (by decide)

theorem logsMessages_methodLibrary : methodLibrary.LogsMessages where
  parsed := by
    intro text message hparse
    obtain ⟨object, hobject, hdecode⟩ := exists_of_bind_eq_ok hparse
    have hmem := JsonLibrary.mem_of_parse_ofTable hobject
    simp only [notificationTexts, List.mem_cons, Prod.mk.injEq, List.not_mem_nil, or_false]
      at hmem
    rcases hmem with ⟨rfl, -⟩ | ⟨rfl, -⟩ | ⟨rfl, -⟩ | ⟨rfl, -⟩ <;>
      exact Except.ok.inj hdecode ▸ ⟨_, rfl⟩
  touched := by
    intro value logged hdump key hkey
    have hmem := JsonLibrary.mem_of_dump_ofTable hdump
    simp only [notificationTexts, List.mem_cons, Prod.mk.injEq, List.not_mem_nil, or_false]
      at hmem hkey
    rcases hmem with ⟨rfl, -⟩ | ⟨rfl, -⟩ | ⟨rfl, -⟩ | ⟨rfl, -⟩ <;>
      rcases hkey with rfl | rfl | rfl <;> exact ⟨_, rfl⟩

theorem handled_iff_method :
    ∃ p task, ({} : Client).peer.onMessageToEnd methodLibrary
      (Message.Decoded.notification .null (.string "a") .null).toJson =
        .ok (.notification, p, task) := by
  have hlogs := logsMessages_methodLibrary
  have hparse : methodLibrary.parse
      "\x7b\"data\":null,\"id\":null,\"method\":\"a\",\"notification\":true\x7d" =
        .ok (Message.Decoded.notification .null (.string "a") .null).toJson := rfl
  apply (handled_iff hlogs .nil rfl hparse rfl).mpr
  exact fun _ => ⟨rfl, fun h => Bool.noConfusion h, fun h => Bool.noConfusion h⟩

/-- A notification without a method is accepted, and reading its method throws. -/
theorem no_method_escapes :
    ∃ object message, noMethodLibrary.parse
        "\x7b\"data\":null,\"id\":null,\"method\":null,\"notification\":true\x7d" =
          .ok object ∧
      Message.decode object = .ok message ∧
      ({} : Client).peer.onMessageToEnd noMethodLibrary message =
        .error (.typeError 302 "type must be string, but is null") ∧
      ¬∃ p task, ({} : Client).peer.onMessageToEnd noMethodLibrary message =
        .ok (Message.kind object, p, task) := by
  have hthrows : ({} : Client).peer.onMessageToEnd noMethodLibrary
      (Message.Decoded.notification .null .null .null).toJson =
        .error (.typeError 302 "type must be string, but is null") := rfl
  refine ⟨_, (Message.Decoded.notification .null .null .null).toJson, rfl, rfl, hthrows, ?_⟩
  rintro ⟨p, task, hok⟩
  rw [hthrows] at hok
  simp at hok

end Peer

end Protoo
