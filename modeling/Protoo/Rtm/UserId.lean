import Protoo.Rtm.Core
import Protoo.Transport.Url

/-!
# The user id in the URL

`connect` puts the user id into the query of the URL as it is, and the server reads it from
there.  `reaches_iff` says which user ids the server reads as they were given, for a reader
that splits a field at its first `=` and for one that splits it at every `=`.
-/

namespace Protoo

open Protoo.Support WebSocketTransport

/-- A server URL of the form `ws://host:port`. -/
structure ServerUrl where
  host : String
  port : ℕ
  host_ne : host ≠ ""
  host_letters : ∀ c ∈ host.toList, c ∉ ['/', ' ', ':', '\x00']
  port_range : 1 ≤ port ∧ port ≤ 65535

def ServerUrl.write (server : ServerUrl) : String :=
  "ws://" ++ server.host ++ ":" ++ toString server.port

/-- The URL from which `connect` makes the peer. -/
def Rtm.peerUrl (rtm : Rtm) (serverUrl : String) : String :=
  let fullUrl := serverUrl ++ "/?roomId=&peerId=" ++ rtm.userId
  rtm.config.serverUrl.getD fullUrl

/-! ## Reading the query -/

/-- The text after the first `?`. -/
def query (path : List Char) : List Char := (path.dropWhile fun c => c ≠ '?').tail

/-- Where a reader splits a field at `=`. -/
inductive FieldReading where
  | atFirst
  | atEvery
  deriving DecidableEq

namespace FieldReading

def name (field : List Char) : List Char := field.takeWhile fun c => c ≠ '='

def value : FieldReading → List Char → List Char
  | .atFirst, field => (field.dropWhile fun c => c ≠ '=').tail
  | .atEvery, field => (field.splitOn '=').tail.headD []

/-- The fields of a query, with their values. -/
def fields (reading : FieldReading) (query : List Char) : List (List Char × List Char) :=
  (query.splitOn '&').map fun field => (name field, reading.value field)

/-- The letters that cannot stand in a value of the query. -/
def forbidden : FieldReading → List Char
  | .atFirst => ['\x00', ' ', '#', '&']
  | .atEvery => ['\x00', ' ', '#', '&', '=']

end FieldReading

/-- The value that the server reads for a name. -/
def FieldReading.param (reading : FieldReading) (rtm : Rtm) (server : ServerUrl)
    (name : String) : Option (List Char) :=
  (reading.fields (query (endpoint (rtm.peerUrl server.write)).path.toList)).lookup name.toList

/-- The URL is accepted, the connection goes to the server, and the server reads an empty
room id and the user id. -/
structure Reaches (reading : FieldReading) (rtm : Rtm) (server : ServerUrl) : Prop where
  accepted : (matchUrl (rtm.peerUrl server.write)).isSome = true
  host : (endpoint (rtm.peerUrl server.write)).url = server.host
  port : (endpoint (rtm.peerUrl server.write)).port = some (server.port : ℤ)
  roomId : reading.param rtm server "roomId" = some []
  peerId : reading.param rtm server "peerId" = some rtm.userId.toList

/-! ## What the server reads -/

theorem exists_splitOn (separator : Char) (text : List Char) :
    ∃ others, text.splitOn separator = (text.takeWhile fun c => c ≠ separator) :: others := by
  induction text with
  | nil => exact ⟨[], rfl⟩
  | cons c rest ih =>
      obtain ⟨others, hothers⟩ := ih
      rw [List.splitOn_cons_eq_if_modifyHead, hothers]
      by_cases hc : c = separator
      · subst hc
        refine ⟨(rest.takeWhile fun a => a ≠ c) :: others, ?_⟩
        rw [if_pos (beq_self_eq_true c), List.takeWhile_cons_of_neg (by simp)]
      · refine ⟨others, ?_⟩
        rw [if_neg (by simpa using hc), List.takeWhile_cons_of_pos (by simpa using hc)]
        rfl

namespace FieldReading

/-- The letters that a reader leaves in a value. -/
def keeps : FieldReading → Char → Bool
  | .atFirst, _ => true
  | .atEvery, c => c ≠ '='

theorem value_peerId (reading : FieldReading) (text : List Char) :
    reading.value ("peerId=".toList ++ text) = text.takeWhile reading.keeps := by
  cases reading with
  | atFirst => exact (List.takeWhile_eq_self_iff.mpr fun _ _ => rfl).symm
  | atEvery =>
      obtain ⟨others, hothers⟩ := exists_splitOn '=' text
      have hname : '=' ∉ "peerId".toList := by decide
      have hsplit : ("peerId=".toList ++ text).splitOn '=' = "peerId".toList :: text.splitOn '=' :=
        List.splitOn_append_cons_self_of_not_mem hname text
      rw [value, hsplit, hothers]
      rfl

theorem fields_peerUrl (reading : FieldReading) (text : List Char) :
    ∃ others, reading.fields (query ("/?roomId=&peerId=".toList ++ text)) =
      ("roomId".toList, []) ::
        ("peerId".toList, (text.takeWhile fun c => c ≠ '&').takeWhile reading.keeps) ::
          others := by
  obtain ⟨others, hothers⟩ := exists_splitOn '&' ("peerId=".toList ++ text)
  have hfirst : '&' ∉ "roomId=".toList := by decide
  have hroom : (query ("/?roomId=&peerId=".toList ++ text)).splitOn '&' =
      "roomId=".toList :: ("peerId=".toList ++ text).splitOn '&' :=
    List.splitOn_append_cons_self_of_not_mem hfirst _
  have hpeer : (("peerId=".toList ++ text).takeWhile fun c => c ≠ '&') =
      "peerId=".toList ++ text.takeWhile fun c => c ≠ '&' :=
    List.takeWhile_append_of_pos (forall_mem_of_all rfl)
  refine ⟨others.map fun field => (name field, reading.value field), ?_⟩
  rw [fields, hroom, hothers, hpeer, List.map_cons, List.map_cons, reading.value_peerId]
  refine congrArg₂ List.cons (Prod.ext rfl ?_) rfl
  cases reading <;> rfl

end FieldReading

/-! ## The match of the URL -/

theorem cStr_append {s : String} (t : String) (h : '\x00' ∉ s.toList) :
    cStr (s ++ t) = s.toList ++ cStr t := by
  rw [cStr, String.toList_append]
  refine List.takeWhile_append_of_pos fun c hc => decide_eq_true ?_
  rintro rfl
  exact h hc

/-- When the text after a slash is matched at all, the group of the path takes it. -/
theorem forall_of_isTail (taken : List Char) {rest : List Char}
    (h : IsTail (taken ++ '/' :: rest)) : ∀ c ∈ rest, noneOf " #" c = true := by
  obtain ⟨before, after, heq, hbefore, hafter⟩ := h.of_append
  cases before with
  | nil =>
      obtain rfl := heq
      exact fun c hc => hafter c (List.mem_cons_of_mem _ hc)
  | cons c before =>
      obtain ⟨rfl, -⟩ := List.cons.inj heq
      exact absurd (hbefore '/' List.mem_cons_self) (by decide)

namespace ServerUrl

variable (server : ServerUrl)

/-- The parts of the URL when the path and the query can be part of it. -/
def parts (shown : List Char) (h : ∀ c ∈ shown, c ∉ [' ', '#', '\x00']) : UrlParts where
  scheme := "ws"
  host := server.host
  port := some server.port
  path := "/?roomId=&peerId=" ++ String.ofList shown
  scheme_eq := Or.inl rfl
  host_ne := server.host_ne
  host_letters := server.host_letters
  port_range := by
    rintro n ⟨⟩
    exact server.port_range
  path_start := Or.inr (by rw [String.toList_append]; rfl)
  path_letters := by
    intro c hc
    rw [String.toList_append] at hc
    rcases List.mem_append.mp hc with hc | hc
    · have hplain : ∀ c ∈ "/?roomId=&peerId=".toList, c ∉ [' ', '#', '\x00'] :=
        forall_mem_of_all rfl
      exact hplain c hc
    · rw [String.toList_ofList] at hc
      exact h c hc

theorem write_parts (shown : List Char) (h : ∀ c ∈ shown, c ∉ [' ', '#', '\x00']) :
    (server.parts shown h).write =
      server.write ++ "/?roomId=&peerId=" ++ String.ofList shown := by
  rw [← String.toList_inj]
  simp [UrlParts.write, UrlParts.portText, parts, write]

theorem cStr_fullUrl (userId : String) :
    cStr (server.write ++ "/?roomId=&peerId=" ++ userId) =
      (server.write ++ "/?roomId=&peerId=").toList ++ cStr userId := by
  have hnul := (server.parts [] (by simp)).not_mem_write
  rw [write_parts, String.ofList_nil, String.append_empty] at hnul
  exact cStr_append userId hnul

theorem matchUrl_fullUrl {userId : String} (h : ∀ c ∈ cStr userId, c ∉ [' ', '#', '\x00']) :
    matchUrl (server.write ++ "/?roomId=&peerId=" ++ userId) =
      matchUrl (server.parts (cStr userId) h).write := by
  rw [matchUrl, matchUrl, cStr_fullUrl, cStr_of_not_mem (UrlParts.not_mem_write _), write_parts,
    String.toList_append (t := String.ofList (cStr userId)), String.toList_ofList]

/-- An accepted URL shows no letter of the user id that the path cannot have. -/
theorem forall_of_accepted {userId : String}
    (h : (matchUrl (server.write ++ "/?roomId=&peerId=" ++ userId)).isSome = true) :
    ∀ c ∈ cStr userId, noneOf " #" c = true := by
  obtain ⟨what, hwhat⟩ := Option.isSome_iff_exists.mp h
  have hurl : (server.write ++ "/?roomId=&peerId=").toList ++ cStr userId =
      "ws".toList ++ "://".toList ++ (server.host.toList ++ ':' :: ((toString server.port).toList ++
        '/' :: ("?roomId=&peerId=".toList ++ cStr userId))) := by
    simp [write]
  rw [matchUrl, cStr_fullUrl, hurl] at hwhat
  have hmem := Regex.mem_of_regexMatch hwhat
  rw [results_ex (Or.inl rfl)] at hmem
  have htail := (exists_of_mem_fromHost hmem).2
  rw [List.dropWhile_append_of_pos (noneOf_of_forall (by decide) server.host_letters),
    List.dropWhile_cons_of_neg (by decide)] at htail
  exact fun c hc => forall_of_isTail (':' :: (toString server.port).toList) htail c
    (List.mem_append_right _ hc)

end ServerUrl

theorem endpoint_fullUrl (server : ServerUrl) {userId : String}
    (h : ∀ c ∈ cStr userId, c ∉ [' ', '#', '\x00']) :
    endpoint (server.write ++ "/?roomId=&peerId=" ++ userId) =
      (server.parts (cStr userId) h).endpoint := by
  rw [← UrlParts.endpoint_write, endpoint, endpoint, server.matchUrl_fullUrl h]

theorem not_mem_of_accepted (server : ServerUrl) {userId : String}
    (h : (matchUrl (server.write ++ "/?roomId=&peerId=" ++ userId)).isSome = true) :
    ∀ c ∈ cStr userId, c ∉ [' ', '#', '\x00'] := by
  intro c hc hmem
  have hletter := noneOf_iff.mp (server.forall_of_accepted h c hc)
  have hnul : c ≠ '\x00' := of_decide_eq_true (List.mem_takeWhile_imp (p := fun c => c ≠ '\x00') hc)
  rcases List.mem_append.mp (show c ∈ " #".toList ++ ['\x00'] from hmem) with hspace | hend
  · exact hletter hspace
  · exact hnul (List.mem_singleton.mp hend)

theorem path_fullUrl (server : ServerUrl) {userId : String}
    (h : ∀ c ∈ cStr userId, c ∉ [' ', '#', '\x00']) :
    (endpoint (server.write ++ "/?roomId=&peerId=" ++ userId)).path.toList =
      "/?roomId=&peerId=".toList ++ cStr userId := by
  rw [endpoint_fullUrl server h]
  exact String.toList_append.trans (congrArg _ String.toList_ofList)

/-! ## Which user ids arrive -/

theorem not_mem_forbidden_iff {reading : FieldReading} {c : Char} :
    c ∉ reading.forbidden ↔
      c ∉ [' ', '#', '\x00'] ∧ c ≠ '\x00' ∧ c ≠ '&' ∧ reading.keeps c = true := by
  cases reading <;> simp only [FieldReading.forbidden, FieldReading.keeps, List.mem_cons, not_or,
    List.not_mem_nil, not_false_eq_true, and_true, decide_eq_true_eq] <;> tauto

/-- What the server reads is the user id when no letter of it ends the value. -/
theorem takeWhile_eq_iff {reading : FieldReading} {userId : String} :
    ((cStr userId).takeWhile fun c => c ≠ '&').takeWhile reading.keeps = userId.toList ↔
      ∀ c ∈ userId.toList, c ≠ '\x00' ∧ c ≠ '&' ∧ reading.keeps c = true := by
  rw [cStr, List.takeWhile_takeWhile, List.takeWhile_takeWhile, List.takeWhile_eq_self_iff]
  refine forall₂_congr fun c _ => ?_
  simp only [Bool.decide_and, Bool.and_eq_true, decide_eq_true_eq]
  tauto

theorem peerUrl_of_not_configured {rtm : Rtm} (hconfig : rtm.config.serverUrl = none)
    (serverUrl : String) :
    rtm.peerUrl serverUrl = serverUrl ++ "/?roomId=&peerId=" ++ rtm.userId := by
  rw [Rtm.peerUrl, hconfig, Option.getD_none]

/-- Of an accepted URL the server reads an empty room id, and the user id up to the first
letter that ends the value. -/
theorem param_of_shown (reading : FieldReading) (server : ServerUrl) {rtm : Rtm}
    (hconfig : rtm.config.serverUrl = none)
    (h : ∀ c ∈ cStr rtm.userId, c ∉ [' ', '#', '\x00']) :
    reading.param rtm server "roomId" = some [] ∧
      reading.param rtm server "peerId" =
        some (((cStr rtm.userId).takeWhile fun c => c ≠ '&').takeWhile reading.keeps) := by
  obtain ⟨others, hfields⟩ := reading.fields_peerUrl (cStr rtm.userId)
  simp only [FieldReading.param]
  rw [peerUrl_of_not_configured hconfig, path_fullUrl server h, hfields]
  exact ⟨rfl, rfl⟩

theorem not_mem_of_reaches {reading : FieldReading} {rtm : Rtm} {server : ServerUrl}
    (hconfig : rtm.config.serverUrl = none) (h : Reaches reading rtm server) :
    ∀ c ∈ rtm.userId.toList, c ∉ reading.forbidden := by
  intro c hc
  have haccepted := h.accepted
  rw [peerUrl_of_not_configured hconfig] at haccepted
  have hshown := not_mem_of_accepted server haccepted
  have hread := takeWhile_eq_iff.mp
    (Option.some.inj ((param_of_shown reading server hconfig hshown).2.symm.trans h.peerId))
  have hall : cStr rtm.userId = rtm.userId.toList :=
    cStr_of_not_mem fun hnul => (hread _ hnul).1 rfl
  rw [hall] at hshown
  exact not_mem_forbidden_iff.mpr ⟨hshown c hc, hread c hc⟩

theorem reaches_of_not_mem {reading : FieldReading} {rtm : Rtm} {server : ServerUrl}
    (hconfig : rtm.config.serverUrl = none)
    (h : ∀ c ∈ rtm.userId.toList, c ∉ reading.forbidden) : Reaches reading rtm server := by
  have hletters := fun c hc => not_mem_forbidden_iff.mp (h c hc)
  have hshown : ∀ c ∈ cStr rtm.userId, c ∉ [' ', '#', '\x00'] := fun c hc =>
    (hletters c ((List.takeWhile_sublist _).subset hc)).1
  have hurl := peerUrl_of_not_configured hconfig server.write
  obtain ⟨hroomId, hpeerId⟩ := param_of_shown reading server hconfig hshown
  refine ⟨?_, ?_, ?_, hroomId, hpeerId.trans ?_⟩
  · rw [hurl, server.matchUrl_fullUrl hshown, UrlParts.matchUrl_write]
    rfl
  · rw [hurl, endpoint_fullUrl server hshown]
    rfl
  · rw [hurl, endpoint_fullUrl server hshown]
    rfl
  · exact congrArg some (takeWhile_eq_iff.mpr fun c hc => (hletters c hc).2)

/-- The user id arrives as it was given exactly when none of its letters has a meaning in the
URL or in the query; and of two such user ids the server reads different ones. -/
theorem reaches_iff (reading : FieldReading) (server : ServerUrl) :
    (∀ rtm : Rtm, rtm.config.serverUrl = none →
      (Reaches reading rtm server ↔ ∀ c ∈ rtm.userId.toList, c ∉ reading.forbidden)) ∧
      ∀ rtm other : Rtm, rtm.config.serverUrl = none → other.config.serverUrl = none →
        (∀ c ∈ rtm.userId.toList, c ∉ reading.forbidden) →
        (∀ c ∈ other.userId.toList, c ∉ reading.forbidden) →
        rtm.userId ≠ other.userId →
          reading.param rtm server "peerId" ≠ reading.param other server "peerId" := by
  constructor
  · intro rtm hconfig
    exact ⟨not_mem_of_reaches hconfig, reaches_of_not_mem hconfig⟩
  · intro rtm other hrtm hother hletters hletters' hne heq
    rw [(reaches_of_not_mem hrtm hletters).peerId, (reaches_of_not_mem hother hletters').peerId]
      at heq
    exact hne (String.toList_inj.mp (Option.some.inj heq))

def localServer : ServerUrl :=
  ⟨"localhost", 8080, by decide, forall_mem_of_all rfl, by decide⟩

theorem reaches_iff_alice :
    Reaches .atEvery { appId := "app", userId := "alice" } localServer ∧
      FieldReading.atFirst.param { appId := "app", userId := "alice" } localServer "peerId" ≠
        FieldReading.atFirst.param { appId := "app", userId := "b=b" } localServer "peerId" :=
  ⟨((reaches_iff .atEvery localServer).1 _ rfl).mpr (forall_mem_of_all rfl),
    (reaches_iff .atFirst localServer).2 _ _ rfl rfl (forall_mem_of_all rfl)
      (forall_mem_of_all rfl) (by decide)⟩

/-- The URL of a user id with a space is rejected, which leaves every member unset; and two
user ids with an `&` are read as one. -/
theorem space_not_accepted :
    (¬ Reaches .atFirst { appId := "app", userId := "alice bob" } localServer ∧
      ¬ Reaches .atEvery { appId := "app", userId := "alice bob" } localServer) ∧
    endpoint (Rtm.peerUrl { appId := "app", userId := "alice bob" } localServer.write) = {} ∧
    FieldReading.atFirst.param { appId := "app", userId := "a&b" } localServer "peerId" =
      FieldReading.atFirst.param { appId := "app", userId := "a&c" } localServer "peerId" := by
  have hrejected : matchUrl (localServer.write ++ "/?roomId=&peerId=" ++ "alice bob") = none := by
    rw [← Option.not_isSome_iff_eq_none]
    intro h
    exact not_mem_of_accepted _ h ' ' (by decide) (by decide)
  have hnot (reading : FieldReading) :
      ¬ Reaches reading { appId := "app", userId := "alice bob" } localServer := fun h =>
    not_mem_of_reaches rfl h ' ' (by decide) (by cases reading <;> decide)
  refine ⟨⟨hnot _, hnot _⟩, ?_, ?_⟩
  · apply endpoint_of_matchUrl_eq_none
    rw [peerUrl_of_not_configured rfl]
    exact hrejected
  · rw [(param_of_shown _ _ rfl (forall_mem_of_all rfl)).2,
      (param_of_shown _ _ rfl (forall_mem_of_all rfl)).2]
    decide

end Protoo
