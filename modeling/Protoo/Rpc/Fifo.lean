import Protoo.Rpc.System
import Protoo.Transport.Outgoing
import Mathlib.Data.List.Forall2

/-!
# Texts leave the client in the order of the sends

A message posted with `send` waits in the task queue, then as a text in
`m_msgQueue`, and then has been written.  The three queues in a row are the
posted messages in the order of the sends (`Fifo`), so the text written at a
position is the text of the message posted at that position, whatever the
client's other threads and the network do.
-/

namespace Protoo

open Protoo.Support

namespace Client

/-- The messages of the sends that have not been run. -/
def posted (c : Client) : List Json := c.peer.transport.tasks.filterMap Task.message

/-- The texts written so far and those queued. -/
def texts (c : Client) : List String := c.written ++ c.peer.transport.msgQueue

/-- What a step does to the messages on their way: it posts the outgoing ones, or
it turns the oldest posted message into a text. -/
inductive Traffic (lib : JsonLibrary) (c : Client) (e : ClientEvent) (c' : Client) : Prop where
  | posts (htexts : c'.texts = c.texts)
      (hposted : c'.posted = c.posted ++ (e.outgoing c).map Outgoing.message)
  | dumps (message : Json) (text : String) (hposted : c.posted = message :: c'.posted)
      (hdump : lib.dump message = .ok text) (htexts : c'.texts = c.texts ++ [text])
      (hnone : e.outgoing c = [])

theorem Traffic.congr {lib : JsonLibrary} {c c' : Client} {e : ClientEvent}
    (hnone : e.outgoing c = []) (htexts : c'.texts = c.texts) (hposted : c'.posted = c.posted) :
    Traffic lib c e c' := by
  refine .posts htexts ?_
  rw [hnone, hposted, List.map_nil, List.append_nil]

/-- Posting one message. -/
theorem Traffic.send {lib : JsonLibrary} {c c' : Client} {e : ClientEvent} {o : Outgoing}
    (hout : e.outgoing c = [o]) (hwritten : c'.written = c.written)
    (htransport : c'.peer.transport = c.peer.transport.send o.message) : Traffic lib c e c' := by
  refine .posts ?_ ?_
  · unfold texts
    rw [hwritten, htransport]
    rfl
  · unfold posted
    rw [hout, htransport]
    simp [WebSocketTransport.send, WebSocketTransport.invokeTask, Task.message]

/-- The service thread's own steps are those of the transport. -/
theorem Traffic.service {lib : JsonLibrary} {c : Client} {e : ServiceEvent ℤ} {s : Service ℤ}
    (hown : e.isOwn = true) (h : Service.Steps lib c.service e s) :
    Traffic lib c (.service e) (c.setService s) := by
  have hsent : e.sent = none := by
    cases e with
    | invoke task => exact Bool.noConfusion hown
    | _ => rfl
  cases h.flow with
  | posts htexts hposted =>
      refine .congr rfl htexts ?_
      rw [hsent, Option.toList_none, List.append_nil] at hposted
      exact hposted
  | dumps message text _ hposted hdump htexts => exact .dumps message text hposted hdump htexts rfl

theorem Steps.traffic {lib : JsonLibrary} {c c' : Client} {e : ClientEvent}
    (h : Steps lib c e c') : Traffic lib c e c' := by
  cases h with
  | register draw method data =>
      refine .congr rfl ?_ ?_
      · unfold texts
        rw [Peer.release_transport]
        rfl
      · unfold posted
        rw [Peer.release_transport]
        rfl
  | postTimeout i call hcall =>
      refine .congr rfl rfl ?_
      simp [posted, Peer.postTimeout, WebSocketTransport.scheduleTask,
        WebSocketTransport.invokeTask, Task.message]
  | postSend i call hcall =>
      refine .send (o := ⟨call.request, some call.promise⟩) ?_ rfl ?_
      · simp [ClientEvent.outgoing, hcall]
      · rw [Peer.transport_returnRequest]
        rfl
  | notify method data => exact .send (o := ⟨_, none⟩) rfl rfl rfl
  | accept request data response hresponse =>
      refine .send (o := ⟨response, none⟩) ?_ rfl rfl
      simp [ClientEvent.outgoing, hresponse]
  | reject request errorCode errorReason response hresponse =>
      refine .send (o := ⟨response, none⟩) ?_ rfl rfl
      simp [ClientEvent.outgoing, hresponse]
  | receive chunk final handled c' hidle hphase hreceived =>
      cases hreceived with
      | buffered => exact .congr rfl rfl rfl
      | completed => exact .congr rfl rfl rfl
  | postCancel id hhandler =>
      refine .congr rfl rfl ?_
      simp [posted, Peer.postCancel, WebSocketTransport.cancelScheduledTask,
        WebSocketTransport.invokeTask, Task.message]
  | erase id hhandler => exact .congr rfl rfl rfl
  | timerIgnored | timeout => exact .congr rfl rfl rfl
  | eraseTimedOut id hhandler =>
      refine .congr rfl ?_ ?_
      · unfold texts
        rw [Peer.transport_eraseEntry]
      · unfold posted
        rw [Peer.transport_eraseEntry]
  | destroy => exact .congr rfl rfl rfl
  | service e s hidle hown hservice => exact .service hown hservice

end Client

namespace Rpc

/-- The posted messages are those of the texts, written or queued, followed by
those that wait to be run. -/
def Fifo (lib : JsonLibrary) (s : Rpc) : Prop :=
  ∃ ran waiting, s.sent = ran ++ waiting ∧
    List.Forall₂ (fun (o : Outgoing) text => lib.dump o.message = .ok text) ran
      s.client.texts ∧
    waiting.map Outgoing.message = s.client.posted

theorem fifo_init (lib : JsonLibrary) : Fifo lib ({} : Rpc) :=
  ⟨[], [], rfl, .nil, rfl⟩

/-- A step of the client keeps the order. -/
theorem Fifo.traffic {lib : JsonLibrary} {s t : Rpc} {e : ClientEvent} (h : Fifo lib s)
    (htraffic : Client.Traffic lib s.client e t.client)
    (hsent : t.sent = s.sent ++ e.outgoing s.client) : Fifo lib t := by
  obtain ⟨ran, waiting, hsplit, htexts, hwaiting⟩ := h
  cases htraffic with
  | posts htexts' hposted =>
      refine ⟨ran, waiting ++ e.outgoing s.client, ?_, ?_, ?_⟩
      · rw [hsent, hsplit, List.append_assoc]
      · rw [htexts']
        exact htexts
      · rw [List.map_append, hwaiting, hposted]
  | dumps message text hposted hdump htexts' hnone =>
      rw [hposted] at hwaiting
      obtain ⟨o, rest, rfl, ho, hrest⟩ := List.map_eq_cons_iff.mp hwaiting
      refine ⟨ran ++ [o], rest, ?_, ?_, hrest⟩
      · rw [hsent, hsplit, hnone]
        simp
      · rw [htexts']
        refine List.rel_append htexts (.cons ?_ .nil)
        rw [ho]
        exact hdump

/-- The text written at a position is that of the message posted there. -/
theorem Fifo.exists_sent {lib : JsonLibrary} {s : Rpc} (h : Fifo lib s) {position : ℕ}
    {text : String} (htext : s.client.written[position]? = some text) :
    ∃ o, s.sent[position]? = some o ∧ lib.dump o.message = .ok text := by
  obtain ⟨ran, waiting, hsplit, htexts, -⟩ := h
  obtain ⟨hposition, hget⟩ := List.getElem?_eq_some_iff.mp htext
  have hlength := htexts.length_eq
  have hran : position < ran.length := by
    rw [hlength, Client.texts, List.length_append]
    omega
  have hall : position < s.client.texts.length := hlength ▸ hran
  refine ⟨ran[position], ?_, ?_⟩
  · rw [hsplit, List.getElem?_append_left hran, List.getElem?_eq_getElem hran]
  · have hcarry := htexts.get hran hall
    simpa [Client.texts, List.getElem_append_left hposition, hget] using hcarry

end Rpc

end Protoo
