import Protoo.Transport.Service

/-!
# Reassembly of fragmented messages

The library delivers a message in chunks, of which the last is marked as final.
`reassemble` says what the chunks of a whole run amount to: the messages completed so
far and what has been collected of the next one.  The receive callback computes it as
long as every completed text is accepted and handled, wherever the cuts are and whatever
else happens in between.
-/

namespace Protoo

open Protoo.Support

/-- A chunk as it is delivered, of a text frame or of a binary frame.  The callback looks at
the type of the frame only to write a line to the log. -/
structure Chunk where
  text : String
  binary : Bool

/-- The text of consecutive chunks. -/
def joined (chunks : List Chunk) : String :=
  chunks.foldl (fun collected chunk => collected ++ chunk.text) ""

/-- A message cut into chunks.  Any of them but the last may be empty. -/
structure Fragments where
  before : List Chunk
  last : Chunk
  last_ne : last.text ≠ ""

namespace Fragments

def message (fragments : Fragments) : String := joined fragments.before ++ fragments.last.text

/-- The chunks with the result of `lws_is_final_fragment` for each. -/
def deliveries (fragments : Fragments) : List (String × Bool) :=
  fragments.before.map (fun chunk => (chunk.text, false)) ++ [(fragments.last.text, true)]

end Fragments

/-! ## What the chunks amount to -/

/-- One more chunk, after the messages completed and the text collected. -/
def reassembleStep (collected : List String × String) (delivery : String × Bool) :
    List String × String :=
  if delivery.1 = "" then collected
  else if delivery.2 then (collected.1 ++ [collected.2 ++ delivery.1], "")
  else (collected.1, collected.2 ++ delivery.1)

def reassemble (deliveries : List (String × Bool)) : List String × String :=
  deliveries.foldl reassembleStep ([], "")

theorem reassemble_concat (deliveries : List (String × Bool)) (delivery : String × Bool) :
    reassemble (deliveries ++ [delivery]) = reassembleStep (reassemble deliveries) delivery := by
  simp [reassemble]

/-- Chunks that are not final are collected. -/
theorem foldl_reassembleStep_unfinished (chunks : List Chunk) (completed : List String)
    (collected : String) :
    (chunks.map fun chunk => (chunk.text, false)).foldl reassembleStep (completed, collected) =
      (completed, chunks.foldl (fun collected chunk => collected ++ chunk.text) collected) := by
  induction chunks generalizing collected with
  | nil => rfl
  | cons chunk chunks ih =>
      rw [List.map_cons, List.foldl_cons, List.foldl_cons]
      by_cases hempty : chunk.text = ""
      · rw [reassembleStep, if_pos hempty, ih, hempty, String.append_empty]
      · rw [reassembleStep, if_neg hempty]
        exact ih _

/-- The chunks of whole messages give back the messages, and the rest is collected. -/
theorem reassemble_flatMap (messages : List Fragments) (rest : List Chunk) :
    reassemble (messages.flatMap Fragments.deliveries ++
        rest.map fun chunk => (chunk.text, false)) =
      (messages.map Fragments.message, joined rest) := by
  have hmessages : ∀ completed, (messages.flatMap Fragments.deliveries).foldl reassembleStep
      (completed, "") = (completed ++ messages.map Fragments.message, "") := by
    induction messages with
    | nil => simp
    | cons fragments messages ih =>
        intro completed
        have hlast : reassembleStep (completed, joined fragments.before)
            (fragments.last.text, true) = (completed ++ [fragments.message], "") :=
          if_neg fragments.last_ne
        rw [List.flatMap_cons, List.foldl_append, Fragments.deliveries, List.foldl_append,
          foldl_reassembleStep_unfinished]
        change List.foldl reassembleStep
          (reassembleStep (completed, joined fragments.before) (fragments.last.text, true)) _ = _
        rw [hlast, ih, List.map_cons, List.append_assoc, List.singleton_append]
  rw [reassemble, List.foldl_append, hmessages, foldl_reassembleStep_unfinished,
    List.nil_append]
  rfl

/-- A completed message stays completed. -/
theorem reassemble_mono (deliveries : List (String × Bool)) (delivery : String × Bool) :
    (reassemble deliveries).1 <+: (reassemble (deliveries ++ [delivery])).1 := by
  rw [reassemble_concat, reassembleStep]
  split
  · exact List.prefix_refl _
  · split
    · exact List.prefix_append _ _
    · exact List.prefix_refl _

/-! ## What the callback makes of them -/

/-- The chunk that an event delivers. -/
def ServiceEvent.delivery {τ : Type} : ServiceEvent τ → Option (String × Bool)
  | .receive chunk final _ => some (chunk, final)
  | _ => none

/-- The listener's `onMessage` returns. -/
def ServiceEvent.IsHandled {τ : Type} : ServiceEvent τ → Prop
  | .receive _ true handled => handled = .ok ()
  | _ => True

/-- The message that a call hands to the listener. -/
def ListenerCall.message : ListenerCall → Option Json
  | .onMessage message => some message
  | _ => none

namespace Service

variable {τ : Type} {lib : JsonLibrary} {s t : Service τ} {e : ServiceEvent τ}

/-- The messages handed to the listener. -/
def messages (s : Service τ) : List Json := s.calls.filterMap ListenerCall.message

theorem messages_call {call : ListenerCall} (h : call.message = none) (calls : List ListenerCall) :
    (calls ++ [call]).filterMap ListenerCall.message = calls.filterMap ListenerCall.message := by
  rw [filterMap_concat, h]
  exact List.append_nil _

/-- Only a delivered chunk changes the buffer or hands over a message. -/
theorem Steps.messages (h : Steps lib s e t) (he : e.delivery = none) :
    t.messages = s.messages ∧ t.transport.receivedMsg = s.transport.receivedMsg := by
  cases h with
  | receive => exact absurd he (Option.some_ne_none _)
  | start created =>
      obtain ⟨hasContext, lws, connectionInfo, phase, heq⟩ := s.start_frame created
      rw [heq]
      exact ⟨rfl, rfl⟩
  | connect outcome =>
      cases outcome with
      | handle => exact ⟨rfl, rfl⟩
      | null errorDelivered =>
          cases errorDelivered with
          | true => exact ⟨messages_call rfl s.calls, rfl⟩
          | false => exact ⟨rfl, rfl⟩
  | established =>
      refine ⟨messages_call ?_ s.calls, rfl⟩
      unfold WebSocketTransport.establishedCall
      split <;> rfl
  | writeable =>
      obtain ⟨lws, noMsg, msgQueue, written, heq⟩ := s.writeable_frame
      rw [heq]
      exact ⟨rfl, rfl⟩
  | closed => exact ⟨messages_call rfl s.calls, rfl⟩
  | connectionError => exact ⟨messages_call rfl s.calls, rfl⟩
  | runTask task rest t' hphase htasks hrun =>
      rcases WebSocketTransport.runTask_eq_ok hrun with
        ⟨message, msg, -, -, rfl⟩ | ⟨-, closure, sul, rfl⟩
      · exact ⟨rfl, rfl⟩
      · exact ⟨rfl, rfl⟩
  | loop =>
      obtain ⟨lws, phase, heq⟩ := s.loopTest_frame
      rw [heq]
      exact ⟨rfl, rfl⟩
  | _ => exact ⟨rfl, rfl⟩

theorem receive_of_empty (lib : JsonLibrary) {chunk : String} (final : Bool)
    (handled : Except Exception Unit) (s : Service τ) (h : chunk = "") :
    s.receive lib chunk final handled = s := by
  have hchunk : ¬ 0 < chunk.length := by simp [h]
  simp [receive, WebSocketTransport.receive, hchunk, setTransport]

/-- The listener has been given the completed messages, and the buffer holds what has
been collected since. -/
def Collected (lib : JsonLibrary) (collected : List String × String) (s : Service τ) : Prop :=
  s.messages.map .ok = collected.1.map (Message.parse lib) ∧
    s.transport.receivedMsg = collected.2

theorem Collected.receive {collected : List String × String} (h : Collected lib collected s)
    (chunk : String) (final : Bool) {handled : Except Exception Unit}
    (hhandled : final = true → handled = .ok ())
    (hparse : ∀ text ∈ (reassembleStep collected (chunk, final)).1,
      ∃ message, Message.parse lib text = .ok message) :
    Collected lib (reassembleStep collected (chunk, final))
      (s.receive lib chunk final handled) := by
  obtain ⟨hmessages, hbuffer⟩ := h
  by_cases hempty : chunk = ""
  · rw [receive_of_empty lib final handled s hempty, reassembleStep, if_pos hempty]
    exact ⟨hmessages, hbuffer⟩
  · have hchunk : 0 < chunk.length := Nat.pos_of_ne_zero (by simpa using hempty)
    rw [reassembleStep, if_neg hempty] at hparse ⊢
    cases final with
    | false =>
        simp only [Service.receive, WebSocketTransport.receive, hchunk, if_true]
        exact ⟨hmessages, congrArg (· ++ chunk) hbuffer⟩
    | true =>
        obtain ⟨message, hmessage⟩ := hparse (collected.2 ++ chunk) (by simp)
        obtain rfl := hhandled rfl
        simp only [Service.receive, WebSocketTransport.receive, hchunk, if_true, hbuffer, hmessage]
        refine ⟨?_, rfl⟩
        change ((s.calls ++ [ListenerCall.onMessage message]).filterMap _).map Except.ok = _
        rw [filterMap_concat, List.map_append, List.map_append]
        exact congrArg₂ (· ++ ·) hmessages (congrArg (fun parsed => [parsed]) hmessage.symm)

/-- The receive callback reassembles the chunks of a run whose completed texts are
accepted and handled. -/
theorem collected_of_run {events : List (ServiceEvent τ)}
    (hrun : Run (step lib) AnyStep {} events s)
    (hhandled : ∀ e ∈ events, e.IsHandled)
    (hparse : ∀ text ∈ (reassemble (events.filterMap ServiceEvent.delivery)).1,
      ∃ message, Message.parse lib text = .ok message) :
    Collected lib (reassemble (events.filterMap ServiceEvent.delivery)) s := by
  induction hrun with
  | nil => exact ⟨rfl, rfl⟩
  | @snoc events s t e hprev _ hstep ih =>
      have hsteps := steps_of_step hstep
      rw [filterMap_concat] at hparse ⊢
      cases hdelivery : e.delivery with
      | none =>
          rw [hdelivery] at hparse
          rw [Option.toList_none, List.append_nil] at hparse ⊢
          obtain ⟨hmessages, hbuffer⟩ := hsteps.messages hdelivery
          obtain ⟨hsame, hcollected⟩ :=
            ih (fun e he => hhandled e (List.mem_append_left _ he)) hparse
          refine ⟨?_, hbuffer.trans hcollected⟩
          rw [hmessages]
          exact hsame
      | some delivery =>
          rw [hdelivery] at hparse
          rw [Option.toList_some, reassemble_concat] at hparse ⊢
          have hearlier := ih (fun e he => hhandled e (List.mem_append_left _ he))
            fun text htext => hparse text ((reassemble_concat _ _ ▸
              reassemble_mono (events.filterMap ServiceEvent.delivery) delivery).mem htext)
          cases hsteps with
          | receive chunk final handled =>
              obtain rfl := Option.some.inj hdelivery
              refine hearlier.receive chunk final ?_ hparse
              rintro rfl
              exact hhandled _ (List.mem_append_right _ (List.mem_singleton_self _))
          | _ => exact absurd hdelivery.symm (Option.some_ne_none _)

/-- Messages received in chunks are handed to the listener whole, once each and in order,
and nothing of them stays in the buffer, whatever the chunks are. -/
theorem reassembled {events : List (ServiceEvent τ)}
    (hrun : Run (step lib) AnyStep {} events s) {messages : List Fragments} {rest : List Chunk}
    (hdelivered : events.filterMap ServiceEvent.delivery =
      messages.flatMap Fragments.deliveries ++ rest.map fun chunk => (chunk.text, false))
    (hparse : ∀ fragments ∈ messages,
      ∃ message, Message.parse lib fragments.message = .ok message)
    (hhandled : ∀ e ∈ events, e.IsHandled) :
    s.messages.map .ok = messages.map (fun fragments => Message.parse lib fragments.message) ∧
      s.transport.receivedMsg = joined rest := by
  have hall := reassemble_flatMap messages rest
  rw [← hdelivered] at hall
  have hcollected := collected_of_run hrun hhandled (by
    rw [hall]
    intro text htext
    obtain ⟨fragments, hmem, rfl⟩ := List.mem_map.mp htext
    exact hparse fragments hmem)
  rw [hall] at hcollected
  refine ⟨?_, hcollected.2⟩
  rw [hcollected.1, List.map_map]
  rfl

/-- The empty object in three chunks, of which one is empty, and two bytes of the next
message. -/
def cutRun : List (ServiceEvent ℤ) :=
  [.start true, .connect .handle, .established, .receive "\x7b" false (.ok ()),
    .receive "" false (.ok ()), .receive "\x7d" true (.ok ()), .receive "\x7b " false (.ok ())]

def emptyObjectTexts : JsonLibrary := .ofTable [(.object [], "\x7b\x7d")] (by decide)

theorem reassembled_cut :
    ∃ s, Run (step emptyObjectTexts) AnyStep {} cutRun s ∧
      s.messages.map .ok = [Message.parse emptyObjectTexts "\x7b\x7d"] ∧
      s.transport.receivedMsg = "\x7b " := by
  have hrun : cutRun.foldlM (step emptyObjectTexts) ({} : Service ℤ) = some _ := rfl
  refine ⟨_, run_of_foldlM hrun, ?_⟩
  have hdelivered : cutRun.filterMap ServiceEvent.delivery =
      [(⟨[⟨"\x7b", false⟩, ⟨"", true⟩], ⟨"\x7d", true⟩, by decide⟩ : Fragments)].flatMap
        Fragments.deliveries ++
          [(⟨"\x7b ", false⟩ : Chunk)].map fun chunk => (chunk.text, false) := rfl
  apply reassembled (run_of_foldlM hrun) hdelivered
  · intro fragments hmem
    obtain rfl := List.mem_singleton.mp hmem
    exact ⟨_, rfl⟩
  · intro e hmem
    simp only [cutRun, List.mem_cons, List.not_mem_nil, or_false] at hmem
    rcases hmem with rfl | rfl | rfl | rfl | rfl | rfl | rfl <;> simp [ServiceEvent.IsHandled]

end Service

end Protoo
