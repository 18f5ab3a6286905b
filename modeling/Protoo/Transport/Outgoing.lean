import Protoo.Transport.Writable

/-!
# Outgoing messages

A message given to `send` waits as a posted closure in `tasks`, then as a text in
`m_msgQueue`, and is then handed to `lws_write`.  Both queues are first in, first
out, only the closures of `send` and the writable callback touch `m_msgQueue`, and
nothing else takes a closure from `tasks`.  So the texts written, those queued and
the messages still posted are, in a row, the messages given to `send`.
-/

namespace Protoo

open Protoo.Support

/-- The message of a posted `send`. -/
def Task.message {τ : Type} : Task τ → Option Json
  | .send message => some message
  | .schedule _ _ => none
  | .cancel => none

/-- The message that an event gives to `send`. -/
def ServiceEvent.sent {τ : Type} : ServiceEvent τ → Option Json
  | .invoke task => task.message
  | _ => none

theorem Task.message_eq_none {τ : Type} {task : Task τ}
    (h : ∀ message, task ≠ .send message) : task.message = none := by
  cases task with
  | send message => exact absurd rfl (h message)
  | schedule => rfl
  | cancel => rfl

namespace Service

variable {τ : Type} {lib : JsonLibrary} {s t : Service τ} {e : ServiceEvent τ}

/-- The texts written so far and those queued. -/
def texts (s : Service τ) : List String := s.written ++ s.transport.msgQueue

/-- The messages of the sends that have not been run. -/
def posted (s : Service τ) : List Json := s.transport.tasks.filterMap Task.message

/-- The two queues and what has been written of them. -/
structure KeepsQueues (s t : Service τ) : Prop where
  tasks : t.transport.tasks = s.transport.tasks
  msgQueue : t.transport.msgQueue = s.transport.msgQueue
  noMsg : t.transport.noMsg = s.transport.noMsg
  written : t.written = s.written

/-- Only posting, running a closure and writing touch the queues. -/
theorem Steps.keepsQueues (h : Steps lib s e t) (hinvoke : ∀ task, e ≠ .invoke task)
    (hrun : e ≠ .runTask) (hwrite : e ≠ .writeable) : KeepsQueues s t := by
  cases h with
  | invoke task => exact absurd rfl (hinvoke task)
  | runTask => exact absurd rfl hrun
  | writeable => exact absurd rfl hwrite
  | start created hphase =>
      obtain ⟨hasContext, lws, connectionInfo, phase, heq⟩ := s.start_frame created
      rw [heq]
      exact ⟨rfl, rfl, rfl, rfl⟩
  | connect outcome =>
      obtain ⟨lws, connectionInfo, calls, heq⟩ := s.connectClient_frame outcome
      rw [heq]
      exact ⟨rfl, rfl, rfl, rfl⟩
  | receive chunk final handled =>
      obtain ⟨buffer, calls, heq⟩ := receive_frame lib chunk final handled s
      rw [heq]
      exact ⟨rfl, rfl, rfl, rfl⟩
  | loop =>
      obtain ⟨lws, phase, heq⟩ := s.loopTest_frame
      rw [heq]
      exact ⟨rfl, rfl, rfl, rfl⟩
  | _ => exact ⟨rfl, rfl, rfl, rfl⟩

/-- A writable callback takes a text from the queue and writes it, or finds the
queue empty. -/
theorem writeable_queues (s : Service τ) :
    s.writeable.texts = s.texts ∧ s.writeable.posted = s.posted ∧
      (s.writeable.transport.noMsg = true →
        s.transport.noMsg = true ∨ s.writeable.transport.msgQueue = []) := by
  unfold texts posted writeable WebSocketTransport.writeable
  cases hqueue : s.transport.msgQueue with
  | nil => simp [setLws, setTransport, hqueue]
  | cons msg rest =>
      simp only [setLws, setTransport, hqueue, List.append_assoc, List.singleton_append]
      exact ⟨trivial, trivial, Or.inl⟩

/-- What a step does to the messages on their way: it posts at most one, or it
turns the oldest posted message into a text. -/
inductive Flow (lib : JsonLibrary) (s : Service τ) (e : ServiceEvent τ) (t : Service τ) :
    Prop where
  | posts (htexts : t.texts = s.texts) (hposted : t.posted = s.posted ++ e.sent.toList)
  | dumps (message : Json) (text : String) (hsent : e.sent = none)
      (hposted : s.posted = message :: t.posted) (hdump : lib.dump message = .ok text)
      (htexts : t.texts = s.texts ++ [text])

theorem Flow.congr (hsent : e.sent = none) (htexts : t.texts = s.texts)
    (hposted : t.posted = s.posted) : Flow lib s e t := by
  refine .posts htexts ?_
  rw [hposted, hsent, Option.toList_none, List.append_nil]

/-- Running a posted closure: a send turns its message into a text, and the others
leave both queues. -/
theorem flow_runTask {task : Task τ} {rest : List (Task τ)} {t : WebSocketTransport τ}
    (htasks : s.transport.tasks = task :: rest)
    (hrun : ({ s.transport with tasks := rest }).runTask lib task = .ok t) :
    Flow lib s .runTask (s.setTransport t) := by
  rcases WebSocketTransport.runTask_eq_ok hrun with
    ⟨message, text, rfl, hdump, rfl⟩ | ⟨hnosend, closure, sul, rfl⟩
  · refine .dumps message text rfl ?_ hdump (List.append_assoc _ _ _).symm
    unfold posted
    rw [htasks]
    rfl
  · refine .congr rfl rfl ?_
    unfold posted
    rw [htasks, List.filterMap_cons_none (Task.message_eq_none hnosend)]
    rfl

theorem Steps.flow (h : Steps lib s e t) : Flow lib s e t := by
  by_cases hquiet : (∀ task, e ≠ .invoke task) ∧ e ≠ .runTask ∧ e ≠ .writeable
  · obtain ⟨hinvoke, hrun, hwrite⟩ := hquiet
    have hkeeps := h.keepsQueues hinvoke hrun hwrite
    refine .congr ?_ ?_ ?_
    · cases e with
      | invoke task => exact absurd rfl (hinvoke task)
      | _ => rfl
    · rw [texts, hkeeps.written, hkeeps.msgQueue, texts]
    · rw [posted, hkeeps.tasks, posted]
  · cases h with
    | invoke task =>
        refine .posts rfl ?_
        have hlast : [task].filterMap Task.message = task.message.toList := by
          cases hmessage : task.message <;> simp [hmessage]
        exact List.filterMap_append.trans (congrArg (s.posted ++ ·) hlast)
    | runTask task rest t hphase htasks hrun => exact flow_runTask htasks hrun
    | writeable =>
        obtain ⟨htexts, hposted, -⟩ := s.writeable_queues
        exact .congr rfl htexts hposted
    | _ => exact absurd ⟨by simp, by simp, by simp⟩ hquiet

/-- What has been written stays written. -/
theorem Steps.written_mono (h : Steps lib s e t) : s.written <+: t.written := by
  by_cases hquiet : (∀ task, e ≠ .invoke task) ∧ e ≠ .runTask ∧ e ≠ .writeable
  · rw [(h.keepsQueues hquiet.1 hquiet.2.1 hquiet.2.2).written]
  · cases h with
    | invoke | runTask => exact List.prefix_refl _
    | writeable =>
        unfold Service.writeable WebSocketTransport.writeable
        cases hqueue : s.transport.msgQueue with
        | nil => simp [setLws, setTransport, hqueue]
        | cons msg rest => simp [setLws, setTransport, hqueue]
    | _ => exact absurd ⟨by simp, by simp, by simp⟩ hquiet

/-! ## Whole runs -/

/-- The messages given to `send`, in the order in which their closures were
posted. -/
def sentMessages (events : List (ServiceEvent τ)) : List Json :=
  events.filterMap ServiceEvent.sent

/-- The texts written and queued and the dumps of the messages still posted are
the dumps of the messages given to `send`. -/
theorem map_texts_append_posted {events : List (ServiceEvent τ)}
    (hrun : Run (step lib) AnyStep {} events s) :
    s.texts.map Except.ok ++ s.posted.map lib.dump = (sentMessages events).map lib.dump := by
  induction hrun with
  | nil => rfl
  | @snoc events s t e _ _ hstep ih =>
      have hsent : sentMessages (events ++ [e]) = sentMessages events ++ e.sent.toList :=
        filterMap_concat _ _ _
      rw [hsent, List.map_append, ← ih]
      cases (steps_of_step hstep).flow with
      | posts htexts hposted => rw [htexts, hposted, List.map_append, List.append_assoc]
      | dumps message text hnone hposted hdump htexts =>
          rw [hnone, hposted, htexts]
          simp [hdump]

/-- `m_noMsg` tells that the queue is empty. -/
def NoMsgSound (s : Service τ) : Prop := s.transport.noMsg = true → s.transport.msgQueue = []

theorem NoMsgSound.step (h : NoMsgSound s) (hstep : step lib s e = some t) : NoMsgSound t := by
  have hsteps := steps_of_step hstep
  by_cases hquiet : (∀ task, e ≠ .invoke task) ∧ e ≠ .runTask ∧ e ≠ .writeable
  · have hkeeps := hsteps.keepsQueues hquiet.1 hquiet.2.1 hquiet.2.2
    rw [NoMsgSound, hkeeps.noMsg, hkeeps.msgQueue]
    exact h
  · cases hsteps with
    | invoke task => exact h
    | runTask task rest t hphase htasks hrun =>
        rcases WebSocketTransport.runTask_eq_ok hrun with
          ⟨message, text, -, -, rfl⟩ | ⟨-, closure, sul, rfl⟩
        · exact fun hno => Bool.noConfusion hno
        · exact h
    | writeable =>
        intro hno
        rcases s.writeable_queues.2.2 hno with hbefore | hempty
        · have hqueue := h hbefore
          simp [writeable, WebSocketTransport.writeable, setLws, setTransport, hqueue]
        · exact hempty
    | _ => exact absurd ⟨by simp, by simp, by simp⟩ hquiet

/-- In every reachable state the messages given to `send` are the texts written,
then those queued, then the messages still posted, each once and in order, and
`m_noMsg` is set only over an empty queue. -/
theorem outgoing_in_order {events : List (ServiceEvent τ)}
    (hrun : Run (step lib) AnyStep {} events s) :
    (s.written ++ s.transport.msgQueue).map Except.ok ++ s.posted.map lib.dump =
        (sentMessages events).map lib.dump ∧
      (s.transport.noMsg = true → s.transport.msgQueue = []) := by
  refine ⟨map_texts_append_posted hrun, ?_⟩
  exact hrun.invariant (I := NoMsgSound) (fun _ => rfl) fun h _ hstep => h.step hstep

theorem outgoing_in_order_burst :
    ∃ s, Run (step notificationLibrary) AnyStep {} burstRun s ∧
      (s.written ++ s.transport.msgQueue).map Except.ok ++
          s.posted.map notificationLibrary.dump =
        (sentMessages burstRun).map notificationLibrary.dump := by
  have hrun : burstRun.foldlM (step notificationLibrary) ({} : Service ℤ) = some _ := rfl
  exact ⟨_, run_of_foldlM hrun, (outgoing_in_order (run_of_foldlM hrun)).1⟩

end Service

end Protoo
