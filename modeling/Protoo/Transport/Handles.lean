import Protoo.Transport.Connection
import Protoo.Transport.ReceiveBuffer

/-!
# The handles of the library

The context and every connection are handles: created, alive, destroyed.  The
service thread creates the context and destroys it after the loop, a connection
dies with `CLIENT_CLOSED` or `CONNECTION_ERROR`, and neither end clears the
application's copy of the pointer.  `HandledService` adds to `Service` what a
handle's life needs, and records every call that takes a handle with the status
the handle has at that moment.

`InvokeTask` pushes under the lock and wakes the service thread after it, so a
thread may be between the two at any time: `wakeUps` counts these threads.  The
destructor joins the service thread and then destroys the context it still finds
in `m_context`.
-/

namespace Protoo

open Protoo.Support

/-- What a pointer to a context or a connection stands for. -/
inductive HandleStatus where
  | null
  | notCreated
  | alive
  | destroyed
  deriving Repr, DecidableEq

/-- The calls that take a handle. -/
inductive LwsCall where
  | cancelService
  | sulSchedule
  | service
  | callbackOnWritable
  deriving Repr, DecidableEq

/-- Where the destructor is: before it, waiting for the service thread, or past
its end. -/
inductive DestructorPhase where
  | notCalled
  | joining
  | returned
  deriving Repr, DecidableEq

/-- `context` is the status of the one context the service thread creates. -/
structure HandledService (τ : Type) where
  service : Service τ := {}
  context : HandleStatus := .notCreated
  contextDestroys : ℕ := 0
  wakeUps : ℕ := 0
  destructor : DestructorPhase := .notCalled
  uses : List (LwsCall × HandleStatus) := []

inductive HandleEvent (τ : Type) where
  | service (e : ServiceEvent τ)
  | cancelService
  | destructorReturn

/-- A connection is alive as long as the library works on it. -/
def LwsContext.wsiStatus (lws : LwsContext) (wsi : Wsi) : HandleStatus :=
  if lws.connection = .connecting wsi ∨ lws.connection = .established wsi then .alive
  else if wsi < lws.nextWsi then .destroyed
  else .notCreated

namespace HandledService

variable {τ : Type}

/-- What `m_context` points to. -/
def contextPointer (s : HandledService τ) : HandleStatus :=
  if s.service.transport.hasContext then s.context else .null

def use (call : LwsCall) (status : HandleStatus) (s : HandledService τ) : HandledService τ :=
  { s with uses := s.uses ++ [(call, status)] }

/-! ## The calls of the library -/

def lwsCancelService (s : HandledService τ) : HandledService τ :=
  s.use .cancelService s.contextPointer

def lwsSulSchedule (s : HandledService τ) : HandledService τ :=
  s.use .sulSchedule s.contextPointer

def lwsService (s : HandledService τ) : HandledService τ :=
  s.use .service s.contextPointer

def lwsCallbackOnWritable (wsi : Wsi) (s : HandledService τ) : HandledService τ :=
  s.use .callbackOnWritable (s.service.transport.lws.wsiStatus wsi)

def lwsContextDestroy (s : HandledService τ) : HandledService τ :=
  { s with context := .destroyed, contextDestroys := s.contextDestroys + 1 }

/-! ## The functions that call it -/

/-- After the test of the loop condition: `lws_service`, or the end of the
thread. -/
def afterLoopTest (s : HandledService τ) : HandledService τ :=
  if s.service.phase = .inService then s.lwsService else s.lwsContextDestroy

/-- The closures of `send`, `scheduleTask` and `cancelScheduledTask`. -/
def closure (task : Task τ) (s : HandledService τ) : HandledService τ :=
  match task with
  | .send _ =>
      match s.service.transport.connectionInfo.wsi with
      | some wsi => s.lwsCallbackOnWritable wsi
      | none => s
  | .schedule _ _ => if s.service.transport.hasContext then s.lwsSulSchedule else s
  | .cancel => s

/-- The oldest posted closure. -/
def posted (s : HandledService τ) : HandledService τ :=
  match s.service.transport.tasks with
  | task :: _ => s.closure task
  | [] => s

/-- What a step to `t` does with the handles. -/
def follow (s : HandledService τ) (t : Service τ) : ServiceEvent τ → HandledService τ
  | .invoke _ => { s with service := t, wakeUps := s.wakeUps + 1 }
  | .destroy => { s with service := t, destructor := .joining }
  | .start true =>
      let s := { s with service := t, context := .alive }
      s.lwsSulSchedule.afterLoopTest
  | .runTask => { s.posted with service := t }
  | .loop => { s with service := t }.afterLoopTest
  | _ => { s with service := t }

/-- `~WebSocketTransport` after the join. -/
def destructorReturn (s : HandledService τ) : HandledService τ :=
  let s := if s.service.transport.hasContext then s.lwsContextDestroy else s
  { s with
    service := s.service.setTransport { s.service.transport with hasContext := false }
    destructor := .returned }

/-- The service thread has ended, so the join returns. -/
def Joinable (s : HandledService τ) : Prop :=
  s.service.phase = .exited ∨ s.service.phase = .initFailed

instance (s : HandledService τ) : Decidable s.Joinable := inferInstanceAs (Decidable (_ ∨ _))

/-- The destructor is called once. -/
def Permits (s : HandledService τ) : ServiceEvent τ → Bool
  | .destroy => s.destructor = .notCalled
  | _ => s.destructor ≠ .returned

/-- One event; nothing happens after the destructor has returned. -/
def step (lib : JsonLibrary) (s : HandledService τ) :
    HandleEvent τ → Option (HandledService τ)
  | .service e =>
      if s.Permits e then (Service.step lib s.service e).map fun t => s.follow t e else none
  | .cancelService =>
      if s.destructor ≠ .returned ∧ 0 < s.wakeUps then
        some { s.lwsCancelService with wakeUps := s.wakeUps - 1 }
      else none
  | .destructorReturn =>
      if s.destructor = .joining ∧ s.Joinable then some s.destructorReturn else none

/-! ## What a step can do -/

inductive Steps (lib : JsonLibrary) (s : HandledService τ) :
    HandleEvent τ → HandledService τ → Prop where
  | service (e : ServiceEvent τ) (t : Service τ) (hpermits : s.Permits e = true)
      (hstep : Service.step lib s.service e = some t) :
      Steps lib s (.service e) (s.follow t e)
  | cancelService (hdestructor : s.destructor ≠ .returned) (hwakeUps : 0 < s.wakeUps) :
      Steps lib s .cancelService { s.lwsCancelService with wakeUps := s.wakeUps - 1 }
  | destructorReturn (hdestructor : s.destructor = .joining) (hjoinable : s.Joinable) :
      Steps lib s .destructorReturn s.destructorReturn

theorem steps_of_step {lib : JsonLibrary} {s t : HandledService τ} {e : HandleEvent τ}
    (h : step lib s e = some t) : Steps lib s e t := by
  cases e with
  | service e =>
      simp only [step, Option.ite_none_right_eq_some, Option.map_eq_some_iff] at h
      obtain ⟨hpermits, t', hstep, rfl⟩ := h
      exact .service e t' hpermits hstep
  | cancelService =>
      simp only [step, Option.ite_none_right_eq_some, Option.some.injEq] at h
      exact h.2 ▸ .cancelService h.1.1 h.1.2
  | destructorReturn =>
      simp only [step, Option.ite_none_right_eq_some, Option.some.injEq] at h
      exact h.2 ▸ .destructorReturn h.1.1 h.1.2

/-! ## The life of the handles -/

/-- No call gets a dead handle, and once the destructor has returned the context has
been destroyed once. -/
structure HandlesSound (s : HandledService τ) : Prop where
  alive : ∀ use ∈ s.uses, use.2 = .alive
  destroyedOnce : s.destructor = .returned → s.context ≠ .notCreated → s.contextDestroys = 1

/-- By the position of the service thread: whether `m_context` is set, the status of
the context, and how often it has been destroyed. -/
def contextIn : Phase → Bool × HandleStatus × ℕ
  | .starting => (false, .notCreated, 0)
  | .inService => (true, .alive, 0)
  | .draining => (true, .alive, 0)
  | .exited => (true, .destroyed, 1)
  | .initFailed => (false, .notCreated, 0)

/-- The context lives while the service thread is in its loop. -/
def ContextLife (s : HandledService τ) : Prop :=
  (s.service.transport.hasContext, s.context, s.contextDestroys) = contextIn s.service.phase

/-- A thread wakes the service thread only while that is in its loop, a posted send
is run only with a stored handle whose attempt or connection has not ended, and the
destructor returns only when no context was created. -/
def UsesInTime (s : HandledService τ) : HandleEvent τ → Prop
  | .cancelService => s.service.InLoop
  | .service .runTask =>
      (∃ message rest, s.service.transport.tasks = .send message :: rest) →
        s.service.transport.connectionInfo.wsi = none ∨
          s.service.transport.lws.connection ≠ .none
  | .destructorReturn => s.service.transport.hasContext = false
  | _ => True

/-- The invariant: the handles' lives follow the phases, the stored handle is current,
and nothing dead has been used. -/
structure HandleInv (s : HandledService τ) : Prop where
  connection : s.service.ConnectionInv
  stored : s.service.StoredHandle
  life : s.destructor ≠ .returned → s.ContextLife
  sound : s.HandlesSound

variable {lib : JsonLibrary} {s t : HandledService τ} {e : HandleEvent τ}

theorem handleInv_init : HandleInv ({} : HandledService τ) where
  connection := Service.connectionInv_init
  stored := Service.storedHandle_of_connection rfl
  life := fun _ => rfl
  sound := ⟨by simp, fun hreturned => DestructorPhase.noConfusion hreturned⟩

/-- The context's life does not change inside the loop. -/
theorem ContextLife.congr (h : s.ContextLife)
    (hphase : t.service.phase = s.service.phase ∨
      (s.service.phase = .inService ∧ t.service.phase = .draining))
    (hcontext : t.service.transport.hasContext = s.service.transport.hasContext)
    (hstatus : t.context = s.context) (hdestroys : t.contextDestroys = s.contextDestroys) :
    t.ContextLife := by
  unfold ContextLife at h ⊢
  rw [hcontext, hstatus, hdestroys, h]
  rcases hphase with hsame | ⟨hservice, hdraining⟩
  · rw [hsame]
  · rw [hservice, hdraining]
    rfl

/-- In the loop `m_context` points to the living context. -/
theorem ContextLife.alive_iff (h : s.ContextLife) :
    s.contextPointer = .alive ↔ s.service.InLoop := by
  unfold contextPointer Service.InLoop
  unfold ContextLife at h
  cases hphase : s.service.phase with
  | starting | inService | draining | exited | initFailed =>
      rw [hphase] at h
      obtain ⟨hcontext, hstatus, -⟩ := Prod.mk.inj h |>.imp_right Prod.mk.inj
      simp [hcontext, hstatus]

/-- Until the destructor returns only the calls matter. -/
theorem handlesSound_of_uses (hdestructor : t.destructor ≠ .returned)
    (halive : ∀ use ∈ t.uses, use.2 = .alive) : t.HandlesSound :=
  ⟨halive, fun hreturned => absurd hreturned hdestructor⟩

theorem alive_use (h : ∀ use ∈ s.uses, use.2 = .alive) {call : LwsCall}
    {status : HandleStatus} (halive : status = .alive) :
    ∀ use ∈ (s.use call status).uses, use.2 = .alive := by
  intro use hmem
  rcases List.mem_append.mp hmem with hold | hnew
  · exact h use hold
  · rw [List.mem_singleton.mp hnew]
    exact halive

/-! ### Steps of the service thread -/

/-- Testing the loop condition with a living context goes on with it, or destroys
it. -/
theorem afterLoopTest_inv (hcontext : s.service.transport.hasContext = true)
    (hstatus : s.context = .alive) (hdestroys : s.contextDestroys = 0)
    (hphase : s.service.phase = .inService ∨ s.service.phase = .exited)
    (halive : ∀ use ∈ s.uses, use.2 = .alive) :
    s.afterLoopTest.ContextLife ∧ ∀ use ∈ s.afterLoopTest.uses, use.2 = .alive := by
  unfold afterLoopTest
  rcases hphase with hservice | hexited
  · rw [if_pos hservice]
    constructor
    · simp [ContextLife, contextIn, lwsService, use, hservice, hcontext, hstatus, hdestroys]
    · apply alive_use halive
      simp [contextPointer, hcontext, hstatus]
  · rw [if_neg (by simp [hexited])]
    constructor
    · simp [ContextLife, contextIn, lwsContextDestroy, hexited, hcontext, hdestroys]
    · exact halive

/-- A closure runs in the loop: its calls get the living context, or the handle of the
attempt or connection there is. -/
theorem closure_inv {task : Task τ} (hlife : s.ContextLife) (hloop : s.service.InLoop)
    (hstored : s.service.StoredHandle) (halive : ∀ use ∈ s.uses, use.2 = .alive)
    (hsend : (∃ message, task = .send message) → s.service.transport.connectionInfo.wsi = none ∨
      s.service.transport.lws.connection ≠ .none) :
    ∀ use ∈ (s.closure task).uses, use.2 = .alive := by
  cases task with
  | send message =>
      unfold closure
      cases hwsi : s.service.transport.connectionInfo.wsi with
      | none => exact halive
      | some wsi =>
          apply alive_use halive
          rcases hsend ⟨message, rfl⟩ with hnone | hconn
          · simp [hwsi] at hnone
          · apply if_pos
            cases hconnection : s.service.transport.lws.connection with
            | none => exact absurd hconnection hconn
            | connecting wsi' =>
                have hsame := hstored wsi' (Or.inl hconnection)
                rw [hwsi, Option.some.injEq] at hsame
                exact Or.inl (congrArg Connection.connecting hsame.symm)
            | established wsi' =>
                have hsame := hstored wsi' (Or.inr hconnection)
                rw [hwsi, Option.some.injEq] at hsame
                exact Or.inr (congrArg Connection.established hsame.symm)
  | schedule afterMs task =>
      simp only [closure]
      split
      · exact alive_use halive (hlife.alive_iff.mpr hloop)
      · exact halive
  | cancel => exact halive

theorem closure_frame (task : Task τ) (s : HandledService τ) :
    ∃ uses, s.closure task = { s with uses } := by
  cases task with
  | send message =>
      simp only [closure]
      split
      · exact ⟨_, rfl⟩
      · exact ⟨s.uses, rfl⟩
  | schedule afterMs task =>
      simp only [closure]
      split
      · exact ⟨_, rfl⟩
      · exact ⟨s.uses, rfl⟩
  | cancel => exact ⟨s.uses, rfl⟩

theorem posted_frame (s : HandledService τ) : ∃ uses, s.posted = { s with uses } := by
  unfold posted
  cases htasks : s.service.transport.tasks with
  | nil => exact ⟨s.uses, rfl⟩
  | cons task rest => exact closure_frame task s

theorem afterLoopTest_frame (s : HandledService τ) :
    ∃ context contextDestroys uses,
      s.afterLoopTest = { s with context, contextDestroys, uses } := by
  unfold afterLoopTest
  split
  · exact ⟨_, _, _, rfl⟩
  · exact ⟨_, _, _, rfl⟩

/-- Following a step leads to its state, and does not end the destructor. -/
theorem follow_frame (s : HandledService τ) (t : Service τ) (e : ServiceEvent τ) :
    (s.follow t e).service = t ∧
      ((s.follow t e).destructor = s.destructor ∨ (s.follow t e).destructor = .joining) := by
  cases e with
  | destroy => exact ⟨rfl, Or.inr rfl⟩
  | start created =>
      cases created with
      | true =>
          obtain ⟨context, contextDestroys, uses, heq⟩ := afterLoopTest_frame
            ({ s with service := t, context := .alive } : HandledService τ).lwsSulSchedule
          change (afterLoopTest _).service = t ∧
            ((afterLoopTest _).destructor = _ ∨ (afterLoopTest _).destructor = _)
          rw [heq]
          exact ⟨rfl, Or.inl rfl⟩
      | false => exact ⟨rfl, Or.inl rfl⟩
  | runTask =>
      obtain ⟨uses, heq⟩ := s.posted_frame
      refine ⟨rfl, Or.inl ?_⟩
      change s.posted.destructor = s.destructor
      rw [heq]
  | loop =>
      obtain ⟨context, contextDestroys, uses, heq⟩ :=
        afterLoopTest_frame ({ s with service := t } : HandledService τ)
      change (afterLoopTest _).service = t ∧
        ((afterLoopTest _).destructor = _ ∨ (afterLoopTest _).destructor = _)
      rw [heq]
      exact ⟨rfl, Or.inl rfl⟩
  | _ => exact ⟨rfl, Or.inl rfl⟩

theorem destructor_ne_of_permits {e : ServiceEvent τ} (h : s.Permits e = true) :
    s.destructor ≠ .returned := by
  intro hreturned
  cases e <;> simp [Permits, hreturned] at h

/-- What a step of the service thread does with the context. -/
theorem follow_inv {e : ServiceEvent τ} {t : Service τ} (h : HandleInv s)
    (hlife : s.ContextLife) (hsteps : Service.Steps lib s.service e t)
    (hC : s.UsesInTime (.service e)) :
    (s.follow t e).ContextLife ∧ ∀ use ∈ (s.follow t e).uses, use.2 = .alive := by
  have halive := h.sound.alive
  have hparts := Prod.mk.inj hlife
  have hstays := hsteps.stays
  cases hsteps with
  | start created hphase =>
      rw [hphase] at hparts
      obtain ⟨hcontext, hstatus, hdestroys⟩ := hparts.imp_right Prod.mk.inj
      cases created with
      | true =>
          have hcreated : (s.service.start true).transport.hasContext = true := by
            obtain ⟨lws, phase, heq⟩ := s.service.start_true_frame
            rw [heq]
          refine afterLoopTest_inv hcreated rfl hdestroys (Service.phase_loopTest_cases _) ?_
          exact alive_use halive (if_pos hcreated)
      | false =>
          refine ⟨?_, halive⟩
          change (s.service.transport.hasContext, s.context, s.contextDestroys) = _
          rw [hcontext, hstatus, hdestroys]
          rfl
  | loop hphase =>
      rw [hphase] at hparts
      obtain ⟨hcontext, hstatus, hdestroys⟩ := hparts.imp_right Prod.mk.inj
      refine afterLoopTest_inv ?_ hstatus hdestroys (Service.phase_loopTest_cases _) halive
      obtain ⟨lws, phase, heq⟩ := s.service.loopTest_frame
      change s.service.loopTest.transport.hasContext = true
      rw [heq]
      exact hcontext
  | runTask task rest t' hphase htasks hrun =>
      obtain ⟨hstays, hcontext⟩ := hstays (by simp) (by simp)
      constructor
      · obtain ⟨uses, heq⟩ := s.posted_frame
        simp only [follow, heq]
        exact hlife.congr hstays hcontext rfl rfl
      · have hposted : s.posted = s.closure task := by simp only [posted, htasks]
        simp only [follow, hposted]
        apply closure_inv hlife (Or.inr hphase) h.stored halive
        rintro ⟨message, rfl⟩
        exact hC ⟨message, rest, htasks⟩
  | _ =>
      obtain ⟨hphase, hcontext⟩ := hstays (by simp) (by simp)
      exact ⟨hlife.congr hphase hcontext rfl rfl, halive⟩

/-- Every step that meets the condition keeps the invariant. -/
theorem HandleInv.step (h : HandleInv s) (hC : s.UsesInTime e) (hstep : step lib s e = some t) :
    HandleInv t := by
  cases steps_of_step hstep with
  | service e t hpermits hnext =>
      have hdestructor := destructor_ne_of_permits hpermits
      obtain ⟨hservice, hkeep⟩ := follow_frame s t e
      obtain ⟨hlife, halive⟩ :=
        follow_inv h (h.life hdestructor) (Service.steps_of_step hnext) hC
      have hdestructor' : (s.follow t e).destructor ≠ .returned := by
        rcases hkeep with hsame | hjoining
        · rwa [hsame]
        · simp [hjoining]
      refine ⟨?_, ?_, fun _ => hlife, handlesSound_of_uses hdestructor' halive⟩
      · rw [hservice]
        exact h.connection.step hnext
      · rw [hservice]
        exact h.stored.step h.connection hnext
  | cancelService hdestructor hwakeUps =>
      have hlife := h.life hdestructor
      refine ⟨h.connection, h.stored, fun _ => hlife, handlesSound_of_uses hdestructor ?_⟩
      exact alive_use h.sound.alive (hlife.alive_iff.mpr hC)
  | destructorReturn hdestructor hjoinable =>
      have hcontext : s.service.transport.hasContext = false := hC
      have hlife := h.life (by simp [hdestructor])
      have hnone : s.context = .notCreated := by
        obtain ⟨hpointer, hstatus⟩ := Prod.mk.inj hlife |>.imp_right Prod.mk.inj
        rcases hjoinable with hexited | hfailed
        · rw [hexited, hcontext] at hpointer
          exact Bool.noConfusion hpointer
        · rw [hfailed] at hstatus
          exact hstatus.1
      have hreturn : s.destructorReturn = { s with
          service := s.service.setTransport { s.service.transport with hasContext := false }
          destructor := .returned } := by
        unfold destructorReturn
        rw [hcontext]
        rfl
      rw [hreturn]
      exact ⟨⟨h.connection.fresh, h.connection.one⟩, h.stored,
        fun hnot => absurd rfl hnot, h.sound.alive, fun _ hcreated => absurd hnone hcreated⟩

/-- A step after which nothing dead has been used met the condition. -/
theorem usesInTime_of_sound (h : HandleInv s) (hstep : step lib s e = some t)
    (ht : t.HandlesSound) : s.UsesInTime e := by
  cases steps_of_step hstep with
  | service e t hpermits hnext =>
      have hlife := h.life (destructor_ne_of_permits hpermits)
      cases Service.steps_of_step hnext with
      | runTask task rest t' hphase htasks hrun =>
          rintro ⟨message, rest', htasks'⟩
          by_contra hnot
          simp only [not_or, not_not] at hnot
          obtain ⟨hwsi, hnone⟩ := hnot
          obtain ⟨wsi, hwsi⟩ := Option.ne_none_iff_exists'.mp hwsi
          have halive := ht.alive (.callbackOnWritable, s.service.transport.lws.wsiStatus wsi) (by
            simp [follow, posted, htasks', closure, hwsi, lwsCallbackOnWritable, use])
          simp only [LwsContext.wsiStatus, hnone] at halive
          split at halive
          next hcurrent => simp at hcurrent
          next => split at halive <;> exact HandleStatus.noConfusion halive
      | _ => trivial
  | cancelService hdestructor hwakeUps =>
      have hlife := h.life hdestructor
      apply hlife.alive_iff.mp
      exact ht.alive (.cancelService, s.contextPointer)
        (List.mem_append_right _ (List.mem_singleton_self _))
  | destructorReturn hdestructor hjoinable =>
      have hlife := h.life (by simp [hdestructor])
      by_contra hcontext
      have hset : s.service.transport.hasContext = true := by simpa [UsesInTime] using hcontext
      obtain ⟨hpointer, hstatus⟩ := Prod.mk.inj hlife |>.imp_right Prod.mk.inj
      rcases hjoinable with hexited | hfailed
      · rw [hexited] at hstatus
        have hreturn : s.destructorReturn.context = .destroyed ∧
            s.destructorReturn.contextDestroys = 2 := by
          simp [destructorReturn, hset, lwsContextDestroy, hstatus.2]
        have hcreated : s.destructorReturn.context ≠ .notCreated := by simp [hreturn.1]
        have honce := ht.destroyedOnce rfl hcreated
        rw [hreturn.2] at honce
        exact absurd honce (by decide)
      · rw [hfailed, hset] at hpointer
        exact Bool.noConfusion hpointer

/-- Over a whole run no dead handle is used, and the context is destroyed once, exactly
when every step meets the condition. -/
theorem handlesSound_iff {events : List (HandleEvent τ)}
    (hrun : Run (step lib) AnyStep {} events s) :
    Throughout (step lib) {} events HandlesSound ↔ Run (step lib) UsesInTime {} events s :=
  hrun.throughout_iff (I := HandleInv) handleInv_init HandleInv.sound HandleInv.step
    usesInTime_of_sound

/-- A transport that gets a context and is destroyed without ever connecting. -/
def lifetimeRun : List (HandleEvent ℤ) :=
  [.service (.start true), .service .destroy, .service (.serviceReturn 0), .service .loop,
    .destructorReturn]

theorem handlesSound_iff_lifetime :
    ∃ s, Run (step Service.noTexts) AnyStep {} lifetimeRun s ∧
      (Throughout (step Service.noTexts) {} lifetimeRun HandlesSound ↔
        Run (step Service.noTexts) UsesInTime {} lifetimeRun s) := by
  have hrun : lifetimeRun.foldlM (step Service.noTexts) ({} : HandledService ℤ) = some _ := rfl
  exact ⟨_, run_of_foldlM hrun, handlesSound_iff (run_of_foldlM hrun)⟩

/-- The service thread destroys the context after the loop and the destructor does so
again. -/
theorem context_destroyed_twice :
    ∃ s, Run (step Service.noTexts) AnyStep {} lifetimeRun s ∧ s.destructor = .returned ∧
      s.contextDestroys = 2 ∧
      ¬Throughout (step Service.noTexts) ({} : HandledService ℤ) lifetimeRun HandlesSound := by
  have hrun : lifetimeRun.foldlM (step Service.noTexts) ({} : HandledService ℤ) = some _ := rfl
  refine ⟨_, run_of_foldlM hrun, rfl, rfl, ?_⟩
  intro h
  have honce := (h.of_run (run_of_foldlM hrun)).destroyedOnce rfl HandleStatus.noConfusion
  exact absurd honce (by decide)

end HandledService

end Protoo
