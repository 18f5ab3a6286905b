import Protoo.Transport.Connection

/-!
# The retry counter and the retries it counts

`retry_count` is declared as the count of consecutive retries, and the back-off table is
read at it.  The retry helpers add one to it on each of the three paths that schedule an
attempt, and nothing takes it back: `CLIENT_ESTABLISHED` leaves it as it is, and a call of
`lws_client_connect_via_info` that fails after `CONNECTION_ERROR` passes two of the paths.

`consecutiveFailures` is what the events of a run amount to for the declaration, and the
number of all failures and losses what they amount to for the counter.  `CountedOnce` is the
exact condition on the events under which the two agree wherever the counter is read.
-/

namespace Protoo

open Protoo.Support

/-- `backoff_ms`. -/
def backoffMs : List ℕ := [1000, 2000, 3000, 4000, 4000]

/-- The delay of a retry before its random part; past the table it is the last entry. -/
def retryDelay (retryCount : ℕ) : ℕ := backoffMs.getD (min retryCount (backoffMs.length - 1)) 0

theorem retryDelay_eq_first_iff {retryCount : ℕ} :
    retryDelay retryCount = retryDelay 0 ↔ retryCount = 0 := by
  rcases Nat.lt_or_ge retryCount 4 with h | h
  · have hsmall : ∀ n < 4, retryDelay n = retryDelay 0 ↔ n = 0 := by decide
    exact hsmall retryCount h
  · have hlast : min retryCount (backoffMs.length - 1) = 4 := Nat.min_eq_right h
    rw [retryDelay, hlast]
    exact iff_of_false (by decide) (by omega)

/-- The failed or lost connections since the last one that was established. -/
def ServiceEvent.failuresAfter {τ : Type} (failures : ℕ) : ServiceEvent τ → ℕ
  | .established => 0
  | .connect (.null _) => failures + 1
  | .connectionError => failures + 1
  | .closed => failures + 1
  | _ => failures

/-- An attempt fails or a connection is lost. -/
def ServiceEvent.isFailure {τ : Type} : ServiceEvent τ → Bool
  | .connect (.null _) | .connectionError | .closed => true
  | _ => false

/-- With `count` failed attempts and lost connections so far: a connection is lost only if
there have been none, and an attempt passes both retry paths only if they fill the counter. -/
def ServiceEvent.CountsOnce {τ : Type} (count : ℕ) : ServiceEvent τ → Prop
  | .closed => count = 0
  | .connect (.null true) => 65534 ≤ count
  | _ => True

theorem ServiceEvent.countsOnce_min_iff {τ : Type} {e : ServiceEvent τ} {count : ℕ} :
    e.CountsOnce (min count 65535) ↔ e.CountsOnce count := by
  unfold CountsOnce
  split
  · omega
  · omega
  · rfl

namespace Service

variable {τ : Type} {lib : JsonLibrary} {s t : Service τ} {e : ServiceEvent τ}

/-- All failed attempts and lost connections. -/
def failures (events : List (ServiceEvent τ)) : ℕ := events.countP ServiceEvent.isFailure

theorem failures_concat (events : List (ServiceEvent τ)) (e : ServiceEvent τ) :
    failures (events ++ [e]) = failures events + if e.isFailure then 1 else 0 := by
  rw [failures, List.countP_append, List.countP_singleton]
  rfl

def consecutiveFailures (events : List (ServiceEvent τ)) : ℕ :=
  events.foldl ServiceEvent.failuresAfter 0

theorem consecutiveFailures_concat (events : List (ServiceEvent τ)) (e : ServiceEvent τ) :
    consecutiveFailures (events ++ [e]) = e.failuresAfter (consecutiveFailures events) := by
  rw [consecutiveFailures, List.foldl_concat]
  rfl

/-- While an attempt is scheduled the counter is the number of consecutive failures. -/
def CounterAgrees (events : List (ServiceEvent τ)) (s : Service τ) : Prop :=
  s.InLoop → s.IsScheduled →
    s.transport.connectionInfo.retryCount = min (consecutiveFailures events) 65535

/-- A loss is retried after the first delay of the table. -/
def LossRetriedFirst (s : Service τ) (e : ServiceEvent τ) (_ : Service τ) : Prop :=
  e = .closed → retryDelay s.transport.connectionInfo.retryCount = retryDelay 0

/-- The counter counts consecutive retries. -/
structure CountsConsecutive (lib : JsonLibrary) (events : List (ServiceEvent τ)) : Prop where
  counter : AllAlong (step lib) {} events CounterAgrees
  delay : Everywhere (step lib) {} events LossRetriedFirst

/-- No connection is lost after a failure or another loss, and no attempt passes both retry
paths unless the counter is full. -/
def CountedOnce (events : List (ServiceEvent τ)) : Prop :=
  Along events fun before e => e.CountsOnce (failures before)

/-! ## The counter and the history -/

/-- The counter agrees with the consecutive failures until a connection is established,
where these start again. -/
structure RetryInv (events : List (ServiceEvent τ)) (s : Service τ) : Prop where
  connection : ConnectionInv s
  starting : s.phase = .starting →
    s.transport.connectionInfo.retryCount = 0 ∧ consecutiveFailures events = 0
  counted : s.InLoop → ¬s.IsEstablished →
    s.transport.connectionInfo.retryCount = min (consecutiveFailures events) 65535
  fresh : s.InLoop → s.IsEstablished → consecutiveFailures events = 0

theorem not_starting_of_inLoop (h : s.InLoop) : s.phase ≠ .starting := by
  rcases h with hphase | hphase <;> simp [hphase]

theorem failuresAfter_of_quiet (hquiet : e.isLifecycle = false) (failures : ℕ) :
    e.failuresAfter failures = failures := by
  cases e with
  | connect | established | closed | connectionError => exact Bool.noConfusion hquiet
  | _ => rfl

theorem isFailure_of_quiet (hquiet : e.isLifecycle = false) : e.isFailure = false := by
  cases e with
  | connect | established | closed | connectionError => exact Bool.noConfusion hquiet
  | _ => rfl

/-- An attempt that fails at once counts once, or twice when it has been reported as well. -/
theorem retryCount_connectClient_null (errorDelivered : Bool) (s : Service τ) :
    (s.connectClient (.null errorDelivered)).transport.connectionInfo.retryCount =
      if errorDelivered then min (min (s.transport.connectionInfo.retryCount + 1) 65535 + 1) 65535
      else min (s.transport.connectionInfo.retryCount + 1) 65535 := by
  cases errorDelivered <;> rfl

theorem retryInv_init : RetryInv [] ({} : Service τ) where
  connection := connectionInv_init
  starting := fun _ => ⟨rfl, rfl⟩
  counted := fun hloop => absurd rfl (not_starting_of_inLoop hloop)
  fresh := fun hloop => absurd rfl (not_starting_of_inLoop hloop)

/-- In the loop and without a connection the counter agrees with the history. -/
theorem RetryInv.of_counted {events : List (ServiceEvent τ)} (hconnection : ConnectionInv s)
    (hloop : s.InLoop) (hnot : ¬s.IsEstablished)
    (hcounted : s.transport.connectionInfo.retryCount =
      min (consecutiveFailures events) 65535) : RetryInv events s where
  connection := hconnection
  starting := fun hphase => absurd hphase (not_starting_of_inLoop hloop)
  counted := fun _ _ => hcounted
  fresh := fun _ hestablished => absurd hestablished hnot

theorem RetryInv.congr {events later : List (ServiceEvent τ)} (h : RetryInv events s)
    (hconnection : ConnectionInv t) (hkeeps : KeepsConnection s t)
    (hsame : consecutiveFailures later = consecutiveFailures events) : RetryInv later t := by
  have hloop : t.InLoop → s.InLoop := by
    unfold InLoop
    rw [hkeeps.phase]
    exact id
  have hestablished : t.IsEstablished ↔ s.IsEstablished := by
    unfold IsEstablished
    rw [hkeeps.connection]
  refine ⟨hconnection, ?_, ?_, ?_⟩
  · rw [hkeeps.phase, hkeeps.connectionInfo, hsame]
    exact h.starting
  · rw [hestablished, hkeeps.connectionInfo, hsame]
    exact fun ht => h.counted (hloop ht)
  · rw [hestablished, hsame]
    exact fun ht => h.fresh (hloop ht)

/-- Leaving the loop test in the loop changes the phase only; past it nothing is claimed. -/
theorem RetryInv.loopTest {events : List (ServiceEvent τ)} (hconnection : ConnectionInv s.loopTest)
    (hcounted : ¬s.IsEstablished →
      s.transport.connectionInfo.retryCount = min (consecutiveFailures events) 65535)
    (hfresh : s.IsEstablished → consecutiveFailures events = 0) :
    RetryInv events s.loopTest := by
  refine ⟨hconnection, ?_, ?_, ?_⟩
  · intro hphase
    rcases s.phase_loopTest_cases with hnext | hnext <;> simp [hnext] at hphase
  all_goals
    unfold Service.loopTest
    split
  · exact fun _ => hcounted
  · rintro (hphase | hphase) <;> exact Phase.noConfusion hphase
  · exact fun _ => hfresh
  · rintro (hphase | hphase) <;> exact Phase.noConfusion hphase

/-- A retry path passed once counts the failure that has led to it. -/
theorem RetryInv.of_retried {events later : List (ServiceEvent τ)} (hconnection : ConnectionInv t)
    (hloop : t.InLoop) (hnot : ¬t.IsEstablished)
    (hcounted : s.transport.connectionInfo.retryCount = min (consecutiveFailures events) 65535)
    (hcount : t.transport.connectionInfo.retryCount =
      min (s.transport.connectionInfo.retryCount + 1) 65535)
    (hfailures : consecutiveFailures later = consecutiveFailures events + 1) :
    RetryInv later t := by
  refine .of_counted hconnection hloop hnot ?_
  rw [hcount, hfailures]
  omega

theorem RetryInv.start {events : List (ServiceEvent τ)} (h : RetryInv events s) {created : Bool}
    (hphase : s.phase = .starting) (hconnection : ConnectionInv (s.start created)) :
    RetryInv (events ++ [.start created]) (s.start created) := by
  obtain ⟨hcount, hzero⟩ := h.starting hphase
  have hsame : consecutiveFailures (events ++ [.start created]) = 0 :=
    (consecutiveFailures_concat _ _).trans hzero
  cases created with
  | true =>
      rw [start_true] at hconnection ⊢
      refine .loopTest hconnection (fun _ => ?_) fun _ => hsame
      rw [hsame]
      exact hcount
  | false =>
      refine ⟨hconnection, fun hphase' => Phase.noConfusion hphase', ?_, ?_⟩
      · rintro (hphase' | hphase') <;> exact Phase.noConfusion hphase'
      · rintro (hphase' | hphase') <;> exact Phase.noConfusion hphase'

theorem not_isEstablished_connectClient_null (hnot : ¬s.IsEstablished) (errorDelivered : Bool) :
    ¬(s.connectClient (.null errorDelivered)).IsEstablished := by
  cases errorDelivered with
  | true => simp [IsEstablished, connectClient, connectionError, setTransport, setLws, call,
      WebSocketTransport.doRetry, WebSocketTransport.retrySulSchedule]
  | false => simpa [IsEstablished, connectClient, setTransport, WebSocketTransport.doRetry,
      WebSocketTransport.retrySulSchedule] using hnot

theorem RetryInv.connect {events : List (ServiceEvent τ)} (h : RetryInv events s)
    {outcome : ConnectOutcome} (hphase : s.phase = .inService)
    (hnone : s.transport.lws.connection = .none)
    (hC : ServiceEvent.CountsOnce s.transport.connectionInfo.retryCount
      (.connect outcome : ServiceEvent τ))
    (hconnection : ConnectionInv (s.connectClient outcome)) :
    RetryInv (events ++ [.connect outcome]) (s.connectClient outcome) := by
  have hfailures := consecutiveFailures_concat events (.connect outcome)
  have hnot : ¬s.IsEstablished := by simp [IsEstablished, hnone]
  have hcounted := h.counted (Or.inl hphase) hnot
  cases outcome with
  | handle =>
      refine .of_counted hconnection (Or.inl hphase) ?_ (hcounted.trans ?_)
      · simp [IsEstablished, connectClient, setTransport]
      · rw [hfailures]
        rfl
  | null errorDelivered =>
      refine .of_retried hconnection ?_ (not_isEstablished_connectClient_null hnot errorDelivered)
        hcounted ?_ hfailures
      · cases errorDelivered <;> exact Or.inl hphase
      · rw [retryCount_connectClient_null]
        cases errorDelivered with
        | true =>
            -- the second path adds nothing to a full counter
            have hfull : 65534 ≤ s.transport.connectionInfo.retryCount := hC
            rw [if_pos rfl]
            omega
        | false => exact if_neg Bool.false_ne_true

theorem RetryInv.step {events : List (ServiceEvent τ)} (h : RetryInv events s)
    (hC : e.CountsOnce s.transport.connectionInfo.retryCount) (hstep : step lib s e = some t) :
    RetryInv (events ++ [e]) t := by
  have hconnection := h.connection.step hstep
  have hsteps := steps_of_step hstep
  have hfailures := consecutiveFailures_concat events e
  by_cases hquiet : e.isLifecycle = false
  · rw [failuresAfter_of_quiet hquiet] at hfailures
    exact h.congr hconnection (hsteps.keepsConnection hquiet) hfailures
  · cases hsteps with
    | start created hphase => exact h.start hphase hconnection
    | connect outcome hphase hsul =>
        exact h.connect hphase ((h.connection.one (Or.inl hphase)).mp hsul) hC hconnection
    | established wsi hphase =>
        refine ⟨hconnection, ?_, ?_, ?_⟩
        · exact fun hphase' => Phase.noConfusion (hphase.symm.trans hphase')
        · exact fun _ hnot => absurd ⟨wsi, rfl⟩ hnot
        · exact fun _ _ => hfailures
    | closed wsi hphase hconn =>
        have hzero : s.transport.connectionInfo.retryCount = 0 := hC
        refine .of_retried (s := s) hconnection (Or.inl hphase) ?_ ?_ rfl hfailures
        · rintro ⟨wsi', hwsi⟩
          exact Connection.noConfusion hwsi
        · rw [hzero, h.fresh (Or.inl hphase) ⟨wsi, hconn⟩]
          rfl
    | connectionError wsi hphase hconn =>
        refine .of_retried (s := s) hconnection (Or.inl hphase) ?_ ?_ rfl hfailures
        · rintro ⟨wsi', hwsi⟩
          exact Connection.noConfusion hwsi
        · exact h.counted (Or.inl hphase) (by simp [IsEstablished, hconn])
    | serviceReturn ret hphase =>
        refine ⟨hconnection, fun hphase' => Phase.noConfusion hphase', ?_, ?_⟩
        · rw [hfailures]
          exact fun _ => h.counted (Or.inl hphase)
        · rw [hfailures]
          exact fun _ => h.fresh (Or.inl hphase)
    | loop hphase =>
        refine .loopTest hconnection ?_ ?_
        · rw [hfailures]
          exact h.counted (Or.inr hphase)
        · rw [hfailures]
          exact h.fresh (Or.inr hphase)
    | _ => exact absurd rfl hquiet

/-- A step after which the counter agrees with the history, and retries a loss first, has
counted once. -/
theorem countsOnce_of_counterAgrees {events : List (ServiceEvent τ)} (h : RetryInv events s)
    (hstep : step lib s e = some t) (ht : CounterAgrees (events ++ [e]) t) :
    e.CountsOnce s.transport.connectionInfo.retryCount := by
  have hfailures := consecutiveFailures_concat events e
  cases steps_of_step hstep with
  | closed wsi hphase hconn =>
      have hagrees := ht (Or.inl hphase) rfl
      rw [hfailures] at hagrees
      change min (s.transport.connectionInfo.retryCount + 1) 65535 =
        min (consecutiveFailures events + 1) 65535 at hagrees
      rw [h.fresh (Or.inl hphase) ⟨wsi, hconn⟩] at hagrees
      change s.transport.connectionInfo.retryCount = 0
      omega
  | connect outcome hphase hsul =>
      cases outcome with
      | handle => trivial
      | null errorDelivered =>
          cases errorDelivered with
          | false => trivial
          | true =>
              have hnone := (h.connection.one (Or.inl hphase)).mp hsul
              have hcounted := h.counted (Or.inl hphase) (by simp [IsEstablished, hnone])
              have hagrees := ht (Or.inl hphase) rfl
              rw [hfailures, retryCount_connectClient_null] at hagrees
              change min (min (s.transport.connectionInfo.retryCount + 1) 65535 + 1) 65535 =
                min (consecutiveFailures events + 1) 65535 at hagrees
              change 65534 ≤ s.transport.connectionInfo.retryCount
              omega
  | _ => trivial

/-! ## The counter and all failures -/

/-- The counter counts every failure and every loss, and nothing takes it back. -/
def CountsAll (events : List (ServiceEvent τ)) (s : Service τ) : Prop :=
  s.transport.connectionInfo.retryCount = min (failures events) 65535

theorem retryCount_start (created : Bool) (s : Service τ) :
    (s.start created).transport.connectionInfo.retryCount =
      s.transport.connectionInfo.retryCount := by
  cases created with
  | true =>
      obtain ⟨lws, phase, heq⟩ := s.start_true_frame
      rw [heq]
  | false => rfl

theorem CountsAll.step {events : List (ServiceEvent τ)} (h : CountsAll events s)
    (hC : e.CountsOnce s.transport.connectionInfo.retryCount) (hstep : step lib s e = some t) :
    CountsAll (events ++ [e]) t := by
  unfold CountsAll at h ⊢
  rw [failures_concat]
  by_cases hquiet : e.isLifecycle = false
  · rw [isFailure_of_quiet hquiet, ((steps_of_step hstep).keepsConnection hquiet).connectionInfo]
    exact h
  · cases steps_of_step hstep with
    | start created => exact (retryCount_start created s).trans h
    | connect outcome =>
        cases outcome with
        | handle => exact h
        | null errorDelivered =>
            rw [retryCount_connectClient_null, ServiceEvent.isFailure, if_pos rfl]
            cases errorDelivered with
            | true =>
                have hfull : 65534 ≤ s.transport.connectionInfo.retryCount := hC
                rw [if_pos rfl]
                omega
            | false =>
                rw [if_neg Bool.false_ne_true]
                omega
    | established => exact h
    | closed | connectionError =>
        change min (s.transport.connectionInfo.retryCount + 1) 65535 = _
        rw [ServiceEvent.isFailure, if_pos rfl]
        omega
    | serviceReturn => exact h
    | loop =>
        obtain ⟨lws, phase, heq⟩ := s.loopTest_frame
        rw [heq]
        exact h
    | _ => exact absurd rfl hquiet

/-- Over a whole run the counter counts consecutive retries exactly when no connection is
lost after a failure or another loss and no attempt is counted twice. -/
theorem countsConsecutive_iff {events : List (ServiceEvent τ)}
    (hrun : Run (step lib) AnyStep {} events s) :
    CountsConsecutive lib events ↔ CountedOnce events := by
  have hkeep : ∀ {events : List (ServiceEvent τ)} {s t e},
      RetryInv events s ∧ CountsAll events s → ServiceEvent.CountsOnce (failures events) e →
        step lib s e = some t → RetryInv (events ++ [e]) t ∧ CountsAll (events ++ [e]) t := by
    rintro events s t e ⟨hinv, hall⟩ hC hstep
    rw [← ServiceEvent.countsOnce_min_iff, ← hall] at hC
    exact ⟨hinv.step hC hstep, hall.step hC hstep⟩
  have hiff : AllAlong (step lib) {} events CounterAgrees ↔ CountedOnce events := by
    apply hrun.allAlong_iff_along (I := fun events s => RetryInv events s ∧ CountsAll events s)
      ⟨retryInv_init, rfl⟩ ?_ hkeep
    · rintro events s t e ⟨hinv, hall⟩ hstep hagrees
      rw [← ServiceEvent.countsOnce_min_iff, ← hall]
      exact countsOnce_of_counterAgrees hinv hstep hagrees
    · rintro events s ⟨hinv, -⟩ hloop hscheduled
      have hnone := (hinv.connection.one hloop).mp hscheduled
      exact hinv.counted hloop (by simp [IsEstablished, hnone])
  constructor
  · exact fun h => hiff.mp h.counter
  · intro hC
    refine ⟨hiff.mpr hC, ?_⟩
    rintro before e s t hb hbefore - rfl
    obtain ⟨hearlier, hnone⟩ := along_concat_iff.mp (hC.mono hb)
    obtain ⟨-, hall⟩ := hbefore.invariant_along hearlier ⟨retryInv_init, rfl⟩ hkeep
    rw [← ServiceEvent.countsOnce_min_iff, ← hall] at hnone
    exact retryDelay_eq_first_iff.mpr hnone

/-- Two connections are established and lost, one after the other. -/
def lostTwiceRun : List (ServiceEvent ℤ) :=
  [.start true, .connect .handle, .established, .closed, .connect .handle, .established, .closed]

theorem countsConsecutive_iff_lostTwice :
    ∃ s, Run (step noTexts) AnyStep {} lostTwiceRun s ∧
      (CountsConsecutive noTexts lostTwiceRun ↔
        CountedOnce lostTwiceRun) := by
  have hrun : lostTwiceRun.foldlM (step noTexts) ({} : Service ℤ) = some _ := rfl
  exact ⟨_, run_of_foldlM hrun, countsConsecutive_iff (run_of_foldlM hrun)⟩

/-- After the second loss the counter is 2, and one connection has been lost since the last
one was established. -/
theorem second_loss_counted_twice : ¬ CountsConsecutive noTexts lostTwiceRun := by
  intro h
  have hrun : lostTwiceRun.foldlM (step noTexts) ({} : Service ℤ) = some _ := rfl
  have hagrees := h.counter _ _ (List.prefix_refl _) (run_of_foldlM hrun) (Or.inl rfl) rfl
  exact absurd hagrees (by decide)

end Service

end Protoo
