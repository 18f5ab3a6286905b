import Protoo.Peer.Timeout
import Mathlib.Data.Int.Interval
import Mathlib.Data.Nat.Digits.Defs

/-!
# Ranges of request ids and timeouts

The arithmetic between a drawn digit and the timer: the loop of
`generateRandomNumber`, the timeout that `request` computes from the size of
`m_promises`, and its conversion to microseconds.  `signedResult` tells where an
operation of the machine overflows.

Nothing bounds the size where the timeout is computed.  The bound comes from the
ids, which are the only keys ever entered and are five digits long.
-/

namespace Protoo

open Protoo.Support

/-- The result of an operation on signed integers of the given width; none where it
overflows. -/
def signedResult (width : ℕ) (n : ℤ) : Option ℤ :=
  if -2 ^ (width - 1) ≤ n ∧ n < 2 ^ (width - 1) then some n else none

theorem signedResult_of_nonneg {width : ℕ} {n : ℤ} (hlow : 0 ≤ n)
    (hhigh : n < 2 ^ (width - 1)) : signedResult width n = some n := by
  have hneg : -2 ^ (width - 1) ≤ n := by
    have hpos : (0 : ℤ) ≤ 2 ^ (width - 1) := by positivity
    linarith
  exact if_pos ⟨hneg, hhigh⟩

/-! ## The loop over the digits -/

/-- One iteration; the product and the sum are of type `int`. -/
def nextResult (result : ℤ) (digit : Fin 10) : Option ℤ := do
  let product ← signedResult 32 (result * 10)
  signedResult 32 (product + (digit.val : ℤ))

/-- `generateRandomNumber` as the machine computes it. -/
def generateRandomNumberInt (digits : List (Fin 10)) : Option ℤ :=
  digits.foldlM nextResult 0

theorem nextResult_of_lt {result : ℤ} (digit : Fin 10) (hlow : 0 ≤ result)
    (hhigh : result < 10 ^ 8) :
    nextResult result digit = some (result * 10 + (digit.val : ℤ)) := by
  have hdigit : (digit.val : ℤ) < 10 := by exact_mod_cast digit.isLt
  have hproduct : signedResult 32 (result * 10) = some (result * 10) :=
    signedResult_of_nonneg (by omega) (by omega)
  have hsum : signedResult 32 (result * 10 + (digit.val : ℤ)) =
      some (result * 10 + (digit.val : ℤ)) :=
    signedResult_of_nonneg (by omega) (by omega)
  simp [nextResult, hproduct, hsum]

/-- The invariant of the loop is the range of the digits read so far: with at most
eight of them the next iteration stays in an `int`. -/
theorem generateRandomNumberInt_eq (digits : List (Fin 10)) (h : digits.length ≤ 9) :
    generateRandomNumberInt digits = some (generateRandomNumber digits) := by
  induction digits using List.reverseRecOn with
  | nil => rfl
  | append_singleton digits digit ih =>
      rw [List.length_append, List.length_singleton] at h
      obtain ⟨hlow, hhigh⟩ := generateRandomNumber_range digits
      have hbound : (10 : ℤ) ^ digits.length ≤ 10 ^ 8 :=
        pow_le_pow_right₀ (by norm_num) (by omega)
      have hprevious : digits.foldlM nextResult 0 = some (generateRandomNumber digits) :=
        ih (by omega)
      have hnext := nextResult_of_lt digit hlow (lt_of_lt_of_le hhigh hbound)
      rw [generateRandomNumberInt, List.foldlM_append, hprevious, generateRandomNumber_append]
      simpa using hnext

/-! ## Numbers and their digits -/

theorem generateRandomNumber_eq_ofDigits (digits : List (Fin 10)) :
    generateRandomNumber digits = (Nat.ofDigits 10 (digits.reverse.map Fin.val) : ℕ) := by
  induction digits using List.reverseRecOn with
  | nil => rfl
  | append_singleton digits digit ih =>
      rw [generateRandomNumber_append, ih]
      simp [Nat.ofDigits_cons]
      ring

theorem generateRandomNumber_inj {digits digits' : List (Fin 10)}
    (hlength : digits.length = digits'.length)
    (h : generateRandomNumber digits = generateRandomNumber digits') : digits = digits' := by
  have hdigit : ∀ l : List (Fin 10), ∀ d ∈ l.reverse.map Fin.val, d < 10 := by
    intro l d hd
    obtain ⟨digit, -, rfl⟩ := List.mem_map.mp hd
    exact digit.isLt
  have hvalue : Nat.ofDigits 10 (digits.reverse.map Fin.val) =
      Nat.ofDigits 10 (digits'.reverse.map Fin.val) := by
    rw [generateRandomNumber_eq_ofDigits, generateRandomNumber_eq_ofDigits] at h
    exact_mod_cast h
  have hmap := Nat.ofDigits_inj_of_len_eq (by decide) (by simpa using hlength)
    (hdigit digits) (hdigit digits') hvalue
  exact List.reverse_injective (List.map_injective_iff.mpr Fin.val_injective hmap)

theorem exists_digits (length : ℕ) {n : ℤ} (hlow : 0 ≤ n) (hhigh : n < 10 ^ length) :
    ∃ digits : List (Fin 10), digits.length = length ∧ generateRandomNumber digits = n := by
  induction length generalizing n with
  | zero => exact ⟨[], rfl, by simp [generateRandomNumber]; omega⟩
  | succ length ih =>
      rw [pow_succ] at hhigh
      obtain ⟨digits, hlength, hdigits⟩ := ih (n := n / 10) (by omega) (by omega)
      have hlast : (n % 10).toNat < 10 := by omega
      refine ⟨digits ++ [⟨(n % 10).toNat, hlast⟩], by simp [hlength], ?_⟩
      rw [generateRandomNumber_append, hdigits]
      simp only
      omega

/-- Every number below `10 ^ length` is drawn by exactly one sequence. -/
theorem existsUnique_digits (length : ℕ) {n : ℤ} (hlow : 0 ≤ n) (hhigh : n < 10 ^ length) :
    ∃! digits : List (Fin 10), digits.length = length ∧ generateRandomNumber digits = n := by
  obtain ⟨digits, hlength, hdigits⟩ := exists_digits length hlow hhigh
  refine ⟨digits, ⟨hlength, hdigits⟩, ?_⟩
  rintro digits' ⟨hlength', hdigits'⟩
  exact generateRandomNumber_inj (hlength'.trans hlength.symm) (hdigits'.trans hdigits.symm)

/-! ## Timeouts -/

/-- The most entries the map can have: one for each id. -/
def maxEntries : ℕ := 100000

theorem timeoutMs_eq {size : ℕ} (h : size ≤ maxEntries) :
    timeoutMs size = 225000 + 1500 * (size : ℤ) := by
  have hexact : (15000 * (15 + 1 / 10 * (size : ℚ)) : ℚ) =
      ((225000 + 1500 * (size : ℤ) : ℤ) : ℚ) := by
    push_cast
    ring
  unfold maxEntries at h
  rw [timeoutMs, hexact, Json.truncateToInt]
  simp only [Rat.num_intCast, Rat.den_intCast, Nat.cast_one, Int.tdiv_one]
  exact if_pos ⟨by omega, by omega⟩

theorem timeoutMs_lt {m n : ℕ} (hlt : m < n) (hn : n ≤ maxEntries) :
    timeoutMs m < timeoutMs n := by
  rw [timeoutMs_eq (le_trans hlt.le hn), timeoutMs_eq hn]
  omega

/-- The delay is an `int`, and in microseconds an `lws_usec_t`. -/
def FitsTimer (afterMs : ℤ) : Prop :=
  signedResult 32 afterMs = some afterMs ∧
    signedResult 64 (afterMs * usPerMs) = some (afterMs * usPerMs)

/-- The delay is the timeout for some size that the map can have. -/
def IsTimeout (afterMs : ℤ) : Prop := ∃ size ≤ maxEntries, afterMs = timeoutMs size

theorem IsTimeout.fitsTimer {afterMs : ℤ} (h : IsTimeout afterMs) : FitsTimer afterMs := by
  obtain ⟨size, hsize, rfl⟩ := h
  rw [timeoutMs_eq hsize]
  unfold maxEntries at hsize
  unfold FitsTimer usPerMs
  exact ⟨signedResult_of_nonneg (by omega) (by omega),
    signedResult_of_nonneg (by omega) (by omega)⟩

/-! ## The keys of the map -/

def IdInRange (id : ℤ) : Prop := 0 ≤ id ∧ id ≤ 99999

theorem Draw.number_inRange (draw : Draw) : IdInRange draw.number := by
  obtain ⟨hlow, hhigh⟩ := generateRandomNumber_range draw.val
  rw [draw.property] at hhigh
  exact ⟨hlow, by unfold Draw.number; omega⟩

/-- The keys are ids, and there are no more of them than ids. -/
theorem card_keys_le {promises : Finmap (fun _ : ℤ => ℕ)}
    (h : ∀ id ∈ promises, IdInRange id) : promises.keys.card ≤ maxEntries := by
  have hsubset : promises.keys ⊆ Finset.Icc 0 99999 := by
    intro id hid
    exact Finset.mem_Icc.mpr (h id (Finmap.mem_keys.mp hid))
  calc promises.keys.card ≤ (Finset.Icc (0 : ℤ) 99999).card := Finset.card_le_card hsubset
    _ = maxEntries := by rw [Int.card_Icc]; rfl

namespace Client

/-- The keys are ids, and what is given to the timer, by a call in progress or by a
closure already posted, is a timeout. -/
structure InRange (c : Client) : Prop where
  keys : ∀ id ∈ c.peer.promises, IdInRange id
  requests : ∀ r ∈ c.requests, IsTimeout r.call.timeoutMs
  tasks : ∀ afterMs id, Task.schedule afterMs id ∈ c.peer.transport.tasks → IsTimeout afterMs

/-- A step that enters no id, makes no call and posts no timeout. -/
theorem InRange.mono {c c' : Client} (h : c.InRange)
    (hpromises : ∀ id ∈ c'.peer.promises, id ∈ c.peer.promises)
    (hrequests : ∀ r ∈ c'.requests, r ∈ c.requests)
    (htasks : ∀ afterMs id, Task.schedule afterMs id ∈ c'.peer.transport.tasks →
      Task.schedule afterMs id ∈ c.peer.transport.tasks) : c'.InRange where
  keys id hid := h.keys id (hpromises id hid)
  requests r hr := h.requests r (hrequests r hr)
  tasks afterMs id hmem := h.tasks afterMs id (htasks afterMs id hmem)

theorem inRange_register {c : Client} (h : c.InRange) (held : List ℕ) (draw : Draw)
    (method : String) (data : Json) :
    InRange { c with
      peer := (c.peer.enter draw.number).release held (c.peer.promises.lookup draw.number)
      requests := c.requests ++ [{ call := c.peer.registered draw method data }] } := by
  have hkeys : ∀ id ∈ c.peer.promises.insert draw.number c.peer.states.length,
      IdInRange id := by
    intro id hid
    rcases (Finmap.mem_insert).mp hid with rfl | hold
    · exact draw.number_inRange
    · exact h.keys id hold
  constructor
  · intro id hid
    rw [Peer.release_promises] at hid
    exact hkeys id hid
  · intro r hr
    rcases List.mem_append.mp hr with hold | hnew
    · exact h.requests r hold
    · obtain rfl := List.mem_singleton.mp hnew
      exact ⟨_, card_keys_le hkeys, rfl⟩
  · intro afterMs id hmem
    rw [Peer.release_transport] at hmem
    exact h.tasks afterMs id hmem

theorem inRange_postTimeout {c : Client} (h : c.InRange) {i : ℕ} {call : RequestCall}
    (hcall : c.requests[i]? = some ⟨call, false⟩) :
    InRange { c with
      peer := c.peer.postTimeout call
      requests := c.requests.set i ⟨call, true⟩ } := by
  have htimeout : IsTimeout call.timeoutMs :=
    h.requests ⟨call, false⟩ (List.mem_of_getElem? hcall)
  constructor
  · exact h.keys
  · intro r hr
    rcases List.mem_or_eq_of_mem_set hr with hold | rfl
    · exact h.requests r hold
    · exact htimeout
  · intro afterMs id hmem
    rcases List.mem_append.mp hmem with hold | hnew
    · exact h.tasks afterMs id hold
    · obtain ⟨rfl, rfl⟩ := Task.schedule.inj (List.mem_singleton.mp hnew)
      exact htimeout

/-- The posting of a closure other than the timeout's. -/
theorem schedule_mem_of_invokeTask {t : WebSocketTransport ℤ} {task : Task ℤ}
    (hother : ∀ afterMs id, task ≠ .schedule afterMs id) {afterMs id : ℤ}
    (h : Task.schedule afterMs id ∈ (t.invokeTask task).tasks) :
    Task.schedule afterMs id ∈ t.tasks := by
  rcases List.mem_append.mp h with hold | hnew
  · exact hold
  · exact absurd (List.mem_singleton.mp hnew).symm (hother afterMs id)

theorem InRange.step {lib : JsonLibrary} {c c' : Client} {e : ClientEvent} (h : c.InRange)
    (hstep : step lib c e = some c') : c'.InRange := by
  cases steps_of_step hstep with
  | register draw method data => exact inRange_register h _ draw method data
  | postTimeout i call hcall => exact inRange_postTimeout h hcall
  | postSend i call hcall =>
      apply h.mono
      · intro id hid
        rwa [Peer.promises_returnRequest] at hid
      · intro r hr
        exact List.mem_of_mem_eraseIdx hr
      · intro afterMs id hmem
        rw [Peer.transport_returnRequest] at hmem
        exact schedule_mem_of_invokeTask (by simp) hmem
  | notify | accept | reject | postCancel =>
      exact h.mono (fun id hid => hid) (fun r hr => hr)
        (fun afterMs id hmem => schedule_mem_of_invokeTask (by simp) hmem)
  | receive chunk final handled c' hidle hphase hreceived =>
      cases hreceived with
      | buffered receivedMsg calls =>
          exact h.mono (fun id hid => hid) (fun r hr => hr) (fun afterMs id hmem => hmem)
      | completed message id promise calls =>
          exact h.mono (fun id hid => hid) (fun r hr => hr) (fun afterMs id hmem => hmem)
  | erase id hhandler =>
      refine h.mono ?_ (fun r hr => hr) (fun afterMs id hmem => hmem)
      intro id' hid'
      have hmem : id' ∈ (c.peer.eraseEntry c.held id).promises := hid'
      rw [Peer.promises_eraseEntry, Finmap.mem_erase] at hmem
      exact hmem.2
  | timerIgnored | timeout | destroy =>
      exact h.mono (fun id hid => hid) (fun r hr => hr) (fun afterMs id hmem => hmem)
  | eraseTimedOut id hhandler =>
      refine h.mono ?_ (fun r hr => hr) ?_
      · intro id' hid'
        rw [Peer.promises_eraseEntry, Finmap.mem_erase] at hid'
        exact hid'.2
      · intro afterMs id' hmem
        rwa [Peer.transport_eraseEntry] at hmem
  | service e s hidle hown hservice =>
      exact h.mono (fun id hid => hid) (fun r hr => hr)
        (fun afterMs id hmem => (hservice.tasks_suffix hown).subset hmem)

theorem inRange_of_run {lib : JsonLibrary} {events : List ClientEvent} {c : Client}
    (hrun : Run (step lib) AnyStep {} events c) : c.InRange := by
  refine hrun.invariant ?_ (fun h _ hstep => h.step hstep)
  exact ⟨fun id hid => absurd hid Finmap.notMem_empty, fun r hr => absurd hr List.not_mem_nil,
    fun afterMs id hmem => absurd hmem List.not_mem_nil⟩

/-- Ids and timeouts stay in range.  The loop of `generateRandomNumber` never overflows, its
result has as many digits as were drawn, and no number is drawn in two ways.  So the keys of
the map are ids and are no more than ids, the timeout of a new call is in proportion to
their number, and it fits the type of the argument of `scheduleTask` and, converted where
the posted closure runs, the type of the delay of the timer. -/
theorem ids_and_timeouts_in_range (lib : JsonLibrary) :
    (∀ digits : List (Fin 10), digits.length ≤ 9 →
      generateRandomNumberInt digits = some (generateRandomNumber digits) ∧
        0 ≤ generateRandomNumber digits ∧ generateRandomNumber digits < 10 ^ digits.length) ∧
    (∀ length ≤ 9, ∀ n : ℤ, 0 ≤ n → n < 10 ^ length →
      ∃! digits : List (Fin 10),
        digits.length = length ∧ generateRandomNumberInt digits = some n) ∧
    (∀ m n, m < n → n ≤ 100000 → timeoutMs m < timeoutMs n) ∧
    ∀ events c, Run (step lib) AnyStep {} events c →
      (∀ id ∈ c.peer.promises, 0 ≤ id ∧ id ≤ 99999) ∧
      c.peer.promises.keys.card ≤ 100000 ∧
      (∀ draw method data c', step lib c (.register draw method data) = some c' →
        ∃ call : RequestCall, c'.requests = c.requests ++ [⟨call, false⟩] ∧
          call.timeoutMs = timeoutMs c'.peer.promises.keys.card ∧
          timeoutMs c'.peer.promises.keys.card =
            225000 + 1500 * (c'.peer.promises.keys.card : ℤ) ∧
          FitsTimer call.timeoutMs) ∧
      ∀ afterMs id, Task.schedule afterMs id ∈ c.peer.transport.tasks → FitsTimer afterMs := by
  refine ⟨?_, ?_, fun m n => timeoutMs_lt, ?_⟩
  · intro digits hlength
    exact ⟨generateRandomNumberInt_eq digits hlength, generateRandomNumber_range digits⟩
  · intro length hlength n hlow hhigh
    obtain ⟨digits, ⟨hdigits, hn⟩, hunique⟩ := existsUnique_digits length hlow hhigh
    refine ⟨digits, ⟨hdigits, ?_⟩, ?_⟩
    · rw [generateRandomNumberInt_eq digits (by omega), hn]
    · rintro digits' ⟨hdigits', hn'⟩
      rw [generateRandomNumberInt_eq digits' (by omega)] at hn'
      exact hunique digits' ⟨hdigits', Option.some.inj hn'⟩
  · intro events c hrun
    have h := inRange_of_run hrun
    refine ⟨h.keys, card_keys_le h.keys, ?_,
      fun afterMs id hmem => (h.tasks afterMs id hmem).fitsTimer⟩
    intro draw method data c' hstep
    have h' := h.step hstep
    have hcard := card_keys_le h'.keys
    cases steps_of_step hstep with
    | register draw method data =>
        have htimeout : (c.peer.registered draw method data).timeoutMs =
            timeoutMs ((c.peer.enter draw.number).release c.held
              (c.peer.promises.lookup draw.number)).promises.keys.card := by
          rw [Peer.release_promises]
          rfl
        exact ⟨_, rfl, htimeout, timeoutMs_eq hcard,
          IsTimeout.fitsTimer ⟨_, hcard, htimeout⟩⟩

/-- Nine nines are drawn, `7` is the only digit of its number, and two calls are made. -/
theorem ids_and_timeouts_in_range_twoRequests :
    generateRandomNumberInt (List.replicate 9 9) = some 999999999 ∧
    (∃! digits : List (Fin 10), digits.length = 1 ∧ generateRandomNumberInt digits = some 7) ∧
    timeoutMs 1 < timeoutMs 2 ∧
    ∃ c, Run (step requestLibrary) AnyStep {} twoRequestsRun c ∧
      c.peer.promises.keys.card ≤ 100000 ∧
      ∀ id ∈ c.peer.promises, 0 ≤ id ∧ id ≤ 99999 := by
  obtain ⟨hloop, hdigits, hmono, hruns⟩ := ids_and_timeouts_in_range requestLibrary
  have hrun : twoRequestsRun.foldlM (step requestLibrary) ({} : Client) = some _ := rfl
  obtain ⟨hkeys, hcard, -⟩ := hruns _ _ (run_of_foldlM hrun)
  refine ⟨(hloop (List.replicate 9 9) (by decide)).1,
    hdigits 1 (by decide) 7 (by decide) (by decide), hmono 1 2 (by decide) (by decide),
    _, run_of_foldlM hrun, hcard, hkeys⟩

end Client

end Protoo
