import Imy.Lib.Lists
set_option autoImplicit false

/-!
`CircuitBreaker` of `pkg/storage/performance_optimizer.go`, called by one caller after
another.
-/

namespace Imy.Optimizer
open Imy.Lib

inductive BreakerState where
  | closed
  | opened
  | halfOpen
  deriving DecidableEq, Repr

structure Executed where
  success : Bool
  time : Int
  deriving DecidableEq, Repr

/-- `executed` is not in the source: the executed calls, the latest one first. -/
structure CircuitBreaker where
  failureCount : Nat
  threshold : Nat
  timeout : Int
  lastFailTime : Int
  state : BreakerState
  executed : List Executed
  deriving DecidableEq, Repr

def newCircuitBreaker (threshold : Nat) (timeout : Int) : CircuitBreaker where
  failureCount := 0
  threshold := threshold
  timeout := timeout
  lastFailTime := 0
  state := .closed
  executed := []

/-- A `Call` that asks at `now`, and whose function, if it is executed, is done at `done`. -/
structure BreakerCall where
  now : Int
  success : Bool
  done : Int
  deriving DecidableEq, Repr

namespace CircuitBreaker

def allowRequest (cb : CircuitBreaker) (now : Int) : Bool :=
  match cb.state with
  | .closed => true
  | .opened => now-cb.lastFailTime > cb.timeout
  | .halfOpen => true

def recordResult (cb : CircuitBreaker) (success : Bool) (now : Int) : CircuitBreaker :=
  if success then
    { cb with
      failureCount := 0
      state := if cb.state = .halfOpen then .closed else cb.state
      executed := ⟨success,now⟩ :: cb.executed }
  else
    { cb with
      failureCount := cb.failureCount+1
      lastFailTime := now
      state := if cb.failureCount+1 ≥ cb.threshold then .opened else cb.state
      executed := ⟨success,now⟩ :: cb.executed }

/-- The call is answered with `ErrCircuitBreakerOpen`. -/
def Rejects (cb : CircuitBreaker) (c : BreakerCall) : Prop := cb.allowRequest c.now = false

instance (cb : CircuitBreaker) (c : BreakerCall) : Decidable (cb.Rejects c) :=
  instDecidableEqBool _ _

def call (cb : CircuitBreaker) (c : BreakerCall) : CircuitBreaker :=
  if cb.Rejects c then cb else cb.recordResult c.success c.done

def run (cb : CircuitBreaker) (calls : List BreakerCall) : CircuitBreaker := calls.foldl call cb

/-- The last executed calls, as many as the threshold, all failed, and at most the timeout
has passed since the latest failure. -/
def Justified (cb : CircuitBreaker) (now : Int) : Prop :=
  (cb.threshold ≤ cb.executed.length ∧ ∀ e ∈ cb.executed.take cb.threshold, e.success = false) ∧
    ∃ e, cb.executed.find? (fun e => !e.success) = some e ∧ now-e.time ≤ cb.timeout

/-- The breaker is open although a call has succeeded since and fewer calls have failed
after that than the threshold. -/
def Stale (cb : CircuitBreaker) : Prop := cb.state = .opened ∧ cb.failureCount < cb.threshold

end CircuitBreaker

section History
variable {cb : CircuitBreaker} {calls : List BreakerCall}

theorem le_length_takeWhile_iff {α : Type} {p : α → Bool} (xs : List α) (n : Nat) :
    n ≤ (xs.takeWhile p).length ↔ n ≤ xs.length ∧ ∀ x ∈ xs.take n, p x = true := by
  induction xs generalizing n with
  | nil => simp
  | cons x xs ih =>
    cases n with
    | zero => simp
    | succ n =>
      cases hx : p x with
      | false => simp [hx]
      | true =>
        have hrest := ih n
        simp only [List.takeWhile_cons,hx,if_true,List.length_cons,
          List.take_succ_cons,List.mem_cons,
          forall_eq_or_imp,true_and,Nat.add_le_add_iff_right]
        exact hrest

/-- The counter and the time say what the executed calls were. -/
structure Told (cb : CircuitBreaker) : Prop where
  count : cb.failureCount = (cb.executed.takeWhile fun e => !e.success).length
  last : ∀ e, cb.executed.find? (fun e => !e.success) = some e → cb.lastFailTime = e.time
  opened : cb.state = .opened → (cb.executed.find? fun e => !e.success).isSome
  whole : cb.state ≠ .halfOpen

theorem told_new (threshold : Nat) (timeout : Int) :
    Told (newCircuitBreaker threshold timeout) where
  count := rfl
  last e he := by simp [newCircuitBreaker] at he
  opened h := by simp [newCircuitBreaker] at h
  whole := by simp [newCircuitBreaker]

theorem Told.recordResult (h : Told cb) (success : Bool) (now : Int) :
    Told (cb.recordResult success now) := by
  cases success with
  | true =>
    refine ⟨rfl,?_,?_,?_⟩
    · simpa [CircuitBreaker.recordResult] using h.last
    · simpa [CircuitBreaker.recordResult,h.whole] using h.opened
    · simp [CircuitBreaker.recordResult,h.whole]
  | false =>
    refine ⟨?_,?_,?_,?_⟩
    · simp [CircuitBreaker.recordResult,h.count]
    · simp [CircuitBreaker.recordResult]
    · simp [CircuitBreaker.recordResult]
    · simp only [CircuitBreaker.recordResult,Bool.false_eq_true,if_false]
      split
      · simp
      · exact h.whole

theorem Told.call (h : Told cb) (c : BreakerCall) : Told (cb.call c) := by
  rw [CircuitBreaker.call]
  split
  · exact h
  · exact h.recordResult _ _

theorem Told.run (h : Told cb) (calls : List BreakerCall) : Told (cb.run calls) := by
  induction calls generalizing cb with
  | nil => exact h
  | cons c calls ih => exact ih (h.call c)

theorem rejects_iff (h : Told cb) (c : BreakerCall) :
    cb.Rejects c ↔ cb.state = .opened ∧ c.now-cb.lastFailTime ≤ cb.timeout := by
  rw [CircuitBreaker.Rejects,CircuitBreaker.allowRequest]
  cases hs : cb.state with
  | closed => simp
  | opened => simp
  | halfOpen => exact absurd hs h.whole

/-- A rejection is right exactly if the breaker is not open for an old reason. -/
theorem Told.justified_iff (h : Told cb) (c : BreakerCall) :
    (cb.Rejects c → cb.Justified c.now) ↔
      ¬ (cb.Stale ∧ c.now-cb.lastFailTime ≤ cb.timeout) := by
  have htrailing := le_length_takeWhile_iff (p := fun e => !e.success) cb.executed cb.threshold
  rw [← h.count] at htrailing
  rw [rejects_iff h,CircuitBreaker.Justified,CircuitBreaker.Stale]
  constructor
  · rintro hjust ⟨⟨hopen,hfew⟩,hin⟩
    obtain ⟨⟨hlen,hfailed⟩,-⟩ := hjust ⟨hopen,hin⟩
    have hle := htrailing.mpr ⟨hlen,by simpa using hfailed⟩
    omega
  · rintro hnot ⟨hopen,hin⟩
    obtain ⟨e,he⟩ := Option.isSome_iff_exists.mp (h.opened hopen)
    have hle : cb.threshold ≤ cb.failureCount := by
      by_contra hfew
      exact hnot ⟨⟨hopen,by omega⟩,hin⟩
    obtain ⟨hlen,hfailed⟩ := htrailing.mp hle
    exact ⟨⟨hlen,by simpa using hfailed⟩,e,he,h.last e he ▸ hin⟩

end History

/-- Every rejected call of a sequence is rejected for `threshold` failures at the end, the
latest of them at most `timeout` ago, exactly if no call comes within the timeout of the
latest failure while the breaker is open and has since had a success and fewer failures
after it than the threshold. -/
theorem rejections_justified_iff (threshold : Nat) (timeout : Int) (calls : List BreakerCall) :
    (∀ before c after, calls = before ++ c :: after →
      ((newCircuitBreaker threshold timeout).run before).Rejects c →
        ((newCircuitBreaker threshold timeout).run before).Justified c.now) ↔
    ∀ before c after, calls = before ++ c :: after →
      ¬ (((newCircuitBreaker threshold timeout).run before).Stale ∧
        c.now-((newCircuitBreaker threshold timeout).run before).lastFailTime ≤
          ((newCircuitBreaker threshold timeout).run before).timeout) := by
  have hstep : ∀ before c, _ := fun before (c : BreakerCall) =>
    ((told_new threshold timeout).run before).justified_iff c
  exact ⟨fun h before c after hsplit => (hstep before c).mp (h before c after hsplit),
    fun h before c after hsplit => (hstep before c).mpr (h before c after hsplit)⟩

/-- Two failures open the breaker; after the timeout a call succeeds and the next one fails. -/
def reopened : List BreakerCall :=
  [⟨0,false,0⟩,⟨1,false,1⟩,⟨20,true,20⟩,⟨21,false,21⟩]

/-- The next call is rejected after one failure. -/
theorem reopened_rejects :
    ((newCircuitBreaker 2 10).run reopened).Rejects ⟨22,true,22⟩ ∧
      ¬ ((newCircuitBreaker 2 10).run reopened).Justified 22 := by
  refine ⟨by decide,?_⟩
  rintro ⟨⟨-,hfailed⟩,-⟩
  exact absurd (hfailed ⟨true,20⟩ (by decide)) (by decide)

end Imy.Optimizer
