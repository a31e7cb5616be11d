import Imy.Lib.SafeRuns
import Imy.Lib.Transition
import Imy.Lock.LockSafety
set_option autoImplicit false

/-!
`WithLock`, `TryWithLock` and `WithAutoRenewLock`: functions that run under a lock. Any
number of calls share one manager. The goroutine that renews a lock is not waited for,
so it may go on after its call has returned.
-/

namespace Imy.Lock
open Imy.Lib

inductive LockHelper where
  | withLock | tryWithLock | withAutoRenewLock
  deriving DecidableEq, Repr

/-- A call by its arguments but `fn`. -/
structure HelperCall where
  helper : LockHelper
  lockKey : String
  ttl : Int
  deriving DecidableEq, Repr

inductive CallStage where
  | started
  /-- `TryWithLock` has found nobody there. -/
  | checked
  /-- `fn` runs. -/
  | inside (handle : Nat)
  /-- `fn` has returned, and the deferred release has not been made. -/
  | releasing (handle : Nat) (err : Option String)
  | ended (err : Option String)
  deriving DecidableEq, Repr

/-- The manager with its handles, the calls, and the lock that the goroutine of a call
renews, as long as there is one. -/
structure LockCalls (ι : Type) where
  run : LockRun
  stage : ι → CallStage
  renewer : ι → Option Nat

inductive CallEvent (ι : Type) where
  /-- The call takes the lock or releases it, or looks whether it is taken. -/
  | step (i : ι)
  /-- `fn` returns. -/
  | finish (i : ι) (err : Option String)
  /-- The ticker of the goroutine. -/
  | tick (i : ι)
  /-- The goroutine sees that its context is done. -/
  | stop (i : ι)
  | cleanup
  deriving DecidableEq, Repr

section Steps
variable {ι : Type} [DecidableEq ι] (clock : Nat → Int) (calls : ι → HelperCall)

def newLockCalls (ι : Type) (storeID : String) : LockCalls ι :=
  ⟨⟨newLockManager storeID,[]⟩,fun _ => .started,fun _ => none⟩

def LockCalls.goTo (s : LockCalls ι) (i : ι) (stage : CallStage) : LockCalls ι :=
  { s with stage := Function.update s.stage i stage }

/-- `AcquireLock` at the head of `WithLock` and `WithAutoRenewLock`. -/
def LockCalls.acquire (s : LockCalls ι) (i : ι) : LockCalls ι :=
  match acquireLock clock (calls i).lockKey (calls i).ttl s.run.manager with
  | .ok lock m =>
    { run := ⟨m,s.run.handles ++ [⟨lock,false⟩]⟩
      stage := Function.update s.stage i (.inside s.run.handles.length)
      renewer := if (calls i).helper = .withAutoRenewLock then
        Function.update s.renewer i (some s.run.handles.length) else s.renewer }
  | .error e m =>
    LockCalls.goTo ⟨⟨m,s.run.handles⟩,s.stage,s.renewer⟩ i
      (.ended (some ("failed to acquire lock: " ++ e.text)))

/-- `IsLocked` at the head of `TryWithLock`; it returns no error. -/
def LockCalls.check (s : LockCalls ι) (i : ι) : LockCalls ι :=
  match isLocked clock (calls i).lockKey s.run.manager with
  | .ok locked m =>
    LockCalls.goTo ⟨⟨m,s.run.handles⟩,s.stage,s.renewer⟩ i
      (if locked then .ended (some ("resource is locked: " ++ (calls i).lockKey)) else .checked)
  | .error e m =>
    LockCalls.goTo ⟨⟨m,s.run.handles⟩,s.stage,s.renewer⟩ i
      (.ended (some ("failed to check lock status: " ++ e.text)))

/-- What can happen next; the error of a release is only printed. -/
def LockCalls.next (s : LockCalls ι) : CallEvent ι → Option (LockCalls ι)
  | .step i =>
    match s.stage i with
    | .started => some (if (calls i).helper = .tryWithLock then s.check clock calls i
      else s.acquire clock calls i)
    | .checked => some (s.acquire clock calls i)
    | .releasing handle err =>
      some (LockCalls.goTo { s with run := s.run.next clock (.releaseLock handle) } i (.ended err))
    | _ => none
  | .finish i err =>
    match s.stage i with
    | .inside handle => some (s.goTo i (.releasing handle err))
    | _ => none
  | .tick i =>
    match s.renewer i with
    | none => none
    | some handle =>
      match s.run.handles[handle]? with
      | none => none
      | some hd =>
        match renewLock clock hd.lock (calls i).ttl s.run.manager with
        | .ok lock m => some { s with run := s.run.setHandle handle { hd with lock := lock } m }
        | .error _ m =>
          some ⟨⟨m,s.run.handles⟩,s.stage,Function.update s.renewer i none⟩
  | .stop i =>
    if (s.renewer i).isSome then some { s with renewer := Function.update s.renewer i none }
        else none
  | .cleanup => some { s with run := s.run.next clock .cleanup }

def CallStage.handle : CallStage → Option Nat
  | .inside handle => some handle
  | .releasing handle _ => some handle
  | _ => none

def LockCalls.Acquires (s : LockCalls ι) (i : ι) : Prop :=
  (s.stage i = .started ∧ (calls i).helper ≠ .tryWithLock) ∨ s.stage i = .checked

/-- Nobody runs under the same lock as another one. -/
def LockCalls.Exclusive (s : LockCalls ι) : Prop :=
  ∀ i j, (s.stage i).handle.isSome → (s.stage j).handle.isSome →
    (calls i).lockKey = (calls j).lockKey → i = j

/-- Whoever asks for a lock finds nobody under it whose lock has expired. -/
def InTime (s : LockCalls ι) : CallEvent ι → Prop
  | .step i => s.Acquires calls i → ∀ j handle hd, (s.stage j).handle = some handle →
      s.run.handles[handle]? = some hd → (calls j).lockKey = (calls i).lockKey →
      clock s.run.manager.tick < hd.lock.expiresAt
  | _ => True

inductive Moves (s : LockCalls ι) : CallEvent ι → LockCalls ι → Prop where
  | acquired {i : ι} {lock : DistributedLock} {m : LockManager} (asks : s.Acquires calls i)
      (got : acquireLock clock (calls i).lockKey (calls i).ttl s.run.manager = .ok lock m)
      {renewer : ι → Option Nat} :
      Moves s (.step i) ⟨⟨m,s.run.handles ++ [⟨lock,false⟩]⟩,
        Function.update s.stage i (.inside s.run.handles.length),renewer⟩
  | refused {i : ι} {e : LockError} {m : LockManager} {err : Option String}
    (asks : s.Acquires calls i)
      (got : acquireLock clock (calls i).lockKey (calls i).ttl s.run.manager = .error e m) :
      Moves s (.step i) (LockCalls.goTo ⟨⟨m,s.run.handles⟩,s.stage,s.renewer⟩ i (.ended err))
  | looked {i : ι} {m : LockManager} {stage : CallStage} (was : s.stage i = .started)
      (notAsks : ¬ s.Acquires calls i) (locks : m.locks = s.run.manager.locks)
      (storeID : m.storeID = s.run.manager.storeID)
      (tick : s.run.manager.tick ≤ m.tick) (out : stage.handle = none) :
      Moves s (.step i) (LockCalls.goTo ⟨⟨m,s.run.handles⟩,s.stage,s.renewer⟩ i stage)
  | released {i : ι} {handle : Nat} {err : Option String}
    (was : s.stage i = .releasing handle err) :
      Moves s (.step i)
        (LockCalls.goTo { s with run := s.run.next clock (.releaseLock handle) } i (.ended err))
  | finished {i : ι} {handle : Nat} {err : Option String} (was : s.stage i = .inside handle) :
      Moves s (.finish i err) (s.goTo i (.releasing handle err))
  | ticked {i : ι} {handle : Nat} {renewer : ι → Option Nat} :
      Moves s (.tick i) ⟨s.run.next clock (.renewLock handle (calls i).ttl),s.stage,renewer⟩
  | stopped {i : ι} {renewer : ι → Option Nat} : Moves s (.stop i) ⟨s.run,s.stage,renewer⟩
  | cleaned : Moves s .cleanup { s with run := s.run.next clock .cleanup }

end Steps

section Inversion
variable {ι : Type} [DecidableEq ι] {clock : Nat → Int} {calls : ι → HelperCall}
  {s s' : LockCalls ι} {i : ι}

theorem acquire_moves (asks : s.Acquires calls i) :
    Moves clock calls s (.step i) (s.acquire clock calls i) := by
  unfold LockCalls.acquire
  split
  · rename_i lock m hx
    exact .acquired asks hx
  · rename_i e m hx
    exact .refused asks hx

theorem check_moves (was : s.stage i = .started) (htry : (calls i).helper = .tryWithLock) :
    Moves clock calls s (.step i) (s.check clock calls i) := by
  have hnot : ¬ s.Acquires calls i := by
    rintro (⟨-,hother⟩ | hchecked)
    · exact hother htry
    · rw [was] at hchecked
      cases hchecked
  have hlooks : wp (isLocked clock (calls i).lockKey)
      (fun _ m => m.locks = s.run.manager.locks ∧ m.storeID = s.run.manager.storeID ∧
        s.run.manager.tick ≤ m.tick) (fun _ _ => False) s.run.manager := by
    simp only [isLocked,wp_bind,wp_get]
    cases s.run.manager.locks (calls i).lockKey with
    | none => exact ⟨rfl,rfl,Nat.le_refl _⟩
    | some info =>
      simp only [wp_bind,wp_readClock,wp_pure]
      exact ⟨rfl,rfl,by simp⟩
  unfold LockCalls.check
  split
  · rename_i locked m hx
    obtain ⟨hlocks,hstore,htick⟩ := wp_ok hlooks hx
    refine .looked was hnot hlocks hstore htick ?_
    split <;> rfl
  · rename_i e m hx
    exact (wp_error hlooks hx).elim

theorem next_moves {e : CallEvent ι} (h : s.next clock calls e = some s') :
    Moves clock calls s e s' := by
  cases e with
  | step i =>
    simp only [LockCalls.next] at h
    split at h
    · rename_i was
      cases h
      split
      · rename_i htry
        exact check_moves was htry
      · rename_i hother
        exact acquire_moves (Or.inl ⟨was,hother⟩)
    · rename_i was
      cases h
      exact acquire_moves (Or.inr was)
    · rename_i handle err was
      cases h
      exact .released was
    · cases h
  | finish i err =>
    simp only [LockCalls.next] at h
    split at h
    · rename_i handle was
      cases h
      exact .finished was
    · cases h
  | tick i =>
    simp only [LockCalls.next] at h
    split at h
    · cases h
    rename_i handle _
    split at h
    · cases h
    rename_i hd hhd
    split at h
    · rename_i lock m hx
      cases h
      have hnext : s.run.next clock (.renewLock handle (calls i).ttl) =
          s.run.setHandle handle { hd with lock := lock } m := by
        simp only [LockRun.next,hhd,hx]
      rw [← hnext]
      exact .ticked
    · rename_i e m hx
      cases h
      have hnext : s.run.next clock (.renewLock handle (calls i).ttl) = ⟨m,s.run.handles⟩ := by
        simp only [LockRun.next,hhd,hx]
      rw [← hnext]
      exact .ticked
  | stop i =>
    simp only [LockCalls.next] at h
    split at h
    · cases h
      exact .stopped
    · cases h
  | cleanup =>
    cases h
    exact .cleaned

end Inversion

section Manager
variable {clock : Nat → Int} {r : LockRun} {handle : Nat} {hd : Handle}

theorem acquired_of_ok {key : String} {ttl : Int} {m m' : LockManager} {lock : DistributedLock}
    (got : acquireLock clock key ttl m = .ok lock m') : Acquired clock key m m' lock := by
  have ha := wp_ok (wp_acquireLock clock key ttl m) got
  exact ha

theorem release_cases (clock : Nat → Int) (hhd : r.handles[handle]? = some hd) :
    (∃ info, r.manager.locks hd.lock.lockKey = some info ∧ info.ownerID = hd.lock.ownerID ∧
      r.next clock (.releaseLock handle) =
        r.setHandle handle { hd with released := true } (r.manager.setLock hd.lock.lockKey none)) ∨
    ((∀ info, r.manager.locks hd.lock.lockKey = some info → info.ownerID ≠ hd.lock.ownerID) ∧
      r.next clock (.releaseLock handle) = r) := by
  have hw := wp_releaseLock hd.lock r.manager
  simp only [LockRun.next,hhd]
  cases hx : releaseLock hd.lock r.manager with
  | ok a m =>
    obtain ⟨rfl,info,hinfo,howner⟩ := wp_ok hw hx
    exact Or.inl ⟨info,hinfo,howner,rfl⟩
  | error e m =>
    obtain ⟨rfl,hother⟩ := wp_error hw hx
    exact Or.inr ⟨hother,rfl⟩

theorem renew_cases (clock : Nat → Int) (r : LockRun) (handle : Nat) (ttl : Int) :
    (∃ hd lock m, r.handles[handle]? = some hd ∧ Renewed hd.lock r.manager m lock ∧
      r.next clock (.renewLock handle ttl) = r.setHandle handle { hd with lock := lock } m) ∨
    ∃ m, m.locks = r.manager.locks ∧ r.next clock (.renewLock handle ttl) = ⟨m,r.handles⟩ := by
  cases hhd : r.handles[handle]? with
  | none =>
    refine Or.inr ⟨r.manager,rfl,?_⟩
    simp only [LockRun.next,hhd]
  | some hd =>
    have hw := wp_renewLock clock hd.lock ttl r.manager
    simp only [LockRun.next,hhd]
    cases hx : renewLock clock hd.lock ttl r.manager with
    | ok lock m =>
      have hr := wp_ok hw hx
      exact Or.inl ⟨hd,lock,m,rfl,hr,rfl⟩
    | error e m => exact Or.inr ⟨m,(wp_error hw hx).1,rfl⟩

theorem cleanup_locks (clock : Nat → Int) (r : LockRun) :
    (r.next clock .cleanup).handles = r.handles ∧
    ∀ key info, (r.next clock .cleanup).manager.locks key = some info →
      r.manager.locks key = some info := by
  obtain ⟨_,m,hx,-,-,hsub,-⟩ := eq_ok_of_wp (wp_cleanupExpired clock r.manager)
  simp only [LockRun.next,final,hx]
  exact ⟨trivial,hsub⟩

end Manager

section Invariant
variable {ι : Type} {clock : Nat → Int} {calls : ι → HelperCall} {s s' : LockCalls ι}

structure Held (calls : ι → HelperCall) (s : LockCalls ι) : Prop where
  handled : ∀ i handle, (s.stage i).handle = some handle → ∃ hd, s.run.handles[handle]? = some hd ∧
    hd.lock.lockKey = (calls i).lockKey ∧ hd.released = false
  apart : ∀ i j handle, (s.stage i).handle = some handle → (s.stage j).handle = some handle → i = j
  owned : ∀ key info, s.run.manager.locks key = some info → ∃ i handle hd,
    (s.stage i).handle = some handle ∧ s.run.handles[handle]? = some hd ∧ (calls i).lockKey = key ∧
    info.ownerID = hd.lock.ownerID ∧ info.expiresAt = hd.lock.expiresAt

theorem held_new (calls : ι → HelperCall) (storeID : String) :
    Held calls (newLockCalls ι storeID) where
  handled i handle h := by cases h
  apart i j handle h := by cases h
  owned key info h := by cases h

theorem Held.quiet (h : Held calls s) (hstage : ∀ i, (s'.stage i).handle = (s.stage i).handle)
    (hhandles : s'.run.handles = s.run.handles)
    (hlocks : ∀ key info, s'.run.manager.locks key = some info →
      s.run.manager.locks key = some info) :
    Held calls s' where
  handled i handle hi := by
    rw [hhandles]
    exact h.handled i handle (hstage i ▸ hi)
  apart i j handle hi hj := h.apart i j handle (hstage i ▸ hi) (hstage j ▸ hj)
  owned key info hinfo := by
    obtain ⟨i,handle,hd,hi,hhd,hkey,howner,hexpiry⟩ := h.owned key info (hlocks key info hinfo)
    exact ⟨i,handle,hd,(hstage i).trans hi,hhandles ▸ hhd,hkey,howner,hexpiry⟩

theorem Held.renewed (h : Held calls s) (hsafe : Safe clock s.run) {handle : Nat} {hd : Handle}
    {lock : DistributedLock} {m : LockManager} (hhd : s.run.handles[handle]? = some hd)
    (hr : Renewed hd.lock s.run.manager m lock) (renewer : ι → Option Nat) :
    Held calls ⟨s.run.setHandle handle { hd with lock := lock } m,s.stage,renewer⟩ := by
  have hself : (s.run.handles.set handle { hd with lock := lock })[handle]? =
      some { hd with lock := lock } :=
    List.getElem?_set_self (List.getElem?_eq_some_iff.mp hhd).1
  have hset : ∀ {handle'}, handle' ≠ handle →
      (s.run.handles.set handle { hd with lock := lock })[handle']? = s.run.handles[handle']? :=
    fun hne => List.getElem?_set_ne hne.symm
  refine ⟨fun j handle' hh => ?_,h.apart,fun key info hinfo => ?_⟩
  · obtain ⟨hd',hhd',hkey,hreleased⟩ := h.handled j handle' hh
    by_cases hne : handle' = handle
    · subst hne
      rw [hhd] at hhd'
      cases hhd'
      exact ⟨_,hself,hr.key.trans hkey,hreleased⟩
    · exact ⟨hd',(hset hne).trans hhd',hkey,hreleased⟩
  · obtain ⟨old,new,hold,holdOwner,hlocks,-,hnewOwner,hexpiry⟩ := hr.entry
    simp only [LockRun.setHandle,hlocks] at hinfo
    by_cases hk : key = hd.lock.lockKey
    · rw [hk,Function.update_self] at hinfo
      cases hinfo
      obtain ⟨j,handle',hd',hj,hhd',hjkey,howner,-⟩ := h.owned _ old hold
      obtain rfl := hsafe.distinct handle' handle hd' hd hhd' hhd (howner.symm.trans holdOwner)
      exact ⟨j,handle',_,hj,hself,hjkey.trans hk.symm,hnewOwner.trans hr.owner.symm,hexpiry⟩
    · rw [Function.update_of_ne hk] at hinfo
      obtain ⟨j,handle',hd',hj,hhd',hjkey,hrest⟩ := h.owned key info hinfo
      have hne : handle' ≠ handle := by
        rintro rfl
        obtain ⟨hd₀,hhd₀,hkey₀,-⟩ := h.handled j handle' hj
        rw [hhd] at hhd₀
        cases hhd₀
        exact hk (hjkey.symm.trans hkey₀.symm)
      exact ⟨j,handle',hd',hj,(hset hne).trans hhd',hjkey,hrest⟩

theorem Held.free (h : Held calls s) (hex : s.Exclusive calls) {i : ι} {handle : Nat} {hd : Handle}
    (hi : (s.stage i).handle = some handle) (hhd : s.run.handles[handle]? = some hd) {t : Int}
    (hexpired : hd.lock.expiresAt ≤ t) {info : LockInfo}
    (hinfo : s.run.manager.locks (calls i).lockKey = some info) : info.expiresAt ≤ t := by
  obtain ⟨j,handle',hd',hj,hhd',hkey,-,hexpiry⟩ := h.owned _ info hinfo
  obtain rfl := hex j i (by rw [hj]; rfl) (by rw [hi]; rfl) hkey
  rw [hi] at hj
  cases hj
  rw [hhd] at hhd'
  cases hhd'
  rw [hexpiry]
  exact hexpired

theorem LockCalls.Acquires.none_held {i : ι} (asks : s.Acquires calls i) :
    (s.stage i).handle = none := by
  rcases asks with ⟨was,-⟩ | was
  · rw [was]
    rfl
  · rw [was]
    rfl

variable [DecidableEq ι]

theorem goTo_handle {i : ι} {stage : CallStage} (h : stage.handle = (s.stage i).handle) (j : ι) :
    ((s.goTo i stage).stage j).handle = (s.stage j).handle := by
  by_cases hj : j = i
  · subst hj
    simpa [LockCalls.goTo] using h
  · simp [LockCalls.goTo,hj]

theorem Held.acquired (h : Held calls s) {i : ι} (asks : s.Acquires calls i)
    {lock : DistributedLock}
    {m : LockManager} (ha : Acquired clock (calls i).lockKey s.run.manager m lock)
    (renewer : ι → Option Nat) :
    Held calls ⟨⟨m,s.run.handles ++ [⟨lock,false⟩]⟩,
      Function.update s.stage i (.inside s.run.handles.length),renewer⟩ := by
  have hnone := asks.none_held
  have hold : ∀ {j handle}, j ≠ i →
      (Function.update s.stage i (.inside s.run.handles.length) j).handle = some handle →
      (s.stage j).handle = some handle := by
    intro j handle hj hh
    rwa [Function.update_of_ne hj] at hh
  have hback : ∀ {j handle}, j ≠ i → (s.stage j).handle = some handle →
      (Function.update s.stage i (.inside s.run.handles.length) j).handle = some handle := by
    intro j handle hj hh
    rwa [Function.update_of_ne hj]
  have hself : (Function.update s.stage i (.inside s.run.handles.length) i).handle =
      some s.run.handles.length := by
    rw [Function.update_self]
    rfl
  have hnew : ∀ {handle},
      (Function.update s.stage i (.inside s.run.handles.length) i).handle = some handle →
      handle = s.run.handles.length := fun hh => Option.some.inj (hh.symm.trans hself)
  have hlt : ∀ {j handle}, (s.stage j).handle = some handle → handle < s.run.handles.length := by
    intro j handle hh
    obtain ⟨hd,hhd,-⟩ := h.handled j handle hh
    exact (List.getElem?_eq_some_iff.mp hhd).1
  refine ⟨fun j handle hh => ?_,fun j j' handle hh hh' => ?_,fun key info hinfo => ?_⟩
  · by_cases hj : j = i
    · subst hj
      obtain rfl := hnew hh
      exact ⟨⟨lock,false⟩,by simp,ha.key,rfl⟩
    · obtain ⟨hd,hhd,hkey,hreleased⟩ := h.handled j handle (hold hj hh)
      exact ⟨hd,by rw [List.getElem?_append_left (hlt (hold hj hh))]; exact hhd,hkey,hreleased⟩
  · by_cases hj : j = i
    · by_cases hj' : j' = i
      · rw [hj,hj']
      · subst hj
        have := hnew hh
        have := hlt (hold hj' hh')
        omega
    · by_cases hj' : j' = i
      · subst hj'
        have := hnew hh'
        have := hlt (hold hj hh)
        omega
      · exact h.apart j j' handle (hold hj hh) (hold hj' hh')
  · obtain ⟨entry,hentry,-,howner,hexpiry⟩ := ha.entry
    dsimp only at hinfo
    by_cases hkey : key = (calls i).lockKey
    · rw [hentry,hkey,Function.update_self] at hinfo
      cases hinfo
      exact ⟨i,s.run.handles.length,⟨lock,false⟩,hself,by simp,hkey.symm,howner,hexpiry⟩
    · rw [hentry,Function.update_of_ne hkey] at hinfo
      obtain ⟨j,handle,hd,hj,hhd,hjkey,hjowner,hjexpiry⟩ := h.owned key info hinfo
      have hne : j ≠ i := by
        rintro rfl
        rw [hnone] at hj
        cases hj
      refine ⟨j,handle,hd,hback hne hj,?_,hjkey,hjowner,hjexpiry⟩
      rw [List.getElem?_append_left (hlt hj)]
      exact hhd

theorem Held.released (h : Held calls s) {i : ι} {handle : Nat} {err : Option String}
    (was : s.stage i = .releasing handle err) :
    Held calls (LockCalls.goTo { s with run := s.run.next clock (.releaseLock handle) } i
      (.ended err)) := by
  have hi : (s.stage i).handle = some handle := by
    rw [was]
    rfl
  obtain ⟨hd,hhd,hkey,-⟩ := h.handled i handle hi
  have hother : ∀ {j handle'}, (Function.update s.stage i (.ended err) j).handle = some handle' →
      j ≠ i ∧ (s.stage j).handle = some handle' := by
    intro j handle' hh
    by_cases hj : j = i
    · subst hj
      rw [Function.update_self] at hh
      cases hh
    · rw [Function.update_of_ne hj] at hh
      exact ⟨hj,hh⟩
  have hback : ∀ {j handle'}, j ≠ i → (s.stage j).handle = some handle' →
      (Function.update s.stage i (.ended err) j).handle = some handle' := by
    intro j handle' hj hh
    rwa [Function.update_of_ne hj]
  obtain ⟨info₀,hinfo₀,-,hnext⟩ | ⟨hnot,hnext⟩ := release_cases clock hhd
  · rw [hnext]
    have hset : ∀ {j handle'}, j ≠ i → (s.stage j).handle = some handle' →
        (s.run.handles.set handle { hd with released := true })[handle']? =
            s.run.handles[handle']? := by
      intro j handle' hj hh
      refine List.getElem?_set_ne ?_
      rintro rfl
      exact hj (h.apart j i handle hh hi)
    refine ⟨fun j handle' hh => ?_,fun j j' handle' hh hh' => ?_,fun key info hinfo => ?_⟩
    · obtain ⟨hj,hh⟩ := hother hh
      obtain ⟨hd',hhd',hrest⟩ := h.handled j handle' hh
      exact ⟨hd',(hset hj hh).trans hhd',hrest⟩
    · exact h.apart j j' handle' (hother hh).2 (hother hh').2
    · simp only [LockCalls.goTo,LockRun.setHandle,LockManager.setLock_locks] at hinfo
      by_cases hk : key = hd.lock.lockKey
      · rw [hk,Function.update_self] at hinfo
        cases hinfo
      · rw [Function.update_of_ne hk] at hinfo
        obtain ⟨j,handle',hd',hj,hhd',hjkey,hrest⟩ := h.owned key info hinfo
        have hne : j ≠ i := by
          rintro rfl
          exact hk (hjkey.symm.trans hkey.symm)
        exact ⟨j,handle',hd',hback hne hj,(hset hne hj).trans hhd',hjkey,hrest⟩
  · rw [hnext]
    refine ⟨fun j handle' hh => h.handled j handle' (hother hh).2,
      fun j j' handle' hh hh' => h.apart j j' handle' (hother hh).2 (hother hh').2,
        fun key info hinfo => ?_⟩
    obtain ⟨j,handle',hd',hj,hhd',hjkey,howner,hexpiry⟩ := h.owned key info hinfo
    have hne : j ≠ i := by
      rintro rfl
      rw [hi] at hj
      cases hj
      rw [hhd] at hhd'
      cases hhd'
      refine hnot info ?_ howner
      rw [hkey,hjkey]
      exact hinfo
    exact ⟨j,handle',hd',hback hne hj,hhd',hjkey,howner,hexpiry⟩

theorem Safe.next_calls (hclock : Function.Injective clock)
    (hsafe : Safe clock s.run) {e : CallEvent ι}
    (hm : Moves clock calls s e s') : Safe clock s'.run := by
  cases hm with
  | acquired asks got => exact hsafe.acquired hclock (acquired_of_ok got)
  | refused asks got =>
    obtain ⟨hlocks,hstore,htick⟩ := wp_error (wp_acquireLock clock _ _ _) got
    exact hsafe.same hlocks hstore htick
  | looked was notAsks locks storeID tick out => exact hsafe.same locks storeID tick
  | released was => exact hsafe.next hclock (.releaseLock _)
  | finished was => exact hsafe
  | ticked => exact hsafe.next hclock (.renewLock _ _)
  | stopped => exact hsafe
  | cleaned => exact hsafe.next hclock .cleanup

theorem Held.next (h : Held calls s) (hsafe : Safe clock s.run) {e : CallEvent ι}
    (hm : Moves clock calls s e s') : Held calls s' := by
  cases hm with
  | acquired asks got => exact h.acquired asks (acquired_of_ok got) _
  | refused asks got =>
    obtain ⟨hlocks,-,-⟩ := wp_error (wp_acquireLock clock _ _ _) got
    refine h.quiet (goTo_handle (s := ⟨_,s.stage,s.renewer⟩) ?_) rfl fun key info hinfo => ?_
    · exact asks.none_held.symm
    · exact hlocks ▸ hinfo
  | looked was notAsks locks storeID tick out =>
    refine h.quiet (goTo_handle (s := ⟨_,s.stage,s.renewer⟩) ?_) rfl fun key info hinfo => ?_
    · dsimp only
      rw [was,out]
      rfl
    · exact locks ▸ hinfo
  | released was => exact h.released was
  | finished was =>
    refine h.quiet (goTo_handle ?_) rfl fun key info hinfo => hinfo
    rw [was]
    rfl
  | @ticked i handle renewer =>
    obtain ⟨hd,lock,m,hhd,hr,hnext⟩ | ⟨m,hlocks,hnext⟩ :=
      renew_cases clock s.run handle (calls i).ttl
    · rw [hnext]
      exact h.renewed hsafe hhd hr renewer
    · rw [hnext]
      exact h.quiet (fun _ => rfl) rfl fun key info hinfo => hlocks ▸ hinfo
  | stopped => exact h.quiet (fun _ => rfl) rfl fun key info hinfo => hinfo
  | cleaned =>
    obtain ⟨hhandles,hlocks⟩ := cleanup_locks clock s.run
    exact h.quiet (fun _ => rfl) hhandles hlocks

theorem LockCalls.Exclusive.next (hex : s.Exclusive calls) (h : Held calls s)
    (hsafe : Safe clock s.run)
    (hmono : ∀ {m n}, m < n → clock m < clock n) {e : CallEvent ι} (hm : Moves clock calls s e s')
    (hin : InTime clock calls s e) : s'.Exclusive calls := by
  have hkeep : (∀ j, (s'.stage j).handle.isSome → (s.stage j).handle.isSome) → s'.Exclusive calls :=
    fun hsub j j' hj hj' hkey => hex j j' (hsub j hj) (hsub j' hj') hkey
  cases hm with
  | @acquired i lock m asks got renewer =>
    have hread := wp_ok (wp_acquireLock_readings clock (calls i).lockKey
      (calls i).ttl s.run.manager) got
    -- whoever is under the lock still has it, so that it could not be acquired
    have hnobody : ∀ j, (s.stage j).handle.isSome → (calls j).lockKey ≠ (calls i).lockKey := by
      intro j hj hkey
      obtain ⟨handle,hh⟩ := Option.isSome_iff_exists.mp hj
      obtain ⟨hd,hhd,hdkey,hreleased⟩ := h.handled j handle hh
      have hlive := hin asks j handle hd hh hhd hkey
      rcases hsafe.held hd (List.mem_of_getElem? hhd) hreleased with ⟨info,hinfo,
        -,hexpiry⟩ | ⟨n,hn,hle⟩
      · rw [hdkey,hkey] at hinfo
        have := hread.1 info hinfo
        omega
      · have := hmono hn
        omega
    have hother : ∀ {j}, j ≠ i →
        ((Function.update s.stage i (.inside s.run.handles.length) j).handle.isSome →
          (s.stage j).handle.isSome) := by
      intro j hj hh
      rwa [Function.update_of_ne hj] at hh
    intro j j' hj hj' hkey
    by_cases hji : j = i
    · by_cases hji' : j' = i
      · rw [hji,hji']
      · subst hji
        exact (hnobody j' (hother hji' hj') hkey.symm).elim
    · by_cases hji' : j' = i
      · subst hji'
        exact (hnobody j (hother hji hj) hkey).elim
      · exact hex j j' (hother hji hj) (hother hji' hj') hkey
  | @refused i e m err asks got =>
    have hsame : ∀ j, ((LockCalls.goTo ⟨⟨m,s.run.handles⟩,s.stage,s.renewer⟩ i
      (.ended err)).stage j).handle =
        (s.stage j).handle := goTo_handle asks.none_held.symm
    exact hkeep fun j hj => by rwa [hsame j] at hj
  | @looked i m stage was notAsks locks storeID tick out =>
    have hsame : ∀ j, ((LockCalls.goTo ⟨⟨m,s.run.handles⟩,s.stage,s.renewer⟩ i
      stage).stage j).handle =
        (s.stage j).handle := goTo_handle (by dsimp only; rw [was,out]; rfl)
    exact hkeep fun j hj => by rwa [hsame j] at hj
  | @released i handle err was =>
    refine hkeep fun j hj => ?_
    by_cases hji : j = i
    · subst hji
      rw [was]
      rfl
    · simpa [LockCalls.goTo,hji] using hj
  | finished was =>
    refine hkeep fun j hj => ?_
    rwa [goTo_handle (by rw [was]; rfl)] at hj
  | ticked => exact hkeep fun j hj => hj
  | stopped => exact hkeep fun j hj => hj
  | cleaned => exact hkeep fun j hj => hj

theorem LockCalls.Exclusive.broken (hex : s.Exclusive calls) (h : Held calls s) {e : CallEvent ι}
    (hm : Moves clock calls s e s') (hnot : ¬ InTime clock calls s e) : ¬ s'.Exclusive calls := by
  cases hm with
  | @acquired i lock m asks got renewer =>
    simp only [InTime,not_forall,not_lt] at hnot
    obtain ⟨-,j,handle,hd,hj,hhd,hkey,-⟩ := hnot
    have hne : j ≠ i := by
      rintro rfl
      rw [asks.none_held] at hj
      cases hj
    intro hex'
    refine hne (hex' j i ?_ ?_ hkey)
    · dsimp only
      rw [Function.update_of_ne hne,hj]
      rfl
    · dsimp only
      rw [Function.update_self]
      rfl
  | @refused i e m err asks got =>
    simp only [InTime,not_forall,not_lt] at hnot
    obtain ⟨-,j,handle,hd,hj,hhd,hkey,hexpired⟩ := hnot
    have hread := wp_error (wp_acquireLock_readings clock (calls i).lockKey
      (calls i).ttl s.run.manager) got
    exact (hread fun info hinfo => h.free hex hj hhd hexpired (hkey ▸ hinfo)).elim
  | looked was notAsks locks storeID tick out => exact (hnot fun asks => (notAsks asks).elim).elim
  | @released i handle err was =>
    refine (hnot fun asks => ?_).elim
    have hnone := asks.none_held
    rw [was] at hnone
    cases hnone
  | finished was => exact (hnot trivial).elim
  | ticked => exact (hnot trivial).elim
  | stopped => exact (hnot trivial).elim
  | cleaned => exact (hnot trivial).elim

end Invariant

section Runs
variable {ι : Type} [DecidableEq ι] {clock : Nat → Int} {calls : ι → HelperCall} {storeID : String}
  {events : List (CallEvent ι)} {s : LockCalls ι}

theorem held_run (hclock : Function.Injective clock)
    (hrun : events.foldlM (LockCalls.next clock calls) (newLockCalls ι storeID) = some s) :
    Held calls s ∧ Safe clock s.run := by
  refine runs_keep (I := fun s => Held calls s ∧ Safe clock s.run) (C := fun _ _ => True)
    ⟨held_new calls storeID,safe_new clock storeID⟩ ?_ events (fun _ _ _ _ _ _ => trivial) hrun
  rintro u e v ⟨h,hsafe⟩ - hnext
  exact ⟨h.next hsafe (next_moves hnext),hsafe.next_calls hclock (next_moves hnext)⟩

/-- Functions that run under the same lock never overlap, however the calls and the
goroutines that renew run side by side, exactly if no call asks for the lock when that of a
function still running under it has expired. -/
theorem bodies_exclusive_iff_in_time (clock : Nat → Int) (hmono : ∀ n, clock n < clock (n+1))
    (calls : ι → HelperCall) (storeID : String) (events : List (CallEvent ι)) (s : LockCalls ι)
    (hrun : events.foldlM (LockCalls.next clock calls) (newLockCalls ι storeID) = some s) :
    (∀ before after, events = before ++ after → ∀ u,
        before.foldlM (LockCalls.next clock calls) (newLockCalls ι storeID) = some u →
        u.Exclusive calls) ↔
      Met (LockCalls.next clock calls) (InTime clock calls) (newLockCalls ι storeID) events := by
  have hstrict := strictMono_nat_of_lt_succ hmono
  constructor
  · intro hex before e after hsplit u hu
    by_contra hnot
    have hrun' := hrun
    rw [hsplit,← List.singleton_append,← List.append_assoc,List.foldlM_append] at hrun'
    obtain ⟨v,hv,-⟩ := Option.bind_eq_some_iff.mp hrun'
    have hstep : u.next clock calls e = some v := by
      rw [runs_concat,hu] at hv
      exact hv
    obtain ⟨hheld,-⟩ := held_run hstrict.injective hu
    have hexu : u.Exclusive calls := hex before (e :: after) hsplit u hu
    refine hexu.broken hheld (next_moves hstep) hnot ?_
    exact hex (before ++ [e]) after (by rw [hsplit]; simp) v hv
  · intro hmet before after hsplit u hu
    have hinv : u.Exclusive calls ∧ Held calls u ∧ Safe clock u.run := by
      refine runs_keep (I := fun s => s.Exclusive calls ∧ Held calls s ∧ Safe clock s.run)
        (C := InTime clock calls) ⟨?_,held_new calls storeID,safe_new clock storeID⟩ ?_ before ?_ hu
      · intro i j hi
        cases hi
      · rintro u e v ⟨hex,hheld,hsafe⟩ hin hnext
        have hm := next_moves hnext
        exact ⟨hex.next hheld hsafe (fun hlt => hstrict hlt) hm hin,hheld.next hsafe hm,
          hsafe.next_calls hstrict.injective hm⟩
      · intro front e rest hfront
        exact hmet front e (rest ++ after) (by rw [hsplit,hfront]; simp)
    exact hinv.1

/-- Two calls under one lock, each for an instant. -/
def briefCalls : Bool → HelperCall := fun _ => ⟨.withLock,"k",1⟩

/-- The second call comes when the lock of the first has expired. -/
def lateCaller : List (CallEvent Bool) := [.step true,.cleanup,.cleanup,.step false]

theorem bodies_exclusive_iff_in_time_late : ∃ s : LockCalls Bool,
    lateCaller.foldlM
      (LockCalls.next (fun n => n) briefCalls) (newLockCalls Bool "store_1") = some s ∧
    ¬ Met (LockCalls.next (fun n => n) briefCalls) (InTime (fun n => n) briefCalls)
      (newLockCalls Bool "store_1") lateCaller := by
  have hboth : ((lateCaller.foldlM
      (LockCalls.next (fun n => n) briefCalls) (newLockCalls Bool "store_1")).map fun s =>
        ((s.stage true).handle.isSome,(s.stage false).handle.isSome)) = some (true,true) := by
    decide +kernel
  obtain ⟨s,hs,hstages⟩ := Option.map_eq_some_iff.mp hboth
  obtain ⟨htrue,hfalse⟩ := Prod.mk.inj hstages
  refine ⟨s,hs,fun hmet => ?_⟩
  have hex := (bodies_exclusive_iff_in_time (fun n => n)
    (fun n => Int.ofNat_lt.mpr (Nat.lt_succ_self n)) briefCalls "store_1" _ s hs).mpr hmet _ []
    (List.append_nil _).symm s hs
  exact Bool.noConfusion (hex true false htrue hfalse rfl)

/-- The table holds the locks of running functions only: none of a call that has returned
or was refused, whatever its goroutine still does. -/
theorem locks_of_running_only (clock : Nat → Int) (hmono : ∀ n, clock n < clock (n+1))
    (calls : ι → HelperCall) (storeID : String) (events : List (CallEvent ι)) (s : LockCalls ι)
    (hrun : events.foldlM (LockCalls.next clock calls) (newLockCalls ι storeID) = some s) :
    (∀ key info, s.run.manager.locks key = some info →
        ∃ i, (s.stage i).handle.isSome ∧ (calls i).lockKey = key) ∧
      ((∀ i, ∃ err, s.stage i = .ended err) → ∀ key, s.run.manager.locks key = none) := by
  obtain ⟨hheld,-⟩ := held_run (strictMono_nat_of_lt_succ hmono).injective hrun
  have hrunning : ∀ key info, s.run.manager.locks key = some info →
      ∃ i, (s.stage i).handle.isSome ∧ (calls i).lockKey = key := by
    intro key info hinfo
    obtain ⟨i,handle,-,hi,-,hkey,-⟩ := hheld.owned key info hinfo
    exact ⟨i,by rw [hi]; rfl,hkey⟩
  refine ⟨hrunning,fun hended key => Option.eq_none_iff_forall_ne_some.mpr fun info hinfo => ?_⟩
  obtain ⟨i,hi,-⟩ := hrunning key info hinfo
  obtain ⟨err,herr⟩ := hended i
  rw [herr] at hi
  cases hi

def bothReturn : List (CallEvent Bool) :=
  [.finish false none,.step false,.finish true none,.step true]

theorem locks_of_running_only_late : ∃ s : LockCalls Bool,
    (lateCaller ++ bothReturn).foldlM
      (LockCalls.next (fun n => n) briefCalls) (newLockCalls Bool "store_1") = some s ∧
    s.run.manager.locks "k" = none := by
  have hended : ((lateCaller ++ bothReturn).foldlM
      (LockCalls.next (fun n => n) briefCalls) (newLockCalls Bool "store_1")).map
        (fun s => (s.stage true,s.stage false)) = some (.ended none,.ended none) := by
    decide +kernel
  obtain ⟨s,hs,hstages⟩ := Option.map_eq_some_iff.mp hended
  obtain ⟨htrue,hfalse⟩ := Prod.mk.inj hstages
  refine ⟨s,hs,?_⟩
  refine (locks_of_running_only (fun n => n) (fun n => Int.ofNat_lt.mpr (Nat.lt_succ_self n))
    briefCalls "store_1" _ s hs).2 ?_ "k"
  rintro (_ | _)
  · exact ⟨none,hfalse⟩
  · exact ⟨none,htrue⟩

end Runs
end Imy.Lock
