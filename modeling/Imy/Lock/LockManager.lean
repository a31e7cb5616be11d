import Mathlib.Logic.Function.Basic
import Mathlib.Tactic.Simps.Basic
import Imy.Lib.Command
import Imy.Lib.Text
set_option autoImplicit false

/-!
The in-memory lock manager of `pkg/storage/distributed_lock.go`. Every operation
holds the manager's mutex, so it is one step. Times are nanoseconds.
-/

namespace Imy.Lock
open Imy.Lib

structure LockInfo where
  lockKey : String
  lockID : String
  ownerID : String
  storeID : String
  acquiredAt : Int
  expiresAt : Int
  isActive : Bool
  deriving DecidableEq, Repr

/-- The handle a caller holds. -/
structure DistributedLock where
  lockKey : String
  lockID : String
  ownerID : String
  storeID : String
  acquiredAt : Int
  expiresAt : Int
  ttl : Int
  deriving DecidableEq, Repr

/-- The manager and the number of clock readings made so far. -/
structure LockManager where
  locks : String → Option LockInfo
  storeID : String
  tick : Nat

inductive LockError where
  | alreadyAcquired (ownerID : String)
  | notFound (lockKey : String)
  | differentOwner (ownerID : String)
  | expired
  deriving DecidableEq, Repr

def LockError.text : LockError → String
  | .alreadyAcquired ownerID => "lock already acquired by " ++ ownerID
  | .notFound lockKey => "lock not found: " ++ lockKey
  | .differentOwner ownerID => "lock owned by different owner: " ++ ownerID
  | .expired => "lock has expired"

abbrev LockM := EStateM LockError LockManager

def newLockManager (storeID : String) : LockManager := ⟨fun _ => none,storeID,0⟩

@[simps -fullyApplied] def LockManager.setLock (m : LockManager) (lockKey : String)
    (info : Option LockInfo) : LockManager :=
  { m with locks := Function.update m.locks lockKey info }

@[simps -fullyApplied] def LockManager.advance (m : LockManager) : LockManager :=
  { m with tick := m.tick+1 }

def readClock (clock : Nat → Int) : LockM Int := fun m => .ok (clock m.tick) m.advance

def stamp (storeID : String) (nano : Int) : String := storeID ++ "_" ++ decimal nano

def dropExpired (clock : Nat → Int) (lockKey : String) : LockM Unit := do
  let m ← get
  match m.locks lockKey with
  | none => pure ()
  | some existing =>
    let now ← readClock clock
    if now < existing.expiresAt then throw (.alreadyAcquired existing.ownerID)
    else modify fun m => m.setLock lockKey none

def acquireLock (clock : Nat → Int) (lockKey : String) (ttl : Int) : LockM DistributedLock := do
  dropExpired clock lockKey
  let lockNano ← readClock clock
  let ownerNano ← readClock clock
  let now ← readClock clock
  let m ← get
  set (m.setLock lockKey (some
    { lockKey := lockKey
      lockID := stamp m.storeID lockNano
      ownerID := stamp m.storeID ownerNano
      storeID := m.storeID
      acquiredAt := now
      expiresAt := now+ttl
      isActive := true }))
  pure
    { lockKey := lockKey
      lockID := stamp m.storeID lockNano
      ownerID := stamp m.storeID ownerNano
      storeID := m.storeID
      acquiredAt := now
      expiresAt := now+ttl
      ttl := ttl }

def ownedEntry (lock : DistributedLock) : LockM LockInfo := do
  let m ← get
  match m.locks lock.lockKey with
  | none => throw (.notFound lock.lockKey)
  | some existing =>
    if existing.ownerID = lock.ownerID then pure existing
    else throw (.differentOwner existing.ownerID)

def releaseLock (lock : DistributedLock) : LockM Unit := do
  let _ ← ownedEntry lock
  modify fun m => m.setLock lock.lockKey none

/-- The handle is returned with the fields that the source sets on it. -/
def renewLock (clock : Nat → Int) (lock : DistributedLock) (ttl : Int) : LockM DistributedLock := do
  let existing ← ownedEntry lock
  let checked ← readClock clock
  if existing.expiresAt < checked then throw .expired
  else
    let now ← readClock clock
    modify fun m => m.setLock lock.lockKey (some { existing with expiresAt := now+ttl })
    pure { lock with expiresAt := now+ttl, ttl := ttl }

def isLocked (clock : Nat → Int) (lockKey : String) : LockM Bool := do
  let m ← get
  match m.locks lockKey with
  | none => pure false
  | some info =>
    let now ← readClock clock
    pure (!decide (info.expiresAt < now))

def getLockInfo (clock : Nat → Int) (lockKey : String) : LockM LockInfo := do
  let m ← get
  match m.locks lockKey with
  | none => throw (.notFound lockKey)
  | some info =>
    let now ← readClock clock
    let shown := if info.expiresAt < now then { info with isActive := false } else info
    modify fun m => m.setLock lockKey (some shown)
    pure shown

@[simps -fullyApplied] def LockManager.purge (m : LockManager) (now : Int) : LockManager :=
  { m with locks := fun key =>
      match m.locks key with
      | none => none
      | some info => if info.expiresAt < now then none else some info }

def cleanupExpired (clock : Nat → Int) : LockM Unit := do
  let now ← readClock clock
  modify fun m => m.purge now

theorem stamp_injective {storeID : String} {n n' : Int} (h : stamp storeID n = stamp storeID n') :
    n = n' := by
  have hl := congrArg String.toList h
  simp only [stamp,String.toList_append] at hl
  exact decimal_injective (String.toList_inj.mp (List.append_cancel_left hl))

section Specs
variable (clock : Nat → Int)

theorem wp_readClock (Q : Int → LockManager → Prop) (E : LockError → LockManager → Prop)
    (m : LockManager) : wp (readClock clock) Q E m = Q (clock m.tick) m.advance := rfl

structure Acquired (lockKey : String) (m t : LockManager) (lock : DistributedLock) : Prop where
  entry : ∃ info, t.locks = Function.update m.locks lockKey (some info) ∧
    info.lockKey = lockKey ∧ info.ownerID = lock.ownerID ∧ info.expiresAt = lock.expiresAt
  key : lock.lockKey = lockKey
  storeID : t.storeID = m.storeID
  owner : ∃ n, m.tick ≤ n ∧ n < t.tick ∧ lock.ownerID = stamp m.storeID (clock n)
  replaced : ∀ info, m.locks lockKey = some info → ∃ n < t.tick, info.expiresAt ≤ clock n
  tick : m.tick ≤ t.tick

theorem wp_dropExpired (lockKey : String) (m : LockManager) :
    wp (dropExpired clock lockKey)
      (fun _ t => t.locks = Function.update m.locks lockKey none ∧ t.storeID = m.storeID ∧
        m.tick ≤ t.tick ∧ ∀ info, m.locks lockKey = some info →
          ∃ n < t.tick, info.expiresAt ≤ clock n)
      (fun _ t => t.locks = m.locks ∧ t.storeID = m.storeID ∧ m.tick ≤ t.tick) m := by
  simp only [dropExpired,wp_bind,wp_get]
  cases hm : m.locks lockKey with
  | none =>
    simp only [wp_pure]
    refine ⟨?_,trivial,Nat.le_refl _,by simp⟩
    rw [← hm,Function.update_eq_self]
  | some existing =>
    simp only [wp_bind,wp_readClock,wp_ite,wp_throw,wp_modify]
    split
    · exact ⟨rfl,rfl,by simp⟩
    · rename_i hexp
      refine ⟨rfl,rfl,by simp,?_⟩
      rintro info ⟨⟩
      exact ⟨m.tick,by simp,by omega⟩

theorem wp_acquireLock (lockKey : String) (ttl : Int) (m : LockManager) :
    wp (acquireLock clock lockKey ttl)
      (fun lock t => Acquired clock lockKey m t lock)
      (fun _ t => t.locks = m.locks ∧ t.storeID = m.storeID ∧ m.tick ≤ t.tick) m := by
  simp only [acquireLock,wp_bind]
  refine wp_mono (wp_dropExpired clock lockKey m) ?_ (fun _ _ he => he)
  rintro _ t ⟨hlocks,hstore,htick,hreplaced⟩
  simp only [wp_readClock,wp_get,wp_set,wp_pure]
  refine ⟨⟨_,congrArg (fun locks => Function.update locks lockKey _) hlocks |>.trans (by simp; rfl),
    rfl,rfl,rfl⟩,rfl,hstore,⟨t.tick+1,?_,?_,?_⟩,?_,?_⟩
  · omega
  · simp
  · simp [hstore]
  · intro info hinfo
    obtain ⟨n,hn,hle⟩ := hreplaced info hinfo
    refine ⟨n,?_,hle⟩
    simp
    omega
  · simp
    omega

/-- The reading that decides is the first, and an entry costs one more. -/
theorem wp_acquireLock_readings (key : String) (ttl : Int) (m : LockManager) :
    wp (acquireLock clock key ttl)
      (fun _ m' => (∀ info, m.locks key = some info → info.expiresAt ≤ clock m.tick) ∧
        m'.tick = if (m.locks key).isSome then m.tick+4 else m.tick+3)
      (fun _ _ => ¬ ∀ info, m.locks key = some info → info.expiresAt ≤ clock m.tick) m := by
  simp only [acquireLock,dropExpired,wp_bind,wp_get]
  cases hm : m.locks key with
  | none => simp [wp_readClock]
  | some existing =>
    simp only [wp_bind,wp_readClock,wp_ite,wp_throw,wp_modify,wp_set,wp_pure]
    split
    · rename_i hlive
      simpa using hlive
    · rename_i hexp
      exact ⟨by simpa using hexp,by simp⟩

/-- Release and renewal get past the owner check only with the entry's own handle. -/
theorem wp_ownedEntry (lock : DistributedLock) (m : LockManager) :
    wp (ownedEntry lock)
      (fun info t => t = m ∧ m.locks lock.lockKey = some info ∧ info.ownerID = lock.ownerID)
      (fun _ t => t = m ∧ ∀ info, m.locks lock.lockKey = some info →
        info.ownerID ≠ lock.ownerID) m := by
  simp only [ownedEntry,wp_bind,wp_get]
  cases hm : m.locks lock.lockKey with
  | none => exact ⟨rfl,by simp⟩
  | some existing =>
    simp only [wp_ite,wp_pure,wp_throw]
    split
    · rename_i ho
      exact ⟨trivial,trivial,ho⟩
    · rename_i ho
      refine ⟨trivial,?_⟩
      rintro info ⟨⟩
      exact ho

theorem wp_releaseLock (lock : DistributedLock) (m : LockManager) :
    wp (releaseLock lock)
      (fun _ t => t = m.setLock lock.lockKey none ∧
        ∃ info, m.locks lock.lockKey = some info ∧ info.ownerID = lock.ownerID)
      (fun _ t => t = m ∧ ∀ info, m.locks lock.lockKey = some info →
        info.ownerID ≠ lock.ownerID) m := by
  simp only [releaseLock,wp_bind]
  refine wp_mono (wp_ownedEntry lock m) ?_ (fun _ _ he => he)
  rintro info t ⟨rfl,hm,ho⟩
  exact ⟨rfl,info,hm,ho⟩

structure Renewed (lock : DistributedLock) (m t : LockManager) (lock' : DistributedLock) :
    Prop where
  entry : ∃ old info, m.locks lock.lockKey = some old ∧ old.ownerID = lock.ownerID ∧
    t.locks = Function.update m.locks lock.lockKey (some info) ∧ info.lockKey = old.lockKey ∧
    info.ownerID = lock.ownerID ∧ info.expiresAt = lock'.expiresAt
  key : lock'.lockKey = lock.lockKey
  owner : lock'.ownerID = lock.ownerID
  storeID : t.storeID = m.storeID
  tick : m.tick ≤ t.tick

theorem wp_renewLock (lock : DistributedLock) (ttl : Int) (m : LockManager) :
    wp (renewLock clock lock ttl)
      (fun lock' t => Renewed lock m t lock')
      (fun _ t => t.locks = m.locks ∧ t.storeID = m.storeID ∧ m.tick ≤ t.tick) m := by
  simp only [renewLock,wp_bind]
  refine wp_mono (wp_ownedEntry lock m) ?_ ?_
  · rintro info t ⟨rfl,hm,ho⟩
    simp only [wp_readClock,wp_ite,wp_throw,wp_bind,wp_modify,wp_pure]
    split
    · exact ⟨rfl,rfl,by simp⟩
    · exact ⟨⟨info,_,hm,ho,rfl,rfl,ho,rfl⟩,rfl,rfl,rfl,by simp; omega⟩
  · rintro e t ⟨rfl,-⟩
    exact ⟨rfl,rfl,Nat.le_refl _⟩

/-- A lookup may note in the entry that it has expired, and changes nothing else. -/
theorem wp_getLockInfo (lockKey : String) (m : LockManager) :
    wp (getLockInfo clock lockKey)
      (fun info t => t.storeID = m.storeID ∧ m.tick ≤ t.tick ∧
        t.locks = Function.update m.locks lockKey (some info) ∧
        ∃ old, m.locks lockKey = some old ∧ info.lockKey = old.lockKey ∧
          info.ownerID = old.ownerID ∧ info.expiresAt = old.expiresAt)
      (fun _ t => t = m) m := by
  simp only [getLockInfo,wp_bind,wp_get]
  cases hm : m.locks lockKey with
  | none => rfl
  | some old =>
    simp only [wp_bind,wp_readClock,wp_modify,wp_pure]
    refine ⟨rfl,by simp,rfl,old,rfl,?_⟩
    split <;> exact ⟨rfl,rfl,rfl⟩

theorem wp_cleanupExpired (m : LockManager) :
    wp (cleanupExpired clock)
      (fun _ t => t.storeID = m.storeID ∧ m.tick ≤ t.tick ∧
        (∀ key info, t.locks key = some info → m.locks key = some info) ∧
        ∀ key info, m.locks key = some info → t.locks key = some info ∨
          ∃ n < t.tick, info.expiresAt ≤ clock n)
      (fun _ _ => False) m := by
  simp only [cleanupExpired,wp_bind,wp_readClock,wp_modify]
  refine ⟨rfl,by simp,?_,?_⟩
  · intro key info ht
    simp only [LockManager.purge_locks,LockManager.advance_locks] at ht
    split at ht
    · cases ht
    · rename_i found hm
      split at ht
      · cases ht
      · rw [hm,ht]
  · intro key info hm
    by_cases hexp : info.expiresAt < clock m.tick
    · exact Or.inr ⟨m.tick,by simp,by omega⟩
    · exact Or.inl (by simp [hm,hexp])

end Specs

end Imy.Lock
