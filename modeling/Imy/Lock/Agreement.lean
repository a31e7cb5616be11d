import Imy.Lock.LockManager
set_option autoImplicit false

namespace Imy.Lock
open Imy.Lib

/-- A call by anybody, with a handle that may be made up. -/
inductive ManagerOp where
  | acquireLock (lockKey : String) (ttl : Int)
  | releaseLock (lock : DistributedLock)
  | renewLock (lock : DistributedLock) (ttl : Int)
  | isLocked (lockKey : String)
  | getLockInfo (lockKey : String)
  | cleanup
  deriving DecidableEq, Repr

def ManagerOp.exec (clock : Nat → Int) (m : LockManager) : ManagerOp → LockManager
  | .acquireLock lockKey ttl => final (Lock.acquireLock clock lockKey ttl) m
  | .releaseLock lock => final (Lock.releaseLock lock) m
  | .renewLock lock ttl => final (Lock.renewLock clock lock ttl) m
  | .isLocked lockKey => final (Lock.isLocked clock lockKey) m
  | .getLockInfo lockKey => final (Lock.getLockInfo clock lockKey) m
  | .cleanup => final (cleanupExpired clock) m

def runManager (clock : Nat → Int) (ops : List ManagerOp) (m : LockManager) : LockManager :=
  ops.foldl (ManagerOp.exec clock) m

inductive EntryAfter (clock : Nat → Int) (m t : LockManager) (key : String) (info : LockInfo) : Prop
  | kept (hold : m.locks key = some info)
  | marked {old : LockInfo} (hold : m.locks key = some old)
      (hinfo : info = { old with isActive := false })
      (hexpired : ∃ n < t.tick, old.expiresAt < clock n)
  | renewed {old : LockInfo} {expiresAt : Int} (hold : m.locks key = some old)
      (hinfo : info = { old with expiresAt := expiresAt }) (hlive : clock m.tick ≤ old.expiresAt)
  | acquired (hactive : info.isActive = true)
      (howner : ∃ n, m.tick ≤ n ∧ n < t.tick ∧ info.ownerID = stamp m.storeID (clock n))

structure ManagerStep (clock : Nat → Int) (m t : LockManager) : Prop where
  storeID : t.storeID = m.storeID
  tick : m.tick ≤ t.tick
  entries : ∀ key info, t.locks key = some info → EntryAfter clock m t key info

section Steps
variable {clock : Nat → Int} {m t : LockManager}

theorem ManagerStep.of_subset (hstore : t.storeID = m.storeID) (htick : m.tick ≤ t.tick)
    (hsub : ∀ key info, t.locks key = some info → m.locks key = some info) :
    ManagerStep clock m t :=
  ⟨hstore,htick,fun key info h => .kept (hsub key info h)⟩

theorem ManagerStep.of_locks_eq (hstore : t.storeID = m.storeID) (htick : m.tick ≤ t.tick)
    (hlocks : t.locks = m.locks) : ManagerStep clock m t :=
  .of_subset hstore htick fun _ _ h => hlocks ▸ h

theorem ManagerStep.of_update (key : String) {info : LockInfo} (hstore : t.storeID = m.storeID)
    (htick : m.tick ≤ t.tick) (hlocks : t.locks = Function.update m.locks key (some info))
    (hinfo : EntryAfter clock m t key info) : ManagerStep clock m t := by
  refine ⟨hstore,htick,?_⟩
  intro key' info' h
  by_cases hk : key' = key
  · subst hk
    rw [hlocks,Function.update_self] at h
    cases h
    exact hinfo
  · rw [hlocks,Function.update_of_ne hk] at h
    exact .kept h

theorem wp_acquireLock_step (clock : Nat → Int) (key : String) (ttl : Int) (m : LockManager) :
    wp (acquireLock clock key ttl) (fun _ t => ManagerStep clock m t)
      (fun _ t => ManagerStep clock m t) m := by
  simp only [acquireLock,wp_bind]
  refine wp_mono (wp_dropExpired clock key m) ?_ ?_
  · rintro _ t ⟨hlocks,hstore,htick,-⟩
    simp only [wp_readClock,wp_get,wp_set,wp_pure]
    refine .of_update key hstore ?_ (congrArg
      (Function.update · key _) hlocks |>.trans (by simp; rfl))
      (.acquired rfl ⟨t.tick+1,?_,?_,?_⟩)
    · simp; omega
    · omega
    · simp
    · simp [hstore]
  · rintro _ t ⟨hlocks,hstore,htick⟩
    exact .of_locks_eq hstore htick hlocks

theorem wp_renewLock_step (clock : Nat → Int) (lock : DistributedLock)
    (ttl : Int) (m : LockManager) :
    wp (renewLock clock lock ttl) (fun _ t => ManagerStep clock m t)
      (fun _ t => ManagerStep clock m t) m := by
  simp only [renewLock,wp_bind]
  refine wp_mono (wp_ownedEntry lock m) ?_ ?_
  · rintro info t ⟨rfl,hm,-⟩
    simp only [wp_readClock,wp_ite,wp_throw,wp_bind,wp_modify,wp_pure]
    split
    · exact .of_locks_eq rfl (by simp) rfl
    · rename_i hlive
      refine .of_update lock.lockKey rfl ?_ rfl (.renewed hm rfl (by omega))
      simp
      omega
  · rintro e t ⟨rfl,-⟩
    exact .of_locks_eq rfl (Nat.le_refl _) rfl

theorem wp_getLockInfo_step (clock : Nat → Int) (key : String) (m : LockManager) :
    wp (getLockInfo clock key) (fun _ t => ManagerStep clock m t)
      (fun _ t => ManagerStep clock m t) m := by
  simp only [getLockInfo,wp_bind,wp_get]
  cases hm : m.locks key with
  | none => exact .of_locks_eq rfl (Nat.le_refl _) rfl
  | some old =>
    simp only [wp_bind,wp_readClock,wp_modify,wp_pure]
    refine .of_update key rfl (by simp) rfl ?_
    split
    · rename_i hexp
      exact .marked hm rfl ⟨m.tick,by simp,hexp⟩
    · exact .kept hm

theorem ManagerOp.exec_step (clock : Nat → Int) (m : LockManager) (op : ManagerOp) :
    ManagerStep clock m (op.exec clock m) := by
  cases op with
  | acquireLock key ttl => exact final_of_wp (wp_acquireLock_step clock key ttl m)
  | releaseLock lock =>
    refine final_of_wp (wp_mono (wp_releaseLock lock m) ?_ ?_)
    · rintro _ t ⟨rfl,-⟩
      refine .of_subset rfl (Nat.le_refl _) ?_
      intro key info h
      by_cases hk : key = lock.lockKey
      · simp [hk] at h
      · simpa [hk] using h
    · rintro _ t ⟨rfl,-⟩
      exact .of_locks_eq rfl (Nat.le_refl _) rfl
  | renewLock lock ttl => exact final_of_wp (wp_renewLock_step clock lock ttl m)
  | isLocked key =>
    refine final_of_wp (P := ManagerStep clock m) (x := Lock.isLocked clock key) ?_
    simp only [Lock.isLocked,wp_bind,wp_get]
    cases m.locks key with
    | none => exact .of_locks_eq rfl (Nat.le_refl _) rfl
    | some info => exact .of_locks_eq rfl (Nat.le_succ _) rfl
  | getLockInfo key => exact final_of_wp (wp_getLockInfo_step clock key m)
  | cleanup =>
    refine final_of_wp (wp_mono (wp_cleanupExpired clock m) ?_ (fun _ _ h => h.elim))
    rintro _ t ⟨hstore,htick,hsub,-⟩
    exact .of_subset hstore htick hsub

/-- Everything but an acquisition keeps an entry's owner, and only a renewal its
expiry. -/
theorem EntryAfter.before {key : String} {info : LockInfo} (he : EntryAfter clock m t key info)
    (hnew : ¬ ∃ n, m.tick ≤ n ∧ n < t.tick ∧ info.ownerID = stamp m.storeID (clock n)) :
    ∃ old, m.locks key = some old ∧ info.lockKey = old.lockKey ∧ info.ownerID = old.ownerID := by
  cases he with
  | kept hold => exact ⟨info,hold,rfl,rfl⟩
  | @marked old hold hinfo hexpired => exact ⟨old,hold,by rw [hinfo],by rw [hinfo]⟩
  | @renewed old expiresAt hold hinfo hlive => exact ⟨old,hold,by rw [hinfo],by rw [hinfo]⟩
  | acquired hactive howner => exact (hnew howner).elim

end Steps

/-- An entry that was noted as expired has expired. The note is never taken back,
so a renewal must not find it. -/
def Noted (clock : Nat → Int) (m : LockManager) : Prop :=
  ∀ key info, m.locks key = some info → info.isActive = false →
    ∃ n < m.tick, info.expiresAt < clock n

theorem Noted.step {clock : Nat → Int} (hmono : ∀ i j, i ≤ j → clock i ≤ clock j)
    {m t : LockManager} (hm : Noted clock m) (hs : ManagerStep clock m t) : Noted clock t := by
  intro key info hin hinactive
  cases hs.entries key info hin with
  | kept hold =>
    obtain ⟨n,hn,hlt⟩ := hm key info hold hinactive
    exact ⟨n,hn.trans_le hs.tick,hlt⟩
  | marked hold hinfo hexpired => rw [hinfo]; exact hexpired
  | renewed hold hinfo hlive =>
    rw [hinfo] at hinactive
    obtain ⟨n,hn,hlt⟩ := hm key _ hold hinactive
    have := hmono n m.tick (Nat.le_of_lt hn)
    omega
  | acquired hactive howner => simp [hactive] at hinactive

theorem Noted.run {clock : Nat → Int} (hmono : ∀ i j, i ≤ j → clock i ≤ clock j)
    (ops : List ManagerOp)
    {m : LockManager} (hm : Noted clock m) : Noted clock (runManager clock ops m) := by
  induction ops generalizing m with
  | nil => exact hm
  | cons op ops ih => exact ih (hm.step hmono (op.exec_step clock m))

/-- `AcquireLock` with every reading at `t` reports that the lock is taken. -/
def refused (t : Int) (lockKey : String) (ttl : Int) (m : LockManager) : Bool :=
  !succeeds (acquireLock (fun _ => t) lockKey ttl) m

def lockedAt (t : Int) (lockKey : String) (m : LockManager) : Bool :=
  (answer (isLocked (fun _ => t) lockKey) m).any fun locked => locked

def shownActive (t : Int) (lockKey : String) (m : LockManager) : Bool :=
  (answer (getLockInfo (fun _ => t) lockKey) m).any (·.isActive)

/-- `RenewLock` through a handle of the stored owner. -/
def RenewableAt (t : Int) (lockKey : String) (ttl : Int) (m : LockManager) : Prop :=
  ∃ info lock, m.locks lockKey = some info ∧ lock.lockKey = lockKey ∧
    lock.ownerID = info.ownerID ∧ succeeds (renewLock (fun _ => t) lock ttl) m = true

/-- The four operations give the same answer at `t`. -/
structure AgreeAt (t : Int) (lockKey : String) (ttl newTTL : Int) (m : LockManager) : Prop where
  locked : refused t lockKey ttl m = true ↔ lockedAt t lockKey m = true
  renewable : refused t lockKey ttl m = true ↔ RenewableAt t lockKey newTTL m
  active : refused t lockKey ttl m = true ↔ shownActive t lockKey m = true

section Verdicts
variable {t : Int} {lockKey : String} {m : LockManager}

theorem refused_iff (ttl : Int) :
    refused t lockKey ttl m = true ↔ ∃ info, m.locks lockKey = some info ∧ t < info.expiresAt := by
  have hok : succeeds (acquireLock (fun _ => t) lockKey ttl) m = true ↔
      ¬ ∃ info, m.locks lockKey = some info ∧ t < info.expiresAt := by
    refine succeeds_iff_of_wp ?_
    simp only [acquireLock,dropExpired,wp_bind,wp_get]
    cases hm : m.locks lockKey with
    | none => simp [wp_readClock]
    | some existing =>
      simp only [wp_bind,wp_readClock,wp_ite,wp_throw,wp_modify]
      split
      · rename_i hlt
        simpa using hlt
      · rename_i hlt
        simpa [wp_readClock] using hlt
  simp only [refused,Bool.not_eq_true',← Bool.not_eq_true,hok,not_not]

theorem lockedAt_iff :
    lockedAt t lockKey m = true ↔ ∃ info, m.locks lockKey = some info ∧ t ≤ info.expiresAt := by
  refine any_answer_iff_of_wp ?_
  simp only [isLocked,wp_bind,wp_get]
  cases hm : m.locks lockKey with
  | none => simp
  | some info =>
    simp only [wp_bind,wp_readClock,wp_pure]
    simp

theorem shownActive_iff :
    shownActive t lockKey m = true ↔
      ∃ info, m.locks lockKey = some info ∧ t ≤ info.expiresAt ∧ info.isActive = true := by
  refine any_answer_iff_of_wp ?_
  simp only [getLockInfo,wp_bind,wp_get]
  cases hm : m.locks lockKey with
  | none => simp
  | some info =>
    simp only [wp_bind,wp_readClock,wp_modify,wp_pure,Option.some.injEq]
    split
    · rename_i hlt
      simp
      omega
    · rename_i hlt
      simp
      omega

theorem renewableAt_iff (ttl : Int) :
    RenewableAt t lockKey ttl m ↔ ∃ info, m.locks lockKey = some info ∧ t ≤ info.expiresAt := by
  have hrenew (info : LockInfo) (lock : DistributedLock) (hm : m.locks lock.lockKey = some info)
      (howner : info.ownerID = lock.ownerID) :
      succeeds (renewLock (fun _ => t) lock ttl) m = true ↔ t ≤ info.expiresAt := by
    refine succeeds_iff_of_wp ?_
    simp only [renewLock,ownedEntry,wp_bind,wp_get,hm,if_pos howner,wp_pure,wp_readClock,wp_ite,
      wp_throw,wp_modify]
    split <;> omega
  constructor
  · rintro ⟨info,lock,hm,rfl,howner,hok⟩
    exact ⟨info,hm,(hrenew info lock hm howner.symm).mp hok⟩
  · rintro ⟨info,hm,hle⟩
    let lock : DistributedLock := ⟨lockKey,info.lockID,info.ownerID,info.storeID,info.acquiredAt,
      info.expiresAt,ttl⟩
    exact ⟨info,lock,hm,rfl,rfl,(hrenew info lock hm rfl).mpr hle⟩

end Verdicts

/-- At the reading that equals the expiry an acquisition takes the lock over while
the other operations still take it for held. At every other reading that is not
before the ones already made, they agree. -/
theorem operations_agree_iff (clock : Nat → Int) (hmono : ∀ i j, i ≤ j → clock i ≤ clock j)
    (storeID : String)
    (ops : List ManagerOp) (m : LockManager)
    (hm : m = runManager clock ops (newLockManager storeID))
    (t : Int) (ht : ∀ n < m.tick, clock n ≤ t) (lockKey : String) (ttl newTTL : Int) :
    AgreeAt t lockKey ttl newTTL m ↔ ∀ info, m.locks lockKey = some info → info.expiresAt ≠ t := by
  have hnoted : Noted clock m := hm ▸ Noted.run hmono ops (by simp [Noted,newLockManager])
  constructor
  · rintro hagree info hin rfl
    have hlocked := hagree.locked
    rw [refused_iff,lockedAt_iff] at hlocked
    obtain ⟨info',hin',hlt⟩ := hlocked.mpr ⟨info,hin,Int.le_refl _⟩
    rw [hin] at hin'
    cases hin'
    omega
  · intro hne
    have hstrict : (∃ info, m.locks lockKey = some info ∧ t < info.expiresAt) ↔
        ∃ info, m.locks lockKey = some info ∧ t ≤ info.expiresAt := by
      refine exists_congr fun info => and_congr_right fun hin => ?_
      have := hne info hin
      omega
    have hactive : (∃ info, m.locks lockKey = some info ∧ t ≤ info.expiresAt) ↔
        ∃ info, m.locks lockKey = some info ∧ t ≤ info.expiresAt ∧ info.isActive = true := by
      refine exists_congr fun info => and_congr_right fun hin =>
        (and_iff_left_of_imp fun hle => ?_).symm
      -- a note would say that a reading already made was after the expiry
      by_contra hinactive
      obtain ⟨n,hn,hlt⟩ := hnoted lockKey info hin (by simpa using hinactive)
      have := ht n hn
      omega
    refine ⟨?_,?_,?_⟩
    · rw [refused_iff,lockedAt_iff,hstrict]
    · rw [refused_iff,renewableAt_iff,hstrict]
    · rw [refused_iff,shownActive_iff,hstrict,hactive]

/-- One lock, taken at 2 for 5. -/
def heldUntilSeven : LockManager :=
  runManager (fun n => n) [ManagerOp.acquireLock "k" 5] (newLockManager "store_1")

theorem operations_disagree_at_expiry :
    heldUntilSeven.tick = 3 ∧ refused 7 "k" 5 heldUntilSeven = false ∧
    lockedAt 7 "k" heldUntilSeven = true ∧ shownActive 7 "k" heldUntilSeven = true ∧
    ¬ AgreeAt 7 "k" 5 5 heldUntilSeven := by
  have hrefused : refused 7 "k" 5 heldUntilSeven = false := by decide +kernel
  have hlocked : lockedAt 7 "k" heldUntilSeven = true := by decide +kernel
  refine ⟨by decide +kernel,hrefused,hlocked,by decide +kernel,fun hagree => ?_⟩
  simpa [hrefused] using hagree.locked.mpr hlocked

theorem operations_agree_before_expiry : AgreeAt 6 "k" 5 5 heldUntilSeven := by
  refine (operations_agree_iff (fun n => n) (fun _ _ h => Int.ofNat_le.mpr h) "store_1"
    [ManagerOp.acquireLock "k" 5] _ rfl 6 ?_ "k" 5 5).mpr ?_
  · have htick : (runManager (fun n => n) [ManagerOp.acquireLock "k" 5]
        (newLockManager "store_1")).tick = 3 := by decide +kernel
    intro n hn
    rw [htick] at hn
    omega
  · have hexp : ((runManager (fun n => n) [ManagerOp.acquireLock "k" 5]
        (newLockManager "store_1")).locks "k").map (·.expiresAt) = some 7 := by decide +kernel
    intro info hin
    rw [hin] at hexp
    simp at hexp
    omega

end Imy.Lock
