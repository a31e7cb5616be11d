import Imy.Lock.Agreement
import Imy.Txn.ExecuteSteps
import Imy.Txn.Rounds
set_option autoImplicit false

namespace Imy.Txn
open Imy.Lib Imy.Lock

/-- What others may do to the lock table: an entry has the owner of the one before, or
one that is named after a reading made meanwhile. -/
structure Meddled (clock : Nat → Int) (m t : LockManager) : Prop where
  storeID : t.storeID = m.storeID
  tick : m.tick ≤ t.tick
  entries : ∀ key info, t.locks key = some info →
    (∃ old, m.locks key = some old ∧ info.lockKey = old.lockKey ∧ info.ownerID = old.ownerID) ∨
    ∃ n, m.tick ≤ n ∧ n < t.tick ∧ info.ownerID = stamp m.storeID (clock n)

section Meddled
variable {clock : Nat → Int} {m t u : LockManager}

theorem Meddled.refl (m : LockManager) : Meddled clock m m :=
  ⟨rfl,Nat.le_refl _,fun _ info h => Or.inl ⟨info,h,rfl,rfl⟩⟩

theorem Meddled.trans (h : Meddled clock m t) (h' : Meddled clock t u) : Meddled clock m u := by
  refine ⟨h'.storeID.trans h.storeID,Nat.le_trans h.tick h'.tick,fun key info hu => ?_⟩
  rcases h'.entries key info hu with ⟨mid,hmid,hkey,howner⟩ | ⟨n,hn,hlt,howner⟩
  · rcases h.entries key mid hmid with ⟨old,hold,hkey',howner'⟩ | ⟨n,hn,hlt,howner'⟩
    · exact Or.inl ⟨old,hold,hkey.trans hkey',howner.trans howner'⟩
    · exact Or.inr ⟨n,hn,Nat.lt_of_lt_of_le hlt h'.tick,howner.trans howner'⟩
  · exact Or.inr ⟨n,Nat.le_trans h.tick hn,hlt,by rw [howner,h.storeID]⟩

theorem Meddled.of_step (h : ManagerStep clock m t) : Meddled clock m t := by
  refine ⟨h.storeID,h.tick,fun key info ht => ?_⟩
  by_cases hnew : ∃ n, m.tick ≤ n ∧ n < t.tick ∧ info.ownerID = stamp m.storeID (clock n)
  · exact Or.inr hnew
  · exact Or.inl ((h.entries key info ht).before hnew)

theorem Meddled.advance (m : LockManager) : Meddled clock m m.advance :=
  ⟨rfl,Nat.le_succ _,fun _ info h => Or.inl ⟨info,h,rfl,rfl⟩⟩

theorem Meddled.delete (m : LockManager) (key : String) : Meddled clock m (m.setLock key none) := by
  refine ⟨rfl,Nat.le_refl _,fun key' info h => ?_⟩
  by_cases hk : key' = key
  · simp [hk] at h
  · exact Or.inl ⟨info,by simpa [hk] using h,rfl,rfl⟩

theorem Meddled.of_acquired {key : String} {lock : DistributedLock}
    (h : Acquired clock key m t lock) : Meddled clock m t := by
  obtain ⟨info,hlocks,-,howner,-⟩ := h.entry
  refine ⟨h.storeID,h.tick,fun key' info' ht => ?_⟩
  by_cases hk : key' = key
  · subst hk
    rw [hlocks,Function.update_self] at ht
    cases ht
    rw [howner]
    exact Or.inr h.owner
  · rw [hlocks,Function.update_of_ne hk] at ht
    exact Or.inl ⟨info',ht,rfl,rfl⟩

end Meddled

def ManagerOnly {σ : Type} (clock : Nat → Int) (c c' : Coordinator σ) : Prop :=
  ∃ m, c' = c.setLocks m ∧ Meddled clock c.lockManager m

section ManagerOnly
variable {σ : Type} {clock : Nat → Int}

theorem ManagerOnly.refl (c : Coordinator σ) : ManagerOnly clock c c := ⟨c.lockManager,rfl,.refl _⟩

theorem ManagerOnly.trans (c c₁ c₂ : Coordinator σ) (h : ManagerOnly clock c c₁)
    (h' : ManagerOnly clock c₁ c₂) : ManagerOnly clock c c₂ := by
  obtain ⟨m,rfl,hm⟩ := h
  obtain ⟨m',rfl,hm'⟩ := h'
  exact ⟨m',rfl,hm.trans hm'⟩

theorem locking_managerOnly {α : Type} {x : LockM α} {c : Coordinator σ}
    (h : Meddled clock c.lockManager (final x c.lockManager)) :
    ManagerOnly clock c (final (locking x) c) := by
  refine ⟨final x c.lockManager,?_,h⟩
  simp only [final,locking]
  cases x c.lockManager <;> rfl

theorem Request.AtManager.managerOnly (q : Request) (c : Coordinator σ) (hq : q.AtManager) :
    ManagerOnly clock c (perform (Request.action clock) q c).2 := by
  have hop (op : ManagerOp) : Meddled clock c.lockManager (op.exec clock c.lockManager) :=
    .of_step (op.exec_step clock _)
  rw [perform_snd]
  cases q with
  | acquireLock key ttl => exact locking_managerOnly (hop (.acquireLock key ttl))
  | releaseLock lock => exact locking_managerOnly (hop (.releaseLock lock))
  | renewLock lock ttl => exact locking_managerOnly (hop (.renewLock lock ttl))
  | isLocked key => exact locking_managerOnly (hop (.isLocked key))
  | getLockInfo key => exact locking_managerOnly (hop (.getLockInfo key))
  | cleanup => exact locking_managerOnly (x := cleanupExpired clock) (hop .cleanup)
  | now => exact ⟨c.lockManager.advance,rfl,.advance _⟩
  | _ => exact hq.elim

end ManagerOnly

def acquired : Sigma Answer → Option DistributedLock
  | ⟨.acquireLock _ _,.ok (.ok lock)⟩ => some lock
  | _ => none

/-- Each lock that the call got has the name of a reading that was made, and if its entry
is still there it is the one that was made for it, and is among those still to do. -/
def Accounted (clock : Nat → Int) (todo : DistributedLock → Prop) (h : Trace Request Answer)
    (m : LockManager) : Prop :=
  ∀ lock ∈ h.filterMap acquired, (∃ n < m.tick, lock.ownerID = stamp m.storeID (clock n)) ∧
    ∀ info, m.locks lock.lockKey = some info → info.ownerID = lock.ownerID →
      info.lockKey = lock.lockKey ∧ todo lock

section Accounted
variable {clock : Nat → Int} {todo todo' : DistributedLock → Prop} {h : Trace Request Answer}
  {m t : LockManager}

theorem Accounted.imp (ha : Accounted clock todo h m)
    (htodo : ∀ lock info, m.locks lock.lockKey = some info → info.ownerID = lock.ownerID →
      info.lockKey = lock.lockKey → todo lock → todo' lock) : Accounted clock todo' h m := by
  intro lock hlock
  obtain ⟨howner,hentry⟩ := ha lock hlock
  refine ⟨howner,fun info hinfo heq => ?_⟩
  obtain ⟨hkey,hto⟩ := hentry info hinfo heq
  exact ⟨hkey,htodo lock info hinfo heq hkey hto⟩

theorem Accounted.answered {e : Sigma Answer} (he : acquired e = none)
    (ha : Accounted clock todo h m) : Accounted clock todo (h ++ [e]) m := by
  intro lock hlock
  rw [List.filterMap_append,List.filterMap_cons_none he] at hlock
  exact ha lock (by simpa using hlock)

/-- An owner that was named before is named after no later reading. -/
theorem Accounted.meddled (hclock : Function.Injective clock) (ha : Accounted clock todo h m)
    (hm : Meddled clock m t) : Accounted clock todo h t := by
  intro lock hlock
  obtain ⟨⟨n,hn,howner⟩,hentry⟩ := ha lock hlock
  refine ⟨⟨n,Nat.lt_of_lt_of_le hn hm.tick,by rw [howner,hm.storeID]⟩,fun info hinfo heq => ?_⟩
  rcases hm.entries lock.lockKey info hinfo with ⟨old,hold,hkey,howner'⟩ | ⟨n',hn',-,howner'⟩
  · obtain ⟨hkey',hto⟩ := hentry old hold (howner'.symm.trans heq)
    exact ⟨hkey.trans hkey',hto⟩
  · have hsame := hclock (stamp_injective (howner'.symm.trans (heq.trans howner)))
    omega

theorem Accounted.acquire (hclock : Function.Injective clock) {key : String} {ttl : Int}
    {lock : DistributedLock} (ha : Accounted clock todo h m) (hgot : Acquired clock key m t lock) :
    Accounted clock (fun l => todo l ∨ l = lock)
      (h ++ [⟨.acquireLock key ttl,.ok (.ok lock)⟩]) t := by
  intro l hl
  rw [List.filterMap_append,List.mem_append] at hl
  rcases hl with hl | hl
  · obtain ⟨howner,hentry⟩ := ha.meddled hclock (.of_acquired hgot) l hl
    refine ⟨howner,fun info hinfo heq => ?_⟩
    obtain ⟨hkey,hto⟩ := hentry info hinfo heq
    exact ⟨hkey,Or.inl hto⟩
  · have heq : l = lock := by simpa [acquired] using hl
    subst heq
    obtain ⟨n,-,hn,howner⟩ := hgot.owner
    obtain ⟨info,hlocks,hkey,-,-⟩ := hgot.entry
    refine ⟨⟨n,hn,by rw [howner,hgot.storeID]⟩,fun info' hinfo' _ => ?_⟩
    rw [hlocks,hgot.key,Function.update_self] at hinfo'
    cases hinfo'
    exact ⟨hkey.trans hgot.key.symm,Or.inr rfl⟩

theorem Accounted.lookedUp {key : String} {info : LockInfo}
    (ha : Accounted clock (fun lock => lock.lockKey = key ∨ todo lock) h m)
    (hfound : m.locks key = some info) :
    Accounted clock (fun lock => (lock.lockKey = info.lockKey ∧ lock.ownerID = info.ownerID) ∨
      todo lock) h m := by
  refine ha.imp fun lock info' hinfo' howner hkey hto => ?_
  rcases hto with rfl | hto
  · rw [hfound] at hinfo'
    cases hinfo'
    exact Or.inl ⟨hkey.symm,howner.symm⟩
  · exact Or.inr hto

theorem Accounted.missing {key : String}
    (ha : Accounted clock (fun lock => lock.lockKey = key ∨ todo lock) h m)
    (hmissing : m.locks key = none) : Accounted clock todo h m := by
  refine ha.imp fun lock info hinfo _ _ hto => ?_
  rcases hto with rfl | hto
  · rw [hmissing] at hinfo
    cases hinfo
  · exact hto

theorem Accounted.released {key owner : String}
    (ha : Accounted clock (fun lock => (lock.lockKey = key ∧ lock.ownerID = owner) ∨ todo lock) h m)
    (hgone : ∀ info, m.locks key = some info → info.ownerID ≠ owner) :
    Accounted clock todo h m := by
  refine ha.imp fun lock info hinfo howner _ hto => ?_
  rcases hto with ⟨rfl,rfl⟩ | hto
  · exact (hgone info hinfo howner).elim
  · exact hto

end Accounted

abbrev Among {σ α : Type} (clock : Nat → Int) (P : Trace Request Answer → α → Coordinator σ → Prop)
    (E : Trace Request Answer → Fault → Coordinator σ → Prop) (h : Trace Request Answer)
    (x : TxnProg α) (c : Coordinator σ) : Prop :=
  x.Amid (perform (Request.action clock)) (ManagerOnly clock) P E h c

theorem among_call {σ : Type} {clock : Nat → Int} (q : Request)
    {P : Trace Request Answer → q.Result → Coordinator σ → Prop}
    {E : Trace Request Answer → Fault → Coordinator σ → Prop} {h : Trace Request Answer}
    {c : Coordinator σ} {I : Coordinator σ → Prop} (stable : Prog.Stable (ManagerOnly clock) I)
    (start : I c) (hwp : ∀ c, I c → wp (q.action clock) (fun a c' => P (h ++ [⟨q,.ok a⟩]) a c')
      (fun e c' => E (h ++ [⟨q,.error e⟩]) e c') c) : Among clock P E h (TxnProg.call q) c :=
  Prog.amid_call stable start hwp

def Clear {σ : Type} (clock : Nat → Int) (h : Trace Request Answer) (c : Coordinator σ) : Prop :=
  Accounted clock (fun _ => False) h c.lockManager

def Found (clock : Nat → Int) (todo : DistributedLock → Prop) (h : Trace Request Answer)
    (found : Except LockError LockInfo) (m : LockManager) : Prop :=
  match found with
  | .ok info => Accounted clock (fun lock => (lock.lockKey = info.lockKey ∧
      lock.ownerID = info.ownerID) ∨ todo lock) h m
  | .error _ => Accounted clock todo h m

section Release
variable {σ : Type} {clock : Nat → Int} (hclock : Function.Injective clock)
  {todo : DistributedLock → Prop} {E : Trace Request Answer → Fault → Coordinator σ → Prop}
  {h : Trace Request Answer} {c : Coordinator σ}
include hclock

theorem accounted_stable (todo : DistributedLock → Prop) (h : Trace Request Answer) :
    Prog.Stable (ManagerOnly clock)
      fun c : Coordinator σ => Accounted clock todo h c.lockManager := by
  rintro c _ ⟨m,rfl,hm⟩ ha
  exact ha.meddled hclock hm

theorem releaseOne_accounted {key : String}
    (ha : Accounted clock (fun lock => lock.lockKey = key ∨ todo lock) h c.lockManager) :
    Among clock (fun h _ c => Accounted clock todo h c.lockManager) E h
      (TxnProg.releaseOne key) c := by
  have hlook : Among clock (fun h found c => Found clock todo h found c.lockManager) E h
      (TxnProg.call (.getLockInfo key)) c := by
    refine among_call (.getLockInfo key) (accounted_stable hclock _ h) ha fun c ha => ?_
    have hfound : wp (getLockInfo clock key) (fun info m => m.locks key = some info)
        (fun _ m => m.locks key = none) c.lockManager := by
      simp only [getLockInfo,wp_bind,wp_get]
      cases hm : c.lockManager.locks key with
      | none => exact hm
      | some old =>
        simp only [wp_bind,wp_readClock,wp_modify,wp_pure]
        simp
    simp only [Request.action,wp_locking]
    refine wp_mono (wp_and hfound (wp_getLockInfo_step clock key c.lockManager)) ?_ ?_
    · rintro info m ⟨hinfo,hstep⟩
      exact ((ha.meddled hclock (.of_step hstep)).lookedUp hinfo).answered rfl
    · rintro e m ⟨hnone,hstep⟩
      exact ((ha.meddled hclock (.of_step hstep)).missing hnone).answered rfl
  refine hlook.bind fun h found c ha => ?_
  cases found with
  | error e => exact ha
  | ok info =>
    have hrelease : Among clock (fun h _ c => Accounted clock todo h c.lockManager) E h
        (TxnProg.call (.releaseLock (rebuilt info))) c := by
      refine among_call (.releaseLock (rebuilt info))
        (accounted_stable hclock _ h) ha fun c ha => ?_
      simp only [Request.action,wp_locking]
      refine wp_mono (wp_releaseLock (rebuilt info) c.lockManager) ?_ ?_
      · rintro _ m ⟨rfl,-⟩
        have hgone := (ha.meddled hclock (.delete _ info.lockKey)).released (by simp)
        exact hgone.answered rfl
      · rintro e m ⟨rfl,hgone⟩
        exact (ha.released hgone).answered rfl
    exact hrelease.bind fun h _ c ha => ha

theorem releaseLocks_accounted {keys : List String}
    (ha : Accounted clock (fun lock => lock.lockKey ∈ keys) h c.lockManager) :
    Among clock (fun h _ c => Clear clock h c) E h (TxnProg.releaseLocks keys) c := by
  refine (Prog.amid_forM (I := fun rest h c => Accounted clock (fun lock => lock.lockKey ∈ rest) h
    c.lockManager) keys ha ?_).mono ?_ fun _ _ _ h => h
  · intro key rest h c ha
    refine releaseOne_accounted hclock (ha.imp fun lock _ _ _ _ hto => ?_)
    exact List.mem_cons.mp hto
  · intro h _ c ha
    exact ha.imp fun lock _ _ _ _ hto => by simp at hto

end Release

/-- The transaction knows every lock that the call has got and not given back. -/
structure Holding {σ : Type} (clock : Nat → Int) (S : TransactionStatus → Prop) (t : Nat)
    (h : Trace Request Answer) (c : Coordinator σ) : Prop where
  accounted : Accounted clock (fun lock => lock.lockKey ∈ (c.txns t).locks) h c.lockManager
  status : S (c.txns t).status

structure Ongoing {σ : Type} (clock : Nat → Int) (S : TransactionStatus → Prop) (txnID : String)
    (t : Nat) (h : Trace Request Answer) (c : Coordinator σ) : Prop extends
    Holding clock S t h c where
  named : (c.txns t).transactionID = txnID
  registered : c.transactions txnID = some t

structure Aside {σ : Type} (c c' : Coordinator σ) : Prop where
  lockManager : c'.lockManager = c.lockManager
  txns : c'.txns = c.txns
  transactions : c'.transactions = c.transactions

section Aside
variable {σ : Type} (txnID : String) (p : Nat) (c : Coordinator σ)

theorem wp_prepareOne_aside :
    wp (prepareOne txnID p) (fun _ c' => Aside c c') (fun _ c' => Aside c c') c := by
  refine wp_mono (wp_prepareOne txnID p c) ?_ ?_
  · intro _ c' hr
    cases hr <;> exact ⟨rfl,rfl,rfl⟩
  · intro e c' hr
    cases hr <;> exact ⟨rfl,rfl,rfl⟩

theorem wp_commitOne_aside (errors : List String) :
    wp (commitOne txnID errors p) (fun _ c' => Aside c c') (fun _ c' => Aside c c') c := by
  refine wp_mono (wp_commitOne txnID p c errors) ?_ ?_
  · intro errors' c' hr
    cases hr <;> exact ⟨rfl,rfl,rfl⟩
  · rintro e c' ⟨-,handler,loss,w,-,-,-,rfl⟩
    exact ⟨rfl,rfl,rfl⟩

theorem wp_abortOne_aside :
    wp (abortOne txnID p) (fun _ c' => Aside c c') (fun e _ => e.Lost) c := by
  refine wp_mono (wp_abortOne txnID p c) ?_ ?_
  · intro _ c' hr
    cases hr <;> exact ⟨rfl,rfl,rfl⟩
  · rintro _ c' ⟨handler,loss,w,rfl,-⟩
    simp

end Aside

section Ongoing
variable {σ : Type} {clock : Nat → Int} (hclock : Function.Injective clock)
  {S : TransactionStatus → Prop} {txnID : String} {t : Nat}
  {E : Trace Request Answer → Fault → Coordinator σ → Prop} {h : Trace Request Answer}
  {c c' : Coordinator σ}

theorem Ongoing.uncommitted {status : TransactionStatus}
    (ho : Ongoing clock (· = status) txnID t h c) (hne : status ≠ .committed) :
    Ongoing clock (· ≠ .committed) txnID t h c :=
  ⟨⟨ho.accounted,by rw [ho.status]; exact hne⟩,ho.named,ho.registered⟩

theorem Holding.answered {e : Sigma Answer} (he : acquired e = none) (hh : Holding clock S t h c) :
    Holding clock S t (h ++ [e]) c := ⟨hh.accounted.answered he,hh.status⟩

theorem Ongoing.answered {e : Sigma Answer} (he : acquired e = none)
    (ho : Ongoing clock S txnID t h c) : Ongoing clock S txnID t (h ++ [e]) c :=
  ⟨ho.toHolding.answered he,ho.named,ho.registered⟩

theorem Ongoing.aside (ho : Ongoing clock S txnID t h c) (ha : Aside c c') :
    Ongoing clock S txnID t h c' := by
  refine ⟨⟨?_,?_⟩,?_,?_⟩
  · rw [ha.txns,ha.lockManager]
    exact ho.accounted
  · rw [ha.txns]
    exact ho.status
  · rw [ha.txns]
    exact ho.named
  · rw [ha.transactions]
    exact ho.registered

include hclock

theorem holding_stable :
    Prog.Stable (ManagerOnly clock) fun c : Coordinator σ => Holding clock S t h c := by
  rintro c _ ⟨m,rfl,hm⟩ hh
  exact ⟨hh.accounted.meddled hclock hm,hh.status⟩

theorem ongoing_stable :
    Prog.Stable (ManagerOnly clock) fun c : Coordinator σ => Ongoing clock S txnID t h c := by
  rintro c _ ⟨m,rfl,hm⟩ ho
  exact ⟨⟨ho.accounted.meddled hclock hm,ho.status⟩,ho.named,ho.registered⟩

theorem among_findTransaction (ho : Ongoing clock S txnID t h c) :
    Among clock (fun h t' c => t = t' ∧ Ongoing clock S txnID t h c) E h
      (TxnProg.call (.findTransaction txnID)) c := by
  refine among_call (.findTransaction txnID) (ongoing_stable hclock) ho fun c ho => ?_
  simp only [Request.action,wp_findTransaction ho.registered]
  exact ⟨trivial,ho.answered rfl⟩

theorem among_txn (ho : Ongoing clock S txnID t h c) :
    Among clock (fun h txn c => txn = c.txns t ∧ Ongoing clock S txnID t h c) E h
      (TxnProg.call (.txn t)) c := by
  refine among_call (.txn t) (ongoing_stable hclock) ho fun c ho => ?_
  exact ⟨rfl,ho.answered rfl⟩

theorem among_now (ho : Ongoing clock S txnID t h c) :
    Among clock (fun h _ c => Ongoing clock S txnID t h c) E h (TxnProg.call .now) c := by
  refine among_call .now (ongoing_stable hclock) ho fun c ho => ?_
  exact (ongoing_stable hclock c _ ⟨c.lockManager.advance,rfl,.advance _⟩ ho).answered rfl

theorem among_modifyTxn {f : DistributedTransaction → DistributedTransaction}
    (ho : Ongoing clock S txnID t h c) (status : TransactionStatus) (hf : ∀ txn,
      (f txn).locks = txn.locks ∧ (f txn).transactionID = txn.transactionID ∧
        (f txn).status = status) :
    Among clock (fun h _ c => Ongoing clock (· = status) txnID t h c) E h
      (TxnProg.call (.modifyTxn t f)) c := by
  refine among_call (.modifyTxn t f) (ongoing_stable hclock) ho fun c ho => ?_
  obtain ⟨hlocks,hname,hstatus⟩ := hf (c.txns t)
  refine Ongoing.answered rfl ⟨⟨?_,?_⟩,?_,ho.registered⟩
  · simpa [hlocks] using ho.accounted
  · simpa using hstatus
  · simpa [hname] using ho.named

end Ongoing

/-- The lock that an attempt has got is not in the transaction's list yet. -/
def Tried {σ : Type} (clock : Nat → Int) (t : Nat) (h : Trace Request Answer)
    (tried : Except LockError DistributedLock) (c : Coordinator σ) : Prop :=
  match tried with
  | .ok lock => Accounted clock (fun l => l.lockKey ∈ (c.txns t).locks ∨ l = lock) h c.lockManager ∧
      (c.txns t).status = .pending
  | .error _ => Holding clock (· = .pending) t h c

section Begin
variable {σ : Type} {clock : Nat → Int} (hclock : Function.Injective clock) {t : Nat}
  {E : Trace Request Answer → Fault → Coordinator σ → Prop} {h : Trace Request Answer}
  {c : Coordinator σ}

theorem among_reading (hnone : h.filterMap acquired = []) :
    Among clock (fun h _ _ => h.filterMap acquired = []) E h (TxnProg.call .now) c := by
  refine among_call .now (I := fun _ => True) (fun _ _ _ _ => trivial) trivial fun c _ => ?_
  change (h ++ [_]).filterMap acquired = []
  rw [List.filterMap_append,hnone]
  rfl

theorem allocate_holding (ps : List Nat) (timeout : Int) (hnone : h.filterMap acquired = []) :
    Among clock (fun h t c => Holding clock (· = .pending) t h c) E h
      (TxnProg.allocate ps timeout) c := by
  refine (among_reading hnone).bind fun h nano c hnone => ?_
  refine (among_reading hnone).bind fun h createdAt c hnone => ?_
  refine (among_reading hnone).bind fun h updatedAt c hnone => ?_
  refine among_call (.create ps timeout nano createdAt updatedAt) (I := fun _ => True)
    (fun _ _ _ _ => trivial) trivial fun c _ => ?_
  simp only [Request.action,create,wp_bind,wp_get,wp_set]
  refine wp_mono (wp_pendAll ps _) ?_ fun _ _ h => h.elim
  rintro _ c' ⟨-,-,-,htxns,-⟩
  simp only [wp_pure]
  refine Holding.answered rfl ⟨?_,?_⟩
  · intro lock hlock
    simp [hnone] at hlock
  · rw [htxns]
    simp

include hclock

theorem acquireLock_tried (timeout : Int) (key : String) (hh : Holding clock (· = .pending) t h c) :
    Among clock (fun h tried c => Tried clock t h tried c) E h
      (TxnProg.call (.acquireLock key timeout)) c := by
  refine among_call (.acquireLock key timeout) (holding_stable hclock) hh fun c hh => ?_
  simp only [Request.action,wp_locking]
  refine wp_mono (wp_and (wp_acquireLock clock key timeout c.lockManager)
    (wp_acquireLock_step clock key timeout c.lockManager)) ?_ ?_
  · rintro lock m ⟨hgot,-⟩
    exact ⟨hh.accounted.acquire hclock hgot,hh.status⟩
  · rintro e m ⟨-,hstep⟩
    exact Holding.answered rfl ⟨hh.accounted.meddled hclock (.of_step hstep),hh.status⟩

/-- A lock that is not to be had ends the call, with those before it given back. -/
theorem acquireOne_holding (timeout : Int) (key : String)
    (hh : Holding clock (· = .pending) t h c) :
    Among clock (fun h _ c => Holding clock (· = .pending) t h c) (fun h _ c => Clear clock h c) h
      (TxnProg.acquireOne t timeout key) c := by
  refine (acquireLock_tried hclock timeout key hh).bind fun h tried c htried => ?_
  cases tried with
  | ok lock =>
    refine among_call (.modifyTxn t _) (I := fun c => Tried clock t h (.ok lock) c) ?_ htried ?_
    · rintro c _ ⟨m,rfl,hm⟩ ⟨ha,hstatus⟩
      exact ⟨ha.meddled hclock hm,hstatus⟩
    · rintro c ⟨ha,hstatus⟩
      refine Holding.answered rfl ⟨ha.imp fun l _ _ _ _ hto => ?_,?_⟩
      · rcases hto with hto | rfl
        · simp [hto]
        · simp
      · simpa using hstatus
  | error e =>
    have hread : Among clock (fun h txn c => txn = c.txns t ∧ Holding clock (· = .pending) t h c)
        (fun h _ c => Clear clock h c) h (TxnProg.call (.txn t)) c := by
      refine among_call (.txn t) (holding_stable hclock) htried fun c hh => ?_
      exact ⟨rfl,hh.answered rfl⟩
    refine hread.bind ?_
    rintro h _ c ⟨rfl,hh⟩
    exact (releaseLocks_accounted hclock hh.accounted).bind fun h _ c hclear => hclear

theorem beginTransaction_ongoing (order : List String → List String) (ps : List Nat)
    (timeout : Int) (hnone : h.filterMap acquired = []) :
    Among clock (fun h t c => ∃ txnID, Ongoing clock (· = .pending) txnID t h c)
      (fun h _ c => Clear clock h c) h (TxnProg.beginTransaction order ps timeout) c := by
  refine (allocate_holding ps timeout hnone).bind fun h t c hh => ?_
  have hkeys : Among clock (fun h _ c => Holding clock (· = .pending) t h c)
      (fun h _ c => Clear clock h c) h (TxnProg.call (.lockKeys order ps)) c := by
    refine among_call (.lockKeys order ps) (holding_stable hclock) hh fun c hh => ?_
    exact hh.answered rfl
  refine hkeys.bind fun h keys c hh => ?_
  refine (Prog.amid_forM (I := fun _ h c => Holding clock (· = .pending) t h c) keys hh ?_).bind
    fun h _ c hh => ?_
  · exact fun key rest h c hh => acquireOne_holding hclock timeout key hh
  have hregister : Among clock (fun h _ c => ∃ txnID, Ongoing clock (· = .pending) txnID t h c)
      (fun h _ c => Clear clock h c) h (TxnProg.call (.register t)) c := by
    refine among_call (.register t) (holding_stable hclock) hh fun c hh => ?_
    simp only [Request.action,register,wp_modify]
    exact ⟨(c.txns t).transactionID,Holding.answered rfl ⟨hh.accounted,hh.status⟩,rfl,by simp⟩
  exact hregister.bind fun h _ c ho => ho

end Begin

section Phases
variable {σ : Type} {clock : Nat → Int} (hclock : Function.Injective clock) {txnID : String}
  {t : Nat} {h : Trace Request Answer} {c : Coordinator σ}
include hclock

theorem prepareTransaction_ongoing (ho : Ongoing clock (· = .pending) txnID t h c) :
    Among clock (fun h _ c => Ongoing clock (· = .prepared) txnID t h c)
      (fun h _ c => Ongoing clock (· ≠ .committed) txnID t h c) h
      (TxnProg.prepareTransaction txnID) c := by
  refine (among_findTransaction hclock ho).bind ?_
  rintro h _ c ⟨rfl,ho⟩
  refine (among_txn hclock ho).bind fun h txn c ⟨_,ho⟩ => ?_
  split
  · exact ho.uncommitted (by simp)
  refine (among_now hclock ho).bind fun h checked c ho => ?_
  split
  · refine (among_modifyTxn hclock ho .timeout (by simp)).bind fun h _ c ho => ?_
    exact ho.uncommitted (by simp)
  refine (Prog.amid_forM (I := fun _ h c => Ongoing clock (· = .pending) txnID t h c) _ ho ?_).bind
    fun h _ c ho => ?_
  · intro p rest h c ho
    refine among_call (.prepareOne txnID p) (ongoing_stable hclock) ho fun c ho => ?_
    refine wp_mono (wp_prepareOne_aside txnID p c) ?_ ?_
    · exact fun _ c' ha => (ho.aside ha).answered rfl
    · exact fun _ c' ha => ((ho.aside ha).uncommitted (by simp)).answered rfl
  · refine (among_now hclock ho).bind fun h updatedAt c ho => ?_
    exact among_modifyTxn hclock ho .prepared (by simp)

theorem releaseHeld_clear {S : TransactionStatus → Prop}
    {E : Trace Request Answer → Fault → Coordinator σ → Prop} (ho : Ongoing clock S txnID t h c) :
    Among clock (fun h _ c => Clear clock h c) E h (TxnProg.releaseHeld t) c := by
  refine (among_txn hclock ho).bind ?_
  rintro h _ c ⟨rfl,ho⟩
  refine (releaseLocks_accounted hclock ho.accounted).bind fun h _ c hclear => ?_
  refine among_call (.modifyTxn t _) (accounted_stable hclock _ h) hclear fun c hclear => ?_
  exact hclear.answered rfl

theorem commitTransaction_clear (ho : Ongoing clock (· = .prepared) txnID t h c) :
    Among clock (fun h _ c => Clear clock h c)
      (fun h _ c => Ongoing clock (· ≠ .committed) txnID t h c) h
      (TxnProg.commitTransaction txnID) c := by
  refine (among_findTransaction hclock ho).bind ?_
  rintro h _ c ⟨rfl,ho⟩
  have hbody : Among clock (fun h _ c => Ongoing clock (· = .committed) txnID t h c)
      (fun h _ c => Ongoing clock (· ≠ .committed) txnID t h c) h
          (TxnProg.commitBody txnID t) c := by
    refine (among_txn hclock ho).bind fun h txn c ⟨_,ho⟩ => ?_
    split
    · exact ho.uncommitted (by simp)
    refine (Prog.amid_foldlM (I := fun _ h c => Ongoing clock (· = .prepared) txnID t h c) _ ho
      ?_).bind fun h errors c ho => ?_
    · intro errors p h c ho
      refine among_call (.commitOne txnID errors p) (ongoing_stable hclock) ho fun c ho => ?_
      refine wp_mono (wp_commitOne_aside txnID p c errors) ?_ ?_
      · exact fun _ c' ha => (ho.aside ha).answered rfl
      · exact fun _ c' ha => ((ho.aside ha).uncommitted (by simp)).answered rfl
    split
    · refine (among_modifyTxn hclock ho .aborted (by simp)).bind fun h _ c ho => ?_
      exact ho.uncommitted (by simp)
    refine (among_now hclock ho).bind fun h updatedAt c ho => ?_
    exact among_modifyTxn hclock ho .committed (by simp)
  exact hbody.bind fun h _ c ho => releaseHeld_clear hclock ho

/-- An abort of what is not committed gives everything back, unless a handler is lost. -/
theorem abortTransaction_clear (ho : Ongoing clock (· ≠ .committed) txnID t h c) :
    Among clock (fun h _ c => Clear clock h c) (fun _ e _ => e.Lost) h
      (TxnProg.abortTransaction txnID) c := by
  refine (among_findTransaction hclock ho).bind ?_
  rintro h _ c ⟨rfl,ho⟩
  have hbody : Among clock (fun h _ c => Ongoing clock (· = .aborted) txnID t h c)
      (fun _ e _ => e.Lost) h (TxnProg.abortBody txnID t) c := by
    refine (among_txn hclock ho).bind ?_
    rintro h _ c ⟨rfl,ho⟩
    rw [if_neg ho.status]
    refine (Prog.amid_forM (I := fun _ h c => Ongoing clock (· ≠ .committed) txnID t h c) _ ho
      ?_).bind fun h _ c ho => ?_
    · intro p rest h c ho
      refine among_call (.abortOne txnID p) (ongoing_stable hclock) ho fun c ho => ?_
      exact wp_mono (wp_abortOne_aside txnID p c) (fun _ c' ha => (ho.aside ha).answered rfl)
        fun _ _ he => he
    · refine (among_now hclock ho).bind fun h updatedAt c ho => ?_
      exact among_modifyTxn hclock ho .aborted (by simp)
  exact hbody.bind fun h _ c ho => releaseHeld_clear hclock ho

/-- What is left when `ExecuteTransaction` returns, with or without an error. -/
def ClearUnlessLost {σ : Type} (clock : Nat → Int) (h : Trace Request Answer) (e : Fault)
    (c : Coordinator σ) : Prop := ¬ e.Lost → Clear clock h c

theorem orAbort_clear {P : Trace Request Answer → Unit → Coordinator σ → Prop} (phase : String)
    {x : TxnProg Unit} (hx : Among clock P (fun h _ c => Ongoing clock (· ≠ .committed) txnID t h c)
      h x c) : Among clock P (ClearUnlessLost clock) h (TxnProg.orAbort phase t x) c := by
  refine hx.attempt.bind fun h r c ⟨hok,herror⟩ => ?_
  cases r with
  | ok a => exact hok a rfl
  | error e =>
    have ho := herror e rfl
    cases e with
    | lost loss => exact fun hne => (hne trivial).elim
    | error text =>
      refine (among_txn hclock ho).bind fun h txn c ⟨hread,ho⟩ => ?_
      have hname : txn.transactionID = txnID := by rw [hread,ho.named]
      rw [hname]
      refine (abortTransaction_clear hclock ho).attempt.bind fun h r c ⟨hok,herror⟩ => ?_
      cases r with
      | ok a => exact fun _ => hok a rfl
      | error e =>
        have hlost : e.Lost := herror e rfl
        cases e with
        | error text => exact hlost.elim
        | lost loss => exact fun hne => (hne trivial).elim

theorem executeTransaction_clear (order : List String → List String) (ps : List Nat)
    (timeout : Int) (c : Coordinator σ) :
    Among clock (fun h _ c => Clear clock h c) (ClearUnlessLost clock) []
      (TxnProg.executeTransaction order ps timeout) c := by
  have hbegin : Among clock (fun h t c => ∃ txnID, Ongoing clock (· = .pending) txnID t h c)
      (ClearUnlessLost clock) [] (TxnProg.orFail
          (TxnProg.beginTransaction order ps timeout)) c := by
    refine (beginTransaction_ongoing hclock order ps timeout rfl).attempt.bind
      fun h r c ⟨hok,herror⟩ => ?_
    cases r with
    | ok t => exact hok t rfl
    | error e =>
      cases e with
      | lost loss => exact fun hne => (hne trivial).elim
      | error text => exact fun _ => herror _ rfl
  refine hbegin.bind fun h t c ⟨txnID,ho⟩ => ?_
  refine (among_txn hclock ho).bind fun h txn c ⟨hread,ho⟩ => ?_
  have hname : txn.transactionID = txnID := by rw [hread,ho.named]
  rw [hname]
  refine (orAbort_clear hclock "prepare" (prepareTransaction_ongoing hclock ho)).bind
    fun h _ c ho => ?_
  exact orAbort_clear hclock "commit" (commitTransaction_clear hclock ho)

end Phases

/-- A call that has returned, nil or an error. A panic is no return. -/
def returned : TxnProg Unit → Bool
  | .ret _ | .fail (.error _) => true
  | _ => false

/-- Whoever else is at the lock manager, and whatever was in the lock table: once
`ExecuteTransaction` has returned, no entry is left of a lock that it acquired. -/
theorem executeTransaction_leaks_no_lock {ι σ : Type} [DecidableEq ι] (clock : Nat → Int)
    (hclock : Function.Injective clock) (order : List String → List String) (ps : List Nat)
    (timeout : Int) (p : Pool ι Request Answer Fault Unit (Coordinator σ)) (me : ι)
    (hme : p.threads me = TxnProg.executeTransaction order ps timeout)
    (others : ∀ i, i ≠ me → (p.threads i).Yields Request.AtManager fun _ => True)
    (schedule : List ι)
    (hreturned : returned ((p.run (perform (Request.action clock)) schedule).threads me) = true)
    (key : String) (ttl : Int) (lock : DistributedLock)
    (hgot : Pool.Asked (perform (Request.action clock)) p schedule me
      ⟨.acquireLock key ttl,.ok (.ok lock)⟩) :
    ¬ ∃ info, (p.run (perform (Request.action clock)) schedule).state.lockManager.locks
      lock.lockKey = some info ∧ info.ownerID = lock.ownerID := by
  obtain ⟨h,hamid,hlog⟩ := Pool.run_amid (i := me) ManagerOnly.refl ManagerOnly.trans
    (P := fun h _ c => Clear clock h c) (E := ClearUnlessLost clock)
    (fun h _ => accounted_stable hclock _ h)
    (fun h e c c' hcc hclear hne => accounted_stable hclock _ h c c' hcc (hclear hne))
    (hme ▸ executeTransaction_clear hclock order ps timeout p.state) others
    (fun q c hq => hq.managerOnly q c) schedule
  have hlock : lock ∈ h.filterMap acquired := List.mem_filterMap.mpr ⟨_,hlog _ hgot,rfl⟩
  have hclear : Clear clock h (p.run (perform (Request.action clock)) schedule).state := by
    revert hreturned hamid
    cases (p.run (perform (Request.action clock)) schedule).threads me with
    | ret a => exact fun _ hamid => hamid
    | fail e =>
      cases e with
      | lost loss => exact fun hreturned => by simp [returned] at hreturned
      | error text => exact fun _ hamid => hamid (by simp)
    | ask q next => exact fun hreturned => by simp [returned] at hreturned
  rintro ⟨info,hinfo,howner⟩
  exact ((hclear lock hlock).2 info hinfo howner).2

def intruded : Pool Bool Request Answer Fault Unit (Coordinator Unit) where
  state := newCoordinator "store_1" (newLockManager "store_1") obliging (creating "store_1") ()
  threads := fun
    | true => TxnProg.executeTransaction id [0] 100
    | false => .ask (.getLockInfo "timeline:0") fun _ =>
        .ask (.acquireLock "timeline:0" 5) fun _ => .ret ()
  log := []

/-- The lookup comes between the acquisitions and the phases, and the intruder gets the
lock between the release and the return. -/
def intrusion : List Bool :=
  List.replicate 8 true ++ [false] ++ List.replicate 15 true ++ [false,true]

theorem executeTransaction_leaks_no_lock_intruded :
    ¬ ∃ info, (intruded.run (perform (Request.action fun n => n)) intrusion).state.lockManager.locks
      "timeline:0" = some info ∧ info.ownerID = stamp "store_1" 4 := by
  refine executeTransaction_leaks_no_lock (fun n => n) (fun _ _ h => Int.ofNat.inj h) id [0] 100
    intruded true rfl ?_ intrusion ?_ "timeline:0" 100
    ⟨"timeline:0",stamp "store_1" 3,stamp "store_1" 4,"store_1",5,105,100⟩ ?_
  · intro i hi
    cases i with
    | true => exact (hi rfl).elim
    | false => exact ⟨trivial,fun _ => ⟨trivial,fun _ => trivial⟩⟩
  · decide +kernel
  · exact ⟨List.replicate 5 true,_,_,rfl,rfl,rfl⟩

end Imy.Txn
