import Imy.Lock.LockSafety
import Imy.Txn.Rounds
set_option autoImplicit false

/-!
Several transactions over one lock manager. A step ends where another goroutine
can call the lock manager: between two `AcquireLock` of `BeginTransaction`, and
between the lookup and the release of each key in `releaseLocks`. What a call
does before it releases runs under `txn.mu` and does not call the manager.
-/

namespace Imy.Txn
open Imy.Lib Imy.Lock

/-- Where the call made for a transaction stands. `clear` is false for the
release inside a `BeginTransaction` that fails. -/
inductive Work where
  | idle
  | acquiring (keys : List String)
  | releasing (clear : Bool) (keys : List String)
  | found (clear : Bool) (info : LockInfo) (keys : List String)

/-- The handles are all those the manager gave out; `holder` says which of them
are a transaction's. Neither is in the source. -/
structure System (σ : Type) where
  coord : Coordinator σ
  handles : List Handle
  holder : Nat → Option Nat
  work : Nat → Work

inductive TxnOp where
  | begin (participants : List Nat) (timeout : Int)
  | acquire (t : Nat)
  | register (t : Nat)
  | prepare (t : Nat)
  | commit (t : Nat)
  | abort (t : Nat)
  | lookUp (t : Nat)
  | release (t : Nat)
  | finish (t : Nat)
  | other (op : LockOp)
  deriving DecidableEq, Repr

section Step
variable {σ : Type} (clock : Nat → Int)

def newSystem (storeID : String) (handlers : String → Option (Handler σ))
    (objects : Nat → TransactionParticipant) (world : σ) : System σ where
  coord := newCoordinator storeID (newLockManager storeID) handlers objects world
  handles := []
  holder := fun _ => none
  work := fun _ => .idle

def System.locks (s : System σ) : LockRun := ⟨s.coord.lockManager,s.handles⟩

def System.setWork (s : System σ) (t : Nat) (w : Work) (c : Coordinator σ) : System σ :=
  { s with coord := c, work := Function.update s.work t w }

def System.acquireKey (s : System σ) (t : Nat) (key : String) (keys : List String) : System σ :=
  match acquireLock clock key (s.coord.txns t).timeout s.coord.lockManager with
  | .ok lock m =>
    { coord := (s.coord.setLocks m).setTxn t
        { s.coord.txns t with locks := (s.coord.txns t).locks ++ [lock.lockKey] }
      handles := s.handles ++ [⟨lock,false⟩]
      holder := Function.update s.holder s.handles.length (some t)
      work := Function.update s.work t (.acquiring keys) }
  | .error _ m => s.setWork t (.releasing false (s.coord.txns t).locks) (s.coord.setLocks m)

def System.lookUpKey (s : System σ) (t : Nat) (clear : Bool) (key : String) (keys : List String) :
    System σ :=
  match getLockInfo clock key s.coord.lockManager with
  | .ok info m => s.setWork t (.found clear info keys) (s.coord.setLocks m)
  | .error _ m => s.setWork t (.releasing clear keys) (s.coord.setLocks m)

def markReleased (ownerID : String) (handles : List Handle) : List Handle :=
  handles.map fun hd => if hd.lock.ownerID = ownerID then { hd with released := true } else hd

def System.releaseFound (s : System σ) (t : Nat) (clear : Bool) (info : LockInfo)
    (keys : List String) : System σ :=
  match releaseLock (rebuilt info) s.coord.lockManager with
  | .ok _ m =>
    { s.setWork t (.releasing clear keys) (s.coord.setLocks m) with
      handles := markReleased info.ownerID s.handles }
  | .error _ m => s.setWork t (.releasing clear keys) (s.coord.setLocks m)

def System.callBody (s : System σ) (t : Nat) (body : TxnM σ Unit) : System σ :=
  match body s.coord with
  | .ok _ c => s.setWork t (.releasing true (c.txns t).locks) c
  | .error _ c => { s with coord := c }

/-- A call by transaction ID finds `t` if it is registered, and waits for
`txn.mu` as long as another call for `t` is going on. -/
def System.callable (s : System σ) (t : Nat) : Bool :=
  match s.work t with
  | .idle => s.coord.transactions (s.coord.txns t).transactionID = some t
  | _ => false

/-- `BeginTransaction` keeps its handles to itself. -/
def System.allowed (s : System σ) : LockOp → Bool
  | .releaseLock i | .renewLock i _ => s.holder i = none
  | _ => true

/-- A step that is not possible does nothing. -/
def System.next (order : Nat → List String → List String) (s : System σ) : TxnOp → System σ
  | .begin participants timeout =>
    match allocate clock participants timeout s.coord with
    | .ok t c => s.setWork t (.acquiring
      (generateLockKeys (order t) (participants.map c.objects))) c
    | .error _ _ => s
  | .acquire t =>
    match s.work t with
    | .acquiring (key :: keys) => s.acquireKey clock t key keys
    | _ => s
  | .register t =>
    match s.work t with
    | .acquiring [] => s.setWork t .idle (final (register t) s.coord)
    | _ => s
  | .prepare t =>
    if s.callable t then
      { s with coord := final (prepareBody clock (s.coord.txns t).transactionID t) s.coord }
    else s
  | .commit t =>
    if s.callable t then s.callBody t (commitBody clock (s.coord.txns t).transactionID t) else s
  | .abort t =>
    if s.callable t then s.callBody t (abortBody clock (s.coord.txns t).transactionID t) else s
  | .lookUp t =>
    match s.work t with
    | .releasing clear (key :: keys) => s.lookUpKey clock t clear key keys
    | _ => s
  | .release t =>
    match s.work t with
    | .found clear info keys => s.releaseFound t clear info keys
    | _ => s
  | .finish t =>
    match s.work t with
    | .releasing clear [] =>
      s.setWork t .idle
        (if clear then s.coord.setTxn t { s.coord.txns t with locks := [] } else s.coord)
    | _ => s
  | .other op =>
    if s.allowed op then
      { s with
        coord := s.coord.setLocks (s.locks.next clock op).manager
        handles := (s.locks.next clock op).handles }
    else s

def System.run (order : Nat → List String → List String) (ops : List TxnOp) (s : System σ) :
    System σ :=
  ops.foldl (fun s op => s.next clock order op) s

/-- The transaction that a step is made for. -/
def System.target (s : System σ) : TxnOp → Option Nat
  | .begin _ _ => some s.coord.allocated
  | .acquire t | .register t | .prepare t | .commit t | .abort t | .lookUp t | .release t
  | .finish t => some t
  | .other _ => none

end Step

/-- A call leaves the lock table and the lists of held keys alone. -/
structure Calm {σ : Type} (c c' : Coordinator σ) : Prop where
  locks : c'.lockManager.locks = c.lockManager.locks
  storeID : c'.lockManager.storeID = c.lockManager.storeID
  tick : c.lockManager.tick ≤ c'.lockManager.tick
  held : ∀ t, (c'.txns t).locks = (c.txns t).locks

section Calm
variable {σ : Type} {c c₁ c₂ : Coordinator σ}

theorem Calm.refl (c : Coordinator σ) : Calm c c := ⟨rfl,rfl,Nat.le_refl _,fun _ => rfl⟩

theorem Calm.trans (h : Calm c c₁) (h' : Calm c₁ c₂) : Calm c c₂ :=
  ⟨h'.locks.trans h.locks,h'.storeID.trans h.storeID,Nat.le_trans h.tick h'.tick,
    fun t => (h'.held t).trans (h.held t)⟩

theorem Calm.advance (h : Calm c c₁) : Calm c (c₁.setLocks c₁.lockManager.advance) :=
  ⟨h.locks,h.storeID,Nat.le_succ_of_le h.tick,h.held⟩

theorem Calm.setTxn (h : Calm c c₁) {t : Nat} {txn : DistributedTransaction}
    (hl : txn.locks = (c₁.txns t).locks) : Calm c (c₁.setTxn t txn) := by
  refine ⟨h.locks,h.storeID,h.tick,fun t' => ?_⟩
  by_cases ht : t' = t
  · subst ht
    simpa [hl] using h.held t'
  · simpa [ht] using h.held t'

variable (clock : Nat → Int) (txnID : String) (t : Nat)

theorem wp_prepareBody_calm (c : Coordinator σ) :
    wp (prepareBody clock txnID t) (fun _ c' => Calm c c') (fun _ c' => Calm c c') c := by
  simp only [prepareBody,wp_bind,wp_get,wp_ite,wp_throw,wp_now,wp_modifyTxn]
  split
  · exact Calm.refl c
  split
  · exact (Calm.refl c).advance.setTxn rfl
  refine wp_mono (wp_forM (I := fun _ c' => Calm c c') _ (Calm.refl c).advance ?_) ?_
    (fun _ _ h => h)
  · intro done p rest c₁ _ h
    refine wp_mono (wp_prepareOne txnID p c₁) ?_ ?_
    · intro _ c₂ hr
      cases hr <;> exact h.trans ⟨rfl,rfl,Nat.le_refl _,fun _ => rfl⟩
    · intro e c₂ hr
      cases hr <;> exact h.trans ⟨rfl,rfl,Nat.le_refl _,fun _ => rfl⟩
  · intro _ c₁ h
    exact h.advance.setTxn rfl

theorem wp_commitBody_calm (c : Coordinator σ) :
    wp (commitBody clock txnID t) (fun _ c' => Calm c c') (fun _ c' => Calm c c') c := by
  simp only [commitBody,wp_bind,wp_get,wp_ite,wp_throw,wp_now,wp_modifyTxn]
  split
  · exact Calm.refl c
  refine wp_mono (wp_foldlM (I := fun _ _ c' => Calm c c') _ (Calm.refl c) ?_) ?_ (fun _ _ h => h)
  · intro done p rest errors c₁ _ h
    refine wp_mono (wp_commitOne txnID p c₁ errors) ?_ ?_
    · intro errors' c₂ hr
      cases hr <;> exact h.trans ⟨rfl,rfl,Nat.le_refl _,fun _ => rfl⟩
    · rintro e c₂ ⟨-,handler,loss,w,-,-,-,rfl⟩
      exact h.trans ⟨rfl,rfl,Nat.le_refl _,fun _ => rfl⟩
  · intro errors c₁ h
    split
    · exact h.setTxn rfl
    · exact h.advance.setTxn rfl

theorem wp_abortBody_calm (c : Coordinator σ) :
    wp (abortBody clock txnID t) (fun _ c' => Calm c c') (fun _ c' => Calm c c') c := by
  simp only [abortBody,wp_bind,wp_get,wp_ite,wp_throw,wp_now,wp_modifyTxn]
  split
  · exact Calm.refl c
  refine wp_mono (wp_forM (I := fun _ c' => Calm c c') _ (Calm.refl c) ?_) ?_ (fun _ _ h => h)
  · intro done p rest c₁ _ h
    refine wp_mono (wp_abortOne txnID p c₁) ?_ ?_
    · intro _ c₂ hr
      cases hr <;> exact h.trans ⟨rfl,rfl,Nat.le_refl _,fun _ => rfl⟩
    · rintro e c₂ ⟨handler,loss,w,-,-,-,rfl⟩
      exact h.trans ⟨rfl,rfl,Nat.le_refl _,fun _ => rfl⟩
  · intro _ c₁ h
    exact h.advance.setTxn rfl

/-- The new transaction holds nothing, the others what they held. -/
theorem wp_allocate_locks (participants : List Nat) (timeout : Int) (c : Coordinator σ) :
    wp (allocate clock participants timeout)
      (fun t c' => c'.lockManager.locks = c.lockManager.locks ∧
        c'.lockManager.storeID = c.lockManager.storeID ∧
        c.lockManager.tick ≤ c'.lockManager.tick ∧
        ∀ t', (c'.txns t').locks = if t' = t then [] else (c.txns t').locks)
      (fun _ _ => False) c := by
  simp only [allocate,wp_bind,wp_now,wp_get,wp_set]
  refine wp_mono (wp_forM (I := fun _ c' => c'.lockManager.locks = c.lockManager.locks ∧
    c'.lockManager.storeID = c.lockManager.storeID ∧ c.lockManager.tick ≤ c'.lockManager.tick ∧
    ∀ t', (c'.txns t').locks = if t' = c.allocated then [] else (c.txns t').locks) _
    ⟨rfl,rfl,by simp; omega,?_⟩ ?_) ?_ (fun _ _ h => h)
  · intro t'
    by_cases ht : t' = c.allocated <;> simp [ht]
  · intro done p rest c₁ _ h
    exact h
  · intro _ c' h
    exact h

end Calm

/-! Without interruption the steps of a call are the call of the coordinator. -/

/-- A body that leaves the locks alone goes on to the release of the held keys,
or ends the call. -/
theorem System.callBody_cases {σ : Type} {s : System σ} (t : Nat) {body : TxnM σ Unit}
    (hbody : wp body (fun _ c => Calm s.coord c) (fun _ c => Calm s.coord c) s.coord) :
    ∃ c, Calm s.coord c ∧ (s.callBody t body = s.setWork t (.releasing true (c.txns t).locks) c ∨
      s.callBody t body = { s with coord := c }) := by
  unfold System.callBody
  split
  · rename_i c hx
    have hc := wp_ok hbody hx
    exact ⟨c,hc,Or.inl rfl⟩
  · rename_i e c hx
    have hc := wp_error hbody hx
    exact ⟨c,hc,Or.inr rfl⟩

section Uninterrupted
variable {σ : Type} (clock : Nat → Int) (order : Nat → List String → List String)

def releaseSteps (t : Nat) (keys : List String) : List TxnOp :=
  keys.flatMap (fun _ => [.lookUp t,.release t]) ++ [.finish t]

theorem System.next_release {s : System σ} {t : Nat} {clear : Bool} {key : String}
    {keys : List String} (hwork : s.work t = .releasing clear (key :: keys)) :
    ((s.next clock order (.lookUp t)).next clock order (.release t)).coord =
        final (releaseOne clock key) s.coord ∧
      ((s.next clock order (.lookUp t)).next clock order (.release t)).work t =
        .releasing clear keys := by
  have hlook : s.next clock order (.lookUp t) = s.lookUpKey clock t clear key keys := by
    simp only [System.next,hwork]
  rw [hlook]
  cases hx : getLockInfo clock key s.coord.lockManager with
  | error e m =>
    have hs : s.lookUpKey clock t clear key keys =
        s.setWork t (.releasing clear keys) (s.coord.setLocks m) := by
      simp only [System.lookUpKey,hx]
    rw [hs]
    simp [System.next,System.setWork,releaseOne,final,bind,EStateM.bind,locking,
      hx,pure,EStateM.pure]
  | ok info m =>
    have hs : s.lookUpKey clock t clear key keys =
        s.setWork t (.found clear info keys) (s.coord.setLocks m) := by
      simp only [System.lookUpKey,hx]
    rw [hs]
    simp only [System.next,System.setWork,Function.update_self,System.releaseFound,releaseOne,final,
      bind,EStateM.bind,locking,hx,pure,EStateM.pure]
    cases releaseLock (rebuilt info) (s.coord.setLocks m).lockManager <;> simp

theorem System.run_release {s : System σ} {t : Nat} {clear : Bool} {keys : List String}
    (hwork : s.work t = .releasing clear keys) :
    (s.run clock order (keys.flatMap fun _ => [.lookUp t,.release t])).coord =
        final (releaseLocks clock keys) s.coord ∧
      (s.run clock order (keys.flatMap fun _ => [.lookUp t,.release t])).work t =
        .releasing clear [] := by
  induction keys generalizing s with
  | nil => exact ⟨rfl,hwork⟩
  | cons key keys ih =>
    obtain ⟨hcoord,hwork'⟩ := System.next_release clock order hwork
    obtain ⟨hcoord',hrest⟩ := ih hwork'
    have hone : wp (releaseOne clock key) (fun _ _ => True) (fun _ _ => False) s.coord := by
      have := wp_releaseLocks clock [key] s.coord
      rw [releaseLocks,List.forM_cons,wp_bind] at this
      exact wp_mono this (fun _ _ _ => trivial) (fun _ _ h => h)
    obtain ⟨_,c,hx,-⟩ := eq_ok_of_wp hone
    refine ⟨?_,hrest⟩
    rw [releaseLocks,List.forM_cons,final_bind_of_ok hx]
    have hc : ((s.next clock order (.lookUp t)).next clock order (.release t)).coord = c := by
      rw [hcoord,final,hx]
    rw [← hc]
    exact hcoord'

theorem System.run_idle {s : System σ} {t : Nat} (hwork : s.work t = .idle) (keys : List String) :
    s.run clock order (releaseSteps t keys) = s := by
  have hlook : s.next clock order (.lookUp t) = s := by simp only [System.next,hwork]
  have hrelease : s.next clock order (.release t) = s := by simp only [System.next,hwork]
  have hfinish : s.next clock order (.finish t) = s := by simp only [System.next,hwork]
  induction keys with
  | nil => exact hfinish
  | cons key keys ih =>
    change ((s.next clock order (.lookUp t)).next clock order (.release t)).run clock order
      (releaseSteps t keys) = s
    rw [hlook,hrelease,ih]

theorem System.next_finish {s : System σ} {t : Nat} (hwork : s.work t = .releasing true []) :
    (s.next clock order (.finish t)).coord =
      s.coord.setTxn t { s.coord.txns t with locks := [] } := by
  simp only [System.next,hwork]
  rfl

/-- A body that leaves the held keys alone, and the release after it. -/
theorem System.run_callBody {s : System σ} {t : Nat} (hwork : s.work t = .idle) {body : TxnM σ Unit}
    (hbody : wp body (fun _ c => Calm s.coord c) (fun _ c => Calm s.coord c) s.coord) :
    ((s.callBody t body).run clock order (releaseSteps t (s.coord.txns t).locks)).coord =
      final (body >>= fun _ => releaseHeld clock t) s.coord := by
  cases hx : body s.coord with
  | error e c =>
    have hs : s.callBody t body = { s with coord := c } := by simp only [System.callBody,hx]
    have hidle := System.run_idle clock order (s := { s with coord := c }) hwork
       (s.coord.txns t).locks
    rw [hs,final_bind_of_error hx,hidle]
  | ok _ c =>
    have hs : s.callBody t body = s.setWork t (.releasing true (c.txns t).locks) c := by
      simp only [System.callBody,hx]
    have hstart : (s.setWork t (.releasing true (c.txns t).locks) c).work t =
        .releasing true (c.txns t).locks := by
      simp only [System.setWork,Function.update_self]
    obtain ⟨hcoord,hdone⟩ := System.run_release clock order hstart
    obtain ⟨_,c',hr,-⟩ := eq_ok_of_wp (wp_releaseLocks clock (c.txns t).locks c)
    have hc' : final (releaseLocks clock (c.txns t).locks) c = c' := by simp only [final,hr]
    have hheld : final (releaseHeld clock t) c = c'.setTxn t { c'.txns t with locks := [] } := by
      change final (releaseLocks clock (c.txns t).locks >>= fun _ => modifyTxn t _) c = _
      rw [final_bind_of_ok hr]
      rfl
    rw [hs,final_bind_of_ok hx,← (wp_ok hbody hx).held t,hheld,← hc',releaseSteps,System.run,
      List.foldl_append,List.foldl_cons,List.foldl_nil]
    refine (System.next_finish clock order hdone).trans ?_
    rw [hcoord]
    rfl

theorem System.callable_iff {s : System σ} {t : Nat} : s.callable t = true ↔
    s.work t = .idle ∧ s.coord.transactions (s.coord.txns t).transactionID = some t := by
  unfold System.callable
  cases s.work t <;> simp

/-- A call by ID that finds `t`. -/
theorem findTransaction_bind {c : Coordinator σ} {txnID : String} {t : Nat}
    (h : c.transactions txnID = some t) (f : Nat → TxnM σ Unit) :
    final (findTransaction txnID >>= f) c = final (f t) c := by
  have hw : wp (findTransaction txnID) (fun t' c' => t' = t ∧ c' = c) (fun _ _ => False) c := by
    rw [wp_findTransaction h]
    exact ⟨rfl,rfl⟩
  obtain ⟨_,_,hx,rfl,rfl⟩ := eq_ok_of_wp hw
  exact final_bind_of_ok hx

theorem System.run_commit {s : System σ} {t : Nat} (h : s.callable t = true) :
    (s.run clock order (.commit t :: releaseSteps t (s.coord.txns t).locks)).coord =
      final (commitTransaction clock (s.coord.txns t).transactionID) s.coord := by
  obtain ⟨hidle,hreg⟩ := System.callable_iff.mp h
  have hnext : s.next clock order (.commit t) =
      s.callBody t (commitBody clock (s.coord.txns t).transactionID t) := by
    simp only [System.next,h,if_true]
  rw [commitTransaction,findTransaction_bind hreg,
    ← System.run_callBody clock order hidle (wp_commitBody_calm clock _ t s.coord),← hnext]
  rfl

theorem System.run_abort {s : System σ} {t : Nat} (h : s.callable t = true) :
    (s.run clock order (.abort t :: releaseSteps t (s.coord.txns t).locks)).coord =
      final (abortTransaction clock (s.coord.txns t).transactionID) s.coord := by
  obtain ⟨hidle,hreg⟩ := System.callable_iff.mp h
  have hnext : s.next clock order (.abort t) =
      s.callBody t (abortBody clock (s.coord.txns t).transactionID t) := by
    simp only [System.next,h,if_true]
  rw [abortTransaction,findTransaction_bind hreg,
    ← System.run_callBody clock order hidle (wp_abortBody_calm clock _ t s.coord),← hnext]
  rfl

end Uninterrupted

end Imy.Txn
