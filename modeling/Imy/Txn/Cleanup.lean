import Imy.Txn.Interleaving
set_option autoImplicit false

/-!
`CleanupTimeoutTransactions` with the mutex `c.mu`, which is not re-entrant: the cleanup holds
it while it calls `AbortTransaction`, and `AbortTransaction` takes it first.
-/

namespace Imy.Txn
open Imy.Lib Imy.Lock

/-- A coordinator, and whether `c.mu` is held. -/
structure Guarded (σ : Type) where
  coord : Coordinator σ
  held : Bool

/-- Why a call stops: it waits for a mutex that nobody will unlock, or as its body does. -/
inductive Halt where
  | waits
  | fault (f : Fault)
  deriving DecidableEq, Repr

section Operations
variable {σ α : Type} (clock : Nat → Int)

abbrev GuardedM (σ : Type) := EStateM Halt (Guarded σ)

def lockMu : GuardedM σ Unit := do
  let g ← get
  if g.held then throw .waits else set { g with held := true }

def unlockMu : GuardedM σ Unit := modify fun g => { g with held := false }

def onCoord (x : TxnM σ α) : GuardedM σ α :=
  onPart Guarded.coord (fun c g => { g with coord := c }) Halt.fault x

def findGuarded (txnID : String) : GuardedM σ Nat := do
  lockMu
  let g ← get
  unlockMu
  match g.coord.transactions txnID with
  | none => throw (.fault (.error ("transaction not found: " ++ txnID)))
  | some t => pure t

/-- `AbortTransaction`. The mutex is free again before the participants are called. -/
def abortGuarded (txnID : String) : GuardedM σ Unit := do
  let t ← findGuarded txnID
  onCoord (abortBody clock txnID t)
  onCoord (releaseHeld clock t)

def warned (x : GuardedM σ Unit) : GuardedM σ Unit := fun g =>
  match x g with
  | .error (.fault (.error _)) g => .ok () g
  | r => r

def TransactionStatus.sought : TransactionStatus → Bool
  | .pending | .prepared => true
  | _ => false

def DistributedTransaction.Elapsed (txn : DistributedTransaction) (now : Int) : Prop :=
  txn.timeout < now-txn.createdAt

instance (txn : DistributedTransaction) (now : Int) : Decidable (txn.Elapsed now) :=
  inferInstanceAs (Decidable (txn.timeout < now-txn.createdAt))

/-- Whether the cleanup puts the transaction on its list. -/
def Coordinator.listed (c : Coordinator σ) (now : Int) (txnID : String) : Bool :=
  (c.transactions txnID).any fun t => (c.txns t).status.sought && decide ((c.txns t).Elapsed now)

/-- `keys` are the IDs in the map of transactions, in the order in which it is iterated. -/
def cleanupTimeoutTransactions (keys : List String) : GuardedM σ Unit := do
  lockMu
  let now ← onCoord (now clock)
  let g ← get
  forM (keys.filter (g.coord.listed now)) fun txnID => warned (abortGuarded clock txnID)
  unlockMu

end Operations

section Specs
variable {σ α : Type} (clock : Nat → Int)

theorem onCoord_bind {β : Type} (x : TxnM σ α) (f : α → TxnM σ β) (g : Guarded σ) :
    onCoord (x >>= f) g = (onCoord x >>= fun a => onCoord (f a)) g := by
  simp only [onCoord,onPart,bind,EStateM.bind]
  cases x g.coord <;> rfl

theorem findGuarded_eq (txnID : String) (c : Coordinator σ) :
    findGuarded txnID ⟨c,false⟩ = onCoord (findTransaction txnID) ⟨c,false⟩ := by
  cases hreg : c.transactions txnID <;>
    simp [findGuarded,lockMu,unlockMu,onCoord,onPart,findTransaction,bind,EStateM.bind,get_apply,
      set_apply,modify_apply,throw_apply,pure,EStateM.pure,hreg]

/-- With the mutex free the call is the one that the other results are about. -/
theorem abortGuarded_eq (txnID : String) (c : Coordinator σ) :
    abortGuarded clock txnID ⟨c,false⟩ = onCoord (abortTransaction clock txnID) ⟨c,false⟩ := by
  have hbody : ∀ (t : Nat) (g : Guarded σ), (onCoord (abortBody clock txnID t) >>= fun _ =>
      onCoord (releaseHeld clock t)) g =
        onCoord (abortBody clock txnID t >>= fun _ => releaseHeld clock t) g :=
    fun t g => (onCoord_bind _ _ g).symm
  have hfind := findGuarded_eq txnID c
  rw [abortTransaction,onCoord_bind]
  simp only [abortGuarded,bind,EStateM.bind] at hbody ⊢
  rw [hfind]
  cases onCoord (findTransaction txnID) ⟨c,false⟩ with
  | ok t g => exact hbody t g
  | error e g => rfl

theorem abortGuarded_held (txnID : String) (c : Coordinator σ) :
    abortGuarded clock txnID ⟨c,true⟩ = .error .waits ⟨c,true⟩ := rfl

theorem cleanup_eq (keys : List String) (c : Coordinator σ) :
    cleanupTimeoutTransactions clock keys ⟨c,false⟩ =
      if keys.filter (c.listed (clock c.lockManager.tick)) = [] then
        .ok () ⟨c.setLocks c.lockManager.advance,false⟩
      else .error .waits ⟨c.setLocks c.lockManager.advance,true⟩ := by
  have hlisted : (c.setLocks c.lockManager.advance).listed = c.listed := rfl
  have hloop : cleanupTimeoutTransactions clock keys ⟨c,false⟩ =
      (do
        forM (keys.filter (c.listed (clock c.lockManager.tick)))
          fun txnID => warned (abortGuarded clock txnID)
        unlockMu) ⟨c.setLocks c.lockManager.advance,true⟩ := by
    rw [← hlisted]
    rfl
  rw [hloop]
  cases keys.filter (c.listed (clock c.lockManager.tick)) with
  | nil => rfl
  | cons txnID rest =>
    simp only [List.forM_cons,bind,EStateM.bind,warned,abortGuarded_held,reduceCtorEq,if_false]

end Specs

def DistributedTransaction.Settled (txn : DistributedTransaction) : Prop :=
  txn.status = .committed ∨ txn.status = .aborted ∧ txn.locks = []

def Coordinator.AllSettled {σ : Type} (c : Coordinator σ) (now : Int) : Prop :=
  ∀ txnID t, c.transactions txnID = some t → (c.txns t).Elapsed now → (c.txns t).Settled

/-- The cleanup returns, and what had elapsed when it read the clock is settled. -/
def CleansUp {σ : Type} (clock : Nat → Int) (keys : List String) (c : Coordinator σ) : Prop :=
  wp (cleanupTimeoutTransactions clock keys)
    (fun _ g => g.coord.AllSettled (clock c.lockManager.tick)) (fun _ _ => False) ⟨c,false⟩

/-- Of the transactions whose timeout has elapsed none is looked for, none was marked by
`PrepareTransaction`, and those that are aborted have no locks left. -/
structure NothingDue {σ : Type} (c : Coordinator σ) (now : Int) : Prop where
  sought : ∀ txnID t, c.transactions txnID = some t → (c.txns t).Elapsed now →
    (c.txns t).status.sought = false
  marked : ∀ txnID t, c.transactions txnID = some t → (c.txns t).Elapsed now →
    (c.txns t).status ≠ .timeout
  kept : ∀ txnID t, c.transactions txnID = some t → (c.txns t).Elapsed now →
    (c.txns t).status = .aborted → (c.txns t).locks = []

theorem nothingDue_iff {σ : Type} {c : Coordinator σ} {now : Int} :
    NothingDue c now ↔ c.AllSettled now := by
  constructor
  · intro h txnID t hreg he
    have hs := h.sought txnID t hreg he
    have hm := h.marked txnID t hreg he
    have hk := h.kept txnID t hreg he
    unfold DistributedTransaction.Settled
    cases hst : (c.txns t).status with
    | pending | prepared => simp [hst,TransactionStatus.sought] at hs
    | timeout => exact absurd hst hm
    | committed => exact .inl rfl
    | aborted => exact .inr ⟨rfl,hk hst⟩
  · intro h
    refine ⟨fun txnID t hreg he => ?_,fun txnID t hreg he => ?_,fun txnID t hreg he hst => ?_⟩
      <;> rcases h txnID t hreg he with hs | ⟨hs,hl⟩
    · simp [hs,TransactionStatus.sought]
    · simp [hs,TransactionStatus.sought]
    · simp [hs]
    · simp [hs]
    · simp [hs] at hst
    · exact hl

theorem cleansUp_iff {σ : Type} (clock : Nat → Int) (keys : List String) (c : Coordinator σ) :
    CleansUp clock keys c ↔ NothingDue c (clock c.lockManager.tick) := by
  have hlist : c.AllSettled (clock c.lockManager.tick) →
      keys.filter (c.listed (clock c.lockManager.tick)) = [] := by
    intro h
    rw [List.filter_eq_nil_iff]
    intro txnID _ hl
    obtain ⟨t,hreg,hl⟩ := (Option.any_eq_true _ _).mp hl
    obtain ⟨hs,he⟩ := Bool.and_eq_true_iff.mp hl
    rcases h txnID t hreg (of_decide_eq_true he) with hst | ⟨hst,-⟩ <;>
      simp [hst,TransactionStatus.sought] at hs
  rw [nothingDue_iff,CleansUp,wp,cleanup_eq]
  split_ifs with hnil
  · rfl
  · exact ⟨False.elim,fun h => hnil (hlist h)⟩

/-- The coordinator after calls in any number and any order, cut where another goroutine can
come in. -/
def reached {σ : Type} (clock : Nat → Int) (order : Nat → List String → List String)
    (storeID : String) (handlers : String → Option (Handler σ))
    (objects : Nat → TransactionParticipant) (world : σ) (ops : List TxnOp) : Coordinator σ :=
  ((newSystem storeID handlers objects world).run clock order ops).coord

/-- After every run of calls the cleanup does its work if and only if it has none. -/
theorem cleanup_completes_iff {σ : Type} (clock : Nat → Int)
    (order : Nat → List String → List String) (storeID : String)
    (handlers : String → Option (Handler σ)) (objects : Nat → TransactionParticipant) (world : σ)
    (ops : List TxnOp) (keys : List String) :
    CleansUp clock keys (reached clock order storeID handlers objects world ops) ↔
      NothingDue (reached clock order storeID handlers objects world ops)
        (clock (reached clock order storeID handlers objects world ops).lockManager.tick) :=
  cleansUp_iff clock keys _

/-- The readings after the first six come late. -/
def lateClock (n : Nat) : Int := if n < 6 then n else 1000+n

/-- One transaction with one participant, begun and, if `tried`, prepared too late. -/
def dueAfter (tried : Bool) : Coordinator Unit :=
  reached lateClock (fun _ => id) "store_1" obliging (creating "store_1") ()
    ([.begin [0] 100,.acquire 0,.register 0] ++ if tried then [.prepare 0] else [])

/-- A pending transaction makes the cleanup wait for ever; one that was marked is left with its
lock. -/
theorem cleanup_waits_or_skips :
    ¬ CleansUp lateClock ["store_1_0"] (dueAfter false) ∧
      ¬ CleansUp lateClock ["store_1_0"] (dueAfter true) := by
  rw [cleansUp_iff,cleansUp_iff]
  refine ⟨fun h => ?_,fun h => ?_⟩
  · exact absurd (h.sought "store_1_0" 0 (by decide +kernel) (by decide +kernel))
      (by decide +kernel)
  · exact h.marked "store_1_0" 0 (by decide +kernel) (by decide +kernel) (by decide +kernel)

end Imy.Txn
