import Imy.Lib.Interference
import Imy.Txn.Coordinator
set_option autoImplicit false

/-!
`ExecuteTransaction` as a program that others may interrupt. They can come in
wherever the lock manager, the clock or a handler is called. `acquireLock` to `now`
is what anybody may ask, the rest is what the call does with data of its own.
-/

namespace Imy.Txn
open Imy.Lib Imy.Lock

inductive Request where
  | acquireLock (lockKey : String) (ttl : Int)
  | releaseLock (lock : DistributedLock)
  | renewLock (lock : DistributedLock) (ttl : Int)
  | isLocked (lockKey : String)
  | getLockInfo (lockKey : String)
  | cleanup
  | now
  | create (participants : List Nat) (timeout nano createdAt updatedAt : Int)
  | lockKeys (order : List String → List String) (participants : List Nat)
  | register (t : Nat)
  | txn (t : Nat)
  | modifyTxn (t : Nat) (f : DistributedTransaction → DistributedTransaction)
  | findTransaction (txnID : String)
  | prepareOne (txnID : String) (p : Nat)
  | commitOne (txnID : String) (errors : List String) (p : Nat)
  | abortOne (txnID : String) (p : Nat)

@[reducible] def Request.Result : Request → Type
  | .acquireLock _ _ => Except LockError DistributedLock
  | .releaseLock _ => Except LockError Unit
  | .renewLock _ _ => Except LockError DistributedLock
  | .isLocked _ => Except LockError Bool
  | .getLockInfo _ => Except LockError LockInfo
  | .cleanup => Except LockError Unit
  | .now => Int
  | .create _ _ _ _ _ | .findTransaction _ => Nat
  | .lockKeys _ _ | .commitOne _ _ _ => List String
  | .txn _ => DistributedTransaction
  | .register _ | .modifyTxn _ _ | .prepareOne _ _ | .abortOne _ _ => Unit

abbrev Answer (q : Request) : Type := Except Fault q.Result

/-- What anybody may ask who shares the lock manager. -/
def Request.AtManager : Request → Prop
  | .acquireLock _ _ | .releaseLock _ | .renewLock _ _ | .isLocked _ | .getLockInfo _ | .cleanup
  | .now => True
  | _ => False

section Action
variable {σ : Type} (clock : Nat → Int)

def create (participants : List Nat) (timeout nano createdAt updatedAt : Int) : TxnM σ Nat := do
  let c ← get
  set { c.setTxn c.allocated
      { transactionID := stamp c.storeID nano
        coordinatorID := c.storeID
        participants := participants
        status := .pending
        createdAt := createdAt
        updatedAt := updatedAt
        timeout := timeout
        locks := [] } with allocated := c.allocated+1 }
  forM participants fun p => setStatus p .pending
  pure c.allocated

def Request.action : (q : Request) → TxnM σ q.Result
  | .acquireLock lockKey ttl => locking (Lock.acquireLock clock lockKey ttl)
  | .releaseLock lock => locking (Lock.releaseLock lock)
  | .renewLock lock ttl => locking (Lock.renewLock clock lock ttl)
  | .isLocked lockKey => locking (Lock.isLocked clock lockKey)
  | .getLockInfo lockKey => locking (Lock.getLockInfo clock lockKey)
  | .cleanup => locking (cleanupExpired clock)
  | .now => Txn.now clock
  | .create participants timeout nano createdAt updatedAt =>
    Txn.create participants timeout nano createdAt updatedAt
  | .lockKeys order participants => do
    let c ← get
    pure (generateLockKeys order (participants.map c.objects))
  | .register t => Txn.register t
  | .txn t => do
    let c ← get
    pure (c.txns t)
  | .modifyTxn t f => Txn.modifyTxn t f
  | .findTransaction txnID => Txn.findTransaction txnID
  | .prepareOne txnID p => Txn.prepareOne txnID p
  | .commitOne txnID errors p => Txn.commitOne txnID errors p
  | .abortOne txnID p => Txn.abortOne txnID p

end Action

abbrev TxnProg (α : Type) := Prog Request Answer Fault α

namespace TxnProg

def call (q : Request) : TxnProg q.Result := Prog.call q

def releaseOne (key : String) : TxnProg Unit := do
  match ← call (.getLockInfo key) with
  | .error _ => pure ()
  | .ok info =>
    let _ ← call (.releaseLock (rebuilt info))
    pure ()

def releaseLocks (lockKeys : List String) : TxnProg Unit := forM lockKeys releaseOne

def acquireOne (t : Nat) (timeout : Int) (key : String) : TxnProg Unit := do
  match ← call (.acquireLock key timeout) with
  | .ok lock => call (.modifyTxn t fun txn => { txn with locks := txn.locks ++ [lock.lockKey] })
  | .error e =>
    let txn ← call (.txn t)
    releaseLocks txn.locks
    Prog.fail (.error ("failed to acquire lock " ++ key ++ ": " ++ e.text))

def allocate (participants : List Nat) (timeout : Int) : TxnProg Nat := do
  let nano ← call .now
  let createdAt ← call .now
  let updatedAt ← call .now
  call (.create participants timeout nano createdAt updatedAt)

def beginTransaction (order : List String → List String) (participants : List Nat)
    (timeout : Int) : TxnProg Nat := do
  let t ← allocate participants timeout
  let keys ← call (.lockKeys order participants)
  forM keys (acquireOne t timeout)
  call (.register t)
  pure t

def prepareBody (txnID : String) (t : Nat) : TxnProg Unit := do
  let txn ← call (.txn t)
  if txn.status ≠ .pending then
    Prog.fail (.error ("transaction " ++ txnID ++ " is not in pending status: " ++ txn.status.text))
  else
    let checked ← call .now
    if txn.timeout < checked-txn.createdAt then
      call (.modifyTxn t fun txn => { txn with status := .timeout })
      Prog.fail (.error ("transaction " ++ txnID ++ " has timed out"))
    else
      forM txn.participants fun p => call (.prepareOne txnID p)
      let updatedAt ← call .now
      call (.modifyTxn t fun txn => { txn with status := .prepared, updatedAt := updatedAt })

def prepareTransaction (txnID : String) : TxnProg Unit := do
  let t ← call (.findTransaction txnID)
  prepareBody txnID t

def commitBody (txnID : String) (t : Nat) : TxnProg Unit := do
  let txn ← call (.txn t)
  if txn.status ≠ .prepared then
    Prog.fail (.error ("transaction " ++ txnID ++ " is not in prepared status: " ++
      txn.status.text))
  else
    let errors ← txn.participants.foldlM (fun errors p => call (.commitOne txnID errors p)) []
    if errors ≠ [] then
      call (.modifyTxn t fun txn => { txn with status := .aborted })
      Prog.fail (.error ("commit failed with " ++ decimal errors.length ++ " errors: [" ++
        " ".intercalate errors ++ "]"))
    else
      let updatedAt ← call .now
      call (.modifyTxn t fun txn => { txn with status := .committed, updatedAt := updatedAt })

def releaseHeld (t : Nat) : TxnProg Unit := do
  let txn ← call (.txn t)
  releaseLocks txn.locks
  call (.modifyTxn t fun txn => { txn with locks := [] })

def commitTransaction (txnID : String) : TxnProg Unit := do
  let t ← call (.findTransaction txnID)
  commitBody txnID t
  releaseHeld t

def abortBody (txnID : String) (t : Nat) : TxnProg Unit := do
  let txn ← call (.txn t)
  if txn.status = .committed then
    Prog.fail (.error ("cannot abort committed transaction: " ++ txnID))
  else
    forM txn.participants fun p => call (.abortOne txnID p)
    let updatedAt ← call .now
    call (.modifyTxn t fun txn => { txn with status := .aborted, updatedAt := updatedAt })

def abortTransaction (txnID : String) : TxnProg Unit := do
  let t ← call (.findTransaction txnID)
  abortBody txnID t
  releaseHeld t

def abortAfter (phase : String) (t : Nat) (text : String) : TxnProg Unit := do
  let txn ← call (.txn t)
  match ← (abortTransaction txn.transactionID).attempt with
  | .error (.lost loss) => Prog.fail (.lost loss)
  | .ok _ | .error (.error _) =>
    Prog.fail (.error ("transaction " ++ phase ++ " failed: " ++ text))

def orAbort (phase : String) (t : Nat) (x : TxnProg Unit) : TxnProg Unit := do
  match ← x.attempt with
  | .ok _ => pure ()
  | .error (.lost loss) => Prog.fail (.lost loss)
  | .error (.error text) => abortAfter phase t text

def orFail (x : TxnProg Nat) : TxnProg Nat := do
  match ← x.attempt with
  | .ok t => pure t
  | .error (.error text) => Prog.fail (.error ("failed to begin transaction: " ++ text))
  | .error (.lost loss) => Prog.fail (.lost loss)

def executeTransaction (order : List String → List String) (participants : List Nat)
    (timeout : Int) : TxnProg Unit := do
  let t ← orFail (beginTransaction order participants timeout)
  let txn ← call (.txn t)
  orAbort "prepare" t (prepareTransaction txn.transactionID)
  orAbort "commit" t (commitTransaction txn.transactionID)

/-! Without interruption the steps are the functions of the coordinator. -/

section Alone
variable {σ α β : Type} (clock : Nat → Int)

/-- The steps with nobody else at the lock manager. -/
abbrev alone (x : TxnProg α) : TxnM σ α := Prog.run (perform (Request.action clock)) x

theorem alone_call (q : Request) :
    alone (σ := σ) (α := no_index q.Result) clock (call q) = q.action clock :=
  Prog.run_call _ q

theorem alone_bind (x : TxnProg α) (f : α → TxnProg β) :
    alone (σ := σ) clock (x >>= f) = alone clock x >>= fun a => alone clock (f a) :=
  Prog.run_bind _ x f

theorem alone_fail (e : Fault) : alone (σ := σ) clock (Prog.fail e : TxnProg α) = throw e := rfl

theorem alone_pure (a : α) : alone (σ := σ) clock (pure a) = pure a := rfl

theorem alone_forM (f : α → TxnProg Unit) (xs : List α) :
    alone (σ := σ) clock (forM xs f) = forM xs fun x => alone clock (f x) :=
  Prog.run_forM _ f xs

theorem alone_foldlM (f : β → α → TxnProg β) (xs : List α) (b : β) :
    alone (σ := σ) clock (xs.foldlM f b) = xs.foldlM (fun b x => alone clock (f b x)) b :=
  Prog.run_foldlM _ f xs b

theorem alone_ite (p : Prop) [Decidable p] (x y : TxnProg α) :
    alone (σ := σ) clock (if p then x else y) = if p then alone clock x else alone clock y := by
  split <;> rfl

theorem alone_releaseLocks (keys : List String) :
    alone (σ := σ) clock (releaseLocks keys) = Txn.releaseLocks clock keys := by
  rw [releaseLocks,alone_forM,Txn.releaseLocks]
  congr 1
  funext key
  rw [releaseOne,alone_bind,alone_call,Txn.releaseOne]
  refine bind_congr fun found => ?_
  cases found with
  | error e => rfl
  | ok info =>
    rw [alone_bind,alone_call]
    rfl

theorem alone_acquireOne (t : Nat) (timeout : Int) (key : String) :
    alone (σ := σ) clock (acquireOne t timeout key) = Txn.acquireOne clock t timeout key := by
  rw [acquireOne,alone_bind,alone_call,Txn.acquireOne]
  refine bind_congr fun acquired => ?_
  cases acquired with
  | ok lock => exact alone_call clock _
  | error e =>
    simp only [alone_bind,alone_call,alone_releaseLocks,alone_fail]
    rfl

theorem alone_beginTransaction (order : List String → List String) (ps : List Nat) (timeout : Int) :
    alone (σ := σ) clock (beginTransaction order ps timeout) =
      Txn.beginTransaction clock order ps timeout := by
  simp only [beginTransaction,allocate,alone_bind,alone_call,alone_forM,alone_acquireOne,alone_pure]
  rfl

theorem alone_prepareTransaction (txnID : String) :
    alone (σ := σ) clock (prepareTransaction txnID) = Txn.prepareTransaction clock txnID := by
  simp only [prepareTransaction,prepareBody,alone_bind,alone_call,alone_ite,alone_fail,alone_forM]
  rfl

theorem alone_releaseHeld (t : Nat) :
    alone (σ := σ) clock (releaseHeld t) = Txn.releaseHeld clock t := by
  simp only [releaseHeld,alone_bind,alone_call,alone_releaseLocks]
  rfl

theorem alone_commitTransaction (txnID : String) :
    alone (σ := σ) clock (commitTransaction txnID) = Txn.commitTransaction clock txnID := by
  simp only [commitTransaction,commitBody,alone_bind,alone_call,alone_ite,alone_fail,alone_foldlM,
    alone_releaseHeld]
  rfl

theorem alone_abortTransaction (txnID : String) :
    alone (σ := σ) clock (abortTransaction txnID) = Txn.abortTransaction clock txnID := by
  simp only [abortTransaction,abortBody,alone_bind,alone_call,alone_ite,alone_fail,alone_forM,
    alone_releaseHeld]
  rfl

theorem alone_attempt (x : TxnProg α) :
    alone (σ := σ) clock (x.attempt : TxnProg (Except Fault α)) = fun c =>
      match alone clock x c with
      | .ok a c => .ok (.ok a) c
      | .error e c => .ok (.error e) c := by
  funext c
  refine (congrFun (Prog.run_attempt _ x) c).trans ?_
  simp only [alone]
  cases Prog.run (perform (Request.action clock)) x c <;> rfl

theorem alone_orFail (x : TxnProg Nat) :
    alone (σ := σ) clock (orFail x) = Txn.orFail (alone clock x) := by
  rw [orFail,alone_bind,alone_attempt]
  funext c
  simp only [bind,EStateM.bind,Txn.orFail]
  cases alone clock x c with
  | ok t c => rfl
  | error e c => cases e <;> rfl

theorem alone_orAbort (phase : String) (t : Nat) (x : TxnProg Unit) :
    alone (σ := σ) clock (orAbort phase t x) = Txn.orAbort clock phase t (alone clock x) := by
  rw [orAbort,alone_bind,alone_attempt]
  funext c
  simp only [bind,EStateM.bind,Txn.orAbort]
  cases alone clock x c with
  | ok a c => rfl
  | error e c =>
    cases e with
    | lost loss => rfl
    | error text =>
      change alone clock (abortAfter phase t text) c = _
      rw [abortAfter,alone_bind,alone_call]
      change alone clock (_ >>= _) c = _
      rw [alone_bind,alone_attempt,alone_abortTransaction]
      simp only [bind,EStateM.bind]
      cases Txn.abortTransaction clock (c.txns t).transactionID c with
      | ok a c => rfl
      | error e c => cases e <;> rfl

theorem alone_executeTransaction (order : List String → List String) (ps : List Nat)
    (timeout : Int) : alone (σ := σ) clock (executeTransaction order ps timeout) =
      Txn.executeTransaction clock order ps timeout := by
  simp only [executeTransaction,alone_bind,alone_call,alone_orFail,alone_orAbort,
    alone_beginTransaction,alone_prepareTransaction,alone_commitTransaction]
  rfl

end Alone

end TxnProg

end Imy.Txn
