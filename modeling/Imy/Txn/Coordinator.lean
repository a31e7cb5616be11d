import Mathlib.Data.List.Dedup
import Imy.Lock.LockManager
set_option autoImplicit false

/-!
The two-phase commit of `pkg/storage/distributed_transaction.go`. Transactions
and participants are passed by pointer, so both live in a table and are named by
their place in it. `σ` is whatever the handlers act on.
-/

namespace Imy.Txn
open Imy.Lib Imy.Lock

inductive TransactionStatus where
  | pending | prepared | committed | aborted | timeout
  deriving DecidableEq, Repr

def TransactionStatus.text : TransactionStatus → String
  | .pending => "pending"
  | .prepared => "prepared"
  | .committed => "committed"
  | .aborted => "aborted"
  | .timeout => "timeout"

/-- The type is an int in the source; `unknown` stands for every other value. -/
inductive TransactionOperation where
  | createTimeline | deleteTimeline | addMessage | migrateTimeline | updateIndex | unknown
  deriving DecidableEq, Repr

def TransactionOperation.text : TransactionOperation → String
  | .createTimeline => "create_timeline"
  | .deleteTimeline => "delete_timeline"
  | .addMessage => "add_message"
  | .migrateTimeline => "migrate_timeline"
  | .updateIndex => "update_index"
  | .unknown => "unknown"

inductive ParamValue where
  | string (s : String)
  | uint32 (n : UInt32)
  | bytes (b : List UInt8)
  | strings (l : List String)
  | other
  deriving DecidableEq, Repr

def ParamValue.string? : ParamValue → Option String
  | .string s => some s
  | _ => none

structure TransactionParticipant where
  storeID : String
  operation : TransactionOperation
  params : String → Option ParamValue
  status : TransactionStatus
  error : String

structure DistributedTransaction where
  transactionID : String
  coordinatorID : String
  participants : List Nat
  status : TransactionStatus
  createdAt : Int
  updatedAt : Int
  timeout : Int
  locks : List String
  deriving DecidableEq, Repr

inductive Loss where
  | panicked | waits
  deriving DecidableEq, Repr

inductive Reply where
  | ok
  | error (text : String)
  | lost (loss : Loss)
  deriving DecidableEq, Repr

/-- `TransactionParticipantHandler`. -/
structure Handler (σ : Type) where
  prepare : String → TransactionParticipant → σ → Reply × σ
  commit : String → TransactionParticipant → σ → Reply × σ
  abort : String → TransactionParticipant → σ → Reply × σ

inductive Phase where
  | prepare | commit | abort
  deriving DecidableEq, Repr

structure HandlerCall where
  phase : Phase
  participant : Nat
  reply : Reply
  deriving DecidableEq, Repr

/-- `txns` and `objects` hold what the pointers point to, and `allocated`
transactions exist. `calls` is not in the source: it records every call of a
handler in order. -/
structure Coordinator (σ : Type) where
  transactions : String → Option Nat
  handlers : String → Option (Handler σ)
  lockManager : LockManager
  storeID : String
  txns : Nat → DistributedTransaction
  allocated : Nat
  objects : Nat → TransactionParticipant
  world : σ
  calls : List HandlerCall

/-- `NewInMemoryTransactionCoordinator`, with the handlers registered afterwards. -/
def newCoordinator {σ : Type} (storeID : String) (lockManager : LockManager)
    (handlers : String → Option (Handler σ)) (objects : Nat → TransactionParticipant) (world : σ) :
    Coordinator σ where
  transactions := fun _ => none
  handlers := handlers
  lockManager := lockManager
  storeID := storeID
  txns := fun _ => ⟨"","",[],.pending,0,0,0,[]⟩
  allocated := 0
  objects := objects
  world := world
  calls := []

inductive Fault where
  | error (text : String)
  | lost (loss : Loss)
  deriving DecidableEq, Repr

def Fault.Lost : Fault → Prop
  | .error _ => False
  | .lost _ => True

instance : DecidablePred Fault.Lost
  | .error _ => isFalse id
  | .lost _ => isTrue trivial

@[simp] theorem Fault.lost_error (text : String) : ¬ (Fault.error text).Lost := id

@[simp] theorem Fault.lost_lost (loss : Loss) : (Fault.lost loss).Lost := trivial

section Operations
variable {σ α : Type} (clock : Nat → Int)

abbrev TxnM (σ : Type) := EStateM Fault (Coordinator σ)

@[simps -fullyApplied] def Coordinator.setLocks (c : Coordinator σ) (m : LockManager) :
    Coordinator σ :=
  { c with lockManager := m }

@[simps -fullyApplied] def Coordinator.setTxn (c : Coordinator σ) (t : Nat)
    (txn : DistributedTransaction) : Coordinator σ :=
  { c with txns := Function.update c.txns t txn }

@[simps -fullyApplied] def Coordinator.setObject (c : Coordinator σ) (p : Nat)
    (o : TransactionParticipant) : Coordinator σ :=
  { c with objects := Function.update c.objects p o }

@[simps -fullyApplied] def Coordinator.called (c : Coordinator σ) (phase : Phase) (p : Nat)
    (result : Reply × σ) : Coordinator σ :=
  { c with world := result.2, calls := c.calls ++ [⟨phase,p,result.1⟩] }

/-- `time.Now()`. -/
def now : TxnM σ Int :=
  fun c => .ok (clock c.lockManager.tick) (c.setLocks c.lockManager.advance)

/-- A call of the lock manager, with what it returned. -/
def locking (x : LockM α) : TxnM σ (Except LockError α) := fun c =>
  match x c.lockManager with
  | .ok a m => .ok (.ok a) (c.setLocks m)
  | .error e m => .ok (.error e) (c.setLocks m)

def callHandler (phase : Phase) (method : String → TransactionParticipant → σ → Reply × σ)
    (txnID : String) (p : Nat) : TxnM σ (Option String) := do
  let c ← get
  let result := method txnID (c.objects p) c.world
  set (c.called phase p result)
  match result.1 with
  | .ok => pure none
  | .error text => pure (some text)
  | .lost loss => throw (.lost loss)

def setStatus (p : Nat) (status : TransactionStatus) : TxnM σ Unit :=
  modify fun c => c.setObject p { c.objects p with status := status }

def setError (p : Nat) (error : String) : TxnM σ Unit :=
  modify fun c => c.setObject p { c.objects p with error := error }

def modifyTxn (t : Nat) (f : DistributedTransaction → DistributedTransaction) : TxnM σ Unit :=
  modify fun c => c.setTxn t (f (c.txns t))

def TransactionParticipant.string? (o : TransactionParticipant) (name : String) : Option String :=
  (o.params name).bind ParamValue.string?

/-- The key that one participant adds to the set. -/
def lockKey (o : TransactionParticipant) : Option String :=
  match o.operation with
  | .createTimeline | .deleteTimeline => (o.string? "timeline_key").map ("timeline:" ++ ·)
  | .addMessage => (o.string? "timeline_key").map ("timeline:" ++ · ++ ":messages")
  | .migrateTimeline => (o.string? "timeline_key").map ("timeline:" ++ · ++ ":migrate")
  | .updateIndex => (o.string? "index_key").map ("index:" ++ ·)
  | .unknown => none

def generateLockKeys (order : List String → List String)
    (participants : List TransactionParticipant) : List String :=
  order (participants.filterMap lockKey).dedup

/-- The handle that `releaseLocks` makes up from the entry it finds. -/
def rebuilt (info : LockInfo) : DistributedLock :=
  { lockKey := info.lockKey
    lockID := info.lockID
    ownerID := info.ownerID
    storeID := info.storeID
    acquiredAt := 0
    expiresAt := 0
    ttl := 0 }

def releaseOne (key : String) : TxnM σ Unit := do
  match ← locking (getLockInfo clock key) with
  | .error _ => pure ()
  | .ok info =>
    let _ ← locking (releaseLock (rebuilt info))
    pure ()

def releaseLocks (lockKeys : List String) : TxnM σ Unit := forM lockKeys (releaseOne clock)

def acquireOne (t : Nat) (timeout : Int) (key : String) : TxnM σ Unit := do
  match ← locking (acquireLock clock key timeout) with
  | .ok lock => modifyTxn t fun txn => { txn with locks := txn.locks ++ [lock.lockKey] }
  | .error e =>
    let c ← get
    releaseLocks clock (c.txns t).locks
    throw (.error ("failed to acquire lock " ++ key ++ ": " ++ e.text))

def allocate (participants : List Nat) (timeout : Int) : TxnM σ Nat := do
  let nano ← now clock
  let createdAt ← now clock
  let updatedAt ← now clock
  let c ← get
  set { c.setTxn c.allocated
      { transactionID := stamp c.storeID nano
        coordinatorID := c.storeID
        participants := participants
        status := .pending
        createdAt := createdAt
        updatedAt := updatedAt
        timeout := timeout
        locks := [] } with allocated := c.allocated+1 }
  forM participants fun p => setStatus p .pending
  pure c.allocated

def register (t : Nat) : TxnM σ Unit :=
  modify fun c => { c with
    transactions := Function.update c.transactions (c.txns t).transactionID (some t) }

def beginTransaction (order : List String → List String) (participants : List Nat)
    (timeout : Int) : TxnM σ Nat := do
  let t ← allocate clock participants timeout
  let c ← get
  forM (generateLockKeys order (participants.map c.objects)) (acquireOne clock t timeout)
  register t
  pure t

def findTransaction (txnID : String) : TxnM σ Nat := do
  let c ← get
  match c.transactions txnID with
  | none => throw (.error ("transaction not found: " ++ txnID))
  | some t => pure t

/-- One round of the loop in `PrepareTransaction`. A participant without a
handler does not stop it. -/
def prepareOne (txnID : String) (p : Nat) : TxnM σ Unit := do
  let c ← get
  match c.handlers (c.objects p).storeID with
  | none =>
    setStatus p .aborted
    setError p ("handler not found for store " ++ (c.objects p).storeID)
  | some handler =>
    match ← callHandler .prepare handler.prepare txnID p with
    | some err =>
      setStatus p .aborted
      setError p err
      throw (.error ("prepare failed for participant " ++ (c.objects p).storeID ++ ": " ++ err))
    | none => setStatus p .prepared

def prepareBody (txnID : String) (t : Nat) : TxnM σ Unit := do
  let c ← get
  let txn := c.txns t
  if txn.status ≠ .pending then
    throw (.error ("transaction " ++ txnID ++ " is not in pending status: " ++ txn.status.text))
  let checked ← now clock
  if txn.timeout < checked-txn.createdAt then
    modifyTxn t fun txn => { txn with status := .timeout }
    throw (.error ("transaction " ++ txnID ++ " has timed out"))
  forM txn.participants (prepareOne txnID)
  let updatedAt ← now clock
  modifyTxn t fun txn => { txn with status := .prepared, updatedAt := updatedAt }

def prepareTransaction (txnID : String) : TxnM σ Unit := do
  let t ← findTransaction txnID
  prepareBody clock txnID t

/-- One round of the loop in `CommitTransaction`, with the errors so far. -/
def commitOne (txnID : String) (errors : List String) (p : Nat) : TxnM σ (List String) := do
  let c ← get
  if (c.objects p).status ≠ .prepared then pure errors
  else
    match c.handlers (c.objects p).storeID with
    | none => pure (errors ++ ["handler not found for store " ++ (c.objects p).storeID])
    | some handler =>
      match ← callHandler .commit handler.commit txnID p with
      | some err =>
        setError p err
        pure (errors ++ ["commit failed for participant " ++ (c.objects p).storeID ++ ": " ++ err])
      | none =>
        setStatus p .committed
        pure errors

def commitBody (txnID : String) (t : Nat) : TxnM σ Unit := do
  let c ← get
  let txn := c.txns t
  if txn.status ≠ .prepared then
    throw (.error ("transaction " ++ txnID ++ " is not in prepared status: " ++ txn.status.text))
  let errors ← txn.participants.foldlM (commitOne txnID) []
  if errors ≠ [] then
    modifyTxn t fun txn => { txn with status := .aborted }
    throw (.error ("commit failed with " ++ decimal errors.length ++ " errors: [" ++
      " ".intercalate errors ++ "]"))
  let updatedAt ← now clock
  modifyTxn t fun txn => { txn with status := .committed, updatedAt := updatedAt }

def releaseHeld (t : Nat) : TxnM σ Unit := do
  let c ← get
  releaseLocks clock (c.txns t).locks
  modifyTxn t fun txn => { txn with locks := [] }

def commitTransaction (txnID : String) : TxnM σ Unit := do
  let t ← findTransaction txnID
  commitBody clock txnID t
  releaseHeld clock t

def abortOne (txnID : String) (p : Nat) : TxnM σ Unit := do
  let c ← get
  if (c.objects p).status = .pending then pure ()
  else
    match c.handlers (c.objects p).storeID with
    | none => pure ()
    | some handler =>
      match ← callHandler .abort handler.abort txnID p with
      | some err => setError p err
      | none => pure ()
      setStatus p .aborted

def abortBody (txnID : String) (t : Nat) : TxnM σ Unit := do
  let c ← get
  let txn := c.txns t
  if txn.status = .committed then
    throw (.error ("cannot abort committed transaction: " ++ txnID))
  forM txn.participants (abortOne txnID)
  let updatedAt ← now clock
  modifyTxn t fun txn => { txn with status := .aborted, updatedAt := updatedAt }

def abortTransaction (txnID : String) : TxnM σ Unit := do
  let t ← findTransaction txnID
  abortBody clock txnID t
  releaseHeld clock t

/-- What `ExecuteTransaction` does with the error of a phase: abort, and return
it with the name of the phase in front. The error of the abort is only printed. -/
def orAbort (phase : String) (t : Nat) (x : TxnM σ Unit) : TxnM σ Unit := fun c =>
  match x c with
  | .ok _ c => .ok () c
  | .error (.lost loss) c => .error (.lost loss) c
  | .error (.error text) c =>
    match abortTransaction clock (c.txns t).transactionID c with
    | .error (.lost loss) c => .error (.lost loss) c
    | .ok _ c | .error (.error _) c =>
      .error (.error ("transaction " ++ phase ++ " failed: " ++ text)) c

/-- The error of `BeginTransaction` with what `ExecuteTransaction` puts in front. -/
def orFail (x : TxnM σ Nat) : TxnM σ Nat := fun c =>
  match x c with
  | .error (.error text) c => .error (.error ("failed to begin transaction: " ++ text)) c
  | r => r

def executeTransaction (order : List String → List String) (participants : List Nat)
    (timeout : Int) : TxnM σ Unit := do
  let t ← orFail (beginTransaction clock order participants timeout)
  let c ← get
  orAbort clock "prepare" t (prepareTransaction clock (c.txns t).transactionID)
  orAbort clock "commit" t (commitTransaction clock (c.txns t).transactionID)

end Operations

section Specs
variable {σ α : Type} (clock : Nat → Int)

@[simp] theorem wp_now (Q : Int → Coordinator σ → Prop) (E : Fault → Coordinator σ → Prop)
    (c : Coordinator σ) :
    wp (now clock) Q E c = Q (clock c.lockManager.tick) (c.setLocks c.lockManager.advance) := rfl

@[simp] theorem wp_setStatus (p : Nat) (status : TransactionStatus)
    (Q : Unit → Coordinator σ → Prop) (E : Fault → Coordinator σ → Prop) (c : Coordinator σ) :
    wp (setStatus p status) Q E c = Q () (c.setObject p { c.objects p with status := status }) :=
  rfl

@[simp] theorem wp_setError (p : Nat) (error : String)
    (Q : Unit → Coordinator σ → Prop) (E : Fault → Coordinator σ → Prop) (c : Coordinator σ) :
    wp (setError p error) Q E c = Q () (c.setObject p { c.objects p with error := error }) := rfl

@[simp] theorem wp_modifyTxn (t : Nat) (f : DistributedTransaction → DistributedTransaction)
    (Q : Unit → Coordinator σ → Prop) (E : Fault → Coordinator σ → Prop) (c : Coordinator σ) :
    wp (modifyTxn t f) Q E c = Q () (c.setTxn t (f (c.txns t))) := rfl

@[simp] theorem wp_locking (x : LockM α) (Q : Except LockError α → Coordinator σ → Prop)
    (E : Fault → Coordinator σ → Prop) (c : Coordinator σ) :
    wp (locking x) Q E c =
      wp x (fun a m => Q (.ok a) (c.setLocks m)) (fun e m => Q (.error e) (c.setLocks m))
        c.lockManager := by
  simp only [wp,locking]
  cases x c.lockManager <;> rfl

theorem wp_callHandler (phase : Phase) (method : String → TransactionParticipant → σ → Reply × σ)
    (txnID : String) (p : Nat) (Q : Option String → Coordinator σ → Prop)
    (E : Fault → Coordinator σ → Prop) (c : Coordinator σ) :
    wp (callHandler phase method txnID p) Q E c =
      match (method txnID (c.objects p) c.world).1 with
      | .ok => Q none (c.called phase p (method txnID (c.objects p) c.world))
      | .error text => Q (some text) (c.called phase p (method txnID (c.objects p) c.world))
      | .lost loss => E (.lost loss) (c.called phase p (method txnID (c.objects p) c.world)) := by
  simp only [callHandler,wp_bind,wp_get,wp_set]
  cases (method txnID (c.objects p) c.world).1 <;> rfl

/-- Releasing never fails and touches nothing but the lock table. -/
theorem wp_releaseLocks (keys : List String) (c : Coordinator σ) :
    wp (releaseLocks clock keys) (fun _ c' => ∃ m, c' = c.setLocks m) (fun _ _ => False) c := by
  refine wp_forM (I := fun _ c' => ∃ m, c' = c.setLocks m) keys ⟨_,rfl⟩ ?_
  rintro done key rest _ - ⟨m,rfl⟩
  simp only [releaseOne,wp_bind,wp_locking]
  refine wp_mono (wp_of_any _ _) ?_ ?_
  · intro info m' _
    simp only [wp_pure]
    exact wp_mono (wp_of_any _ _) (fun _ m'' _ => ⟨m'',rfl⟩) (fun _ m'' _ => ⟨m'',rfl⟩)
  · intro _ m' _
    exact ⟨m',rfl⟩

end Specs

end Imy.Txn
