import Imy.Lib.Text
import Imy.Lib.Threads
import Imy.Lock.LockManager
import Imy.Storage.Timeline
set_option autoImplicit false

/-!
A migration task of `pkg/storage/migration_manager.go`: the goroutine of
`executeMigration` and the calls of `CancelMigration` for it. What the goroutine asks of
others (the lock manager, the accessor, the index, the clock, the context of its caller)
are calls to services that may answer anything. Nothing deletes the task meanwhile.
-/

namespace Imy.Migration
open Imy.Lib

inductive MigrationStatus where
  | pending | running | completed | failed | cancelled
  deriving DecidableEq, Repr

def MigrationStatus.text : MigrationStatus → String
  | .pending => "pending"
  | .running => "running"
  | .completed => "completed"
  | .failed => "failed"
  | .cancelled => "cancelled"

/-- The fields of a task that do not change. -/
structure Job where
  id : String
  timelineKey : String
  sourceStore : String
  targetStore : String
  createdAt : Int
  deriving DecidableEq, Repr

structure MigrationTask where
  status : MigrationStatus
  progress : Float
  startTime : Int
  endTime : Option Int
  error : String
  updatedAt : Int

/-- The task, whether `runningTasks` has its cancel function, and whether its context is
cancelled. -/
structure TaskState where
  task : MigrationTask
  inRunningTasks : Bool
  contextCancelled : Bool

/-- A task as `StartMigration` makes it. -/
def newTask (createdAt : Int) : TaskState := ⟨⟨.pending,0,0,none,"",createdAt⟩,false,false⟩

/-- What is asked of others. -/
inductive Call where
  | now
  /-- whether the context that `StartMigration` was given is done -/
  | parentErr
  | acquireLock (lockKey : String) (ttl : Int)
  | releaseLock (lock : Lock.DistributedLock)
  | getTimeline (timelineKey : String)
  | createTimeline (timelineKey timelineType : String)
  | getMessages (timelineKey : String) (startTime endTime limit : Int)
  | addMessage (timelineKey : String) (senderID : UInt32) (data : List UInt8)
    (userIDs : List String)
  | migrateTimeline (timelineKey fromStoreID toStoreID : String)
  | deleteTimeline (timelineKey : String)

/-- Where only an error may come back, `none` is a nil. -/
abbrev Call.Answer : Call → Type
  | .now => Int
  | .parentErr => Option String
  | .acquireLock _ _ => Except String Lock.DistributedLock
  | .releaseLock _ => Option String
  | .getTimeline _ => Except String Storage.TimelineRef
  | .createTimeline _ _ => Option String
  | .getMessages _ _ _ _ => Except String (List Storage.Message)
  | .addMessage _ _ _ _ => Option String
  | .migrateTimeline _ _ _ => Option String
  | .deleteTimeline _ => Option String

inductive Act where
  | addRunningTask
  | deleteRunningTask
  | setStartTime
  | setEndTime
  | readProgress
  | updateTaskStatus (status : MigrationStatus) (progress : Float) (message : String)
  | cancelMigration
  /-- the `select` on `ctx.Done()`, with `ctx.Err()` -/
  | ctxErr
  /-- the deferred `cancel()` -/
  | cancelContext
  | call (c : Call)

abbrev Act.Answer : Act → Type
  | .readProgress => Float
  | .cancelMigration => Option String
  | .ctxErr => Option String
  | .call c => c.Answer
  | _ => Unit

abbrev MigrationM := Prog Act Act.Answer String

def ask (a : Act) : MigrationM a.Answer := Prog.query a

def updateTaskStatus (status : MigrationStatus) (progress : Float) (message : String) :
    MigrationM Unit :=
  ask (.updateTaskStatus status progress message)

def orFail {α : Type} (tried : String) : Except String α → MigrationM α
  | .ok a => pure a
  | .error text => .fail (tried ++ text)

def nilOrFail (tried : String) : Option String → MigrationM Unit
  | none => pure ()
  | some text => .fail (tried ++ text)

def copyMessages (timelineKey : String) (total : Nat) : Nat → List Storage.Message → MigrationM Unit
  | _, [] => pure ()
  | i, msg :: rest => do
    match ← ask .ctxErr with
    | some text => .fail text
    | none =>
      let err ← ask (.call (.addMessage timelineKey msg.senderID msg.data []))
      nilOrFail ("failed to add message " ++ decimal i ++ ": ") err
      updateTaskStatus .running (0.5+0.2*Float.ofNat (i+1)/Float.ofNat total)
        ("Migrated " ++ decimal (i+1) ++ "/" ++ decimal total ++ " messages")
      copyMessages timelineKey total (i+1) rest

def second : Int := 1000000000

def performMigration (job : Job) : MigrationM Unit := do
  updateTaskStatus .running 0.1 "Getting source timeline"
  let found ← ask (.call (.getTimeline job.timelineKey))
  let sourceTimeline ← orFail "failed to get source timeline: " found
  updateTaskStatus .running 0.2 "Got source timeline"
  updateTaskStatus .running 0.3 "Creating target timeline"
  let err ← ask (.call (.createTimeline job.timelineKey sourceTimeline.type.text))
  nilOrFail "failed to create target timeline: " err
  updateTaskStatus .running 0.4 "Created target timeline"
  updateTaskStatus .running 0.5 "Migrating messages"
  let now ← ask (.call .now)
  let got ← ask (.call (.getMessages job.timelineKey 0 (now/second) 10000))
  let messages ← orFail "failed to get messages: " got
  copyMessages job.timelineKey messages.length 0 messages
  updateTaskStatus .running 0.7 "Messages migrated"
  updateTaskStatus .running 0.8 "Updating global index"
  let err ← ask (.call (.migrateTimeline job.timelineKey job.sourceStore job.targetStore))
  nilOrFail "failed to update global index: " err
  updateTaskStatus .running 0.9 "Global index updated"
  updateTaskStatus .running 0.95 "Cleaning up source store"
  -- an error is only a warning here
  let _ ← ask (.call (.deleteTimeline job.timelineKey))
  updateTaskStatus .running 1.0 "Migration completed"

def withLock (lockKey : String) (ttl : Int) (fn : MigrationM Unit) : MigrationM Unit := do
  let acquired ← ask (.call (.acquireLock lockKey ttl))
  let lock ← orFail "failed to acquire lock: " acquired
  let result ← (fn.attempt : MigrationM (Except String Unit))
  let _ ← ask (.call (.releaseLock lock))
  match result with
  | .error text => .fail text
  | .ok _ => pure ()

def minute : Int := 60*second

def migrateAndReport (job : Job) : MigrationM Unit := do
  updateTaskStatus .running 0.0 ""
  let _ ← ask .setStartTime
  let result ← ((withLock ("migration:" ++ job.timelineKey) (30*minute)
    (performMigration job)).attempt :
    MigrationM (Except String Unit))
  match result with
  | .error text =>
    let progress ← ask .readProgress
    updateTaskStatus .failed progress text
  | .ok _ => updateTaskStatus .completed 1.0 ""
  ask .setEndTime

def executeMigration (job : Job) : MigrationM Unit := do
  let _ ← ask .addRunningTask
  migrateAndReport job
  let _ ← ask .deleteRunningTask
  ask .cancelContext

def cancelMigration : MigrationM Unit := do
  let _ ← ask .cancelMigration

section Exec
variable {σ : Type}

/-- Others, with whatever state they have. -/
abbrev Services (σ : Type) := (c : Call) → σ → c.Answer × σ

variable (services : Services σ)

def TaskState.set (s : TaskState) (task : MigrationTask) : TaskState := { s with task := task }

/-- One request; all but the calls hold the manager's mutex or are a single write. -/
def exec : (a : Act) → TaskState × σ → a.Answer × TaskState × σ
  | .addRunningTask, (s,o) => ((),{ s with inRunningTasks := true },o)
  | .deleteRunningTask, (s,o) => ((),{ s with inRunningTasks := false },o)
  | .setStartTime, (s,o) =>
    let (now,o) := services .now o
    ((),s.set { s.task with startTime := now },o)
  | .setEndTime, (s,o) =>
    let (now,o) := services .now o
    ((),s.set { s.task with endTime := some now },o)
  | .readProgress, (s,o) => (s.task.progress,s,o)
  | .updateTaskStatus status progress message, (s,o) =>
    let (now,o) := services .now o
    let error := if message = "" then s.task.error else message
    ((),s.set { s.task with
      status := status, progress := progress, error := error, updatedAt := now },o)
  | .cancelMigration, (s,o) =>
    if s.task.status = .running ∨ s.task.status = .pending then
      let (updatedAt,o) := services .now o
      let (endTime,o) := services .now o
      (none,
        { s with
          task := { s.task with
            status := .cancelled, updatedAt := updatedAt, endTime := some endTime }
          contextCancelled := s.contextCancelled || s.inRunningTasks },o)
    else (some ("cannot cancel migration in status: " ++ s.task.status.text),s,o)
  | .ctxErr, (s,o) =>
    if s.contextCancelled then (some "context canceled",s,o)
    else
      let (err,o) := services .parentErr o
      (err,s,o)
  | .cancelContext, (s,o) => ((),{ s with contextCancelled := true },o)
  | .call c, (s,o) =>
    let (answer,o) := services c o
    (answer,s,o)

/-- The goroutine of the task and the callers of `CancelMigration`. -/
def newPool {κ : Type} (job : Job) (createdAt : Int) (o : σ) :
    Pool (Option κ) Act Act.Answer String Unit (TaskState × σ) where
  state := (newTask createdAt,o)
  threads
    | none => executeMigration job
    | some _ => cancelMigration
  log := []

end Exec

end Imy.Migration
