import Imy.Index.IndexEntries
import Imy.Rpc.Connect
import Imy.Storage.Growth
import Imy.Txn.Coordinator
set_option autoImplicit false

/-!
`DefaultTransactionHandler` of `pkg/storage/distributed_storage.go`. Prepare looks
into the index, Commit changes the local store or the index, Abort does nothing.
-/

namespace Imy.Txn
open Imy.Lib

/-- What the handlers act on. `asked` counts the calls of `GetClient`. -/
structure World where
  host : Storage.Host
  index : Index.GlobalIndex
  asked : Nat

/-- The pool of clients as each call of `GetClient` finds it, and what is outside of it. -/
structure Clients where
  pool : Nat → Rpc.Connecting.StoreRPCClientPool
  world : Rpc.Connecting.World

/-- A pool as it is made, whose servers are all healthy. -/
def newClients : Clients :=
  ⟨fun _ => Rpc.Connecting.newStoreRPCClientPool 30,Rpc.Connecting.alwaysOk⟩

/-- What is around them: the operating system, the clock of the index and the clients. -/
structure Outside where
  env : Storage.Env
  clock : Nat → Int
  clients : Clients

def ParamValue.uint32? : ParamValue → Option UInt32
  | .uint32 n => some n
  | _ => none

def ParamValue.bytes? : ParamValue → Option (List UInt8)
  | .bytes b => some b
  | _ => none

def ParamValue.strings? : ParamValue → Option (List String)
  | .strings l => some l
  | _ => none

def TransactionParticipant.uint32? (o : TransactionParticipant) (name : String) : Option UInt32 :=
  (o.params name).bind ParamValue.uint32?

def TransactionParticipant.bytes? (o : TransactionParticipant) (name : String) :
    Option (List UInt8) :=
  (o.params name).bind ParamValue.bytes?

def TransactionParticipant.strings? (o : TransactionParticipant) (name : String) :
    Option (List String) :=
  (o.params name).bind ParamValue.strings?

def prepareExisting (o : TransactionParticipant) (index : Index.GlobalIndex) : Reply :=
  match o.string? "timeline_key" with
  | none => .lost .panicked
  | some key =>
    match Index.getTimelineLocation key index with
    | .ok _ _ => .ok
    | .error _ _ => .error ("timeline not found: " ++ key)

def defaultPrepare (o : TransactionParticipant) (index : Index.GlobalIndex) : Reply :=
  match o.operation with
  | .createTimeline =>
    match o.string? "timeline_key" with
    | none => .lost .panicked
    | some key =>
      match Index.getTimelineLocation key index with
      | .ok _ _ => .error ("timeline already exists: " ++ key)
      | .error _ _ => .ok
  | .deleteTimeline | .addMessage | .migrateTimeline => prepareExisting o index
  | .updateIndex => .ok
  | .unknown => .error ("unsupported operation: " ++ o.operation.text)

section Commit
variable {α : Type}

def onStore (x : Storage.StoreM α) (w : World) : Reply × World :=
  match x w.host with
  | .ok _ host => (.ok,{ w with host := host })
  | .error e host => (.error e.text,{ w with host := host })

def onIndex (x : Index.IndexM α) (w : World) : Reply × World :=
  match x w.index with
  | .ok _ index => (.ok,{ w with index := index })
  | .error (.error text) index => (.error text,{ w with index := index })
  | .error .nilMap index => (.lost .panicked,{ w with index := index })

end Commit

def onRemote (out : Outside) (storeID text : String) (w : World) : Reply × World :=
  let w' := { w with asked := w.asked+1 }
  match Rpc.Connecting.getClient out.clients.world storeID "" (out.clients.pool w.asked) with
  | .ok _ _ => (.error text,w')
  | .error (.failed context e) _ =>
    (.error (": ".intercalate (context ++ [out.clients.world.errorText e])),w')
  | .error .waits _ => (.lost .waits,w')
  | .error .panicked _ => (.lost .panicked,w')

def commitCreate (out : Outside) (storeID : String) (o : TransactionParticipant) (w : World) :
    Reply × World :=
  match o.string? "timeline_key",o.string? "timeline_type" with
  | some timelineKey,some timelineType =>
    if o.storeID = storeID then
      if timelineType = "conversation" then
        onStore (Storage.getOrCreateConvTimeline out.env timelineKey) w
      else onStore (Storage.getOrCreateUserTimeline out.env timelineKey) w
    else onRemote out o.storeID "remote timeline creation not implemented" w
  | _,_ => (.lost .panicked,w)

def commitAddMessage (out : Outside) (storeID : String) (o : TransactionParticipant) (w : World) :
    Reply × World :=
  match o.string? "timeline_key",o.uint32? "sender_id",o.bytes? "data",o.strings? "user_ids" with
  | some timelineKey,some senderID,some data,some userIDs =>
    if o.storeID = storeID then
      onStore (Storage.Store.addMessage out.env timelineKey senderID data userIDs) w
    else onRemote out o.storeID "remote message addition not implemented" w
  | _,_,_,_ => (.lost .panicked,w)

def addFirstBlock (clock : Nat → Int) (indexKey targetStore : String) : Index.IndexM Unit := do
  let createdAt ← Index.readTime clock
  let updatedAt ← Index.readTime clock
  Index.addIndex clock
    { timelineKey := indexKey
      storeID := targetStore
      blockID := indexKey ++ "_block_1"
      offset := 0
      size := 0
      createdAt := createdAt
      updatedAt := updatedAt }

def commitUpdateIndex (out : Outside) (o : TransactionParticipant) (w : World) : Reply × World :=
  match o.string? "index_key",o.string? "operation" with
  | some indexKey,some operation =>
    if operation = "add" then
      match o.string? "target_store" with
      | some targetStore => onIndex (addFirstBlock out.clock indexKey targetStore) w
      | none => (.lost .panicked,w)
    else if operation = "remove" then onIndex (Index.removeIndex out.clock indexKey "") w
    else if operation = "migrate" then (.error "index migration not implemented",w)
    else (.error ("unsupported index operation: " ++ operation),w)
  | _,_ => (.lost .panicked,w)

def defaultCommit (out : Outside) (storeID : String) (o : TransactionParticipant) (w : World) :
    Reply × World :=
  match o.operation with
  | .createTimeline => commitCreate out storeID o w
  | .deleteTimeline => (.error "timeline deletion not implemented",w)
  | .addMessage => commitAddMessage out storeID o w
  | .migrateTimeline => (.error "timeline migration not implemented",w)
  | .updateIndex => commitUpdateIndex out o w
  | .unknown => (.error ("unsupported operation: " ++ o.operation.text),w)

def defaultHandler (out : Outside) (storeID : String) : Handler World where
  prepare := fun _ o w => (defaultPrepare o w.index,w)
  commit := fun _ o w => defaultCommit out storeID o w
  abort := fun _ _ w => (.ok,w)

end Imy.Txn
