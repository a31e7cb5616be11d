import Imy.Index.IndexEntries
import Imy.Storage.TimelineAppend
set_option autoImplicit false

/-!
`DistributedStoreAccessor` of `pkg/storage/cross_store_access.go`. A timeline is looked
up in the index; what the local store holds is read there, and every access to another
store gives an error. Timelines and messages that were read are kept in two caches.
-/

namespace Imy.Access
open Imy.Lib Imy.Storage

/-- The local store, the index and the caches. A cached timeline is a pointer. -/
structure Accessor where
  host : Host
  index : Index.GlobalIndex
  timelineCache : String → Option TimelineRef
  messageCache : String → Option (List Message)

/-- What is around them: the operating system, the clock of the index and the router. -/
structure Around where
  env : Env
  clock : Nat → Int
  routeTimeline : String → Except String String

inductive AccessFault where
  | error (text : String)
  | panic
  deriving DecidableEq, Repr

abbrev AccessM := EStateM AccessFault Accessor

/-- An accessor with empty caches. -/
def newAccessor (host : Host) (index : Index.GlobalIndex) : Accessor :=
  ⟨host,index,fun _ => none,fun _ => none⟩

section Parts
variable {α : Type}

def ofStore : StoreError → AccessFault := fun e => .error e.text

def ofIndex : Index.IndexFault → AccessFault
  | .error text => .error text
  | .nilMap => .panic

def AccessFault.under (tried : String) : AccessFault → AccessFault
  | .error text => .error (tried ++ text)
  | .panic => .panic

def Accessor.setHost (host : Host) (g : Accessor) : Accessor := { g with host := host }

def Accessor.setIndex (index : Index.GlobalIndex) (g : Accessor) : Accessor :=
  { g with index := index }

def onStore (x : StoreM α) : AccessM α := onPart Accessor.host Accessor.setHost ofStore x

def onIndex (tried : String) (x : Index.IndexM α) : AccessM α :=
  onPart Accessor.index Accessor.setIndex (fun e => (ofIndex e).under tried) x

def trying (tried : String) (x : AccessM α) : AccessM α :=
  onPart id (fun g _ => g) (AccessFault.under tried) x

end Parts

@[simps -fullyApplied] def Accessor.cacheTimeline (g : Accessor) (key : String)
    (timeline : Option TimelineRef) :
    Accessor :=
  { g with timelineCache := Function.update g.timelineCache key timeline }

@[simps -fullyApplied] def Accessor.cacheMessages (g : Accessor) (key : String)
    (messages : List Message) : Accessor :=
  { g with messageCache := Function.update g.messageCache key (some messages) }

def primaryStoreID (timelineKey : String) : AccessM (Option String) := do
  let location ← onIndex "failed to get timeline location: " (Index.getTimelineLocation timelineKey)
  let g ← get
  pure (location.blocks.head?.map fun e => (g.index.entries e).storeID)

def primaryOrFail (timelineKey : String) : AccessM String := do
  match ← primaryStoreID timelineKey with
  | some storeID => pure storeID
  | none => throw (.error "timeline has no blocks")

def getRemoteTimeline : AccessM TimelineRef :=
  throw (.error "remote timeline access not implemented")

def createRemoteTimeline : AccessM Unit := throw (.error "remote timeline creation not implemented")

def deleteRemoteTimeline : AccessM Unit := throw (.error "remote timeline deletion not implemented")

def addRemoteMessage : AccessM Unit := throw (.error "remote message addition not implemented")

def getRemoteMessages : AccessM (List Message) :=
  throw (.error "remote message retrieval not implemented")

def executeMigration : AccessM Unit := throw (.error "timeline migration not implemented")

/-- `GetOrCreateConvTimeline` never gives a nil, so the user timelines that the source
would try behind it are not reached. -/
def getLocalTimeline (around : Around) (timelineKey : String) : AccessM TimelineRef := do
  let timeline ← onStore (getOrCreateConvTimeline around.env timelineKey)
  modify fun g => g.cacheTimeline timelineKey (some timeline)
  pure timeline

def getTimeline (around : Around) (timelineKey : String) : AccessM TimelineRef := do
  let g ← get
  match g.timelineCache timelineKey with
  | some timeline => pure timeline
  | none =>
    match ← primaryStoreID timelineKey with
    | none => getLocalTimeline around timelineKey
    | some storeID =>
      if storeID = g.host.store.storeID then getLocalTimeline around timelineKey
      else
        let timeline ← getRemoteTimeline
        modify fun g => g.cacheTimeline timelineKey (some timeline)
        pure timeline

def addCreated (clock : Nat → Int) (timelineKey targetStoreID : String) : Index.IndexM Unit := do
  let createdAt ← Index.readTime clock
  let updatedAt ← Index.readTime clock
  Index.addIndex clock
    { timelineKey := timelineKey
      storeID := targetStoreID
      blockID := ""
      offset := 0
      size := 0
      createdAt := createdAt
      updatedAt := updatedAt }

def createLocalTimeline (env : Env) (timelineKey timelineType : String) : StoreM Unit :=
  if timelineType = "conv" then do
    let _ ← getOrCreateConvTimeline env timelineKey
  else if timelineType = "user" then do
    let _ ← getOrCreateUserTimeline env timelineKey
  else pure ()

def createTimeline (around : Around) (timelineKey timelineType : String) : AccessM Unit := do
  match around.routeTimeline timelineKey with
  | .error text => throw (.error ("failed to route timeline: " ++ text))
  | .ok targetStoreID =>
    let g ← get
    if targetStoreID = g.host.store.storeID then
      onStore (createLocalTimeline around.env timelineKey timelineType)
    else createRemoteTimeline
    onIndex "" (addCreated around.clock timelineKey targetStoreID)

/-- The store keeps the timeline. -/
def deleteTimeline (around : Around) (timelineKey : String) : AccessM Unit := do
  let primaryStoreID ← primaryOrFail timelineKey
  let g ← get
  if primaryStoreID = g.host.store.storeID then pure () else deleteRemoteTimeline
  onIndex "failed to remove from global index: "
    (Index.removeIndex around.clock timelineKey primaryStoreID)
  modify fun g => g.cacheTimeline timelineKey none

def addMessage (around : Around) (timelineKey : String) (senderID : UInt32) (data : List UInt8)
    (userIDs : List String) : AccessM Unit := do
  let primaryStoreID ← primaryOrFail timelineKey
  let g ← get
  if primaryStoreID = g.host.store.storeID then
    onStore (Store.addMessage around.env timelineKey senderID data userIDs)
  else addRemoteMessage

/-- What `GetMessages` is asked for. -/
structure Query where
  timelineKey : String
  startTime : Int
  endTime : Int
  limit : Int
  deriving DecidableEq, Repr

def Query.cacheKey (q : Query) : String :=
  q.timelineKey ++ ":" ++ decimal q.startTime ++ ":" ++ decimal q.endTime ++ ":" ++ decimal q.limit

/-- The seconds of the message lie in the range that is asked for. -/
def Query.InRange (q : Query) (msg : Message) : Prop :=
  q.startTime ≤ msg.createTime / 1000000000 ∧ msg.createTime / 1000000000 ≤ q.endTime

instance (q : Query) : DecidablePred q.InRange :=
  fun _ => inferInstanceAs (Decidable (_ ∧ _))

def collectBlock (q : Query) : List Message → List Message → List Message
  | [], messages => messages
  | msg :: rest, messages =>
    if q.InRange msg then
      if q.limit ≤ (messages ++ [msg]).length then messages ++ [msg]
      else collectBlock q rest (messages ++ [msg])
    else collectBlock q rest messages

def collectBlocks (q : Query) : List TimelineBlock → List Message → List Message
  | [], messages => messages
  | block :: rest, messages =>
    if q.limit ≤ (collectBlock q block.messages messages).length then
        collectBlock q block.messages messages
    else collectBlocks q rest (collectBlock q block.messages messages)

/-- An answer without messages is nil and not cached. -/
def getMessages (around : Around) (q : Query) : AccessM (List Message) := do
  let g ← get
  match g.messageCache q.cacheKey with
  | some messages => pure messages
  | none =>
    let primaryStoreID ← primaryOrFail q.timelineKey
    let messages ←
      if primaryStoreID = g.host.store.storeID then do
        let timeline ← getTimeline around q.timelineKey
        let g ← get
        pure (collectBlocks q (g.host.timeline timeline).blocks [])
      else getRemoteMessages
    if messages ≠ [] then modify fun g => g.cacheMessages q.cacheKey messages else pure ()
    pure messages

def migrateTimeline (around : Around) (timelineKey targetStoreID : String) : AccessM Unit := do
  let currentStoreID ← primaryOrFail timelineKey
  if currentStoreID = targetStoreID then pure ()
  else
    trying "failed to execute migration: " executeMigration
    let updatedAt ← onIndex "" (Index.readTime around.clock)
    onIndex "failed to update global index: " (Index.updateIndex around.clock
      ⟨timelineKey,targetStoreID,"",0,0,0,updatedAt⟩)
    modify fun g => g.cacheTimeline timelineKey none

end Imy.Access
