import Mathlib.Logic.Function.Basic
import Mathlib.Tactic.Simps.Basic
import Imy.Lib.Command
import Imy.Lib.FilePath
import Imy.Lib.Text
set_option autoImplicit false

/-!
The block store of `pkg/storage/timeline.go`. A timeline is cut into blocks of
`TimelineMaxSize` messages; a block is written to its own file when it fills,
and a metadata file per timeline lists the block IDs.

Integers of type int64 are unbounded here; that a sequence number wraps around is left
to `SequenceLoading`. Times are nanoseconds.
-/

namespace Imy.Storage
open Imy.Lib

structure StoreConfig where
  maxCapacity : Int
  timelineMaxSize : Int
  dataDir : String
  deriving DecidableEq, Repr

structure Message where
  seqID : Int
  convID : String
  senderID : UInt32
  createTime : Int
  data : List UInt8
  deriving DecidableEq, Repr

inductive TimelineType where
  | conv | user
  deriving DecidableEq, Repr

def TimelineType.text : TimelineType → String
  | .conv => "conv"
  | .user => "user"

/-- A pointer to a timeline. `Type` and `ID` are fixed when the timeline is
created and a timeline never leaves its map, so they identify it. -/
structure TimelineRef where
  type : TimelineType
  id : String
  deriving DecidableEq, Repr

/-- A pointer to a block. A block belongs to one timeline and is never removed
from its `Blocks`, so its position there identifies it. -/
structure BlockRef where
  timeline : TimelineRef
  pos : Nat
  deriving DecidableEq, Repr

structure TimelineBlock where
  blockID : String
  storeID : String
  offset : Int
  size : Int
  messages : List Message
  isFull : Bool
  nextBlock : Option Nat
  deriving DecidableEq, Repr

/-- `currentBlock` and `nextBlock` are positions in `blocks`. -/
structure Timeline where
  blocks : List TimelineBlock
  currentBlock : Option Nat
  lastSeqID : Int
  deriving DecidableEq, Repr

structure StoreIndex where
  storeID : String
  offset : Int
  size : Int
  createdAt : Int
  deriving DecidableEq, Repr

structure Store where
  config : StoreConfig
  storeID : String
  currentCapacity : Int
  convTimelines : String → Option Timeline
  userTimelines : String → Option Timeline
  userCheckpoints : String → Option Int
  storeIndex : String → List StoreIndex
  timelineBlocks : String → Option BlockRef
  seqGenerator : Int

structure Metadata where
  id : String
  type : TimelineType
  lastSeqID : Int
  blockIDs : List String
  deriving DecidableEq, Repr

/-- What a file holds: whole messages in the order they were encoded, possibly
followed by an incomplete one, or a metadata object, or a torn piece of one. -/
inductive FileData where
  | gob (messages : List Message) (torn : Bool)
  | json (metadata : Metadata)
  | tornJson
  deriving DecidableEq, Repr

/-- The process and its disk. `tick` counts the calls that asked the environment
for something; `births` is not in the source: it records the timeline and the
clock reading of every block created so far. -/
structure Host where
  store : Store
  disk : Path → Option FileData
  tick : Nat
  births : List (TimelineRef × Int)

inductive WriteFault where
  | notOpened
  | cutAfter (n : Nat) (torn : Bool)
  deriving DecidableEq, Repr

/-- What the operating system answers to the n-th question. A directory that
does not exist is one of the reasons for a fault. -/
structure Env where
  clock : Nat → Int
  writeFault : Nat → Option WriteFault
  readFault : Nat → Bool

inductive StoreError where
  | capacityExceeded
  | io
  deriving DecidableEq, Repr

def StoreError.text : StoreError → String
  | .capacityExceeded => "store capacity exceeded"
  | .io => "input/output error"

abbrev StoreM := EStateM StoreError Host

def Store.find (s : Store) (r : TimelineRef) : Option Timeline :=
  match r.type with
  | .conv => s.convTimelines r.id
  | .user => s.userTimelines r.id

def Store.put (s : Store) (r : TimelineRef) (tl : Timeline) : Store :=
  match r.type with
  | .conv => { s with convTimelines := Function.update s.convTimelines r.id (some tl) }
  | .user => { s with userTimelines := Function.update s.userTimelines r.id (some tl) }

def Timeline.fresh : Timeline := ⟨[],none,0⟩

def Host.timeline (h : Host) (r : TimelineRef) : Timeline := (h.store.find r).getD .fresh

@[simps -fullyApplied] def Host.putTimeline (h : Host) (r : TimelineRef) (tl : Timeline) : Host :=
  { h with store := h.store.put r tl }

@[simps -fullyApplied] def Host.advance (h : Host) : Host := { h with tick := h.tick+1 }

def TimelineRef.key (r : TimelineRef) : String := r.type.text ++ "_" ++ r.id

def TimelineRef.blockID (r : TimelineRef) (nano : Int) : String :=
  r.type.text ++ "_" ++ r.id ++ "_" ++ decimal nano

def getTimelineMetaFilePath (c : StoreConfig) (r : TimelineRef) : Path :=
  join c.dataDir.toList (r.type.text ++ "_" ++ r.id ++ ".meta").toList

def getTimelineBlockFilePath (c : StoreConfig) (blockID : String) : Path :=
  join c.dataDir.toList ("block_" ++ blockID ++ ".gob").toList

/-- `NewStore`. The old process is gone, only the disk is left. -/
def newStore (env : Env) (config : StoreConfig) (disk : Path → Option FileData)
    (tick : Nat) (births : List (TimelineRef × Int)) : Except StoreError Host :=
  match env.writeFault tick with
  | some _ => .error .io
  | none => .ok
    { store :=
        { config := config
          storeID := "store_" ++ decimal (env.clock (tick+1))
          currentCapacity := 0
          convTimelines := fun _ => none
          userTimelines := fun _ => none
          userCheckpoints := fun _ => none
          storeIndex := fun _ => []
          timelineBlocks := fun _ => none
          seqGenerator := 0 }
      disk := disk
      tick := tick+2
      births := births }

def now (env : Env) : StoreM Int :=
  fun h => .ok (env.clock h.tick) h.advance

def nextSeqID : StoreM Int :=
  fun h => .ok (h.store.seqGenerator+1)
    { h with store := { h.store with seqGenerator := h.store.seqGenerator+1 } }

/-- `os.ReadFile` and `os.Open`: a missing file is not an error for the callers. -/
def readFile (env : Env) (p : Path) : StoreM (Option FileData) :=
  fun h => if env.readFault h.tick then .error .io h.advance else .ok (h.disk p) h.advance

def loadTimelineBlock (env : Env) (blockID : String) : StoreM (Option TimelineBlock) := do
  let h ← get
  match ← readFile env (getTimelineBlockFilePath h.store.config blockID) with
  | none => pure none
  | some (.gob messages false) =>
    pure (some
      { blockID := blockID
        storeID := h.store.storeID
        offset := 0
        size := messages.length
        messages := messages
        isFull := true
        nextBlock := none })
  | some _ => throw .io

def readMetadata (env : Env) (r : TimelineRef) : StoreM (Option Metadata) := do
  let h ← get
  match ← readFile env (getTimelineMetaFilePath h.store.config r) with
  | none => pure none
  | some (.json metadata) => pure (some metadata)
  | some _ => throw .io

def Timeline.setLastSeqID (tl : Timeline) (n : Int) : Timeline := { tl with lastSeqID := n }

@[simps -fullyApplied] def Store.raiseSeq (s : Store) (n : Int) : Store :=
  { s with seqGenerator := if s.seqGenerator < n then n else s.seqGenerator }

def loadTimelineMetadata (env : Env) (r : TimelineRef) : StoreM Unit := do
  match ← readMetadata env r with
  | none => pure ()
  | some metadata =>
    modify fun h => h.putTimeline r ((h.timeline r).setLastSeqID metadata.lastSeqID)
    modify fun h => { h with store := h.store.raiseSeq metadata.lastSeqID }

def Timeline.addLoaded (tl : Timeline) (b : TimelineBlock) : Timeline :=
  { tl with
    blocks := tl.blocks ++ [b]
    currentBlock := if b.isFull then tl.currentBlock else some tl.blocks.length }

@[simps -fullyApplied] def Store.cacheBlock (s : Store) (blockID : String) (b : BlockRef) : Store :=
  { s with timelineBlocks := Function.update s.timelineBlocks blockID (some b) }

def loadOneBlock (env : Env) (r : TimelineRef) (blockID : String) : StoreM Unit := do
  match ← loadTimelineBlock env blockID with
  | none => pure ()
  | some b =>
    modify fun h => { h with
      store := (h.store.put r ((h.timeline r).addLoaded b)).cacheBlock blockID
        ⟨r,(h.timeline r).blocks.length⟩ }

def loadTimelineBlocks (env : Env) (r : TimelineRef) : StoreM Unit := do
  match ← readMetadata env r with
  | none => pure ()
  | some metadata => forM metadata.blockIDs (loadOneBlock env r)

def loadTimeline (env : Env) (r : TimelineRef) : StoreM Unit := do
  loadTimelineMetadata env r
  loadTimelineBlocks env r

/-- The common body of the two get-or-create functions. The new timeline enters
its map before it is loaded instead of after; `s.mu` is held from the lookup to
the end, so nobody sees the difference. The error of the load is dropped. -/
def getOrCreateTimeline (env : Env) (r : TimelineRef) : StoreM Unit := do
  let h ← get
  match h.store.find r with
  | some _ => pure ()
  | none =>
    set (h.putTimeline r .fresh)
    ignoreError (loadTimeline env r)

def getOrCreateConvTimeline (env : Env) (convID : String) : StoreM TimelineRef := do
  getOrCreateTimeline env ⟨.conv,convID⟩
  pure ⟨.conv,convID⟩

def getOrCreateUserTimeline (env : Env) (userID : String) : StoreM TimelineRef := do
  getOrCreateTimeline env ⟨.user,userID⟩
  pure ⟨.user,userID⟩

def Timeline.current (tl : Timeline) : Option TimelineBlock :=
  tl.currentBlock.bind fun i => tl.blocks[i]?

def Timeline.needsBlock (tl : Timeline) : Bool :=
  match tl.current with
  | none => true
  | some b => b.isFull

def Timeline.linkCurrent (tl : Timeline) : List TimelineBlock :=
  match tl.currentBlock with
  | none => tl.blocks
  | some i => tl.blocks.modify i fun b => { b with nextBlock := some tl.blocks.length }

def Timeline.openBlock (tl : Timeline) (b : TimelineBlock) : Timeline :=
  { tl with
    blocks := tl.linkCurrent ++ [b]
    currentBlock := some tl.blocks.length }

@[simps -fullyApplied] def Store.addIndex (s : Store) (key : String) (i : StoreIndex) : Store :=
  { s with storeIndex := Function.update s.storeIndex key (s.storeIndex key ++ [i]) }

def Host.newBlock (h : Host) (r : TimelineRef) (nano : Int) : TimelineBlock :=
  { blockID := r.blockID nano
    storeID := h.store.storeID
    offset := h.store.currentCapacity
    size := 0
    messages := []
    isFull := false
    nextBlock := none }

def createNewBlock (env : Env) (r : TimelineRef) : StoreM Unit := do
  let nano ← now env
  let h ← get
  if h.store.config.maxCapacity ≤ h.store.currentCapacity then
    throw .capacityExceeded
  else
    let unixNow ← now env
    modify fun h => { h with
      store := (((h.store.put r ((h.timeline r).openBlock (h.newBlock r nano))).addIndex r.key
        { storeID := h.store.storeID
          offset := h.store.currentCapacity
          size := 0
          createdAt := unixNow / 1000000000 }).cacheBlock (r.blockID nano)
            ⟨r,(h.timeline r).blocks.length⟩)
      births := h.births ++ [(r,nano)] }

@[simps -fullyApplied] def Host.withFile (h : Host) (p : Path) (d : FileData) : Host :=
  { h with disk := Function.update h.disk p (some d), tick := h.tick+1 }

def writeFile (env : Env) (p : Path) (whole : FileData) (part : Nat → Bool → FileData) :
    StoreM Unit :=
  fun h =>
    match env.writeFault h.tick with
    | none => .ok () (h.withFile p whole)
    | some .notOpened => .error .io h.advance
    | some (.cutAfter n torn) => .error .io (h.withFile p (part n torn))

def Timeline.block (tl : Timeline) (pos : Nat) : TimelineBlock :=
  tl.blocks[pos]?.getD ⟨"","",0,0,[],false,none⟩

def saveTimelineBlock (env : Env) (b : BlockRef) : StoreM Unit := do
  let h ← get
  let block := (h.timeline b.timeline).block b.pos
  writeFile env (getTimelineBlockFilePath h.store.config block.blockID)
    (.gob block.messages false) (fun n torn => .gob (block.messages.take n) torn)
  modify fun h => { h with
    store := { h.store with currentCapacity := h.store.currentCapacity+block.size } }

def saveTimelineMetadata (env : Env) (r : TimelineRef) : StoreM Unit := do
  let h ← get
  let tl := h.timeline r
  writeFile env (getTimelineMetaFilePath h.store.config r)
    (.json ⟨r.id,r.type,tl.lastSeqID,tl.blocks.map (·.blockID)⟩) (fun _ _ => .tornJson)

def TimelineBlock.push (k : Int) (msg : Message) (b : TimelineBlock) : TimelineBlock :=
  { b with
    messages := b.messages ++ [msg]
    size := b.size+1
    isFull := b.isFull || decide (k ≤ b.size+1) }

def Timeline.push (k : Int) (msg : Message) (tl : Timeline) : Timeline :=
  match tl.currentBlock with
  | none => tl
  | some i => { tl with blocks := tl.blocks.modify i (TimelineBlock.push k msg) }

/-- The block that `Timeline.AddMessage` has to save: the current one, when it
has just reached the size limit. -/
def Timeline.blockToSave (k : Int) (r : TimelineRef) (tl : Timeline) : Option BlockRef :=
  match tl.currentBlock with
  | none => none
  | some i => if k ≤ (tl.block i).size then some ⟨r,i⟩ else none

/-- `Timeline.AddMessage` up to the point where it releases `tl.mu` for the save. -/
def Timeline.append (env : Env) (r : TimelineRef) (msg : Message) : StoreM (Option BlockRef) := do
  let h ← get
  if (h.timeline r).needsBlock then createNewBlock env r else pure ()
  let h ← get
  let k := h.store.config.timelineMaxSize
  set (h.putTimeline r ((h.timeline r).push k msg))
  pure (((h.timeline r).push k msg).blockToSave k r)

/-- The rest of it: the save without `tl.mu`, then the new `LastSeqID` under it. -/
def Timeline.finish (env : Env) (r : TimelineRef) (msg : Message) (blockToSave : Option BlockRef) :
    StoreM Unit := do
  match blockToSave with
  | none => pure ()
  | some b => saveTimelineBlock env b
  modify fun h => h.putTimeline r ((h.timeline r).setLastSeqID msg.seqID)

def Timeline.addMessage (env : Env) (r : TimelineRef) (msg : Message) : StoreM Unit := do
  let blockToSave ← Timeline.append env r msg
  Timeline.finish env r msg blockToSave

/-- One round of the loop in `Store.AddMessage`. -/
def deliver (env : Env) (msg : Message) (r : TimelineRef) : StoreM Unit := do
  getOrCreateTimeline env r
  Timeline.addMessage env r msg

def saveOne (env : Env) (r : TimelineRef) : StoreM Unit := do
  getOrCreateTimeline env r
  saveTimelineMetadata env r

def Store.addMessage (env : Env) (convID : String) (senderID : UInt32) (data : List UInt8)
    (userIDs : List String) : StoreM Unit := do
  let seqID ← nextSeqID
  let createTime ← now env
  let msg : Message := ⟨seqID,convID,senderID,createTime,data⟩
  deliver env msg ⟨.conv,convID⟩
  forM (userIDs.map (TimelineRef.mk .user)) (deliver env msg)
  saveTimelineMetadata env ⟨.conv,convID⟩
  forM (userIDs.map (TimelineRef.mk .user)) (saveOne env)

def getUserCheckpoint (userID : String) : StoreM Int := do
  let h ← get
  pure ((h.store.userCheckpoints userID).getD 0)

def updateUserCheckpoint (userID : String) (seqID : Int) : StoreM Unit :=
  modify fun h => { h with store := { h.store with
    userCheckpoints := Function.update h.store.userCheckpoints userID (some seqID) } }

/-- All messages of a timeline, block by block. -/
def Timeline.messages (tl : Timeline) : List Message := tl.blocks.flatMap (·.messages)

def getMessagesAfterCheckpoint (env : Env) (userID : String) : StoreM (List Message) := do
  let checkpoint ← getUserCheckpoint userID
  let userTL ← getOrCreateUserTimeline env userID
  let h ← get
  pure ((h.timeline userTL).messages.filter fun msg => checkpoint < msg.seqID)

/-- The loop of `GetConvMessages` from the newest message to older ones. -/
def collectBack (limit beforeSeqID : Int) : List Message → Int → List Message → List Message
  | [], _, result => result
  | msg :: older, count, result =>
    if count < limit then
      if beforeSeqID = 0 ∨ msg.seqID < beforeSeqID then
        collectBack limit beforeSeqID older (count+1) (msg :: result)
      else collectBack limit beforeSeqID older count result
    else result

def getConvMessages (env : Env) (convID : String) (limit beforeSeqID : Int) :
    StoreM (List Message) := do
  let convTL ← getOrCreateConvTimeline env convID
  let h ← get
  pure (collectBack limit beforeSeqID (h.timeline convTL).messages.reverse 0 [])

end Imy.Storage
