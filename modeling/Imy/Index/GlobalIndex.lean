import Mathlib.Algebra.Ring.Int.Defs
import Mathlib.Data.List.Dedup
import Mathlib.Logic.Function.Basic
import Mathlib.Tactic.Simps.Basic
import Imy.Lib.Command
set_option autoImplicit false

/-!
The in-memory global index of `pkg/storage/global_index.go`. The same entry hangs
in several lists and maps and is changed through one of them, so entries live in
a table and are named by their place in it. Every operation holds the index's
mutex. The watchers only listen and are left out.
-/

namespace Imy.Index
open Imy.Lib

structure GlobalStoreIndex where
  timelineKey : String
  storeID : String
  blockID : String
  offset : Int
  size : Int
  createdAt : Int
  updatedAt : Int
  deriving DecidableEq, Repr

/-- The lists hold pointers to entries. -/
structure TimelineLocation where
  timelineKey : String
  blocks : List Nat
  storeMap : String → List Nat
  totalSize : Int
  blockCount : Int
  lastUpdate : Int

structure StoreLoadInfo where
  storeID : String
  timelineCount : Int
  blockCount : Int
  totalSize : Int
  lastUpdate : Int
  deriving DecidableEq, Repr

/-- `entries` holds what the pointers point to, and `allocated` of them exist.
`tick` counts the readings of the clock. -/
structure GlobalIndex where
  entries : Nat → GlobalStoreIndex
  allocated : Nat
  timelineIndex : String → Option TimelineLocation
  storeIndex : String → Option (List (String × Nat))
  loadInfo : String → Option StoreLoadInfo
  tick : Nat

inductive IndexFault where
  | error (text : String)
  | nilMap
  deriving DecidableEq, Repr

abbrev IndexM := EStateM IndexFault GlobalIndex

/-- What an int64 holds of a result. -/
def int64 (x : Int) : Int := x.bmod UInt64.size

theorem int64_add (x y : Int) : int64 (int64 x+y) = int64 (x+y) := Int.bmod_add_bmod

theorem int64_sub (x y : Int) : int64 (int64 x-y) = int64 (x-y) := Int.bmod_sub_bmod

def newGlobalIndex : GlobalIndex where
  entries := fun _ => ⟨"","","",0,0,0,0⟩
  allocated := 0
  timelineIndex := fun _ => none
  storeIndex := fun _ => none
  loadInfo := fun _ => none
  tick := 0

@[simps -fullyApplied] def GlobalIndex.setLocation (g : GlobalIndex) (timelineKey : String)
    (location : Option TimelineLocation) : GlobalIndex :=
  { g with timelineIndex := Function.update g.timelineIndex timelineKey location }

@[simps -fullyApplied] def GlobalIndex.setStore (g : GlobalIndex) (storeID : String)
    (blocks : List (String × Nat)) : GlobalIndex :=
  { g with storeIndex := Function.update g.storeIndex storeID (some blocks) }

@[simps -fullyApplied] def GlobalIndex.setEntry (g : GlobalIndex) (e : Nat)
    (index : GlobalStoreIndex) : GlobalIndex :=
  { g with entries := Function.update g.entries e index }

@[simps -fullyApplied] def GlobalIndex.advance (g : GlobalIndex) : GlobalIndex :=
  { g with tick := g.tick+1 }

@[simps -fullyApplied] def GlobalIndex.alloc (g : GlobalIndex) (index : GlobalStoreIndex) :
    GlobalIndex :=
  { g with entries := Function.update g.entries g.allocated index, allocated := g.allocated+1 }

def readTime (clock : Nat → Int) : IndexM Int := fun g => .ok (clock g.tick) g.advance

def newEntry (index : GlobalStoreIndex) : IndexM Nat := fun g => .ok g.allocated (g.alloc index)

def assign (key : String) (e : Nat) (blocks : List (String × Nat)) : List (String × Nat) :=
  blocks.filter (fun b => b.1 ≠ key) ++ [(key,e)]

def delete (key : String) (blocks : List (String × Nat)) : List (String × Nat) :=
  blocks.filter fun b => b.1 ≠ key

def splitColon (piece : List Char) : List Char → List String
  | [] => if piece = [] then [] else [String.ofList piece]
  | ':' :: rest => String.ofList piece :: splitColon [] rest
  | char :: rest => splitColon (piece ++ [char]) rest

def splitTimelineKey (key : String) : List String := splitColon [] key.toList

def updateStoreLoad (clock : Nat → Int) (storeID : String) : IndexM Unit := do
  let g ← get
  let lastUpdate ← readTime clock
  let load : StoreLoadInfo :=
    match g.storeIndex storeID with
    | none => ⟨storeID,0,0,0,lastUpdate⟩
    | some blocks =>
      { storeID := storeID
        timelineCount := (blocks.filterMap fun b => (splitTimelineKey b.1).head?).dedup.length
        blockCount := blocks.length
        totalSize := int64 (blocks.map fun b => (g.entries b.2).size).sum
        lastUpdate := lastUpdate }
  modify fun g => { g with loadInfo := Function.update g.loadInfo storeID (some load) }

def getStoreLoad (clock : Nat → Int) (storeID : String) : IndexM StoreLoadInfo := do
  let g ← get
  match g.loadInfo storeID with
  | some load => pure load
  | none =>
    let lastUpdate ← readTime clock
    pure ⟨storeID,0,0,0,lastUpdate⟩

/-- The entry of `storeIndex[storeID]`, made if the inner map is nil. -/
def putStoreIndex (storeID key : String) (e : Nat) : IndexM Unit :=
  modify fun g => g.setStore storeID (assign key e ((g.storeIndex storeID).getD []))

def deleteStoreIndex (storeID key : String) : IndexM Unit :=
  modify fun g =>
    match g.storeIndex storeID with
    | none => g
    | some blocks => g.setStore storeID (delete key blocks)

def TimelineLocation.add (location : TimelineLocation) (e : Nat) (index : GlobalStoreIndex)
    (lastUpdate : Int) : TimelineLocation :=
  { location with
    blocks := location.blocks ++ [e]
    storeMap := Function.update location.storeMap index.storeID
      (location.storeMap index.storeID ++ [e])
    totalSize := int64 (location.totalSize+index.size)
    blockCount := location.blockCount+1
    lastUpdate := lastUpdate }

def findLocation (clock : Nat → Int) (timelineKey : String) : IndexM TimelineLocation := do
  let g ← get
  match g.timelineIndex timelineKey with
  | some location => pure location
  | none =>
    let lastUpdate ← readTime clock
    pure ⟨timelineKey,[],fun _ => [],0,0,lastUpdate⟩

def addIndex (clock : Nat → Int) (index : GlobalStoreIndex) : IndexM Unit := do
  let updatedAt ← readTime clock
  let e ← newEntry { index with updatedAt := updatedAt }
  let location ← findLocation clock index.timelineKey
  let lastUpdate ← readTime clock
  modify fun g => g.setLocation index.timelineKey (some (location.add e index lastUpdate))
  putStoreIndex index.storeID (index.timelineKey ++ ":" ++ index.blockID) e
  updateStoreLoad clock index.storeID

def TimelineLocation.remove (location : TimelineLocation) (g : GlobalIndex) (blockID : String)
    (index : GlobalStoreIndex) (lastUpdate : Int) : TimelineLocation :=
  { location with
    blocks := location.blocks.eraseP fun e => (g.entries e).blockID = blockID
    storeMap := Function.update location.storeMap index.storeID
      ((location.storeMap index.storeID).eraseP fun e => (g.entries e).blockID = blockID)
    totalSize := int64 (location.totalSize-index.size)
    blockCount := location.blockCount-1
    lastUpdate := lastUpdate }

def removeIndex (clock : Nat → Int) (timelineKey blockID : String) : IndexM Unit := do
  let g ← get
  match g.timelineIndex timelineKey with
  | none => throw (.error ("timeline " ++ timelineKey ++ " not found"))
  | some location =>
    match location.blocks.find? fun e => (g.entries e).blockID = blockID with
    | none => throw (.error ("block " ++ blockID ++ " not found in timeline " ++ timelineKey))
    | some e =>
      let index := g.entries e
      let lastUpdate ← readTime clock
      let location := location.remove g blockID index lastUpdate
      modify fun g => g.setLocation timelineKey (some location)
      deleteStoreIndex index.storeID (timelineKey ++ ":" ++ blockID)
      updateStoreLoad clock index.storeID
      if location.blockCount = 0 then modify fun g => g.setLocation timelineKey none else pure ()

def getTimelineLocation (timelineKey : String) : IndexM TimelineLocation := do
  let g ← get
  match g.timelineIndex timelineKey with
  | none => throw (.error ("timeline " ++ timelineKey ++ " not found"))
  | some location => pure location

def listTimelinesByStore (storeID : String) : IndexM (List String) := do
  let g ← get
  match g.storeIndex storeID with
  | none => pure []
  | some blocks => pure (blocks.filterMap fun b => (splitTimelineKey b.1).head?).dedup

def replaceFirst (g : GlobalIndex) (blockID : String) (new : Nat) : List Nat → List Nat
  | [] => []
  | e :: es => if (g.entries e).blockID = blockID then new :: es
    else e :: replaceFirst g blockID new es

def updateIndex (clock : Nat → Int) (index : GlobalStoreIndex) : IndexM Unit := do
  let updatedAt ← readTime clock
  let new ← newEntry { index with updatedAt := updatedAt }
  let g ← get
  match g.timelineIndex index.timelineKey with
  | none => throw (.error ("timeline " ++ index.timelineKey ++ " not found"))
  | some location =>
    match location.blocks.find? fun e => (g.entries e).blockID = index.blockID with
    | none =>
      throw (.error ("block " ++ index.blockID ++ " not found in timeline " ++ index.timelineKey))
    | some e =>
      let lastUpdate ← readTime clock
      modify fun g' => g'.setLocation index.timelineKey (some { location with
        totalSize := int64 (location.totalSize-(g.entries e).size+index.size)
        lastUpdate := lastUpdate
        blocks := replaceFirst g index.blockID new location.blocks
        storeMap := Function.update location.storeMap index.storeID
          (replaceFirst g index.blockID new (location.storeMap index.storeID)) })
      if (g.storeIndex index.storeID).isNone then throw .nilMap
      putStoreIndex index.storeID (index.timelineKey ++ ":" ++ index.blockID) new
      updateStoreLoad clock index.storeID

def migrateOne (clock : Nat → Int) (timelineKey fromStoreID toStoreID : String) (e : Nat) :
    IndexM Unit := do
  let g ← get
  if (g.entries e).storeID = fromStoreID then
    deleteStoreIndex fromStoreID (timelineKey ++ ":" ++ (g.entries e).blockID)
    let updatedAt ← readTime clock
    modify fun g => g.setEntry e { g.entries e with storeID := toStoreID, updatedAt := updatedAt }
    putStoreIndex toStoreID (timelineKey ++ ":" ++ (g.entries e).blockID) e
  else pure ()

def migrateTimeline (clock : Nat → Int) (timelineKey fromStoreID toStoreID : String) :
    IndexM Unit := do
  let g ← get
  match g.timelineIndex timelineKey with
  | none => throw (.error ("timeline " ++ timelineKey ++ " not found"))
  | some location =>
    forM location.blocks (migrateOne clock timelineKey fromStoreID toStoreID)
    let blocks := location.storeMap fromStoreID
    let lastUpdate ← readTime clock
    modify fun g => g.setLocation timelineKey (some { location with
      storeMap := Function.update (Function.update location.storeMap fromStoreID [])
        toStoreID blocks
      lastUpdate := lastUpdate })
    updateStoreLoad clock fromStoreID
    updateStoreLoad clock toStoreID

end Imy.Index
