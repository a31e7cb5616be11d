import Mathlib.Algebra.Group.Nat.Defs
import Mathlib.Data.Fin.Basic
import Mathlib.Data.List.Sort
import Mathlib.Logic.Function.Basic
import Mathlib.Order.Fin.Basic
import Imy.Lib.Clockwise
import Imy.Lib.Text
set_option autoImplicit false

/-!
The ring and the consistent-hash router of `pkg/storage/router.go`. Every method
of the router holds its mutex, so calls do not overlap. The hash is a parameter:
the source takes the first four bytes of SHA-256.
-/

namespace Imy.Router
open Imy.Lib

/-- A `uint32`. -/
abbrev Point := Fin (2^32)

structure HashRing where
  nodes : List Point
  nodeMap : Point → Option String
  virtuals : Int

def newHashRing (virtualNodes : Int) : HashRing := ⟨[],fun _ => none,virtualNodes⟩

def virtualLabel (nodeID : String) (i : Nat) : String := nodeID ++ ":" ++ decimal i

section Ring
variable (hash : String → Point)

def HashRing.addPoint (nodeID : String) (hr : HashRing) (i : Nat) : HashRing :=
  { hr with
    nodes := hr.nodes ++ [hash (virtualLabel nodeID i)]
    nodeMap := Function.update hr.nodeMap (hash (virtualLabel nodeID i)) (some nodeID) }

def HashRing.sorted (hr : HashRing) : HashRing :=
  { hr with nodes := hr.nodes.insertionSort (· ≤ ·) }

def HashRing.addNode (hr : HashRing) (nodeID : String) : HashRing :=
  ((List.range hr.virtuals.toNat).foldl (HashRing.addPoint hash nodeID) hr).sorted

/-- One round of the loop of `RemoveNode`: the new list and the map so far. A
missing key reads as the empty string. -/
def dropPoint (nodeID : String) (acc : List Point × (Point → Option String)) (point : Point) :
    List Point × (Point → Option String) :=
  if (acc.2 point).getD "" ≠ nodeID then (acc.1 ++ [point],acc.2)
  else (acc.1,Function.update acc.2 point none)

def HashRing.removeNode (hr : HashRing) (nodeID : String) : HashRing :=
  let (newNodes,nodeMap) := hr.nodes.foldl (dropPoint nodeID) ([],hr.nodeMap)
  { hr with nodes := newNodes, nodeMap := nodeMap }

def HashRing.getNode (hr : HashRing) (key : String) : String :=
  if hr.nodes.length = 0 then ""
  else
    match hr.nodes[clockwisePlace hr.nodes (hash key)]? with
    | none => ""
    | some point => (hr.nodeMap point).getD ""

end Ring

section Specs
variable {hash : String → Point} {hr : HashRing} {nodeID : String}

theorem foldl_addPoint_nodes (is : List Nat) :
    (is.foldl (HashRing.addPoint hash nodeID) hr).nodes =
      hr.nodes ++ is.map fun i => hash (virtualLabel nodeID i) := by
  induction is generalizing hr with
  | nil => simp
  | cons i is ih => simp [ih,HashRing.addPoint]

theorem foldl_addPoint_nodeMap (is : List Nat) (point : Point) :
    (is.foldl (HashRing.addPoint hash nodeID) hr).nodeMap point =
      if point ∈ is.map fun i => hash (virtualLabel nodeID i) then some nodeID
      else hr.nodeMap point := by
  induction is generalizing hr with
  | nil => simp
  | cons i is ih =>
    rw [List.foldl_cons,ih]
    by_cases hp : point = hash (virtualLabel nodeID i)
    · simp [HashRing.addPoint,hp]
    · simp [HashRing.addPoint,hp]

theorem foldl_addPoint_virtuals (is : List Nat) :
    (is.foldl (HashRing.addPoint hash nodeID) hr).virtuals = hr.virtuals := by
  induction is generalizing hr with
  | nil => rfl
  | cons i is ih => exact ih

/-- The points of a node. -/
def HashRing.points (hash : String → Point) (hr : HashRing) (nodeID : String) : List Point :=
  (List.range hr.virtuals.toNat).map fun i => hash (virtualLabel nodeID i)

theorem HashRing.addNode_perm :
    (hr.addNode hash nodeID).nodes.Perm (hr.nodes ++ hr.points hash nodeID) := by
  simp only [HashRing.addNode,HashRing.sorted,HashRing.points]
  rw [← foldl_addPoint_nodes]
  exact List.perm_insertionSort _ _

theorem HashRing.addNode_sorted : (hr.addNode hash nodeID).nodes.Pairwise (· ≤ ·) :=
  List.pairwise_insertionSort _ _

theorem HashRing.addNode_nodeMap (point : Point) : (hr.addNode hash nodeID).nodeMap point =
    if point ∈ hr.points hash nodeID then some nodeID else hr.nodeMap point :=
  foldl_addPoint_nodeMap _ point

theorem HashRing.addNode_virtuals : (hr.addNode hash nodeID).virtuals = hr.virtuals :=
  foldl_addPoint_virtuals _

section Drop
variable (nodeID : String) (acc : List Point) (f : Point → Option String) (ps : List Point)

theorem dropPoints_sublist : ∃ kept, kept.Sublist ps ∧
    (ps.foldl (dropPoint nodeID) (acc,f)).1 = acc ++ kept := by
  induction ps generalizing acc f with
  | nil => exact ⟨[],List.Sublist.refl _,by simp⟩
  | cons q ps ih =>
    rw [List.foldl_cons,dropPoint]
    split
    · obtain ⟨kept,hk,he⟩ := ih (acc ++ [q]) f
      exact ⟨q :: kept,hk.cons_cons q,by simp [he]⟩
    · obtain ⟨kept,hk,he⟩ := ih acc (Function.update f q none)
      exact ⟨kept,hk.cons q,he⟩

theorem dropPoints_map (point : Point) :
    (ps.foldl (dropPoint nodeID) (acc,f)).2 point =
      if point ∈ ps ∧ (f point).getD "" = nodeID then none else f point := by
  induction ps generalizing acc f with
  | nil => simp
  | cons q ps ih =>
    rw [List.foldl_cons,dropPoint]
    by_cases hpq : point = q
    · subst hpq
      split
      · rename_i hne
        rw [ih]
        simp [hne]
      · rename_i heq
        rw [ih]
        simp [not_not.mp heq]
    · split <;> rw [ih] <;> simp [hpq]

-- Of the copies of a point that goes only the first is dropped: the map has
-- forgotten the point by the time the next copy is looked at. The exception is
-- the node with the empty ID, which a forgotten point reads as.
theorem dropPoints_count (point : Point) :
    (ps.foldl (dropPoint nodeID) (acc,f)).1.count point = acc.count point +
      if (f point).getD "" ≠ nodeID then ps.count point
      else if nodeID = "" then 0 else ps.count point-1 := by
  induction ps generalizing acc f with
  | nil => simp
  | cons q ps ih =>
    rw [List.foldl_cons,dropPoint]
    by_cases hpq : point = q
    · subst hpq
      split
      · rename_i hne
        rw [ih,if_pos hne]
        simp only [List.count_append,List.count_cons_self,List.count_nil]
        omega
      · rename_i heq
        rw [ih]
        simp only [Function.update_self,List.count_cons_self]
        by_cases he : nodeID = ""
        · simp [he]
        · have he' : "" ≠ nodeID := fun h => he h.symm
          simp [he,he']
    · have hqp : q ≠ point := fun h => hpq h.symm
      split <;> rw [ih] <;> simp [hpq,hqp]

end Drop

theorem HashRing.removeNode_sublist : (hr.removeNode nodeID).nodes.Sublist hr.nodes := by
  obtain ⟨kept,hk,he⟩ := dropPoints_sublist nodeID [] hr.nodeMap hr.nodes
  simpa [HashRing.removeNode,he] using hk

theorem HashRing.removeNode_nodeMap (point : Point) : (hr.removeNode nodeID).nodeMap point =
    if point ∈ hr.nodes ∧ (hr.nodeMap point).getD "" = nodeID then none else hr.nodeMap point :=
  dropPoints_map nodeID [] hr.nodeMap hr.nodes point

theorem HashRing.removeNode_count (point : Point) : (hr.removeNode nodeID).nodes.count point =
    if (hr.nodeMap point).getD "" ≠ nodeID then hr.nodes.count point
    else if nodeID = "" then 0 else hr.nodes.count point-1 := by
  have := dropPoints_count nodeID [] hr.nodeMap hr.nodes point
  simpa [HashRing.removeNode] using this

theorem HashRing.getNode_clockwise (hs : hr.nodes.Pairwise (· ≤ ·)) (hne : hr.nodes ≠ [])
    (key : String) : ∃ point, Clockwise {z | z ∈ hr.nodes} (hash key) point ∧
      hr.getNode hash key = (hr.nodeMap point).getD "" := by
  obtain ⟨point,hp,hc⟩ := clockwise_of_sorted hs hne (hash key)
  refine ⟨point,hc,?_⟩
  simp [HashRing.getNode,hp,hne]

end Specs

structure StoreInfo where
  id : String
  address : String
  status : String
  lastSeen : Int

structure StoreLoad where
  storeID : String
  timelineCount : Int
  blockCount : Int
  totalSize : Int
  usedCapacity : Int
  maxCapacity : Int
  cpuUsage : Float
  memoryUsage : Float
  networkLatency : Int
  lastUpdate : Int

structure ConsistentHashRouter where
  stores : String → Option StoreInfo
  loads : String → Option StoreLoad
  hashRing : HashRing

def newConsistentHashRouter (virtualNodes : Int) : ConsistentHashRouter :=
  ⟨fun _ => none,fun _ => none,newHashRing virtualNodes⟩

def ConsistentHashRouter.addStore (hash : String → Point) (r : ConsistentHashRouter)
    (storeInfo : StoreInfo) : ConsistentHashRouter :=
  { r with
    stores := Function.update r.stores storeInfo.id (some storeInfo)
    hashRing := r.hashRing.addNode hash storeInfo.id }

def ConsistentHashRouter.removeStore (r : ConsistentHashRouter) (storeID : String) :
    ConsistentHashRouter :=
  { stores := Function.update r.stores storeID none
    loads := Function.update r.loads storeID none
    hashRing := r.hashRing.removeNode storeID }

end Imy.Router
