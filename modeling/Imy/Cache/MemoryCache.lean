import Mathlib.Algebra.BigOperators.Group.List.Basic
import Mathlib.Data.List.Dedup
import Mathlib.Logic.Function.Basic
import Imy.Lib.Lru
set_option autoImplicit false

/-!
`MemoryCache` of `pkg/storage/cache_implementations.go`. The elements of the list are
their addresses, and the memory gives what an element holds.
-/

namespace Imy.Cache
open Imy.Lib Lru

abbrev Time := Int

/-- An `interface{}` as `estimateSize` tells them apart. -/
inductive Value (α : Type) where
  | string (s : List UInt8)
  | bytes (b : List UInt8)
  | other (v : α)
  | nil
  deriving DecidableEq, Repr

structure MemoryCacheItem (α : Type) where
  key : String
  value : Value α
  expireTime : Time
  size : Int
  deriving DecidableEq, Repr

structure CacheStats where
  hits : Int
  misses : Int
  evictions : Int
  totalSize : Int
  entryCount : Int
  deriving DecidableEq, Repr

/-- `elems` holds what each element of the list points to, and the elements from
`allocated` on are not in use yet. -/
structure MemoryCache (α : Type) where
  cache : String → Option Nat
  lruList : List Nat
  elems : Nat → MemoryCacheItem α
  allocated : Nat
  maxSize : Int
  curSize : Int
  stats : CacheStats

def newMemoryCache (α : Type) (maxSize : Int) : MemoryCache α where
  cache := fun _ => none
  lruList := []
  elems := fun _ => ⟨"",.nil,0,0⟩
  allocated := 0
  maxSize := maxSize
  curSize := 0
  stats := ⟨0,0,0,0,0⟩

def estimateSize {α : Type} : Value α → Int
  | .string s => s.length
  | .bytes b => b.length
  | _ => 64

theorem estimateSize_nonneg {α : Type} (value : Value α) : 0 ≤ estimateSize value := by
  cases value <;> simp [estimateSize]

def expireTime (ttl : Int) (now : Time) : Time := if ttl > 0 then now+ttl else 0

def expired (expireTime now : Time) : Prop := expireTime ≠ 0 ∧ expireTime < now
  deriving Decidable

/-- `MoveToFront` of `container/list` leaves a list alone that the element is not in. -/
def moveToFront (elem : Nat) (xs : List Nat) : List Nat :=
  if elem ∈ xs then elem :: xs.erase elem else xs

namespace MemoryCache
variable {α : Type} (m : MemoryCache α)

def removeElement (elem : Nat) : MemoryCache α :=
  { m with
    cache := Function.update m.cache (m.elems elem).key none
    lruList := m.lruList.erase elem
    curSize := m.curSize-(m.elems elem).size
    stats := { m.stats with entryCount := m.stats.entryCount-1 } }

def evictLRU : MemoryCache α :=
  match m.lruList.getLast? with
  | some elem =>
    let m := m.removeElement elem
    { m with stats := { m.stats with evictions := m.stats.evictions+1 } }
  | none => m

/-- The loop of `Set`, with at most so many rounds; each of them removes an element. -/
def makeRoom (size : Int) : Nat → MemoryCache α → MemoryCache α
  | 0, m => m
  | n+1, m =>
    if m.curSize+size > m.maxSize ∧ m.lruList.length > 0 then makeRoom size n m.evictLRU else m

def pushFront (item : MemoryCacheItem α) : MemoryCache α :=
  { m with
    cache := Function.update m.cache item.key (some m.allocated)
    lruList := m.allocated :: m.lruList
    elems := Function.update m.elems m.allocated item
    allocated := m.allocated+1
    curSize := m.curSize+item.size
    stats := { m.stats with
      entryCount := m.stats.entryCount+1
      totalSize := m.curSize+item.size } }

def overwrite (elem : Nat) (item : MemoryCacheItem α) : MemoryCache α :=
  { m with
    lruList := moveToFront elem m.lruList
    elems := Function.update m.elems elem item
    curSize := m.curSize-(m.elems elem).size+item.size }

def newItem (key : String) (value : Value α) (ttl : Int) (now : Time) : MemoryCacheItem α where
  key := key
  value := value
  expireTime := expireTime ttl now
  size := estimateSize value

def set (key : String) (value : Value α) (ttl : Int) (now : Time) : MemoryCache α :=
  let item := newItem key value ttl now
  match m.cache key with
  | some elem => m.overwrite elem item
  | none => (makeRoom item.size m.lruList.length m).pushFront item

def miss : MemoryCache α := { m with stats := { m.stats with misses := m.stats.misses+1 } }

def hit (elem : Nat) : MemoryCache α :=
  { m with
    lruList := moveToFront elem m.lruList
    stats := { m.stats with hits := m.stats.hits+1 } }

def get (key : String) (now : Time) : Option (Value α) × MemoryCache α :=
  match m.cache key with
  | none => (none,m.miss)
  | some elem =>
    if expired (m.elems elem).expireTime now then (none,(m.removeElement elem).miss)
    else (some (m.elems elem).value,m.hit elem)

def delete (key : String) : MemoryCache α :=
  match m.cache key with
  | some elem => m.removeElement elem
  | none => m

def clear : MemoryCache α :=
  { m with
    cache := fun _ => none
    lruList := []
    curSize := 0
    stats := { m.stats with entryCount := 0, totalSize := 0 } }

end MemoryCache

inductive MemoryCall (α : Type) where
  | set (key : String) (value : Value α) (ttl : Int) (now : Time)
  | get (key : String) (now : Time)
  | delete (key : String)
  | clear

namespace MemoryCache
variable {α : Type}

def next (m : MemoryCache α) : MemoryCall α → MemoryCache α
  | .set key value ttl now => m.set key value ttl now
  | .get key now => (m.get key now).2
  | .delete key => m.delete key
  | .clear => m.clear

def run (m : MemoryCache α) (calls : List (MemoryCall α)) : MemoryCache α := calls.foldl next m

@[simp] theorem run_nil (m : MemoryCache α) : m.run [] = m := rfl

@[simp] theorem run_append (m : MemoryCache α) (calls calls' : List (MemoryCall α)) :
    m.run (calls ++ calls') = (m.run calls).run calls' := List.foldl_append

@[simp] theorem run_cons (m : MemoryCache α) (c : MemoryCall α) (calls : List (MemoryCall α)) :
    m.run (c :: calls) = (m.next c).run calls := rfl

end MemoryCache

end Imy.Cache
