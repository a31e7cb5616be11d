import Imy.Cache.LruOrder
import Imy.Cache.MultiLevel
set_option autoImplicit false

/-!
`MultiLevelCacheManager` of `pkg/storage/cache_manager.go` over caches with times to live.
A call is one step at one time.
-/

namespace Imy.Cache
open Imy.Lib

/-- The calls of the `Cache` interface that the manager makes. -/
structure CacheInterface (α σ : Type) where
  get : σ → String → Time → Option (Value α) × σ
  set : σ → String → Value α → Int → Time → σ
  delete : σ → String → σ

def memoryCache (α : Type) : CacheInterface α (MemoryCache α) where
  get := MemoryCache.get
  set := MemoryCache.set
  delete := MemoryCache.delete

structure CachePolicy where
  ttl : Int
  writePolicy : WritePolicy
  deriving DecidableEq, Repr

structure SetCall (α : Type) where
  key : String
  value : Value α
  ttl : Int
  time : Nat
  deriving DecidableEq, Repr

structure TimedAnswer (α : Type) where
  key : String
  value : Value α
  time : Nat
  origin : Option (SetCall α)
  deriving DecidableEq, Repr

namespace Timed

/-- The manager; `pending` are the writes that `ScheduleWrite` has yet to execute. `origin`,
`sets` and `answers` are not in the source: the `Set` whose value was last written to a
level under a key, all `Set`s that stored something, and what was returned. -/
structure MultiLevelCacheManager (α : Type) (σ : CacheLevel → Type) where
  caches : (level : CacheLevel) → σ level
  hasL2 : Bool
  hasL3 : Bool
  policies : CacheLevel → CachePolicy
  pending : List (SetCall α)
  origin : CacheLevel → String → Option (SetCall α)
  sets : List (SetCall α)
  answers : List (TimedAnswer α)

def defaultPolicies : CacheLevel → CachePolicy
  | .l1 => ⟨5*60*1000000000,.writeThrough⟩
  | .l2 => ⟨30*60*1000000000,.writeBack⟩
  | .l3 => ⟨2*60*60*1000000000,.writeAround⟩

def newMultiLevelCacheManager {α : Type} {σ : CacheLevel → Type}
    (caches : (level : CacheLevel) → σ level)
    (hasL2 hasL3 : Bool) : MultiLevelCacheManager α σ where
  caches := caches
  hasL2 := hasL2
  hasL3 := hasL3
  policies := defaultPolicies
  pending := []
  origin := fun _ _ => none
  sets := []
  answers := []

inductive Op (α : Type) (σ : CacheLevel → Type) where
  | set (key : String) (value : Value α) (ttl : Int) (now : Nat)
  | get (key : String) (now : Nat)
  | delete (key : String)
  /-- the worker executes the item -/
  | execute (i : Nat) (now : Nat)
  | updatePolicy (level : CacheLevel) (policy : CachePolicy)
  /-- a cache drops entries of its own accord -/
  | evict (level : CacheLevel) (cache : σ level)

namespace MultiLevelCacheManager
variable {α : Type} {σ : CacheLevel → Type} (C : (level : CacheLevel) → CacheInterface α (σ level))
variable (serialize : Value α → Option (List UInt8)) (compress : List UInt8 → Option (List UInt8))
variable (m : MultiLevelCacheManager α σ)

def present : CacheLevel → Bool
  | .l1 => true
  | .l2 => m.hasL2
  | .l3 => m.hasL3

def lookup (level : CacheLevel) (key : String) (now : Nat) :
    Option (Value α) × MultiLevelCacheManager α σ :=
  if m.present level then
    let answer := (C level).get (m.caches level) key now
    (answer.1,{ m with caches := Function.update m.caches level answer.2 })
  else (none,m)

def write (level : CacheLevel) (key : String) (value : Value α) (ttl : Int) (now : Nat)
    (origin : Option (SetCall α)) : MultiLevelCacheManager α σ :=
  if m.present level then
    { m with
      caches := Function.update m.caches level ((C level).set (m.caches level) key value ttl now)
      origin := Function.update m.origin level (Function.update (m.origin level) key origin) }
  else m

def store (level : CacheLevel) (call : SetCall α) (now : Nat) : MultiLevelCacheManager α σ :=
  m.write C level call.key call.value call.ttl now (some call)

def promote (source target : CacheLevel) (key : String) (value : Value α) (now : Nat) :
    MultiLevelCacheManager α σ :=
  m.write C target key value (m.policies target).ttl now (m.origin source key)

def answer (level : CacheLevel) (key : String) (value : Value α) (now : Nat) :
    MultiLevelCacheManager α σ :=
  { m with answers := m.answers ++ [⟨key,value,now,m.origin level key⟩] }

def getL3 (key : String) (now : Nat) : Option (Value α) × MultiLevelCacheManager α σ :=
  match m.lookup C .l3 key now with
  | (some value,m) =>
    (some value,((m.promote C .l3 .l2 key value now).promote C .l3 .l1 key value now).answer
      .l3 key value now)
  | (none,m) => (none,m)

def getL2 (key : String) (now : Nat) : Option (Value α) × MultiLevelCacheManager α σ :=
  match m.lookup C .l2 key now with
  | (some value,m) => (some value,(m.promote C .l2 .l1 key value now).answer .l2 key value now)
  | (none,m) => m.getL3 C key now

/-- `Get` looks in one level after another. -/
def get (key : String) (now : Nat) : Option (Value α) × MultiLevelCacheManager α σ :=
  match m.lookup C .l1 key now with
  | (some value,m) => (some value,m.answer .l1 key value now)
  | (none,m) => m.getL2 C key now

def setProcessed (call : SetCall α) : MultiLevelCacheManager α σ :=
  let m := { m with sets := m.sets ++ [call] }
  match (m.policies .l1).writePolicy with
  | .writeThrough =>
    ((m.store C .l1 call call.time).store C .l2 call call.time).store C .l3 call call.time
  | .writeBack =>
    let m := m.store C .l1 call call.time
    { m with pending := m.pending ++ [call] }
  | .writeAround => (m.store C .l2 call call.time).store C .l3 call call.time

/-- `Set` returns an error where the value cannot be processed. -/
def set (key : String) (value : Value α) (ttl : Int) (now : Nat) : MultiLevelCacheManager α σ :=
  match processValue serialize compress value with
  | some data => m.setProcessed C ⟨key,.bytes data,ttl,now⟩
  | none => m

def erase (level : CacheLevel) (key : String) : MultiLevelCacheManager α σ :=
  if m.present level then
    { m with caches := Function.update m.caches level ((C level).delete (m.caches level) key) }
  else m

def delete (key : String) : MultiLevelCacheManager α σ :=
  ((m.erase C .l1 key).erase C .l2 key).erase C .l3 key

def execute (i : Nat) (now : Nat) : MultiLevelCacheManager α σ :=
  match m.pending[i]? with
  | some call =>
    let m := { m with pending := m.pending.eraseIdx i }
    (m.store C .l2 call now).store C .l3 call now
  | none => m

def next : Op α σ → MultiLevelCacheManager α σ
  | .set key value ttl now => m.set C serialize compress key value ttl now
  | .get key now => (m.get C key now).2
  | .delete key => m.delete C key
  | .execute i now => m.execute C i now
  | .updatePolicy level policy => { m with policies := Function.update m.policies level policy }
  | .evict level cache => { m with caches := Function.update m.caches level cache }

end MultiLevelCacheManager

end Timed

end Imy.Cache
