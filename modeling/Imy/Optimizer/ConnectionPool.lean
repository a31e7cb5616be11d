import Imy.Lib.Pools
import Imy.Lib.Transition
import Mathlib.Logic.Function.Basic
set_option autoImplicit false

/-!
`ConnectionPool` of `pkg/storage/performance_optimizer.go`. A connection is its address,
and the memory gives what it holds.
-/

namespace Imy.Optimizer
open Imy.Lib Pools

structure Connection where
  id : String
  storeID : String
  lastUsed : Int
  inUse : Bool
  deriving DecidableEq, Repr

structure PoolStats where
  totalConnections : Int
  activeConnections : Int
  idleConnections : Int
  connectionsCreated : Int
  connectionsDestroyed : Int
  deriving DecidableEq, Repr

structure ConnectionPool where
  connections : AList fun _ : String => List Nat
  maxSize : Nat
  stats : PoolStats
  conns : Nat → Connection
  allocated : Nat

def newConnectionPool (maxSize : Nat) : ConnectionPool where
  connections := ∅
  maxSize := maxSize
  stats := ⟨0,0,0,0,0⟩
  conns := fun _ => ⟨"","",0,false⟩
  allocated := 0

section Pool
variable (format : Int → String)

def generateConnectionID (now : Int) : String := format now ++ "_" ++ "conn"

namespace ConnectionPool

def reuse (p : ConnectionPool) (storeID : String) (conn : Nat) (rest : List Nat) (now : Int) :
    ConnectionPool :=
  { p with
    connections := p.connections.insert storeID rest
    conns := Function.update p.conns conn { p.conns conn with inUse := true, lastUsed := now }
    stats := { p.stats with
      activeConnections := p.stats.activeConnections+1
      idleConnections := p.stats.idleConnections-1 } }

def create (p : ConnectionPool) (storeID : String) (now : Int) : ConnectionPool :=
  { p with
    conns := Function.update p.conns p.allocated ⟨generateConnectionID format now,storeID,now,true⟩
    allocated := p.allocated+1
    stats := { p.stats with
      totalConnections := p.stats.totalConnections+1
      activeConnections := p.stats.activeConnections+1
      connectionsCreated := p.stats.connectionsCreated+1 } }

def get (p : ConnectionPool) (storeID : String) (now : Int) : Nat × ConnectionPool :=
  match (pool p.connections storeID).getLast? with
  | some conn => (conn,p.reuse storeID conn (pool p.connections storeID).dropLast now)
  | none => (p.allocated,p.create format storeID now)

/-- What `Release` sets before it looks at the pool. -/
def idle (p : ConnectionPool) (conn : Nat) (now : Int) : ConnectionPool :=
  { p with
    conns := Function.update p.conns conn { p.conns conn with inUse := false, lastUsed := now } }

def release (p : ConnectionPool) (conn : Nat) (now : Int) : ConnectionPool :=
  let p := p.idle conn now
  let storeID := (p.conns conn).storeID
  let conns := pool p.connections storeID
  if conns.length < p.maxSize then
    { p with
      connections := p.connections.insert storeID (conns ++ [conn])
      stats := { p.stats with
        activeConnections := p.stats.activeConnections-1
        idleConnections := p.stats.idleConnections+1 } }
  else
    { p with
      stats := { p.stats with
        totalConnections := p.stats.totalConnections-1
        activeConnections := p.stats.activeConnections-1
        connectionsDestroyed := p.stats.connectionsDestroyed+1 } }

end ConnectionPool

/-- The pool, and the connections that it handed out and did not get back. -/
structure PoolUse where
  pool : ConnectionPool
  out : List Nat

def newPoolUse (maxSize : Nat) : PoolUse := ⟨newConnectionPool maxSize,[]⟩

inductive PoolCall where
  | get (storeID : String) (now : Int)
  | release (conn : Nat) (now : Int)
  deriving DecidableEq, Repr

/-- Only a connection that is out is released. -/
def PoolUse.next (s : PoolUse) : PoolCall → Option PoolUse
  | .get storeID now =>
    let answer := s.pool.get format storeID now
    some ⟨answer.2,answer.1 :: s.out⟩
  | .release conn now =>
    if conn ∈ s.out then some ⟨s.pool.release conn now,s.out.erase conn⟩ else none

end Pool

/-- Each connection that was made and not destroyed is out, or once in the pool of its own
store; the counters and the flags tell so. -/
structure Conserved (s : PoolUse) : Prop where
  total : s.pool.stats.totalConnections =
    s.pool.stats.activeConnections+s.pool.stats.idleConnections
  made : s.pool.stats.totalConnections =
    s.pool.stats.connectionsCreated-s.pool.stats.connectionsDestroyed
  idle : s.pool.stats.idleConnections = (pooled s.pool.connections).length
  active : s.pool.stats.activeConnections = s.out.length
  once : (pooled s.pool.connections ++ s.out).Nodup
  idleFlag : ∀ conn ∈ pooled s.pool.connections, (s.pool.conns conn).inUse = false
  outFlag : ∀ conn ∈ s.out, (s.pool.conns conn).inUse = true
  store : ∀ storeID, ∀ conn ∈ pool s.pool.connections storeID, (s.pool.conns conn).storeID = storeID
  size : ∀ storeID, (pool s.pool.connections storeID).length ≤ s.pool.maxSize

section Invariant
variable {format : Int → String} {s t : PoolUse} {conn : Nat} {storeID : String} {now : Int}

structure Kept (s : PoolUse) : Prop extends Conserved s where
  allocated : ∀ conn ∈ pooled s.pool.connections ++ s.out, conn < s.pool.allocated

theorem kept_new (maxSize : Nat) : Kept (newPoolUse maxSize) where
  total := rfl
  made := rfl
  idle := rfl
  active := rfl
  once := List.nodup_nil
  idleFlag conn hmem := by simp [newPoolUse,newConnectionPool] at hmem
  outFlag conn hmem := by simp [newPoolUse] at hmem
  store storeID conn hmem := by simp [newPoolUse,newConnectionPool,pool] at hmem
  size storeID := by simp [newPoolUse,newConnectionPool,pool]
  allocated conn hmem := by simp [newPoolUse,newConnectionPool] at hmem

theorem Kept.reuse (h : Kept s) {rest : List Nat}
    (hpool : pool s.pool.connections storeID = rest ++ [conn]) :
    Kept ⟨s.pool.reuse storeID conn rest now,conn :: s.out⟩ := by
  have hpop := pooled_pop hpool
  have hperm : (pooled s.pool.connections ++ s.out).Perm
      (pooled (s.pool.connections.insert storeID rest) ++ conn :: s.out) :=
    (hpop.append_right _).trans List.perm_middle.symm
  have hnodup := hperm.nodup_iff.mp h.once
  have hout : conn ∉ s.out := (List.nodup_cons.mp (List.nodup_append.mp hnodup).2.1).1
  have hrest : conn ∉ pooled (s.pool.connections.insert storeID rest) := fun hmem =>
    (List.nodup_append.mp hnodup).2.2 conn hmem conn List.mem_cons_self rfl
  have hidle := h.idle
  have hlen := hpop.length_eq
  have htotal := h.total
  have hactive := h.active
  simp only [List.length_cons] at hlen
  refine ⟨⟨?_,?_,?_,?_,?_,?_,?_,?_,?_⟩,?_⟩
  · simp only [ConnectionPool.reuse]
    omega
  · exact h.made
  · simp only [ConnectionPool.reuse]
    omega
  · simp only [ConnectionPool.reuse,List.length_cons]
    omega
  · exact hnodup
  · intro c hc
    have hne : c ≠ conn := fun heq => hrest (heq ▸ hc)
    simp only [ConnectionPool.reuse,Function.update_of_ne hne]
    exact h.idleFlag c (hpop.symm.subset (List.mem_cons_of_mem _ hc))
  · intro c hc
    obtain rfl | hc := List.mem_cons.mp hc
    · simp [ConnectionPool.reuse]
    · have hne : c ≠ conn := fun heq => hout (heq ▸ hc)
      simp only [ConnectionPool.reuse,Function.update_of_ne hne]
      exact h.outFlag c hc
  · intro k c hc
    have hold : c ∈ pool s.pool.connections k := by
      by_cases hk : k = storeID
      · subst hk
        simp only [ConnectionPool.reuse,pool_insert_self] at hc
        rw [hpool]
        exact List.mem_append_left _ hc
      · simpa [ConnectionPool.reuse,pool_insert_of_ne hk] using hc
    have hstore := h.store k c hold
    by_cases hne : c = conn
    · subst hne
      simpa [ConnectionPool.reuse] using hstore
    · simpa [ConnectionPool.reuse,Function.update_of_ne hne] using hstore
  · intro k
    have hsize := h.size k
    by_cases hk : k = storeID
    · subst hk
      rw [hpool] at hsize
      simp only [ConnectionPool.reuse,pool_insert_self,List.length_append,
        List.length_singleton] at hsize ⊢
      omega
    · simpa [ConnectionPool.reuse,pool_insert_of_ne hk] using hsize
  · exact fun c hc => h.allocated c (hperm.symm.subset hc)

theorem Kept.create (h : Kept s) :
    Kept ⟨s.pool.create format storeID now,s.pool.allocated :: s.out⟩ := by
  have hfresh : s.pool.allocated ∉ pooled s.pool.connections ++ s.out := fun hmem =>
    Nat.lt_irrefl _ (h.allocated _ hmem)
  have hne : ∀ c ∈ pooled s.pool.connections ++ s.out, c ≠ s.pool.allocated := by
    rintro c hc rfl
    exact hfresh hc
  have htotal := h.total
  have hmade := h.made
  have hactive := h.active
  refine ⟨⟨?_,?_,?_,?_,?_,?_,?_,?_,?_⟩,?_⟩
  · simp only [ConnectionPool.create]
    omega
  · simp only [ConnectionPool.create]
    omega
  · exact h.idle
  · simp only [ConnectionPool.create,List.length_cons]
    omega
  · exact List.perm_middle.nodup_iff.mpr (List.nodup_cons.mpr ⟨hfresh,h.once⟩)
  · intro c hc
    simp only [ConnectionPool.create,Function.update_of_ne (hne c (List.mem_append_left _ hc))]
    exact h.idleFlag c hc
  · intro c hc
    obtain rfl | hc := List.mem_cons.mp hc
    · simp [ConnectionPool.create]
    · simp only [ConnectionPool.create,Function.update_of_ne (hne c (List.mem_append_right _ hc))]
      exact h.outFlag c hc
  · intro k c hc
    have hpooled := mem_pooled.mpr ⟨k,hc⟩
    simp only [ConnectionPool.create,Function.update_of_ne (hne c (List.mem_append_left _ hpooled))]
    exact h.store k c hc
  · exact h.size
  · intro c hc
    obtain rfl | hc := List.mem_cons.mp (List.perm_middle.subset hc)
    · exact Nat.lt_succ_self _
    · exact Nat.lt_succ_of_lt (h.allocated c hc)

theorem Kept.get (h : Kept s) :
    Kept ⟨(s.pool.get format storeID now).2,(s.pool.get format storeID now).1 :: s.out⟩ := by
  rw [ConnectionPool.get]
  cases hlast : (pool s.pool.connections storeID).getLast? with
  | some conn =>
    obtain ⟨rest,hpool⟩ := List.getLast?_eq_some_iff.mp hlast
    have hdrop : (pool s.pool.connections storeID).dropLast = rest := by simp [hpool]
    simp only [hdrop]
    exact h.reuse hpool
  | none => exact h.create

/-- What `Release` finds of the connection. -/
theorem idle_storeID (p : ConnectionPool) (conn c : Nat) (now : Int) :
    ((p.idle conn now).conns c).storeID = (p.conns c).storeID := by
  by_cases hc : c = conn
  · simp [ConnectionPool.idle,hc]
  · simp [ConnectionPool.idle,Function.update_of_ne hc]

theorem idle_inUse (p : ConnectionPool) (conn : Nat) (now : Int) :
    ((p.idle conn now).conns conn).inUse = false := by simp [ConnectionPool.idle]

theorem idle_inUse_of_ne {p : ConnectionPool} {c : Nat} (hc : c ≠ conn) :
    ((p.idle conn now).conns c).inUse = (p.conns c).inUse := by
  simp [ConnectionPool.idle,Function.update_of_ne hc]

theorem Kept.out_nodup (h : Kept s) : s.out.Nodup := (List.nodup_append.mp h.once).2.1

theorem Kept.not_pooled (h : Kept s) (hout : conn ∈ s.out) : conn ∉ pooled s.pool.connections :=
  fun hmem => (List.nodup_append.mp h.once).2.2 conn hmem conn hout rfl

theorem Kept.idle_outFlag (h : Kept s) {c : Nat} (hc : c ∈ s.out.erase conn) :
    ((s.pool.idle conn now).conns c).inUse = true := by
  rw [idle_inUse_of_ne (h.out_nodup.mem_erase_iff.mp hc).1]
  exact h.outFlag c (List.mem_of_mem_erase hc)

theorem Kept.idle_idleFlag (h : Kept s) (hout : conn ∈ s.out) {c : Nat}
    (hc : c ∈ pooled s.pool.connections) : ((s.pool.idle conn now).conns c).inUse = false := by
  have hne : c ≠ conn := fun heq => h.not_pooled hout (heq ▸ hc)
  rw [idle_inUse_of_ne hne]
  exact h.idleFlag c hc

/-- A connection that comes back goes to the pool of its store, or away if that is full. -/
theorem Kept.release (h : Kept s) (hout : conn ∈ s.out) :
    Kept ⟨s.pool.release conn now,s.out.erase conn⟩ := by
  have hlen := List.length_erase_of_mem hout
  have hpos := List.length_pos_of_mem hout
  have htotal := h.total
  have hmade := h.made
  have hidle := h.idle
  have hactive := h.active
  rw [ConnectionPool.release]
  dsimp only
  split
  · rename_i hroom
    have hpush := pooled_push (m := s.pool.connections)
      (k := ((s.pool.idle conn now).conns conn).storeID) rfl conn
    have hperm : (pooled (s.pool.connections.insert ((s.pool.idle conn now).conns conn).storeID
        (pool s.pool.connections ((s.pool.idle conn now).conns conn).storeID ++ [conn])) ++
        s.out.erase conn).Perm (pooled s.pool.connections ++ s.out) :=
      (hpush.append_right _).trans
        (List.perm_middle.symm.trans ((List.perm_cons_erase hout).symm.append_left _))
    have hpushLen := hpush.length_eq
    simp only [List.length_cons] at hpushLen
    refine ⟨⟨?_,hmade,?_,?_,hperm.nodup_iff.mpr h.once,fun c hc => ?_,
      fun c hc => h.idle_outFlag hc,fun k c hc => ?_,
      fun k => ?_⟩,fun c hc => h.allocated c (hperm.subset hc)⟩
    · simp only [ConnectionPool.idle]
      omega
    · simp only [ConnectionPool.idle] at hpushLen ⊢
      omega
    · simp only [ConnectionPool.idle]
      omega
    · obtain rfl | hc := List.mem_cons.mp (hpush.subset hc)
      · exact idle_inUse s.pool c now
      · exact h.idle_idleFlag hout hc
    · by_cases hk : k = ((s.pool.idle conn now).conns conn).storeID
      · subst hk
        simp only [pool_insert_self] at hc
        obtain hc | hc := List.mem_append.mp hc
        · exact (idle_storeID s.pool conn c now).trans (h.store _ c hc)
        · rw [List.mem_singleton.mp hc]
      · simp only [pool_insert_of_ne hk] at hc
        exact (idle_storeID s.pool conn c now).trans (h.store k c hc)
    · by_cases hk : k = ((s.pool.idle conn now).conns conn).storeID
      · subst hk
        simp only [pool_insert_self,List.length_append,List.length_singleton]
        exact hroom
      · simp only [pool_insert_of_ne hk]
        exact h.size k
  · refine ⟨⟨?_,?_,hidle,?_,?_,fun c hc => h.idle_idleFlag hout hc,fun c hc => h.idle_outFlag hc,
      fun k c hc => ?_,h.size⟩,fun c hc => ?_⟩
    · simp only [ConnectionPool.idle]
      omega
    · simp only [ConnectionPool.idle]
      omega
    · simp only [ConnectionPool.idle]
      omega
    · exact h.once.sublist (List.Sublist.append_left List.erase_sublist _)
    · exact (idle_storeID s.pool conn c now).trans (h.store k c hc)
    · obtain hc | hc := List.mem_append.mp hc
      · exact h.allocated c (List.mem_append_left _ hc)
      · exact h.allocated c (List.mem_append_right _ (List.mem_of_mem_erase hc))

theorem Kept.next (h : Kept s) {c : PoolCall} (hstep : s.next format c = some t) : Kept t := by
  cases c with
  | get storeID now =>
    simp only [PoolUse.next,Option.some.injEq] at hstep
    subst hstep
    exact h.get
  | release conn now =>
    simp only [PoolUse.next,Option.ite_none_right_eq_some,Option.some.injEq] at hstep
    obtain ⟨hout,rfl⟩ := hstep
    exact h.release hout

end Invariant

/-- The pool after any calls in which a connection is released once for each time it was
handed out. -/
theorem connectionPool_conserved (format : Int → String) (maxSize : Nat) {calls : List PoolCall}
    {s : PoolUse} (run : calls.foldlM (PoolUse.next format) (newPoolUse maxSize) = some s) :
    Conserved s := by
  have hkept : Kept s := runs_keep (C := fun _ _ => True) (kept_new maxSize)
    (fun u c v hu _ hstep => hu.next hstep) calls (fun _ _ _ _ _ _ => trivial) run
  exact hkept.toConserved

def twoConnections : List PoolCall := [.get "s" 0,.get "s" 1,.release 0 2,.release 1 3,.get "s" 4]

theorem connectionPool_conserved_two : ∃ s, twoConnections.foldlM (PoolUse.next fun _ => "t")
    (newPoolUse 1) = some s ∧ s.pool.stats = ⟨1,1,0,2,1⟩ ∧ s.out = [0] ∧ Conserved s :=
  ⟨_,rfl,rfl,rfl,@connectionPool_conserved (fun _ => "t") 1 twoConnections _ rfl⟩

end Imy.Optimizer
