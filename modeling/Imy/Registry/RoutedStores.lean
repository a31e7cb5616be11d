import Imy.Lib.Transition
import Imy.Registry.Registry
import Imy.Router.Routing
set_option autoImplicit false

/-!
A registry and a router that share the objects of the stores: what is registered is added
to the router, what is unregistered is removed from it.
-/

namespace Imy.Registry
open Imy.Lib Imy.Router

structure Shared where
  registry : InMemoryRegistry
  /-- the router's map of the stores -/
  routed : StoreMap
  loads : String → Option StoreLoad
  hashRing : HashRing

def Shared.router (s : Shared) : ConsistentHashRouter :=
  ⟨fun id => (s.routed.lookup id).map s.registry.objects,s.loads,s.hashRing⟩

def newShared (objects : Nat → StoreInfo) (virtualNodes : Int) : Shared :=
  ⟨newInMemoryRegistry objects,∅,fun _ => none,newHashRing virtualNodes⟩

section Shared
variable (hash : String → Point) (loadThreshold : Float)

def Shared.addStore (s : Shared) (info : Nat) : Shared :=
  { s with
    routed := s.routed.insert (s.registry.objects info).id info
    hashRing := s.hashRing.addNode hash (s.registry.objects info).id }

def Shared.removeStore (s : Shared) (storeID : String) : Shared :=
  { s with
    routed := s.routed.erase storeID
    loads := Function.update s.loads storeID none
    hashRing := s.hashRing.removeNode storeID }

def Shared.next (s : Shared) (op : RegistryOp) : Option Shared :=
  (op.exec s.registry).map fun r =>
    match op with
    | .register info _ => { s with registry := r }.addStore hash info
    | .unregister storeID =>
      if storeID ∈ s.registry.stores then { s with registry := r }.removeStore storeID
      else { s with registry := r }
    | _ => { s with registry := r }

/-- If some store is active, each key is routed to one that is. -/
def RoutesToActive (s : Shared) : Prop :=
  ∀ order : List String, order.Perm s.registry.stores.keys →
    listActiveStores order s.registry ≠ [] →
    ∀ routed : List String, routed.Perm s.routed.keys → ∀ timelineKey,
      ∃ p ∈ listActiveStores order s.registry,
        routeTimeline hash loadThreshold routed s.router timelineKey = .ok (s.registry.objects p).id

section Specs
variable {hash : String → Point} {loadThreshold : Float} {s s' : Shared}

theorem addStore_router (info : Nat) :
    (s.addStore hash info).router = s.router.addStore hash (s.registry.objects info) := by
  simp only [Shared.router,Shared.addStore,ConsistentHashRouter.addStore,
    ConsistentHashRouter.mk.injEq,and_true]
  funext id
  by_cases hid : id = (s.registry.objects info).id
  · rw [hid,AList.lookup_insert,Function.update_self]
    rfl
  · rw [AList.lookup_insert_ne hid,Function.update_of_ne hid]

theorem removeStore_router (storeID : String) :
    (s.removeStore storeID).router = s.router.removeStore storeID := by
  simp only [Shared.router,Shared.removeStore,ConsistentHashRouter.removeStore,
    ConsistentHashRouter.mk.injEq,and_true]
  funext id
  by_cases hid : id = storeID
  · rw [hid,AList.lookup_erase,Function.update_self]
    rfl
  · rw [AList.lookup_erase_ne hid,Function.update_of_ne hid]

def NoneHealthy (s : Shared) : Prop :=
  ∀ id p, s.routed.lookup id = some p → (s.registry.objects p).status ≠ storeStatusHealthy

theorem Changed.not_healthy {r r' : InMemoryRegistry} {events : List StoreEvent}
    (h : Changed r r' events) {p : Nat}
    (hp : (r.objects p).status ≠ storeStatusHealthy) :
    (r'.objects p).status ≠ storeStatusHealthy := by
  rcases h.status p with hs | hs | hs
  · rwa [hs]
  · rw [hs]
    decide
  · rw [hs]
    decide

theorem NoneHealthy.next (h : NoneHealthy s) {op : RegistryOp} (hnext : s.next hash op = some s') :
    NoneHealthy s' := by
  obtain ⟨r,hexec,hs'⟩ := Option.map_eq_some_iff.mp hnext
  -- what was routed before is not healthy now
  have hold : ∀ id p, s.routed.lookup id = some p → (r.objects p).status ≠ storeStatusHealthy := by
    intro id p hp
    obtain ⟨_,_,-,-,-,hc⟩ | ⟨_,_,-,-,-,hc⟩ | ⟨_,-,-,hc,-⟩ := exec_cases hexec <;>
      exact hc.not_healthy (h id p hp)
  cases op with
  | register info now =>
    subst hs'
    obtain rfl := Option.some.inj hexec
    intro id p hp
    by_cases hid : id = ((register info now s.registry).objects info).id
    · rw [hid] at hp
      obtain rfl := Option.some.inj ((AList.lookup_insert _).symm.trans hp)
      change ((register info now s.registry).objects info).status ≠ _
      rw [register_active]
      decide
    · exact hold id p ((AList.lookup_insert_ne hid).symm.trans hp)
  | unregister storeID =>
    dsimp only at hs'
    split at hs'
    · subst hs'
      intro id p hp
      by_cases hid : id = storeID
      · subst hid
        cases (AList.lookup_erase id s.routed).symm.trans hp
      · exact hold id p ((AList.lookup_erase_ne hid).symm.trans hp)
    · subst hs'
      exact hold
  | updateHeartbeat storeID now =>
    subst hs'
    exact hold
  | checkUnhealthyStores now order =>
    subst hs'
    exact hold

theorem NoneHealthy.not_routed (h : NoneHealthy s) (routed : List String)
    (timelineKey storeID : String) :
    routeTimeline hash loadThreshold routed s.router timelineKey ≠ .ok storeID := by
  intro hroute
  obtain ⟨store,hstore,hhealthy⟩ := routeTimeline_healthy hroute
  obtain ⟨p,hp,rfl⟩ := Option.map_eq_some_iff.mp hstore
  exact h storeID p hp hhealthy

theorem mem_listStores {r : InMemoryRegistry} {order : List String}
    (horder : order.Perm r.stores.keys) {p : Nat} :
    p ∈ listStores order r ↔ ∃ id, r.stores.lookup id = some p := by
  rw [listStores,List.mem_filterMap]
  constructor
  · rintro ⟨id,-,hp⟩
    exact ⟨id,hp⟩
  · rintro ⟨id,hp⟩
    refine ⟨id,horder.mem_iff.mpr ?_,hp⟩
    exact AList.mem_keys.mp (AList.lookup_isSome.mp (by rw [hp]; rfl))

theorem NoneHealthy.routesToActive_iff (h : NoneHealthy s) : RoutesToActive hash loadThreshold s ↔
    ∀ id p, s.registry.stores.lookup id = some p → (s.registry.objects p).status ≠ "active" := by
  constructor
  · intro hroutes id p hp hactive
    have hlisted : p ∈ listActiveStores s.registry.stores.keys s.registry :=
      List.mem_filter.mpr ⟨(mem_listStores (List.Perm.refl _)).mpr ⟨id,hp⟩,decide_eq_true hactive⟩
    obtain ⟨q,-,hroute⟩ :=
      hroutes _ (List.Perm.refl _) (List.ne_nil_of_mem hlisted) _ (List.Perm.refl _) ""
    exact h.not_routed _ _ _ hroute
  · intro hnone order horder hne
    obtain ⟨p,hp⟩ := List.exists_mem_of_ne_nil _ hne
    obtain ⟨hlisted,hactive⟩ := List.mem_filter.mp hp
    obtain ⟨id,hid⟩ := (mem_listStores horder).mp hlisted
    exact (hnone id p hid (of_decide_eq_true hactive)).elim

end Specs

variable (objects : Nat → StoreInfo) (virtualNodes : Int)

def runShared (ops : List RegistryOp) : Option Shared :=
  ops.foldlM (Shared.next hash) (newShared objects virtualNodes)

variable {hash loadThreshold objects virtualNodes}

theorem noneHealthy_run (ops : List RegistryOp) {s : Shared}
    (hrun : runShared hash objects virtualNodes ops = some s) :
    NoneHealthy s := by
  refine runs_keep (C := fun _ _ => True) (fun id p hp => ?_)
    (fun _ _ _ h _ hnext => h.next hnext) ops
    (fun _ _ _ _ _ _ => trivial) hrun
  cases hp

theorem nothing_registered (ops : List RegistryOp)
    (hnone : ∀ info now, RegistryOp.register info now ∉ ops)
    {s : Shared} (hrun : runShared hash objects virtualNodes ops = some s) :
    s.registry.stores = ∅ := by
  refine runs_keep (I := fun s : Shared => s.registry.stores = ∅) (C := fun _ op =>
    op ∈ ops) rfl ?_ ops ?_ hrun
  · intro s op s' hs hop hnext
    obtain ⟨r,hexec,hs'⟩ := Option.map_eq_some_iff.mp hnext
    have hr : r.stores = ∅ := by
      obtain ⟨info,now,rfl,-⟩ | ⟨storeID,store,rfl,hfound,-⟩ | ⟨_,-,hstores,-⟩ := exec_cases hexec
      · exact (hnone info now hop).elim
      · rw [hs] at hfound
        cases hfound
      · rw [hstores,hs]
    subst hs'
    cases op with
    | register info now => exact (hnone info now hop).elim
    | unregister storeID =>
      dsimp only
      split <;> exact hr
    | updateHeartbeat storeID now => exact hr
    | checkUnhealthyStores now order => exact hr
  · rintro before op after rfl _ _
    simp

/-- In a run of the registry with the router at its side every state routes to active stores,
if and only if no store is ever registered. -/
theorem routes_to_active_iff_nothing_registered (hash : String → Point) (loadThreshold : Float)
    (objects : Nat → StoreInfo) (virtualNodes : Int) (ops : List RegistryOp)
    (hrun : (runShared hash objects virtualNodes ops).isSome) :
    (∀ before after s, ops = before ++ after → runShared hash objects virtualNodes before = some s →
      RoutesToActive hash loadThreshold s) ↔ ∀ info now, RegistryOp.register info now ∉ ops := by
  constructor
  · intro hroutes info now hop
    obtain ⟨before,after,rfl⟩ := List.append_of_mem hop
    obtain ⟨t,ht⟩ := Option.isSome_iff_exists.mp hrun
    have hsplit : before ++ RegistryOp.register info now :: after =
        (before ++ [RegistryOp.register info now]) ++ after := by simp
    rw [runShared,hsplit] at ht
    obtain ⟨s,hs⟩ := runs_initial ht
    have hactive := (noneHealthy_run _ hs).routesToActive_iff.mp (hroutes _ _ s hsplit hs)
    rw [runs_concat,Option.bind_eq_some_iff] at hs
    obtain ⟨u,-,hnext⟩ := hs
    obtain rfl := Option.some.inj hnext
    refine hactive (u.registry.objects info).id info ?_ ?_
    · change (register info now u.registry).stores.lookup _ = _
      rw [register_stores,AList.lookup_insert]
    · exact register_active info now
  · rintro hnone before after s rfl hs
    refine (noneHealthy_run before hs).routesToActive_iff.mpr fun id p hp => ?_
    rw [nothing_registered before (fun info now hop =>
      hnone info now (List.mem_append_left _ hop)) hs] at hp
    cases hp

end Shared

def storeA : StoreInfo := ⟨"store-a","10.0.0.1:8080","inactive",0⟩

theorem routes_to_active_iff_nothing_registered_heartbeat :
    (runShared (fun _ => 0) (fun _ => storeA) 150 [.updateHeartbeat "store-a" 1]).isSome ∧
      ∀ before after s, [RegistryOp.updateHeartbeat "store-a" 1] = before ++ after →
        runShared (fun _ => 0) (fun _ => storeA) 150 before = some s →
          RoutesToActive (fun _ => 0) 0.8 s :=
  ⟨rfl,(routes_to_active_iff_nothing_registered (fun _ => 0) 0.8 (fun _ => storeA) 150 _ rfl).mpr
    (by simp)⟩

/-- One store is registered: it is active, and no key is routed. -/
theorem registered_store_not_routed : ∃ s,
    runShared (fun _ => 0) (fun _ => storeA) 150 [.register 0 1] = some s ∧
      ¬ RoutesToActive (fun _ => 0) 0.8 s := by
  refine ⟨_,rfl,fun hroutes => ?_⟩
  have hrun : runShared (fun _ => 0) (fun _ => storeA) 150 [.register 0 1] = some _ := rfl
  have hactive := (noneHealthy_run _ hrun).routesToActive_iff.mp hroutes
  exact hactive "store-a" 0 rfl rfl

end Imy.Registry
