import Mathlib.Data.List.AList
import Imy.Router.HashRing
set_option autoImplicit false

/-!
The registry of the stores of `pkg/storage/registry.go`. A `*StoreInfo` is a number: the
objects are shared with whoever registered them and with the watchers. Every method holds
the registry's mutex, so calls do not overlap.
-/

namespace Imy.Registry
open Imy.Router

abbrev StoreMap := AList fun _ : String => Nat

inductive EventType where
  | register | unregister | heartbeat | unhealthy
  deriving DecidableEq, Repr

structure StoreEvent where
  type : EventType
  store : Nat
  deriving DecidableEq, Repr

/-- What `make(chan StoreEvent, 100)` has room for. -/
def watchSize : Nat := 100

structure InMemoryRegistry where
  stores : StoreMap
  objects : Nat → StoreInfo
  /-- the events that wait in the channel of each watcher -/
  watchers : List (List StoreEvent)

def newInMemoryRegistry (objects : Nat → StoreInfo) : InMemoryRegistry := ⟨∅,objects,[]⟩

def InMemoryRegistry.setObject (r : InMemoryRegistry) (p : Nat) (info : StoreInfo) :
    InMemoryRegistry :=
  { r with objects := Function.update r.objects p info }

/-- `select` with a send and an empty default: a watcher whose channel is full is passed over. -/
def offer (event : StoreEvent) (waiting : List StoreEvent) : List StoreEvent :=
  if waiting.length < watchSize then waiting ++ [event] else waiting

def notifyWatchers (r : InMemoryRegistry) (event : StoreEvent) : InMemoryRegistry :=
  { r with watchers := r.watchers.map (offer event) }

def notFound (storeID : String) : String := "store " ++ storeID ++ " not found"

def register (info : Nat) (now : Int) (r : InMemoryRegistry) : InMemoryRegistry :=
  let r := r.setObject info { r.objects info with status := "active", lastSeen := now }
  notifyWatchers { r with stores := r.stores.insert (r.objects info).id info } ⟨.register,info⟩

def unregister (storeID : String) (r : InMemoryRegistry) : Except String InMemoryRegistry :=
  match r.stores.lookup storeID with
  | none => .error (notFound storeID)
  | some store =>
    .ok (notifyWatchers { r with stores := r.stores.erase storeID } ⟨.unregister,store⟩)

def getStore (storeID : String) (r : InMemoryRegistry) : Except String StoreInfo :=
  match r.stores.lookup storeID with
  | none => .error (notFound storeID)
  | some store => .ok (r.objects store)

def listStores (order : List String) (r : InMemoryRegistry) : List Nat :=
  order.filterMap r.stores.lookup

def listActiveStores (order : List String) (r : InMemoryRegistry) : List Nat :=
  (listStores order r).filter fun p => (r.objects p).status = "active"

def updateHeartbeat (storeID : String) (now : Int) (r : InMemoryRegistry) :
    Except String InMemoryRegistry :=
  match r.stores.lookup storeID with
  | none => .error (notFound storeID)
  | some store =>
    let status := if (r.objects store).status = "unhealthy" then "active"
      else (r.objects store).status
    .ok (notifyWatchers
      (r.setObject store { r.objects store with lastSeen := now, status := status })
        ⟨.heartbeat,store⟩)

/-- The channel of the new watcher is the last one. -/
def watch (r : InMemoryRegistry) : InMemoryRegistry := { r with watchers := r.watchers ++ [[]] }

def second : Int := 1000000000

def checkOne (now : Int) (r : InMemoryRegistry) (storeID : String) : InMemoryRegistry :=
  match r.stores.lookup storeID with
  | none => r
  | some store =>
    if now-(r.objects store).lastSeen > 60*second ∧ (r.objects store).status = "active" then
      notifyWatchers (r.setObject store { r.objects store with status := "unhealthy" })
        ⟨.unhealthy,store⟩
    else r

def checkUnhealthyStores (now : Int) (order : List String) (r : InMemoryRegistry) :
    InMemoryRegistry :=
  order.foldl (checkOne now) r

inductive RegistryOp where
  | register (info : Nat) (now : Int)
  | unregister (storeID : String)
  | updateHeartbeat (storeID : String) (now : Int)
  | checkUnhealthyStores (now : Int) (order : List String)
  deriving DecidableEq, Repr

/-- What an operation leaves; one that fails changes nothing. An order that is not one of
the map's keys is none in which the map can be gone through. -/
def RegistryOp.exec (r : InMemoryRegistry) : RegistryOp → Option InMemoryRegistry
  | .register info now => some (Registry.register info now r)
  | .unregister storeID => some ((Registry.unregister storeID r).toOption.getD r)
  | .updateHeartbeat storeID now => some ((Registry.updateHeartbeat storeID now r).toOption.getD r)
  | .checkUnhealthyStores now order =>
    if order.Perm r.stores.keys then some (Registry.checkUnhealthyStores now order r) else none

section Specs
variable {r r' r'' : InMemoryRegistry}

/-- Every pointer in the map is under its object's ID. -/
def Keyed (r : InMemoryRegistry) : Prop :=
  ∀ id p, r.stores.lookup id = some p → (r.objects p).id = id

/-- What all operations have in common: an object keeps its ID, its status stays or is one
that the registry gives, and the watchers are offered the events. -/
structure Changed (r r' : InMemoryRegistry) (events : List StoreEvent) : Prop where
  id : ∀ p, (r'.objects p).id = (r.objects p).id
  status : ∀ p, (r'.objects p).status = (r.objects p).status ∨ (r'.objects p).status = "active" ∨
    (r'.objects p).status = "unhealthy"
  watchers : r'.watchers = r.watchers.map fun waiting => events.foldl (fun w e => offer e w) waiting

theorem Changed.nothing (r : InMemoryRegistry) : Changed r r [] where
  id _ := rfl
  status _ := Or.inl rfl
  watchers := by simp

theorem Changed.trans {events events' : List StoreEvent} (h : Changed r r' events)
    (h' : Changed r' r'' events') :
    Changed r r'' (events ++ events') where
  id p := (h'.id p).trans (h.id p)
  status p := by
    rcases h'.status p with hs | hs
    · rw [hs]
      exact h.status p
    · exact Or.inr hs
  watchers := by
    rw [h'.watchers,h.watchers,List.map_map]
    simp [List.foldl_append]

theorem setObject_id {p : Nat} {info : StoreInfo} (h : info.id = (r.objects p).id) (q : Nat) :
    ((r.setObject p info).objects q).id = (r.objects q).id := by
  unfold InMemoryRegistry.setObject
  by_cases hq : q = p
  · subst hq
    simp [h]
  · simp [hq]

theorem Changed.write {p : Nat} {info : StoreInfo} {event : StoreEvent}
    (hid : info.id = (r.objects p).id)
    (hstatus : info.status = (r.objects p).status ∨ info.status = "active" ∨
      info.status = "unhealthy") :
    Changed r (notifyWatchers (r.setObject p info) event) [event] where
  id q := setObject_id hid q
  status q := by
    by_cases hq : q = p
    · subst hq
      simpa [notifyWatchers,InMemoryRegistry.setObject] using hstatus
    · simp [notifyWatchers,InMemoryRegistry.setObject,hq]
  watchers := rfl

theorem register_changed (info : Nat) (now : Int) :
    Changed r (register info now r) [⟨.register,info⟩] := by
  have hwrite : Changed r (notifyWatchers
    (r.setObject info { r.objects info with status := "active", lastSeen := now })
      ⟨.register,info⟩) [⟨.register,info⟩] := .write rfl (Or.inr (Or.inl rfl))
  exact ⟨hwrite.id,hwrite.status,hwrite.watchers⟩

@[simp] theorem register_stores (info : Nat) (now : Int) :
    (register info now r).stores = r.stores.insert (r.objects info).id info := by
  simp [register,notifyWatchers,InMemoryRegistry.setObject]

theorem register_active (info : Nat) (now : Int) :
    ((register info now r).objects info).status = "active" := by
  simp [register,notifyWatchers,InMemoryRegistry.setObject]

theorem unregister_changed {storeID : String} {store : Nat}
    (h : r.stores.lookup storeID = some store) :
    ∃ r', unregister storeID r = .ok r' ∧ r'.stores = r.stores.erase storeID ∧
      Changed r r' [⟨.unregister,store⟩] := by
  unfold unregister
  rw [h]
  refine ⟨_,rfl,rfl,?_,?_,rfl⟩
  · exact fun _ => rfl
  · exact fun _ => Or.inl rfl

theorem updateHeartbeat_changed {storeID : String} (now : Int) {store : Nat}
    (h : r.stores.lookup storeID = some store) :
    ∃ r', updateHeartbeat storeID now r = .ok r' ∧ r'.stores = r.stores ∧
      Changed r r' [⟨.heartbeat,store⟩] := by
  unfold updateHeartbeat
  rw [h]
  refine ⟨_,rfl,rfl,Changed.write rfl ?_⟩
  dsimp only
  split
  · exact Or.inr (Or.inl rfl)
  · exact Or.inl rfl

theorem checkOne_changed (now : Int) (storeID : String) :
    (checkOne now r storeID).stores = r.stores ∧
    ∃ events, Changed r (checkOne now r storeID) events ∧ ∀ e ∈ events, e.type = .unhealthy := by
  unfold checkOne
  cases r.stores.lookup storeID with
  | none => exact ⟨rfl,[],.nothing r,by simp⟩
  | some store =>
    dsimp only
    split
    · exact ⟨rfl,[⟨.unhealthy,store⟩],Changed.write rfl (Or.inr (Or.inr rfl)),by simp⟩
    · exact ⟨rfl,[],.nothing r,by simp⟩

theorem checkUnhealthyStores_changed (now : Int) (order : List String) :
    (checkUnhealthyStores now order r).stores = r.stores ∧
      ∃ events, Changed r (checkUnhealthyStores now order r) events ∧
        ∀ e ∈ events, e.type = .unhealthy := by
  induction order generalizing r with
  | nil => exact ⟨rfl,[],.nothing r,by simp⟩
  | cons storeID order ih =>
    obtain ⟨hstores,events,hfirst,htype⟩ := checkOne_changed (r := r) now storeID
    obtain ⟨hstores',events',hrest,htype'⟩ := ih (r := checkOne now r storeID)
    refine ⟨hstores'.trans hstores,events ++ events',hfirst.trans hrest,fun e he => ?_⟩
    rcases List.mem_append.mp he with he | he
    · exact htype e he
    · exact htype' e he

theorem exec_cases {op : RegistryOp} (h : op.exec r = some r') :
    (∃ info now, op = .register info now ∧ r'.stores = r.stores.insert (r.objects info).id info ∧
      (r'.objects info).status = "active" ∧ Changed r r' [⟨.register,info⟩]) ∨
    (∃ storeID store, op = .unregister storeID ∧ r.stores.lookup storeID = some store ∧
      r'.stores = r.stores.erase storeID ∧ Changed r r' [⟨.unregister,store⟩]) ∨
    (∃ events, (∀ e ∈ events, e.type ≠ .register ∧ e.type ≠ .unregister) ∧ r'.stores = r.stores ∧
      Changed r r' events ∧ (∀ info now, op ≠ .register info now) ∧
      ∀ storeID, op = .unregister storeID → storeID ∉ r.stores) := by
  cases op with
  | register info now =>
    obtain rfl := Option.some.inj h
    exact Or.inl ⟨info,now,rfl,register_stores info now,register_active info now,
      register_changed info now⟩
  | unregister storeID =>
    obtain rfl := Option.some.inj h
    cases hfound : r.stores.lookup storeID with
    | none =>
      have hnone : (unregister storeID r).toOption.getD r = r := by
        rw [unregister,hfound]
        rfl
      rw [hnone]
      refine Or.inr (Or.inr ⟨[],by simp,rfl,.nothing r,by simp,?_⟩)
      rintro _ ⟨⟩
      exact AList.lookup_eq_none.mp hfound
    | some store =>
      obtain ⟨r',hok,hstores,hchanged⟩ := unregister_changed hfound
      rw [hok]
      exact Or.inr (Or.inl ⟨storeID,store,rfl,hfound,hstores,hchanged⟩)
  | updateHeartbeat storeID now =>
    obtain rfl := Option.some.inj h
    refine Or.inr (Or.inr ?_)
    cases hfound : r.stores.lookup storeID with
    | none =>
      have hnone : (updateHeartbeat storeID now r).toOption.getD r = r := by
        rw [updateHeartbeat,hfound]
        rfl
      rw [hnone]
      exact ⟨[],by simp,rfl,.nothing r,by simp,by simp⟩
    | some store =>
      obtain ⟨r',hok,hstores,hchanged⟩ := updateHeartbeat_changed now hfound
      rw [hok]
      exact ⟨_,by simp,hstores,hchanged,by simp,by simp⟩
  | checkUnhealthyStores now order =>
    rw [RegistryOp.exec] at h
    split at h
    · obtain rfl := Option.some.inj h
      obtain ⟨hstores,events,hchanged,htype⟩ := checkUnhealthyStores_changed (r := r) now order
      exact Or.inr (Or.inr ⟨events,fun e he => by simp [htype e he],hstores,
        hchanged,by simp,by simp⟩)
    · cases h

theorem keyed_new (objects : Nat → StoreInfo) : Keyed (newInMemoryRegistry objects) := by
  intro id p h
  cases h

theorem Keyed.exec (hk : Keyed r) {op : RegistryOp} (h : op.exec r = some r') : Keyed r' := by
  intro id p hp
  obtain ⟨info,now,-,hstores,-,hchanged⟩ | ⟨storeID,store,-,-,hstores,hchanged⟩ | ⟨events,-,
      hstores,hchanged,-⟩ :=
    exec_cases h
  · rw [hchanged.id]
    rw [hstores] at hp
    by_cases hid : id = (r.objects info).id
    · rw [hid,AList.lookup_insert] at hp
      rw [hid,Option.some.inj hp]
    · rw [AList.lookup_insert_ne hid] at hp
      exact hk id p hp
  · rw [hchanged.id]
    rw [hstores] at hp
    by_cases hid : id = storeID
    · rw [hid,AList.lookup_erase] at hp
      cases hp
    · rw [AList.lookup_erase_ne hid] at hp
      exact hk id p hp
  · rw [hchanged.id]
    rw [hstores] at hp
    exact hk id p hp

end Specs

end Imy.Registry
