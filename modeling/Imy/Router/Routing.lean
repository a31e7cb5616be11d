import Imy.Router.HashRing
set_option autoImplicit false

namespace Imy.Router

def storeStatusHealthy : String := "healthy"

def calculateStoreScore (load : StoreLoad) : Float :=
  let capacityRatio := Float.ofInt load.usedCapacity/Float.ofInt load.maxCapacity
  let capacityRatio := if capacityRatio > 1.0 then 1.0 else capacityRatio
  let cpuScore := 1.0-load.cpuUsage
  let cpuScore := if cpuScore < 0 then 0 else cpuScore
  let memoryScore := 1.0-load.memoryUsage
  let memoryScore := if memoryScore < 0 then 0 else memoryScore
  let latencyScore :=
    if load.networkLatency > 0 then 1.0/(1.0+Float.ofInt load.networkLatency/1000.0) else 1.0
  (1.0-capacityRatio)*0.3+cpuScore*0.25+memoryScore*0.25+latencyScore*0.2

def isOverloaded (loadThreshold : Float) (load : StoreLoad) : Bool :=
  (load.maxCapacity > 0 &&
      decide (Float.ofInt load.usedCapacity/Float.ofInt load.maxCapacity > loadThreshold)) ||
    decide (load.cpuUsage > loadThreshold) || decide (load.memoryUsage > loadThreshold)

section Router
variable (hash : String → Point) (loadThreshold : Float) (order : List String)
    (r : ConsistentHashRouter)

/-- One round of the loop of `getBestAvailableStore`: the best store so far and its score. -/
def considerStore (best : String × Float) (storeID : String) : String × Float :=
  match r.stores storeID with
  | none => best
  | some store =>
    if store.status ≠ storeStatusHealthy then best
    else
      match r.loads storeID with
      | none => if best.1 = "" then (storeID,best.2) else best
      | some load =>
        let score := calculateStoreScore load
        if score > best.2 then (storeID,score) else best

def getBestAvailableStore : Except String String :=
  if order.length = 0 then .error "no available stores"
  else
    let best := order.foldl (considerStore r) ("",-1)
    if best.1 = "" then .error "no healthy stores available" else .ok best.1

def routeTimeline (timelineKey : String) : Except String String :=
  if order.length = 0 then .error "no available stores"
  else
    let storeID := r.hashRing.getNode hash timelineKey
    if storeID = "" then .error "failed to route timeline"
    else
      match r.stores storeID with
      | none => getBestAvailableStore order r
      | some store =>
        if store.status ≠ storeStatusHealthy then getBestAvailableStore order r
        else
          match r.loads storeID with
          | none => .ok storeID
          | some load => if isOverloaded loadThreshold load then
            getBestAvailableStore order r else .ok storeID

end Router

section Specs
variable {hash : String → Point} {loadThreshold : Float} {order : List String}
    {r : ConsistentHashRouter}

def Healthy (r : ConsistentHashRouter) (storeID : String) : Prop :=
  ∃ store, r.stores storeID = some store ∧ store.status = storeStatusHealthy

theorem considerStore_healthy {best : String × Float} (storeID : String)
    (h : best.1 = "" ∨ Healthy r best.1) :
    (considerStore r best storeID).1 = "" ∨ Healthy r (considerStore r best storeID).1 := by
  unfold considerStore
  cases hstore : r.stores storeID with
  | none => exact h
  | some store =>
    dsimp only
    split
    · exact h
    · rename_i hhealthy
      have hchosen : Healthy r storeID := ⟨store,hstore,not_not.mp hhealthy⟩
      cases r.loads storeID with
      | none =>
        dsimp only
        split
        · exact Or.inr hchosen
        · exact h
      | some load =>
        dsimp only
        split
        · exact Or.inr hchosen
        · exact h

theorem considerStores_healthy (order : List String) {best : String × Float}
    (h : best.1 = "" ∨ Healthy r best.1) :
    (order.foldl (considerStore r) best).1 = "" ∨
      Healthy r (order.foldl (considerStore r) best).1 := by
  induction order generalizing best with
  | nil => exact h
  | cons storeID order ih => exact ih (considerStore_healthy storeID h)

theorem getBestAvailableStore_healthy {storeID : String}
    (h : getBestAvailableStore order r = .ok storeID) :
    Healthy r storeID := by
  have hbest := considerStores_healthy (r := r) order
    (Or.inl rfl : (("",-1) : String × Float).1 = "" ∨ _)
  unfold getBestAvailableStore at h
  split at h
  · cases h
  · dsimp only at h
    split at h
    · cases h
    · rename_i hne
      cases h
      exact hbest.resolve_left hne

theorem routeTimeline_healthy {timelineKey storeID : String}
    (h : routeTimeline hash loadThreshold order r timelineKey = .ok storeID) :
    Healthy r storeID := by
  unfold routeTimeline at h
  split at h
  · cases h
  · dsimp only at h
    split at h
    · cases h
    · split at h
      · exact getBestAvailableStore_healthy h
      · rename_i store hstore
        split at h
        · exact getBestAvailableStore_healthy h
        · rename_i hhealthy
          split at h
          · cases h
            exact ⟨store,hstore,not_not.mp hhealthy⟩
          · split at h
            · exact getBestAvailableStore_healthy h
            · cases h
              exact ⟨store,hstore,not_not.mp hhealthy⟩

end Specs

end Imy.Router
