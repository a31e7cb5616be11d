import Imy.Lib.Command
import Imy.Lib.FairPicks
import Imy.Index.GlobalIndex
import Imy.Router.Routing
set_option autoImplicit false

namespace Imy.Router
open Imy.Lib Imy.Index

inductive LoadBalancingStrategy where
  | roundRobin
  | leastLoad
  | weightedRoundRobin
  | random
  | other (strategy : Int)
  deriving DecidableEq, Repr

structure LoadBalancingRouter where
  stores : String → Option StoreInfo
  loads : String → Option StoreLoad
  strategy : LoadBalancingStrategy
  roundRobinIdx : Int

def newLoadBalancingRouter (strategy : LoadBalancingStrategy) : LoadBalancingRouter :=
  ⟨fun _ => none,fun _ => none,strategy,0⟩

inductive RouteFault where
  | failed (text : String)
  | indexOutOfRange
  deriving DecidableEq, Repr

abbrev RouteM := EStateM RouteFault LoadBalancingRouter

/-- `order` is the order in which this iteration over the map yields its keys. -/
def getHealthyStores (stores : String → Option StoreInfo) (order : List String) : List String :=
  order.filter fun storeID => (stores storeID).any fun store => store.status = storeStatusHealthy

/-- `stores[idx%len(stores)]`. The remainder has the sign of `idx`. -/
def storeAt (stores : List String) (idx : Int) : Option String :=
  if idx.tmod stores.length < 0 then none else stores[(idx.tmod stores.length).toNat]?

def selectAt (stores : List String) (idx : Int) : RouteM String :=
  match storeAt stores idx with
  | none => throw .indexOutOfRange
  | some storeID => pure storeID

def roundRobinSelect (stores : List String) : RouteM String := do
  if stores.length = 0 then pure ""
  else
    let r ← get
    let storeID ← selectAt stores r.roundRobinIdx
    modify fun r => { r with roundRobinIdx := int64 (r.roundRobinIdx+1) }
    pure storeID

/-- The loop of `leastLoadSelect`. A store without a load record ends it. -/
def leastLoadFrom (loads : String → Option StoreLoad) (best : String × Float) : List String → String
  | [] => best.1
  | storeID :: rest =>
    match loads storeID with
    | none => storeID
    | some load =>
      let score := calculateStoreScore load
      leastLoadFrom loads (if score > best.2 then (storeID,score) else best) rest

def leastLoadSelect (stores : List String) : RouteM String := do
  match stores with
  | [] => pure ""
  | first :: _ =>
    let r ← get
    pure (leastLoadFrom r.loads (first,-1) stores)

def randomSelect (nano : Int) (stores : List String) : RouteM String :=
  if stores.length = 0 then pure "" else selectAt stores nano

def LoadBalancingRouter.routeTimeline (nano : Int) (order : List String) (_timelineKey : String) :
    RouteM String := do
  let r ← get
  let healthyStores := getHealthyStores r.stores order
  if healthyStores.length = 0 then throw (.failed "no healthy stores available")
  else
    match r.strategy with
    | .roundRobin => roundRobinSelect healthyStores
    | .leastLoad => leastLoadSelect healthyStores
    | .weightedRoundRobin => roundRobinSelect healthyStores
    | .random => randomSelect nano healthyStores
    | .other _ => roundRobinSelect healthyStores

/-- A call with the maps it finds and the order of its iteration. Between two calls anything
may happen to the maps. -/
structure RouteCall where
  stores : String → Option StoreInfo
  loads : String → Option StoreLoad
  order : List String
  nano : Int
  timelineKey : String

def RouteCall.healthyStores (call : RouteCall) : List String :=
  getHealthyStores call.stores call.order

def RouteCall.route (call : RouteCall) : RouteM String := do
  modify fun r => { r with stores := call.stores, loads := call.loads }
  LoadBalancingRouter.routeTimeline call.nano call.order call.timelineKey

/-- What the calls return in turn, `none` for one that does not return a store. -/
def routeAll : List RouteCall → LoadBalancingRouter → List (Option String)
  | [], _ => []
  | call :: calls, r => answer call.route r :: routeAll calls (final call.route r)

/-- The iteration yields every key of the map once, and the healthy stores are these. -/
structure RouteCall.Yields (call : RouteCall) (healthy : List String) : Prop where
  nodup : call.order.Nodup
  keys : ∀ storeID, storeID ∈ call.order ↔ (call.stores storeID).isSome
  healthy : ∀ storeID, storeID ∈ healthy ↔
    ∃ store, call.stores storeID = some store ∧ store.status = storeStatusHealthy

/-- The calls find different stores at the places their counters point to, as long as they are
fewer than a round apart, and no counter has run over into a negative remainder. -/
structure Spread (healthy : List String) (idx : Int) (calls : List RouteCall) : Prop where
  nonneg : ∀ c < calls.length, 0 ≤ (int64 (idx+c)).tmod healthy.length
  apart : ∀ (a b : Nat) ca cb, a < b → b < a+healthy.length → calls[a]? = some ca →
    calls[b]? = some cb →
    storeAt ca.healthyStores (int64 (idx+a)) ≠ storeAt cb.healthyStores (int64 (idx+b))

section Specs
variable {healthy : List String} {call : RouteCall} {calls : List RouteCall}
    {r : LoadBalancingRouter}
  {idx : Int}

theorem RouteCall.Yields.perm (hy : call.Yields healthy) (hnodup : healthy.Nodup) :
    call.healthyStores.Perm healthy := by
  refine (List.perm_ext_iff_of_nodup (hy.nodup.filter _) hnodup).mpr ?_
  intro storeID
  rw [hy.healthy,List.mem_filter,hy.keys]
  cases hstore : call.stores storeID <;> simp

theorem storeAt_eq_none_iff {stores : List String} (hpos : 0 < stores.length) :
    storeAt stores idx = none ↔ idx.tmod stores.length < 0 := by
  unfold storeAt
  split
  · simpa
  · have hlt := Int.tmod_lt_of_pos idx (show (0 : Int) < stores.length by omega)
    rw [List.getElem?_eq_none_iff]
    omega

theorem mem_of_storeAt {stores : List String} {storeID : String}
    (h : storeAt stores idx = some storeID) :
    storeID ∈ stores := by
  unfold storeAt at h
  split at h
  · cases h
  · exact List.mem_of_getElem? h

/-- One call: the store at the place of the counter, which goes up unless the call panics. -/
theorem RouteCall.route_spec (hrr : r.strategy = .roundRobin)
    (hpos : 0 < call.healthyStores.length) :
    wp call.route
      (fun storeID t => storeAt call.healthyStores r.roundRobinIdx = some storeID ∧
        t.strategy = .roundRobin ∧ t.roundRobinIdx = int64 (r.roundRobinIdx+1))
      (fun _ t => storeAt call.healthyStores r.roundRobinIdx = none ∧
        t.strategy = .roundRobin) r := by
  have hne : (getHealthyStores call.stores call.order).length ≠ 0 := Nat.ne_of_gt hpos
  simp only [RouteCall.route,LoadBalancingRouter.routeTimeline,roundRobinSelect,selectAt,wp_bind,
    wp_modify,wp_get,if_neg hne,hrr]
  cases hat : storeAt call.healthyStores r.roundRobinIdx with
  | none =>
    have hat' : storeAt (getHealthyStores call.stores call.order) r.roundRobinIdx = none := hat
    simp [hat']
  | some storeID =>
    have hat' : storeAt (getHealthyStores call.stores call.order) r.roundRobinIdx =
      some storeID := hat
    simp [hat']

def storesAt : List RouteCall → Int → List (Option String)
  | [], _ => []
  | call :: calls, idx => storeAt call.healthyStores idx :: storesAt calls (int64 (idx+1))

theorem storesAt_getElem? (calls : List RouteCall) (hidx : int64 idx = idx) (c : Nat) :
    (storesAt calls idx)[c]? = calls[c]?.map fun call =>
      storeAt call.healthyStores (int64 (idx+c)) := by
  induction calls generalizing idx c with
  | nil => rfl
  | cons call calls ih =>
    cases c with
    | zero => simp [storesAt,hidx]
    | succ c =>
      have hnext : int64 (int64 (idx+1)+c) = int64 (idx+(c+1 : Nat)) := by
        rw [int64_add]
        congr 1
        omega
      simp only [storesAt,List.getElem?_cons_succ]
      rw [ih (by simp [int64]),hnext]

theorem storesAt_length (calls : List RouteCall) (idx : Int) :
    (storesAt calls idx).length = calls.length := by
  induction calls generalizing idx with
  | nil => rfl
  | cons call calls ih => simp [storesAt,ih]

/-- A run without a panic is at the places of the counter, and one with a panic has a counter
that points nowhere. -/
theorem routeAll_eq (hrr : r.strategy = .roundRobin)
    (hpos : ∀ call ∈ calls, 0 < call.healthyStores.length) :
    (none ∈ routeAll calls r ↔ none ∈ storesAt calls r.roundRobinIdx) ∧
    (none ∉ routeAll calls r → routeAll calls r = storesAt calls r.roundRobinIdx) := by
  induction calls generalizing r with
  | nil => simp [routeAll,storesAt]
  | cons call calls ih =>
    have hspec := RouteCall.route_spec hrr (hpos call List.mem_cons_self)
    cases hx : call.route r with
    | ok storeID t =>
      obtain ⟨hat,hstrategy,hidx⟩ := wp_ok hspec hx
      have hrest := ih hstrategy fun call hmem => hpos call (List.mem_cons_of_mem _ hmem)
      simp only [routeAll,storesAt,answer,final,hx,hat,List.mem_cons,reduceCtorEq,false_or,← hidx]
      exact ⟨hrest.1,fun hn => by rw [hrest.2 hn]⟩
    | error e t =>
      have hat := (wp_error hspec hx).1
      simp [routeAll,storesAt,answer,hx,hat]

theorem routeAll_length (calls : List RouteCall) (r : LoadBalancingRouter) :
    (routeAll calls r).length = calls.length := by
  induction calls generalizing r with
  | nil => rfl
  | cons call calls ih => simp [routeAll,ih]

theorem healthy_of_mem_routeAll (hrr : r.strategy = .roundRobin)
    (hcalls : ∀ call ∈ calls, call.healthyStores.Perm healthy) (hpos : 0 < healthy.length)
    {storeID : String} (hmem : some storeID ∈ routeAll calls r) : storeID ∈ healthy := by
  induction calls generalizing r with
  | nil => simp [routeAll] at hmem
  | cons call calls ih =>
    have hperm := hcalls call List.mem_cons_self
    have hhealthy : 0 < call.healthyStores.length := by rw [hperm.length_eq]; exact hpos
    have hspec := RouteCall.route_spec hrr hhealthy
    have hrest := fun t (hstrategy : t.strategy = .roundRobin) =>
      ih (r := t) hstrategy fun call h => hcalls call (List.mem_cons_of_mem _ h)
    cases hx : call.route r with
    | ok chosen t =>
      obtain ⟨hat,hstrategy,-⟩ := wp_ok hspec hx
      simp only [routeAll,answer,final,hx,List.mem_cons,Option.some.injEq] at hmem
      rcases hmem with rfl | hmem
      · exact hperm.mem_iff.mp (mem_of_storeAt hat)
      · exact hrest t hstrategy hmem
    | error e t =>
      simp only [routeAll,answer,final,hx,List.mem_cons,reduceCtorEq,false_or] at hmem
      exact hrest t (wp_error hspec hx).2 hmem

/-- What a fair run needs of the places, said of the orders. -/
theorem spread_iff (hpos : 0 < healthy.length) (hidx : int64 idx = idx)
    (hcalls : ∀ call ∈ calls, call.healthyStores.length = healthy.length) :
    Spread healthy idx calls ↔ none ∉ storesAt calls idx ∧ ∀ a b, a < b → b < a+healthy.length →
      b < (storesAt calls idx).length → (storesAt calls idx)[a]? ≠ (storesAt calls idx)[b]? := by
  have hget := storesAt_getElem? calls hidx
  have hnone (c : Nat) (call : RouteCall) (hcall : calls[c]? = some call) :
      storeAt call.healthyStores (int64 (idx+c)) = none ↔
          (int64 (idx+c)).tmod healthy.length < 0 := by
    have hlen := hcalls call (List.mem_of_getElem? hcall)
    rw [storeAt_eq_none_iff (by omega),hlen]
  constructor
  · intro hs
    refine ⟨?_,?_⟩
    · intro hmem
      obtain ⟨c,hc⟩ := List.mem_iff_getElem?.mp hmem
      rw [hget] at hc
      obtain ⟨call,hcall,hat⟩ := Option.map_eq_some_iff.mp hc
      have := hs.nonneg c (List.getElem?_eq_some_iff.mp hcall).1
      have := (hnone c call hcall).mp hat
      omega
    · intro a b hab hclose hb
      rw [storesAt_length] at hb
      rw [hget,hget,List.getElem?_eq_getElem (by omega : a < calls.length),
        List.getElem?_eq_getElem hb]
      simp only [Option.map_some,ne_eq,Option.some.injEq]
      exact hs.apart a b _ _ hab hclose (List.getElem?_eq_getElem _) (List.getElem?_eq_getElem hb)
  · rintro ⟨hmem,hapart⟩
    refine ⟨?_,?_⟩
    · intro c hc
      by_contra hneg
      have hcall := List.getElem?_eq_getElem hc
      have hat := (hnone c _ hcall).mpr (by omega)
      exact hmem (List.mem_iff_getElem?.mpr ⟨c,by rw [hget,hcall,Option.map_some,hat]⟩)
    · intro a b ca cb hab hclose hca hcb
      have hb := (List.getElem?_eq_some_iff.mp hcb).1
      have hdiff := hapart a b hab hclose (by rw [storesAt_length]; exact hb)
      rw [hget,hget,hca,hcb] at hdiff
      simpa using hdiff

/-- The same list at every call is enough, as long as the counter has not run over. -/
theorem spread_of_same_list (stores : List String) (hlen : stores.length = healthy.length)
    (hnodup : stores.Nodup) (hsame : ∀ call ∈ calls, call.healthyStores = stores) (h0 : 0 ≤ idx)
    (hroom : idx+calls.length ≤ 2^63) : Spread healthy idx calls := by
  have hfits (c : Nat) (hc : c < calls.length) : int64 (idx+c) = idx+c := by
    unfold int64 UInt64.size
    rw [Int.bmod_def]
    omega
  have hmod (c : Nat) : (idx+c).tmod healthy.length = (idx+c)%healthy.length :=
    Int.tmod_eq_emod_of_nonneg (by omega)
  refine ⟨?_,?_⟩
  · intro c hc
    rw [hfits c hc]
    exact Int.tmod_nonneg _ (by omega)
  · intro a b ca cb hab hclose hca hcb
    have ha : a < calls.length := (List.getElem?_eq_some_iff.mp hca).1
    have hb : b < calls.length := (List.getElem?_eq_some_iff.mp hcb).1
    have hpos : (0 : Int) < healthy.length := by omega
    rw [hsame ca (List.mem_of_getElem? hca),hsame cb (List.mem_of_getElem? hcb),
      hfits a ha,hfits b hb]
    have hra := Int.emod_lt_of_pos (idx+a) hpos
    have hrb := Int.emod_lt_of_pos (idx+b) hpos
    have hna := Int.emod_nonneg (idx+a) (by omega : (healthy.length : Int) ≠ 0)
    have hnb := Int.emod_nonneg (idx+b) (by omega : (healthy.length : Int) ≠ 0)
    simp only [storeAt,hlen,hmod,if_neg (by omega : ¬ (idx+a)%(healthy.length : Int) < 0),
      if_neg (by omega : ¬ (idx+b)%(healthy.length : Int) < 0)]
    intro heq
    rw [List.getElem?_eq_getElem (by omega),List.getElem?_eq_getElem (by omega),Option.some.injEq,
      hnodup.getElem_inj_iff] at heq
    -- two numbers fewer than a round apart with the same remainder
    have hdvd : (healthy.length : Int) ∣ (idx+b)-(idx+a) := Int.dvd_of_emod_eq_zero
      (Int.emod_eq_emod_iff_emod_sub_eq_zero.mp (by omega))
    have := Int.le_of_dvd (by omega) hdvd
    omega

end Specs

/-- Every window of the calls is fair just in case the orders of the iterations keep the places
apart. A run shorter than one round has no window. -/
theorem roundRobin_fair_iff (healthy : List String) (hnodup : healthy.Nodup)
    (hpos : 0 < healthy.length)
    (r : LoadBalancingRouter) (hrr : r.strategy = .roundRobin)
    (hidx : int64 r.roundRobinIdx = r.roundRobinIdx)
    (calls : List RouteCall) (hcalls : ∀ call ∈ calls, call.Yields healthy) :
    Fair healthy (routeAll calls r) ↔
      (healthy.length ≤ calls.length → Spread healthy r.roundRobinIdx calls) := by
  have hlist (call : RouteCall) (hmem : call ∈ calls) : call.healthyStores.Perm healthy :=
    (hcalls call hmem).perm hnodup
  have hlens (call : RouteCall) (hmem : call ∈ calls) :
      call.healthyStores.length = healthy.length :=
    (hlist call hmem).length_eq
  by_cases hlen : healthy.length ≤ calls.length
  · obtain ⟨hnone,hsame⟩ := routeAll_eq hrr fun call hmem => by rw [hlens call hmem]; exact hpos
    rw [fair_iff hnodup hpos (fun _ => healthy_of_mem_routeAll hrr hlist hpos)
      (by rw [routeAll_length]; exact hlen),spread_iff hpos hidx hlens]
    simp only [hlen,forall_const]
    constructor
    · rintro ⟨hn,hapart⟩
      rw [hsame hn] at hapart
      exact ⟨hnone.not.mp hn,hapart⟩
    · rintro ⟨hn,hapart⟩
      have hn' := hnone.not.mpr hn
      rw [hsame hn']
      exact ⟨hn,hapart⟩
  · refine iff_of_true ?_ (fun h => (hlen h).elim)
    intro start k hle storeID _
    rw [routeAll_length] at hle
    -- no full round fits
    obtain rfl : k = 0 := by
      by_contra hk
      have := Nat.le_mul_of_pos_right healthy.length (Nat.pos_of_ne_zero hk)
      omega
    simp

/-- Two healthy stores. -/
def twoStores : String → Option StoreInfo :=
  Function.update (Function.update (fun _ => none) "s1" (some ⟨"s1","",storeStatusHealthy,0⟩)) "s2"
    (some ⟨"s2","",storeStatusHealthy,0⟩)

def callIn (order : List String) : RouteCall := ⟨twoStores,fun _ => none,order,0,"k"⟩

theorem callIn_yields {order : List String} (hperm : order.Perm ["s1","s2"]) :
    (callIn order).Yields ["s1","s2"] := by
  have hkeys (storeID : String) : storeID ∈ ["s1","s2"] ↔
      ∃ store, twoStores storeID = some store ∧ store.status = storeStatusHealthy := by
    by_cases h2 : storeID = "s2"
    · simp [twoStores,h2]
    · by_cases h1 : storeID = "s1" <;> simp [twoStores,h1,h2]
  have hhealthy (storeID : String) (store : StoreInfo) (h : twoStores storeID = some store) :
      store.status = storeStatusHealthy := by
    unfold twoStores at h
    by_cases h2 : storeID = "s2"
    · rw [h2,Function.update_self] at h
      cases h
      rfl
    · by_cases h1 : storeID = "s1"
      · rw [h1,Function.update_of_ne (by decide),Function.update_self] at h
        cases h
        rfl
      · simp [h1,h2] at h
  refine ⟨hperm.nodup_iff.mpr (by decide),?_,hkeys⟩
  intro storeID
  change storeID ∈ order ↔ (twoStores storeID).isSome = true
  rw [hperm.mem_iff,hkeys,Option.isSome_iff_exists]
  exact exists_congr fun store => and_iff_left_of_imp (hhealthy storeID store)

/-- The iteration yields the two stores the other way round the second time. -/
theorem roundRobin_unfair :
    (callIn ["s1","s2"]).Yields ["s1","s2"] ∧ (callIn ["s2","s1"]).Yields ["s1","s2"] ∧
    routeAll [callIn ["s1","s2"],callIn ["s2","s1"]] (newLoadBalancingRouter .roundRobin) =
      [some "s1",some "s1"] ∧
    ¬ Fair ["s1","s2"] (routeAll [callIn ["s1","s2"],callIn ["s2","s1"]]
      (newLoadBalancingRouter .roundRobin)) := by
  have hrun : routeAll [callIn ["s1","s2"],callIn ["s2","s1"]]
    (newLoadBalancingRouter .roundRobin) =
      [some "s1",some "s1"] := by decide +kernel
  refine ⟨callIn_yields (List.Perm.refl _),callIn_yields (List.Perm.swap ..),hrun,fun hfair => ?_⟩
  have := hfair 0 1 (by rw [hrun]; decide) "s1" (by decide)
  rw [hrun] at this
  exact absurd this (by decide)

theorem roundRobin_fair_same_order :
    Fair ["s1","s2"] (routeAll [callIn ["s1","s2"],callIn ["s1","s2"]]
      (newLoadBalancingRouter .roundRobin)) := by
  refine (roundRobin_fair_iff ["s1","s2"] (by decide) (by decide)
    (newLoadBalancingRouter .roundRobin) rfl
    (by decide +kernel) [callIn ["s1","s2"],callIn ["s1","s2"]] ?_).mpr fun _ => ?_
  · rintro call hcall
    simp only [List.mem_cons,List.not_mem_nil,or_false,or_self] at hcall
    exact hcall ▸ callIn_yields (List.Perm.refl _)
  · refine spread_of_same_list ["s1","s2"] rfl (by decide) ?_ (Int.le_refl 0) (by decide)
    rintro call hcall
    simp only [List.mem_cons,List.not_mem_nil,or_false,or_self] at hcall
    exact hcall ▸ by decide +kernel

end Imy.Router
