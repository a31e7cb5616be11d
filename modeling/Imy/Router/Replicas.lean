import Mathlib.Data.Set.Card
import Imy.Lib.FirstMet
import Imy.Router.RingIntegrity
import Imy.Router.Routing
set_option autoImplicit false

namespace Imy.Router
open Imy.Lib

/-- `len(hr.nodeMap)`. The keys of the map are points of the ring. -/
def HashRing.mapLen (hr : HashRing) : Nat :=
  (hr.nodes.eraseDups.filter fun point => (hr.nodeMap point).isSome).length

/-- `hr.nodeMap[hr.nodes[idx]]`. -/
def HashRing.ownerAt (hr : HashRing) (idx : Nat) : String :=
  match hr.nodes[idx]? with
  | none => ""
  | some point => (hr.nodeMap point).getD ""

/-- The loop of `GetNodes`, which may never end: `none` says that `fuel` rounds
were not enough. -/
def HashRing.nodesLoop (hr : HashRing) (count : Nat) :
    Nat → Nat → List String → Finset String → Option (List String)
  | 0, _, _, _ => none
  | fuel+1, idx, result, seen =>
    if result.length < count ∧ seen.card < hr.mapLen then
      let nodeID := hr.ownerAt idx
      let (result,seen) :=
        if nodeID ∉ seen then (result ++ [nodeID],insert nodeID seen) else (result,seen)
      hr.nodesLoop count fuel ((idx+1)%hr.nodes.length) result seen
    else some result

-- a negative count is none of the callers': `make` would panic on it
def HashRing.getNodes (hash : String → Point) (hr : HashRing) (fuel : Nat) (key : String)
    (count : Nat) : Option (List String) :=
  if hr.mapLen = 0 then some []
  else
    let count := if count > hr.mapLen then hr.mapLen else count
    hr.nodesLoop count fuel (clockwisePlace hr.nodes (hash key)) [] ∅

/-- `replicas` is the field the router is made with, `order` the keys of its map
of stores. -/
def getTimelineReplicas (hash : String → Point) (replicas : Nat) (order : List String)
    (r : ConsistentHashRouter) (fuel : Nat) (timelineKey : String) :
    Option (Except String (List String)) :=
  if order.length = 0 then some (.error "no available stores")
  else
    (r.hashRing.getNodes hash fuel timelineKey replicas).map fun replicas =>
      .ok (replicas.filter fun storeID =>
        (r.stores storeID).any fun store => store.status = storeStatusHealthy)

inductive RingOp where
  | addNode (nodeID : String)
  | removeNode (nodeID : String)

def HashRing.next (hash : String → Point) (hr : HashRing) : RingOp → HashRing
  | .addNode nodeID => hr.addNode hash nodeID
  | .removeNode nodeID => hr.removeNode nodeID

def HashRing.run (hash : String → Point) (ops : List RingOp) (hr : HashRing) : HashRing :=
  ops.foldl (fun hr op => hr.next hash op) hr

/-- The ring that the calls lead to from an empty one. -/
def ringAfter (hash : String → Point) (v : Int) (ops : List RingOp) : HashRing :=
  HashRing.run hash ops (newHashRing v)

def HashRing.nodeIDs (hr : HashRing) : List String := (hr.nodes.filterMap hr.nodeMap).eraseDups

def HashRing.owners (hr : HashRing) : List String :=
  hr.nodes.map fun point => (hr.nodeMap point).getD ""

def HashRing.ownersFrom (hash : String → Point) (hr : HashRing) (key : String) : List String :=
  (hr.owners.rotate (clockwisePlace hr.nodes (hash key))).eraseDups

section Ring
variable {hash : String → Point} {hr : HashRing}

theorem ringAfter_concat (v : Int) (ops : List RingOp) (op : RingOp) :
    ringAfter hash v (ops ++ [op]) = (ringAfter hash v ops).next hash op := by
  simp [ringAfter,HashRing.run]

variable (hash) in
theorem ringAfter_sorted (v : Int) (ops : List RingOp) :
    (ringAfter hash v ops).nodes.Pairwise (· ≤ ·) := by
  induction ops using List.reverseRecOn with
  | nil => exact List.Pairwise.nil
  | append_singleton ops op ih =>
    rw [ringAfter_concat]
    cases op with
    | addNode n => exact HashRing.addNode_sorted
    | removeNode n => exact ih.sublist HashRing.removeNode_sublist

theorem HashRing.mem_nodeIDs {nodeID : String} :
    nodeID ∈ hr.nodeIDs ↔ ∃ point ∈ hr.nodes, hr.nodeMap point = some nodeID := by
  simp [HashRing.nodeIDs,List.mem_eraseDups]

theorem HashRing.nodeIDs_le_mapLen : hr.nodeIDs.length ≤ hr.mapLen := by
  have hsub : hr.nodeIDs ⊆ (hr.nodes.eraseDups.filter fun point =>
      (hr.nodeMap point).isSome).map fun point => (hr.nodeMap point).getD "" := by
    intro nodeID hid
    obtain ⟨point,hp,hmap⟩ := HashRing.mem_nodeIDs.mp hid
    refine List.mem_map.mpr ⟨point,?_,by simp [hmap]⟩
    simp [List.mem_eraseDups,hp,hmap]
  have hle := (List.subperm_of_subset (nodup_eraseDups _) hsub).length_le
  rwa [List.length_map] at hle

theorem HashRing.mem_ownersFrom {key owner : String} :
    owner ∈ hr.ownersFrom hash key ↔ ∃ point ∈ hr.nodes, (hr.nodeMap point).getD "" = owner := by
  simp [HashRing.ownersFrom,HashRing.owners,List.mem_eraseDups]

variable (hash) in
theorem HashRing.nodeIDs_le_ownersFrom (key : String) :
    hr.nodeIDs.length ≤ (hr.ownersFrom hash key).length := by
  refine (List.subperm_of_subset (nodup_eraseDups _) ?_).length_le
  intro nodeID hid
  obtain ⟨point,hp,hmap⟩ := HashRing.mem_nodeIDs.mp hid
  exact HashRing.mem_ownersFrom.mpr ⟨point,hp,by simp [hmap]⟩

/-- The owner read in round `k` of a walk that starts at place `i`. -/
def HashRing.walk (hr : HashRing) (i k : Nat) : String := hr.ownerAt ((i+k)%hr.nodes.length)

theorem HashRing.walk_round (hr : HashRing) (i k : Nat) :
    (if hr.ownerAt ((i+k)%hr.nodes.length) ∉ (metBy (hr.walk i) k).toFinset then
        (metBy (hr.walk i) k ++ [hr.ownerAt ((i+k)%hr.nodes.length)],
          insert (hr.ownerAt ((i+k)%hr.nodes.length)) (metBy (hr.walk i) k).toFinset)
      else (metBy (hr.walk i) k,(metBy (hr.walk i) k).toFinset)) =
      (metBy (hr.walk i) (k+1),(metBy (hr.walk i) (k+1)).toFinset) := by
  rw [metBy_succ]
  by_cases hin : hr.walk i k ∈ metBy (hr.walk i) k
  · simp only [HashRing.walk] at hin
    simp [HashRing.walk,hin]
  · simp only [HashRing.walk] at hin
    simp [HashRing.walk,hin,List.toFinset_append,Finset.union_comm]

theorem HashRing.nodesLoop_eq_some_iff {count : Nat} (hcount : count ≤ hr.mapLen)
    (i fuel k : Nat) (result : List String) :
    hr.nodesLoop count fuel ((i+k)%hr.nodes.length) (metBy (hr.walk i) k)
        (metBy (hr.walk i) k).toFinset = some result ↔
      ∃ d < fuel, (∀ j < d, (metBy (hr.walk i) (k+j)).length < count) ∧
        count ≤ (metBy (hr.walk i) (k+d)).length ∧ result = metBy (hr.walk i) (k+d) := by
  induction fuel generalizing k with
  | zero => simp [HashRing.nodesLoop]
  | succ fuel ih =>
    have hcard : (metBy (hr.walk i) k).toFinset.card = (metBy (hr.walk i) k).length :=
      List.toFinset_card_of_nodup (nodup_eraseDups _)
    unfold HashRing.nodesLoop
    rw [hcard]
    by_cases hlt : (metBy (hr.walk i) k).length < count
    · rw [if_pos ⟨hlt,by omega⟩]
      have hidx : ((i+k)%hr.nodes.length+1)%hr.nodes.length = (i+(k+1))%hr.nodes.length := by
        rw [Nat.mod_add_mod,Nat.add_assoc]
      simp only [hr.walk_round i k,hidx]
      rw [ih (k+1)]
      constructor
      · rintro ⟨d,hd,hbefore,hwant,hresult⟩
        refine ⟨d+1,by omega,?_,?_,?_⟩
        · intro j hj
          cases j with
          | zero => exact hlt
          | succ j => simpa [Nat.add_assoc,Nat.add_comm 1] using hbefore j (by omega)
        · simpa [Nat.add_assoc,Nat.add_comm 1] using hwant
        · simpa [Nat.add_assoc,Nat.add_comm 1] using hresult
      · rintro ⟨d,hd,hbefore,hwant,hresult⟩
        cases d with
        | zero => exact absurd hwant (by simpa using hlt)
        | succ d =>
          refine ⟨d,by omega,?_,?_,?_⟩
          · intro j hj
            simpa [Nat.add_assoc,Nat.add_comm 1] using hbefore (j+1) (by omega)
          · simpa [Nat.add_assoc,Nat.add_comm 1] using hwant
          · simpa [Nat.add_assoc,Nat.add_comm 1] using hresult
    · rw [if_neg fun h => hlt h.1]
      constructor
      · intro h
        exact ⟨0,by omega,by omega,by simpa using hlt,(Option.some.inj h).symm⟩
      · rintro ⟨d,-,hbefore,-,hresult⟩
        cases d with
        | zero => exact congrArg some hresult.symm
        | succ d => exact absurd (hbefore 0 (by omega)) (by simpa using hlt)

theorem HashRing.metBy_walk_round (hne : hr.nodes ≠ []) (key : String) :
    metBy (hr.walk (clockwisePlace hr.nodes (hash key))) hr.nodes.length =
      hr.ownersFrom hash key := by
  have hlen : hr.owners.length = hr.nodes.length := by simp [HashRing.owners]
  rw [← hlen,HashRing.ownersFrom]
  refine metBy_around fun k hk => ?_
  have hplace : (clockwisePlace hr.nodes (hash key)+k)%hr.nodes.length < hr.nodes.length :=
    Nat.mod_lt _ (List.length_pos_iff.mpr hne)
  simp [HashRing.walk,HashRing.ownerAt,HashRing.owners,List.getElem?_eq_getElem hplace]

theorem HashRing.nodes_ne_nil (hlen : hr.mapLen ≠ 0) : hr.nodes ≠ [] := by
  rintro hnil
  simp [HashRing.mapLen,hnil] at hlen

variable (hash) in
/-- The lookup ends if and only if there are as many owners to meet as it waits
for, and then it has met them in order. -/
theorem HashRing.getNodes_returns_iff_owners (hs : hr.nodes.Pairwise (· ≤ ·)) (key : String)
    (count : Nat) (result : List String) :
    (∃ fuel, hr.getNodes hash fuel key count = some result) ↔
      min count hr.mapLen ≤ (hr.ownersFrom hash key).length ∧
        result = (hr.ownersFrom hash key).take (min count hr.mapLen) := by
  unfold HashRing.getNodes
  by_cases hempty : hr.mapLen = 0
  · simp [hempty,eq_comm]
  have hwant : (if count > hr.mapLen then hr.mapLen else count) = min count hr.mapLen := by
    split <;> omega
  simp only [if_neg hempty,hwant]
  have hle : min count hr.mapLen ≤ hr.mapLen := Nat.min_le_right _ _
  generalize min count hr.mapLen = want at *
  have hne := HashRing.nodes_ne_nil hempty
  have hpos : 0 < hr.nodes.length := List.length_pos_iff.mpr hne
  rw [← hr.metBy_walk_round hne key]
  have hplace := (clockwisePlace_splits hs hne (hash key)).1
  generalize clockwisePlace hr.nodes (hash key) = i at *
  have hloop := fun fuel => hr.nodesLoop_eq_some_iff hle i fuel 0 result
  simp only [Nat.add_zero,Nat.mod_eq_of_lt hplace,Nat.zero_add] at hloop
  have hround : ∀ k, ∃ j < hr.nodes.length, hr.walk i k = hr.walk i j := by
    intro k
    refine ⟨k%hr.nodes.length,Nat.mod_lt _ hpos,?_⟩
    rw [HashRing.walk,HashRing.walk,Nat.add_mod_mod]
  -- the list that has as many owners as wanted is the front part of a whole round
  have htake : ∀ k, (metBy (hr.walk i) k).length = want →
      metBy (hr.walk i) k = (metBy (hr.walk i) hr.nodes.length).take want := by
    intro k hk
    rw [← hk]
    exact List.prefix_iff_eq_take.mp (metBy_round_initial hround k)
  constructor
  · rintro ⟨fuel,hf⟩
    obtain ⟨k,-,hbefore,hk,rfl⟩ := (hloop fuel).mp hf
    have hall := (metBy_round_initial hround k).length_le
    obtain ⟨k',-,hk',hbefore'⟩ := exists_metBy_length (hk.trans hall)
    -- the first place with enough owners is the one the loop stopped at
    obtain rfl : k' = k := by
      rcases Nat.lt_trichotomy k' k with hlt | heq | hlt
      · have := hbefore k' hlt
        omega
      · exact heq
      · have := hbefore' k hlt
        omega
    exact ⟨hk.trans hall,htake k' hk'⟩
  · rintro ⟨hwant,rfl⟩
    obtain ⟨k,-,hk,hbefore⟩ := exists_metBy_length hwant
    exact ⟨k+1,(hloop (k+1)).mpr ⟨k,by omega,hbefore,hk.ge,(htake k hk).symm⟩⟩

/-- The router's lookup hangs whenever the ring's does. -/
theorem getTimelineReplicas_returns_iff {r : ConsistentHashRouter} {order : List String}
    (hstores : order ≠ []) (hs : r.hashRing.nodes.Pairwise (· ≤ ·)) (replicas : Nat)
    (timelineKey : String) :
    (∃ fuel, (getTimelineReplicas hash replicas order r fuel timelineKey).isSome) ↔
      min replicas r.hashRing.mapLen ≤ (r.hashRing.ownersFrom hash timelineKey).length := by
  have hlen : order.length ≠ 0 := fun h => hstores (List.length_eq_zero_iff.mp h)
  have hiff := HashRing.getNodes_returns_iff_owners hash hs timelineKey replicas
  simp only [getTimelineReplicas,if_neg hlen,Option.isSome_map]
  constructor
  · rintro ⟨fuel,h⟩
    obtain ⟨result,hget⟩ := Option.isSome_iff_exists.mp h
    exact ((hiff result).mp ⟨fuel,hget⟩).1
  · intro h
    obtain ⟨fuel,hget⟩ := (hiff _).mpr ⟨h,rfl⟩
    exact ⟨fuel,by simp [hget]⟩

theorem HashRing.head?_ownersFrom (hs : hr.nodes.Pairwise (· ≤ ·)) (hne : hr.nodes ≠ [])
    (key : String) : (hr.ownersFrom hash key).head? = some (hr.getNode hash key) := by
  have hplace := (clockwisePlace_splits hs hne (hash key)).1
  have hlen : hr.nodes.length ≠ 0 := by omega
  have hhead : (hr.owners.rotate (clockwisePlace hr.nodes (hash key))).head? =
      some (hr.getNode hash key) := by
    rw [List.head?_rotate (by simpa [HashRing.owners] using hplace)]
    simp [HashRing.owners,HashRing.getNode,hne,List.getElem?_eq_getElem hplace]
  obtain ⟨rest,hrest⟩ := List.head?_eq_some_iff.mp hhead
  rw [HashRing.ownersFrom,hrest,List.eraseDups_cons,List.head?_cons]

theorem Canonical.mapLen {v : Int} {s : Set String} (h : Canonical hash v s hr) :
    hr.mapLen = hr.nodes.length := by
  have hnodup : hr.nodes.Nodup := h.sorted.imp fun hlt => ne_of_lt hlt
  have hall : hr.nodes.eraseDups.filter (fun point => (hr.nodeMap point).isSome) =
      hr.nodes.eraseDups := by
    refine List.filter_eq_self.mpr fun point hp => ?_
    obtain ⟨n,hn,i,hi,rfl⟩ := (h.mem point).mp (List.mem_eraseDups.mp hp)
    simp [h.owner n hn i hi]
  rw [HashRing.mapLen,hall]
  refine Nat.le_antisymm (length_eraseDups_le hr.nodes) ?_
  exact (List.subperm_of_subset hnodup fun point hp => List.mem_eraseDups.mpr hp).length_le

end Ring

/-- The lookup ends with as many nodes as it should if and only if the ring has
so many, or each of its points belongs to a node of its own. -/
theorem getNodes_returns_iff (hash : String → Point) (v : Int) (ops : List RingOp)
    (key : String) (count : Nat) :
    (∃ fuel result, (ringAfter hash v ops).getNodes hash fuel key count = some result ∧
      result.Nodup ∧ result.length = min count (ringAfter hash v ops).nodeIDs.length) ↔
    count ≤ (ringAfter hash v ops).nodeIDs.length ∨
      (ringAfter hash v ops).nodeIDs.length = (ringAfter hash v ops).mapLen := by
  have hs := ringAfter_sorted hash v ops
  generalize ringAfter hash v ops = hr at *
  have hmap := hr.nodeIDs_le_mapLen
  have howners := hr.nodeIDs_le_ownersFrom hash key
  constructor
  · rintro ⟨fuel,result,hget,-,hlen⟩
    obtain ⟨hmet,rfl⟩ :=
      (HashRing.getNodes_returns_iff_owners hash hs key count result).mp ⟨fuel,hget⟩
    rw [List.length_take] at hlen
    omega
  · intro hcond
    have hmet : min count hr.mapLen ≤ (hr.ownersFrom hash key).length := by omega
    obtain ⟨fuel,hget⟩ := (HashRing.getNodes_returns_iff_owners hash hs key count _).mpr ⟨hmet,rfl⟩
    refine ⟨fuel,_,hget,(nodup_eraseDups _).take,?_⟩
    rw [List.length_take]
    omega

/-- One store with three virtual nodes and two replicas asked for: the walk goes
round the three points for ever. -/
theorem two_replicas_of_one_store :
    ¬ (∀ (hash : String → Point) (v : Int) (ops : List RingOp) (key : String) (count : Nat), 1 ≤ v →
      ∃ fuel result, (ringAfter hash v ops).getNodes hash fuel key count = some result ∧
        result.length = min count (ringAfter hash v ops).nodeIDs.length) ∧
    ∀ fuel, (ringAfter charSum 3 [.addNode "a"]).getNodes charSum fuel "k" 2 = none := by
  have hnone : ∀ fuel, (ringAfter charSum 3 [.addNode "a"]).getNodes charSum fuel "k" 2 = none := by
    intro fuel
    refine Option.eq_none_iff_forall_ne_some.mpr fun result hget => ?_
    have hmet := ((HashRing.getNodes_returns_iff_owners charSum
      (ringAfter_sorted charSum 3 [.addNode "a"]) "k" 2
      result).mp ⟨fuel,hget⟩).1
    exact absurd hmet (by decide +kernel)
  refine ⟨fun hall => ?_,hnone⟩
  obtain ⟨fuel,result,hget,-⟩ := hall charSum 3 [.addNode "a"] "k" 2 (by decide)
  rw [hnone fuel] at hget
  cases hget

/-- The points of the ring in the order of their clockwise distances from the key. -/
def WalkFrom (hash : String → Point) (hr : HashRing) (key : String) (points : List Point) : Prop :=
  points.Perm hr.nodes ∧ points.Pairwise fun p q => p - hash key < q - hash key

/-- The replicas of a key are the first owners on the way round from it. -/
theorem getNodes_clockwise (hash : String → Point) (v : Int) (ids s : Set String)
    (hinj : Set.InjOn hash (virtualLabels v ids)) (hr : HashRing) (hb : Built hash v ids s hr)
    (hne : hr.nodes ≠ []) (key : String) (count : Nat) (hcount : 1 ≤ count) (fuel : Nat)
    (result : List String) (hget : hr.getNodes hash fuel key count = some result) :
    result.Nodup ∧ (∀ nodeID ∈ result, nodeID ∈ s) ∧
    (∃ points, WalkFrom hash hr key points ∧
      result = ((points.map fun point => (hr.nodeMap point).getD "").eraseDups).take count) ∧
    result.head? = some (hr.getNode hash key) ∧
    ∀ c c' fuel fuel' r r', c ≤ c' → hr.getNodes hash fuel key c = some r →
      hr.getNodes hash fuel' key c' = some r' → r <+: r' := by
  have hc := hb.canonical hinj
  have hs : hr.nodes.Pairwise (· ≤ ·) := hc.sorted.imp le_of_lt
  have hpos : 0 < hr.nodes.length := List.length_pos_iff.mpr hne
  have hall : ∀ {c fuel r}, hr.getNodes hash fuel key c = some r →
      r = (hr.ownersFrom hash key).take (min c hr.nodes.length) := by
    intro c fuel r h
    have := ((HashRing.getNodes_returns_iff_owners hash hs key c r).mp ⟨fuel,h⟩).2
    rwa [hc.mapLen] at this
  -- the whole ring has no more owners than points
  have hfew : (hr.ownersFrom hash key).length ≤ hr.nodes.length := by
    have := length_eraseDups_le (hr.owners.rotate (clockwisePlace hr.nodes (hash key)))
    rwa [List.length_rotate,HashRing.owners,List.length_map] at this
  have htake : result = (hr.ownersFrom hash key).take count := by
    rw [hall hget]
    rcases Nat.le_total count hr.nodes.length with hle | hle
    · rw [Nat.min_eq_left hle]
    · rw [Nat.min_eq_right hle,List.take_of_length_le hfew,List.take_of_length_le (by omega)]
  refine ⟨?_,?_,⟨hr.nodes.rotate (clockwisePlace hr.nodes (hash key)),⟨?_,?_⟩,?_⟩,?_,?_⟩
  · rw [htake]
    exact (nodup_eraseDups _).take
  · intro nodeID hid
    rw [htake] at hid
    obtain ⟨point,hp,rfl⟩ := HashRing.mem_ownersFrom.mp (List.mem_of_mem_take hid)
    obtain ⟨n,hn,i,hi,rfl⟩ := (hc.mem point).mp hp
    rw [hc.owner n hn i hi]
    exact hn
  · exact List.rotate_perm _ _
  · exact (rotate_clockwisePlace hc.sorted (hash key)).imp fun h => sooner_iff_sub_lt.mp h
  · rw [htake,List.map_rotate]
    rfl
  · rw [htake,← HashRing.head?_ownersFrom hs hne key]
    cases count with
    | zero => omega
    | succ count => cases hr.ownersFrom hash key <;> rfl
  · intro c c' fuel fuel' r r' hle hr hr'
    rw [hall hr,hall hr']
    exact List.take_prefix_take_left (by omega)

theorem getNodes_clockwise_two_nodes :
    ((((newHashRing 1).addNode charSum "a").addNode charSum "b").getNodes charSum 3 "k" 2).isSome ∧
    ∃ result : List String, result.Nodup ∧ result.length = 2 ∧
      result.head? = some ((((newHashRing 1).addNode charSum "a").addNode charSum "b").getNode
        charSum "k") := by
  have hb : Built charSum 1 {"a","b"} (insert "b" (insert "a" ∅))
      (((newHashRing 1).addNode charSum "a").addNode charSum "b") :=
    (Built.new.addNode (by simp) (by simp)).addNode (by simp) (by simp)
  have h := getNodes_clockwise charSum 1 {"a","b"} _ charSum_injOn _ hb (by decide +kernel) "k" 2
    (by decide) 3 ["a","b"] (by decide +kernel)
  exact ⟨by decide +kernel,["a","b"],h.1,rfl,h.2.2.2.1⟩

end Imy.Router
