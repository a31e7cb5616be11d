import Mathlib.Algebra.Order.BigOperators.Group.List
import Mathlib.Tactic.Linarith
import Mathlib.Tactic.FieldSimp
import Imy.Index.Listing
import Imy.Shard.ReadOnly
set_option autoImplicit false

namespace Imy.Shard
open Imy.Lib Imy.Index Imy.Registry Imy.Router

/-- A timeline that is on this store only is in its figures. -/
structure HeldBy (location : TimelineLocation) (load : StoreLoadInfo) : Prop where
  nonneg : 0 ≤ location.totalSize
  size : location.totalSize ≤ load.totalSize
  counted : 1 ≤ load.timelineCount

/-- All blocks of the timeline are on the store, in an index whose views agree and which has
a current load record of it. The sizes are sizes and their sum fits. -/
structure OnlyOn (clock : Nat → Int) (g : GlobalIndex) (s : String) (location : TimelineLocation) :
    Prop where
  coherent : Coherent clock g
  current : LoadCurrent g s
  only : ∀ e ∈ location.blocks, (g.entries e).storeID = s
  sizes : ∀ b ∈ g.storeOf s, 0 ≤ (g.entries b.2).size
  fits : ((g.storeOf s).map fun b => (g.entries b.2).size).sum < 2^63

theorem OnlyOn.heldBy {clock : Nat → Int} {g : GlobalIndex} {s k : String}
    {location : TimelineLocation}
    (h : OnlyOn clock g s location) (hlocation : g.timelineIndex k = some location)
    {load : StoreLoadInfo}
    (hload : answer (getStoreLoad clock s) g = some load) : HeldBy location load := by
  obtain ⟨hc,hcurrent,honly,hsizes,hfits⟩ := h
  obtain ⟨hbalanced,hne⟩ := hc.timelines k location hlocation
  have hblocks : g.blocksOf k = location.blocks := by rw [GlobalIndex.blocksOf,hlocation]
  have hshown (e : Nat) (he : e ∈ location.blocks) :
      (k ++ ":" ++ (g.entries e).blockID,e) ∈ g.storeOf s :=
    ((hc.stores s).holds _ e).mpr ⟨k,hblocks ▸ he,honly e he,rfl⟩
  have hsub : location.blocks.Subperm ((g.storeOf s).map Prod.snd) :=
    List.subperm_of_subset (hblocks ▸ hc.once k) fun e he => List.mem_map_of_mem (hshown e he)
  obtain ⟨some,hperm,hsublist⟩ := hsub
  have hall : ∀ size ∈ ((g.storeOf s).map Prod.snd).map fun e => (g.entries e).size, 0 ≤ size := by
    rw [List.map_map]
    intro size hsize
    obtain ⟨b,hb,rfl⟩ := List.mem_map.mp hsize
    exact hsizes b hb
  have hsum : (location.blocks.map fun e => (g.entries e).size).sum ≤
      ((g.storeOf s).map fun b => (g.entries b.2).size).sum := by
    rw [← (hperm.map _).sum_eq]
    have := (hsublist.map fun e => (g.entries e).size).sum_le_sum hall
    rwa [List.map_map] at this
  have hnonneg : 0 ≤ (location.blocks.map fun e => (g.entries e).size).sum :=
    List.sum_nonneg (by
      intro size hsize
      obtain ⟨e,he,rfl⟩ := List.mem_map.mp hsize
      exact hsizes _ (hshown e he))
  have hself (x : Int) (h0 : 0 ≤ x) (hlt : x < 2^63) : int64 x = x := by
    unfold int64 UInt64.size
    rw [Int.bmod_def]
    omega
  obtain ⟨load',g',hrun,hspec⟩ := eq_ok_of_wp (wp_getStoreLoad clock hcurrent)
  obtain rfl : load' = load := by simpa [answer,hrun] using hload
  obtain ⟨lastUpdate,rfl⟩ := hspec
  have hlocationSize :
      location.totalSize = (location.blocks.map fun e => (g.entries e).size).sum := by
    rw [hbalanced.total,GlobalIndex.sizeOf,hself _ hnonneg (by omega)]
  have hloadSize : (loadOf g s lastUpdate).totalSize =
      ((g.storeOf s).map fun b => (g.entries b.2).size).sum :=
    hself _ (by omega) hfits
  refine ⟨by omega,by omega,?_⟩
  obtain ⟨e,he⟩ := List.exists_mem_of_ne_nil _ hne
  have hpos : 0 < (timelinesIn (g.storeOf s)).length := List.length_pos_of_mem
    (List.mem_dedup.mpr (List.mem_filterMap.mpr ⟨_,hshown e he,head_splitTimelineKey k _⟩))
  change 1 ≤ ((timelinesIn (g.storeOf s)).length : Int)
  omega

/-- The load factors of the two stores before and after a move. -/
structure MoveBounds (high low newHigh newLow : ℚ) : Prop where
  high_le : newHigh ≤ high
  larger : max newHigh newLow < 3/2*high-1/20
  gap : |newHigh-newLow| < high-low-1/10

section Bounds
variable {text : ℚ → String} {policy : ShardPolicy ℚ} {g : GlobalIndex}
    {high low load : StoreLoadInfo} {x : Int}

theorem exact_loadFactor (load : StoreLoadInfo) :
    calculateLoadFactor (exact text) policy load 0 =
      max ((load.timelineCount : ℚ)/(policy.maxTimelinePerStore : ℚ))
        ((int64 load.totalSize : ℚ)/(policy.maxSizePerStore : ℚ)) := by
  simp [calculateLoadFactor,exact]

theorem int64_le_self {x : Int} (h : 0 ≤ x) : int64 x ≤ x := by
  unfold int64 UInt64.size
  rw [Int.bmod_def]
  omega

theorem ratio_le {a b m : Int} (hm : 0 < m) (h : a ≤ b) : (a : ℚ)/(m : ℚ) ≤ (b : ℚ)/(m : ℚ) := by
  have hm' : (0 : ℚ) < m := by exact_mod_cast hm
  have h' : (a : ℚ) ≤ b := by exact_mod_cast h
  gcongr

variable (text) in
theorem newHigh_le (hM : 0 < policy.maxTimelinePerStore) (hmax : 0 < policy.maxSizePerStore)
    (hint : int64 high.totalSize = high.totalSize) (h0 : 0 ≤ x) (hx : x ≤ high.totalSize) :
    calculateLoadFactor (exact text) policy (shifted high (-1) (-x)) 0 ≤
      calculateLoadFactor (exact text) policy high 0 := by
  rw [exact_loadFactor,exact_loadFactor,hint]
  have hsize : int64 (int64 (high.totalSize+-x)) ≤ high.totalSize := by
    have hle := int64_le_self (x := high.totalSize+-x) (by omega)
    have hidem : int64 (int64 (high.totalSize+-x)) = int64 (high.totalSize+-x) := Int.bmod_bmod
    omega
  refine max_le_max (ratio_le hM ?_) (ratio_le hmax hsize)
  change high.timelineCount+-1 ≤ high.timelineCount
  omega

variable (text) in
/-- The store that takes it gets no more than all the other one had. -/
theorem newLow_le (hM : 0 < policy.maxTimelinePerStore) (hmax : 0 < policy.maxSizePerStore)
    (hint : int64 high.totalSize = high.totalSize) (hlowInt : int64 low.totalSize = low.totalSize)
    (h0 : 0 ≤ x) (hx : x ≤ high.totalSize) (hcounted : 1 ≤ high.timelineCount)
    (hlow : 0 ≤ low.totalSize) :
    calculateLoadFactor (exact text) policy (shifted low 1 x) 0 ≤
      calculateLoadFactor (exact text) policy low 0+
        calculateLoadFactor (exact text) policy high 0 := by
  rw [exact_loadFactor,exact_loadFactor low,exact_loadFactor high,hint,hlowInt]
  refine max_le ?_ ?_
  · have hcount : ((shifted low 1 x).timelineCount : ℚ)/(policy.maxTimelinePerStore : ℚ) ≤
        (low.timelineCount : ℚ)/(policy.maxTimelinePerStore : ℚ)+
          (high.timelineCount : ℚ)/(policy.maxTimelinePerStore : ℚ) := by
      rw [← add_div,← Int.cast_add]
      refine ratio_le hM ?_
      change low.timelineCount+1 ≤ _
      omega
    exact hcount.trans (add_le_add (le_max_left _ _) (le_max_left _ _))
  · have hsize : ((int64 (shifted low 1 x).totalSize : Int) : ℚ)/(policy.maxSizePerStore : ℚ) ≤
        (low.totalSize : ℚ)/(policy.maxSizePerStore : ℚ)+
          (high.totalSize : ℚ)/(policy.maxSizePerStore : ℚ) := by
      rw [← add_div,← Int.cast_add]
      refine ratio_le hmax ?_
      have hidem : int64 (shifted low 1 x).totalSize = int64 (low.totalSize+x) := Int.bmod_bmod
      have hle := int64_le_self (x := low.totalSize+x) (by omega)
      omega
    exact hsize.trans (add_le_add (le_max_right _ _) (le_max_right _ _))

/-- The gain takes more than a tenth from the gap, which with the bounds on either store
leaves less than half as much again for the larger of the two. -/
theorem moveBounds_of_gain (hM : 0 < policy.maxTimelinePerStore) (hmax : 0 < policy.maxSizePerStore)
    (hint : int64 high.totalSize = high.totalSize) (hlowInt : int64 low.totalSize = low.totalSize)
    (h0 : 0 ≤ x) (hx : x ≤ high.totalSize) (hcounted : 1 ≤ high.timelineCount)
    (hlow : 0 ≤ low.totalSize) (hlowCount : 0 ≤ low.timelineCount)
    (hgain : 1/10 < calculateLoadFactor (exact text) policy high 0-calculateLoadFactor
      (exact text) policy low 0-
      |calculateLoadFactor (exact text) policy (shifted high (-1) (-x)) 0-
        calculateLoadFactor (exact text) policy (shifted low 1 x) 0|) :
    MoveBounds (calculateLoadFactor (exact text) policy high 0)
      (calculateLoadFactor (exact text) policy low 0)
      (calculateLoadFactor (exact text) policy (shifted high (-1) (-x)) 0)
      (calculateLoadFactor (exact text) policy (shifted low 1 x) 0) := by
  have hhigh := newHigh_le text hM hmax hint h0 hx
  have hadd := newLow_le text hM hmax hint hlowInt h0 hx hcounted hlow
  have hlow0 : 0 ≤ calculateLoadFactor (exact text) policy low 0 := by
    rw [exact_loadFactor]
    refine le_max_of_le_left ?_
    have := ratio_le hM hlowCount
    simpa using this
  have habs := neg_abs_le (calculateLoadFactor (exact text) policy (shifted high (-1) (-x)) 0-
    calculateLoadFactor (exact text) policy (shifted low 1 x) 0)
  have habs0 := abs_nonneg (calculateLoadFactor (exact text) policy (shifted high (-1) (-x)) 0-
    calculateLoadFactor (exact text) policy (shifted low 1 x) 0)
  exact ⟨hhigh,max_lt (by linarith) (by linarith),by linarith⟩

/-- What was gathered of a store is what `GetStoreLoad` reports of it. -/
theorem reported_load {d : StoreLoadData ℚ} (hd : d.Reads g) {clock : Nat → Int}
    (hload : answer (getStoreLoad clock d.storeInfo.id) g = some load) :
    (d.loadInfo.load g).timelineCount = load.timelineCount ∧
      (d.loadInfo.load g).totalSize = load.totalSize := by
  simp only [answer,getStoreLoad,bind,EStateM.bind,get_apply] at hload
  unfold StoreLoadData.Reads at hd
  cases hrecord : g.loadInfo d.storeInfo.id with
  | none =>
    rw [hrecord] at hd hload
    obtain ⟨lastUpdate,hown⟩ := hd
    cases hload
    rw [hown]
    exact ⟨rfl,rfl⟩
  | some record =>
    rw [hrecord] at hd hload
    cases hload
    simp [hd,LoadRef.load,hrecord]

theorem loadFactor_congr {load load' : StoreLoadInfo}
    (hcount : load.timelineCount = load'.timelineCount) (hsize : load.totalSize = load'.totalSize) :
    calculateLoadFactor (exact text) policy load 0 =
      calculateLoadFactor (exact text) policy load' 0 := by
  rw [exact_loadFactor,exact_loadFactor,hcount,hsize]

theorem reported_int64 {clock : Nat → Int} {s : String} (hsizes : Int64Sizes g)
    (hload : answer (getStoreLoad clock s) g = some load) :
    int64 load.totalSize = load.totalSize := by
  simp only [answer,getStoreLoad,bind,EStateM.bind,get_apply] at hload
  cases hrecord : g.loadInfo s with
  | none =>
    rw [hrecord] at hload
    cases hload
    exact (by decide : int64 0 = 0)
  | some record =>
    rw [hrecord] at hload
    cases hload
    exact hsizes.loads s _ hrecord

end Bounds

/-- Of every recommended move of a timeline that is on its store only and counted there, as
it is unless the record of the store is out of date. -/
theorem recommended_move_bounds (text : ℚ → String) (policy : ShardPolicy ℚ)
    (hM : 0 < policy.maxTimelinePerStore)
    (hmax : 0 < policy.maxSizePerStore) (S : Sorts ℚ) (hS : S.Permutes) (clock : Nat → Int)
    (r : InMemoryRegistry)
    (hr : Keyed r) (order : List String) (horder : order.Perm r.stores.keys) (g g' : GlobalIndex)
    (hsizes : Int64Sizes g) (recommendations : List (RebalanceRecommendation ℚ))
    (hrun : getRebalanceRecommendations (exact text) policy S clock order r g =
      .ok recommendations g')
    (move : RebalanceRecommendation ℚ) (hmove : move ∈ recommendations)
    (location : TimelineLocation)
    (hlocation : g.timelineIndex move.timelineKey = some location) (high low : StoreLoadInfo)
    (hhigh : answer (getStoreLoad clock move.fromStore) g = some high)
    (hlow : answer (getStoreLoad clock move.toStore) g = some low)
    (hcounted : OnlyOn clock g move.fromStore location ∨ HeldBy location high)
    (hcount : 0 ≤ low.timelineCount) (hsize : 0 ≤ low.totalSize) :
    MoveBounds (calculateLoadFactor (exact text) policy high 0)
      (calculateLoadFactor (exact text) policy low 0)
      (calculateLoadFactor (exact text) policy (shifted high (-1) (-location.totalSize)) 0)
      (calculateLoadFactor (exact text) policy (shifted low 1 location.totalSize) 0) := by
  have hheld : HeldBy location high := hcounted.elim (fun honly => honly.heldBy hlocation hhigh) id
  obtain ⟨hrecs,-⟩ := wp_ok (wp_getRebalanceRecommendations _ _ hS clock hr horder g) hrun
  rw [hrecs,(hS.recommendations _).mem_iff] at hmove
  obtain ⟨m,hm,rfl⟩ := List.mem_map.mp hmove
  have hplanned := (plan_spec _ _ hS clock hr horder g).2 m hm
  obtain rfl : m.location = location := Option.some.inj (hplanned.location.symm.trans hlocation)
  obtain ⟨hcountHigh,hsizeHigh⟩ := reported_load hplanned.high.reads hhigh
  obtain ⟨hcountLow,hsizeLow⟩ := reported_load hplanned.low.reads hlow
  have hgain : 1/10 < m.expectedGain := of_decide_eq_true hplanned.enough
  rw [hplanned.gain] at hgain
  refine moveBounds_of_gain hM hmax (reported_int64 hsizes hhigh)
    (reported_int64 hsizes hlow) hheld.nonneg hheld.size
    hheld.counted hsize hcount ?_
  have hnewHigh :
    calculateLoadFactor (exact text) policy
    (shifted (m.high.loadInfo.load g) (-1) (-m.location.totalSize)) 0 =
      calculateLoadFactor (exact text) policy (shifted high (-1) (-m.location.totalSize)) 0 :=
    loadFactor_congr (by simp only [shifted,hcountHigh]) (by simp only [shifted,hsizeHigh])
  have hnewLow :
    calculateLoadFactor (exact text) policy
    (shifted (m.low.loadInfo.load g) 1 m.location.totalSize) 0 =
      calculateLoadFactor (exact text) policy (shifted low 1 m.location.totalSize) 0 :=
    loadFactor_congr (by simp only [shifted,hcountLow]) (by simp only [shifted,hsizeLow])
  rwa [calculateMigrationGain,hplanned.high.factor,hplanned.low.factor,hnewHigh,hnewLow,
    loadFactor_congr hcountHigh hsizeHigh,loadFactor_congr hcountLow hsizeLow] at hgain

/-- A large timeline and three small ones on the one store, and room for the large one by
number but not by size on the other. -/
def oneLarge : GlobalIndex :=
  runIndex (fun _ => 0) ([⟨"large","store-a","b1",0,95,0,0⟩,⟨"x","store-a","b1",0,1,0,0⟩,
    ⟨"y","store-a","b1",0,1,0,0⟩,⟨"z","store-a","b1",0,1,0,0⟩,
    ⟨"w","store-b","b1",0,10,0,0⟩].map IndexOp.addIndex) newGlobalIndex

def fourEach : ShardPolicy ℚ := ⟨4,100,1/2,true⟩

def loadOfA : StoreLoadInfo := ⟨"store-a",4,4,98,0⟩

def loadOfB : StoreLoadInfo := ⟨"store-b",1,1,10,0⟩

theorem oneLarge_loads : answer (getStoreLoad (fun _ => 0) "store-a") oneLarge = some loadOfA ∧
    answer (getStoreLoad (fun _ => 0) "store-b") oneLarge = some loadOfB := by decide +kernel

/-- The large timeline is recommended to move, and would fill the other store beyond what
the one had. -/
theorem recommended_move_worse :
    (answer (recommendFor fourEach) oneLarge).map (fun moves => moves.map fun move =>
      (move.timelineKey,move.fromStore,move.toStore)) = some [("large","store-a","store-b")] ∧
    (oneLarge.timelineIndex "large").map (fun location =>
        (location.totalSize,location.blocks.map fun e =>
      (oneLarge.entries e).storeID)) = some (95,["store-a"]) ∧
    answer (getStoreLoad (fun _ => 0) "store-a") oneLarge = some loadOfA ∧
    answer (getStoreLoad (fun _ => 0) "store-b") oneLarge = some loadOfB ∧
    ¬ max (calculateLoadFactor (exact fun _ => "") fourEach (shifted loadOfA (-1) (-95)) 0)
      (calculateLoadFactor (exact fun _ => "") fourEach (shifted loadOfB 1 95) 0) ≤
        calculateLoadFactor (exact fun _ => "") fourEach loadOfA 0 := by
  exact ⟨by decide +kernel,by decide +kernel,oneLarge_loads.1,oneLarge_loads.2,by decide +kernel⟩

theorem recommended_move_bounds_large :
    MoveBounds (calculateLoadFactor (exact fun _ => "") fourEach loadOfA 0)
      (calculateLoadFactor (exact fun _ => "") fourEach loadOfB 0)
      (calculateLoadFactor (exact fun _ => "") fourEach (shifted loadOfA (-1) (-95)) 0)
      (calculateLoadFactor (exact fun _ => "") fourEach (shifted loadOfB 1 95) 0) := by
  have hmoves : (answer (recommendFor fourEach) oneLarge).map (fun moves => moves.map fun move =>
      (move.timelineKey,move.fromStore,move.toStore)) = some [("large","store-a","store-b")] := by
        decide +kernel
  have hsize : (oneLarge.timelineIndex "large").map (·.totalSize) = some 95 := by decide +kernel
  obtain ⟨moves,hanswer,hmap⟩ := Option.map_eq_some_iff.mp hmoves
  obtain ⟨move,rest,rfl,hmove,-⟩ := List.map_eq_cons_iff.mp hmap
  obtain ⟨hkey,hrest⟩ := Prod.mk.inj hmove
  obtain ⟨hfrom,hto⟩ := Prod.mk.inj hrest
  obtain ⟨location,hlocation,h95⟩ := Option.map_eq_some_iff.mp hsize
  have hbounds :=
    recommended_move_bounds (fun _ => "") fourEach (by decide) (by decide) insertionSorts
    insertionSorts_permutes (fun _ => 0) twoRegistered twoRegistered_keyed ["store-a","store-b"]
    (by decide +kernel) oneLarge _ (int64Sizes_adds _ _) (move :: rest) (eq_ok_of_answer hanswer)
    move List.mem_cons_self location (by rw [hkey]; exact hlocation) loadOfA loadOfB
    (by rw [hfrom]; exact oneLarge_loads.1) (by rw [hto]; exact oneLarge_loads.2)
    (Or.inr ⟨by omega,by rw [h95]; decide,by decide⟩) (by decide) (by decide)
  rwa [h95] at hbounds

end Imy.Shard
