import Mathlib.Algebra.Order.Field.Rat
import Mathlib.Algebra.Order.Floor.Ring
import Mathlib.Data.List.Sort
import Mathlib.Data.Rat.Floor
import Imy.Index.IndexEntries
import Imy.Registry.Registry
set_option autoImplicit false

/-!
`GetRebalanceRecommendations` of `pkg/storage/shard_manager.go` over the global index. What
`GetStoreLoad` returns points to the record in the index, and the loop writes to it. The
arithmetic of the ratios and what the two sorts leave are parameters.
-/

namespace Imy.Shard
open Imy.Lib Imy.Index Imy.Registry Imy.Router

/-- What is computed with float64. -/
structure Ratios (F : Type) where
  ratio : Int → Int → F
  max : F → F → F
  sub : F → F → F
  abs : F → F
  lt : F → F → Bool
  le : F → F → Bool
  fifth : F
  tenth : F
  /-- `int(x * 10)` -/
  tenths : F → Int
  /-- with two decimals -/
  text : F → String

structure ShardPolicy (F : Type) where
  maxTimelinePerStore : Int
  maxSizePerStore : Int
  loadBalanceThreshold : F
  autoRebalance : Bool

structure RebalanceRecommendation (F : Type) where
  timelineKey : String
  fromStore : String
  toStore : String
  reason : String
  priority : Int
  expectedGain : F

/-- A pointer to a `StoreLoadInfo`: to the record in the index, or to one that was made
for this call. -/
inductive LoadRef where
  | record (storeID : String)
  | own (load : StoreLoadInfo)
  deriving DecidableEq, Repr

def LoadRef.load (g : GlobalIndex) : LoadRef → StoreLoadInfo
  | .record storeID => (g.loadInfo storeID).getD ⟨storeID,0,0,0,0⟩
  | .own load => load

def LoadRef.addSize (size : Int) (g : GlobalIndex) : LoadRef → GlobalIndex
  | .record storeID =>
    { g with loadInfo := Function.update g.loadInfo storeID ((g.loadInfo storeID).map fun load =>
      { load with totalSize := int64 (load.totalSize+size) }) }
  | .own _ => g

def getStoreLoadRef (clock : Nat → Int) (storeID : String) : IndexM LoadRef := do
  let g ← get
  match g.loadInfo storeID with
  | some _ => pure (.record storeID)
  | none =>
    let lastUpdate ← readTime clock
    pure (.own ⟨storeID,0,0,0,lastUpdate⟩)

structure StoreLoadData (F : Type) where
  storeInfo : StoreInfo
  loadInfo : LoadRef
  loadFactor : F
  timelines : List String

section Recommendations
variable {F : Type} (A : Ratios F) (policy : ShardPolicy F)

def calculateLoadFactor (loadInfo : StoreLoadInfo) (additionalSize : Int) : F :=
  let timelineRatio := A.ratio loadInfo.timelineCount policy.maxTimelinePerStore
  let sizeRatio := A.ratio (int64 (loadInfo.totalSize+additionalSize)) policy.maxSizePerStore
  A.max timelineRatio sizeRatio

/-- The load with a timeline more or less. -/
def shifted (load : StoreLoadInfo) (timelines size : Int) : StoreLoadInfo :=
  ⟨"",load.timelineCount+timelines,0,int64 (load.totalSize+size),0⟩

def calculateMigrationGain (g : GlobalIndex) (high low : StoreLoadData F) (timelineSize : Int) :
    F :=
  let beforeGap := A.sub high.loadFactor low.loadFactor
  let newHighLoad :=
    calculateLoadFactor A policy (shifted (high.loadInfo.load g) (-1) (-timelineSize)) 0
  let newLowLoad := calculateLoadFactor A policy (shifted (low.loadInfo.load g) 1 timelineSize) 0
  let afterGap := A.abs (A.sub newHighLoad newLowLoad)
  A.sub beforeGap afterGap

def gatherStoreLoad (clock : Nat → Int) (storeLoads : List (StoreLoadData F)) (store : StoreInfo) :
    IndexM (List (StoreLoadData F)) := do
  if store.status ≠ "active" then pure storeLoads
  else
    let loadInfo ← getStoreLoadRef clock store.id
    let timelines ← listTimelinesByStore store.id
    let g ← get
    pure (storeLoads ++ [⟨store,loadInfo,calculateLoadFactor A policy
      (loadInfo.load g) 0,timelines⟩])

def chooseTimeline (g : GlobalIndex) (high low : StoreLoadData F) :
    List String → Option (String × TimelineLocation × F)
  | [] => none
  | timelineKey :: rest =>
    match g.timelineIndex timelineKey with
    | none => chooseTimeline g high low rest
    | some location =>
      let expectedGain := calculateMigrationGain A policy g high low location.totalSize
      if A.lt A.tenth expectedGain then some (timelineKey,location,expectedGain)
      else chooseTimeline g high low rest

def recommend (high low : StoreLoadData F) (timelineKey : String) (expectedGain : F) :
    RebalanceRecommendation F where
  timelineKey := timelineKey
  fromStore := high.storeInfo.id
  toStore := low.storeInfo.id
  reason := "Load balancing: " ++ A.text high.loadFactor ++ " -> " ++ A.text low.loadFactor
  priority := A.tenths expectedGain
  expectedGain := expectedGain

def rebalanceLoop : List (StoreLoadData F × StoreLoadData F) → List (RebalanceRecommendation F) →
    IndexM (List (RebalanceRecommendation F))
  | [], recommendations => pure recommendations
  | (high,low) :: rest, recommendations => do
    if A.le high.loadFactor policy.loadBalanceThreshold then pure recommendations
    else
      let g ← get
      match chooseTimeline A policy g high low high.timelines with
      | none => rebalanceLoop rest recommendations
      | some (timelineKey,location,expectedGain) =>
        modify fun g => high.loadInfo.addSize (-location.totalSize) g
        modify fun g => low.loadInfo.addSize location.totalSize g
        rebalanceLoop rest (recommendations ++ [recommend A high low timelineKey expectedGain])

def pairs {α : Type} (storeLoads : List α) : List (α × α) :=
  (storeLoads.zip storeLoads.reverse).take (storeLoads.length/2)

/-- What `sort.Slice` leaves of the loads and of the recommendations, which it does not sort
stably. -/
structure Sorts (F : Type) where
  loads : List (StoreLoadData F) → List (StoreLoadData F)
  recommendations : List (RebalanceRecommendation F) → List (RebalanceRecommendation F)

structure Sorts.Permutes {F : Type} (S : Sorts F) : Prop where
  loads : ∀ storeLoads, (S.loads storeLoads).Perm storeLoads
  recommendations : ∀ recommendations, (S.recommendations recommendations).Perm recommendations

def getRebalanceRecommendations (S : Sorts F) (clock : Nat → Int) (order : List String)
    (r : InMemoryRegistry) : IndexM (List (RebalanceRecommendation F)) := do
  if !policy.autoRebalance then pure []
  else
    let stores := (listStores order r).map r.objects
    let gathered ← stores.foldlM (gatherStoreLoad A policy clock) []
    if gathered.length < 2 then pure []
    else
      let storeLoads := S.loads gathered
      match storeLoads.head?, storeLoads.getLast? with
      | some highest, some lowest =>
        if A.lt (A.sub highest.loadFactor lowest.loadFactor) A.fifth then pure []
        else
          let recommendations ← rebalanceLoop A policy (pairs storeLoads) []
          pure (S.recommendations recommendations)
      | _, _ => pure []

end Recommendations

section Effects
variable {F : Type} {A : Ratios F} {policy : ShardPolicy F} {g g' : GlobalIndex}

def StoreLoadData.OwnRef (d : StoreLoadData F) : Prop :=
  ∀ s, d.loadInfo = .record s → s = d.storeInfo.id

theorem LoadRef.addSize_loadInfo {ref : LoadRef} {s : String} (h : ref ≠ .record s) (size : Int) :
    (ref.addSize size g).loadInfo s = g.loadInfo s := by
  cases ref with
  | own load => rfl
  | record storeID =>
    refine Function.update_of_ne ?_ _ _
    rintro rfl
    exact h rfl

/-- A write to one record leaves everything but that record. -/
theorem LoadRef.addSize_same (ref : LoadRef) (size : Int) :
    ref.addSize size g = { g with loadInfo := (ref.addSize size g).loadInfo } := by
  cases ref <;> rfl

theorem LoadRef.load_congr {ref : LoadRef} (h : ∀ s, ref = .record s →
    g'.loadInfo s = g.loadInfo s) :
    ref.load g' = ref.load g := by
  cases ref with
  | own load => rfl
  | record storeID => simp [LoadRef.load,h storeID rfl]

theorem chooseTimeline_congr {high low : StoreLoadData F}
    (htimelines : g'.timelineIndex = g.timelineIndex)
    (hhigh : high.loadInfo.load g' = high.loadInfo.load g)
    (hlow : low.loadInfo.load g' = low.loadInfo.load g) (timelines : List String) :
    chooseTimeline A policy g' high low timelines =
      chooseTimeline A policy g high low timelines := by
  have hgain (size : Int) : calculateMigrationGain A policy g' high low size =
      calculateMigrationGain A policy g high low size := by
    simp only [calculateMigrationGain,hhigh,hlow]
  induction timelines with
  | nil => rfl
  | cons timelineKey rest ih =>
    rw [chooseTimeline,chooseTimeline,htimelines]
    cases g.timelineIndex timelineKey with
    | none => exact ih
    | some location =>
      dsimp only
      rw [hgain,ih]

structure Move (F : Type) where
  high : StoreLoadData F
  low : StoreLoadData F
  timelineKey : String
  location : TimelineLocation
  expectedGain : F

def Move.apply (g : GlobalIndex) (m : Move F) : GlobalIndex :=
  m.low.loadInfo.addSize m.location.totalSize (m.high.loadInfo.addSize (-m.location.totalSize) g)

def visited (A : Ratios F) (policy : ShardPolicy F)
    (ps : List (StoreLoadData F × StoreLoadData F)) :
    List (StoreLoadData F × StoreLoadData F) :=
  ps.takeWhile fun p => !A.le p.1.loadFactor policy.loadBalanceThreshold

def moveOf (A : Ratios F) (policy : ShardPolicy F) (g : GlobalIndex)
    (p : StoreLoadData F × StoreLoadData F) :
    Option (Move F) :=
  (chooseTimeline A policy g p.1 p.2 p.1.timelines).map fun choice =>
    ⟨p.1,p.2,choice.1,choice.2.1,choice.2.2⟩

/-- All that the loop moves, told from what it finds at its beginning. -/
def moves (A : Ratios F) (policy : ShardPolicy F) (g : GlobalIndex)
    (ps : List (StoreLoadData F × StoreLoadData F)) : List (Move F) :=
  (visited A policy ps).filterMap (moveOf A policy g)

structure Paired (ps : List (StoreLoadData F × StoreLoadData F)) : Prop where
  apart : (ps.flatMap fun p => [p.1.storeInfo.id,p.2.storeInfo.id]).Nodup
  refs : ∀ p ∈ ps, p.1.OwnRef ∧ p.2.OwnRef

theorem Paired.tail {p : StoreLoadData F × StoreLoadData F}
    {ps : List (StoreLoadData F × StoreLoadData F)} (h : Paired (p :: ps)) : Paired ps where
  apart := by
    have := h.apart
    rw [List.flatMap_cons] at this
    exact (List.nodup_append.mp this).2.1
  refs q hq := h.refs q (List.mem_cons_of_mem _ hq)

theorem Move.apply_loadInfo {m : Move F} {s : String} (hhigh : m.high.OwnRef) (hlow : m.low.OwnRef)
    (hs : s ≠ m.high.storeInfo.id) (hs' : s ≠ m.low.storeInfo.id) :
    (m.apply g).loadInfo s = g.loadInfo s := by
  rw [Move.apply,LoadRef.addSize_loadInfo fun h => hs' (hlow s h),
    LoadRef.addSize_loadInfo fun h => hs (hhigh s h)]

theorem Move.apply_same (m : Move F) : m.apply g = { g with loadInfo := (m.apply g).loadInfo } := by
  rw [Move.apply,LoadRef.addSize_same m.low.loadInfo,LoadRef.addSize_same m.high.loadInfo]

theorem Paired.moves_tail {p : StoreLoadData F × StoreLoadData F}
    {ps : List (StoreLoadData F × StoreLoadData F)}
    (h : Paired (p :: ps)) {m : Move F} (hhigh : m.high = p.1) (hlow : m.low = p.2) :
    moves A policy (m.apply g) ps = moves A policy g ps := by
  have hrefs := h.refs p List.mem_cons_self
  refine List.filterMap_congr fun q hq => ?_
  have hq : q ∈ ps := (List.takeWhile_prefix _).subset hq
  have hqrefs := h.refs q (List.mem_cons_of_mem _ hq)
  have hframe (d : StoreLoadData F) (hd : d.OwnRef) (hd₁ : d.storeInfo.id ≠ p.1.storeInfo.id)
      (hd₂ : d.storeInfo.id ≠ p.2.storeInfo.id) : d.loadInfo.load (m.apply g) =
          d.loadInfo.load g := by
    refine LoadRef.load_congr fun s hs =>
      Move.apply_loadInfo (hhigh ▸ hrefs.1) (hlow ▸ hrefs.2) ?_ ?_
    · rw [hd s hs,hhigh]
      exact hd₁
    · rw [hd s hs,hlow]
      exact hd₂
  have hdisjoint : ∀ id ∈ [p.1.storeInfo.id,p.2.storeInfo.id],
    ∀ id' ∈ [q.1.storeInfo.id,q.2.storeInfo.id],
      id' ≠ id := by
    have happart := h.apart
    rw [List.flatMap_cons,List.nodup_append] at happart
    intro id hid id' hid'
    exact (happart.2.2 id hid id' (List.mem_flatMap.mpr ⟨q,hq,hid'⟩)).symm
  have hq₁ := hframe q.1 hqrefs.1 (hdisjoint _ (by simp) _ (by simp))
    (hdisjoint _ (by simp) _ (by simp))
  have hq₂ := hframe q.2 hqrefs.2 (hdisjoint _ (by simp) _ (by simp))
    (hdisjoint _ (by simp) _ (by simp))
  have htimelines : (m.apply g).timelineIndex = g.timelineIndex := by rw [Move.apply_same]
  rw [moveOf,moveOf,chooseTimeline_congr htimelines hq₁ hq₂]

variable (A policy) in
/-- What the loop recommends and does can be told before it begins, as no round sees what
another one wrote. -/
theorem wp_rebalanceLoop {ps : List (StoreLoadData F × StoreLoadData F)} (h : Paired ps)
    (recommendations : List (RebalanceRecommendation F)) (g : GlobalIndex) :
    wp (rebalanceLoop A policy ps recommendations)
      (fun recommendations' g' => recommendations' = recommendations ++ (moves A policy g ps).map
          (fun m => recommend A m.high m.low m.timelineKey m.expectedGain) ∧
        g' = (moves A policy g ps).foldl Move.apply g)
      (fun _ _ => False) g := by
  induction ps generalizing recommendations g with
  | nil => simp [rebalanceLoop,moves,visited]
  | cons p ps ih =>
    obtain ⟨high,low⟩ := p
    by_cases hle : A.le high.loadFactor policy.loadBalanceThreshold = true
    · simp [rebalanceLoop,moves,visited,hle]
    · have hmoves : moves A policy g ((high,low) :: ps) =
          ((moveOf A policy g (high,low)).toList ++ moves A policy g ps) := by
        simp only [moves,visited,List.takeWhile_cons,Bool.eq_false_iff.mpr hle]
        cases hmove : moveOf A policy g (high,low) <;> simp [hmove]
      simp only [rebalanceLoop,if_neg hle,wp_bind,wp_get,hmoves]
      cases hchoice : chooseTimeline A policy g high low high.timelines with
      | none => simpa [moveOf,hchoice] using ih h.tail recommendations g
      | some choice =>
        obtain ⟨timelineKey,location,expectedGain⟩ := choice
        let m : Move F := ⟨high,low,timelineKey,location,expectedGain⟩
        have hrest := ih h.tail (recommendations ++ [recommend A high low timelineKey expectedGain])
          (m.apply g)
        rw [h.moves_tail (m := m) rfl rfl] at hrest
        simpa [moveOf,hchoice,m,Move.apply] using hrest

def StoreLoadData.Reads (g : GlobalIndex) (d : StoreLoadData F) : Prop :=
  match g.loadInfo d.storeInfo.id with
  | none => ∃ lastUpdate, d.loadInfo = .own ⟨d.storeInfo.id,0,0,0,lastUpdate⟩
  | some _ => d.loadInfo = .record d.storeInfo.id

theorem StoreLoadData.Reads.ownRef {d : StoreLoadData F} (h : d.Reads g) : d.OwnRef := by
  intro s hs
  unfold StoreLoadData.Reads at h
  rw [hs] at h
  split at h
  · obtain ⟨load,hload⟩ := h
    cases hload
  · exact LoadRef.record.inj h

end Effects

section Run
variable {F : Type} {A : Ratios F} {policy : ShardPolicy F} {g g' : GlobalIndex}

structure Gathered (A : Ratios F) (policy : ShardPolicy F) (g : GlobalIndex) (d : StoreLoadData F) :
    Prop where
  reads : d.Reads g
  factor : d.loadFactor = calculateLoadFactor A policy (d.loadInfo.load g) 0

theorem wp_getStoreLoadRef (clock : Nat → Int) (storeID : String) (g : GlobalIndex) :
    wp (getStoreLoadRef clock storeID) (fun ref g' => (∃ tick, g' = { g with tick := tick }) ∧
      match g.loadInfo storeID with
      | none => ∃ lastUpdate, ref = .own ⟨storeID,0,0,0,lastUpdate⟩
      | some _ => ref = .record storeID) (fun _ _ => False) g := by
  simp only [getStoreLoadRef,wp_bind,wp_get]
  cases g.loadInfo storeID with
  | some load => exact ⟨⟨g.tick,rfl⟩,rfl⟩
  | none => exact ⟨⟨_,rfl⟩,_,rfl⟩

/-- The pointer is to what `GetStoreLoad` returns. -/
theorem getStoreLoadRef_load (clock : Nat → Int) (storeID : String) :
    (do let ref ← getStoreLoadRef clock storeID; let g ← get; pure (ref.load g)) =
      getStoreLoad clock storeID := by
  funext g
  simp only [getStoreLoadRef,getStoreLoad,bind,EStateM.bind,get_apply]
  cases hload : g.loadInfo storeID with
  | some load => simp [pure,EStateM.pure,LoadRef.load,hload]
  | none => simp [EStateM.bind,readTime,pure,EStateM.pure,LoadRef.load]

variable (A policy) in
theorem wp_gatherStoreLoads (clock : Nat → Int) (stores : List StoreInfo) (g : GlobalIndex) :
    wp (stores.foldlM (gatherStoreLoad A policy clock) []) (fun loads g' =>
      (∃ tick, g' = { g with tick := tick }) ∧
      loads.map (·.storeInfo) = stores.filter (fun store => store.status = "active") ∧
      ∀ d ∈ loads, Gathered A policy g d) (fun _ _ => False) g := by
  refine wp_foldlM (I := fun (done : List StoreInfo) (loads : List (StoreLoadData F)) t =>
    (∃ tick, t = { g with tick := tick }) ∧
    loads.map (·.storeInfo) = done.filter (fun store => store.status = "active") ∧
    ∀ d ∈ loads, Gathered A policy g d) stores ?_ ?_
  · exact ⟨⟨g.tick,rfl⟩,rfl,by simp⟩
  rintro done store rest loads t - ⟨⟨tick,rfl⟩,hstores,hloads⟩
  simp only [gatherStoreLoad,wp_ite,wp_pure,wp_bind]
  split
  · rename_i hstatus
    refine ⟨⟨tick,rfl⟩,?_,hloads⟩
    simpa [hstatus] using hstores
  · rename_i hstatus
    refine wp_mono (wp_getStoreLoadRef clock store.id _) ?_ (fun _ _ h => h)
    rintro ref t ⟨⟨tick',rfl⟩,href⟩
    have hlist : wp (listTimelinesByStore store.id) (fun _ t => t = { g with tick := tick' })
        (fun _ _ => False) { g with tick := tick' } := by
      simp only [listTimelinesByStore,wp_bind,wp_get]
      cases g.storeIndex store.id <;> rfl
    refine wp_mono hlist ?_ (fun _ _ h => h)
    rintro timelines t rfl
    refine ⟨⟨tick',rfl⟩,?_,?_⟩
    · simp [hstores,not_not.mp hstatus]
    · intro d hd
      rcases List.mem_append.mp hd with hd | hd
      · exact hloads d hd
      · rw [List.mem_singleton.mp hd]
        exact ⟨href,by rw [LoadRef.load_congr]; exact fun _ _ => rfl⟩

def loopPairs (A : Ratios F) (S : Sorts F) (gathered : List (StoreLoadData F)) :
    List (StoreLoadData F × StoreLoadData F) :=
  if gathered.length < 2 then []
  else
    match (S.loads gathered).head?, (S.loads gathered).getLast? with
    | some highest, some lowest =>
      if A.lt (A.sub highest.loadFactor lowest.loadFactor) A.fifth then []
          else pairs (S.loads gathered)
    | _, _ => []

/-- What a call moves, told from the index before it. -/
def plan (A : Ratios F) (policy : ShardPolicy F) (S : Sorts F) (clock : Nat → Int)
    (order : List String) (r : InMemoryRegistry) (g : GlobalIndex) : List (Move F) :=
  if policy.autoRebalance then
    match answer (((listStores order r).map r.objects).foldlM
      (gatherStoreLoad A policy clock) []) g with
    | some gathered => moves A policy g (loopPairs A S gathered)
    | none => []
  else []

theorem flatMap_zip_perm {α : Type} (xs ys : List α) (h : xs.length = ys.length) :
    ((xs.zip ys).flatMap fun p => [p.1,p.2]).Perm (xs ++ ys) := by
  induction xs generalizing ys with
  | nil =>
    obtain rfl := List.length_eq_zero_iff.mp h.symm
    exact List.Perm.refl _
  | cons x xs ih =>
    obtain ⟨y,ys,rfl⟩ := List.exists_cons_of_length_eq_add_one h.symm
    have hrest := ih ys (by simpa using h)
    refine (List.Perm.cons x ((hrest.cons y).trans ?_))
    exact List.perm_middle.symm

theorem pairs_subperm {α : Type} (xs : List α) :
    ((pairs xs).flatMap fun p => [p.1,p.2]).Subperm xs := by
  have hlen : (xs.take (xs.length/2)).length = (xs.reverse.take (xs.length/2)).length := by simp
  have hpairs : pairs xs = (xs.take (xs.length/2)).zip (xs.reverse.take (xs.length/2)) :=
    List.take_zipWith
  rw [hpairs]
  refine (flatMap_zip_perm _ _ hlen).subperm.trans ?_
  rw [List.take_reverse]
  have hdrop : xs.drop (xs.length-xs.length/2) |>.Sublist (xs.drop (xs.length/2)) :=
    List.drop_sublist_drop_left xs (by omega)
  refine ((List.reverse_perm _).append_left _).subperm.trans ?_
  have := (hdrop.append_left (xs.take (xs.length/2))).subperm
  rwa [List.take_append_drop] at this

theorem mem_of_mem_pairs {α : Type} {xs : List α} {p : α × α} (h : p ∈ pairs xs) :
    p.1 ∈ xs ∧ p.2 ∈ xs := by
  have hin := (pairs_subperm xs).subset
  exact ⟨hin (List.mem_flatMap.mpr ⟨p,h,by simp⟩),hin (List.mem_flatMap.mpr ⟨p,h,by simp⟩)⟩

theorem mem_of_mem_loopPairs {S : Sorts F} {gathered : List (StoreLoadData F)}
    {p : StoreLoadData F × StoreLoadData F} (h : p ∈ loopPairs A S gathered) :
    p ∈ pairs (S.loads gathered) := by
  unfold loopPairs at h
  split at h
  · cases h
  · split at h
    · split at h
      · cases h
      · exact h
    · cases h

theorem paired_loopPairs {S : Sorts F} (hS : ∀ storeLoads, (S.loads storeLoads).Perm storeLoads)
    {gathered : List (StoreLoadData F)} (hids : (gathered.map (·.storeInfo.id)).Nodup)
    (hgathered : ∀ d ∈ gathered, Gathered A policy g d) : Paired (loopPairs A S gathered) := by
  have hrefs : ∀ p ∈ loopPairs A S gathered, p.1.OwnRef ∧ p.2.OwnRef := by
    intro p hp
    obtain ⟨h1,h2⟩ := mem_of_mem_pairs (mem_of_mem_loopPairs hp)
    exact ⟨(hgathered _ ((hS gathered).mem_iff.mp h1)).reads.ownRef,
      (hgathered _ ((hS gathered).mem_iff.mp h2)).reads.ownRef⟩
  refine ⟨?_,hrefs⟩
  have hapart : ((pairs (S.loads gathered)).flatMap fun p =>
      [p.1.storeInfo.id,p.2.storeInfo.id]).Nodup := by
    obtain ⟨some,hperm,hsub⟩ := pairs_subperm (S.loads gathered)
    have hsome := (hsub.map (·.storeInfo.id)).nodup (((hS gathered).map _).nodup_iff.mpr hids)
    rw [(hperm.map _).nodup_iff,List.map_flatMap] at hsome
    exact hsome
  unfold loopPairs
  split
  · exact List.nodup_nil
  · split
    · split
      · exact List.nodup_nil
      · exact hapart
    · exact List.nodup_nil

theorem listStores_ids_nodup {r : InMemoryRegistry} (hr : Keyed r) {order : List String}
    (horder : order.Perm r.stores.keys) :
    (((listStores order r).map r.objects).map (·.id)).Nodup := by
  have hsub : (((listStores order r).map r.objects).map (·.id)).Sublist order := by
    clear horder
    induction order with
    | nil => exact List.Sublist.refl _
    | cons id order ih =>
      cases hlookup : r.stores.lookup id with
      | none => simpa [listStores,hlookup] using ih.cons id
      | some p => simpa [listStores,hlookup,hr id p hlookup] using ih.cons_cons id
  exact hsub.nodup (horder.nodup_iff.mpr r.stores.keys_nodup)

variable (A policy) in
/-- The first loop returns, with one pointer for every active store. -/
theorem gathered_of_registry (clock : Nat → Int) {r : InMemoryRegistry} (hr : Keyed r)
    {order : List String} (horder : order.Perm r.stores.keys) (g : GlobalIndex) : ∃ gathered tick,
      ((listStores order r).map r.objects).foldlM (gatherStoreLoad A policy clock) [] g =
        .ok gathered { g with tick := tick } ∧
      (gathered.map (·.storeInfo.id)).Nodup ∧ ∀ d ∈ gathered, Gathered A policy g d := by
  obtain ⟨gathered,g₁,hrun,⟨tick,rfl⟩,hstores,hgathered⟩ :=
    eq_ok_of_wp (wp_gatherStoreLoads A policy clock ((listStores order r).map r.objects) g)
  refine ⟨gathered,tick,hrun,?_,hgathered⟩
  have hids : gathered.map (·.storeInfo.id) = (gathered.map (·.storeInfo)).map (·.id) := by simp
  rw [hids,hstores]
  exact (List.filter_sublist.map _).nodup (listStores_ids_nodup hr horder)

theorem moves_congr (htimelines : g'.timelineIndex = g.timelineIndex)
    (hloads : g'.loadInfo = g.loadInfo)
    (ps : List (StoreLoadData F × StoreLoadData F)) :
    moves A policy g' ps = moves A policy g ps := by
  refine List.filterMap_congr fun p _ => ?_
  have hload (ref : LoadRef) : ref.load g' = ref.load g :=
    LoadRef.load_congr fun s _ => congrFun hloads s
  rw [moveOf,moveOf,chooseTimeline_congr htimelines (hload _) (hload _)]

variable (A policy) in
theorem wp_getRebalanceRecommendations {S : Sorts F} (hS : S.Permutes) (clock : Nat → Int)
    {r : InMemoryRegistry} (hr : Keyed r) {order : List String} (horder : order.Perm r.stores.keys)
    (g : GlobalIndex) :
    wp (getRebalanceRecommendations A policy S clock order r) (fun recommendations g' =>
      recommendations = S.recommendations ((plan A policy S clock order r g).map fun m =>
        recommend A m.high m.low m.timelineKey m.expectedGain) ∧
      ∃ tick, g' = (plan A policy S clock order r g).foldl Move.apply { g with tick := tick })
      (fun _ _ => False) g := by
  have hrecs : S.recommendations [] = [] := (hS.recommendations []).eq_nil
  unfold getRebalanceRecommendations
  cases hauto : policy.autoRebalance with
  | false => simpa [plan,hauto,hrecs] using ⟨g.tick,rfl⟩
  | true =>
    obtain ⟨gathered,tick,hrun,hids,hgathered⟩ := gathered_of_registry A policy clock hr horder g
    have hplan : plan A policy S clock order r g = moves A policy g (loopPairs A S gathered) := by
      simp [plan,hauto,answer,hrun]
    have hloop := wp_rebalanceLoop A policy (paired_loopPairs hS.loads hids hgathered) []
      { g with tick := tick }
    have hticked : moves A policy { g with tick := tick } (loopPairs A S gathered) =
        moves A policy g (loopPairs A S gathered) := by refine moves_congr ?_ ?_ _ <;> rfl
    rw [hticked] at hloop
    simp only [Bool.not_true,Bool.false_eq_true,if_false,wp_bind]
    refine wp_of_eq_ok hrun ?_
    rw [hplan]
    unfold loopPairs at hloop ⊢
    split
    · exact ⟨by simp [moves,visited,hrecs],tick,rfl⟩
    · rename_i hlen
      rw [if_neg hlen] at hloop
      cases hfirst : (S.loads gathered).head? with
      | none => exact ⟨by simp [moves,visited,hrecs],tick,rfl⟩
      | some highest =>
        cases hlast : (S.loads gathered).getLast? with
        | none => exact ⟨by simp [moves,visited,hrecs],tick,rfl⟩
        | some lowest =>
          simp only [hfirst,hlast] at hloop ⊢
          by_cases hgap : A.lt (A.sub highest.loadFactor lowest.loadFactor) A.fifth = true
          · simp [hgap,moves,visited,hrecs]
          · rw [if_neg hgap] at hloop ⊢
            rw [if_neg hgap,wp_bind]
            refine wp_mono hloop ?_ (fun _ _ h => h)
            rintro recommendations g' ⟨rfl,rfl⟩
            exact ⟨by simp,tick,rfl⟩

theorem mem_moves {ps : List (StoreLoadData F × StoreLoadData F)} {m : Move F}
    (h : m ∈ moves A policy g ps) :
    ∃ p ∈ ps, m.high = p.1 ∧ m.low = p.2 ∧
      chooseTimeline A policy g p.1 p.2 p.1.timelines =
        some (m.timelineKey,m.location,m.expectedGain) := by
  obtain ⟨p,hp,hmove⟩ := List.mem_filterMap.mp h
  obtain ⟨⟨timelineKey,location,expectedGain⟩,hchoice,rfl⟩ := Option.map_eq_some_iff.mp hmove
  exact ⟨p,(List.takeWhile_prefix _).subset hp,rfl,rfl,hchoice⟩

theorem chooseTimeline_spec {high low : StoreLoadData F} {timelines : List String}
    {timelineKey : String} {location : TimelineLocation} {expectedGain : F}
    (h : chooseTimeline A policy g high low timelines = some (timelineKey,location,expectedGain)) :
    g.timelineIndex timelineKey = some location ∧
      expectedGain = calculateMigrationGain A policy g high low location.totalSize ∧
      A.lt A.tenth expectedGain = true := by
  induction timelines with
  | nil => cases h
  | cons key rest ih =>
    rw [chooseTimeline] at h
    cases hlocation : g.timelineIndex key with
    | none => exact ih (by simpa [hlocation] using h)
    | some found =>
      rw [hlocation] at h
      dsimp only at h
      split at h
      · rename_i hgain
        cases h
        exact ⟨hlocation,rfl,hgain⟩
      · exact ih h

theorem moves_ids_sublist (ps : List (StoreLoadData F × StoreLoadData F)) :
    ((moves A policy g ps).flatMap fun m => [m.high.storeInfo.id,m.low.storeInfo.id]).Sublist
      (ps.flatMap fun p => [p.1.storeInfo.id,p.2.storeInfo.id]) := by
  obtain ⟨rest,hrest⟩ := List.takeWhile_prefix (l := ps)
    (fun p => !A.le p.1.loadFactor policy.loadBalanceThreshold)
  have hvisited :
    ((visited A policy ps).flatMap fun p => [p.1.storeInfo.id,p.2.storeInfo.id]).Sublist
      (ps.flatMap fun p => [p.1.storeInfo.id,p.2.storeInfo.id]) := by
    conv_rhs => rw [← hrest,List.flatMap_append]
    exact List.sublist_append_left _ _
  refine List.Sublist.trans ?_ hvisited
  unfold moves
  generalize visited A policy ps = ps'
  induction ps' with
  | nil => exact List.Sublist.refl _
  | cons p ps' ih =>
    cases hchoice : chooseTimeline A policy g p.1 p.2 p.1.timelines with
    | none =>
      simp only [moveOf,hchoice,List.filterMap_cons,Option.map_none,List.flatMap_cons]
      exact ih.trans (List.sublist_append_right _ _)
    | some choice =>
      simp only [moveOf,hchoice,List.filterMap_cons,Option.map_some,List.flatMap_cons]
      exact ih.append_left _

structure Planned (A : Ratios F) (policy : ShardPolicy F) (g : GlobalIndex) (m : Move F) :
    Prop where
  high : Gathered A policy g m.high
  low : Gathered A policy g m.low
  location : g.timelineIndex m.timelineKey = some m.location
  gain : m.expectedGain = calculateMigrationGain A policy g m.high m.low m.location.totalSize
  enough : A.lt A.tenth m.expectedGain = true

variable (A policy) in
theorem plan_spec {S : Sorts F} (hS : S.Permutes) (clock : Nat → Int)
    {r : InMemoryRegistry} (hr : Keyed r)
    {order : List String} (horder : order.Perm r.stores.keys) (g : GlobalIndex) :
    ((plan A policy S clock order r g).flatMap fun m =>
      [m.high.storeInfo.id,m.low.storeInfo.id]).Nodup ∧
    ∀ m ∈ plan A policy S clock order r g, Planned A policy g m := by
  unfold plan
  split
  · obtain ⟨gathered,tick,hrun,hids,hgathered⟩ := gathered_of_registry A policy clock hr horder g
    simp only [answer,hrun]
    have hpaired := paired_loopPairs (A := A) hS.loads hids hgathered
    refine ⟨(moves_ids_sublist _).nodup hpaired.apart,?_⟩
    intro m hm
    obtain ⟨p,hp,hhigh,hlow,hchoice⟩ := mem_moves hm
    obtain ⟨hin,hin'⟩ := mem_of_mem_pairs (mem_of_mem_loopPairs hp)
    obtain ⟨hlocation,hgain,henough⟩ := chooseTimeline_spec hchoice
    rw [← hhigh] at hin hgain
    rw [← hlow] at hin' hgain
    exact ⟨hgathered _ ((hS.loads gathered).mem_iff.mp hin),
      hgathered _ ((hS.loads gathered).mem_iff.mp hin'),
      hlocation,hgain,henough⟩
  · simp

end Run

/-- The ratios as rational numbers. -/
def exact (text : ℚ → String) : Ratios ℚ where
  ratio a b := (a : ℚ)/(b : ℚ)
  max a b := max a b
  sub a b := a-b
  abs a := |a|
  lt a b := decide (a < b)
  le a b := decide (a ≤ b)
  fifth := 1/5
  tenth := 1/10
  tenths x := if 0 ≤ x then ⌊x*10⌋ else ⌈x*10⌉
  text := text

def insertionSorts : Sorts ℚ where
  loads storeLoads := storeLoads.insertionSort fun d d' => d.loadFactor > d'.loadFactor
  recommendations recommendations := recommendations.insertionSort fun a b =>
    a.priority > b.priority

theorem insertionSorts_permutes : insertionSorts.Permutes :=
  ⟨fun _ => List.perm_insertionSort _ _,fun _ => List.perm_insertionSort _ _⟩

end Imy.Shard
