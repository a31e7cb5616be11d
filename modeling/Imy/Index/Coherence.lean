import Mathlib.Algebra.BigOperators.Group.List.Basic
import Mathlib.Data.List.Nodup
import Imy.Lib.Lists
import Imy.Index.IndexEntries
set_option autoImplicit false

namespace Imy.Index
open Imy.Lib

section Views
variable (clock : Nat → Int) (g : GlobalIndex)

/-- The blocks of a timeline. -/
def GlobalIndex.blocksOf (timelineKey : String) : List Nat :=
  match g.timelineIndex timelineKey with
  | none => []
  | some location => location.blocks

def GlobalIndex.storeOf (storeID : String) : List (String × Nat) := (g.storeIndex storeID).getD []

def GlobalIndex.sizeOf (blocks : List Nat) : Int :=
  int64 (blocks.map fun e => (g.entries e).size).sum

structure Balanced (location : TimelineLocation) : Prop where
  counted : location.blockCount = location.blocks.length
  total : location.totalSize = g.sizeOf location.blocks
  storeMap : ∀ s, location.storeMap s = location.blocks.filter fun e => (g.entries e).storeID = s

/-- `storeIndex` holds exactly the blocks of the store, and their number and size is what
`GetStoreLoad` reports. -/
structure StoreAgrees (s : String) : Prop where
  once : ((g.storeOf s).map Prod.fst).Nodup
  holds : ∀ key e, (key,e) ∈ g.storeOf s ↔ ∃ k, e ∈ g.blocksOf k ∧ (g.entries e).storeID = s ∧
    key = k ++ ":" ++ (g.entries e).blockID
  load : wp (getStoreLoad clock s) (fun load _ => load.blockCount = (g.storeOf s).length ∧
    load.totalSize = g.sizeOf ((g.storeOf s).map Prod.snd)) (fun _ _ => False) g

/-- No block hangs in two timelines, or twice in one. -/
structure Coherent : Prop where
  pointers : ∀ k, ∀ e ∈ g.blocksOf k, e < g.allocated
  owned : ∀ k, ∀ e ∈ g.blocksOf k, (g.entries e).timelineKey = k
  once : ∀ k, (g.blocksOf k).Nodup
  timelines : ∀ k location, g.timelineIndex k = some location →
    Balanced g location ∧ location.blocks ≠ []
  stores : ∀ s, StoreAgrees clock g s

end Views

section Loads
variable {clock : Nat → Int} {g g' : GlobalIndex}

def LoadHolds (g : GlobalIndex) (s : String) : Prop :=
  match g.loadInfo s with
  | none => g.storeOf s = []
  | some load => load.blockCount = (g.storeOf s).length ∧
    load.totalSize = g.sizeOf ((g.storeOf s).map Prod.snd)

theorem wp_getStoreLoad_iff (s : String) :
    wp (getStoreLoad clock s) (fun load _ => load.blockCount = (g.storeOf s).length ∧
      load.totalSize = g.sizeOf ((g.storeOf s).map Prod.snd)) (fun _ _ => False) g ↔
        LoadHolds g s := by
  simp only [getStoreLoad,wp_bind,wp_get,LoadHolds]
  cases g.loadInfo s with
  | some load => exact Iff.rfl
  | none =>
    simp only [wp_bind,wp_readTime,wp_pure]
    constructor
    · rintro ⟨hcount,-⟩
      exact List.length_eq_zero_iff.mp (by omega)
    · intro hnil
      rw [hnil]
      exact ⟨rfl,rfl⟩

structure Reloaded (g : GlobalIndex) (s : String) (g' : GlobalIndex) : Prop where
  same : SameTimelines g g'
  storeIndex : g'.storeIndex = g.storeIndex
  load : LoadHolds g' s
  others : ∀ s', s' ≠ s → g'.loadInfo s' = g.loadInfo s'

theorem wp_updateStoreLoad_reloaded (clock : Nat → Int) (s : String) (g : GlobalIndex) :
    wp (updateStoreLoad clock s) (fun _ g' => Reloaded g s g') (fun _ _ => False) g := by
  simp only [updateStoreLoad,wp_bind,wp_get,wp_readTime,wp_modify]
  refine ⟨⟨rfl,rfl,rfl⟩,rfl,?_,fun s' hs => Function.update_of_ne hs _ _⟩
  simp only [LoadHolds,GlobalIndex.storeOf,GlobalIndex.advance_storeIndex,Function.update_self]
  cases g.storeIndex s with
  | none => exact ⟨rfl,rfl⟩
  | some blocks => simp [GlobalIndex.sizeOf,Function.comp_def]

end Loads

section Balance
variable {g g' : GlobalIndex} {location : TimelineLocation}

theorem Balanced.congr (hb : Balanced g location) (hentries : ∀ e ∈ location.blocks,
    g'.entries e = g.entries e) :
    Balanced g' location := by
  refine ⟨hb.counted,?_,fun s => ?_⟩
  · rw [hb.total,GlobalIndex.sizeOf,GlobalIndex.sizeOf,List.map_congr_left]
    intro e he
    rw [hentries e he]
  · rw [hb.storeMap]
    refine List.filter_congr fun e he => ?_
    rw [hentries e he]

theorem Balanced.add (hb : Balanced g location) {e : Nat} {index : GlobalStoreIndex}
    (hstore : (g.entries e).storeID = index.storeID) (hsize : (g.entries e).size = index.size)
    (lastUpdate : Int) : Balanced g (location.add e index lastUpdate) := by
  refine ⟨?_,?_,fun s => ?_⟩
  · simp [TimelineLocation.add,hb.counted]
  · simp [TimelineLocation.add,hb.total,GlobalIndex.sizeOf,int64_add,hsize]
  · by_cases hs : s = index.storeID
    · subst hs
      simp [TimelineLocation.add,hb.storeMap,hstore]
    · simp [TimelineLocation.add,hb.storeMap,hstore,hs,Ne.symm hs]

/-- The block that is found by its ID is the one that goes, from both lists. -/
theorem Balanced.remove (hb : Balanced g location) (honce : location.blocks.Nodup)
    {e : Nat} {blockID : String}
    (hfind : location.blocks.find? (fun e => (g.entries e).blockID = blockID) = some e)
    (lastUpdate : Int) :
    Balanced g (location.remove g blockID (g.entries e) lastUpdate) ∧
      (location.remove g blockID (g.entries e) lastUpdate).blocks = location.blocks.erase e := by
  have hmem := List.mem_of_find?_eq_some hfind
  have hblocks := eraseP_eq_erase hfind
  refine ⟨⟨?_,?_,fun s => ?_⟩,hblocks⟩
  · have hpos : 0 < location.blocks.length := List.length_pos_of_mem hmem
    simp only [TimelineLocation.remove,hb.counted,hblocks,List.length_erase_of_mem hmem]
    omega
  · have hsum := List.sum_map_erase (fun e => (g.entries e).size) hmem
    simp only [TimelineLocation.remove,hb.total,hblocks,GlobalIndex.sizeOf,int64_sub,← hsum]
    congr 1
    omega
  · simp only [TimelineLocation.remove,hblocks]
    by_cases hs : s = (g.entries e).storeID
    · subst hs
      rw [Function.update_self,hb.storeMap,eraseP_eq_erase (x := e),honce.erase_eq_filter,
        (honce.filter _).erase_eq_filter,List.filter_comm]
      exact find?_filter_of hfind (by simp)
    · rw [Function.update_of_ne hs,hb.storeMap,honce.erase_eq_filter,List.filter_filter]
      refine List.filter_congr fun b _ => ?_
      by_cases hbe : b = e
      · subst hbe
        simp [Ne.symm hs]
      · simp [hbe]

end Balance

section Stores
variable {clock : Nat → Int} {g g' : GlobalIndex} {s : String}

theorem LoadHolds.congr (hl : LoadHolds g s) (hload : g'.loadInfo s = g.loadInfo s)
    (hstore : g'.storeIndex s = g.storeIndex s)
    (hsize : ∀ b ∈ g.storeOf s, (g'.entries b.2).size = (g.entries b.2).size) : LoadHolds g' s := by
  have hof : g'.storeOf s = g.storeOf s := by rw [GlobalIndex.storeOf,hstore,GlobalIndex.storeOf]
  have hsum : g'.sizeOf ((g.storeOf s).map Prod.snd) = g.sizeOf ((g.storeOf s).map Prod.snd) := by
    rw [GlobalIndex.sizeOf,GlobalIndex.sizeOf,List.map_map,List.map_map,List.map_congr_left]
    exact hsize
  simp only [LoadHolds,hload,hof,hsum] at hl ⊢
  exact hl

theorem StoreAgrees.congr (hs : StoreAgrees clock g s) (hload : g'.loadInfo s = g.loadInfo s)
    (hstore : g'.storeIndex s = g.storeIndex s)
    (hblocks : ∀ k e, e ∈ g'.blocksOf k ∧ (g'.entries e).storeID = s ↔
      e ∈ g.blocksOf k ∧ (g.entries e).storeID = s)
    (hentries : ∀ k e, e ∈ g.blocksOf k → (g.entries e).storeID = s →
      (g'.entries e).blockID = (g.entries e).blockID ∧ (g'.entries e).size = (g.entries e).size) :
    StoreAgrees clock g' s := by
  have hof : g'.storeOf s = g.storeOf s := by rw [GlobalIndex.storeOf,hstore,GlobalIndex.storeOf]
  refine ⟨by rw [hof]; exact hs.once,fun key e => ?_,(wp_getStoreLoad_iff s).mpr ?_⟩
  · rw [hof,hs.holds]
    refine exists_congr fun k => ?_
    rw [← and_assoc,← and_assoc,hblocks]
    refine and_congr_right fun hin => ?_
    rw [(hentries k e hin.1 hin.2).1]
  · refine ((wp_getStoreLoad_iff s).mp hs.load).congr hload hstore fun b hb => ?_
    obtain ⟨k,hin,hon,-⟩ := (hs.holds b.1 b.2).mp hb
    exact (hentries k b.2 hin hon).2

theorem StoreAgrees.eq_of_key (hs : StoreAgrees clock g s) {key : String} {e e' : Nat}
    (he : (key,e) ∈ g.storeOf s) (he' : (key,e') ∈ g.storeOf s) : e = e' :=
  congrArg Prod.snd (List.inj_on_of_nodup_map hs.once he he' rfl)

end Stores

section Added
variable {clock : Nat → Int} {g g' : GlobalIndex}

structure Added (g : GlobalIndex) (index : GlobalStoreIndex) (g' : GlobalIndex) : Prop where
  allocated : g'.allocated = g.allocated+1
  entry : ∃ updatedAt, g'.entries g.allocated = { index with updatedAt := updatedAt }
  entries : ∀ e, e ≠ g.allocated → g'.entries e = g.entries e
  location : ∃ location lastUpdate, g'.timelineIndex index.timelineKey =
      some (location.add g.allocated index lastUpdate) ∧
    (g.timelineIndex index.timelineKey = some location ∨
      g.timelineIndex index.timelineKey = none ∧
        ∃ t, location = ⟨index.timelineKey,[],fun _ => [],0,0,t⟩)
  locations : ∀ k, k ≠ index.timelineKey → g'.timelineIndex k = g.timelineIndex k
  store : g'.storeOf index.storeID =
    assign (index.timelineKey ++ ":" ++ index.blockID) g.allocated (g.storeOf index.storeID)
  load : LoadHolds g' index.storeID
  stores : ∀ s, s ≠ index.storeID →
    g'.storeIndex s = g.storeIndex s ∧ g'.loadInfo s = g.loadInfo s

theorem wp_findLocation_found (clock : Nat → Int) (k : String) (g : GlobalIndex) :
    wp (findLocation clock k)
      (fun location g' =>
        (SameTimelines g g' ∧ g'.storeIndex = g.storeIndex ∧ g'.loadInfo = g.loadInfo) ∧
        (g.timelineIndex k = some location ∨
          g.timelineIndex k = none ∧ ∃ t, location = ⟨k,[],fun _ => [],0,0,t⟩))
      (fun _ _ => False) g := by
  simp only [findLocation,wp_bind,wp_get]
  cases hg : g.timelineIndex k with
  | some location => exact ⟨⟨SameTimelines.refl g,rfl,rfl⟩,Or.inl rfl⟩
  | none => exact ⟨⟨⟨rfl,rfl,rfl⟩,rfl,rfl⟩,Or.inr ⟨rfl,_,rfl⟩⟩

theorem wp_addIndex_added (clock : Nat → Int) (index : GlobalStoreIndex) (g : GlobalIndex) :
    wp (addIndex clock index) (fun _ g' => Added g index g') (fun _ _ => False) g := by
  simp only [addIndex,wp_bind,wp_readTime,wp_newEntry]
  refine wp_mono (wp_findLocation_found clock _ _) ?_ (fun _ _ h => h)
  rintro location g₁ ⟨⟨hsame,hstore,hload⟩,hfound⟩
  simp only [wp_modify,putStoreIndex]
  refine wp_mono (wp_updateStoreLoad_reloaded clock _ _) ?_ (fun _ _ h => h)
  intro _ g' hr
  have hentries :
      g'.entries = Function.update g.entries g.allocated { index with updatedAt := clock g.tick } :=
    hr.same.entries.trans hsame.entries
  refine ⟨hr.same.allocated.trans hsame.allocated,⟨clock g.tick,?_⟩,fun e he => ?_,
    ⟨location,clock g₁.tick,?_,hfound⟩,fun k hk => ?_,?_,hr.load,fun s hs => ⟨?_,?_⟩⟩
  · rw [hentries,Function.update_self]
  · rw [hentries,Function.update_of_ne he]
  · rw [hr.same.timelineIndex]
    exact Function.update_self ..
  · rw [hr.same.timelineIndex]
    exact (Function.update_of_ne hk _ _).trans (congrFun hsame.timelineIndex k)
  · rw [GlobalIndex.storeOf,hr.storeIndex]
    simp [GlobalIndex.storeOf,hstore]
  · rw [hr.storeIndex]
    exact (Function.update_of_ne hs _ _).trans (congrFun hstore s)
  · rw [hr.others s hs]
    exact congrFun hload s

theorem final_addIndex (clock : Nat → Int) (index : GlobalStoreIndex) (g : GlobalIndex) :
    Added g index (final (addIndex clock index) g) :=
  final_of_wp (wp_mono (wp_addIndex_added clock index g) (fun _ _ h => h) (fun _ _ h => h.elim))

variable {index : GlobalStoreIndex}

theorem Added.blocksOf_self (ha : Added g index g') :
    g'.blocksOf index.timelineKey = g.blocksOf index.timelineKey ++ [g.allocated] := by
  obtain ⟨location,t,hafter,hbefore | ⟨hbefore,t',rfl⟩⟩ := ha.location
  · simp [GlobalIndex.blocksOf,hafter,hbefore,TimelineLocation.add]
  · simp [GlobalIndex.blocksOf,hafter,hbefore,TimelineLocation.add]

theorem Added.blocksOf_other (ha : Added g index g') {k : String} (hk : k ≠ index.timelineKey) :
    g'.blocksOf k = g.blocksOf k := by
  simp only [GlobalIndex.blocksOf,ha.locations k hk]

theorem Added.mem_blocksOf (ha : Added g index g') {k : String} {e : Nat} :
    e ∈ g'.blocksOf k ↔ e ∈ g.blocksOf k ∨ k = index.timelineKey ∧ e = g.allocated := by
  by_cases hk : k = index.timelineKey
  · subst hk
    simp [ha.blocksOf_self]
  · simp [ha.blocksOf_other hk,hk]

def Unnamed (g : GlobalIndex) (key : String) : Prop :=
  ∀ k, ∀ e ∈ g.blocksOf k, k ++ ":" ++ (g.entries e).blockID ≠ key

theorem mem_assign {key key' : String} {e e' : Nat} {blocks : List (String × Nat)} :
    (key',e') ∈ assign key e blocks ↔ (key',e') ∈ blocks ∧ key' ≠ key ∨ key' = key ∧ e' = e := by
  simp [assign]

theorem assign_once {key : String} {e : Nat} {blocks : List (String × Nat)}
    (h : (blocks.map Prod.fst).Nodup) : ((assign key e blocks).map Prod.fst).Nodup := by
  rw [assign,List.map_append,List.nodup_append]
  refine ⟨h.sublist (List.filter_sublist.map _),by simp,?_⟩
  rintro a ha b hb rfl
  simp at ha hb
  exact ha.2 hb

theorem Added.old_entry (ha : Added g index g') (hc : Coherent clock g) {k : String} {e : Nat}
    (he : e ∈ g.blocksOf k) : g'.entries e = g.entries e :=
  ha.entries e (Nat.ne_of_lt (hc.pointers k e he))

theorem Added.timelines (ha : Added g index g') (hc : Coherent clock g) {k : String}
    {location : TimelineLocation} (hk : g'.timelineIndex k = some location) :
    Balanced g' location ∧ location.blocks ≠ [] := by
  obtain ⟨t,hnew⟩ := ha.entry
  by_cases hkey : k = index.timelineKey
  · subst hkey
    obtain ⟨location',t',hafter,hbefore⟩ := ha.location
    cases hk.symm.trans hafter
    have hbalanced : Balanced g' location' := by
      rcases hbefore with hbefore | ⟨-,t,rfl⟩
      · refine (hc.timelines _ _ hbefore).1.congr fun e he =>
          ha.old_entry hc (k := index.timelineKey) ?_
        simpa [GlobalIndex.blocksOf,hbefore] using he
      · exact ⟨rfl,rfl,fun _ => rfl⟩
    refine ⟨hbalanced.add (by rw [hnew]) (by rw [hnew]) t',?_⟩
    simp [TimelineLocation.add]
  · rw [ha.locations k hkey] at hk
    have hblocks : g.blocksOf k = location.blocks := by simp only [GlobalIndex.blocksOf,hk]
    obtain ⟨hb,hne⟩ := hc.timelines k location hk
    exact ⟨hb.congr fun e he => ha.old_entry hc (hblocks ▸ he),hne⟩

theorem Added.store_agrees (ha : Added g index g') (hc : Coherent clock g)
    (hname : Unnamed g (index.timelineKey ++ ":" ++ index.blockID)) :
    StoreAgrees clock g' index.storeID := by
  have hstore := hc.stores index.storeID
  obtain ⟨t,hnew⟩ := ha.entry
  refine ⟨by rw [ha.store]; exact assign_once hstore.once,
    fun key e => ?_,(wp_getStoreLoad_iff _).mpr ha.load⟩
  rw [ha.store,mem_assign,hstore.holds]
  constructor
  · rintro (⟨⟨k,hin,hon,hkey⟩,-⟩ | ⟨rfl,rfl⟩)
    · refine ⟨k,ha.mem_blocksOf.mpr (Or.inl hin),?_⟩
      rw [ha.old_entry hc hin]
      exact ⟨hon,hkey⟩
    · refine ⟨index.timelineKey,ha.mem_blocksOf.mpr (Or.inr ⟨rfl,rfl⟩),?_⟩
      rw [hnew]
      exact ⟨rfl,rfl⟩
  · rintro ⟨k,hin,hon,hkey⟩
    rcases ha.mem_blocksOf.mp hin with hin | ⟨rfl,rfl⟩
    · rw [ha.old_entry hc hin] at hon hkey
      refine Or.inl ⟨⟨k,hin,hon,hkey⟩,?_⟩
      rw [hkey]
      exact hname k e hin
    · rw [hnew] at hkey
      exact Or.inr ⟨hkey,rfl⟩

theorem Added.other_store_agrees (ha : Added g index g') (hc : Coherent clock g) {s : String}
    (hs : s ≠ index.storeID) : StoreAgrees clock g' s := by
  obtain ⟨t,hnew⟩ := ha.entry
  obtain ⟨hstore,hload⟩ := ha.stores s hs
  refine (hc.stores s).congr hload hstore (fun k e => ?_)
    fun k e hin _ => by rw [ha.old_entry hc hin]; simp
  constructor
  · rintro ⟨hin,hon⟩
    rcases ha.mem_blocksOf.mp hin with hin | ⟨rfl,rfl⟩
    · rw [ha.old_entry hc hin] at hon
      exact ⟨hin,hon⟩
    · rw [hnew] at hon
      exact (hs hon.symm).elim
  · rintro ⟨hin,hon⟩
    refine ⟨ha.mem_blocksOf.mpr (Or.inl hin),?_⟩
    rw [ha.old_entry hc hin]
    exact hon

theorem Added.coherent (ha : Added g index g') (hc : Coherent clock g)
    (hname : Unnamed g (index.timelineKey ++ ":" ++ index.blockID)) : Coherent clock g' := by
  refine ⟨fun k e he => ?_,fun k e he => ?_,fun k => ?_,fun k location hk =>
    ha.timelines hc hk,fun s => ?_⟩
  · rw [ha.allocated]
    rcases ha.mem_blocksOf.mp he with hin | ⟨-,rfl⟩
    · exact Nat.lt_succ_of_lt (hc.pointers k e hin)
    · exact Nat.lt_succ_self _
  · rcases ha.mem_blocksOf.mp he with hin | ⟨rfl,rfl⟩
    · rw [ha.old_entry hc hin]
      exact hc.owned k e hin
    · obtain ⟨t,hnew⟩ := ha.entry
      rw [hnew]
  · by_cases hk : k = index.timelineKey
    · subst hk
      rw [ha.blocksOf_self]
      refine List.Nodup.append (hc.once _) (by simp) fun e he hin => ?_
      rw [List.mem_singleton.mp hin] at he
      exact Nat.lt_irrefl _ (hc.pointers _ _ he)
    · rw [ha.blocksOf_other hk]
      exact hc.once k
  · by_cases hs : s = index.storeID
    · subst hs
      exact ha.store_agrees hc hname
    · exact ha.other_store_agrees hc hs

end Added

section Removed
variable {clock : Nat → Int} {g g' : GlobalIndex} {k blockID : String} {e : Nat}

structure Removed (g : GlobalIndex) (k blockID : String) (e : Nat) (g' : GlobalIndex) : Prop where
  allocated : g'.allocated = g.allocated
  entries : g'.entries = g.entries
  location : ∃ location lastUpdate, g.timelineIndex k = some location ∧
    location.blocks.find? (fun e => (g.entries e).blockID = blockID) = some e ∧
    g'.timelineIndex k =
      if (location.remove g blockID (g.entries e) lastUpdate).blockCount = 0 then none
      else some (location.remove g blockID (g.entries e) lastUpdate)
  locations : ∀ k', k' ≠ k → g'.timelineIndex k' = g.timelineIndex k'
  store : g'.storeOf (g.entries e).storeID = delete (k ++ ":" ++ blockID)
    (g.storeOf (g.entries e).storeID)
  load : LoadHolds g' (g.entries e).storeID
  stores : ∀ s, s ≠ (g.entries e).storeID →
    g'.storeIndex s = g.storeIndex s ∧ g'.loadInfo s = g.loadInfo s

theorem storeOf_deleteStoreIndex (s key : String) (g : GlobalIndex) :
    wp (deleteStoreIndex s key) (fun _ g' => SameTimelines g g' ∧ g'.loadInfo = g.loadInfo ∧
      g'.storeOf s = delete key (g.storeOf s) ∧ ∀ s', s' ≠ s → g'.storeIndex s' = g.storeIndex s')
      (fun _ _ => False) g := by
  simp only [deleteStoreIndex,wp_modify,GlobalIndex.storeOf]
  cases hstore : g.storeIndex s with
  | none =>
    refine ⟨SameTimelines.refl g,rfl,?_,fun _ _ => rfl⟩
    rw [hstore]
    rfl
  | some blocks =>
    refine ⟨⟨rfl,rfl,rfl⟩,rfl,?_,fun s' hs => Function.update_of_ne hs _ _⟩
    simp

theorem wp_removeIndex_removed (clock : Nat → Int) (k blockID : String) (g : GlobalIndex) :
    wp (removeIndex clock k blockID) (fun _ g' => ∃ e, Removed g k blockID e g')
      (fun _ g' => g' = g ∧ ∀ e ∈ g.blocksOf k, (g.entries e).blockID ≠ blockID) g := by
  simp only [removeIndex,wp_bind,wp_get]
  cases hk : g.timelineIndex k with
  | none => exact ⟨rfl,by simp [GlobalIndex.blocksOf,hk]⟩
  | some location =>
    simp only
    cases hfind : location.blocks.find? fun e => (g.entries e).blockID = blockID with
    | none => exact ⟨rfl,by simpa [GlobalIndex.blocksOf,hk] using List.find?_eq_none.mp hfind⟩
    | some e =>
      simp only [wp_bind,wp_readTime,wp_modify]
      refine wp_mono (storeOf_deleteStoreIndex _ _ _) ?_ (fun _ _ h => h.elim)
      rintro _ g₁ ⟨hsame,hload,hstore,hothers⟩
      refine wp_mono (wp_updateStoreLoad_reloaded clock _ _) ?_ (fun _ _ h => h.elim)
      intro _ g₂ hr
      have htimelines : g₂.timelineIndex = Function.update g.timelineIndex k
          (some (location.remove g blockID (g.entries e) (clock g.tick))) :=
        hr.same.timelineIndex.trans hsame.timelineIndex
      have hstores : ∀ s, s ≠ (g.entries e).storeID →
          g₂.storeIndex s = g.storeIndex s ∧ g₂.loadInfo s = g.loadInfo s := by
        intro s hs
        rw [hr.storeIndex,hr.others s hs,hload,hothers s hs]
        exact ⟨rfl,rfl⟩
      have hof : g₂.storeOf (g.entries e).storeID =
          delete (k ++ ":" ++ blockID) (g.storeOf (g.entries e).storeID) := by
        rw [GlobalIndex.storeOf,hr.storeIndex]
        exact hstore
      have hentries := hr.same.entries.trans hsame.entries
      have hallocated := hr.same.allocated.trans hsame.allocated
      simp only [wp_ite,wp_modify,wp_pure]
      split
      · rename_i hzero
        refine ⟨e,hallocated,hentries,⟨location,clock g.tick,hk,hfind,?_⟩,
          fun k' hk' => ?_,hof,hr.load,hstores⟩
        · rw [if_pos hzero]
          exact Function.update_self ..
        · rw [GlobalIndex.setLocation_timelineIndex,Function.update_of_ne hk',htimelines,
            Function.update_of_ne hk']
      · rename_i hzero
        refine ⟨e,hallocated,hentries,⟨location,clock g.tick,hk,hfind,?_⟩,
          fun k' hk' => ?_,hof,hr.load,hstores⟩
        · rw [if_neg hzero,htimelines,Function.update_self]
        · rw [htimelines,Function.update_of_ne hk']

theorem mem_delete {key key' : String} {e : Nat} {blocks : List (String × Nat)} :
    (key',e) ∈ delete key blocks ↔ (key',e) ∈ blocks ∧ key' ≠ key := by
  simp [delete]

theorem Removed.left (hr : Removed g k blockID e g') (hc : Coherent clock g) :
    e ∈ g.blocksOf k ∧ (g.entries e).blockID = blockID ∧ g'.blocksOf k = (g.blocksOf k).erase e ∧
      ∀ location, g'.timelineIndex k = some location → Balanced g location ∧
        location.blocks ≠ [] := by
  obtain ⟨location,t,hbefore,hfind,hafter⟩ := hr.location
  have hblocks : g.blocksOf k = location.blocks := by simp only [GlobalIndex.blocksOf,hbefore]
  obtain ⟨hb,herase⟩ := (hc.timelines k location hbefore).1.remove (hblocks ▸ hc.once k) hfind t
  refine ⟨hblocks ▸ List.mem_of_find?_eq_some hfind,by simpa using List.find?_some hfind,?_,?_⟩
  · rw [hblocks,← herase]
    simp only [GlobalIndex.blocksOf,hafter]
    split
    · rename_i heq
      split at heq
      · rename_i hzero
        rw [hb.counted] at hzero
        exact (List.length_eq_zero_iff.mp (by omega)).symm
      · cases heq
    · rename_i location' heq
      split at heq
      · cases heq
      · cases heq
        rfl
  · intro location' heq
    rw [hafter] at heq
    split at heq
    · cases heq
    · rename_i hzero
      cases heq
      refine ⟨hb,fun hnil => hzero ?_⟩
      rw [hb.counted,hnil]
      rfl

theorem Removed.blocksOf_other (hr : Removed g k blockID e g') {k' : String} (hk : k' ≠ k) :
    g'.blocksOf k' = g.blocksOf k' := by
  simp only [GlobalIndex.blocksOf,hr.locations k' hk]

theorem Removed.mem_blocksOf (hr : Removed g k blockID e g') (hc : Coherent clock g)
    {k' : String} {e' : Nat} :
    e' ∈ g'.blocksOf k' ↔ e' ∈ g.blocksOf k' ∧ e' ≠ e := by
  obtain ⟨hin,-,hblocks,-⟩ := hr.left hc
  by_cases hk : k' = k
  · subst hk
    rw [hblocks,(hc.once k').mem_erase_iff]
    exact and_comm
  · rw [hr.blocksOf_other hk,iff_self_and]
    rintro hin' rfl
    exact hk ((hc.owned k' e' hin').symm.trans (hc.owned k e' hin))

theorem Removed.store_agrees (hr : Removed g k blockID e g') (hc : Coherent clock g) :
    StoreAgrees clock g' (g.entries e).storeID := by
  obtain ⟨hin,hid,-,-⟩ := hr.left hc
  have hstore := hc.stores (g.entries e).storeID
  refine ⟨?_,fun key e' => ?_,(wp_getStoreLoad_iff _).mpr hr.load⟩
  · rw [hr.store]
    exact hstore.once.sublist (List.filter_sublist.map _)
  · rw [hr.store,mem_delete,hr.entries]
    simp only [hr.mem_blocksOf hc]
    constructor
    · rintro ⟨hold,hkey⟩
      obtain ⟨k',hin',hon,rfl⟩ := (hstore.holds key e').mp hold
      refine ⟨k',⟨hin',?_⟩,hon,rfl⟩
      rintro rfl
      rw [hid,← hc.owned k' e' hin',hc.owned k e' hin] at hkey
      exact hkey rfl
    · rintro ⟨k',⟨hin',hne⟩,hon,rfl⟩
      have hold := (hstore.holds _ e').mpr ⟨k',hin',hon,rfl⟩
      refine ⟨hold,fun hkey => hne ?_⟩
      -- the store has one block under this key
      refine hstore.eq_of_key hold ((hstore.holds _ e).mpr ⟨k,hin,rfl,?_⟩)
      rw [hkey,hid]

theorem Removed.other_store_agrees (hr : Removed g k blockID e g')
    (hc : Coherent clock g) {s : String}
    (hs : s ≠ (g.entries e).storeID) : StoreAgrees clock g' s := by
  obtain ⟨hstore,hload⟩ := hr.stores s hs
  refine (hc.stores s).congr hload hstore (fun k' e' => ?_) fun _ _ _ _ => by rw [hr.entries]; simp
  rw [hr.mem_blocksOf hc,hr.entries]
  constructor
  · exact fun h => ⟨h.1.1,h.2⟩
  · rintro ⟨hin,hon⟩
    refine ⟨⟨hin,?_⟩,hon⟩
    rintro rfl
    exact hs hon.symm

theorem Removed.coherent (hr : Removed g k blockID e g') (hc : Coherent clock g) :
    Coherent clock g' := by
  obtain ⟨-,-,hblocks,hleft⟩ := hr.left hc
  have hsame : ∀ location, Balanced g location → Balanced g' location :=
    fun location hb => hb.congr fun _ _ => by rw [hr.entries]
  refine ⟨fun k' e' he' => ?_,fun k' e' he' => ?_,fun k' => ?_,
    fun k' location hk' => ?_,fun s => ?_⟩
  · rw [hr.allocated]
    exact hc.pointers k' e' ((hr.mem_blocksOf hc).mp he').1
  · rw [hr.entries]
    exact hc.owned k' e' ((hr.mem_blocksOf hc).mp he').1
  · by_cases hk' : k' = k
    · subst hk'
      rw [hblocks]
      exact (hc.once k').erase e
    · rw [hr.blocksOf_other hk']
      exact hc.once k'
  · by_cases hkk : k' = k
    · subst hkk
      exact ⟨hsame _ (hleft location hk').1,(hleft location hk').2⟩
    · rw [hr.locations k' hkk] at hk'
      exact ⟨hsame _ (hc.timelines k' location hk').1,(hc.timelines k' location hk').2⟩
  · by_cases hs : s = (g.entries e).storeID
    · subst hs
      exact hr.store_agrees hc
    · exact hr.other_store_agrees hc hs

end Removed

section Runs
variable (clock : Nat → Int)

/-- Operations one after the other; one that fails is followed by the next. -/
def runIndex (ops : List IndexOp) (g : GlobalIndex) : GlobalIndex :=
  ops.foldl (fun g op => final (op.exec clock) g) g

def GlobalIndex.Indexed (g : GlobalIndex) (k blockID : String) : Prop :=
  ∃ e ∈ g.blocksOf k, (g.entries e).blockID = blockID

/-- No two indexed pairs give the same key in the index of a store. -/
def DistinctNames (g : GlobalIndex) : Prop :=
  ∀ k b k' b', g.Indexed k b → g.Indexed k' b' → k ++ ":" ++ b = k' ++ ":" ++ b' → k = k' ∧ b = b'

theorem coherent_new : Coherent clock newGlobalIndex where
  pointers _ _ he := by cases he
  owned _ _ he := by cases he
  once _ := List.nodup_nil
  timelines _ _ h := by cases h
  stores s := by
    refine ⟨List.nodup_nil,fun key e => ⟨nofun,?_⟩,(wp_getStoreLoad_iff s).mpr rfl⟩
    rintro ⟨k,he,-⟩
    cases he

variable {clock} {g g' : GlobalIndex}

/-- A pair that was not indexed has a name that was not in use, if names are distinct
when it is. -/
theorem Added.unnamed {index : GlobalStoreIndex} (ha : Added g index g') (hc : Coherent clock g)
    (hnew : ¬ g.Indexed index.timelineKey index.blockID) (hdistinct : DistinctNames g') :
    Unnamed g (index.timelineKey ++ ":" ++ index.blockID) := by
  intro k e he hname
  obtain ⟨t,hentry⟩ := ha.entry
  have hold := ha.old_entry hc he
  obtain ⟨rfl,hid⟩ := hdistinct k (g.entries e).blockID index.timelineKey index.blockID
    ⟨e,ha.mem_blocksOf.mpr (Or.inl he),by rw [hold]⟩
    ⟨g.allocated,ha.mem_blocksOf.mpr (Or.inr ⟨rfl,rfl⟩),by rw [hentry]⟩ hname
  exact hnew ⟨e,he,hid⟩

/-- In every run of adds and removes in which an add names a pair that is not indexed and
the indexed pairs have distinct names, the views agree after every operation. -/
theorem coherent_over_adds_and_removes (clock : Nat → Int) (ops : List IndexOp)
    (honly : ∀ op ∈ ops, (∃ index, op = .addIndex index) ∨ ∃ k blockID, op = .removeIndex k blockID)
    (hnew : ∀ before index after, ops = before ++ .addIndex index :: after →
      ¬ (runIndex clock before newGlobalIndex).Indexed index.timelineKey index.blockID)
    (hdistinct : ∀ before after, ops = before ++ after →
      DistinctNames (runIndex clock before newGlobalIndex)) :
    ∀ before after, ops = before ++ after →
      Coherent clock (runIndex clock before newGlobalIndex) := by
  refine beginnings_of (C := fun _ op => op ∈ ops) (coherent_new clock)
    (fun before op after hsplit hc hin => ?_)
    fun before op after hsplit => by rw [hsplit]; simp
  have hstep : runIndex clock (before ++ [op]) newGlobalIndex =
      final (op.exec clock) (runIndex clock before newGlobalIndex) := by
    rw [runIndex,List.foldl_append]
    rfl
  have hnext := hdistinct (before ++ [op]) after (by rw [hsplit,List.append_assoc]; rfl)
  rw [hstep] at hnext ⊢
  rcases honly op hin with ⟨index,rfl⟩ | ⟨k,blockID,rfl⟩
  · have ha := final_addIndex clock index (runIndex clock before newGlobalIndex)
    exact ha.coherent hc (ha.unnamed hc (hnew before index after hsplit) hnext)
  · refine final_of_wp (wp_mono (wp_removeIndex_removed clock k blockID _) ?_ ?_)
    · rintro _ g' ⟨e,hr⟩
      exact hr.coherent hc
    · rintro _ g' ⟨rfl,-⟩
      exact hc

end Runs

def firstBlock : GlobalStoreIndex := ⟨"user:1001","store-a","block-1",0,512,0,0⟩

/-- An index with one block. -/
def oneBlock : GlobalIndex := final (addIndex (fun _ => 0) firstBlock) newGlobalIndex

theorem oneBlock_coherent : Coherent (fun _ => 0) oneBlock := by
  refine (final_addIndex _ firstBlock newGlobalIndex).coherent (coherent_new _) fun k e he => ?_
  cases he

theorem oneBlock_entry {k : String} {e : Nat} (he : e ∈ oneBlock.blocksOf k) : k = "user:1001" ∧
    (oneBlock.entries e).storeID = "store-a" ∧ (oneBlock.entries e).blockID = "block-1" := by
  obtain ⟨t,hentry⟩ := (final_addIndex (fun _ => 0) firstBlock newGlobalIndex).entry
  rcases (final_addIndex (fun _ => 0) firstBlock newGlobalIndex).mem_blocksOf.mp he
    with hnone | ⟨rfl,rfl⟩
  · cases hnone
  · rw [oneBlock,hentry]
    exact ⟨rfl,rfl,rfl⟩

/-- A block comes and goes. -/
def comesAndGoes : List IndexOp := [.addIndex firstBlock,.removeIndex "user:1001" "block-1"]

theorem coherent_over_adds_and_removes_comes_and_goes :
    Coherent (fun _ => 0) (runIndex (fun _ => 0) comesAndGoes newGlobalIndex) := by
  have hnone : ∀ k b, ¬ newGlobalIndex.Indexed k b := by
    rintro k b ⟨e,he,-⟩
    cases he
  have hgone : ∀ k b, (final (removeIndex (fun _ => 0) "user:1001" "block-1")
    oneBlock).Indexed k b →
      oneBlock.Indexed k b := by
    intro k b
    refine final_of_wp (P := fun g : GlobalIndex => g.Indexed k b → oneBlock.Indexed k b)
      (wp_mono (wp_removeIndex_removed _ _ _ _) ?_ ?_)
    · rintro _ g ⟨e',hr⟩ ⟨e,he,hid⟩
      exact ⟨e,((hr.mem_blocksOf oneBlock_coherent).mp he).1,by rw [← hr.entries]; exact hid⟩
    · rintro _ g ⟨rfl,-⟩
      exact id
  have hsingle : ∀ g : GlobalIndex, (∀ k b, g.Indexed k b → oneBlock.Indexed k b) →
      DistinctNames g := by
    intro g hg k b k' b' hk hk' _
    obtain ⟨e,he,rfl⟩ := hg k b hk
    obtain ⟨e',he',rfl⟩ := hg k' b' hk'
    rw [(oneBlock_entry he).1,(oneBlock_entry he').1,(oneBlock_entry he).2.2,
      (oneBlock_entry he').2.2]
    exact ⟨rfl,rfl⟩
  refine coherent_over_adds_and_removes (fun _ => 0) comesAndGoes
    (by simp [comesAndGoes]) ?_ ?_ comesAndGoes []
    (List.append_nil _).symm
  · rintro (_ | ⟨op,before⟩) index after hsplit
    · exact hnone _ _
    · simp [comesAndGoes,List.cons_eq_append_iff] at hsplit
  · rintro (_ | ⟨op,_ | ⟨op',before⟩⟩) after hsplit
    · exact fun k b _ _ hk => (hnone k b hk).elim
    · obtain ⟨rfl,-⟩ := List.cons.inj hsplit
      exact hsingle oneBlock fun _ _ h => h
    · obtain ⟨rfl,hrest⟩ := List.cons.inj hsplit
      obtain ⟨rfl,hend⟩ := List.cons.inj hrest
      obtain ⟨rfl,-⟩ := List.append_eq_nil_iff.mp hend.symm
      exact hsingle _ hgone

end Imy.Index
