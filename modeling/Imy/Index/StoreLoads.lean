import Mathlib.Data.Set.Basic
import Imy.Index.Coherence
set_option autoImplicit false

namespace Imy.Index
open Imy.Lib

def timelinesIn (blocks : List (String × Nat)) : List String :=
  (blocks.filterMap fun b => (splitTimelineKey b.1).head?).dedup

def loadOf (g : GlobalIndex) (s : String) (lastUpdate : Int) : StoreLoadInfo where
  storeID := s
  timelineCount := (timelinesIn (g.storeOf s)).length
  blockCount := (g.storeOf s).length
  totalSize := int64 ((g.storeOf s).map fun b => (g.entries b.2).size).sum
  lastUpdate := lastUpdate

def LoadCurrent (g : GlobalIndex) (s : String) : Prop :=
  match g.loadInfo s with
  | none => g.storeOf s = []
  | some load => load = loadOf g s load.lastUpdate

structure LoadsBut (S : Set String) (g : GlobalIndex) : Prop where
  current : ∀ s, s ∉ S → LoadCurrent g s
  pointers : ∀ s, ∀ b ∈ g.storeOf s, b.2 < g.allocated

section Steps
variable {clock : Nat → Int} {g g' : GlobalIndex} {S : Set String} {s : String}

theorem loadOf_congr (hstore : g'.storeOf s = g.storeOf s)
    (hsize : ∀ b ∈ g.storeOf s, (g'.entries b.2).size = (g.entries b.2).size) (t : Int) :
    loadOf g' s t = loadOf g s t := by
  simp only [loadOf,hstore]
  rw [List.map_congr_left hsize]

theorem LoadCurrent.congr (h : LoadCurrent g s) (hload : g'.loadInfo s = g.loadInfo s)
    (hstore : g'.storeOf s = g.storeOf s)
    (hsize : ∀ b ∈ g.storeOf s, (g'.entries b.2).size = (g.entries b.2).size) :
    LoadCurrent g' s := by
  unfold LoadCurrent at *
  rw [hload,hstore]
  split at h
  · exact h
  · rw [loadOf_congr hstore hsize]
    exact h

theorem LoadsBut.step (h : LoadsBut S g) (s : String) (hload : g'.loadInfo = g.loadInfo)
    (hstore : ∀ s', s' ≠ s → g'.storeOf s' = g.storeOf s')
    (hown : ∀ b ∈ g'.storeOf s, b.2 < g'.allocated) (hallocated : g.allocated ≤ g'.allocated)
    (hsize : ∀ e < g.allocated, (g'.entries e).size = (g.entries e).size) :
    LoadsBut (insert s S) g' := by
  refine ⟨fun s' hs' => ?_,fun s' b hb => ?_⟩
  · rw [Set.mem_insert_iff,not_or] at hs'
    exact (h.current s' hs'.2).congr (congrFun hload s') (hstore s' hs'.1)
      fun b hb => hsize b.2 (h.pointers s' b hb)
  · by_cases hs : s' = s
    · subst hs
      exact hown b hb
    · rw [hstore s' hs] at hb
      exact Nat.lt_of_lt_of_le (h.pointers s' b hb) hallocated

theorem LoadsBut.same (h : LoadsBut S g) (hload : g'.loadInfo = g.loadInfo)
    (hstore : g'.storeIndex = g.storeIndex) (hallocated : g.allocated ≤ g'.allocated)
    (hsize : ∀ e < g.allocated, (g'.entries e).size = (g.entries e).size) : LoadsBut S g' := by
  have hof : ∀ s, g'.storeOf s = g.storeOf s :=
    fun s => by rw [GlobalIndex.storeOf,hstore,GlobalIndex.storeOf]
  refine ⟨fun s hs => ?_,fun s b hb => ?_⟩
  · exact (h.current s hs).congr (congrFun hload s) (hof s) fun b hb =>
      hsize b.2 (h.pointers s b hb)
  · rw [hof] at hb
    exact Nat.lt_of_lt_of_le (h.pointers s b hb) hallocated

theorem LoadsBut.advance (h : LoadsBut S g) : LoadsBut S g.advance :=
  h.same rfl rfl (Nat.le_refl _) fun _ _ => rfl

theorem LoadsBut.setLocation (h : LoadsBut S g) (k : String) (location : Option TimelineLocation) :
    LoadsBut S (g.setLocation k location) :=
  h.same rfl rfl (Nat.le_refl _) fun _ _ => rfl

theorem LoadsBut.alloc (h : LoadsBut S g) (index : GlobalStoreIndex) :
    LoadsBut S (g.alloc index) := by
  refine h.same rfl rfl (Nat.le_succ _) fun e he => ?_
  rw [GlobalIndex.alloc_entries,Function.update_of_ne (Nat.ne_of_lt he)]

theorem LoadsBut.setEntry (h : LoadsBut S g) {e : Nat} {index : GlobalStoreIndex}
    (hsize : index.size = (g.entries e).size) : LoadsBut S (g.setEntry e index) := by
  refine h.same rfl rfl (Nat.le_refl _) fun e' _ => ?_
  by_cases he : e' = e
  · subst he
    rw [GlobalIndex.setEntry_entries,Function.update_self,hsize]
  · rw [GlobalIndex.setEntry_entries,Function.update_of_ne he]

theorem wp_findLocation_loads (h : LoadsBut S g) (k : String) :
    wp (findLocation clock k) (fun _ g' => LoadsBut S g' ∧ g'.allocated = g.allocated)
      (fun _ _ => False) g := by
  simp only [findLocation,wp_bind,wp_get]
  cases g.timelineIndex k with
  | some location => exact ⟨h,rfl⟩
  | none => exact ⟨h.advance,rfl⟩

theorem wp_putStoreIndex_loads (h : LoadsBut S g) (s key : String) {e : Nat}
    (he : e < g.allocated) :
    wp (putStoreIndex s key e)
      (fun _ g' => LoadsBut (insert s S) g' ∧ g'.allocated = g.allocated) (fun _ _ => False) g := by
  rw [putStoreIndex,wp_modify]
  refine ⟨h.step s rfl (fun s' hs => ?_) (fun b hb => ?_) (Nat.le_refl _) fun _ _ => rfl,rfl⟩
  · simp [GlobalIndex.storeOf,hs]
  · simp only [GlobalIndex.storeOf,GlobalIndex.setStore_storeIndex,Function.update_self,
      Option.getD_some] at hb
    rcases mem_assign.mp hb with ⟨hb,-⟩ | ⟨-,heq⟩
    · exact h.pointers s b hb
    · exact heq ▸ he

theorem wp_deleteStoreIndex_loads (h : LoadsBut S g) (s key : String) :
    wp (deleteStoreIndex s key) (fun _ g' => LoadsBut (insert s S) g' ∧ g'.allocated = g.allocated ∧
      g'.entries = g.entries) (fun _ _ => False) g := by
  refine wp_mono (storeOf_deleteStoreIndex s key g) ?_ (fun _ _ h => h)
  rintro _ g' ⟨hsame,hload,hstore,hothers⟩
  refine ⟨h.step s hload (fun s' hs => ?_) (fun b hb => ?_) hsame.allocated.ge fun e _ => ?_,
    hsame.allocated,hsame.entries⟩
  · rw [GlobalIndex.storeOf,hothers s' hs,GlobalIndex.storeOf]
  · rw [hstore] at hb
    rw [hsame.allocated]
    exact h.pointers s b (mem_delete.mp hb).1
  · rw [hsame.entries]

theorem wp_updateStoreLoad_loads (h : LoadsBut (insert s S) g) :
    wp (updateStoreLoad clock s) (fun _ g' => LoadsBut S g') (fun _ _ => False) g := by
  simp only [updateStoreLoad,wp_bind,wp_get,wp_readTime,wp_modify]
  refine ⟨fun s' hs' => ?_,h.pointers⟩
  by_cases hs : s' = s
  · subst hs
    simp only [LoadCurrent,Function.update_self,loadOf,GlobalIndex.storeOf,
      GlobalIndex.advance_storeIndex]
    cases g.storeIndex s' with
    | none => rfl
    | some blocks => rfl
  · refine (h.current s' ?_).congr ?_ rfl fun _ _ => rfl
    · rw [Set.mem_insert_iff]
      exact not_or.mpr ⟨hs,hs'⟩
    · exact Function.update_of_ne hs _ _

end Steps

section Operations
variable (clock : Nat → Int) {g : GlobalIndex}

theorem wp_addIndex_loads (h : LoadsBut ∅ g) (index : GlobalStoreIndex) :
    wp (addIndex clock index) (fun _ g' => LoadsBut ∅ g') (fun _ _ => False) g := by
  simp only [addIndex,wp_bind,wp_readTime,wp_newEntry]
  refine wp_mono (wp_findLocation_loads (h.advance.alloc _) _) ?_ (fun _ _ h => h)
  rintro location g₁ ⟨h₁,hallocated⟩
  simp only [wp_modify]
  refine wp_mono (wp_putStoreIndex_loads (h₁.advance.setLocation _ _) _ _ ?_) ?_ (fun _ _ h => h)
  · change g.allocated < g₁.allocated
    rw [hallocated]
    exact Nat.lt_succ_self _
  · exact fun _ _ h₂ => wp_updateStoreLoad_loads h₂.1

theorem wp_removeIndex_loads (h : LoadsBut ∅ g) (k blockID : String) :
    wp (removeIndex clock k blockID) (fun _ g' => LoadsBut ∅ g') (fun _ g' => LoadsBut ∅ g') g := by
  simp only [removeIndex,wp_bind,wp_get]
  cases g.timelineIndex k with
  | none => exact h
  | some location =>
    simp only
    cases location.blocks.find? fun e => (g.entries e).blockID = blockID with
    | none => exact h
    | some e =>
      simp only [wp_bind,wp_readTime,wp_modify]
      refine wp_mono (wp_deleteStoreIndex_loads (h.advance.setLocation _ _) _ _) ?_
        (fun _ _ h => h.elim)
      rintro _ g₁ ⟨h₁,-⟩
      refine wp_mono (wp_updateStoreLoad_loads h₁) ?_ (fun _ _ h => h.elim)
      intro _ g₂ h₂
      rw [wp_ite,wp_modify,wp_pure]
      split
      · exact h₂.setLocation _ _
      · exact h₂

theorem wp_updateIndex_loads (h : LoadsBut ∅ g) (index : GlobalStoreIndex) :
    wp (updateIndex clock index) (fun _ g' => LoadsBut ∅ g') (fun _ g' => LoadsBut ∅ g') g := by
  simp only [updateIndex,wp_bind,wp_readTime,wp_newEntry,wp_get]
  have h₁ := h.advance.alloc { index with updatedAt := clock g.tick }
  have hnew : g.allocated < (g.advance.alloc { index with updatedAt := clock g.tick }).allocated :=
    Nat.lt_succ_self _
  generalize g.advance.alloc { index with updatedAt := clock g.tick } = g₁ at h₁ hnew
  cases g₁.timelineIndex index.timelineKey with
  | none => exact h₁
  | some location =>
    simp only
    cases location.blocks.find? fun e => (g₁.entries e).blockID = index.blockID with
    | none => exact h₁
    | some e =>
      simp only [wp_bind,wp_readTime,wp_modify,wp_ite,wp_throw]
      have hlocated : LoadsBut ∅ (g₁.advance.setLocation index.timelineKey _) :=
        h₁.advance.setLocation _ (some { location with
          totalSize := int64 (location.totalSize-(g₁.entries e).size+index.size)
          lastUpdate := clock g₁.tick
          blocks := replaceFirst g₁ index.blockID g.allocated location.blocks
          storeMap := Function.update location.storeMap index.storeID
            (replaceFirst g₁ index.blockID g.allocated (location.storeMap index.storeID)) })
      split
      · exact hlocated
      · refine wp_mono (wp_putStoreIndex_loads hlocated _ _ hnew) ?_ (fun _ _ h => h.elim)
        exact fun _ _ h₂ => wp_mono (wp_updateStoreLoad_loads h₂.1) (fun _ _ h => h)
          (fun _ _ h => h.elim)

theorem wp_migrateOne_loads {fromStoreID toStoreID : String} (k : String)
    (h : LoadsBut {fromStoreID,toStoreID} g) {e : Nat} (he : e < g.allocated) :
    wp (migrateOne clock k fromStoreID toStoreID e)
      (fun _ g' => LoadsBut {fromStoreID,toStoreID} g' ∧ g'.allocated = g.allocated)
      (fun _ _ => False) g := by
  simp only [migrateOne,wp_bind,wp_get,wp_ite,wp_pure]
  split
  · refine wp_mono (wp_deleteStoreIndex_loads h _ _) ?_ (fun _ _ h => h)
    rintro _ g₁ ⟨h₁,hallocated,hentries⟩
    rw [Set.insert_eq_of_mem (by simp)] at h₁
    simp only [wp_readTime,wp_modify]
    have hset : LoadsBut {fromStoreID,toStoreID} (g₁.advance.setEntry e { g₁.entries e with
        storeID := toStoreID, updatedAt := clock g₁.tick }) := h₁.advance.setEntry rfl
    refine wp_mono (wp_putStoreIndex_loads hset _ _ (hallocated ▸ he)) ?_ (fun _ _ h => h)
    rintro _ g₂ ⟨h₂,hput⟩
    rw [Set.insert_eq_of_mem (by simp)] at h₂
    exact ⟨h₂,hput.trans hallocated⟩
  · exact ⟨h,trivial⟩

theorem wp_migrateTimeline_loads (hw : g.WellFormed) (h : LoadsBut ∅ g)
    (k fromStoreID toStoreID : String) :
    wp (migrateTimeline clock k fromStoreID toStoreID) (fun _ g' => LoadsBut ∅ g')
      (fun _ g' => LoadsBut ∅ g') g := by
  simp only [migrateTimeline,wp_bind,wp_get]
  cases hk : g.timelineIndex k with
  | none => exact h
  | some location =>
    simp only [wp_bind]
    have hstart : LoadsBut {fromStoreID,toStoreID} g :=
      ⟨fun s _ => h.current s (Set.notMem_empty s),h.pointers⟩
    refine wp_mono (wp_forM (I := fun _ g' => LoadsBut {fromStoreID,toStoreID} g' ∧
      g'.allocated = g.allocated)
      (E := fun _ _ => False) _ ⟨hstart,rfl⟩ ?_) ?_ (fun _ _ h => h.elim)
    · rintro done e rest g₁ hsplit ⟨h₁,hallocated⟩
      have he : e < g₁.allocated := by
        rw [hallocated]
        exact hw.pointers k location hk e (by simp [hsplit])
      exact wp_mono (wp_migrateOne_loads clock k h₁ he) (fun _ _ h₂ => ⟨h₂.1,h₂.2.trans hallocated⟩)
        fun _ _ h => h
    · rintro _ g₁ ⟨h₁,-⟩
      simp only [wp_readTime,wp_modify]
      have hlocated : LoadsBut (insert fromStoreID {toStoreID}) (g₁.advance.setLocation k _) :=
        h₁.advance.setLocation k (some { location with
          storeMap := Function.update (Function.update location.storeMap fromStoreID []) toStoreID
            (location.storeMap fromStoreID)
          lastUpdate := clock g₁.tick })
      refine wp_mono (wp_updateStoreLoad_loads hlocated) ?_ (fun _ _ h => h.elim)
      intro _ g₂ h₂
      rw [← insert_empty_eq toStoreID] at h₂
      exact wp_mono (wp_updateStoreLoad_loads h₂) (fun _ _ h => h) (fun _ _ h => h.elim)

theorem loads_new : LoadsBut ∅ newGlobalIndex where
  current _ _ := rfl
  pointers _ _ hb := by cases hb

theorem wp_exec_loads (op : IndexOp) (hw : g.WellFormed) (h : LoadsBut ∅ g) :
    wp (op.exec clock) (fun _ t => LoadsBut ∅ t) (fun _ t => LoadsBut ∅ t) g := by
  cases op with
  | addIndex index =>
    exact wp_mono (wp_addIndex_loads clock h index) (fun _ _ h => h) (fun _ _ h => h.elim)
  | removeIndex key blockID => exact wp_removeIndex_loads clock h key blockID
  | updateIndex index => exact wp_updateIndex_loads clock h index
  | migrateTimeline key fromStoreID toStoreID =>
    exact wp_migrateTimeline_loads clock hw h key fromStoreID toStoreID

theorem IndexReachable.loads {clock : Nat → Int} (hr : IndexReachable clock g) : LoadsBut ∅ g := by
  induction hr with
  | new => exact loads_new
  | exec op hr ih => exact final_of_wp (wp_exec_loads clock op hr.wellFormed ih)

theorem IndexReachable.loadCurrent {clock : Nat → Int} (hr : IndexReachable clock g) (s : String) :
    LoadCurrent g s := hr.loads.current s (Set.notMem_empty s)

theorem wp_getStoreLoad {s : String} (h : LoadCurrent g s) :
    wp (getStoreLoad clock s) (fun load _ => ∃ t, load = loadOf g s t) (fun _ _ => False) g := by
  unfold LoadCurrent at h
  simp only [getStoreLoad,wp_bind,wp_get]
  cases hload : g.loadInfo s with
  | some load =>
    rw [hload] at h
    exact ⟨_,h⟩
  | none =>
    rw [hload] at h
    refine ⟨clock g.tick,?_⟩
    rw [loadOf,h]
    rfl

end Operations

end Imy.Index
