import Imy.Index.GlobalIndex
set_option autoImplicit false

namespace Imy.Index
open Imy.Lib

/-- The entries of a timeline, in the order of its blocks. -/
def GlobalIndex.entriesOf (g : GlobalIndex) (timelineKey : String) : List GlobalStoreIndex :=
  match g.timelineIndex timelineKey with
  | none => []
  | some location => location.blocks.map g.entries

structure GlobalIndex.WellFormed (g : GlobalIndex) : Prop where
  counted : ∀ key location, g.timelineIndex key = some location →
    location.blockCount = location.blocks.length
  pointers : ∀ key location, g.timelineIndex key = some location →
    ∀ e ∈ location.blocks, e < g.allocated

theorem wellFormed_new : newGlobalIndex.WellFormed := by
  constructor <;> intro key location h <;> cases h

section Specs
variable (clock : Nat → Int) {g : GlobalIndex}

@[simp] theorem wp_readTime (Q : Int → GlobalIndex → Prop) (E : IndexFault → GlobalIndex → Prop)
    (g : GlobalIndex) :
    wp (readTime clock) Q E g = Q (clock g.tick) g.advance := rfl

@[simp] theorem wp_newEntry (index : GlobalStoreIndex) (Q : Nat → GlobalIndex → Prop)
    (E : IndexFault → GlobalIndex → Prop) (g : GlobalIndex) :
    wp (newEntry index) Q E g = Q g.allocated (g.alloc index) := rfl

structure SameTimelines (g g' : GlobalIndex) : Prop where
  entries : g'.entries = g.entries
  allocated : g'.allocated = g.allocated
  timelineIndex : g'.timelineIndex = g.timelineIndex

theorem SameTimelines.refl (g : GlobalIndex) : SameTimelines g g := ⟨rfl,rfl,rfl⟩

theorem SameTimelines.trans {g₁ g₂ g₃ : GlobalIndex} (h : SameTimelines g₁ g₂)
    (h' : SameTimelines g₂ g₃) : SameTimelines g₁ g₃ :=
  ⟨h'.entries.trans h.entries,h'.allocated.trans h.allocated,h'.timelineIndex.trans h.timelineIndex⟩

theorem SameTimelines.entriesOf {g g' : GlobalIndex} (h : SameTimelines g g') :
    g'.entriesOf = g.entriesOf := by
  funext key
  simp only [GlobalIndex.entriesOf,h.timelineIndex,h.entries]

theorem SameTimelines.wellFormed {g g' : GlobalIndex} (h : SameTimelines g g') (hw : g.WellFormed) :
    g'.WellFormed := by
  constructor
  · rw [h.timelineIndex]
    exact hw.counted
  · rw [h.timelineIndex,h.allocated]
    exact hw.pointers

theorem wp_updateStoreLoad (storeID : String) (g : GlobalIndex) :
    wp (updateStoreLoad clock storeID) (fun _ g' => SameTimelines g g') (fun _ _ => False) g := by
  simp only [updateStoreLoad,wp_bind,wp_get,wp_readTime,wp_modify]
  exact ⟨rfl,rfl,rfl⟩

theorem wp_putStoreIndex (storeID key : String) (e : Nat) (g : GlobalIndex) :
    wp (putStoreIndex storeID key e) (fun _ g' => SameTimelines g g') (fun _ _ => False) g :=
  ⟨rfl,rfl,rfl⟩

theorem wp_deleteStoreIndex (storeID key : String) (g : GlobalIndex) :
    wp (deleteStoreIndex storeID key) (fun _ g' => SameTimelines g g') (fun _ _ => False) g := by
  simp only [deleteStoreIndex,wp_modify]
  split <;> exact ⟨rfl,rfl,rfl⟩

theorem wp_findLocation (timelineKey : String) (hw : g.WellFormed) :
    wp (findLocation clock timelineKey)
      (fun location g' => SameTimelines g g' ∧ location.blockCount = location.blocks.length ∧
        (∀ e ∈ location.blocks, e < g.allocated) ∧
        location.blocks.map g.entries = g.entriesOf timelineKey)
      (fun _ _ => False) g := by
  simp only [findLocation,wp_bind,wp_get]
  cases hg : g.timelineIndex timelineKey with
  | some location =>
    exact ⟨SameTimelines.refl g,hw.counted _ _ hg,hw.pointers _ _ hg,by
      simp only [GlobalIndex.entriesOf,hg]⟩
  | none =>
    simp only [wp_bind,wp_readTime,wp_pure]
    exact ⟨⟨rfl,rfl,rfl⟩,rfl,by simp,by simp only [GlobalIndex.entriesOf,hg,List.map_nil]⟩

theorem GlobalIndex.WellFormed.setLocation (hw : g.WellFormed) (key : String)
    (location : TimelineLocation) (hc : location.blockCount = location.blocks.length)
    (hp : ∀ e ∈ location.blocks, e < g.allocated) :
    (g.setLocation key (some location)).WellFormed := by
  constructor <;> intro key' location' h <;> by_cases hk : key' = key
  · simp only [hk,setLocation_timelineIndex,Function.update_self,Option.some.injEq] at h
    exact h ▸ hc
  · simp only [setLocation_timelineIndex,Function.update_of_ne hk] at h
    exact hw.counted _ _ h
  · simp only [hk,setLocation_timelineIndex,Function.update_self,Option.some.injEq] at h
    exact h ▸ hp
  · simp only [setLocation_timelineIndex,Function.update_of_ne hk] at h
    exact hw.pointers _ _ h

theorem entriesOf_setLocation (key key' : String) (location : TimelineLocation) :
    (g.setLocation key (some location)).entriesOf key' =
      if key' = key then location.blocks.map g.entries else g.entriesOf key' := by
  by_cases hk : key' = key <;> simp [GlobalIndex.entriesOf,hk]

theorem GlobalIndex.WellFormed.dropLocation (hw : g.WellFormed) (key : String) :
    (g.setLocation key none).WellFormed := by
  constructor <;> intro key' location h <;> by_cases hk : key' = key
  · simp [hk] at h
  · exact hw.counted key' location (by simpa [hk] using h)
  · simp [hk] at h
  · exact hw.pointers key' location (by simpa [hk] using h)

theorem entriesOf_dropLocation (key key' : String) :
    (g.setLocation key none).entriesOf key' = if key' = key then [] else g.entriesOf key' := by
  by_cases hk : key' = key <;> simp [GlobalIndex.entriesOf,hk]

/-- A new entry is behind all pointers, so nothing that was there changes. -/
theorem GlobalIndex.WellFormed.alloc (hw : g.WellFormed) (index : GlobalStoreIndex) :
    (g.alloc index).WellFormed ∧ (g.alloc index).entriesOf = g.entriesOf := by
  refine ⟨⟨hw.counted,fun key location h e he =>
    Nat.lt_succ_of_lt (hw.pointers key location h e he)⟩,
    ?_⟩
  funext key
  simp only [GlobalIndex.entriesOf,alloc_timelineIndex,alloc_entries]
  cases hg : g.timelineIndex key with
  | none => rfl
  | some location =>
    refine List.map_congr_left fun e he => Function.update_of_ne ?_ _ _
    exact Nat.ne_of_lt (hw.pointers key location hg e he)

theorem wp_addIndex (index : GlobalStoreIndex) (hw : g.WellFormed) :
    wp (addIndex clock index)
      (fun _ g' => g'.WellFormed ∧ ∀ key, g'.entriesOf key =
        if key = index.timelineKey then
          g.entriesOf key ++ [{ index with updatedAt := clock g.tick }]
        else g.entriesOf key)
      (fun _ _ => False) g := by
  simp only [addIndex,wp_bind,wp_readTime,wp_newEntry]
  have ht : SameTimelines g g.advance := ⟨rfl,rfl,rfl⟩
  obtain ⟨hw₁,he₁⟩ := (ht.wellFormed hw).alloc { index with updatedAt := clock g.tick }
  rw [ht.entriesOf] at he₁
  refine wp_mono (wp_findLocation clock index.timelineKey hw₁) ?_ (fun _ _ h => h)
  rintro location g₂ ⟨hs,hc,hp,hm⟩
  simp only [wp_modify]
  have hs' : SameTimelines g₂ g₂.advance := ⟨rfl,rfl,rfl⟩
  have hs := hs.trans hs'
  have hlocated := (hs.wellFormed hw₁).setLocation index.timelineKey
    (location.add g.allocated index (clock g₂.tick))
    (by simp [TimelineLocation.add,hc])
    (by
      intro e he
      rw [hs.allocated]
      rcases List.mem_append.mp he with he | he
      · exact hp e he
      · rw [List.mem_singleton.mp he]
        exact Nat.lt_succ_self _)
  refine wp_mono (wp_putStoreIndex _ _ _ _) ?_ (fun _ _ h => h)
  intro _ g₃ h₃
  refine wp_mono (wp_updateStoreLoad clock _ _) ?_ (fun _ _ h => h)
  intro _ g₄ h₄
  have hfin := h₃.trans h₄
  refine ⟨hfin.wellFormed hlocated,fun key => ?_⟩
  rw [hfin.entriesOf,entriesOf_setLocation]
  split
  · rename_i hk
    simp only [TimelineLocation.add,List.map_append,List.map_cons,List.map_nil,hs.entries,hm,he₁,hk]
    simp
  · rw [hs.entriesOf,he₁]

theorem map_eraseP_entries (blocks : List Nat) (blockID : String) :
    (blocks.eraseP fun e => (g.entries e).blockID = blockID).map g.entries =
      (blocks.map g.entries).eraseP fun e => e.blockID = blockID := by
  rw [List.eraseP_map]
  rfl

theorem TimelineLocation.remove_counted {location : TimelineLocation} {blockID : String} {b : Nat}
    (hc : location.blockCount = location.blocks.length) (hmem : b ∈ location.blocks)
    (hid : (g.entries b).blockID = blockID) (lastUpdate : Int) :
    (location.remove g blockID (g.entries b) lastUpdate).blockCount =
      (location.remove g blockID (g.entries b) lastUpdate).blocks.length := by
  have hlen := List.length_eraseP_of_mem (p := fun e => decide ((g.entries e).blockID = blockID))
    hmem (by simpa using hid)
  have hpos : 0 < location.blocks.length := List.length_pos_of_mem hmem
  simp only [TimelineLocation.remove,hc,hlen]
  omega

theorem wp_removeIndex (key blockID : String) (hw : g.WellFormed) :
    wp (removeIndex clock key blockID)
      (fun _ g' => g'.WellFormed ∧ (∃ e ∈ g.entriesOf key, e.blockID = blockID) ∧
        ∀ key', g'.entriesOf key' =
          if key' = key then (g.entriesOf key).eraseP fun e => e.blockID = blockID
          else g.entriesOf key')
      (fun e g' => (∃ text, e = .error text) ∧ g' = g ∧ ∀ e ∈ g.entriesOf key, e.blockID ≠ blockID)
      g := by
  simp only [removeIndex,wp_bind,wp_get]
  cases hg : g.timelineIndex key with
  | none => exact ⟨⟨_,rfl⟩,rfl,by simp [GlobalIndex.entriesOf,hg]⟩
  | some location =>
    simp only
    have hentries : g.entriesOf key = location.blocks.map g.entries := by
      simp only [GlobalIndex.entriesOf,hg]
    cases hf : location.blocks.find? fun e => (g.entries e).blockID = blockID with
    | none =>
      refine ⟨⟨_,rfl⟩,rfl,?_⟩
      rw [hentries]
      intro e he
      obtain ⟨b,hb,rfl⟩ := List.mem_map.mp he
      simpa using List.find?_eq_none.mp hf b hb
    | some b =>
      have hmem := List.mem_of_find?_eq_some hf
      have hid : (g.entries b).blockID = blockID := by simpa using List.find?_some hf
      have hcount := TimelineLocation.remove_counted (hw.counted _ _ hg) hmem hid (clock g.tick)
      have hblocks : (location.remove g blockID (g.entries b) (clock g.tick)).blocks =
          location.blocks.eraseP fun e => (g.entries e).blockID = blockID := rfl
      simp only [wp_bind,wp_readTime,wp_modify]
      generalize location.remove g blockID (g.entries b) (clock g.tick) = location' at *
      have ht : SameTimelines g g.advance := ⟨rfl,rfl,rfl⟩
      have hlocated := (ht.wellFormed hw).setLocation key location' hcount (by
        intro e he
        rw [hblocks] at he
        exact hw.pointers _ _ hg e (List.mem_of_mem_eraseP he))
      refine wp_mono (wp_deleteStoreIndex _ _ _) ?_ (fun _ _ h => h.elim)
      intro _ g₃ h₃
      refine wp_mono (wp_updateStoreLoad clock _ _) ?_ (fun _ _ h => h.elim)
      intro _ g₄ h₄
      have hfin := h₃.trans h₄
      have hview : ∀ key', g₄.entriesOf key' =
          if key' = key then (g.entriesOf key).eraseP fun e => e.blockID = blockID
          else g.entriesOf key' := by
        intro key'
        rw [hfin.entriesOf,entriesOf_setLocation,hentries,← map_eraseP_entries,hblocks,ht.entriesOf,
          GlobalIndex.advance_entries]
      have hex : ∃ e ∈ g.entriesOf key, e.blockID = blockID :=
        ⟨g.entries b,by rw [hentries]; exact List.mem_map_of_mem hmem,hid⟩
      simp only [wp_ite,wp_modify,wp_pure]
      split
      · -- the counter is right, so the location that goes is empty
        rename_i hzero
        have hnil : location'.blocks = [] := List.length_eq_zero_iff.mp (by omega)
        refine ⟨(hfin.wellFormed hlocated).dropLocation key,hex,fun key' => ?_⟩
        rw [entriesOf_dropLocation,hview,hentries,← map_eraseP_entries,← hblocks,hnil,List.map_nil]
        split <;> rfl
      · exact ⟨hfin.wellFormed hlocated,hex,hview⟩

theorem length_replaceFirst (blockID : String) (new : Nat) (blocks : List Nat) :
    (replaceFirst g blockID new blocks).length = blocks.length := by
  induction blocks with
  | nil => rfl
  | cons e es ih =>
    simp only [replaceFirst]
    split <;> simp [ih]

theorem mem_replaceFirst {blockID : String} {new e : Nat} {blocks : List Nat}
    (h : e ∈ replaceFirst g blockID new blocks) : e = new ∨ e ∈ blocks := by
  induction blocks with
  | nil => cases h
  | cons e' es ih =>
    simp only [replaceFirst] at h
    split at h
    · rcases List.mem_cons.mp h with rfl | h
      · exact Or.inl rfl
      · exact Or.inr (List.mem_cons_of_mem _ h)
    · rcases List.mem_cons.mp h with rfl | h
      · exact Or.inr List.mem_cons_self
      · exact (ih h).imp id (List.mem_cons_of_mem _)

theorem wp_updateIndex_wellFormed (index : GlobalStoreIndex) (hw : g.WellFormed) :
    wp (updateIndex clock index) (fun _ g' => g'.WellFormed) (fun _ g' => g'.WellFormed) g := by
  simp only [updateIndex,wp_bind,wp_readTime,wp_newEntry,wp_get]
  have ht : SameTimelines g g.advance := ⟨rfl,rfl,rfl⟩
  have hw₁ := ((ht.wellFormed hw).alloc { index with updatedAt := clock g.tick }).1
  generalize hg₁ : g.advance.alloc { index with updatedAt := clock g.tick } = g₁ at hw₁
  have hnew : g.advance.allocated < g₁.allocated := by
    rw [← hg₁]
    exact Nat.lt_succ_self _
  cases hl : g₁.timelineIndex index.timelineKey with
  | none => exact hw₁
  | some location =>
    simp only
    cases location.blocks.find? fun e => (g₁.entries e).blockID = index.blockID with
    | none => exact hw₁
    | some e =>
      simp only [wp_bind,wp_readTime,wp_modify,wp_ite,wp_throw]
      have ht₁ : SameTimelines g₁ g₁.advance := ⟨rfl,rfl,rfl⟩
      have hlocated := (ht₁.wellFormed hw₁).setLocation index.timelineKey
        { location with
          totalSize := int64 (location.totalSize-(g₁.entries e).size+index.size)
          lastUpdate := clock g₁.tick
          blocks := replaceFirst g₁ index.blockID g.advance.allocated location.blocks
          storeMap := Function.update location.storeMap index.storeID
            (replaceFirst g₁ index.blockID g.advance.allocated (location.storeMap index.storeID)) }
        (by rw [length_replaceFirst]; exact hw₁.counted _ _ hl)
        (by
          intro e' he'
          rcases mem_replaceFirst he' with rfl | he'
          · exact hnew
          · exact hw₁.pointers _ _ hl e' he')
      split
      · exact hlocated
      · refine wp_mono (wp_putStoreIndex _ _ _ _) ?_ (fun _ _ h => h.elim)
        intro _ g₃ h₃
        refine wp_mono (wp_updateStoreLoad clock _ _) ?_ (fun _ _ h => h.elim)
        intro _ g₄ h₄
        exact (h₃.trans h₄).wellFormed hlocated

theorem wp_migrateOne (key fromStoreID toStoreID : String) (e : Nat) (g : GlobalIndex) :
    wp (migrateOne clock key fromStoreID toStoreID e)
      (fun _ g' => g'.timelineIndex = g.timelineIndex ∧ g'.allocated = g.allocated)
      (fun _ _ => False) g := by
  simp only [migrateOne,wp_bind,wp_get,wp_ite,wp_pure]
  split
  · refine wp_mono (wp_deleteStoreIndex _ _ _) ?_ (fun _ _ h => h)
    intro _ g₁ h₁
    simp only [wp_readTime,wp_modify]
    refine wp_mono (wp_putStoreIndex _ _ _ _) ?_ (fun _ _ h => h)
    intro _ g₂ h₂
    exact ⟨h₂.timelineIndex.trans h₁.timelineIndex,h₂.allocated.trans h₁.allocated⟩
  · exact ⟨trivial,trivial⟩

theorem wp_migrateTimeline_wellFormed (key fromStoreID toStoreID : String) (hw : g.WellFormed) :
    wp (migrateTimeline clock key fromStoreID toStoreID) (fun _ g' => g'.WellFormed)
      (fun _ g' => g'.WellFormed) g := by
  simp only [migrateTimeline,wp_bind,wp_get]
  cases hl : g.timelineIndex key with
  | none => exact hw
  | some location =>
    simp only [wp_bind]
    refine wp_mono (wp_forM (I := fun _ g' => g'.timelineIndex = g.timelineIndex ∧
      g'.allocated = g.allocated) (E := fun _ _ => False) _ ⟨rfl,rfl⟩ ?_) ?_ (fun _ _ h => h.elim)
    · rintro done e rest g₁ - ⟨ht,ha⟩
      exact wp_mono (wp_migrateOne clock key fromStoreID toStoreID e g₁)
        (fun _ g₂ h => ⟨h.1.trans ht,h.2.trans ha⟩) (fun _ _ h => h)
    · rintro _ g₁ ⟨ht,ha⟩
      simp only [wp_readTime,wp_modify]
      have hw₁ : g₁.advance.WellFormed :=
        ⟨fun k l h => hw.counted k l (ht ▸ h),fun k l h e he =>
          Nat.lt_of_lt_of_eq (hw.pointers k l (ht ▸ h) e he) ha.symm⟩
      have hlocated := hw₁.setLocation key
        { location with
          storeMap := Function.update (Function.update location.storeMap fromStoreID []) toStoreID
            (location.storeMap fromStoreID)
          lastUpdate := clock g₁.tick }
        (hw.counted key location hl)
        (fun e he => Nat.lt_of_lt_of_eq (hw.pointers key location hl e he) ha.symm)
      refine wp_mono (wp_updateStoreLoad clock _ _) ?_ (fun _ _ h => h.elim)
      intro _ g₂ h₂
      refine wp_mono (wp_updateStoreLoad clock _ _) ?_ (fun _ _ h => h.elim)
      intro _ g₃ h₃
      exact (h₂.trans h₃).wellFormed hlocated

end Specs

inductive IndexOp where
  | addIndex (index : GlobalStoreIndex)
  | removeIndex (timelineKey blockID : String)
  | updateIndex (index : GlobalStoreIndex)
  | migrateTimeline (timelineKey fromStoreID toStoreID : String)
  deriving DecidableEq, Repr

def IndexOp.exec (clock : Nat → Int) : IndexOp → IndexM Unit
  | .addIndex index => Index.addIndex clock index
  | .removeIndex key blockID => Index.removeIndex clock key blockID
  | .updateIndex index => Index.updateIndex clock index
  | .migrateTimeline key fromStoreID toStoreID =>
    Index.migrateTimeline clock key fromStoreID toStoreID

/-- The states of an index after any operations, failed ones included. -/
inductive IndexReachable (clock : Nat → Int) : GlobalIndex → Prop where
  | new : IndexReachable clock newGlobalIndex
  | exec {g : GlobalIndex} (op : IndexOp) (hr : IndexReachable clock g) :
      IndexReachable clock (final (op.exec clock) g)

theorem wp_exec_wellFormed (clock : Nat → Int) (op : IndexOp) {g : GlobalIndex}
    (hw : g.WellFormed) :
    wp (op.exec clock) (fun _ t => t.WellFormed) (fun _ t => t.WellFormed) g := by
  cases op with
  | addIndex index =>
    exact wp_mono (wp_addIndex clock index hw) (fun _ _ h => h.1) (fun _ _ h => h.elim)
  | removeIndex key blockID =>
    exact wp_mono (wp_removeIndex clock key blockID hw) (fun _ _ h => h.1)
      (fun _ _ h => h.2.1 ▸ hw)
  | updateIndex index => exact wp_updateIndex_wellFormed clock index hw
  | migrateTimeline key fromStoreID toStoreID =>
    exact wp_migrateTimeline_wellFormed clock key fromStoreID toStoreID hw

theorem IndexReachable.wellFormed {clock : Nat → Int} {g : GlobalIndex}
    (hr : IndexReachable clock g) : g.WellFormed := by
  induction hr with
  | new => exact wellFormed_new
  | exec op _ ih => exact final_of_wp (wp_exec_wellFormed clock op ih)

end Imy.Index
