import Imy.Index.Coherence
set_option autoImplicit false

namespace Imy.Index
open Imy.Lib

variable {clock : Nat → Int} {g g' : GlobalIndex} {k fromStoreID toStoreID : String}

def nameIn (g : GlobalIndex) (k : String) (e : Nat) : String := k ++ ":" ++ (g.entries e).blockID

def onStore (g : GlobalIndex) (s : String) (blocks : List Nat) : List Nat :=
  blocks.filter fun e => (g.entries e).storeID = s

theorem mem_onStore {s : String} {blocks : List Nat} {e : Nat} :
    e ∈ onStore g s blocks ↔ e ∈ blocks ∧ (g.entries e).storeID = s := by
  simp [onStore]

def without (names : List String) (blocks : List (String × Nat)) : List (String × Nat) :=
  blocks.filter fun b => b.1 ∉ names

theorem mem_without {names : List String} {blocks : List (String × Nat)} {b : String × Nat} :
    b ∈ without names blocks ↔ b ∈ blocks ∧ b.1 ∉ names := by
  simp [without]

theorem delete_without (names : List String) (key : String) (blocks : List (String × Nat)) :
    delete key (without names blocks) = without (names ++ [key]) blocks := by
  simp only [delete,without,List.filter_filter]
  refine List.filter_congr fun b _ => ?_
  simp [and_comm]

structure Moving (g : GlobalIndex) (k fromStoreID toStoreID : String) (moved : List Nat)
    (g' : GlobalIndex) :
    Prop where
  allocated : g'.allocated = g.allocated
  timelineIndex : g'.timelineIndex = g.timelineIndex
  loadInfo : g'.loadInfo = g.loadInfo
  entries : ∀ e, e ∉ moved → g'.entries e = g.entries e
  changed : ∀ e ∈ moved, ∃ t, g'.entries e =
    { g.entries e with storeID := toStoreID, updatedAt := t }
  source : fromStoreID ≠ toStoreID →
    g'.storeOf fromStoreID = without (moved.map (nameIn g k)) (g.storeOf fromStoreID)
  target : g'.storeOf toStoreID = without (moved.map (nameIn g k)) (g.storeOf toStoreID) ++
    moved.map fun e => (nameIn g k e,e)
  others : ∀ s, s ≠ fromStoreID → s ≠ toStoreID → g'.storeIndex s = g.storeIndex s

theorem moving_start (g : GlobalIndex) (k fromStoreID toStoreID : String) :
    Moving g k fromStoreID toStoreID [] g where
  allocated := rfl
  timelineIndex := rfl
  loadInfo := rfl
  entries _ _ := rfl
  changed := nofun
  source _ := by simp [without]
  target := by simp [without]
  others _ _ _ := rfl

theorem assign_without {names : List String} {key : String} {e : Nat}
    {blocks moved : List (String × Nat)}
    (hmoved : moved.map Prod.fst = names) (hkey : key ∉ names) :
    assign key e (without names blocks ++ moved) =
      without (names ++ [key]) blocks ++ (moved ++ [(key,e)]) := by
  have hkept : delete key moved = moved := by
    refine List.filter_eq_self.mpr fun b hb => ?_
    have hin : b.1 ∈ names := by
      rw [← hmoved]
      exact List.mem_map_of_mem hb
    simpa using fun heq : b.1 = key => hkey (heq ▸ hin)
  rw [← List.append_assoc,← delete_without]
  simp only [assign,delete,List.filter_append] at hkept ⊢
  rw [hkept]

theorem assign_delete (key : String) (e : Nat) (blocks : List (String × Nat)) :
    assign key e (delete key blocks) = assign key e blocks := by
  simp [assign,delete,List.filter_filter]

theorem Moving.next {moved : List Nat} {e : Nat} (hm : Moving g k fromStoreID toStoreID moved g')
    (he : e ∉ moved) (hname : nameIn g k e ∉ moved.map (nameIn g k))
    (hfrom : (g.entries e).storeID = fromStoreID) :
    wp (migrateOne clock k fromStoreID toStoreID e)
      (fun _ g' => Moving g k fromStoreID toStoreID (moved ++ [e]) g') (fun _ _ => False) g' := by
  simp only [migrateOne,wp_bind,wp_get,wp_ite,hm.entries e he,hfrom,if_true]
  refine wp_mono (storeOf_deleteStoreIndex _ _ _) ?_ (fun _ _ h => h)
  rintro _ g₁ ⟨hsame,hload,hstore,hothers⟩
  simp only [wp_readTime,wp_modify,putStoreIndex]
  have hentry : g₁.entries e = g.entries e := by rw [hsame.entries,hm.entries e he]
  have hnames : (moved ++ [e]).map (nameIn g k) = moved.map (nameIn g k) ++ [nameIn g k e] := by
    simp
  have hkeys : (moved.map fun e => (nameIn g k e,e)).map Prod.fst = moved.map (nameIn g k) := by
    simp
  refine ⟨hsame.allocated.trans hm.allocated,hsame.timelineIndex.trans hm.timelineIndex,
    hload.trans hm.loadInfo,
    fun e' he' => ?_,fun e' he' => ?_,fun hne => ?_,?_,fun s hs hs' => ?_⟩
  · obtain ⟨hold,hnew⟩ : e' ∉ moved ∧ e' ≠ e := by simpa [not_or] using he'
    exact (Function.update_of_ne hnew _ _).trans
      ((congrFun hsame.entries e').trans (hm.entries e' hold))
  · by_cases hee : e' = e
    · subst hee
      refine ⟨clock g₁.tick,(Function.update_self ..).trans ?_⟩
      rw [GlobalIndex.advance_entries,hentry]
    · obtain ⟨t,ht⟩ := hm.changed e' (by simpa [hee] using he')
      exact ⟨t,(Function.update_of_ne hee _ _).trans ((congrFun hsame.entries e').trans ht)⟩
  · rw [hnames,← delete_without,← hm.source hne,GlobalIndex.storeOf]
    refine Eq.trans ?_ hstore
    simp [GlobalIndex.storeOf,hne]
  · rw [hnames,List.map_append,List.map_singleton,← assign_without hkeys hname,← hm.target]
    have hput : assign (nameIn g k e) e (g₁.storeOf toStoreID) =
        assign (nameIn g k e) e (g'.storeOf toStoreID) := by
      by_cases hne : toStoreID = fromStoreID
      · subst hne
        rw [hstore]
        exact assign_delete ..
      · rw [GlobalIndex.storeOf,hothers _ hne,GlobalIndex.storeOf]
    refine Eq.trans ?_ hput
    simp only [GlobalIndex.storeOf,GlobalIndex.setStore_storeIndex,
      Function.update_self,Option.getD_some]
    rfl
  · exact (Function.update_of_ne hs' _ _).trans ((hothers s hs).trans (hm.others s hs hs'))

theorem Coherent.eq_of_name (hc : Coherent clock g) {s k' : String} {e e' : Nat}
    (he : e ∈ g.blocksOf k)
    (hs : (g.entries e).storeID = s) (he' : e' ∈ g.blocksOf k') (hs' : (g.entries e').storeID = s)
    (hname : nameIn g k e = nameIn g k' e') : e = e' := by
  have hstore := hc.stores s
  exact hstore.eq_of_key ((hstore.holds (nameIn g k e) e).mpr ⟨k,he,hs,rfl⟩)
    ((hstore.holds (nameIn g k e) e').mpr ⟨k',he',hs',hname⟩)

theorem Coherent.names_once (hc : Coherent clock g) (s k : String) :
    ((onStore g s (g.blocksOf k)).map (nameIn g k)).Nodup := by
  refine List.Nodup.map_on (fun e he e' he' hname => ?_) ((hc.once k).filter _)
  obtain ⟨hin,hs⟩ := mem_onStore.mp he
  obtain ⟨hin',hs'⟩ := mem_onStore.mp he'
  exact hc.eq_of_name hin hs hin' hs' hname

theorem wp_migrate_loop (blocks : List Nat) (honce : blocks.Nodup)
    (hnames : ((onStore g fromStoreID blocks).map (nameIn g k)).Nodup) :
    wp (forM blocks (migrateOne clock k fromStoreID toStoreID))
      (fun _ g' => Moving g k fromStoreID toStoreID (onStore g fromStoreID blocks) g')
        (fun _ _ => False) g := by
  refine wp_forM (I := fun done g' =>
    Moving g k fromStoreID toStoreID (onStore g fromStoreID done) g') _
    (moving_start g k fromStoreID toStoreID) ?_
  intro done e rest g' hsplit hm
  have hfresh : e ∉ done := by
    rw [hsplit,List.nodup_append] at honce
    exact fun hin => honce.2.2 e hin e List.mem_cons_self rfl
  have he : e ∉ onStore g fromStoreID done := fun hin => hfresh (mem_onStore.mp hin).1
  by_cases hfrom : (g.entries e).storeID = fromStoreID
  · have hdone : onStore g fromStoreID (done ++ [e]) = onStore g fromStoreID done ++ [e] := by
      simp [onStore,hfrom]
    rw [hdone]
    refine hm.next he ?_ hfrom
    have hall : onStore g fromStoreID blocks =
        onStore g fromStoreID done ++ e :: onStore g fromStoreID rest := by
      simp [onStore,hsplit,hfrom]
    rw [hall,List.map_append,List.map_cons,List.nodup_append] at hnames
    exact fun hin => hnames.2.2 _ hin _ List.mem_cons_self rfl
  · have hdone : onStore g fromStoreID (done ++ [e]) = onStore g fromStoreID done := by
      simp [onStore,hfrom]
    rw [hdone]
    simp only [migrateOne,wp_bind,wp_get,wp_ite,hm.entries e he,hfrom,if_false]
    exact hm

structure Migrated (g : GlobalIndex) (k fromStoreID toStoreID : String) (g' : GlobalIndex) :
    Prop where
  allocated : g'.allocated = g.allocated
  location : ∃ location lastUpdate, g.timelineIndex k = some location ∧
    g'.timelineIndex = Function.update g.timelineIndex k (some { location with
      storeMap := Function.update (Function.update location.storeMap fromStoreID []) toStoreID
        (location.storeMap fromStoreID)
      lastUpdate := lastUpdate })
  moving : ∃ g₁, Moving g k fromStoreID toStoreID (onStore g fromStoreID (g.blocksOf k)) g₁ ∧
    g'.entries = g₁.entries ∧ g'.storeIndex = g₁.storeIndex
  source : LoadHolds g' fromStoreID
  target : LoadHolds g' toStoreID

theorem wp_migrateTimeline_migrated (hc : Coherent clock g) (k fromStoreID toStoreID : String) :
    wp (migrateTimeline clock k fromStoreID toStoreID)
      (fun _ g' => Migrated g k fromStoreID toStoreID g')
      (fun _ _ => g.timelineIndex k = none) g := by
  simp only [migrateTimeline,wp_bind,wp_get]
  cases hk : g.timelineIndex k with
  | none => exact rfl
  | some location =>
    have hblocks : g.blocksOf k = location.blocks := by simp only [GlobalIndex.blocksOf,hk]
    simp only [wp_bind]
    refine wp_mono (wp_migrate_loop location.blocks (hblocks ▸ hc.once k)
      (hblocks ▸ hc.names_once fromStoreID k))
      ?_ (fun _ _ h => h.elim)
    intro _ g₁ hm
    simp only [wp_readTime,wp_modify]
    refine wp_mono (wp_updateStoreLoad_reloaded clock _ _) ?_ (fun _ _ h => h.elim)
    intro _ g₂ hr
    refine wp_mono (wp_updateStoreLoad_reloaded clock _ _) ?_ (fun _ _ h => h.elim)
    intro _ g₃ hr'
    refine ⟨?_,⟨location,clock g₁.tick,hk,?_⟩,⟨g₁,?_,?_,?_⟩,?_,hr'.load⟩
    · exact hr'.same.allocated.trans (hr.same.allocated.trans hm.allocated)
    · rw [hr'.same.timelineIndex,hr.same.timelineIndex,GlobalIndex.setLocation_timelineIndex,
        GlobalIndex.advance_timelineIndex,hm.timelineIndex]
    · rw [hblocks]
      exact hm
    · rw [hr'.same.entries,hr.same.entries]
      rfl
    · rw [hr'.storeIndex,hr.storeIndex]
      rfl
    · by_cases hne : fromStoreID = toStoreID
      · subst hne
        exact hr'.load
      · refine hr.load.congr (hr'.others _ hne) ?_ fun b _ => ?_
        · rw [hr'.storeIndex]
        · rw [hr'.same.entries]

/-- The timeline has moved and is the same otherwise, the other ones are the same, and the
views agree again. -/
structure MigratedWell (clock : Nat → Int) (g : GlobalIndex) (k fromStoreID toStoreID : String)
    (g' : GlobalIndex) : Prop where
  gone : fromStoreID ≠ toStoreID → ∀ e ∈ g'.blocksOf k, (g'.entries e).storeID ≠ fromStoreID
  timeline : ∃ location location', g.timelineIndex k = some location ∧
    g'.timelineIndex k = some location' ∧
    (∀ s, location'.storeMap s = location'.blocks.filter fun e => (g'.entries e).storeID = s) ∧
    location'.blockCount = location.blockCount ∧ location'.totalSize = location.totalSize
  blockIDs : (g'.entriesOf k).map (·.blockID) = (g.entriesOf k).map (·.blockID)
  others : ∀ k', k' ≠ k → g'.timelineIndex k' = g.timelineIndex k' ∧
    g'.entriesOf k' = g.entriesOf k'
  source : StoreAgrees clock g' fromStoreID
  target : StoreAgrees clock g' toStoreID

/-- The timeline has no block on the target, and no block there has the key of one that
comes. -/
def TargetClear (g : GlobalIndex) (k fromStoreID toStoreID : String) : Prop :=
  (∀ e ∈ g.blocksOf k, (g.entries e).storeID ≠ toStoreID) ∧
    ∀ e ∈ g.blocksOf k, (g.entries e).storeID = fromStoreID →
      ∀ k', ∀ e' ∈ g.blocksOf k', (g.entries e').storeID = toStoreID → nameIn g k' e' ≠ nameIn g k e

section Migrated

theorem Migrated.blocksOf (hm : Migrated g k fromStoreID toStoreID g') (k' : String) :
    g'.blocksOf k' = g.blocksOf k' := by
  obtain ⟨location,t,hk,hafter⟩ := hm.location
  by_cases hkk : k' = k
  · subst hkk
    simp only [GlobalIndex.blocksOf,hafter,hk,Function.update_self]
  · simp only [GlobalIndex.blocksOf,hafter,Function.update_of_ne hkk]

theorem Migrated.entry (hm : Migrated g k fromStoreID toStoreID g') (e : Nat) :
    (g'.entries e).blockID = (g.entries e).blockID ∧ (g'.entries e).size = (g.entries e).size ∧
    (g'.entries e).storeID =
      if e ∈ onStore g fromStoreID (g.blocksOf k) then toStoreID else (g.entries e).storeID := by
  obtain ⟨g₁,hmoving,hentries,-⟩ := hm.moving
  rw [hentries]
  by_cases hin : e ∈ onStore g fromStoreID (g.blocksOf k)
  · obtain ⟨t,ht⟩ := hmoving.changed e hin
    rw [ht,if_pos hin]
    exact ⟨rfl,rfl,rfl⟩
  · rw [hmoving.entries e hin,if_neg hin]
    exact ⟨rfl,rfl,rfl⟩

theorem Migrated.storeID (hm : Migrated g k fromStoreID toStoreID g') {e : Nat}
    (he : e ∈ g.blocksOf k) :
    (g'.entries e).storeID =
      if (g.entries e).storeID = fromStoreID then toStoreID else (g.entries e).storeID := by
  rw [(hm.entry e).2.2]
  simp [mem_onStore,he]

theorem Migrated.others (hm : Migrated g k fromStoreID toStoreID g')
    (hc : Coherent clock g) {k' : String}
    (hk : k' ≠ k) :
    g'.timelineIndex k' = g.timelineIndex k' ∧ g'.entriesOf k' = g.entriesOf k' := by
  obtain ⟨location,t,-,hafter⟩ := hm.location
  obtain ⟨g₁,hmoving,hentries,-⟩ := hm.moving
  have hsame : g'.timelineIndex k' = g.timelineIndex k' := by rw [hafter,Function.update_of_ne hk]
  refine ⟨hsame,?_⟩
  simp only [GlobalIndex.entriesOf,hsame]
  cases hk' : g.timelineIndex k' with
  | none => rfl
  | some location' =>
    refine List.map_congr_left fun e he => ?_
    rw [hentries]
    refine hmoving.entries e fun hin => hk ?_
    have hin' : e ∈ g.blocksOf k' := by
      simp only [GlobalIndex.blocksOf,hk']
      exact he
    exact (hc.owned k' e hin').symm.trans (hc.owned k e (mem_onStore.mp hin).1)

theorem Migrated.blockIDs (hm : Migrated g k fromStoreID toStoreID g') :
    (g'.entriesOf k).map (·.blockID) = (g.entriesOf k).map (·.blockID) := by
  obtain ⟨location,t,hk,hafter⟩ := hm.location
  simp only [GlobalIndex.entriesOf,hk,hafter,Function.update_self,List.map_map]
  exact List.map_congr_left fun e _ => (hm.entry e).1

theorem Migrated.mem_target (hm : Migrated g k fromStoreID toStoreID g') {key : String} {e : Nat} :
    (key,e) ∈ g'.storeOf toStoreID ↔
      (key,e) ∈ g.storeOf toStoreID ∧ key ∉
        (onStore g fromStoreID (g.blocksOf k)).map (nameIn g k) ∨
      e ∈ onStore g fromStoreID (g.blocksOf k) ∧ key = nameIn g k e := by
  obtain ⟨g₁,hmoving,-,hstore⟩ := hm.moving
  have hof : g'.storeOf toStoreID = g₁.storeOf toStoreID := by
    rw [GlobalIndex.storeOf,hstore,GlobalIndex.storeOf]
  rw [hof,hmoving.target,List.mem_append,mem_without]
  refine or_congr_right (List.mem_map.trans ⟨?_,?_⟩)
  · rintro ⟨e',he',heq⟩
    cases heq
    exact ⟨he',rfl⟩
  · rintro ⟨he,rfl⟩
    exact ⟨e,he,rfl⟩

theorem Migrated.target_once (hm : Migrated g k fromStoreID toStoreID g') (hc : Coherent clock g) :
    ((g'.storeOf toStoreID).map Prod.fst).Nodup := by
  obtain ⟨g₁,hmoving,-,hstore⟩ := hm.moving
  have hof : g'.storeOf toStoreID = g₁.storeOf toStoreID := by
    rw [GlobalIndex.storeOf,hstore,GlobalIndex.storeOf]
  have hkeys : ((onStore g fromStoreID (g.blocksOf k)).map fun e => (nameIn g k e,e)).map Prod.fst =
      (onStore g fromStoreID (g.blocksOf k)).map (nameIn g k) := by simp
  rw [hof,hmoving.target,List.map_append,hkeys]
  refine List.Nodup.append ?_ (hc.names_once fromStoreID k) fun key hkey hname => ?_
  · exact (hc.stores toStoreID).once.sublist (List.filter_sublist.map _)
  · obtain ⟨b,hb,rfl⟩ := List.mem_map.mp hkey
    exact (mem_without.mp hb).2 hname

/-- The index of the target agrees if nothing on the target, other than what is moved, has
the key of a moved block. -/
theorem Migrated.target_agrees (hm : Migrated g k fromStoreID toStoreID g') (hc : Coherent clock g)
    (hfree : ∀ k' e', e' ∈ g.blocksOf k' → (g.entries e').storeID = toStoreID →
      e' ∉ onStore g fromStoreID (g.blocksOf k) →
      nameIn g k' e' ∉ (onStore g fromStoreID (g.blocksOf k)).map (nameIn g k)) :
    StoreAgrees clock g' toStoreID := by
  have hstore := hc.stores toStoreID
  refine ⟨hm.target_once hc,fun key e => ?_,(wp_getStoreLoad_iff _).mpr hm.target⟩
  rw [hm.mem_target,(hm.entry e).1,(hm.entry e).2.2]
  simp only [hm.blocksOf]
  constructor
  · rintro (⟨hold,hkey⟩ | ⟨hin,rfl⟩)
    · obtain ⟨k',he,hs,hkey'⟩ := (hstore.holds key e).mp hold
      refine ⟨k',he,?_,hkey'⟩
      rw [hs]
      split <;> rfl
    · exact ⟨k,(mem_onStore.mp hin).1,if_pos hin,rfl⟩
  · rintro ⟨k',he,hs,rfl⟩
    by_cases hin : e ∈ onStore g fromStoreID (g.blocksOf k)
    · refine Or.inr ⟨hin,?_⟩
      rw [nameIn,← hc.owned k' e he,hc.owned k e (mem_onStore.mp hin).1]
    · rw [if_neg hin] at hs
      exact Or.inl ⟨(hstore.holds _ e).mpr ⟨k',he,hs,rfl⟩,hfree k' e he hs hin⟩

theorem Migrated.source_agrees (hm : Migrated g k fromStoreID toStoreID g') (hc : Coherent clock g)
    (hne : fromStoreID ≠ toStoreID) : StoreAgrees clock g' fromStoreID := by
  have hstore := hc.stores fromStoreID
  obtain ⟨g₁,hmoving,-,hindex⟩ := hm.moving
  have hof : g'.storeOf fromStoreID =
      without ((onStore g fromStoreID (g.blocksOf k)).map (nameIn g k))
          (g.storeOf fromStoreID) := by
    rw [← hmoving.source hne,GlobalIndex.storeOf,hindex,GlobalIndex.storeOf]
  refine ⟨?_,fun key e => ?_,(wp_getStoreLoad_iff _).mpr hm.source⟩
  · rw [hof]
    exact hstore.once.sublist (List.filter_sublist.map _)
  rw [hof,mem_without,hstore.holds,(hm.entry e).1,(hm.entry e).2.2]
  simp only [hm.blocksOf]
  constructor
  · rintro ⟨⟨k',he,hs,hkey⟩,hname⟩
    refine ⟨k',he,?_,hkey⟩
    rw [if_neg,hs]
    intro hin
    refine hname (List.mem_map.mpr ⟨e,hin,?_⟩)
    rw [hkey,nameIn,← hc.owned k' e he,hc.owned k e (mem_onStore.mp hin).1]
  · rintro ⟨k',he,hs,rfl⟩
    split at hs
    · exact (hne hs.symm).elim
    · rename_i hin
      refine ⟨⟨k',he,hs,rfl⟩,fun hname => hin ?_⟩
      obtain ⟨e',he',heq⟩ := List.mem_map.mp hname
      obtain ⟨hin',hs'⟩ := mem_onStore.mp he'
      rw [← hc.eq_of_name hin' hs' he hs heq]
      exact he'

theorem Migrated.storeMap_iff (hm : Migrated g k fromStoreID toStoreID g') (hc : Coherent clock g)
    {location : TimelineLocation} (hk : g'.timelineIndex k = some location) :
    (∀ s, location.storeMap s = location.blocks.filter fun e => (g'.entries e).storeID = s) ↔
      fromStoreID = toStoreID ∨ ∀ e ∈ g.blocksOf k, (g.entries e).storeID ≠ toStoreID := by
  obtain ⟨old,t,hold,hafter⟩ := hm.location
  rw [hafter,Function.update_self] at hk
  cases hk
  have hblocks : g.blocksOf k = old.blocks := by simp only [GlobalIndex.blocksOf,hold]
  have hmap := (hc.timelines k old hold).1.storeMap
  have hstore : ∀ e ∈ old.blocks, (g'.entries e).storeID =
      if (g.entries e).storeID = fromStoreID then toStoreID else (g.entries e).storeID :=
    fun e he => hm.storeID (hblocks ▸ he)
  dsimp only
  rw [hblocks]
  constructor
  · intro hall
    refine or_iff_not_imp_left.mpr fun hne e he hs => ?_
    have htarget := hall toStoreID
    rw [Function.update_self,hmap] at htarget
    -- the block was on the target, so it is there now, and did not come from the source
    have hin : e ∈ old.blocks.filter fun e => (g'.entries e).storeID = toStoreID := by
      refine List.mem_filter.mpr ⟨he,?_⟩
      rw [hstore e he,hs]
      simp
    rw [← htarget,List.mem_filter] at hin
    have hfrom : (g.entries e).storeID = fromStoreID := by simpa using hin.2
    exact hne (hfrom.symm.trans hs)
  · intro hclear s
    by_cases hs : s = toStoreID
    · subst hs
      rw [Function.update_self,hmap]
      refine List.filter_congr fun e he => ?_
      rw [hstore e he,decide_eq_decide]
      rcases hclear with rfl | hclear
      · simp
      · by_cases hfrom : (g.entries e).storeID = fromStoreID
        · simp [hfrom]
        · simp [hfrom,hclear e he]
    · rw [Function.update_of_ne hs]
      by_cases hs' : s = fromStoreID
      · subst hs'
        rw [Function.update_self]
        refine (List.filter_eq_nil_iff.mpr fun e he => ?_).symm
        rw [hstore e he]
        by_cases hfrom : (g.entries e).storeID = s
        · simp [hfrom,Ne.symm hs]
        · simp [hfrom]
      · rw [Function.update_of_ne hs',hmap]
        refine List.filter_congr fun e he => ?_
        rw [hstore e he,decide_eq_decide]
        by_cases hfrom : (g.entries e).storeID = fromStoreID
        · simp [hfrom,Ne.symm hs,Ne.symm hs']
        · simp [hfrom]

/-- The views agree again if nothing is in the way on the target. -/
theorem Migrated.well (hm : Migrated g k fromStoreID toStoreID g') (hc : Coherent clock g)
    (hclear : fromStoreID = toStoreID ∨ TargetClear g k fromStoreID toStoreID) :
    MigratedWell clock g k fromStoreID toStoreID g' := by
  have htarget : StoreAgrees clock g' toStoreID := by
    refine hm.target_agrees hc fun k' e' he' hs' hin hname => ?_
    obtain ⟨e,he,heq⟩ := List.mem_map.mp hname
    obtain ⟨hin',hs⟩ := mem_onStore.mp he
    rcases hclear with rfl | hclear
    · refine hin ?_
      rw [← hc.eq_of_name hin' hs he' hs' heq]
      exact he
    · exact hclear.2 e hin' hs k' e' he' hs' heq.symm
  obtain ⟨location,t,hk,hafter⟩ := hm.location
  have hk' := congrFun hafter k
  rw [Function.update_self] at hk'
  refine ⟨fun hne e he hs => ?_,⟨location,_,hk,hk',?_,rfl,rfl⟩,hm.blockIDs,
    fun k' hk => hm.others hc hk,?_,
    htarget⟩
  · rw [hm.blocksOf] at he
    rw [hm.storeID he] at hs
    split at hs
    · exact hne hs.symm
    · rename_i hfrom
      exact hfrom hs
  · exact (hm.storeMap_iff hc hk').mpr (hclear.imp id fun h => h.1)
  · by_cases hne : fromStoreID = toStoreID
    · subst hne
      exact htarget
    · exact hm.source_agrees hc hne

theorem Migrated.clear (hm : Migrated g k fromStoreID toStoreID g') (hc : Coherent clock g)
    (hwell : MigratedWell clock g k fromStoreID toStoreID g') (hne : fromStoreID ≠ toStoreID) :
    TargetClear g k fromStoreID toStoreID := by
  obtain ⟨-,location,-,hk,hmap,-⟩ := hwell.timeline
  have hnone := ((hm.storeMap_iff hc hk).mp hmap).resolve_left hne
  refine ⟨hnone,fun e he hs k' e' he' hs' hname => ?_⟩
  have hin : e' ∉ onStore g fromStoreID (g.blocksOf k) :=
    fun hin => hne ((mem_onStore.mp hin).2.symm.trans hs')
  have hheld : (nameIn g k' e',e') ∈ g'.storeOf toStoreID := by
    refine (hwell.target.holds _ e').mpr ⟨k',?_,?_,?_⟩
    · rw [hm.blocksOf]
      exact he'
    · rw [(hm.entry e').2.2,if_neg hin]
      exact hs'
    · rw [(hm.entry e').1]
      rfl
  rcases hm.mem_target.mp hheld with ⟨-,hfree⟩ | ⟨hmoved,-⟩
  · refine hfree ?_
    rw [hname]
    exact List.mem_map_of_mem (mem_onStore.mpr ⟨he,hs⟩)
  · exact hin hmoved

end Migrated

/-- A migration that returns leaves views that agree exactly if source and target are the
same or the target is clear. -/
theorem migrated_well_iff_target_clear (clock : Nat → Int) {g g' : GlobalIndex}
    (hc : Coherent clock g) (k fromStoreID toStoreID : String)
    (hrun : migrateTimeline clock k fromStoreID toStoreID g = .ok () g') :
    MigratedWell clock g k fromStoreID toStoreID g' ↔
      fromStoreID = toStoreID ∨ TargetClear g k fromStoreID toStoreID := by
  have hm := wp_ok (wp_migrateTimeline_migrated hc k fromStoreID toStoreID) hrun
  exact ⟨fun hwell => or_iff_not_imp_left.mpr (hm.clear hc hwell),hm.well hc⟩

theorem migrateTimeline_returns (hc : Coherent clock g) (k fromStoreID toStoreID : String) {e : Nat}
    (he : e ∈ g.blocksOf k) :
    ∃ g', migrateTimeline clock k fromStoreID toStoreID g = .ok () g' ∧
      Migrated g k fromStoreID toStoreID g' := by
  have hpresent : g.timelineIndex k ≠ none := by
    intro hnone
    simp [GlobalIndex.blocksOf,hnone] at he
  obtain ⟨_,g',hrun,hm⟩ :=
    eq_ok_of_wp (wp_mono (wp_migrateTimeline_migrated hc k fromStoreID toStoreID)
    (fun _ _ h => h) (fun _ _ h => hpresent h))
  exact ⟨g',hrun,hm⟩

theorem migrated_well_iff_target_clear_one_block :
    ∃ g', migrateTimeline (fun _ => 0) "user:1001" "store-a" "store-b" oneBlock = .ok () g' ∧
      MigratedWell (fun _ => 0) oneBlock "user:1001" "store-a" "store-b" g' := by
  have hadded := final_addIndex (fun _ => 0) firstBlock newGlobalIndex
  obtain ⟨g',hrun,-⟩ := migrateTimeline_returns oneBlock_coherent "user:1001" "store-a" "store-b"
    (hadded.mem_blocksOf.mpr (Or.inr ⟨rfl,rfl⟩))
  refine ⟨g',hrun,(migrated_well_iff_target_clear (fun _ => 0) oneBlock_coherent _ _ _ hrun).mpr
    (Or.inr ?_)⟩
  have hstore : ∀ k, ∀ e ∈ oneBlock.blocksOf k, (oneBlock.entries e).storeID ≠ "store-b" := by
    intro k e he
    rw [(oneBlock_entry he).2.1]
    decide
  exact ⟨hstore _,fun e _ _ k' e' he' hs' => (hstore k' e' he' hs').elim⟩

def secondBlock : GlobalStoreIndex := ⟨"user:1001","store-b","block-2",0,256,0,0⟩

/-- A timeline with a block on each of two stores: after the migration its map has lost the
one that was on the target. -/
theorem target_blocks_lost :
    ¬ ∀ (clock : Nat → Int) (g g' : GlobalIndex) (k fromStoreID toStoreID : String),
    Coherent clock g → migrateTimeline clock k fromStoreID toStoreID g = .ok () g' →
      MigratedWell clock g k fromStoreID toStoreID g' := by
  intro hall
  have hadded := final_addIndex (fun _ => 0) secondBlock oneBlock
  have hc : Coherent (fun _ => 0) (final (addIndex (fun _ => 0) secondBlock) oneBlock) := by
    refine hadded.coherent oneBlock_coherent fun k e he => ?_
    rw [(oneBlock_entry he).1,(oneBlock_entry he).2.2]
    decide
  have hin : oneBlock.allocated ∈ (final (addIndex (fun _ => 0) secondBlock) oneBlock).blocksOf
      "user:1001" :=
    hadded.mem_blocksOf.mpr (Or.inr ⟨rfl,rfl⟩)
  obtain ⟨g',hrun,hm⟩ := migrateTimeline_returns hc "user:1001" "store-a" "store-b" hin
  obtain ⟨hnone,-⟩ := hm.clear hc (hall _ _ g' _ _ _ hc hrun) (by decide)
  obtain ⟨t,hentry⟩ := hadded.entry
  refine hnone _ hin ?_
  rw [hentry]
  rfl

end Imy.Index
