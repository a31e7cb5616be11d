import Imy.Index.Coherence
set_option autoImplicit false

namespace Imy.Index
open Imy.Lib

structure SameIndex (g g' : GlobalIndex) : Prop where
  timelineIndex : g'.timelineIndex = g.timelineIndex
  storeIndex : g'.storeIndex = g.storeIndex
  loadInfo : g'.loadInfo = g.loadInfo
  entries : ∀ e < g.allocated, g'.entries e = g.entries e

/-- The block of the timeline that has the ID, and comes first. -/
def GlobalIndex.blockWith (g : GlobalIndex) (k blockID : String) : Option Nat :=
  (g.blocksOf k).find? fun e => (g.entries e).blockID = blockID

section Replace
variable {clock : Nat → Int} {g g' : GlobalIndex} {index : GlobalStoreIndex} {e new : Nat}

structure Updated (g : GlobalIndex) (index : GlobalStoreIndex) (e : Nat) (g' : GlobalIndex) :
    Prop where
  found : g.blockWith index.timelineKey index.blockID = some e
  allocated : g'.allocated = g.allocated+1
  entry : ∃ updatedAt, g'.entries g.allocated = { index with updatedAt := updatedAt }
  entries : ∀ e', e' ≠ g.allocated → g'.entries e' = g.entries e'
  location : ∃ location lastUpdate, g.timelineIndex index.timelineKey = some location ∧
    g'.timelineIndex index.timelineKey = some { location with
      totalSize := int64 (location.totalSize-(g.entries e).size+index.size)
      lastUpdate := lastUpdate
      blocks := replaceFirst g index.blockID g.allocated location.blocks
      storeMap := Function.update location.storeMap index.storeID
        (replaceFirst g index.blockID g.allocated (location.storeMap index.storeID)) }
  locations : ∀ k, k ≠ index.timelineKey → g'.timelineIndex k = g.timelineIndex k
  store : g'.storeOf index.storeID =
    assign (index.timelineKey ++ ":" ++ index.blockID) g.allocated (g.storeOf index.storeID)
  load : LoadHolds g' index.storeID
  stores : ∀ s, s ≠ index.storeID →
    g'.storeIndex s = g.storeIndex s ∧ g'.loadInfo s = g.loadInfo s

theorem replaceFirst_congr {blockID : String} {blocks : List Nat}
    (h : ∀ e ∈ blocks, g'.entries e = g.entries e) :
    replaceFirst g' blockID new blocks = replaceFirst g blockID new blocks := by
  induction blocks with
  | nil => rfl
  | cons e es ih =>
    rw [replaceFirst,replaceFirst,h e List.mem_cons_self,
      ih fun e' he' => h e' (List.mem_cons_of_mem e he')]

theorem find?_blockID_congr {blockID : String} {blocks : List Nat}
    (h : ∀ e ∈ blocks, g'.entries e = g.entries e) :
    (blocks.find? fun e => (g'.entries e).blockID = blockID) =
      blocks.find? fun e => (g.entries e).blockID = blockID := by
  induction blocks with
  | nil => rfl
  | cons e es ih =>
    rw [List.find?_cons,List.find?_cons,h e List.mem_cons_self,
      ih fun e' he' => h e' (List.mem_cons_of_mem e he')]

theorem replaceFirst_found {blockID : String} {before after : List Nat}
    (hbefore : ∀ b ∈ before, (g.entries b).blockID ≠ blockID)
    (he : (g.entries e).blockID = blockID) :
    replaceFirst g blockID new (before ++ e :: after) = before ++ new :: after := by
  induction before with
  | nil => rw [List.nil_append,replaceFirst,if_pos he,List.nil_append]
  | cons b before ih =>
    rw [List.cons_append,replaceFirst,if_neg (hbefore b List.mem_cons_self),
      ih fun b' hb' => hbefore b' (List.mem_cons_of_mem b hb'),List.cons_append]

theorem sum_replaced {size size' : Nat → Int} {before after : List Nat}
    (h : ∀ b ∈ before ++ after, size' b = size b) (e new : Nat) :
    ((before ++ new :: after).map size').sum =
      ((before ++ e :: after).map size).sum+(size' new-size e) := by
  have hleft : before.map size' = before.map size :=
    List.map_congr_left fun b hb => h b (List.mem_append_left _ hb)
  have hright : after.map size' = after.map size :=
    List.map_congr_left fun b hb => h b (List.mem_append_right _ hb)
  simp only [List.map_append,List.map_cons,List.sum_append,List.sum_cons,hleft,hright]
  omega

theorem filter_replaced (p p' : Nat → Bool) {before after : List Nat}
    (h : ∀ b ∈ before ++ after, p' b = p b)
    (new : Nat) : (before ++ new :: after).filter p' =
      before.filter p ++ ([new].filter p' ++ after.filter p) := by
  have hleft : before.filter p' = before.filter p :=
    List.filter_congr fun b hb => h b (List.mem_append_left _ hb)
  have hright : after.filter p' = after.filter p :=
    List.filter_congr fun b hb => h b (List.mem_append_right _ hb)
  rw [List.append_cons,List.filter_append,List.filter_append,hleft,hright,List.append_assoc]

theorem wp_updateIndex_updated (hc : Coherent clock g) (index : GlobalStoreIndex) :
    wp (updateIndex clock index) (fun _ g' => ∃ e, Updated g index e g')
      (fun fault g' => ((∃ text, fault = .error text) ∧ SameIndex g g' ∧
          g.blockWith index.timelineKey index.blockID = none) ∨
        (fault = .nilMap ∧ g.storeIndex index.storeID = none ∧
          (g.blockWith index.timelineKey index.blockID).isSome)) g := by
  simp only [updateIndex,wp_bind,wp_readTime,wp_newEntry,wp_get]
  generalize hg₁ : g.advance.alloc { index with updatedAt := clock g.tick } = g₁
  have hold : ∀ e, e ≠ g.allocated → g₁.entries e = g.entries e := by
    intro e he
    rw [← hg₁]
    exact Function.update_of_ne he _ _
  have hnew : g₁.entries g.allocated = { index with updatedAt := clock g.tick } := by
    rw [← hg₁]
    exact Function.update_self ..
  have hsame : SameIndex g g₁ := by
    subst hg₁
    exact ⟨rfl,rfl,rfl,fun e he => hold e (Nat.ne_of_lt he)⟩
  rw [hsame.timelineIndex]
  cases hk : g.timelineIndex index.timelineKey with
  | none =>
    refine Or.inl ⟨⟨_,rfl⟩,hsame,?_⟩
    simp only [GlobalIndex.blockWith,GlobalIndex.blocksOf,hk,List.find?_nil]
  | some location =>
    have hblocks : g.blocksOf index.timelineKey = location.blocks := by
      simp only [GlobalIndex.blocksOf,hk]
    have hthere : ∀ e ∈ location.blocks, g₁.entries e = g.entries e := by
      intro e he
      exact hsame.entries e (hc.pointers index.timelineKey e (hblocks ▸ he))
    have hin : ∀ e ∈ location.storeMap index.storeID, g₁.entries e = g.entries e := by
      intro e he
      rw [(hc.timelines _ _ hk).1.storeMap] at he
      exact hthere e (List.mem_of_mem_filter he)
    have hfound : g.blockWith index.timelineKey index.blockID =
        location.blocks.find? fun e => (g.entries e).blockID = index.blockID := by
      rw [GlobalIndex.blockWith,hblocks]
    simp only [find?_blockID_congr hthere,← hfound]
    cases hfind : g.blockWith index.timelineKey index.blockID with
    | none => exact Or.inl ⟨⟨_,rfl⟩,hsame,rfl⟩
    | some e =>
      have he := hthere e (List.mem_of_find?_eq_some (hfound ▸ hfind))
      simp only [wp_bind,wp_readTime,wp_modify,wp_ite,wp_throw,hsame.storeIndex]
      cases hstore : g.storeIndex index.storeID with
      | none => exact Or.inr ⟨trivial,rfl,rfl⟩
      | some blocks =>
        simp only [Option.isNone_some,Bool.false_eq_true,if_false,putStoreIndex,wp_modify]
        refine wp_mono (wp_updateStoreLoad_reloaded clock _ _) ?_ (fun _ _ h => h.elim)
        intro _ g' hr
        refine ⟨e,hfind,?_,⟨clock g.tick,?_⟩,fun e' he' => ?_,⟨location,clock g₁.tick,hk,?_⟩,
          fun k hne => ?_,?_,hr.load,fun s hs => ⟨?_,?_⟩⟩
        · rw [hr.same.allocated,← hg₁]
          rfl
        · rw [hr.same.entries]
          exact hnew
        · rw [hr.same.entries]
          exact hold e' he'
        · rw [hr.same.timelineIndex]
          refine (Function.update_self ..).trans ?_
          rw [he,replaceFirst_congr hthere,replaceFirst_congr hin]
          rfl
        · rw [hr.same.timelineIndex]
          exact (Function.update_of_ne hne _ _).trans (congrFun hsame.timelineIndex k)
        · rw [GlobalIndex.storeOf,hr.storeIndex]
          simp [GlobalIndex.storeOf,hsame.storeIndex]
        · rw [hr.storeIndex]
          exact (Function.update_of_ne hs _ _).trans (congrFun hsame.storeIndex s)
        · rw [hr.others s hs]
          exact congrFun hsame.loadInfo s

theorem Updated.split (hu : Updated g index e g') : ∃ before after,
    g.blocksOf index.timelineKey = before ++ e :: after ∧
    g'.blocksOf index.timelineKey = before ++ g.allocated :: after ∧
    (g.entries e).blockID = index.blockID ∧
      ∀ b ∈ before, (g.entries b).blockID ≠ index.blockID := by
  obtain ⟨location,t,hk,hk'⟩ := hu.location
  obtain ⟨hid,before,after,hsplit,hbefore⟩ := List.find?_eq_some_iff_append.mp hu.found
  have hid : (g.entries e).blockID = index.blockID := by simpa using hid
  have hbefore : ∀ b ∈ before, (g.entries b).blockID ≠ index.blockID := by simpa using hbefore
  have hblocks : g.blocksOf index.timelineKey = location.blocks := by
    simp only [GlobalIndex.blocksOf,hk]
  refine ⟨before,after,hsplit,?_,hid,hbefore⟩
  simp only [GlobalIndex.blocksOf,hk']
  rw [← hblocks,hsplit,replaceFirst_found hbefore hid]

theorem Updated.old_entry (hu : Updated g index e g') (hc : Coherent clock g)
    {k : String} {e' : Nat} (he' : e' ∈ g.blocksOf k) : g'.entries e' = g.entries e' :=
  hu.entries e' (Nat.ne_of_lt (hc.pointers k e' he'))

theorem Updated.blocksOf_other (hu : Updated g index e g') {k : String}
    (hk : k ≠ index.timelineKey) :
    g'.blocksOf k = g.blocksOf k := by
  simp only [GlobalIndex.blocksOf,hu.locations k hk]

theorem Updated.mem_blocksOf (hu : Updated g index e g') (hc : Coherent clock g)
    {k : String} {e' : Nat} :
    e' ∈ g'.blocksOf k ↔ (e' ∈ g.blocksOf k ∧ e' ≠ e) ∨
      (k = index.timelineKey ∧ e' = g.allocated) := by
  obtain ⟨before,after,hsplit,hsplit',-,-⟩ := hu.split
  have hin : e ∈ g.blocksOf index.timelineKey := by
    rw [hsplit]
    simp
  by_cases hk : k = index.timelineKey
  · subst hk
    have honce := hc.once index.timelineKey
    rw [hsplit,List.nodup_middle,List.nodup_cons] at honce
    rw [hsplit,hsplit']
    simp only [List.mem_append,List.mem_cons,true_and]
    constructor
    · rintro (h | rfl | h)
      · exact Or.inl ⟨Or.inl h,fun heq => honce.1 (heq ▸ List.mem_append_left _ h)⟩
      · exact Or.inr rfl
      · exact Or.inl ⟨Or.inr (Or.inr h),fun heq => honce.1 (heq ▸ List.mem_append_right _ h)⟩
    · rintro (⟨h | rfl | h,hne⟩ | rfl)
      · exact Or.inl h
      · exact (hne rfl).elim
      · exact Or.inr (Or.inr h)
      · exact Or.inr (Or.inl rfl)
  · rw [hu.blocksOf_other hk]
    simp only [hk,false_and,or_false,iff_self_and]
    rintro he' rfl
    exact hk ((hc.owned k e' he').symm.trans (hc.owned _ e' hin))

theorem Updated.balanced (hu : Updated g index e g') (hc : Coherent clock g)
    (hstay : (g.entries e).storeID = index.storeID) {location : TimelineLocation}
    (hk : g'.timelineIndex index.timelineKey = some location) :
    Balanced g' location ∧ location.blocks ≠ [] := by
  obtain ⟨before,after,hsplit,hsplit',hid,hbefore⟩ := hu.split
  obtain ⟨old,t,hold,hnew⟩ := hu.location
  obtain ⟨updatedAt,hentry⟩ := hu.entry
  rw [hnew] at hk
  cases hk
  have hblocks : old.blocks = before ++ e :: after := by
    rw [← hsplit]
    simp only [GlobalIndex.blocksOf,hold]
  have hthere : ∀ b ∈ before ++ after, g'.entries b = g.entries b := by
    intro b hb
    refine hu.old_entry hc (k := index.timelineKey) ?_
    rw [hsplit]
    rcases List.mem_append.mp hb with hb | hb
    · exact List.mem_append_left _ hb
    · exact List.mem_append_right _ (List.mem_cons_of_mem e hb)
  have hbalanced := (hc.timelines _ _ hold).1
  have hreplaced : replaceFirst g index.blockID g.allocated (before ++ e :: after) =
      before ++ g.allocated :: after :=
    replaceFirst_found hbefore hid
  refine ⟨⟨?_,?_,fun s => ?_⟩,?_⟩
  · simp only [hblocks,hreplaced,hbalanced.counted,List.length_append,List.length_cons]
  · have hsum := sum_replaced (fun b hb =>
      congrArg GlobalStoreIndex.size (hthere b hb)) e g.allocated
    have hshift : ∀ x : Int, x-(g.entries e).size+index.size =
        x+(index.size-(g.entries e).size) := by
      intro x
      omega
    rw [hentry] at hsum
    simp only [hblocks,hreplaced,hbalanced.total,GlobalIndex.sizeOf,hsum]
    rw [hshift,int64_add]
  · have hkept := filter_replaced (fun b => (g.entries b).storeID = s)
      (fun b => (g'.entries b).storeID = s)
      (fun b hb => by rw [hthere b hb]) g.allocated
    have hwas : ∀ p : Nat → Bool, (before ++ e :: after).filter p =
        before.filter p ++ ([e].filter p ++ after.filter p) :=
      fun p => filter_replaced p p (fun _ _ => rfl) e
    simp only [hblocks,hreplaced]
    rw [hkept]
    by_cases hs : s = index.storeID
    · subst hs
      rw [Function.update_self,hbalanced.storeMap,hblocks,hwas,
        List.filter_cons_of_pos (by simp [hstay]),
        List.filter_nil,List.singleton_append,replaceFirst_found (fun b hb => hbefore b ?_) hid,
        List.filter_cons_of_pos (by simp [hentry]),List.filter_nil,List.singleton_append]
      exact List.mem_of_mem_filter hb
    · rw [Function.update_of_ne hs,hbalanced.storeMap,hblocks,hwas,
        List.filter_cons_of_neg (by simp [hstay,Ne.symm hs]),List.filter_cons_of_neg
          (by simp [hentry,Ne.symm hs])]
      rfl
  · simp [hblocks,hreplaced]

theorem Updated.store_agrees (hu : Updated g index e g') (hc : Coherent clock g)
    (hstay : (g.entries e).storeID = index.storeID) : StoreAgrees clock g' index.storeID := by
  obtain ⟨before,after,hsplit,-,hid,-⟩ := hu.split
  obtain ⟨t,hnew⟩ := hu.entry
  have hin : e ∈ g.blocksOf index.timelineKey := by
    rw [hsplit]
    simp
  have hstore := hc.stores index.storeID
  refine ⟨by rw [hu.store]; exact assign_once hstore.once,
    fun key e' => ?_,(wp_getStoreLoad_iff _).mpr hu.load⟩
  rw [hu.store,mem_assign,hstore.holds]
  constructor
  · rintro (⟨⟨k,he',hon,rfl⟩,hkey⟩ | ⟨rfl,rfl⟩)
    · refine ⟨k,(hu.mem_blocksOf hc).mpr (Or.inl ⟨he',?_⟩),by rw [hu.old_entry hc he']; exact hon,
        by rw [hu.old_entry hc he']⟩
      rintro rfl
      rw [hid,← hc.owned k e' he',hc.owned _ e' hin] at hkey
      exact hkey rfl
    · exact ⟨_,(hu.mem_blocksOf hc).mpr (Or.inr ⟨rfl,rfl⟩),by rw [hnew],by rw [hnew]⟩
  · rintro ⟨k,he',hon,rfl⟩
    rcases (hu.mem_blocksOf hc).mp he' with ⟨hold,hne⟩ | ⟨rfl,rfl⟩
    · rw [hu.old_entry hc hold] at hon ⊢
      refine Or.inl ⟨⟨k,hold,hon,rfl⟩,fun hkey => hne ?_⟩
      -- the store has one block under this key
      refine hstore.eq_of_key ((hstore.holds _ e').mpr ⟨k,hold,hon,rfl⟩)
        ((hstore.holds _ e).mpr ⟨index.timelineKey,hin,hstay,?_⟩)
      rw [hkey,hid]
    · exact Or.inr ⟨by rw [hnew],rfl⟩

theorem Updated.other_store_agrees (hu : Updated g index e g') (hc : Coherent clock g)
    (hstay : (g.entries e).storeID = index.storeID) {s : String} (hs : s ≠ index.storeID) :
    StoreAgrees clock g' s := by
  obtain ⟨hstore,hload⟩ := hu.stores s hs
  obtain ⟨t,hnew⟩ := hu.entry
  refine (hc.stores s).congr hload hstore (fun k e' => ?_) fun k e' he' _ => by
    rw [hu.old_entry hc he']
    exact ⟨rfl,rfl⟩
  rw [hu.mem_blocksOf hc]
  constructor
  · rintro ⟨⟨he',hne⟩ | ⟨rfl,rfl⟩,hon⟩
    · rw [hu.old_entry hc he'] at hon
      exact ⟨he',hon⟩
    · rw [hnew] at hon
      exact (hs hon.symm).elim
  · rintro ⟨he',hon⟩
    rw [hu.old_entry hc he']
    refine ⟨Or.inl ⟨he',?_⟩,hon⟩
    rintro rfl
    exact hs (hon.symm.trans hstay)

theorem Updated.coherent (hu : Updated g index e g') (hc : Coherent clock g)
    (hstay : (g.entries e).storeID = index.storeID) : Coherent clock g' := by
  obtain ⟨before,after,hsplit,hsplit',-,-⟩ := hu.split
  obtain ⟨t,hnew⟩ := hu.entry
  refine ⟨fun k e' he' => ?_,fun k e' he' => ?_,fun k => ?_,fun k location hk => ?_,fun s => ?_⟩
  · rw [hu.allocated]
    rcases (hu.mem_blocksOf hc).mp he' with ⟨hold,-⟩ | ⟨-,rfl⟩
    · exact Nat.lt_succ_of_lt (hc.pointers k e' hold)
    · exact Nat.lt_succ_self _
  · rcases (hu.mem_blocksOf hc).mp he' with ⟨hold,-⟩ | ⟨rfl,rfl⟩
    · rw [hu.old_entry hc hold]
      exact hc.owned k e' hold
    · rw [hnew]
  · by_cases hk : k = index.timelineKey
    · subst hk
      have honce := hc.once index.timelineKey
      have hfresh : g.allocated ∉ g.blocksOf index.timelineKey :=
        fun hin => (hc.pointers _ _ hin).false
      rw [hsplit] at honce hfresh
      rw [hsplit']
      rw [List.nodup_middle,List.nodup_cons] at honce ⊢
      refine ⟨fun hin => hfresh ?_,honce.2⟩
      rcases List.mem_append.mp hin with hin | hin
      · exact List.mem_append_left _ hin
      · exact List.mem_append_right _ (List.mem_cons_of_mem e hin)
    · rw [hu.blocksOf_other hk]
      exact hc.once k
  · by_cases hkey : k = index.timelineKey
    · subst hkey
      exact hu.balanced hc hstay hk
    · rw [hu.locations k hkey] at hk
      have hblocks : g.blocksOf k = location.blocks := by simp only [GlobalIndex.blocksOf,hk]
      obtain ⟨hb,hne⟩ := hc.timelines k location hk
      exact ⟨hb.congr fun b hb => hu.old_entry hc (hblocks ▸ hb),hne⟩
  · by_cases hs : s = index.storeID
    · subst hs
      exact hu.store_agrees hc hstay
    · exact hu.other_store_agrees hc hstay hs

end Replace

section Main
variable {clock : Nat → Int} {g g' : GlobalIndex}

structure UpdatedWell (clock : Nat → Int) (g : GlobalIndex) (index : GlobalStoreIndex)
    (g' : GlobalIndex) : Prop where
  block : ∃ before old after updatedAt, g.entriesOf index.timelineKey = before ++ old :: after ∧
    old.blockID = index.blockID ∧
    g'.entriesOf index.timelineKey = before ++ { index with updatedAt := updatedAt } :: after
  others : ∀ k, k ≠ index.timelineKey → g'.entriesOf k = g.entriesOf k
  timeline : ∃ location, g'.timelineIndex index.timelineKey = some location ∧ Balanced g' location
  oldStore : ∀ e, g.blockWith index.timelineKey index.blockID = some e →
    StoreAgrees clock g' (g.entries e).storeID
  newStore : StoreAgrees clock g' index.storeID

/-- The call returns; with an error it has changed nothing, without one it has done what
it should. -/
def UpdateKeepsViews (clock : Nat → Int) (g : GlobalIndex) (index : GlobalStoreIndex) : Prop :=
  wp (updateIndex clock index) (fun _ g' => UpdatedWell clock g index g')
    (fun fault g' => (∃ text, fault = .error text) ∧ SameIndex g g') g

/-- The block, if there is one, is on the store that the update names. -/
def StaysOnStore (g : GlobalIndex) (index : GlobalStoreIndex) : Prop :=
  ∀ e, g.blockWith index.timelineKey index.blockID = some e → (g.entries e).storeID = index.storeID

theorem entriesOf_eq_map (g : GlobalIndex) (k : String) :
    g.entriesOf k = (g.blocksOf k).map g.entries := by
  unfold GlobalIndex.entriesOf GlobalIndex.blocksOf
  cases g.timelineIndex k <;> rfl

theorem Updated.well {index : GlobalStoreIndex} {e : Nat} (hu : Updated g index e g')
    (hc : Coherent clock g) (hstay : (g.entries e).storeID = index.storeID) :
    UpdatedWell clock g index g' := by
  obtain ⟨before,after,hsplit,hsplit',hid,-⟩ := hu.split
  obtain ⟨location,t,-,hk⟩ := hu.location
  obtain ⟨updatedAt,hnew⟩ := hu.entry
  have hcoherent := hu.coherent hc hstay
  have hsame : ∀ k, ∀ l ⊆ g.blocksOf k, l.map g'.entries = l.map g.entries := by
    intro k l hl
    exact List.map_congr_left fun b hb => hu.old_entry hc (hl hb)
  refine ⟨⟨before.map g.entries,g.entries e,after.map g.entries,updatedAt,?_,hid,?_⟩,
    fun k hne => ?_,
    ⟨_,hk,(hcoherent.timelines _ _ hk).1⟩,fun e' _ => hcoherent.stores _,hcoherent.stores _⟩
  · rw [entriesOf_eq_map,hsplit,List.map_append,List.map_cons]
  · have hleft := hsame index.timelineKey before (by rw [hsplit]; simp)
    have hright := hsame index.timelineKey after (by rw [hsplit]; intro b hb; simp [hb])
    rw [entriesOf_eq_map,hsplit',List.map_append,List.map_cons,hleft,hright,hnew]
  · rw [entriesOf_eq_map,entriesOf_eq_map,hu.blocksOf_other hne]
    exact hsame k _ (List.Subset.refl _)

theorem Updated.staysOnStore {index : GlobalStoreIndex} {e : Nat} (hu : Updated g index e g')
    (hc : Coherent clock g) (hagrees : StoreAgrees clock g' (g.entries e).storeID) :
    (g.entries e).storeID = index.storeID := by
  by_contra hne
  have hin : e ∈ g.blocksOf index.timelineKey := List.mem_of_find?_eq_some hu.found
  have hshown := ((hc.stores (g.entries e).storeID).holds _ e).mpr ⟨index.timelineKey,hin,rfl,rfl⟩
  have hsame : g'.storeOf (g.entries e).storeID = g.storeOf (g.entries e).storeID := by
    rw [GlobalIndex.storeOf,(hu.stores _ hne).1,GlobalIndex.storeOf]
  rw [← hsame] at hshown
  obtain ⟨k,he,-⟩ := (hagrees.holds _ e).mp hshown
  rcases (hu.mem_blocksOf hc).mp he with ⟨-,hself⟩ | ⟨-,rfl⟩
  · exact hself rfl
  · exact (hc.pointers _ _ hin).false

/-- An update keeps the views exactly if it leaves the block on its store. -/
theorem update_keeps_views_iff_same_store (clock : Nat → Int) (g : GlobalIndex)
    (hc : Coherent clock g) (index : GlobalStoreIndex) :
    UpdateKeepsViews clock g index ↔ StaysOnStore g index := by
  have hcall := wp_updateIndex_updated hc index
  unfold UpdateKeepsViews
  cases hx : updateIndex clock index g with
  | ok u g' =>
    obtain ⟨e,hu⟩ := wp_ok hcall hx
    rw [wp,hx]
    constructor
    · rintro hwell e' he'
      obtain rfl := Option.some.inj (he'.symm.trans hu.found)
      exact hu.staysOnStore hc (hwell.oldStore e' he')
    · exact fun hstay => hu.well hc (hstay e hu.found)
  | error fault g' =>
    rw [wp,hx]
    rcases wp_error hcall hx with ⟨htext,hsame,hnone⟩ | ⟨rfl,hunknown,hfound⟩
    · refine iff_of_true ⟨htext,hsame⟩ fun e he => ?_
      rw [hnone] at he
      cases he
    · refine iff_of_false ?_ fun hstay => ?_
      · rintro ⟨⟨text,htext⟩,-⟩
        cases htext
      · obtain ⟨e,he⟩ := Option.isSome_iff_exists.mp hfound
        have hshown := ((hc.stores index.storeID).holds _ e).mpr
          ⟨index.timelineKey,List.mem_of_find?_eq_some he,hstay e he,rfl⟩
        rw [GlobalIndex.storeOf,hunknown] at hshown
        cases hshown

end Main

theorem update_keeps_views_iff_same_store_new_size :
    UpdateKeepsViews (fun _ => 0) oneBlock { firstBlock with size := 1024 } := by
  refine (update_keeps_views_iff_same_store _ _ oneBlock_coherent _).mpr fun e he => ?_
  exact (oneBlock_entry (List.mem_of_find?_eq_some he)).2.1

/-- The block goes to a store that has no block yet: the call panics. -/
theorem update_to_unknown_store_panics : Coherent (fun _ => 0) oneBlock ∧
    ¬ UpdateKeepsViews (fun _ => 0) oneBlock { firstBlock with storeID := "store-b" } := by
  refine ⟨oneBlock_coherent,?_⟩
  rintro ⟨⟨text,htext⟩,-⟩
  cases htext

end Imy.Index
