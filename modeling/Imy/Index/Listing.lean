import Mathlib.Data.List.TakeWhile
import Imy.Index.Migration
import Imy.Index.StoreLoads
import Imy.Index.Update
set_option autoImplicit false

namespace Imy.Index
open Imy.Lib

section Pieces

def firstPiece (k : String) : String := String.ofList (k.toList.takeWhile (· ≠ ':'))

def NoColon (k : String) : Prop := ':' ∉ k.toList

theorem splitColon_of_colon (rest : List Char) {pre : List Char} (h : ':' ∉ pre)
    (piece : List Char) :
    splitColon piece (pre ++ ':' :: rest) = String.ofList (piece ++ pre) :: splitColon [] rest := by
  induction pre generalizing piece with
  | nil => rw [List.nil_append,splitColon,List.append_nil]
  | cons c pre ih =>
    obtain ⟨hc,hpre⟩ : ':' ≠ c ∧ ':' ∉ pre := by simpa [not_or] using h
    rw [List.cons_append,splitColon,ih hpre,List.append_assoc]
    · rfl
    · exact hc.symm

theorem noColon_firstPiece (k : String) : NoColon (firstPiece k) := by
  intro hin
  rw [firstPiece,String.toList_ofList] at hin
  have hno := List.mem_takeWhile_imp hin
  simp at hno

theorem firstPiece_of_noColon {k : String} (h : NoColon k) : firstPiece k = k := by
  have hall : k.toList.takeWhile (· ≠ ':') = k.toList := by
    refine List.takeWhile_eq_self_iff.mpr fun c hc => ?_
    simpa using fun heq : c = ':' => h (heq ▸ hc)
  rw [firstPiece,hall,String.ofList_toList]

theorem head_splitTimelineKey (k b : String) :
    (splitTimelineKey (k ++ ":" ++ b)).head? = some (firstPiece k) := by
  have hchars : (k ++ ":" ++ b).toList = k.toList ++ ':' :: b.toList := by
    simp [String.toList_append]
  rw [splitTimelineKey,hchars]
  by_cases hk : ':' ∈ k.toList
  · obtain ⟨pre,rest,hsplit,hpre⟩ := List.eq_append_cons_of_mem hk
    have htake : k.toList.takeWhile (· ≠ ':') = pre := by
      have hbefore : ∀ c ∈ pre, c ≠ ':' := fun c hc heq => hpre (heq ▸ hc)
      rw [hsplit,List.takeWhile_append_of_pos (by simpa using hbefore)]
      simp
    rw [firstPiece,htake,hsplit,List.append_assoc,List.cons_append,splitColon_of_colon _ hpre]
    rfl
  · rw [splitColon_of_colon _ hk,firstPiece_of_noColon hk]
    simp

theorem eq_of_names {k k' b b' : String} (hk : NoColon k) (hk' : NoColon k')
    (h : k ++ ":" ++ b = k' ++ ":" ++ b') : k = k' ∧ b = b' := by
  have hhead := head_splitTimelineKey k b
  rw [h,head_splitTimelineKey,firstPiece_of_noColon hk,firstPiece_of_noColon hk'] at hhead
  obtain rfl := Option.some.inj hhead
  refine ⟨rfl,String.toList_inj.mp ?_⟩
  have hchars := congrArg String.toList h
  simpa [String.toList_append] using hchars

end Pieces

section Shown
variable {clock : Nat → Int} {g g' : GlobalIndex}

structure Shown (g : GlobalIndex) : Prop where
  wellFormed : g.WellFormed
  owned : ∀ k, ∀ e ∈ g.blocksOf k, (g.entries e).timelineKey = k
  once : ∀ k, (g.blocksOf k).Nodup
  shown : ∀ s key e, (key,e) ∈ g.storeOf s →
    ∃ k, e ∈ g.blocksOf k ∧ (g.entries e).storeID = s ∧ key = nameIn g k e

theorem GlobalIndex.WellFormed.lt (hw : g.WellFormed) {k : String} {e : Nat}
    (he : e ∈ g.blocksOf k) :
    e < g.allocated := by
  unfold GlobalIndex.blocksOf at he
  split at he
  · cases he
  · rename_i location hk
    exact hw.pointers k location hk e he

theorem Shown.eq_of_mem (h : Shown g) {k k' : String} {e : Nat} (he : e ∈ g.blocksOf k)
    (he' : e ∈ g.blocksOf k') : k = k' := (h.owned k e he).symm.trans (h.owned k' e he')

theorem Shown.of_mem (h : Shown g) {s key k : String} {e : Nat} (hkey : (key,e) ∈ g.storeOf s)
    (he : e ∈ g.blocksOf k) : (g.entries e).storeID = s ∧ key = nameIn g k e := by
  obtain ⟨k',he',hs,hname⟩ := h.shown s key e hkey
  obtain rfl := h.eq_of_mem he he'
  exact ⟨hs,hname⟩

theorem shown_new : Shown newGlobalIndex where
  wellFormed := wellFormed_new
  owned _ _ he := by cases he
  once _ := List.nodup_nil
  shown _ _ _ he := by cases he

theorem Added.shown {index : GlobalStoreIndex} (ha : Added g index g') (hw : g'.WellFormed)
    (h : Shown g) : Shown g' := by
  obtain ⟨t,hnew⟩ := ha.entry
  have hold : ∀ {k e}, e ∈ g.blocksOf k → g'.entries e = g.entries e :=
    fun he => ha.entries _ (Nat.ne_of_lt (h.wellFormed.lt he))
  refine ⟨hw,fun k e he => ?_,fun k => ?_,fun s key e he => ?_⟩
  · rcases ha.mem_blocksOf.mp he with hin | ⟨rfl,rfl⟩
    · rw [hold hin]
      exact h.owned k e hin
    · rw [hnew]
  · by_cases hk : k = index.timelineKey
    · subst hk
      rw [ha.blocksOf_self]
      refine List.Nodup.append (h.once _) (by simp) fun e he hin => ?_
      rw [List.mem_singleton.mp hin] at he
      exact (h.wellFormed.lt he).false
    · rw [ha.blocksOf_other hk]
      exact h.once k
  · have hkept : (key,e) ∈ g.storeOf s →
        ∃ k, e ∈ g'.blocksOf k ∧ (g'.entries e).storeID = s ∧ key = nameIn g' k e := by
      intro hin
      obtain ⟨k,hblock,hs,hname⟩ := h.shown s key e hin
      refine ⟨k,ha.mem_blocksOf.mpr (Or.inl hblock),by rw [hold hblock]; exact hs,?_⟩
      rw [nameIn,hold hblock]
      exact hname
    by_cases hs : s = index.storeID
    · subst hs
      rw [ha.store] at he
      rcases mem_assign.mp he with ⟨hin,-⟩ | ⟨rfl,rfl⟩
      · exact hkept hin
      · exact ⟨_,ha.mem_blocksOf.mpr (Or.inr ⟨rfl,rfl⟩),by rw [hnew],by rw [nameIn,hnew]⟩
    · rw [GlobalIndex.storeOf,(ha.stores s hs).1] at he
      exact hkept he

variable {k blockID : String} {e : Nat}

theorem Removed.blocksOf_self (hr : Removed g k blockID e g') (hw : g.WellFormed) :
    g.blockWith k blockID = some e ∧ g'.blocksOf k = (g.blocksOf k).erase e := by
  obtain ⟨location,t,hbefore,hfind,hafter⟩ := hr.location
  have hblocks : g.blocksOf k = location.blocks := by simp only [GlobalIndex.blocksOf,hbefore]
  have hid : (g.entries e).blockID = blockID := by simpa using List.find?_some hfind
  have hcount := TimelineLocation.remove_counted (hw.counted k location hbefore)
    (List.mem_of_find?_eq_some hfind) hid t
  have herase : (location.remove g blockID (g.entries e) t).blocks = location.blocks.erase e :=
    eraseP_eq_erase hfind
  refine ⟨by rw [GlobalIndex.blockWith,hblocks]; exact hfind,?_⟩
  rw [hblocks,← herase]
  simp only [GlobalIndex.blocksOf,hafter]
  by_cases hzero : (location.remove g blockID (g.entries e) t).blockCount = 0
  · rw [if_pos hzero]
    exact (List.length_eq_zero_iff.mp (by omega)).symm
  · rw [if_neg hzero]

theorem Removed.mem_blocksOf_shown (hr : Removed g k blockID e g') (h : Shown g)
    {k' : String} {e' : Nat} :
    e' ∈ g'.blocksOf k' ↔ e' ∈ g.blocksOf k' ∧ e' ≠ e := by
  obtain ⟨hfind,hblocks⟩ := hr.blocksOf_self h.wellFormed
  by_cases hk : k' = k
  · subst hk
    rw [hblocks,(h.once k').mem_erase_iff]
    exact and_comm
  · rw [hr.blocksOf_other hk,iff_self_and]
    rintro hin rfl
    exact hk (h.eq_of_mem hin (List.mem_of_find?_eq_some hfind))

theorem Removed.shown (hr : Removed g k blockID e g') (hw : g'.WellFormed) (h : Shown g) :
    Shown g' := by
  obtain ⟨hfind,hblocks⟩ := hr.blocksOf_self h.wellFormed
  have hin := List.mem_of_find?_eq_some hfind
  have hid : (g.entries e).blockID = blockID := by simpa using List.find?_some hfind
  have hname : ∀ k', nameIn g' k' = nameIn g k' := fun k' => by
    funext e'
    rw [nameIn,nameIn,hr.entries]
  refine ⟨hw,fun k' e' he' => ?_,fun k' => ?_,fun s key e' he' => ?_⟩
  · rw [hr.entries]
    exact h.owned k' e' ((hr.mem_blocksOf_shown h).mp he').1
  · by_cases hk : k' = k
    · subst hk
      rw [hblocks]
      exact (h.once k').erase e
    · rw [hr.blocksOf_other hk]
      exact h.once k'
  · have hold : (key,e') ∈ g.storeOf s ∧ e' ≠ e := by
      by_cases hs : s = (g.entries e).storeID
      · subst hs
        rw [hr.store] at he'
        obtain ⟨hold,hkey⟩ := mem_delete.mp he'
        refine ⟨hold,?_⟩
        rintro rfl
        exact hkey ((h.of_mem hold hin).2.trans (by rw [nameIn,hid]))
      · rw [GlobalIndex.storeOf,(hr.stores s hs).1] at he'
        refine ⟨he',?_⟩
        rintro rfl
        exact hs (h.of_mem he' hin).1.symm
    obtain ⟨k',hblock,hs,hkey⟩ := h.shown s key e' hold.1
    refine ⟨k',(hr.mem_blocksOf_shown h).mpr ⟨hblock,hold.2⟩,?_,?_⟩
    · rw [hr.entries]
      exact hs
    · rw [hname]
      exact hkey

end Shown

section Listing
variable (clock : Nat → Int) (g : GlobalIndex)

/-- Each store lists the timelines that have a block on it, each once, and counts them. -/
def ListsExactly : Prop :=
  ∀ s, wp (listTimelinesByStore s) (fun timelines _ => timelines.Nodup ∧
    (∀ k, k ∈ timelines ↔ ∃ e ∈ g.blocksOf k, (g.entries e).storeID = s) ∧
    wp (getStoreLoad clock s) (fun load _ => load.timelineCount = timelines.length)
      (fun _ _ => False) g) (fun _ _ => False) g

def PlainKeys : Prop := ∀ k, ∀ e ∈ g.blocksOf k, NoColon k

def Covered : Prop :=
  ∀ s k, ∀ e ∈ g.blocksOf k, (g.entries e).storeID = s →
    ∃ key e', (key,e') ∈ g.storeOf s ∧ e' ∈ g.blocksOf k

variable {clock g} {g' : GlobalIndex}

theorem wp_listTimelinesByStore (s : String) : wp (listTimelinesByStore s)
    (fun timelines _ => timelines = timelinesIn (g.storeOf s)) (fun _ _ => False) g := by
  simp only [listTimelinesByStore,wp_bind,wp_get,GlobalIndex.storeOf]
  cases g.storeIndex s with
  | none => rfl
  | some blocks => rfl

theorem mem_timelinesIn (h : Shown g) {s k : String} : k ∈ timelinesIn (g.storeOf s) ↔
    ∃ key e k', (key,e) ∈ g.storeOf s ∧ e ∈ g.blocksOf k' ∧ firstPiece k' = k := by
  rw [timelinesIn,List.mem_dedup,List.mem_filterMap]
  constructor
  · rintro ⟨⟨key,e⟩,hin,hhead⟩
    obtain ⟨k',he,-,rfl⟩ := h.shown s key e hin
    rw [nameIn,head_splitTimelineKey] at hhead
    exact ⟨_,e,k',hin,he,Option.some.inj hhead⟩
  · rintro ⟨key,e,k',hin,he,rfl⟩
    refine ⟨(key,e),hin,?_⟩
    rw [(h.of_mem hin he).2,nameIn,head_splitTimelineKey]

theorem listsExactly_iff (h : Shown g) (hloads : ∀ s, LoadCurrent g s) :
    ListsExactly clock g ↔ PlainKeys g ∧ Covered g := by
  have hlist : ListsExactly clock g ↔
      ∀ s k, k ∈ timelinesIn (g.storeOf s) ↔ ∃ e ∈ g.blocksOf k, (g.entries e).storeID = s := by
    refine forall_congr' fun s => ⟨fun hs => ?_,fun hs => ?_⟩
    · obtain ⟨timelines,g',heq,-,hmem,-⟩ := eq_ok_of_wp hs
      obtain rfl := wp_ok (wp_listTimelinesByStore s) heq
      exact hmem
    · refine wp_mono (wp_listTimelinesByStore s) ?_ fun _ _ h => h
      rintro _ _ rfl
      refine ⟨List.nodup_dedup _,hs,wp_mono (wp_getStoreLoad clock (hloads s)) ?_ fun _ _ h => h⟩
      rintro _ _ ⟨t,rfl⟩
      rfl
  rw [hlist]
  constructor
  · intro hexact
    have hplain : PlainKeys g := by
      intro k e he
      obtain ⟨-,-,k',-,-,rfl⟩ := (mem_timelinesIn h).mp ((hexact _ k).mpr ⟨e,he,rfl⟩)
      exact noColon_firstPiece k'
    refine ⟨hplain,fun s k e he hs => ?_⟩
    obtain ⟨key,e',k',hkey,he',hpiece⟩ := (mem_timelinesIn h).mp ((hexact s k).mpr ⟨e,he,hs⟩)
    rw [firstPiece_of_noColon (hplain k' e' he')] at hpiece
    exact ⟨key,e',hkey,hpiece ▸ he'⟩
  · rintro ⟨hplain,hcovered⟩ s k
    rw [mem_timelinesIn h]
    constructor
    · rintro ⟨key,e,k',hkey,he,rfl⟩
      rw [firstPiece_of_noColon (hplain k' e he)]
      exact ⟨e,he,(h.of_mem hkey he).1⟩
    · rintro ⟨e,he,hs⟩
      obtain ⟨key,e',hkey,he'⟩ := hcovered s k e he hs
      exact ⟨key,e',k,hkey,he',firstPiece_of_noColon (hplain k e he)⟩

/-- A step after which the listing is as exact as before: an add names a timeline without a
colon; a removal leaves a store that keeps blocks of the timeline one of another ID that
the store shows. -/
def KeepsListing (g : GlobalIndex) : IndexOp → Prop
  | .addIndex index => NoColon index.timelineKey
  | .removeIndex k blockID =>
    ∀ e, g.blockWith k blockID = some e →
      (∃ e' ∈ g.blocksOf k, e' ≠ e ∧ (g.entries e').storeID = (g.entries e).storeID) →
        ∃ e' ∈ g.blocksOf k, (g.entries e').blockID ≠ blockID ∧
          nameIn g k e' ∈ (g.storeOf (g.entries e).storeID).map Prod.fst
  | _ => True

theorem Added.keeps_listing {index : GlobalStoreIndex} (ha : Added g index g') (h : Shown g)
    (hplain : PlainKeys g) (hcovered : Covered g) :
    (PlainKeys g' ∧ Covered g') ↔ NoColon index.timelineKey := by
  obtain ⟨t,hnew⟩ := ha.entry
  have hin : g.allocated ∈ g'.blocksOf index.timelineKey := ha.mem_blocksOf.mpr (Or.inr ⟨rfl,rfl⟩)
  refine ⟨fun hg' => hg'.1 _ _ hin,fun hkey => ⟨fun k e he => ?_,fun s k e he hs => ?_⟩⟩
  · rcases ha.mem_blocksOf.mp he with hold | ⟨rfl,-⟩
    · exact hplain k e hold
    · exact hkey
  · have hshown : (index.timelineKey ++ ":" ++ index.blockID,g.allocated) ∈
        g'.storeOf index.storeID := by
      rw [ha.store]
      exact mem_assign.mpr (Or.inr ⟨rfl,rfl⟩)
    rcases ha.mem_blocksOf.mp he with hold | ⟨rfl,rfl⟩
    · rw [ha.entries e (Nat.ne_of_lt (h.wellFormed.lt hold))] at hs
      obtain ⟨key,e',hold',he'⟩ := hcovered s k e hold hs
      by_cases hstore : s = index.storeID
      · subst hstore
        by_cases hname : key = index.timelineKey ++ ":" ++ index.blockID
        · -- the new block takes the place of one of the same timeline
          obtain ⟨rfl,-⟩ :=
            eq_of_names (hplain k e hold) hkey ((h.of_mem hold' he').2.symm.trans hname)
          exact ⟨_,_,hshown,hin⟩
        · refine ⟨key,e',?_,ha.mem_blocksOf.mpr (Or.inl he')⟩
          rw [ha.store]
          exact mem_assign.mpr (Or.inl ⟨hold',hname⟩)
      · refine ⟨key,e',?_,ha.mem_blocksOf.mpr (Or.inl he')⟩
        rw [GlobalIndex.storeOf,(ha.stores s hstore).1]
        exact hold'
    · rw [hnew] at hs
      subst hs
      exact ⟨_,_,hshown,hin⟩

theorem Removed.keeps_listing {k blockID : String} {e : Nat}
    (hr : Removed g k blockID e g') (h : Shown g) (hplain : PlainKeys g) (hcovered : Covered g) :
    (PlainKeys g' ∧ Covered g') ↔ KeepsListing g (.removeIndex k blockID) := by
  obtain ⟨hfind,-⟩ := hr.blocksOf_self h.wellFormed
  have hin := List.mem_of_find?_eq_some hfind
  have hid : (g.entries e).blockID = blockID := by simpa using List.find?_some hfind
  have hleft : ∀ {k' e'}, e' ∈ g'.blocksOf k' ↔ e' ∈ g.blocksOf k' ∧ e' ≠ e :=
    hr.mem_blocksOf_shown h
  have hstore : ∀ key e', (key,e') ∈ g'.storeOf (g.entries e).storeID ↔
      (key,e') ∈ g.storeOf (g.entries e).storeID ∧ key ≠ k ++ ":" ++ blockID := by
    intro key e'
    rw [hr.store,mem_delete]
  constructor
  · rintro ⟨-,hcovered'⟩ e₁ he₁ ⟨e',he',hne,hs⟩
    obtain rfl := Option.some.inj (he₁.symm.trans hfind)
    have hs' : (g'.entries e').storeID = (g.entries e₁).storeID := by
      rw [hr.entries]
      exact hs
    obtain ⟨key,e₂,hkey,he₂⟩ := hcovered' _ k e' (hleft.mpr ⟨he',hne⟩) hs'
    obtain ⟨hold,hname⟩ := (hstore key e₂).mp hkey
    have hof := h.of_mem hold (hleft.mp he₂).1
    refine ⟨e₂,(hleft.mp he₂).1,fun heq => hname ?_,List.mem_map.mpr ⟨_,hold,hof.2⟩⟩
    rw [hof.2,nameIn,heq]
  · intro hkeeps
    refine ⟨fun k' e' he' => hplain k' e' (hleft.mp he').1,fun s k' e' he' hs => ?_⟩
    rw [hr.entries] at hs
    obtain ⟨hold',hne⟩ := hleft.mp he'
    by_cases hsame : k' = k ∧ s = (g.entries e).storeID
    · obtain ⟨rfl,rfl⟩ := hsame
      obtain ⟨e₁,he₁,hid₁,hshown⟩ := hkeeps e hfind ⟨e',hold',hne,hs⟩
      obtain ⟨⟨key,e₂⟩,hkey,hname⟩ := List.mem_map.mp hshown
      obtain ⟨k₂,he₂,-,rfl⟩ := h.shown _ _ _ hkey
      -- the store may show another block of this timeline and ID
      obtain ⟨rfl,hid₂⟩ := eq_of_names (hplain k₂ e₂ he₂) (hplain k' e₁ he₁) hname
      refine ⟨_,e₂,(hstore _ _).mpr ⟨hkey,fun heq => hid₁ ?_⟩,hleft.mpr ⟨he₂,?_⟩⟩
      · rw [← hid₂]
        exact (eq_of_names (hplain _ _ he₂) (hplain _ _ hin) heq).2
      · rintro rfl
        exact hid₁ (hid₂.symm.trans hid)
    · obtain ⟨key,e₂,hkey,he₂⟩ := hcovered s k' e' hold' hs
      have hof := h.of_mem hkey he₂
      have hother : e₂ ≠ e := by
        rintro rfl
        exact hsame ⟨h.eq_of_mem he₂ hin,hof.1.symm⟩
      refine ⟨key,e₂,?_,hleft.mpr ⟨he₂,hother⟩⟩
      by_cases hs' : s = (g.entries e).storeID
      · subst hs'
        refine (hstore _ _).mpr ⟨hkey,fun heq => hsame ⟨?_,rfl⟩⟩
        exact (eq_of_names (hplain _ _ he₂) (hplain _ _ hin) (hof.2.symm.trans heq)).1
      · rw [GlobalIndex.storeOf,(hr.stores s hs').1]
        exact hkey

end Listing

section Runs
variable {clock : Nat → Int}

def AddOrRemove (op : IndexOp) : Prop :=
  (∃ index, op = .addIndex index) ∨ ∃ k blockID, op = .removeIndex k blockID

theorem runIndex_concat (ops : List IndexOp) (op : IndexOp) (g : GlobalIndex) :
    runIndex clock (ops ++ [op]) g = final (op.exec clock) (runIndex clock ops g) := by
  rw [runIndex,List.foldl_append]
  rfl

theorem reachable_run (clock : Nat → Int) (ops : List IndexOp) :
    IndexReachable clock (runIndex clock ops newGlobalIndex) := by
  induction ops using List.reverseRecOn with
  | nil => exact .new
  | append_singleton ops op ih =>
    rw [runIndex_concat]
    exact .exec op ih

theorem shown_run (clock : Nat → Int) (ops : List IndexOp) (honly : ∀ op ∈ ops, AddOrRemove op) :
    Shown (runIndex clock ops newGlobalIndex) := by
  induction ops using List.reverseRecOn with
  | nil => exact shown_new
  | append_singleton ops op ih =>
    have hbefore := ih fun op' hop' => honly op' (List.mem_append_left _ hop')
    have hw := (reachable_run clock (ops ++ [op])).wellFormed
    rw [runIndex_concat] at hw ⊢
    rcases honly op (by simp) with ⟨index,rfl⟩ | ⟨k,blockID,rfl⟩
    · exact (final_addIndex clock index _).shown hw hbefore
    · refine final_of_wp (P := fun g : GlobalIndex => g.WellFormed → Shown g) ?_ hw
      refine wp_mono (wp_removeIndex_removed clock k blockID _) ?_ ?_
      · rintro _ g' ⟨e,hr⟩ hw'
        exact hr.shown hw' hbefore
      · rintro _ g' ⟨rfl,-⟩ _
        exact hbefore

theorem blockWith_eq_none {g : GlobalIndex} {k blockID : String}
    (h : ∀ entry ∈ g.entriesOf k, entry.blockID ≠ blockID) : g.blockWith k blockID = none := by
  refine List.find?_eq_none.mpr fun e he => ?_
  rw [entriesOf_eq_map] at h
  simpa using h _ (List.mem_map_of_mem he)

theorem lists_exactly_next {g : GlobalIndex} {op : IndexOp} (h : Shown g)
    (h' : Shown (final (op.exec clock) g))
    (hloads : ∀ s, LoadCurrent g s) (hloads' : ∀ s, LoadCurrent (final (op.exec clock) g) s)
    (hop : AddOrRemove op) (hexact : ListsExactly clock g) :
    ListsExactly clock (final (op.exec clock) g) ↔ KeepsListing g op := by
  obtain ⟨hplain,hcovered⟩ := (listsExactly_iff h hloads).mp hexact
  rw [listsExactly_iff h' hloads']
  rcases hop with ⟨index,rfl⟩ | ⟨k,blockID,rfl⟩
  · exact (final_addIndex clock index g).keeps_listing h hplain hcovered
  · refine final_of_wp (P := fun g' : GlobalIndex => (PlainKeys g' ∧ Covered g') ↔ _) ?_
    refine wp_mono (wp_and (wp_removeIndex_removed clock k blockID g)
      (wp_removeIndex clock k blockID h.wellFormed)) ?_ ?_
    · rintro _ g' ⟨⟨e,hr⟩,-⟩
      exact hr.keeps_listing h hplain hcovered
    · rintro _ g' ⟨⟨rfl,-⟩,-,-,hnone⟩
      refine iff_of_true ⟨hplain,hcovered⟩ fun e he => ?_
      rw [blockWith_eq_none hnone] at he
      cases he

/-- In a run of adds and removes every state lists exactly, if and only if every operation
keeps the listing. -/
theorem lists_exactly_iff_plain_keys (clock : Nat → Int) (ops : List IndexOp)
    (honly : ∀ op ∈ ops, AddOrRemove op) :
    (∀ before after, ops = before ++ after →
      ListsExactly clock (runIndex clock before newGlobalIndex)) ↔
      ∀ before op after, ops = before ++ op :: after →
        KeepsListing (runIndex clock before newGlobalIndex) op := by
  have hloads := fun ops s => (reachable_run clock ops).loadCurrent s
  refine beginnings_iff ?_ fun before op after hsplit hexact => ?_
  · refine (listsExactly_iff shown_new fun _ => rfl).mpr ⟨fun k e he => ?_,fun s k e he => ?_⟩
    · cases he
    · cases he
  · have hin : ∀ op' ∈ before ++ [op], AddOrRemove op' := by
      intro op' hop'
      refine honly op' ?_
      rw [hsplit]
      rcases List.mem_append.mp hop' with hop' | hop'
      · exact List.mem_append_left _ hop'
      · rw [List.mem_singleton.mp hop']
        simp
    have hbefore := shown_run clock before fun op' hop' => hin op' (List.mem_append_left _ hop')
    have hafter := shown_run clock (before ++ [op]) hin
    have hloads' := hloads (before ++ [op])
    rw [runIndex_concat] at hafter hloads' ⊢
    exact lists_exactly_next hbefore hafter (hloads before) hloads' (hin op (by simp)) hexact

end Runs

def plainBlock : GlobalStoreIndex := ⟨"user_1001","store-a","block-1",0,512,0,0⟩

theorem lists_exactly_iff_plain_keys_comes_and_goes :
    (∀ op ∈ [IndexOp.addIndex plainBlock,.removeIndex "user_1001" "block-1"], AddOrRemove op) ∧
      ∀ before after, [IndexOp.addIndex plainBlock,.removeIndex "user_1001" "block-1"] =
        before ++ after →
        ListsExactly (fun _ => 0) (runIndex (fun _ => 0) before newGlobalIndex) := by
  have honly : ∀ op ∈ [IndexOp.addIndex plainBlock,.removeIndex "user_1001" "block-1"],
      AddOrRemove op := by
    intro op hop
    rcases List.mem_cons.mp hop with rfl | hop
    · exact Or.inl ⟨_,rfl⟩
    · exact Or.inr ⟨_,_,List.mem_singleton.mp hop⟩
  refine ⟨honly,(lists_exactly_iff_plain_keys (fun _ => 0) _ honly).mpr
    (splits_cons.mpr ⟨?_,splits_cons.mpr ⟨?_,fun before op after hsplit => ?_⟩⟩)⟩
  · change NoColon "user_1001"
    unfold NoColon
    decide
  · have hblocks :
        (runIndex (fun _ => 0) [.addIndex plainBlock] newGlobalIndex).blocksOf
        "user_1001" = [0] := by
      decide
    rintro e he ⟨e',he',hne,-⟩
    have hin := List.mem_of_find?_eq_some he
    rw [hblocks,List.mem_singleton] at hin he'
    exact (hne (he'.trans hin.symm)).elim
  · simp at hsplit

/-- The timeline of the usage example: it is listed as `user`. -/
theorem key_with_colons_listed_short :
    ¬ ListsExactly (fun _ => 0) (runIndex (fun _ => 0)
      [.addIndex ⟨"user:1001:messages","store-a","block-1",0,512,0,0⟩] newGlobalIndex) := by
  intro hexact
  have hadded :=
    final_addIndex (fun _ => 0) ⟨"user:1001:messages","store-a","block-1",0,512,0,0⟩ newGlobalIndex
  have hplain :=
    ((listsExactly_iff (shown_run _ _ fun op hop => Or.inl ⟨_,List.mem_singleton.mp hop⟩)
    (reachable_run _ _).loadCurrent).mp hexact).1
  have hin := hadded.mem_blocksOf.mpr (Or.inr ⟨rfl,rfl⟩)
  exact absurd (hplain _ _ hin) (by unfold NoColon; decide)

end Imy.Index
