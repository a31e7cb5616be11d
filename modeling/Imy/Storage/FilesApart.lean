import Mathlib.Data.Set.Basic
import Imy.Lib.PathElements
import Imy.Storage.FileNames
set_option autoImplicit false

namespace Imy.Storage
open Imy.Lib

/-- No element of the ID between two separators is empty or made of one or two dots. -/
def ProperID (id : String) : Prop := ∀ e ∈ innerElems id.toList, NormalElem e

instance (id : String) : Decidable (ProperID id) :=
  inferInstanceAs (Decidable (∀ e ∈ innerElems id.toList, NormalElem e))

def Inside (dir : String) (p : Path) : Prop :=
  p.rooted = (clean dir.toList).rooted ∧
    ∃ rest, rest ≠ [] ∧ ['.','.'] ∉ rest ∧ p.elems = (clean dir.toList).elems ++ rest

/-- The timelines with these IDs have files of their own, all below the data directory. -/
structure FilesApart (c : StoreConfig) (ids : Set String) : Prop where
  metas : ∀ r r' : TimelineRef, r.id ∈ ids → r'.id ∈ ids → r ≠ r' →
    getTimelineMetaFilePath c r ≠ getTimelineMetaFilePath c r'
  blocks : ∀ (r r' : TimelineRef) (n n' : Int), r.id ∈ ids → r'.id ∈ ids →
    r.blockID n ≠ r'.blockID n' →
    getTimelineBlockFilePath c (r.blockID n) ≠ getTimelineBlockFilePath c (r'.blockID n')
  metaOfBlock : ∀ (r r' : TimelineRef) (n : Int), r.id ∈ ids → r'.id ∈ ids →
    getTimelineMetaFilePath c r ≠ getTimelineBlockFilePath c (r'.blockID n)
  metaInside : ∀ r : TimelineRef, r.id ∈ ids → Inside c.dataDir (getTimelineMetaFilePath c r)
  blockInside : ∀ (r : TimelineRef) (n : Int), r.id ∈ ids →
    Inside c.dataDir (getTimelineBlockFilePath c (r.blockID n))

theorem length_text (t : TimelineType) : t.text.toList.length = 4 := by cases t <;> decide

/-- A proper ID between a head and a tail long enough gives normal elements only. -/
theorem pieces_normal {id : String} (h : ProperID id) {pre suf : List Char} (hpre : '/' ∉ pre)
    (hsuf : '/' ∉ suf) (hl : 3 ≤ pre.length) (hl' : 3 ≤ suf.length) :
    ∀ e ∈ pieces (pre ++ id.toList ++ suf), NormalElem e := by
  intro e he
  rcases pieces_cases id.toList with hp | ⟨p,q,hp⟩
  · have hid : '/' ∉ id.toList := slash_not_mem_pieces (by rw [hp]; exact List.mem_singleton_self _)
    rw [pieces_of_not_mem (by simp [hpre,hsuf,hid]),List.mem_singleton] at he
    exact normal_of_length (by simp [he]; omega)
  · rw [pieces_around hpre hsuf hp] at he
    simp only [List.cons_append,List.mem_cons,List.mem_append,List.not_mem_nil,or_false] at he
    rcases he with rfl | he | rfl
    · exact normal_of_length (by simp; omega)
    · exact h e he
    · exact normal_of_length (by simp; omega)

theorem slash_not_mem_head (t : TimelineType) : '/' ∉ t.text.toList ++ ['_'] := by
  simp [slash_not_mem_text t]

theorem metaName_around (r : TimelineRef) :
    metaName r = (r.type.text.toList ++ ['_']) ++ r.id.toList ++ ['.','m','e','t','a'] := by
  simp [metaName]

theorem blockName_around (r : TimelineRef) (n : Int) :
    blockName (r.blockID n) = (['b','l','o','c','k','_'] ++ (r.type.text.toList ++ ['_'])) ++
      r.id.toList ++ ('_' :: (decimal n).toList ++ ['.','g','o','b']) := by
  simp [blockName,TimelineRef.blockID_toList]

theorem metaName_normal {r : TimelineRef} (h : ProperID r.id) :
    ∀ e ∈ pieces (metaName r), NormalElem e := by
  rw [metaName_around]
  exact pieces_normal h (slash_not_mem_head _) (by decide) (by simp [length_text]) (by simp)

theorem blockName_normal {r : TimelineRef} (h : ProperID r.id) (n : Int) :
    ∀ e ∈ pieces (blockName (r.blockID n)), NormalElem e := by
  rw [blockName_around]
  refine pieces_normal h ?_ ?_ (by simp) (by simp)
  · simp [slash_not_mem_text]
  · simp [slash_not_mem_decimal]

theorem inside_of_normal {dir : String} {n : List Char} (h : ∀ e ∈ pieces n, NormalElem e) :
    Inside dir (join dir.toList n) := by
  rw [join_normal h]
  exact ⟨rfl,pieces n,pieces_ne_nil n,fun hd => (h _ hd).notDots rfl,rfl⟩

theorem filesApart_of_proper {ids : Set String} (h : ∀ id ∈ ids, ProperID id) (c : StoreConfig) :
    FilesApart c ids where
  metas r r' hr hr' hne he := by
    rw [getTimelineMetaFilePath_eq,getTimelineMetaFilePath_eq] at he
    have hn := join_normal_injective (metaName_normal (h _ hr)) (metaName_normal (h _ hr')) he
    exact hne (TimelineRef.key_injective (List.append_cancel_right hn))
  blocks r r' n n' hr hr' hne he := by
    rw [getTimelineBlockFilePath_eq,getTimelineBlockFilePath_eq] at he
    have hn := join_normal_injective (blockName_normal (h _ hr) n)
      (blockName_normal (h _ hr') n') he
    exact hne (String.toList_inj.mp (List.append_cancel_left (List.append_cancel_right hn)))
  metaOfBlock r r' n hr hr' he := by
    rw [getTimelineMetaFilePath_eq,getTimelineBlockFilePath_eq] at he
    have hn := join_normal_injective (metaName_normal (h _ hr)) (blockName_normal (h _ hr') n) he
    obtain ⟨a,as,ht,-,hb⟩ := r.type.text_cons
    simp [metaName,blockName,ht,hb] at hn
  metaInside r hr := by
    rw [getTimelineMetaFilePath_eq]
    exact inside_of_normal (metaName_normal (h _ hr))
  blockInside r n hr := by
    rw [getTimelineBlockFilePath_eq]
    exact inside_of_normal (blockName_normal (h _ hr) n)

/-- The metadata path in the current directory, from the elements of the ID. -/
theorem metaFilePath_dot {r : TimelineRef} {p q : List Char} {es : List (List Char)}
    (hid : pieces r.id.toList = p :: es ++ [q]) :
    getTimelineMetaFilePath ⟨0,0,"."⟩ r =
      ⟨false,(es.foldl (resolve false) ([] ++ [r.type.text.toList ++ ['_'] ++ p])).reverse ++
        [q ++ ['.','m','e','t','a']]⟩ := by
  have hf : NormalElem (r.type.text.toList ++ ['_'] ++ p) :=
    normal_of_length (by simp [length_text]; omega)
  have hl : NormalElem (q ++ ['.','m','e','t','a']) := normal_of_length (by simp)
  have hn := pieces_around (slash_not_mem_head r.type)
    (by decide : '/' ∉ ['.','m','e','t','a']) hid
  rw [← metaName_around] at hn
  have hclean : getTimelineMetaFilePath ⟨0,0,"."⟩ r = clean ('.' :: '/' :: metaName r) := by
    rw [getTimelineMetaFilePath_eq]
    rfl
  have hpieces : pieces ('.' :: '/' :: metaName r) = ['.'] :: pieces (metaName r) := by
    simp [pieces]
  have hroot : (('.' :: '/' :: metaName r).head? == some '/') = false := rfl
  have hskip : resolve false [] ['.'] = [] := by decide
  rw [hclean,clean,hroot,hpieces,List.foldl_cons,hskip,hn,List.foldl_append,List.foldl_cons,
    resolve_normal hl,List.foldl_nil,List.foldl_cons,resolve_normal hf]
  simp

/-- An ID that is not proper shares its metadata file with that of a proper one, or those of a
conversation and of a user with this ID are the same. -/
theorem shared_of_not_proper {id : String} (h : ¬ ProperID id) :
    (∃ id', ProperID id' ∧ getTimelineMetaFilePath ⟨0,0,"."⟩ ⟨.conv,id⟩ =
      getTimelineMetaFilePath ⟨0,0,"."⟩ ⟨.conv,id'⟩) ∨
    getTimelineMetaFilePath ⟨0,0,"."⟩ ⟨.conv,id⟩ =
      getTimelineMetaFilePath ⟨0,0,"."⟩ ⟨.user,id⟩ := by
  rcases pieces_cases id.toList with hp | ⟨p,q,hid⟩
  · exact absurd (fun e he => by simp [innerElems,hp] at he) h
  have hslash := @slash_not_mem_pieces id.toList
  rw [hid] at hslash
  have hhead : ∀ t : TimelineType, NormalElem (t.text.toList ++ ['_'] ++ p) := fun t =>
    normal_of_length (by simp [length_text]; omega)
  rcases foldl_resolve_cases (innerElems id.toList) [] (by simp) with ⟨m,hm,hf⟩ | ⟨left,hl⟩
  · left
    -- The ID made of the elements that are left.
    have hpieces : pieces (['/'].intercalate (p :: m.reverse ++ [q])) = p :: m.reverse ++ [q] := by
      refine pieces_intercalate (by simp) fun e he => ?_
      simp only [List.cons_append,List.mem_cons,List.mem_append,List.mem_reverse,List.not_mem_nil,
        or_false] at he
      rcases he with rfl | he | rfl
      · exact hslash (by simp)
      · have hin : e ∈ innerElems id.toList := by simpa using (hm e he).2
        exact hslash (by simp [hin])
      · exact hslash (by simp)
    refine ⟨String.ofList (['/'].intercalate (p :: m.reverse ++ [q])),fun e he => ?_,?_⟩
    · rw [innerElems,String.toList_ofList,hpieces] at he
      exact (hm e (by simpa using he)).1
    · rw [metaFilePath_dot (r := ⟨.conv,id⟩) hid,metaFilePath_dot
        (by rw [String.toList_ofList,hpieces])]
      have hrow : ∀ e ∈ m.reverse, NormalElem e := fun e he => (hm e (by simpa using he)).1
      rw [hf _ (hhead .conv),foldl_resolve_normal hrow,List.reverse_reverse]
      rfl
  · right
    rw [metaFilePath_dot (r := ⟨.conv,id⟩) hid,metaFilePath_dot (r := ⟨.user,id⟩) hid,
      hl _ (hhead .conv),hl _ (hhead .user)]

/-- Whatever IDs a Store lets through beside the proper ones, timelines keep to files of their
own inside every data directory if and only if these are proper too. -/
theorem files_apart_iff (ids : Set String) :
    (∀ c, FilesApart c ({id | ProperID id} ∪ ids)) ↔ ∀ id ∈ ids, ProperID id := by
  constructor
  · intro h id hid
    by_contra hp
    have hm := (h ⟨0,0,"."⟩).metas
    rcases shared_of_not_proper hp with ⟨id',hp',he⟩ | he
    · refine hm ⟨.conv,id⟩ ⟨.conv,id'⟩ (.inr hid) (.inl hp') (fun heq => ?_) he
      obtain rfl : id = id' := congrArg TimelineRef.id heq
      exact hp hp'
    · exact hm _ _ (.inr hid) (.inr hid) (by simp) he
  · intro h c
    exact filesApart_of_proper (fun id hid => hid.elim (fun hp => hp) (h id)) c

/-- Two double dots in an ID: a conversation and a user share their metadata file, and with two
more the file is outside the data directory. -/
theorem files_not_apart : ¬ FilesApart ⟨1000,100,"data"⟩ {"a/../b"} ∧
    ¬ FilesApart ⟨1000,100,"data"⟩ {"x/../../y"} := by
  refine ⟨fun h => ?_,fun h => ?_⟩
  · exact h.metas ⟨.conv,"a/../b"⟩ ⟨.user,"a/../b"⟩ rfl rfl (by decide) (by decide)
  · obtain ⟨-,rest,-,-,he⟩ := h.metaInside ⟨.conv,"x/../../y"⟩ rfl
    have hy : (getTimelineMetaFilePath ⟨1000,100,"data"⟩ ⟨.conv,"x/../../y"⟩).elems =
        ["y.meta".toList] := by decide
    have hd : (clean "data".toList).elems = ["data".toList] := by decide
    rw [hy,hd] at he
    simp at he

end Imy.Storage
