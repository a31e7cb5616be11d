import Imy.Storage.Timeline
set_option autoImplicit false

namespace Imy.Storage
open Imy.Lib

/-- The ID has no path separator. -/
def TimelineRef.Plain (r : TimelineRef) : Prop := '/' ∉ r.id.toList

instance (r : TimelineRef) : Decidable r.Plain := inferInstanceAs (Decidable ('/' ∉ r.id.toList))

@[simp] theorem text_conv : TimelineType.conv.text.toList = ['c','o','n','v'] := by decide

@[simp] theorem text_user : TimelineType.user.text.toList = ['u','s','e','r'] := by decide

theorem slash_not_mem_text (t : TimelineType) : '/' ∉ t.text.toList := by cases t <;> decide

theorem TimelineType.text_cons (t : TimelineType) :
    ∃ c cs, t.text.toList = c :: cs ∧ c ≠ '.' ∧ c ≠ 'b' := by
  cases t with
  | conv => exact ⟨'c',['o','n','v'],by decide,by decide,by decide⟩
  | user => exact ⟨'u',['s','e','r'],by decide,by decide,by decide⟩

theorem TimelineRef.key_injective {r r' : TimelineRef}
    (h : r.type.text.toList ++ '_' :: r.id.toList = r'.type.text.toList ++ '_' :: r'.id.toList) :
    r = r' := by
  obtain ⟨t,id⟩ := r
  obtain ⟨t',id'⟩ := r'
  cases t <;> cases t' <;> simp_all [String.toList_inj]

def metaName (r : TimelineRef) : List Char :=
  r.type.text.toList ++ '_' :: r.id.toList ++ ['.','m','e','t','a']

def blockName (blockID : String) : List Char :=
  ['b','l','o','c','k','_'] ++ blockID.toList ++ ['.','g','o','b']

theorem getTimelineMetaFilePath_eq (c : StoreConfig) (r : TimelineRef) :
    getTimelineMetaFilePath c r = join c.dataDir.toList (metaName r) :=
  congrArg (join c.dataDir.toList) (by simp [metaName])

theorem getTimelineBlockFilePath_eq (c : StoreConfig) (id : String) :
    getTimelineBlockFilePath c id = join c.dataDir.toList (blockName id) :=
  congrArg (join c.dataDir.toList) (by simp [blockName])

theorem TimelineRef.blockID_toList (r : TimelineRef) (nano : Int) :
    (r.blockID nano).toList =
      (r.type.text.toList ++ '_' :: r.id.toList) ++ '_' :: (decimal nano).toList := by
  have hu : "_".toList = ['_'] := by decide
  simp only [TimelineRef.blockID,String.toList_append,hu,List.append_assoc,List.cons_append,
    List.nil_append]

theorem TimelineRef.blockID_injective {r r' : TimelineRef} {n n' : Int}
    (h : r.blockID n = r'.blockID n') : r = r' ∧ n = n' := by
  have hl := congrArg String.toList h
  rw [TimelineRef.blockID_toList,TimelineRef.blockID_toList] at hl
  obtain ⟨hr,hn⟩ := split_at_last (underscore_not_mem_decimal n) (underscore_not_mem_decimal n') hl
  exact ⟨TimelineRef.key_injective hr,decimal_injective (String.toList_inj.mp hn)⟩

theorem metaName_plain {r : TimelineRef} (h : r.Plain) : PlainName (metaName r) := by
  obtain ⟨c,cs,ht,hc,-⟩ := r.type.text_cons
  have hs := slash_not_mem_text r.type
  refine ⟨?_,?_,?_,?_⟩
  · simp only [metaName,List.mem_append,List.mem_cons,not_or]
    exact ⟨⟨hs,by decide,h⟩,by decide⟩
  all_goals simp [metaName,ht,hc]

theorem blockName_plain {r : TimelineRef} (h : r.Plain) (n : Int) :
    PlainName (blockName (r.blockID n)) := by
  have hs := slash_not_mem_text r.type
  refine ⟨?_,?_,?_,?_⟩
  · simp only [blockName,TimelineRef.blockID_toList,List.mem_append,List.mem_cons,not_or]
    exact ⟨⟨by decide,⟨hs,by decide,h⟩,by decide,slash_not_mem_decimal n⟩,by decide⟩
  all_goals simp [blockName]

/-- Timelines with plain IDs have metadata files of their own. -/
theorem metaFilePath_injective {c : StoreConfig} {r r' : TimelineRef} (h : r.Plain) (h' : r'.Plain)
    (he : getTimelineMetaFilePath c r = getTimelineMetaFilePath c r') : r = r' := by
  rw [getTimelineMetaFilePath_eq,getTimelineMetaFilePath_eq] at he
  have hn := join_plain_injective (metaName_plain h) (metaName_plain h') he
  exact TimelineRef.key_injective (List.append_cancel_right hn)

/-- The files of blocks differ, also across timelines: the time stamp is what follows the last
underscore. -/
theorem blockFilePath_injective {c : StoreConfig} {r r' : TimelineRef} {n n' : Int} (h : r.Plain)
    (h' : r'.Plain)
    (he : getTimelineBlockFilePath c (r.blockID n) = getTimelineBlockFilePath c (r'.blockID n')) :
    r = r' ∧ n = n' := by
  rw [getTimelineBlockFilePath_eq,getTimelineBlockFilePath_eq] at he
  have hn := join_plain_injective (blockName_plain h n) (blockName_plain h' n') he
  have hid := List.append_cancel_left (List.append_cancel_right hn)
  exact TimelineRef.blockID_injective (String.toList_inj.mp hid)

theorem metaFilePath_ne_blockFilePath {c : StoreConfig} {r r' : TimelineRef} {n : Int}
    (h : r.Plain) (h' : r'.Plain) :
    getTimelineMetaFilePath c r ≠ getTimelineBlockFilePath c (r'.blockID n) := by
  intro he
  rw [getTimelineMetaFilePath_eq,getTimelineBlockFilePath_eq] at he
  have hn := join_plain_injective (metaName_plain h) (blockName_plain h' n) he
  obtain ⟨c,cs,ht,-,hb⟩ := r.type.text_cons
  simp [metaName,blockName,ht,hb] at hn

end Imy.Storage
