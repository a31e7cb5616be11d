import Mathlib.Data.String.Basic
set_option autoImplicit false

/-!
Parts that are joined by a separator, and what they are cut at it into again.
-/

namespace Imy.Lib

section Lists
variable {α : Type}

theorem cut_eq_cut_iff {sep : α} {x y z w : List α} : x ++ sep :: y = z ++ sep :: w ↔
    (x = z ∧ y = w) ∨ (∃ t, z = x ++ sep :: t ∧ y = t ++ sep :: w) ∨
      ∃ t, x = z ++ sep :: t ∧ w = t ++ sep :: y := by
  constructor
  · intro h
    rcases List.append_eq_append_iff.mp h with ⟨between,hz,hy⟩ | ⟨between,hx,hw⟩
    · cases between with
      | nil => exact Or.inl ⟨by simp [hz],(List.cons.inj hy).2⟩
      | cons c t =>
        obtain ⟨rfl,htail⟩ := List.cons.inj hy
        exact Or.inr (Or.inl ⟨t,hz,htail⟩)
    · cases between with
      | nil => exact Or.inl ⟨by simp [hx],(List.cons.inj hw).2.symm⟩
      | cons c t =>
        obtain ⟨rfl,htail⟩ := List.cons.inj hw
        exact Or.inr (Or.inr ⟨t,hx,htail⟩)
  · rintro (⟨rfl,rfl⟩ | ⟨t,rfl,rfl⟩ | ⟨t,rfl,rfl⟩)
    · rfl
    · simp
    · simp

variable [BEq α] [LawfulBEq α] {sep : α}

theorem not_mem_of_mem_splitOn {s part : List α} (h : part ∈ s.splitOn sep) : sep ∉ part := by
  induction s generalizing part with
  | nil =>
    rw [List.splitOn_nil,List.mem_singleton] at h
    simp [h]
  | cons c s ih =>
    rw [List.splitOn_cons_eq_if_modifyHead] at h
    obtain ⟨first,rest,hparts⟩ := List.exists_cons_of_ne_nil (List.splitOn_ne_nil sep s)
    rw [hparts] at h ih
    split at h
    · rcases List.mem_cons.mp h with rfl | h
      · simp
      · exact ih h
    · rename_i hc
      rw [List.modifyHead_cons] at h
      rcases List.mem_cons.mp h with rfl | h
      · have hfirst := ih List.mem_cons_self
        have hne : ¬ c = sep := by simpa using hc
        simp [hfirst,Ne.symm hne]
      · exact ih (List.mem_cons_of_mem _ h)

/-- Parts come back from the list that they are joined to, if there are any and none of
them has the separator. -/
theorem splitOn_intercalate_iff {parts : List (List α)} :
    ([sep].intercalate parts).splitOn sep = parts ↔ parts ≠ [] ∧ ∀ part ∈ parts, sep ∉ part := by
  constructor
  · intro h
    refine ⟨?_,fun part hpart => ?_⟩
    · rintro rfl
      exact List.splitOn_ne_nil sep _ h
    · rw [← h] at hpart
      exact not_mem_of_mem_splitOn hpart
  · rintro ⟨hne,hparts⟩
    exact List.splitOn_intercalate sep hparts hne

end Lists

section Strings
variable {sep : Char}

open String in
/-- The loop of `splitOn`: `m` is the piece so far, and `r` is what is still to be read. -/
theorem splitOnAux_singleton (sep : Char) (l m r : List Char) (acc : List String) :
    splitOnAux (ofList (l ++ m ++ r)) (ofList [sep]) ⟨utf8Len l⟩ ⟨utf8Len l+utf8Len m⟩ 0 acc =
      acc.reverse ++ (List.splitOnPPrepend (· == sep) r m.reverse).map ofList := by
  induction r generalizing l m acc with
  | nil =>
    have hend : Pos.Raw.atEnd (ofList (l ++ m ++ [])) ⟨utf8Len l+utf8Len m⟩ = true := by
      simp [-ofList_append]
    rw [splitOnAux,if_pos hend]
    dsimp only
    rw [extract_of_valid l m []]
    simp
  | cons c r ih =>
    have hend : ¬ Pos.Raw.atEnd (ofList (l ++ m ++ c :: r)) ⟨utf8Len l+utf8Len m⟩ = true := by
      have hpos := c.utf8Size_pos
      simp [-ofList_append]
      omega
    have hget : Pos.Raw.get (ofList (l ++ m ++ c :: r)) ⟨utf8Len l+utf8Len m⟩ = c := by
      simpa [-ofList_append] using get_of_valid (l ++ m) (c :: r)
    have hnext : Pos.Raw.next (ofList (l ++ m ++ c :: r)) ⟨utf8Len l+utf8Len m⟩ =
        ⟨utf8Len l+utf8Len m+c.utf8Size⟩ := by
      simpa [-ofList_append] using next_of_valid (l ++ m) c r
    have hsep : Pos.Raw.get (ofList [sep]) 0 = sep := get_of_valid [] [sep]
    have hsepNext : Pos.Raw.next (ofList [sep]) 0 = ⟨sep.utf8Size⟩ := by
      simpa using next_of_valid [] sep []
    have hsepEnd : Pos.Raw.atEnd (ofList [sep]) ⟨sep.utf8Size⟩ = true := by
      simpa using atEnd_of_valid [sep] []
    rw [splitOnAux,if_neg hend,hget,hsep]
    dsimp only
    rw [hnext,hsepNext,if_pos hsepEnd,List.splitOnPPrepend_cons_eq_if]
    by_cases hc : c = sep
    · subst hc
      have hback : (⟨utf8Len l+utf8Len m+c.utf8Size⟩ : Pos.Raw).unoffsetBy ⟨c.utf8Size⟩ =
          ⟨utf8Len l+utf8Len m⟩ := by
        simp [Pos.Raw.unoffsetBy]
      have hrest := ih (l ++ m ++ [c]) [] (ofList m :: acc)
      rw [if_pos (by simp),if_pos (by simp),hback,extract_of_valid l m (c :: r)]
      simpa [-ofList_append,Nat.add_assoc] using hrest
    · have hrest := ih l (m ++ [c]) acc
      have hback : (⟨utf8Len l+utf8Len m⟩ : Pos.Raw).unoffsetBy 0 = ⟨utf8Len l+utf8Len m⟩ := by
        simp [Pos.Raw.unoffsetBy]
      rw [if_neg (by simp [hc]),if_neg (by simp [hc]),hback,hnext]
      simpa [-ofList_append,Nat.add_assoc] using hrest

theorem splitOn_singleton (s : String) (sep : Char) :
    s.splitOn (String.singleton sep) = (s.toList.splitOn sep).map String.ofList := by
  have hloop := splitOnAux_singleton sep [] [] s.toList []
  have hne : ¬ (String.singleton sep == "") = true := by simp
  rw [String.splitOn,if_neg hne]
  simpa [List.splitOn_eq_splitOnP] using hloop

theorem splitOn_join_iff (sep : Char) (parts : List String) :
    ((String.singleton sep).intercalate parts).splitOn (String.singleton sep) = parts ↔
      parts ≠ [] ∧ ∀ part ∈ parts, sep ∉ part.toList := by
  have hback : parts = (parts.map String.toList).map String.ofList := by simp
  rw [splitOn_singleton,String.toList_intercalate,String.toList_singleton]
  constructor
  · intro h
    have hlists : ([sep].intercalate (parts.map String.toList)).splitOn sep =
        parts.map String.toList := by
      rw [← h]
      simp
    obtain ⟨hne,hparts⟩ := splitOn_intercalate_iff.mp hlists
    exact ⟨by simpa using hne,by simpa using hparts⟩
  · rintro ⟨hne,hparts⟩
    rw [splitOn_intercalate_iff.mpr ⟨by simpa using hne,by simpa using hparts⟩]
    exact hback.symm

theorem join_eq_empty_iff (sep : Char) (parts : List String) :
    (String.singleton sep).intercalate parts = "" ↔ parts = [] ∨ parts = [""] := by
  cases parts with
  | nil => simp
  | cons part parts =>
    cases parts with
    | nil => simp
    | cons next parts =>
      have hsep : sep ∈ ((String.singleton sep).intercalate (part :: next :: parts)).toList := by
        simp [String.toList_intercalate]
      refine iff_of_false (fun hempty => ?_) (by simp)
      rw [hempty] at hsep
      simp at hsep

end Strings

end Imy.Lib
