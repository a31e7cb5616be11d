import Mathlib.Data.List.Basic
set_option autoImplicit false

/-!
Frames of several lines each, with a separator between two lines of a frame.
-/

namespace Imy.Lib

variable {α : Type}

theorem intercalate_concat {ls : List (List α)} (sep : List α) (hne : ls ≠ []) (l : List α) :
    sep.intercalate (ls ++ [l]) = sep.intercalate ls ++ sep ++ l := by
  induction ls with
  | nil => exact absurd rfl hne
  | cons first ls ih =>
    cases ls with
    | nil => simp [List.intercalate]
    | cons second ls =>
      have hrest := ih (List.cons_ne_nil _ _)
      simp only [List.cons_append,List.intercalate_cons_cons] at hrest ⊢
      rw [hrest]
      simp only [List.append_assoc]

def lines [BEq α] (sep : α) (frames : List (List α)) : List (List α) :=
  frames.flatMap fun frame => frame.splitOn sep

@[simp] theorem lines_nil [BEq α] (sep : α) : lines sep [] = [] := rfl

theorem lines_concat [BEq α] [LawfulBEq α] {held : List (List α)} (sep : α)
    (frames : List (List α)) (hne : held ≠ []) (hlines : ∀ l ∈ held, sep ∉ l) :
    lines sep (frames ++ [[sep].intercalate held]) = lines sep frames ++ held := by
  simp only [lines,List.flatMap_append,List.flatMap_singleton]
  rw [List.splitOn_intercalate sep hlines hne]

end Imy.Lib
