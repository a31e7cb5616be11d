import Mathlib.Data.List.Induction
set_option autoImplicit false

/-!
What the end of a run remembers of it: something happened, and since then only what keeps
it.
-/

namespace Imy.Lib

variable {α : Type} {P Q P' Q' : List α → α → Prop} {as : List α} {a : α}

/-- `Q` held of an event and the run before it, and `P` of each event since. -/
def Since (P Q : List α → α → Prop) (as : List α) : Prop :=
  ∃ before a after, as = before ++ a :: after ∧ Q before a ∧
    ∀ past b rest, after = past ++ b :: rest → P (before ++ a :: past) b

theorem not_since_nil : ¬ Since P Q [] := by
  rintro ⟨before,a,after,hsplit,-⟩
  exact List.append_ne_nil_of_right_ne_nil before (List.cons_ne_nil a after) hsplit.symm

theorem since_snoc : Since P Q (as ++ [a]) ↔ Q as a ∨ P as a ∧ Since P Q as := by
  constructor
  · rintro ⟨before,c,after,hsplit,hQ,hP⟩
    rcases List.eq_nil_or_concat after with rfl | ⟨after',last,rfl⟩
    · obtain ⟨rfl,heq⟩ := List.append_inj' hsplit rfl
      cases heq
      exact .inl hQ
    · rw [List.concat_eq_append,← List.cons_append,← List.append_assoc] at hsplit
      obtain ⟨hbefore,heq⟩ := List.append_inj' hsplit rfl
      cases heq
      refine .inr ⟨?_,before,c,after',hbefore,hQ,fun past b rest hpast => ?_⟩
      · rw [hbefore]
        exact hP after' a [] (List.concat_eq_append ..)
      · exact hP past b (rest ++ [a]) (by rw [hpast,List.concat_eq_append,List.append_assoc]; rfl)
  · rintro (hQ | ⟨hPa,before,c,after,rfl,hQ,hP⟩)
    · exact ⟨as,a,[],rfl,hQ,fun past b rest hpast => by simp at hpast⟩
    · refine ⟨before,c,after ++ [a],by simp,hQ,fun past b rest hpast => ?_⟩
      rcases List.eq_nil_or_concat rest with rfl | ⟨rest',last,rfl⟩
      · obtain ⟨rfl,heq⟩ := List.append_inj' hpast rfl
        cases heq
        exact hPa
      · rw [List.concat_eq_append,← List.cons_append,← List.append_assoc] at hpast
        exact hP past b rest' (List.append_inj' hpast rfl).1

theorem since_snoc_of_keeps (hQ : ¬ Q as a) (hP : P as a) :
    Since P Q (as ++ [a]) ↔ Since P Q as := by
  rw [since_snoc,or_iff_right hQ,and_iff_right hP]

theorem not_since_snoc (hQ : ¬ Q as a) (hP : ¬ P as a) : ¬ Since P Q (as ++ [a]) := by
  rw [since_snoc]
  rintro (h | h)
  · exact hQ h
  · exact hP h.1

end Imy.Lib
