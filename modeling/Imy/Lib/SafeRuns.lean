import Imy.Lib.Lists
set_option autoImplicit false

/-!
Runs of a step function whose steps meet a condition, and what becomes of a run from the
first step on that does not.
-/

namespace Imy.Lib

variable {α σ : Type} {next : σ → α → Option σ} {C : σ → α → Prop} {s t : σ} {a : α} {as : List α}

/-- Every step meets the condition in the state that it finds. -/
def Met (next : σ → α → Option σ) (C : σ → α → Prop) (s : σ) (as : List α) : Prop :=
  ∀ before a after, as = before ++ a :: after → ∀ u, before.foldlM next s = some u → C u a

theorem met_nil : Met next C s [] := by
  intro before a after hsplit
  simp at hsplit

theorem met_cons {u : σ} (h : next s a = some u) :
    Met next C s (a :: as) ↔ C s a ∧ Met next C u as := by
  refine (splits_cons (P := fun before a => ∀ u, before.foldlM next s = some u → C u a)).trans
    (and_congr ?_ ?_)
  · simp
  · simp [Met,List.foldlM_cons,h]

/-- `I` as long as the steps meet the condition, and `D` from the first one on that does
not. -/
theorem met_dichotomy {I D : σ → Prop} (start : I s)
    (keep : ∀ u a v, I u → C u a → next u a = some v → I v)
    (spoil : ∀ u a v, I u → ¬ C u a → next u a = some v → D v)
    (stay : ∀ u a v, D u → next u a = some v → D v) (run : as.foldlM next s = some t) :
    (Met next C s as ∧ I t) ∨ (¬ Met next C s as ∧ D t) := by
  induction as generalizing s with
  | nil =>
    cases run
    exact .inl ⟨met_nil,start⟩
  | cons a as ih =>
    rw [List.foldlM_cons,Option.bind_eq_bind,Option.bind_eq_some_iff] at run
    obtain ⟨u,hstep,hrest⟩ := run
    rw [met_cons hstep]
    by_cases hC : C s a
    · simpa [hC] using ih (keep s a u start hC hstep) hrest
    · refine .inr ⟨fun h => hC h.1,?_⟩
      have hD := spoil s a u start hC hstep
      clear ih start hC hstep
      induction as generalizing u with
      | nil =>
        cases hrest
        exact hD
      | cons b bs ihd =>
        rw [List.foldlM_cons,Option.bind_eq_bind,Option.bind_eq_some_iff] at hrest
        obtain ⟨v,hstep,hrest⟩ := hrest
        exact ihd v hrest (stay u b v hD hstep)

end Imy.Lib
