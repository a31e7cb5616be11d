import Mathlib.Data.List.Induction
set_option autoImplicit false

namespace Imy.Lib

variable {α σ : Type}

/-- The runs of a labelled step relation. -/
inductive Steps (step : α → σ → σ → Prop) : σ → List α → σ → Prop where
  | done (s : σ) : Steps step s [] s
  | more {a : α} {as : List α} {s t u : σ} (first : step a s t) (rest : Steps step t as u) :
      Steps step s (a :: as) u

theorem Steps.invariant {step : α → σ → σ → Prop} {I : σ → Prop}
    (keep : ∀ a s t, I s → step a s t → I t) {s t : σ} {as : List α} (run : Steps step s as t)
    (start : I s) : I t := by
  induction run with
  | done => exact start
  | more first _ ih => exact ih (keep _ _ _ start first)

theorem Steps.imp {step step' : α → σ → σ → Prop} (h : ∀ a s t, step a s t → step' a s t)
    {s t : σ} {as : List α} (run : Steps step s as t) : Steps step' s as t := by
  induction run with
  | done => exact .done _
  | more first _ ih => exact .more (h _ _ _ first) ih

/-- A run of a step function that stops where a guard fails. -/
def runWhile (guard : α → σ → Prop) [∀ a s, Decidable (guard a s)] (next : α → σ → Option σ) :
    List α → σ → Option σ
  | [], s => some s
  | a :: as, s => if guard a s then (next a s).bind (runWhile guard next as) else none

theorem steps_of_runWhile {guard : α → σ → Prop} [∀ a s, Decidable (guard a s)]
    {next : α → σ → Option σ} (as : List α) {s t : σ} (h : runWhile guard next as s = some t) :
    Steps (fun a s t => guard a s ∧ next a s = some t) s as t := by
  induction as generalizing s with
  | nil =>
    cases h
    exact .done _
  | cons a as ih =>
    rw [runWhile] at h
    split at h
    · rename_i hg
      obtain ⟨m,hm,hrest⟩ := Option.bind_eq_some_iff.mp h
      exact .more ⟨hg,hm⟩ (ih hrest)
    · cases h

section Partial
variable {next : σ → α → Option σ} {s t : σ}

theorem runs_concat (next : σ → α → Option σ) (s : σ) (as : List α) (a : α) :
    (as ++ [a]).foldlM next s = (as.foldlM next s).bind fun t => next t a := by
  rw [List.foldlM_append]
  cases hrun : as.foldlM next s with
  | none => simp
  | some t => simp

theorem runs_initial {before after : List α} (run : (before ++ after).foldlM next s = some t) :
    ∃ u, before.foldlM next s = some u := by
  rw [List.foldlM_append,Option.bind_eq_bind,Option.bind_eq_some_iff] at run
  obtain ⟨u,hbefore,-⟩ := run
  exact ⟨u,hbefore⟩

theorem runs_keep {I : σ → Prop} {C : σ → α → Prop} (start : I s)
    (keep : ∀ u a v, I u → C u a → next u a = some v → I v) (as : List α)
    (meets : ∀ before a after, as = before ++ a :: after →
      ∀ u, before.foldlM next s = some u → C u a)
    {t : σ} (run : as.foldlM next s = some t) : I t := by
  induction as using List.reverseRecOn generalizing t with
  | nil =>
    cases run
    exact start
  | append_singleton as a ih =>
    rw [runs_concat,Option.bind_eq_some_iff] at run
    obtain ⟨u,hbefore,hstep⟩ := run
    refine keep u a t (ih (fun before b after hsplit => meets before b (after ++ [a]) ?_) hbefore)
      (meets as a [] rfl u hbefore) hstep
    rw [hsplit,List.append_assoc]
    rfl

end Partial

section Tally

/-- How many operations of a run meet a condition in the state that they find. -/
def tally (next : σ → α → Option σ) (C : σ → α → Prop) [∀ s a, Decidable (C s a)] : σ → List α → Nat
  | _, [] => 0
  | s, a :: as => (if C s a then 1 else 0)+
    match next s a with
    | none => 0
    | some t => tally next C t as

theorem eq_tally {next : σ → α → Option σ} {C : σ → α → Prop} [∀ s a, Decidable (C s a)]
    {count : σ → Nat} {I : σ → Prop} (keep : ∀ u a v, I u → next u a = some v →
      I v ∧ count v = count u+if C u a then 1 else 0) {as : List α} {s t : σ} (start : I s)
    (run : as.foldlM next s = some t) : I t ∧ count t = count s+tally next C s as := by
  induction as generalizing s with
  | nil =>
    cases run
    exact ⟨start,rfl⟩
  | cons a as ih =>
    rw [List.foldlM_cons,Option.bind_eq_bind,Option.bind_eq_some_iff] at run
    obtain ⟨u,hstep,hrest⟩ := run
    obtain ⟨hu,hcount⟩ := keep s a u start hstep
    obtain ⟨ht,htotal⟩ := ih hu hrest
    refine ⟨ht,?_⟩
    rw [htotal,hcount,tally,hstep,Nat.add_assoc]

end Tally

end Imy.Lib
