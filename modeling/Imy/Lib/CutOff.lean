import Imy.Lib.Trace
set_option autoImplicit false

/-!
Programs that are cut off from the state: from some request on, what can be refused is
refused, and the program goes on with the refusal.
-/

namespace Imy.Lib

section Thinned
variable {Q : Type} {R : Q → Type} (refusal : (q : Q) → Option (R q))

inductive Thinned : Trace Q R → Trace Q R → Prop
  | nil : Thinned [] []
  | keep {h h' : Trace Q R} (e : Sigma R) : Thinned h h' → Thinned (e :: h) (e :: h')
  | skip {h h' : Trace Q R} {q : Q} {r : R q} : refusal q = some r → Thinned h h' →
    Thinned (⟨q,r⟩ :: h) h'

variable {refusal} {h h₁ h₂ h' h₁' h₂' : Trace Q R} {e : Sigma R}

theorem Thinned.append (ht₁ : Thinned refusal h₁ h₁') (ht₂ : Thinned refusal h₂ h₂') :
    Thinned refusal (h₁ ++ h₂) (h₁' ++ h₂') := by
  induction ht₁ with
  | nil => exact ht₂
  | keep e _ ih => exact .keep e ih
  | skip hrefused _ ih => exact .skip hrefused ih

theorem Thinned.subset (ht : Thinned refusal h h') : h' ⊆ h := by
  induction ht with
  | nil => exact List.Subset.refl []
  | keep e _ ih => exact List.cons_subset_cons e ih
  | skip _ _ ih => exact List.subset_cons_of_subset _ ih

theorem Thinned.split (ht : Thinned refusal (h₁ ++ e :: h₂) h') (he : refusal e.1 ≠ some e.2) :
    ∃ h₁' h₂', h' = h₁' ++ e :: h₂' ∧ Thinned refusal h₁ h₁' ∧ Thinned refusal h₂ h₂' := by
  induction h₁ generalizing h' with
  | nil =>
    cases ht with
    | keep _ ht => exact ⟨[],_,rfl,.nil,ht⟩
    | skip hrefused _ => exact (he hrefused).elim
  | cons e' h₁ ih =>
    cases ht with
    | keep _ ht =>
      obtain ⟨h₁',h₂',rfl,ht₁,ht₂⟩ := ih ht
      exact ⟨e' :: h₁',h₂',rfl,.keep e' ht₁,ht₂⟩
    | skip hrefused ht =>
      obtain ⟨h₁',h₂',rfl,ht₁,ht₂⟩ := ih ht
      exact ⟨h₁',h₂',rfl,.skip hrefused ht₁,ht₂⟩

theorem Thinned.mem (ht : Thinned refusal h h') (he : refusal e.1 ≠ some e.2) (hin : e ∈ h) :
    e ∈ h' := by
  obtain ⟨h₁,h₂,rfl⟩ := List.append_of_mem hin
  obtain ⟨h₁',h₂',rfl,-,-⟩ := ht.split he
  simp

end Thinned

namespace Prog
variable {Q : Type} {R : Q → Type} {ε α : Type}

/-- The first `n` requests are made. From then on a request that can be refused is not. -/
def cutOff (refusal : (q : Q) → Option (R q)) : Prog Q R ε α → Nat → Prog Q R ε α
  | .ret a, _ => .ret a
  | .fail e, _ => .fail e
  | .ask q next, n+1 => .ask q fun r => (next r).cutOff refusal n
  | .ask q next, 0 =>
    match refusal q with
    | some r => (next r).cutOff refusal 0
    | none => .ask q fun r => (next r).cutOff refusal 0

variable {refusal : (q : Q) → Option (R q)} {A : (q : Q) → R q → Prop} {K : Trace Q R → Q → Prop}
  {P : Trace Q R → α → Prop} {h h' : Trace Q R}

/-- A program that is cut off makes the requests it would make anyway, but its trace lacks
what was refused. -/
theorem Traced.cutOff {p : Prog Q R ε α} (hp : p.Traced A K P h)
    (fits : ∀ q r, refusal q = some r → A q r)
    (thin : ∀ h h' q, Thinned refusal h h' → K h q → K h' q) (ht : Thinned refusal h h') (n : Nat) :
    (p.cutOff refusal n).Traced A K (fun h' a => ∃ h, Thinned refusal h h' ∧ P h a) h' := by
  induction p generalizing h h' n with
  | ret a => exact ⟨h,ht,hp⟩
  | fail e => exact trivial
  | ask q next ih =>
    have hasked : ∀ m, ((Prog.ask q fun r => (next r).cutOff refusal m) : Prog Q R ε α).Traced A K
        (fun h' a => ∃ h, Thinned refusal h h' ∧ P h a) h' :=
      fun m => ⟨thin h h' q ht hp.1,fun r hr => ih r (hp.2 r hr) (ht.append (.keep _ .nil)) m⟩
    cases n with
    | succ n => exact hasked n
    | zero =>
      rw [Prog.cutOff]
      split
      · rename_i r hrefused
        refine ih r (hp.2 r (fits q r hrefused)) ?_ 0
        simpa using ht.append (.skip hrefused .nil)
      · exact hasked 0

end Prog

end Imy.Lib
