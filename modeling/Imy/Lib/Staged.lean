import Imy.Lib.Threads
set_option autoImplicit false

/-!
Programs side by side, told by the stages they stand at. A script says what each
stage asks and where the answers lead; where the programs follow the script, a pool
does what the scene of its stages does.
-/

namespace Imy.Lib

abbrev Script (Q : Type) (R : Q → Type) (S : Type) := S → Option ((q : Q) × (R q → S))

structure Scene (ι Q S σ : Type) where
  state : σ
  stages : ι → S
  log : List (ι × Q)

section Staged
variable {ι Q : Type} {R : Q → Type} {ε α σ S : Type} (program : S → Prog Q R ε α)
  (script : Script Q R S) (exec : (q : Q) → σ → R q × σ)

def Follows : Prop :=
  ∀ st, match script st with
    | none => ∀ q k, program st ≠ .ask q k
    | some e => program st = .ask e.1 fun r => program (e.2 r)

structure Shows (p : Pool ι Q R ε α σ) (sc : Scene ι Q S σ) : Prop where
  state : p.state = sc.state
  threads : ∀ i, p.threads i = program (sc.stages i)
  log : p.log = sc.log

def InScene (J : Scene ι Q S σ → Prop) (p : Pool ι Q R ε α σ) : Prop :=
  ∃ sc, Shows program p sc ∧ J sc

variable {program script}

theorem Shows.asks (follows : Follows program script) {p : Pool ι Q R ε α σ} {sc : Scene ι Q S σ}
    (h : Shows program p sc) {i : ι} {q : Q} {k : R q → Prog Q R ε α}
    (hask : p.threads i = .ask q k) : ∃ next, script (sc.stages i) = some ⟨q,next⟩ := by
  have hst := follows (sc.stages i)
  rw [h.threads i] at hask
  cases hscript : script (sc.stages i) with
  | none =>
    rw [hscript] at hst
    exact (hst q k hask).elim
  | some e =>
    rw [hscript] at hst
    simp only [hask,Prog.ask.injEq] at hst
    obtain ⟨rfl,-⟩ := hst
    exact ⟨e.2,rfl⟩

theorem Shows.ask (follows : Follows program script) {p : Pool ι Q R ε α σ} {sc : Scene ι Q S σ}
    (h : Shows program p sc) {i : ι} {q : Q} {next : R q → S}
    (hscript : script (sc.stages i) = some ⟨q,next⟩) : ∃ k, p.threads i = .ask q k := by
  have hst := follows (sc.stages i)
  rw [hscript] at hst
  exact ⟨_,(h.threads i).trans hst⟩

variable [DecidableEq ι] (script)

/-- The next request of thread `i`. -/
def Scene.next (sc : Scene ι Q S σ) (i : ι) : Scene ι Q S σ :=
  match script (sc.stages i) with
  | none => sc
  | some e =>
    { state := (exec e.1 sc.state).2
      stages := Function.update sc.stages i (e.2 (exec e.1 sc.state).1)
      log := sc.log ++ [(i,e.1)] }

variable {script exec}

theorem Scene.next_of_some {sc : Scene ι Q S σ} {i : ι} {q : Q} {next : R q → S}
    (h : script (sc.stages i) = some ⟨q,next⟩) : sc.next script exec i =
      { state := (exec q sc.state).2
        stages := Function.update sc.stages i (next (exec q sc.state).1)
        log := sc.log ++ [(i,q)] } := by
  simp only [Scene.next,h]

theorem Scene.next_of_none {sc : Scene ι Q S σ} {i : ι} (h : script (sc.stages i) = none) :
    sc.next script exec i = sc := by
  simp only [Scene.next,h]

theorem Scene.next_stages_other (sc : Scene ι Q S σ) {i j : ι} (h : i ≠ j) :
    (sc.next script exec j).stages i = sc.stages i := by
  unfold Scene.next
  split
  · rfl
  · exact Function.update_of_ne h ..

theorem Scene.mem_log_next {sc : Scene ι Q S σ} {e : ι × Q} (h : e ∈ sc.log) (i : ι) :
    e ∈ (sc.next script exec i).log := by
  unfold Scene.next
  split
  · exact h
  · exact List.mem_append_left _ h

theorem Shows.next (follows : Follows program script) {p : Pool ι Q R ε α σ} {sc : Scene ι Q S σ}
    (h : Shows program p sc) (i : ι) :
    Shows program (p.next exec i) (sc.next script exec i) := by
  have hst := follows (sc.stages i)
  cases hscript : script (sc.stages i) with
  | none =>
    rw [hscript,← h.threads i] at hst
    rw [Scene.next_of_none hscript,Pool.next_of_ended exec hst]
    exact h
  | some e =>
    rw [hscript] at hst
    rw [Scene.next_of_some hscript,Pool.next_of_ask exec ((h.threads i).trans hst)]
    refine ⟨by rw [h.state],fun j => ?_,by rw [h.log]⟩
    by_cases hj : j = i
    · subst hj
      simp only [Function.update_self,h.state]
    · simp only [Function.update_of_ne hj]
      exact h.threads j

theorem InScene.next (follows : Follows program script) {J J' : Scene ι Q S σ → Prop}
    {p : Pool ι Q R ε α σ} (h : InScene program J p) {i : ι}
    (keep : ∀ sc, Shows program p sc → J sc → J' (sc.next script exec i)) :
    InScene program J' (p.next exec i) := by
  obtain ⟨sc,hsc,hJ⟩ := h
  exact ⟨_,hsc.next follows i,keep sc hsc hJ⟩

end Staged

section Sum
variable {Q : Type} {R : Q → Type} {ε α S T : Type}

/-- Programs of two kinds. -/
def Script.sum (a : Script Q R S) (b : Script Q R T) : Script Q R (S ⊕ T)
  | .inl st => (a st).map fun e => ⟨e.1,fun r => .inl (e.2 r)⟩
  | .inr st => (b st).map fun e => ⟨e.1,fun r => .inr (e.2 r)⟩

theorem Follows.sum {p : S → Prog Q R ε α} {p' : T → Prog Q R ε α}
    {a : Script Q R S} {b : Script Q R T}
    (h : Follows p a) (h' : Follows p' b) : Follows (Sum.elim p p') (a.sum b) := by
  rintro (st | st)
  · have hst := h st
    simp only [Script.sum,Sum.elim_inl]
    cases ha : a st <;> rw [ha] at hst <;> exact hst
  · have hst := h' st
    simp only [Script.sum,Sum.elim_inr]
    cases hb : b st <;> rw [hb] at hst <;> exact hst

end Sum

end Imy.Lib
