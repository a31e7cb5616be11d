import Imy.Lib.Threads
set_option autoImplicit false

/-!
What a program asks when it runs alone, and that a thread asks it which has one turn after
the other.
-/

namespace Imy.Lib

namespace Prog
variable {Q : Type} {R : Q → Type} {ε ε' α β σ : Type} (exec : (q : Q) → σ → R q × σ)

def asked : Prog Q R ε α → σ → List Q
  | .ret _, _ => []
  | .fail _, _ => []
  | .ask q next, s => q :: (next (exec q s).1).asked (exec q s).2

variable {exec} {q : Q} {s t : σ}

theorem mem_asked_bind {p : Prog Q R ε α} {f : α → Prog Q R ε β} {a : α}
    (hp : p.run exec s = .ok a t) (hq : q ∈ (f a).asked exec t) : q ∈ (p >>= f).asked exec s := by
  change q ∈ (p.bind f).asked exec s
  induction p generalizing s with
  | ret b =>
    cases hp
    exact hq
  | fail e => cases hp
  | ask q' next ih => exact List.mem_cons_of_mem q' (ih _ hp)

theorem run_attempt_of_ok {p : Prog Q R ε α} {a : α} (hp : p.run exec s = .ok a t) :
    (p.attempt : Prog Q R ε' _).run exec s = .ok (.ok a) t := by
  induction p generalizing s with
  | ret b =>
    cases hp
    rfl
  | fail e => cases hp
  | ask q' next ih => exact ih _ hp

end Prog

namespace Pool
variable {ι Q : Type} {R : Q → Type} {ε α σ : Type} [DecidableEq ι] {exec : (q : Q) → σ → R q × σ}

theorem log_run {p : Pool ι Q R ε α σ} {e : ι × Q} (h : e ∈ p.log) (schedule : List ι) :
    e ∈ (p.run exec schedule).log := by
  induction schedule generalizing p with
  | nil => exact h
  | cons i schedule ih =>
    refine ih (p := p.next exec i) ?_
    unfold next
    split
    · exact List.mem_append_left _ h
    · exact h

/-- Turns enough for one thread: it asks what its program asks alone, and the others wait. -/
theorem run_alone (exec : (q : Q) → σ → R q × σ) {i : ι} (prog : Prog Q R ε α)
    {p : Pool ι Q R ε α σ} (h : p.threads i = prog) :
    ∃ n, (∀ q ∈ prog.asked exec p.state, (i,q) ∈ (p.run exec (List.replicate n i)).log) ∧
      ∀ j, j ≠ i → (p.run exec (List.replicate n i)).threads j = p.threads j := by
  induction prog generalizing p with
  | ret a => exact ⟨0,by simp [Prog.asked],fun _ _ => rfl⟩
  | fail e => exact ⟨0,by simp [Prog.asked],fun _ _ => rfl⟩
  | ask q next ih =>
    have hstate : (p.next exec i).state = (exec q p.state).2 := by rw [next_of_ask exec h]
    obtain ⟨n,hasked,hothers⟩ := ih (exec q p.state).1 (next_threads_self exec h)
    refine ⟨n+1,fun q' hq' => ?_,fun j hj => (hothers j hj).trans (next_threads_other exec p hj)⟩
    rcases List.mem_cons.mp hq' with rfl | hq'
    · refine log_run (p := p.next exec i) ?_ _
      rw [next_of_ask exec h]
      exact List.mem_append_right _ (List.mem_singleton_self _)
    · rw [← hstate] at hq'
      exact hasked q' hq'

end Pool

end Imy.Lib
