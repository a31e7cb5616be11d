import Imy.Lib.Trace
set_option autoImplicit false

/-!
What each thread of a run has asked and was answered, in its order.
-/

namespace Imy.Lib

namespace Prog
variable {Q : Type} {R : Q → Type} {ε α : Type} {A : (q : Q) → R q → Prop}
    {K : Trace Q R → Q → Prop}
  {h : Trace Q R}

/-- `I` is what the loop needs to know of the trace, given the rounds that are done. -/
theorem traced_forM_done {I : List α → Trace Q R → Prop} {f : α → Prog Q R ε PUnit}
    (xs : List α) (start : I [] h)
    (hf : ∀ xs₁ x xs₂, xs = xs₁ ++ x :: xs₂ → ∀ h, I xs₁ h →
      (f x).Traced A K (fun h _ => I (xs₁ ++ [x]) h) h) :
    (forM xs f).Traced A K (fun h _ => I xs h) h := by
  have hrest : ∀ xs₂ xs₁ h, xs = xs₁ ++ xs₂ → I xs₁ h →
      (forM xs₂ f).Traced A K (fun h _ => I xs h) h := by
    intro xs₂
    induction xs₂ with
    | nil =>
      intro xs₁ h hxs hI
      rw [List.append_nil] at hxs
      subst hxs
      exact hI
    | cons x xs₂ ih =>
      intro xs₁ h hxs hI
      rw [List.forM_cons]
      refine (hf xs₁ x xs₂ hxs h hI).bind fun h _ hI => ih (xs₁ ++ [x]) h ?_ hI
      rw [hxs,List.append_assoc]
      rfl
  exact hrest xs [] h rfl start

end Prog

namespace Pool
variable {ι Q : Type} {R : Q → Type} {ε α σ : Type} [DecidableEq ι] (exec : (q : Q) → σ → R q × σ)

def turn (p : Pool ι Q R ε α σ) (i j : ι) : Trace Q R :=
  match p.threads j with
  | .ask q _ => if j = i then [⟨q,(exec q p.state).1⟩] else []
  | _ => []

def history (i : ι) : List ι → Pool ι Q R ε α σ → Trace Q R
  | [], _ => []
  | j :: schedule, p => p.turn exec i j ++ history i schedule (p.next exec j)

variable {exec} {p : Pool ι Q R ε α σ} {schedule : List ι} {i j : ι} {e : Sigma R}

theorem turn_self {q : Q} {k : R q → Prog Q R ε α} (h : p.threads i = .ask q k) :
    p.turn exec i i = [⟨q,(exec q p.state).1⟩] := by
  simp only [turn,h,if_true]

theorem turn_other (p : Pool ι Q R ε α σ) (h : j ≠ i) : p.turn exec i j = [] := by
  unfold turn
  split
  · exact if_neg h
  · rfl

theorem turn_of_ended (h : ∀ q (k : R q → Prog Q R ε α), p.threads j ≠ .ask q k) :
    p.turn exec i j = [] := by
  unfold turn
  split
  · rename_i q k hask
    exact (h q k hask).elim
  · rfl

theorem turn_cases (exec : (q : Q) → σ → R q × σ) (p : Pool ι Q R ε α σ) (i j : ι) :
    (p.turn exec i j = [] ∧ (p.next exec j).threads i = p.threads i) ∨
      ∃ q k, j = i ∧ p.threads i = .ask q k ∧ p.turn exec i j = [⟨q,(exec q p.state).1⟩] := by
  by_cases hj : j = i
  · subst hj
    by_cases hask : ∃ q k, p.threads j = .ask q k
    · obtain ⟨q,k,hask⟩ := hask
      exact Or.inr ⟨q,k,rfl,hask,turn_self hask⟩
    · have hended : ∀ q (k : R q → Prog Q R ε α), p.threads j ≠ .ask q k :=
        fun q k h => hask ⟨q,k,h⟩
      refine Or.inl ⟨turn_of_ended hended,?_⟩
      rw [next_of_ended exec hended]
  · exact Or.inl ⟨turn_other p hj,next_threads_other exec p (Ne.symm hj)⟩

theorem history_append (p : Pool ι Q R ε α σ) (before after : List ι) (i : ι) :
    p.history exec i (before ++ after) =
      p.history exec i before ++ (p.run exec before).history exec i after := by
  induction before generalizing p with
  | nil => rfl
  | cons j before ih =>
    change p.turn exec i j ++ (p.next exec j).history exec i (before ++ after) = _
    rw [ih,← List.append_assoc]
    rfl

theorem history_concat (p : Pool ι Q R ε α σ) (schedule : List ι) (i j : ι) :
    p.history exec i (schedule ++ [j]) =
      p.history exec i schedule ++ (p.run exec schedule).turn exec i j := by
  rw [history_append]
  exact congrArg _ (List.append_nil _)

theorem history_split {h₁ h₂ : Trace Q R} (h : p.history exec i schedule = h₁ ++ e :: h₂) :
    ∃ before after k, schedule = before ++ i :: after ∧ p.history exec i before = h₁ ∧
      (p.run exec before).threads i = .ask e.1 k ∧
        (exec e.1 (p.run exec before).state).1 = e.2 := by
  induction schedule using List.reverseRecOn generalizing h₂ with
  | nil => cases h₁ <;> cases h
  | append_singleton earlier j ih =>
    have hearlier : ∀ h₂, p.history exec i earlier = h₁ ++ e :: h₂ → ∃ before after k,
        earlier ++ [j] = before ++ i :: after ∧ p.history exec i before = h₁ ∧
          (p.run exec before).threads i = .ask e.1 k ∧
              (exec e.1 (p.run exec before).state).1 = e.2 := by
      intro h₂ hsplit
      obtain ⟨before,after,k,rfl,hrest⟩ := ih hsplit
      exact ⟨before,after ++ [j],k,by simp,hrest⟩
    rw [history_concat] at h
    rcases turn_cases exec (p.run exec earlier) i j with ⟨hturn,-⟩ | ⟨q,k,rfl,hask,hturn⟩
    · rw [hturn,List.append_nil] at h
      exact hearlier h₂ h
    rw [hturn] at h
    rcases h₂.eq_nil_or_concat with rfl | ⟨h₂,e',rfl⟩
    · obtain ⟨rfl,hlast⟩ := List.append_inj' h rfl
      obtain ⟨rfl,-⟩ := List.cons.inj hlast
      exact ⟨earlier,[],k,rfl,rfl,hask,rfl⟩
    · rw [List.concat_eq_append,← List.cons_append,← List.append_assoc] at h
      exact hearlier h₂ (List.append_inj' h rfl).1

theorem asked_of_history (h : e ∈ p.history exec i schedule) : Asked exec p schedule i e := by
  obtain ⟨h₁,h₂,hsplit⟩ := List.append_of_mem h
  obtain ⟨before,after,k,hschedule,-,hask,hanswer⟩ := history_split hsplit
  exact ⟨before,after,k,hschedule,hask,hanswer⟩

theorem history_of_asked (h : Asked exec p schedule i e) : e ∈ p.history exec i schedule := by
  obtain ⟨before,after,k,rfl,hask,hanswer⟩ := h
  rw [history_append]
  refine List.mem_append_right _ (List.mem_append_left _ ?_)
  rw [turn_self hask,hanswer]
  exact List.mem_singleton_self e

theorem mem_log_next {q : Q} :
    (i,q) ∈ (p.next exec j).log ↔ (i,q) ∈ p.log ∨ ∃ r, (⟨q,r⟩ : Sigma R) ∈ p.turn exec i j := by
  by_cases hask : ∃ q' k, p.threads j = .ask q' k
  · obtain ⟨q',k,hask⟩ := hask
    rw [next_of_ask exec hask]
    by_cases hj : j = i
    · subst hj
      rw [turn_self hask,List.mem_append,List.mem_singleton]
      refine or_congr_right ⟨?_,?_⟩
      · rintro ⟨⟩
        exact ⟨_,List.mem_singleton_self _⟩
      · rintro ⟨r,hr⟩
        cases List.mem_singleton.mp hr
        rfl
    · simp [turn_other p hj,Ne.symm hj]
  · have hended : ∀ q (k : R q → Prog Q R ε α), p.threads j ≠ .ask q k := fun q k h => hask ⟨q,k,h⟩
    rw [next_of_ended exec hended,turn_of_ended hended]
    simp

theorem mem_log_iff (hstart : p.log = []) {q : Q} :
    (i,q) ∈ (p.run exec schedule).log ↔ ∃ r, (⟨q,r⟩ : Sigma R) ∈ p.history exec i schedule := by
  induction schedule using List.reverseRecOn with
  | nil =>
    change (i,q) ∈ p.log ↔ ∃ r, (⟨q,r⟩ : Sigma R) ∈ []
    simp [hstart]
  | append_singleton before j ih =>
    rw [run_concat,history_concat,mem_log_next,ih]
    simp only [List.mem_append,exists_or]

variable {A : (q : Q) → R q → Prop} {K : Trace Q R → Q → Prop} {P : Trace Q R → α → Prop}

/-- What was proved of the thread alone holds of its history in every run. -/
theorem traced_history (fits : ∀ q s, A q (exec q s).1) (start : (p.threads i).Traced A K P [])
    (schedule : List ι) :
    ((p.run exec schedule).threads i).Traced A K P (p.history exec i schedule) := by
  induction schedule using List.reverseRecOn with
  | nil => exact start
  | append_singleton before j ih =>
    rw [run_concat,history_concat]
    rcases turn_cases exec (p.run exec before) i j with ⟨hturn,hstays⟩ | ⟨q,k,rfl,hask,hturn⟩
    · rw [hturn,hstays,List.append_nil]
      exact ih
    · rw [hask] at ih
      rw [next_threads_self exec hask,hturn]
      exact ih.2 _ (fits q _)

theorem traced_log {K : ι → Trace Q R → Q → Prop} (fits : ∀ q s, A q (exec q s).1)
    (hstart : p.log = []) (start : ∀ i, (p.threads i).Traced A (K i) (fun _ _ => True) []) {q : Q}
    (h : (i,q) ∈ (p.run exec schedule).log) :
    ∃ before, before <+: schedule ∧ K i (p.history exec i before) q := by
  obtain ⟨before,after,k,rfl,hask⟩ := turn_of_log exec hstart h
  have htraced := traced_history (i := i) fits (start i) before
  rw [hask] at htraced
  exact ⟨before,⟨i :: after,rfl⟩,htraced.1⟩

end Pool

end Imy.Lib
