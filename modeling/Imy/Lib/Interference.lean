import Imy.Lib.Trace
set_option autoImplicit false

/-!
One program among others. The others may change the state before each of its
requests, as far as `rely` allows, and what it returns holds whatever they do.
-/

namespace Imy.Lib

section Commands
variable {Q ε σ : Type} {R : Q → Type} (action : (q : Q) → EStateM ε σ (R q))

/-- A request that is a command: its answer is what the command returns, or its error. -/
def perform (q : Q) (s : σ) : Except ε (R q) × σ :=
  match action q s with
  | .ok a t => (.ok a,t)
  | .error e t => (.error e,t)

/-- Ask for a command, and give up with its error. -/
def Prog.call (q : Q) : Prog Q (fun q => Except ε (R q)) ε (R q) :=
  .ask q fun
    | .ok a => .ret a
    | .error e => .fail e

theorem Prog.run_call (q : Q) : run (perform action) (call q) = action q := by
  funext s
  simp only [call,run,perform]
  cases action q s <;> rfl

theorem perform_snd (q : Q) (s : σ) : (perform action q s).2 = final (action q) s := by
  simp only [perform,final]
  cases action q s <;> rfl

end Commands

namespace Prog
variable {Q : Type} {R : Q → Type} {ε ε' α β σ : Type} (exec : (q : Q) → σ → R q × σ)

theorem run_attempt (p : Prog Q R ε α) :
    run exec (p.attempt : Prog Q R ε' (Except ε α)) = fun s =>
      match run exec p s with
      | .ok a t => .ok (.ok a) t
      | .error e t => .ok (.error e) t := by
  funext s
  induction p generalizing s with
  | ret a => rfl
  | fail e => rfl
  | ask q next ih => exact ih _ _

/-- Before every request the state is as it was left, or as `rely` allows. `P` and
`E` see the trace. -/
def Amid (rely : σ → σ → Prop) (P : Trace Q R → α → σ → Prop) (E : Trace Q R → ε → σ → Prop) :
    Trace Q R → Prog Q R ε α → σ → Prop
  | h, .ret a, s => P h a s
  | h, .fail e, s => E h e s
  | h, .ask q next, s => ∀ t, rely s t →
      (next (exec q t).1).Amid rely P E (h ++ [⟨q,(exec q t).1⟩]) (exec q t).2

def Stable (rely : σ → σ → Prop) (I : σ → Prop) : Prop := ∀ s t, rely s t → I s → I t

section Amid
variable {exec} {rely : σ → σ → Prop} {P P' : Trace Q R → α → σ → Prop}
  {E E' : Trace Q R → ε → σ → Prop} {S : Trace Q R → β → σ → Prop} {h : Trace Q R} {s : σ}

theorem Amid.mono {p : Prog Q R ε α} (hp : p.Amid exec rely P E h s)
    (hP : ∀ h a t, P h a t → P' h a t) (hE : ∀ h e t, E h e t → E' h e t) :
    p.Amid exec rely P' E' h s := by
  induction p generalizing h s with
  | ret a => exact hP h a s hp
  | fail e => exact hE h e s hp
  | ask q next ih => exact fun t hst => ih _ (hp t hst)

theorem Amid.bind {p : Prog Q R ε α} {f : α → Prog Q R ε β} (hp : p.Amid exec rely P E h s)
    (hf : ∀ h a t, P h a t → (f a).Amid exec rely S E h t) :
    (p >>= f).Amid exec rely S E h s := by
  change (p.bind f).Amid exec rely S E h s
  induction p generalizing h s with
  | ret a => exact hf h a s hp
  | fail e => exact hp
  | ask q next ih => exact fun t hst => ih _ (hp t hst)

theorem Amid.attempt {F : Trace Q R → ε' → σ → Prop} {p : Prog Q R ε α}
    (hp : p.Amid exec rely P E h s) :
    (p.attempt : Prog Q R ε' (Except ε α)).Amid exec rely
      (fun h r t => (∀ a, r = .ok a → P h a t) ∧ ∀ e, r = .error e → E h e t) F h s := by
  induction p generalizing h s with
  | ret a =>
    refine ⟨?_,fun e he => by simp at he⟩
    rintro b ⟨⟩
    exact hp
  | fail e =>
    refine ⟨fun a ha => by simp at ha,?_⟩
    rintro b ⟨⟩
    exact hp
  | ask q next ih => exact fun t hst => ih _ (hp t hst)

/-- The loop rule. `I` sees the elements that are still to come. -/
theorem amid_forM {I : List α → Trace Q R → σ → Prop} {f : α → Prog Q R ε PUnit} (xs : List α)
    (start : I xs h s)
    (next : ∀ x rest h t, I (x :: rest) h t →
      (f x).Amid exec rely (fun h _ u => I rest h u) E h t) :
    (forM xs f).Amid exec rely (fun h _ t => I [] h t) E h s := by
  induction xs generalizing h s with
  | nil => exact start
  | cons x xs ih =>
    rw [List.forM_cons]
    exact (next x xs h s start).bind fun h _ t hI => ih hI

/-- The loop rule for a loop that collects something on the way. -/
theorem amid_foldlM {I : β → Trace Q R → σ → Prop} {f : β → α → Prog Q R ε β} (xs : List α) {b : β}
    (start : I b h s)
    (next : ∀ b x h t, I b h t → (f b x).Amid exec rely (fun h b u => I b h u) E h t) :
    (xs.foldlM f b).Amid exec rely (fun h b t => I b h t) E h s := by
  induction xs generalizing b h s with
  | nil => exact start
  | cons x xs ih =>
    rw [List.foldlM_cons]
    exact (next b x h s start).bind fun h b' t hI => ih hI

/-- What others do before a program starts is as good as what they do at its first
request. -/
theorem Amid.later (trans : ∀ s t u, rely s t → rely t u → rely s u)
    (hP : ∀ h a, Stable rely (P h a)) (hE : ∀ h e, Stable rely (E h e)) {p : Prog Q R ε α}
    (hp : p.Amid exec rely P E h s) {t : σ} (hst : rely s t) : p.Amid exec rely P E h t := by
  cases p with
  | ret a => exact hP h a s t hst hp
  | fail e => exact hE h e s t hst hp
  | ask q next => exact fun u htu => hp u (trans s t u hst htu)

end Amid

/-- A request is made from a state that others may have changed. -/
theorem amid_call {R : Q → Type} {action : (q : Q) → EStateM ε σ (R q)} {rely : σ → σ → Prop}
    {q : Q} {P : Trace Q (fun q => Except ε (R q)) → R q → σ → Prop}
    {E : Trace Q (fun q => Except ε (R q)) → ε → σ → Prop}
    {h : Trace Q fun q => Except ε (R q)} {s : σ} {I : σ → Prop} (stable : Stable rely I)
    (start : I s)
    (hwp : ∀ t, I t → wp (action q) (fun a u => P (h ++ [⟨q,.ok a⟩]) a u)
      (fun e u => E (h ++ [⟨q,.error e⟩]) e u) t) :
    (call q).Amid (perform action) rely P E h s := by
  intro t hst
  have ht := hwp t (stable s t hst start)
  simp only [perform]
  cases hx : action q t with
  | ok a u =>
    have hu := wp_ok ht hx
    exact hu
  | error e u =>
    have hu := wp_error ht hx
    exact hu

end Prog

namespace Pool
variable {ι Q : Type} {R : Q → Type} {ε α σ : Type} [DecidableEq ι]
  {exec : (q : Q) → σ → R q × σ}

theorem asked_concat {p : Pool ι Q R ε α σ} {schedule : List ι} {i j : ι} {e : Sigma R}
    (h : Asked exec p (schedule ++ [j]) i e) : Asked exec p schedule i e ∨
      (j = i ∧ ∃ k, (p.run exec schedule).threads i = .ask e.1 k ∧
        (exec e.1 (p.run exec schedule).state).1 = e.2) := by
  obtain ⟨before,after,k,hsplit,hask,hanswer⟩ := h
  rcases turn_concat hsplit with ⟨after',hsplit'⟩ | ⟨rfl,rfl⟩
  · exact Or.inl ⟨before,after',k,hsplit',hask,hanswer⟩
  · exact Or.inr ⟨rfl,k,hask,hanswer⟩

variable {rely : σ → σ → Prop} {P : Trace Q R → α → σ → Prop} {E : Trace Q R → ε → σ → Prop}

/-- The run rule: one program is told apart from the others, whose requests are of a
kind that `rely` allows. -/
theorem run_amid {p : Pool ι Q R ε α σ} {i : ι} (refl : ∀ s, rely s s)
    (trans : ∀ s t u, rely s t → rely t u → rely s u)
    (hP : ∀ h a, Prog.Stable rely (P h a)) (hE : ∀ h e, Prog.Stable rely (E h e))
    (start : (p.threads i).Amid exec rely P E [] p.state) {K : Q → Prop}
    (others : ∀ j, j ≠ i → (p.threads j).Yields K fun _ => True)
    (allowed : ∀ q s, K q → rely s (exec q s).2) (schedule : List ι) :
    ∃ h, ((p.run exec schedule).threads i).Amid exec rely P E h (p.run exec schedule).state ∧
      ∀ e, Asked exec p schedule i e → e ∈ h := by
  suffices hall : (∃ h, ((p.run exec schedule).threads i).Amid exec rely P E h
      (p.run exec schedule).state ∧ ∀ e, Asked exec p schedule i e → e ∈ h) ∧
      ∀ j, j ≠ i → ((p.run exec schedule).threads j).Yields K fun _ => True from hall.1
  induction schedule using List.reverseRecOn with
  | nil =>
    refine ⟨⟨[],start,?_⟩,others⟩
    rintro e ⟨before,after,k,hsplit,-⟩
    simp at hsplit
  | append_singleton before j ih =>
    obtain ⟨⟨h,hamid,hlog⟩,hothers⟩ := ih
    rw [run_concat]
    rcases asks_or_stays exec (p.run exec before) j with ⟨q,k,hask⟩ | hstays
    · rw [next_of_ask exec hask]
      by_cases hj : j = i
      · subst hj
        rw [hask] at hamid
        refine ⟨⟨h ++ [⟨q,(exec q (p.run exec before).state).1⟩],?_,?_⟩,?_⟩
        · simpa only [Function.update_self] using hamid _ (refl _)
        · intro e he
          rcases asked_concat he with he | ⟨-,k',hask',hanswer⟩
          · exact List.mem_append_left _ (hlog e he)
          · obtain ⟨q',r⟩ := e
            rw [hask] at hask'
            cases hask'
            simp [hanswer]
        · intro j' hj'
          simpa only [Function.update_of_ne hj'] using hothers j' hj'
      · have hyields := hothers j hj
        rw [hask] at hyields
        refine ⟨⟨h,?_,?_⟩,?_⟩
        · simp only [Function.update_of_ne (Ne.symm hj)]
          have hrely := allowed q (p.run exec before).state hyields.1
          exact hamid.later trans hP hE hrely
        · intro e he
          rcases asked_concat he with he | ⟨heq,-⟩
          · exact hlog e he
          · exact (hj heq).elim
        · intro j' hj'
          by_cases hjj : j' = j
          · subst hjj
            simpa only [Function.update_self] using hyields.2 _
          · simpa only [Function.update_of_ne hjj] using hothers j' hj'
    · rw [hstays]
      refine ⟨⟨h,hamid,fun e he => ?_⟩,hothers⟩
      rcases asked_concat he with he | ⟨rfl,k,hask,-⟩
      · exact hlog e he
      · have hnext := congrArg Pool.log hstays
        rw [next_of_ask exec hask] at hnext
        simp at hnext

end Pool

end Imy.Lib
