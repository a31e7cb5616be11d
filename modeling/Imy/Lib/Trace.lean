import Imy.Lib.Threads
set_option autoImplicit false

/-!
Requests that depend on what the program has asked before and on the answers it
was given. `A` says what answers fit a request.
-/

namespace Imy.Lib

abbrev Trace (Q : Type) (R : Q → Type) := List (Sigma R)

namespace Prog
variable {Q : Type} {R : Q → Type} {ε ε' α β σ : Type}

/-- As long as the answers fit, every request satisfies `K` together with the trace
before it, and what is returned satisfies `P` together with the whole trace. -/
def Traced (A : (q : Q) → R q → Prop) (K : Trace Q R → Q → Prop) (P : Trace Q R → α → Prop) :
    Trace Q R → Prog Q R ε α → Prop
  | h, .ret a => P h a
  | _, .fail _ => True
  | h, .ask q next => K h q ∧ ∀ r, A q r → (next r).Traced A K P (h ++ [⟨q,r⟩])

variable {A : (q : Q) → R q → Prop} {K : Trace Q R → Q → Prop} {P P' : Trace Q R → α → Prop}
  {S : Trace Q R → β → Prop} {h : Trace Q R}

theorem Traced.bind {p : Prog Q R ε α} {f : α → Prog Q R ε β} (hp : p.Traced A K P h)
    (hf : ∀ h a, P h a → (f a).Traced A K S h) : (p >>= f).Traced A K S h := by
  change (p.bind f).Traced A K S h
  induction p generalizing h with
  | ret a => exact hf h a hp
  | fail e => exact trivial
  | ask q next ih => exact ⟨hp.1,fun r hr => ih r (hp.2 r hr)⟩

theorem Traced.imp {p : Prog Q R ε α} (hp : p.Traced A K P h) (hP : ∀ h a, P h a → P' h a) :
    p.Traced A K P' h := by
  induction p generalizing h with
  | ret a => exact hP h a hp
  | fail e => exact trivial
  | ask q next ih => exact ⟨hp.1,fun r hr => ih r (hp.2 r hr)⟩

theorem Traced.mono {K' : Trace Q R → Q → Prop} {p : Prog Q R ε α} (hp : p.Traced A K P h)
    (hK : ∀ h q, K h q → K' h q) : p.Traced A K' P h := by
  induction p generalizing h with
  | ret a => exact hp
  | fail e => exact trivial
  | ask q next ih => exact ⟨hK h q hp.1,fun r hr => ih r (hp.2 r hr)⟩

/-- `I` is what the loop needs to know of the trace. -/
theorem traced_forM {I : Trace Q R → Prop} {f : α → Prog Q R ε PUnit} (xs : List α) (start : I h)
    (hf : ∀ x ∈ xs, ∀ h, I h → (f x).Traced A K (fun h _ => I h) h) :
    (forM xs f).Traced A K (fun h _ => I h) h := by
  induction xs generalizing h with
  | nil => exact start
  | cons x xs ih =>
    rw [List.forM_cons]
    refine (hf x List.mem_cons_self h start).bind fun h _ hI => ih hI fun y hy => hf y ?_
    exact List.mem_cons_of_mem x hy

theorem traced_attempt {p : Prog Q R ε α} (hp : p.Traced A K P h) :
    (p.attempt : Prog Q R ε' _).Traced A K (fun h r => ∀ a, r = .ok a → P h a) h := by
  induction p generalizing h with
  | ret a =>
    rintro b ⟨⟩
    exact hp
  | fail e => exact fun a ha => by simp at ha
  | ask q next ih => exact ⟨hp.1,fun r hr => ih r (hp.2 r hr)⟩

theorem Yields.traced {K' : Q → Prop} {I : Trace Q R → Prop} {P : α → Prop} {p : Prog Q R ε α}
    (hp : p.Yields K' P) (hK : ∀ h q, I h → K' q → K h q)
    (keep : ∀ h e, I h → I (h ++ [e])) (start : I h) :
    p.Traced A K (fun h a => I h ∧ P a) h := by
  induction p generalizing h with
  | ret a => exact ⟨start,hp⟩
  | fail e => exact trivial
  | ask q next ih => exact ⟨hK h q start hp.1,fun r _ => ih r (hp.2 r) (keep h _ start)⟩

theorem Traced.wp_run {exec : (q : Q) → σ → R q × σ} {J : Trace Q R → σ → Prop}
    (fits : ∀ q s, A q (exec q s).1)
    (keep : ∀ h q s, K h q → J h s → J (h ++ [⟨q,(exec q s).1⟩]) (exec q s).2)
    {p : Prog Q R ε α} (hp : p.Traced A K P h) {s : σ} (start : J h s) :
    wp (run exec p) (fun a t => ∃ h, J h t ∧ P h a) (fun _ t => ∃ h, J h t) s := by
  induction p generalizing h s with
  | ret a => exact ⟨h,start,hp⟩
  | fail e => exact ⟨h,start⟩
  | ask q next ih => exact ih _ (hp.2 _ (fits q s)) (keep h q s hp.1 start)

/-- Two ways of answering that agree on what is asked, in the states that are met. -/
theorem Traced.run_eq {exec exec' : (q : Q) → σ → R q × σ} {C : Q → Prop} {I : σ → Prop}
    (agree : ∀ q s, C q → I s → exec' q s = exec q s)
    (keep : ∀ q s, C q → I s → A q (exec q s).1 ∧ I (exec q s).2)
    {p : Prog Q R ε α} (hp : p.Traced A (fun _ q => C q) P h) {s : σ} (start : I s) :
    p.run exec' s = p.run exec s ∧ I (final (p.run exec) s) := by
  induction p generalizing h s with
  | ret a => exact ⟨rfl,start⟩
  | fail e => exact ⟨rfl,start⟩
  | ask q next ih =>
    obtain ⟨hfits,hkept⟩ := keep q s hp.1 start
    obtain ⟨hsame,hfinal⟩ := ih _ (hp.2 _ hfits) hkept
    refine ⟨?_,hfinal⟩
    change (next (exec' q s).1).run exec' (exec' q s).2 = _
    rw [agree q s hp.1 start]
    exact hsame

end Prog

namespace Pool
variable {ι Q : Type} {R : Q → Type} {ε α σ : Type} [DecidableEq ι]
  (exec : (q : Q) → σ → R q × σ)

/-- At some turn of the schedule thread `i` asked this and was given this answer. -/
def Asked (p : Pool ι Q R ε α σ) (schedule : List ι) (i : ι) (e : Sigma R) : Prop :=
  ∃ before after k, schedule = before ++ i :: after ∧
    (p.run exec before).threads i = .ask e.1 k ∧ (exec e.1 (p.run exec before).state).1 = e.2

theorem turn_of_log {p : Pool ι Q R ε α σ} (hstart : p.log = []) {schedule : List ι} {i : ι} {q : Q}
    (h : (i,q) ∈ (p.run exec schedule).log) :
    ∃ before after k, schedule = before ++ i :: after ∧
      (p.run exec before).threads i = .ask q k := by
  induction schedule using List.reverseRecOn with
  | nil =>
    change (i,q) ∈ p.log at h
    simp [hstart] at h
  | append_singleton before j ih =>
    have hearlier : (i,q) ∈ (p.run exec before).log → ∃ before' after k,
        before ++ [j] = before' ++ i :: after ∧ (p.run exec before').threads i = .ask q k := by
      intro hlog
      obtain ⟨before',after,k,rfl,hask⟩ := ih hlog
      exact ⟨before',after ++ [j],k,by simp,hask⟩
    rw [run_concat] at h
    rcases asks_or_stays exec (p.run exec before) j with ⟨q',k,hask⟩ | hstays
    · rw [next_of_ask exec hask] at h
      rcases List.mem_append.mp h with hlog | hlast
      · exact hearlier hlog
      · cases List.mem_singleton.mp hlast
        exact ⟨before,[],k,rfl,hask⟩
    · rw [hstays] at h
      exact hearlier h

theorem Asked.append {p : Pool ι Q R ε α σ} {schedule after : List ι} {i : ι} {e : Sigma R}
    (h : Asked exec p schedule i e) : Asked exec p (schedule ++ after) i e := by
  obtain ⟨before,rest,k,hsplit,hask,hanswer⟩ := h
  exact ⟨before,rest ++ after,k,by simp [hsplit],hask,hanswer⟩

variable {A : (q : Q) → R q → Prop} (fits : ∀ q s, A q (exec q s).1)
include fits

theorem run_traced {K : ι → Trace Q R → Q → Prop} {p : Pool ι Q R ε α σ}
    (start : ∀ i, (p.threads i).Traced A (K i) (fun _ _ => True) []) (schedule : List ι) (i : ι) :
    ∃ h, ((p.run exec schedule).threads i).Traced A (K i) (fun _ _ => True) h ∧
      ∀ e ∈ h, Asked exec p schedule i e := by
  induction schedule using List.reverseRecOn with
  | nil => exact ⟨[],start i,by simp⟩
  | append_singleton before j ih =>
    obtain ⟨h,htraced,hasked⟩ := ih
    rw [run_concat]
    rcases asks_or_stays exec (p.run exec before) j with ⟨q,k,hask⟩ | hstays
    · rw [next_of_ask exec hask]
      by_cases hj : i = j
      · subst hj
        rw [hask] at htraced
        refine ⟨h ++ [⟨q,(exec q (p.run exec before).state).1⟩],?_,?_⟩
        · simp only [Function.update_self]
          exact htraced.2 _ (fits q _)
        · intro e he
          rcases List.mem_append.mp he with he | he
          · exact (hasked e he).append exec
          · rw [List.mem_singleton.mp he]
            exact ⟨before,[],k,rfl,hask,rfl⟩
      · refine ⟨h,?_,fun e he => (hasked e he).append exec⟩
        simp only [Function.update_of_ne hj]
        exact htraced
    · rw [hstays]
      exact ⟨h,htraced,fun e he => (hasked e he).append exec⟩

/-- The next request of a thread satisfies `K` with what it was answered before. -/
theorem traced_ask {K : ι → Trace Q R → Q → Prop} {p : Pool ι Q R ε α σ}
    (start : ∀ i, (p.threads i).Traced A (K i) (fun _ _ => True) []) {schedule : List ι} {i : ι}
    {q : Q} {k : R q → Prog Q R ε α} (hask : (p.run exec schedule).threads i = .ask q k) :
    ∃ h, K i h q ∧ ∀ e ∈ h, Asked exec p schedule i e := by
  obtain ⟨h,htraced,hasked⟩ := run_traced exec fits start schedule i
  rw [hask] at htraced
  exact ⟨h,htraced.1,hasked⟩

theorem traced_logged {K : ι → Trace Q R → Q → Prop} {p : Pool ι Q R ε α σ}
    (start : ∀ i, (p.threads i).Traced A (K i) (fun _ _ => True) []) (hstart : p.log = [])
    {schedule : List ι} {i : ι} {q : Q} (hlog : (i,q) ∈ (p.run exec schedule).log) :
    ∃ h, K i h q ∧ ∀ e ∈ h, Asked exec p schedule i e := by
  obtain ⟨before,after,k,rfl,hask⟩ := turn_of_log exec hstart hlog
  obtain ⟨h,hK,hasked⟩ := traced_ask exec fits start hask
  exact ⟨h,hK,fun e he => (hasked e he).append exec⟩

/-- What the requests keep that a thread may make, a run keeps. -/
theorem run_traced_state {K : ι → Trace Q R → Q → Prop} {p : Pool ι Q R ε α σ}
    (start : ∀ i, (p.threads i).Traced A (K i) (fun _ _ => True) []) {I : σ → Prop}
    (hI : I p.state) (keep : ∀ i h q s, K i h q → I s → I (exec q s).2) (schedule : List ι) :
    I (p.run exec schedule).state := by
  induction schedule using List.reverseRecOn with
  | nil => exact hI
  | append_singleton before i ih =>
    rw [run_concat]
    rcases asks_or_stays exec (p.run exec before) i with ⟨q,k,hask⟩ | hstays
    · obtain ⟨h,hK,-⟩ := traced_ask exec fits start hask
      rw [next_of_ask exec hask]
      exact keep i h q _ hK ih
    · rw [hstays]
      exact ih

end Pool

end Imy.Lib
