import Mathlib.Data.List.Count
import Mathlib.Data.List.DropRight
import Mathlib.Data.List.Induction
import Mathlib.Logic.Function.Basic
import Imy.Lib.Command
set_option autoImplicit false

/-!
Programs that talk to a shared state through single requests, and any number of
them running side by side. A request is atomic; between two requests of a program
the others may run.
-/

namespace Imy.Lib

inductive Prog (Q : Type) (R : Q → Type) (ε α : Type) : Type where
  | ret (a : α)
  | fail (e : ε)
  | ask (q : Q) (next : R q → Prog Q R ε α)

namespace Prog
variable {Q : Type} {R : Q → Type} {ε ε' α β σ : Type}

def bind (p : Prog Q R ε α) (f : α → Prog Q R ε β) : Prog Q R ε β :=
  match p with
  | .ret a => f a
  | .fail e => .fail e
  | .ask q next => .ask q fun r => (next r).bind f

instance : Monad (Prog Q R ε) where
  pure := .ret
  bind := .bind

theorem bind_assoc {γ : Type} (p : Prog Q R ε α) (f : α → Prog Q R ε β) (g : β → Prog Q R ε γ) :
    p >>= f >>= g = p >>= fun a => f a >>= g := by
  change (p.bind f).bind g = p.bind fun a => (f a).bind g
  induction p with
  | ret a => rfl
  | fail e => rfl
  | ask q next ih => exact congrArg (Prog.ask q) (funext ih)

/-- Ask one thing. -/
def query (q : Q) : Prog Q R ε (R q) := .ask q .ret

def attempt : Prog Q R ε α → Prog Q R ε' (Except ε α)
  | .ret a => .ret (.ok a)
  | .fail e => .ret (.error e)
  | .ask q next => .ask q fun r => (next r).attempt

variable (exec : (q : Q) → σ → R q × σ)

/-- The program alone. -/
def run : Prog Q R ε α → EStateM ε σ α
  | .ret a => fun s => .ok a s
  | .fail e => fun s => .error e s
  | .ask q next => fun s => (next (exec q s).1).run (exec q s).2

@[simp] theorem wp_run_query (q : Q) (Q' : R q → σ → Prop) (E : ε → σ → Prop) (s : σ) :
    wp (run exec (query q)) Q' E s = Q' (exec q s).1 (exec q s).2 := rfl

@[simp] theorem wp_run_bind (p : Prog Q R ε α) (f : α → Prog Q R ε β) (Q' : β → σ → Prop)
    (E : ε → σ → Prop) (s : σ) :
    wp (run exec (p >>= f)) Q' E s = wp (run exec p)
      (fun a t => wp (run exec (f a)) Q' E t) E s := by
  change wp (run exec (p.bind f)) Q' E s = _
  induction p generalizing s with
  | ret a => rfl
  | fail e => rfl
  | ask q next ih => exact ih _ _

theorem run_bind (p : Prog Q R ε α) (f : α → Prog Q R ε β) :
    run exec (p >>= f) = run exec p >>= fun a => run exec (f a) := by
  funext s
  change run exec (p.bind f) s = _
  induction p generalizing s with
  | ret a => rfl
  | fail e => rfl
  | ask q next ih => exact ih _ _

theorem run_forM (f : α → Prog Q R ε PUnit) (xs : List α) :
    run exec (forM xs f) = forM xs fun x => run exec (f x) := by
  induction xs with
  | nil => rfl
  | cons x xs ih => rw [List.forM_cons,run_bind,ih,List.forM_cons]

theorem run_foldlM (f : β → α → Prog Q R ε β) (xs : List α) (b : β) :
    run exec (xs.foldlM f b) = xs.foldlM (fun b x => run exec (f b x)) b := by
  induction xs generalizing b with
  | nil => rfl
  | cons x xs ih =>
    rw [List.foldlM_cons,run_bind,List.foldlM_cons]
    congr 1
    funext b'
    exact ih b'

theorem wp_run_attempt (p : Prog Q R ε α) (Q' : Except ε α → σ → Prop) (E : ε' → σ → Prop)
    (s : σ) : wp (run exec (p.attempt : Prog Q R ε' _)) Q' E s =
      wp (run exec p) (fun a t => Q' (.ok a) t) (fun e t => Q' (.error e) t) s := by
  induction p generalizing s with
  | ret a => rfl
  | fail e => rfl
  | ask q next ih => exact ih _ _

/-- Everything that a program may ask is of the kind `K`, and what it may return
satisfies `P`. -/
def Yields (K : Q → Prop) (P : α → Prop) : Prog Q R ε α → Prop
  | .ret a => P a
  | .fail _ => True
  | .ask q next => K q ∧ ∀ r, (next r).Yields K P

section Yields
variable {K : Q → Prop} {P : α → Prop} {P' : β → Prop}

theorem Yields.bind {p : Prog Q R ε α} {f : α → Prog Q R ε β} (h : p.Yields K P)
    (hf : ∀ a, P a → (f a).Yields K P') : (p >>= f).Yields K P' := by
  change (p.bind f).Yields K P'
  induction p with
  | ret a => exact hf a h
  | fail e => exact trivial
  | ask q next ih => exact ⟨h.1,fun r => ih r (h.2 r)⟩

theorem yields_forM {f : α → Prog Q R ε PUnit} (xs : List α)
    (hf : ∀ x ∈ xs, (f x).Yields K fun _ => True) : (forM xs f).Yields K fun _ => True := by
  induction xs with
  | nil => exact trivial
  | cons x xs ih =>
    rw [List.forM_cons]
    refine (hf x List.mem_cons_self).bind fun _ _ => ih fun y hy => hf y ?_
    exact List.mem_cons_of_mem x hy

theorem yields_foldlM {P : β → Prop} {f : β → α → Prog Q R ε β} (xs : List α) {b : β} (start : P b)
    (hf : ∀ b, P b → ∀ x ∈ xs, (f b x).Yields K P) : (xs.foldlM f b).Yields K P := by
  induction xs generalizing b with
  | nil => exact start
  | cons x xs ih =>
    rw [List.foldlM_cons]
    refine (hf b start x List.mem_cons_self).bind fun b' hb' => ih hb' fun b hb y hy => hf b hb y ?_
    exact List.mem_cons_of_mem x hy

theorem Yields.imp {K' : Q → Prop} {p : Prog Q R ε α} (h : p.Yields K P)
    (hK : ∀ q, K q → K' q) : p.Yields K' P := by
  induction p with
  | ret a => exact h
  | fail e => exact trivial
  | ask q next ih => exact ⟨hK q h.1,fun r => ih r (h.2 r)⟩

theorem Yields.attempt {p : Prog Q R ε α} (h : p.Yields K P) :
    (p.attempt : Prog Q R ε' _).Yields K fun _ => True := by
  induction p with
  | ret a => exact trivial
  | fail e => exact trivial
  | ask q next ih => exact ⟨h.1,fun r => ih r (h.2 r)⟩

/-- What every request of the kind keeps, a program of such requests keeps. -/
theorem Yields.wp_run {I : σ → Prop} (keep : ∀ q s, K q → I s → I (exec q s).2)
    {p : Prog Q R ε α} (h : p.Yields K P) {s : σ} (start : I s) :
    wp (run exec p) (fun a t => I t ∧ P a) (fun _ t => I t) s := by
  induction p generalizing s with
  | ret a => exact ⟨start,h⟩
  | fail e => exact start
  | ask q next ih => exact ih _ (h.2 _) (keep q s h.1 start)

end Yields

end Prog

section Since
variable {α : Type} (mark : α → Bool)

def since (log : List α) : List α := log.rtakeWhile fun e => !mark e

theorem since_concat_marked (log : List α) {e : α} (h : mark e = true) :
    since mark (log ++ [e]) = [] :=
  List.rtakeWhile_concat_neg _ _ e (by simp [h])

theorem since_concat (log : List α) {e : α} (h : mark e = false) :
    since mark (log ++ [e]) = since mark log ++ [e] :=
  List.rtakeWhile_concat_pos _ _ e (by simp [h])

theorem mem_since_concat {log : List α} {e e' : α} (h : mark e = false)
    (he' : e' ∈ since mark log) :
    e' ∈ since mark (log ++ [e]) := by
  rw [since_concat mark log h]
  exact List.mem_append_left _ he'

theorem mem_since_last (log : List α) {e : α} (h : mark e = false) :
    e ∈ since mark (log ++ [e]) := by
  rw [since_concat mark log h]
  exact List.mem_append_right _ (List.mem_singleton_self e)

theorem mem_of_mem_since {log : List α} {e : α} (h : e ∈ since mark log) : e ∈ log :=
  (List.rtakeWhile_suffix _ log).subset h

theorem exists_since_concat {P : α → Prop} (log : List α) (e : α) :
    (∃ e' ∈ since mark (log ++ [e]), P e') ↔
      mark e = false ∧ ((∃ e' ∈ since mark log, P e') ∨ P e) := by
  cases h : mark e with
  | true => simp [since_concat_marked mark log h]
  | false => simp [since_concat mark log h,or_and_right,exists_or]

def upToLast (log : List α) : List α := log.rdropWhile fun e => !mark e

theorem upToLast_concat_marked (log : List α) {e : α} (h : mark e = true) :
    upToLast mark (log ++ [e]) = log ++ [e] :=
  List.rdropWhile_concat_neg _ _ e (by simp [h])

theorem upToLast_concat (log : List α) {e : α} (h : mark e = false) :
    upToLast mark (log ++ [e]) = upToLast mark log :=
  List.rdropWhile_concat_pos _ _ e (by simp [h])

end Since

section LastBy
variable {ι Q : Type} (mark : ι × Q → Bool)

/-- Whose the last marked entry of a log is. -/
def lastBy (log : List (ι × Q)) : Option ι := (log.reverse.find? mark).map Prod.fst

theorem lastBy_concat_marked (log : List (ι × Q)) {i : ι} {q : Q} (h : mark (i,q) = true) :
    lastBy mark (log ++ [(i,q)]) = some i := by
  rw [lastBy,List.reverse_concat,List.find?_cons_of_pos h]
  rfl

theorem lastBy_concat (log : List (ι × Q)) {i : ι} {q : Q} (h : mark (i,q) = false) :
    lastBy mark (log ++ [(i,q)]) = lastBy mark log := by
  rw [lastBy,List.reverse_concat,List.find?_cons_of_neg (by simp [h])]
  rfl

end LastBy

section Turns
variable {ι : Type} {i j : ι} {s before before' after after' : List ι}

theorem turn_concat (h : s ++ [j] = before ++ i :: after) :
    (∃ after', s = before ++ i :: after') ∨ (before = s ∧ j = i) := by
  rcases List.eq_nil_or_concat after with rfl | ⟨after',k,rfl⟩
  · obtain ⟨rfl,hlast⟩ := List.append_inj' h rfl
    exact Or.inr ⟨rfl,(List.cons.inj hlast).1⟩
  · rw [List.concat_eq_append,← List.cons_append,← List.append_assoc] at h
    exact Or.inl ⟨after',(List.append_inj' h rfl).1⟩

variable [BEq ι] [LawfulBEq ι]

theorem turn_unique (h : s = before ++ i :: after) (h' : s = before' ++ i :: after')
    (hcount : before.count i = before'.count i) : before = before' := by
  have hshorter : ∀ {b b' a a' : List ι}, b ++ i :: a = b' ++ i :: a' →
      b.count i = b'.count i → b'.length ≤ b.length := by
    intro b b' a a' heq hc
    by_contra hlt
    have hleft : b ++ [i] <+: b ++ i :: a := ⟨a,by simp⟩
    have hright : b' <+: b ++ i :: a := ⟨i :: a',heq.symm⟩
    have hinit := List.prefix_of_prefix_length_le hleft hright (by simp; omega)
    have hle := hinit.sublist.count_le i
    simp at hle
    omega
  have heq := h.symm.trans h'
  exact (List.append_inj heq (le_antisymm (hshorter heq.symm hcount.symm)
    (hshorter heq hcount))).1

end Turns

/-- Programs side by side. `log` is what was asked, and by whom. -/
structure Pool (ι Q : Type) (R : Q → Type) (ε α σ : Type) where
  state : σ
  threads : ι → Prog Q R ε α
  log : List (ι × Q)

namespace Pool
variable {ι Q : Type} {R : Q → Type} {ε α σ : Type} [DecidableEq ι]
  (exec : (q : Q) → σ → R q × σ)

/-- The next request of thread `i`; one that has ended does nothing. -/
def next (p : Pool ι Q R ε α σ) (i : ι) : Pool ι Q R ε α σ :=
  match p.threads i with
  | .ask q k =>
    { state := (exec q p.state).2
      threads := Function.update p.threads i (k (exec q p.state).1)
      log := p.log ++ [(i,q)] }
  | _ => p

/-- A schedule says whose turn it is. -/
def run (schedule : List ι) (p : Pool ι Q R ε α σ) : Pool ι Q R ε α σ :=
  schedule.foldl (fun p i => p.next exec i) p

theorem next_of_ask {p : Pool ι Q R ε α σ} {i : ι} {q : Q} {k : R q → Prog Q R ε α}
    (h : p.threads i = .ask q k) : p.next exec i =
      { state := (exec q p.state).2
        threads := Function.update p.threads i (k (exec q p.state).1)
        log := p.log ++ [(i,q)] } := by
  simp only [next,h]

theorem next_of_ended {p : Pool ι Q R ε α σ} {i : ι}
    (h : ∀ q (k : R q → Prog Q R ε α), p.threads i ≠ .ask q k) : p.next exec i = p := by
  unfold next
  split
  · rename_i q k hask
    exact (h q k hask).elim
  · rfl

theorem asks_or_stays (p : Pool ι Q R ε α σ) (i : ι) :
    (∃ q k, p.threads i = .ask q k) ∨ p.next exec i = p := by
  by_cases hask : ∃ q k, p.threads i = .ask q k
  · exact Or.inl hask
  · exact Or.inr (next_of_ended exec fun q k h => hask ⟨q,k,h⟩)

theorem next_threads_self {p : Pool ι Q R ε α σ} {i : ι} {q : Q} {k : R q → Prog Q R ε α}
    (h : p.threads i = .ask q k) : (p.next exec i).threads i = k (exec q p.state).1 := by
  rw [next_of_ask exec h]
  exact Function.update_self ..

theorem next_threads_other (p : Pool ι Q R ε α σ) {i j : ι} (h : i ≠ j) :
    (p.next exec j).threads i = p.threads i := by
  unfold next
  split
  · exact Function.update_of_ne h ..
  · rfl

theorem run_concat (schedule : List ι) (i : ι) (p : Pool ι Q R ε α σ) :
    p.run exec (schedule ++ [i]) = (p.run exec schedule).next exec i := by
  rw [run,List.foldl_append]
  rfl

theorem run_append (before after : List ι) (p : Pool ι Q R ε α σ) :
    p.run exec (before ++ after) = (p.run exec before).run exec after :=
  List.foldl_append

theorem run_state {I : σ → Prop} (keep : ∀ q s, I s → I (exec q s).2) {p : Pool ι Q R ε α σ}
    (start : I p.state) (schedule : List ι) : I (p.run exec schedule).state := by
  induction schedule generalizing p with
  | nil => exact start
  | cons i schedule ih =>
    refine ih (p := p.next exec i) ?_
    unfold next
    split
    · exact keep _ _ start
    · exact start

/-- At each turn of the schedule `C` holds of the pool and of whose turn it is. -/
def Turns (C : Pool ι Q R ε α σ → ι → Prop) (p : Pool ι Q R ε α σ) (schedule : List ι) : Prop :=
  ∀ before i after, schedule = before ++ i :: after → C (p.run exec before) i

theorem turns_concat {C : Pool ι Q R ε α σ → ι → Prop} {p : Pool ι Q R ε α σ} {schedule : List ι}
    {i : ι} : Turns exec C p (schedule ++ [i]) ↔
      Turns exec C p schedule ∧ C (p.run exec schedule) i := by
  refine ⟨fun h => ⟨?_,h schedule i [] rfl⟩,?_⟩
  · intro before j after hsplit
    refine h before j (after ++ [i]) ?_
    rw [hsplit,List.append_assoc]
    rfl
  · rintro ⟨h,hi⟩ before j after hsplit
    rcases turn_concat hsplit with ⟨after',hsplit'⟩ | ⟨rfl,rfl⟩
    · exact h before j after' hsplit'
    · exact hi

theorem turns_cons {C : Pool ι Q R ε α σ → ι → Prop} {p : Pool ι Q R ε α σ} {schedule : List ι}
    {i : ι} (hi : C p i) (h : Turns exec C (p.next exec i) schedule) :
    Turns exec C p (i :: schedule) := by
  intro before j after hsplit
  cases before with
  | nil =>
    cases hsplit
    exact hi
  | cons k before =>
    cases hsplit
    exact h before j after rfl

theorem run_invariant {I : Pool ι Q R ε α σ → Prop} {C : Pool ι Q R ε α σ → ι → Prop}
    {p : Pool ι Q R ε α σ} (start : I p)
    (keep : ∀ p i q k, I p → C p i → p.threads i = .ask q k → I (p.next exec i))
    (schedule : List ι) (turns : Turns exec C p schedule) : I (p.run exec schedule) := by
  induction schedule using List.reverseRecOn with
  | nil => exact start
  | append_singleton before i ih =>
    rw [run_concat]
    obtain ⟨hbefore,hi⟩ := (turns_concat exec).mp turns
    rcases asks_or_stays exec (p.run exec before) i with ⟨q,k,hask⟩ | hstays
    · exact keep _ i q k (ih hbefore) hi hask
    · rw [hstays]
      exact ih hbefore

theorem turns_congr {I : Pool ι Q R ε α σ → Prop} {C M : Pool ι Q R ε α σ → ι → Prop}
    {p : Pool ι Q R ε α σ} (start : I p)
    (keep : ∀ p i q k, I p → C p i → p.threads i = .ask q k → I (p.next exec i))
    (same : ∀ p i, I p → (C p i ↔ M p i)) (schedule : List ι) :
    Turns exec C p schedule ↔ Turns exec M p schedule := by
  induction schedule using List.reverseRecOn with
  | nil => exact ⟨fun _ _ _ _ h => by simp at h,fun _ _ _ _ h => by simp at h⟩
  | append_singleton before i ih =>
    rw [turns_concat,turns_concat,← ih]
    refine and_congr_right fun hbefore => ?_
    exact same _ i (run_invariant exec start keep before hbefore)

/-- `I` as long as `C` held at every turn, and `D` from the first turn on at which
it did not. -/
theorem run_dichotomy {I D : Pool ι Q R ε α σ → Prop} {C : Pool ι Q R ε α σ → ι → Prop}
    {p : Pool ι Q R ε α σ} (start : I p)
    (keep : ∀ p i q k, I p → C p i → p.threads i = .ask q k → I (p.next exec i))
    (spoil : ∀ p i, I p → ¬ C p i → D (p.next exec i)) (stay : ∀ p i, D p → D (p.next exec i))
    (schedule : List ι) : (Turns exec C p schedule ∧ I (p.run exec schedule)) ∨
      (¬ Turns exec C p schedule ∧ D (p.run exec schedule)) := by
  induction schedule using List.reverseRecOn with
  | nil => exact Or.inl ⟨fun _ _ _ h => by simp at h,start⟩
  | append_singleton before i ih =>
    rw [run_concat,turns_concat]
    rcases ih with ⟨hturns,hI⟩ | ⟨hturns,hD⟩
    · by_cases hC : C (p.run exec before) i
      · have hall := (turns_concat exec).mpr ⟨hturns,hC⟩
        refine Or.inl ⟨⟨hturns,hC⟩,?_⟩
        rw [← run_concat]
        exact run_invariant exec start keep _ hall
      · exact Or.inr ⟨fun h => hC h.2,spoil _ i hI hC⟩
    · exact Or.inr ⟨fun h => hturns h.1,stay _ i hD⟩

end Pool

end Imy.Lib
