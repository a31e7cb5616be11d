import Imy.Lib.Command
set_option autoImplicit false

/-!
Single statements to a database that may fail on any of them, and transactions. A
statement that fails does nothing.
-/

namespace Imy.Lib

/-- The tables, and how many statements there have been. -/
structure Server (σ : Type) where
  tables : σ
  tick : Nat

section Statements
-- by its number, whether the database fails on a statement
variable (fails : Nat → Bool) {ε σ α : Type}

def statement (failed : α) (f : σ → α × σ) : EStateM ε (Server σ) α := fun s =>
  if fails s.tick then .ok failed { s with tick := s.tick+1 }
  else .ok (f s.tables).1 ⟨(f s.tables).2,s.tick+1⟩

/-- What was done before an error is undone; `failed` is the error where the beginning
or the end fails. -/
def transaction (failed : ε) (x : EStateM ε (Server σ) α) : EStateM ε (Server σ) α := fun s =>
  if fails s.tick then .error failed { s with tick := s.tick+1 }
  else
    match x { s with tick := s.tick+1 } with
    | .error e t => .error e { s with tick := t.tick+1 }
    | .ok a t =>
      if fails t.tick then .error failed { s with tick := t.tick+1 }
      else .ok a { t with tick := t.tick+1 }

def Faulty : Prop := ∃ n, fails n = true

variable {fails} {s : Server σ}

theorem wp_statement {failed : α} (f : σ → α × σ) {Q : α → Server σ → Prop}
    {E : ε → Server σ → Prop}
    (answered : ∀ t : Server σ, t.tables = (f s.tables).2 → Q (f s.tables).1 t)
    (failing : ∀ t : Server σ, Faulty fails → t.tables = s.tables → Q failed t) :
    wp (statement fails failed f) Q E s := by
  by_cases hfail : fails s.tick = true
  · exact wp_of_eq_ok (if_pos hfail) (failing _ ⟨_,hfail⟩ rfl)
  · exact wp_of_eq_ok (if_neg hfail) (answered _ rfl)

@[simp] theorem wp_statement_sure (failed : α) (f : σ → α × σ) (Q : α → Server σ → Prop)
    (E : ε → Server σ → Prop) : wp (statement (fun _ => false) failed f) Q E s =
      Q (f s.tables).1 ⟨(f s.tables).2,s.tick+1⟩ := rfl

theorem wp_transaction {failed : ε} {x : EStateM ε (Server σ) α} {Q : σ → Prop}
    (hx : ∀ t : Server σ, t.tables = s.tables →
      wp x (fun _ u => Q u.tables) (fun _ _ => Faulty fails) t) :
    wp (transaction fails failed x) (fun _ t => Q t.tables)
      (fun _ t => Faulty fails ∧ t.tables = s.tables) s := by
  by_cases hbegin : fails s.tick = true
  · exact wp_of_eq_error (if_pos hbegin) ⟨⟨_,hbegin⟩,rfl⟩
  · have hbody := hx { s with tick := s.tick+1 } rfl
    cases hrun : x { s with tick := s.tick+1 } with
    | error e t =>
      have hundone : transaction fails failed x s = .error e { s with tick := t.tick+1 } := by
        simp only [transaction,if_neg hbegin,hrun]
      exact wp_of_eq_error hundone ⟨wp_error hbody hrun,rfl⟩
    | ok a t =>
      by_cases hcommit : fails t.tick = true
      · have hundone : transaction fails failed x s =
            .error failed { s with tick := t.tick+1 } := by
          simp only [transaction,if_neg hbegin,hrun,if_pos hcommit]
        exact wp_of_eq_error hundone ⟨⟨_,hcommit⟩,rfl⟩
      · have hdone : transaction fails failed x s = .ok a { t with tick := t.tick+1 } := by
          simp only [transaction,if_neg hbegin,hrun,if_neg hcommit]
        exact wp_of_eq_ok hdone (wp_ok (Q := fun _ u => Q u.tables) hbody hrun)

end Statements

end Imy.Lib
