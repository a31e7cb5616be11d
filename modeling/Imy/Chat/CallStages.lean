import Imy.Lib.Staged
import Imy.Chat.Roster
set_option autoImplicit false

namespace Imy.Chat
open Imy.Lib

inductive CallStage (M : Type) where
  | main (stage : M)
  | respond (result : Except ErrCode Response) (goroutine : ChatM Unit)
  | after (goroutine : ChatM Unit)

namespace CallStage
variable {M ι : Type} (main : M → ChatM Reply)
  (scene : M → (q : Stmt) × (q.Answer → CallStage M))

/-- The answer of a call that is done. -/
def done (reply : Reply) : CallStage M := .respond (.ok reply.1) reply.2

def refused (e : ErrCode) : CallStage M := .respond (.error e) (pure ())

def program : CallStage M → ChatM Unit
  | .main stage => serve (main stage)
  | .respond result goroutine => do
    ask (.respond result)
    goroutine
  | .after goroutine => goroutine

def script : Script Stmt Stmt.Answer (CallStage M)
  | .main stage => some (scene stage)
  | .respond result goroutine => some ⟨.respond result,fun _ => .after goroutine⟩
  | .after (.ask q k) => some ⟨q,fun r => .after (k r)⟩
  | .after _ => none

variable {main scene}

theorem follows (h : ∀ stage, serve (main stage) = .ask (scene stage).1 fun r =>
    program main ((scene stage).2 r)) : Follows (program main) (script scene) := by
  intro st
  cases st with
  | main stage => exact h stage
  | respond result goroutine => rfl
  | after goroutine =>
    cases goroutine with
    | ret a => exact fun q k hq => by cases hq
    | fail e => exact fun q k hq => by cases hq
    | ask q k => rfl

variable {out : Outer} {sc : Scene ι Stmt (CallStage M) Database}

/-- A call that has not returned has given no answer. -/
def Silent (sc : Scene ι Stmt (CallStage M) Database) : Prop :=
  ∀ i, (∀ g, sc.stages i ≠ .after g) → ∀ result, (i,Stmt.respond result) ∉ sc.log

theorem Silent.returned (h : Silent sc) {i : ι} {result : Except ErrCode Response}
    (hlog : (i,Stmt.respond result) ∈ sc.log) : ∃ g, sc.stages i = .after g := by
  by_contra hnot
  exact h i (fun g hg => hnot ⟨g,hg⟩) result hlog

variable [DecidableEq ι] {i : ι}

theorem next_main {stage : M} (h : sc.stages i = .main stage) :
    sc.next (script scene) (exec out) i =
      { state := (exec out (scene stage).1 sc.state).2
        stages := Function.update sc.stages i
          ((scene stage).2 (exec out (scene stage).1 sc.state).1)
        log := sc.log ++ [(i,(scene stage).1)] } :=
  Scene.next_of_some (by rw [h]; rfl)

theorem next_respond {result : Except ErrCode Response} {goroutine : ChatM Unit}
    (h : sc.stages i = .respond result goroutine) :
    sc.next (script scene) (exec out) i =
      { state := sc.state
        stages := Function.update sc.stages i (.after goroutine)
        log := sc.log ++ [(i,.respond result)] } := by
  have hscript : script scene (sc.stages i) = some ⟨.respond result,fun _ => .after goroutine⟩ := by
    rw [h]
    rfl
  rw [Scene.next_of_some hscript]
  rfl

theorem next_after (scene : M → (q : Stmt) × (q.Answer → CallStage M)) (out : Outer)
    {goroutine : ChatM Unit} (h : sc.stages i = .after goroutine) :
    (∃ q k, goroutine = .ask q k ∧ sc.next (script scene) (exec out) i =
      { state := (exec out q sc.state).2
        stages := Function.update sc.stages i (.after (k (exec out q sc.state).1))
        log := sc.log ++ [(i,q)] }) ∨ sc.next (script scene) (exec out) i = sc := by
  cases goroutine with
  | ask q k =>
    refine Or.inl ⟨q,k,rfl,?_⟩
    have hscript : script scene (sc.stages i) = some ⟨q,fun r => .after (k r)⟩ := by
      rw [h]
      rfl
    rw [Scene.next_of_some hscript]
  | ret a => exact Or.inr (Scene.next_of_none (by rw [h]; rfl))
  | fail e => exact Or.inr (Scene.next_of_none (by rw [h]; rfl))

theorem later_next (scene : M → (q : Stmt) × (q.Answer → CallStage M)) (out : Outer)
    (sc : Scene ι Stmt (CallStage M) Database) (i : ι) :
    Later sc.state (sc.next (script scene) (exec out) i).state := by
  cases hscript : script scene (sc.stages i) with
  | none =>
    rw [Scene.next_of_none hscript]
    exact Later.refl _
  | some e =>
    rw [Scene.next_of_some hscript]
    exact later_exec out e.1 sc.state

theorem keyed_next (h : Keyed sc.state) (i : ι) :
    Keyed (sc.next (script scene) (exec out) i).state := by
  cases hscript : script scene (sc.stages i) with
  | none => rwa [Scene.next_of_none hscript]
  | some e =>
    rw [Scene.next_of_some hscript]
    exact h.exec out e.1

theorem Silent.next (h : Silent sc) (hmain : ∀ stage result, (scene stage).1 ≠ .respond result)
    (i : ι) : Silent (sc.next (script scene) (exec out) i) := by
  cases hscript : script scene (sc.stages i) with
  | none => rwa [Scene.next_of_none hscript]
  | some e =>
    rw [Scene.next_of_some hscript]
    intro j hj result hlog
    by_cases hji : j = i
    · subst hji
      simp only [Function.update_self] at hj
      -- only a main stage leads to a stage before the answer
      cases hst : sc.stages j with
      | main stage =>
        rw [hst] at hscript
        cases hscript
        rcases List.mem_append.mp hlog with hlog | hlog
        · exact h j (by simp [hst]) result hlog
        · exact hmain stage result (Prod.mk.inj (List.mem_singleton.mp hlog)).2.symm
      | respond result' goroutine =>
        rw [hst] at hscript
        cases hscript
        exact hj goroutine rfl
      | after goroutine =>
        rw [hst] at hscript
        cases goroutine with
        | ret a => cases hscript
        | fail e => cases hscript
        | ask q k =>
          cases hscript
          exact hj _ rfl
    · simp only [Function.update_of_ne hji] at hj
      rcases List.mem_append.mp hlog with hlog | hlog
      · exact h j hj result hlog
      · exact hji (Prod.mk.inj (List.mem_singleton.mp hlog)).1

structure Leads (scene : M → (q : Stmt) × (q.Answer → CallStage M)) (out : Outer) (db : Database)
    (stage : M) (st : CallStage M) (r : Roster) : Prop where
  arrives : (scene stage).2 (exec out (scene stage).1 db).1 = st
  leaves : (exec out (scene stage).1 db).2.roster = r

/-- A call has asked `q` and stands at the stage `st` now. -/
structure Arrives (sc sc' : Scene ι Stmt (CallStage M) Database) (i : ι)
    (st : CallStage M) (q : Stmt) (r : Roster) : Prop where
  roster : sc'.state.roster = r
  stages : sc'.stages = Function.update sc.stages i st
  log : sc'.log = sc.log ++ [(i,q)]

theorem Leads.next {stage : M} {st : CallStage M} {r : Roster}
    (h : Leads scene out sc.state stage st r) (hst : sc.stages i = .main stage) :
    Arrives sc (sc.next (script scene) (exec out) i) i st (scene stage).1 r := by
  rw [next_main hst]
  exact ⟨h.leaves,by rw [h.arrives],rfl⟩

end CallStage

end Imy.Chat
