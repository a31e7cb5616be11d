import Mathlib.Data.List.Induction
import Mathlib.Logic.Function.Basic
set_option autoImplicit false

/-!
A map with a machine for each key, which is made when the key is asked for the first time.
What it answers is what a machine answers that serves this key alone.
-/

namespace Imy.Lib

variable {κ μ α ρ : Type} [DecidableEq κ] (init : μ) (ask : α → μ → ρ × μ)

def askAt (table : κ → Option μ) (key : κ) (a : α) : ρ × (κ → Option μ) :=
  let (answer,machine) := ask a ((table key).getD init)
  (answer,Function.update table key (some machine))

def machineAfter (asked : List α) : μ := asked.foldl (fun machine a => (ask a machine).2) init

def tableAfter (log : List (κ × α)) : κ → Option μ :=
  log.foldl (fun table e => (askAt init ask table e.1 e.2).2) fun _ => none

def askedAt (key : κ) (log : List (κ × α)) : List α :=
  log.filterMap fun e => if e.1 = key then some e.2 else none

variable {init ask}

theorem askedAt_cons (key : κ) (e : κ × α) (log : List (κ × α)) :
    askedAt key (e :: log) = (if e.1 = key then [e.2] else []) ++ askedAt key log := by
  by_cases he : e.1 = key <;> simp [askedAt,he]

theorem askedAt_concat (key : κ) (log : List (κ × α)) (e : κ × α) :
    askedAt key (log ++ [e]) = askedAt key log ++ if e.1 = key then [e.2] else [] := by
  by_cases he : e.1 = key <;> simp [askedAt,List.filterMap_append,he]

theorem tableAfter_concat (log : List (κ × α)) (key : κ) (a : α) :
    tableAfter init ask (log ++ [(key,a)]) =
      (askAt init ask (tableAfter init ask log) key a).2 := by
  rw [tableAfter,List.foldl_append]
  rfl

theorem tableAfter_getD (log : List (κ × α)) (key : κ) :
    (tableAfter init ask log key).getD init = machineAfter init ask (askedAt key log) := by
  induction log using List.reverseRecOn with
  | nil => rfl
  | append_singleton log e ih =>
    obtain ⟨k,a⟩ := e
    rw [tableAfter_concat,askAt,askedAt_concat]
    by_cases hk : k = key
    · subst hk
      simp [ih,machineAfter,List.foldl_append]
    · simp [Function.update_of_ne (Ne.symm hk),ih,hk]

theorem askAt_answer (log : List (κ × α)) (key : κ) (a : α) :
    (askAt init ask (tableAfter init ask log) key a).1 =
      (ask a (machineAfter init ask (askedAt key log))).1 := by
  rw [askAt,tableAfter_getD]

theorem tableAfter_isSome (log : List (κ × α)) (key : κ) :
    (tableAfter init ask log key).isSome ↔ ∃ e ∈ log, e.1 = key := by
  induction log using List.reverseRecOn with
  | nil => simp [tableAfter]
  | append_singleton log e ih =>
    obtain ⟨k,a⟩ := e
    rw [tableAfter_concat,askAt]
    by_cases hk : k = key
    · subst hk
      simp
    · simp [Function.update_of_ne (Ne.symm hk),ih,hk]

end Imy.Lib
