import Mathlib.Data.Finset.Card
import Mathlib.Data.List.Rotate
import Mathlib.Data.Nat.Find
set_option autoImplicit false

/-!
The different things met on a walk, in the order they are first met. A walk that
goes round and round meets nothing new after the first round.
-/

namespace Imy.Lib

section Lists
variable {α : Type} [DecidableEq α]

theorem eraseDups_concat (xs : List α) (x : α) :
    (xs ++ [x]).eraseDups = if x ∈ xs then xs.eraseDups else xs.eraseDups ++ [x] := by
  rw [List.eraseDups_append]
  by_cases hx : x ∈ xs <;> simp [List.removeAll,hx,List.eraseDups_cons]

theorem nodup_eraseDups (xs : List α) : xs.eraseDups.Nodup := by
  induction xs using List.reverseRecOn with
  | nil => simp
  | append_singleton xs x ih =>
    rw [eraseDups_concat]
    split
    · exact ih
    · rename_i hx
      exact ih.append (List.nodup_singleton x) (by simpa [List.mem_eraseDups] using hx)

theorem eraseDups_prefix_append (xs ys : List α) : xs.eraseDups <+: (xs ++ ys).eraseDups := by
  rw [List.eraseDups_append]
  exact List.prefix_append _ _

theorem length_eraseDups_le (xs : List α) : xs.eraseDups.length ≤ xs.length := by
  induction xs using List.reverseRecOn with
  | nil => simp
  | append_singleton xs x ih =>
    rw [eraseDups_concat]
    split
    · simp; omega
    · simp; omega

end Lists

section Walk
variable {α : Type} [DecidableEq α] (w : Nat → α)

def metBy (k : Nat) : List α := ((List.range k).map w).eraseDups

theorem metBy_succ (k : Nat) :
    metBy w (k+1) = if w k ∈ metBy w k then metBy w k else metBy w k ++ [w k] := by
  simp only [metBy,List.range_succ,List.map_append,List.map_cons,List.map_nil,eraseDups_concat,
    List.mem_eraseDups]

variable {w}

theorem metBy_initial {k k' : Nat} (h : k ≤ k') : metBy w k <+: metBy w k' := by
  obtain ⟨d,rfl⟩ := Nat.exists_eq_add_of_le h
  simp only [metBy,List.range_add,List.map_append]
  exact eraseDups_prefix_append _ _

theorem length_metBy_succ_le (k : Nat) : (metBy w (k+1)).length ≤ (metBy w k).length+1 := by
  rw [metBy_succ]
  split <;> simp

theorem metBy_round_initial {n : Nat} (hround : ∀ k, ∃ j < n, w k = w j) (k : Nat) :
    metBy w k <+: metBy w n := by
  rcases Nat.le_total k n with hk | hk
  · exact metBy_initial hk
  · have hsub : metBy w k ⊆ metBy w n := by
      intro a ha
      simp only [metBy,List.mem_eraseDups,List.mem_map,List.mem_range] at ha ⊢
      obtain ⟨i,-,rfl⟩ := ha
      obtain ⟨j,hj,heq⟩ := hround i
      exact ⟨j,hj,heq.symm⟩
    have hlen := (List.subperm_of_subset (nodup_eraseDups ((List.range k).map w)) hsub).length_le
    exact (metBy_initial hk).eq_of_length_le hlen ▸ List.prefix_refl _

/-- A walk that goes round shows `want` different things for a first time, if
there are so many. -/
theorem exists_metBy_length {want n : Nat} (h : want ≤ (metBy w n).length) :
    ∃ k ≤ n, (metBy w k).length = want ∧ ∀ j < k, (metBy w j).length < want := by
  have hex : ∃ k, want ≤ (metBy w k).length := ⟨n,h⟩
  have hk := Nat.find_spec hex
  have hbefore : ∀ j < Nat.find hex, (metBy w j).length < want := by
    intro j hj
    exact not_le.mp (Nat.find_min hex hj)
  refine ⟨Nat.find hex,Nat.find_min' hex h,le_antisymm ?_ hk,hbefore⟩
  cases hf : Nat.find hex with
  | zero => simp [metBy]
  | succ j =>
    have hj := hbefore j (by omega)
    have := length_metBy_succ_le (w := w) j
    omega

/-- The walk along a list from place `i` on, around the end. -/
theorem metBy_around {xs : List α} {i : Nat}
    (hw : ∀ k < xs.length, xs[(i+k)%xs.length]? = some (w k)) :
    metBy w xs.length = (xs.rotate i).eraseDups := by
  have hmap : (List.range xs.length).map w = xs.rotate i := by
    refine List.ext_getElem? fun k => ?_
    rcases Nat.lt_or_ge k xs.length with hk | hk
    · rw [List.getElem?_rotate hk,Nat.add_comm k i,hw k hk]
      simp [hk]
    · rw [List.getElem?_eq_none (by simpa using hk),List.getElem?_eq_none (by simpa using hk)]
  rw [metBy,hmap]

end Walk

end Imy.Lib
