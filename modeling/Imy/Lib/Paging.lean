import Mathlib.Data.List.DropRight
import Mathlib.Order.Lattice.Nat
set_option autoImplicit false

/-!
Pages of a list that is sorted by a key: what lies before or behind an element is
told by comparing keys with its key.
-/

namespace Imy.Lib

section Linear
variable {α κ : Type} [LinearOrder κ] (key : α → κ) {pre post : List α} {y : α}

theorem filter_key_lt (h : (pre ++ y :: post).Pairwise fun x x' => key x < key x') :
    (pre ++ y :: post).filter (fun x => key x < key y) = pre := by
  obtain ⟨-,hpost,hpre⟩ := List.pairwise_append.mp h
  rw [List.filter_append,List.filter_cons_of_neg (by simp)]
  have hnone : post.filter (fun x => key x < key y) = [] := by
    rw [List.filter_eq_nil_iff]
    intro x hx
    have hlt := (List.pairwise_cons.mp hpost).1 x hx
    simpa using hlt.le
  rw [hnone,List.append_nil,List.filter_eq_self]
  intro x hx
  simpa using hpre x hx y List.mem_cons_self

theorem filter_lt_key (h : (pre ++ y :: post).Pairwise fun x x' => key x < key x') :
    (pre ++ y :: post).filter (fun x => key y < key x) = post := by
  obtain ⟨-,hpost,hpre⟩ := List.pairwise_append.mp h
  rw [List.filter_append,List.filter_cons_of_neg (by simp)]
  have hnone : pre.filter (fun x => key y < key x) = [] := by
    rw [List.filter_eq_nil_iff]
    intro x hx
    have hlt := hpre x hx y List.mem_cons_self
    simpa using hlt.le
  rw [hnone,List.nil_append,List.filter_eq_self]
  intro x hx
  simpa using (List.pairwise_cons.mp hpost).1 x hx

end Linear

section Sorted
variable {α : Type} (key : α → Nat) {pre post : List α} {y : α}

theorem min_key (h : (y :: post).Pairwise fun x x' => key x < key x') :
    ((y :: post).map key).min? = some (key y) := by
  rw [List.min?_eq_some_iff]
  refine ⟨List.mem_map_of_mem List.mem_cons_self,fun k hk => ?_⟩
  obtain ⟨x,hx,rfl⟩ := List.mem_map.mp hk
  rcases List.mem_cons.mp hx with rfl | hx
  · exact le_rfl
  · exact ((List.pairwise_cons.mp h).1 x hx).le

theorem max_key {ks : List Nat} (h : (pre ++ [y]).Pairwise fun x x' => key x < key x')
    (hks : ∀ k, k ∈ ks ↔ k ∈ (pre ++ [y]).map key) : ks.max? = some (key y) := by
  rw [List.max?_eq_some_iff]
  refine ⟨(hks _).mpr (List.mem_map_of_mem (by simp)),fun k hk => ?_⟩
  obtain ⟨x,hx,rfl⟩ := List.mem_map.mp ((hks k).mp hk)
  rcases List.mem_append.mp hx with hx | hx
  · exact ((List.pairwise_append.mp h).2.2 x hx y (List.mem_singleton_self y)).le
  · rw [List.mem_singleton.mp hx]

theorem rdrop_append_rtake (xs : List α) (n : Nat) : xs.rdrop n ++ xs.rtake n = xs :=
  List.take_append_drop _ _

theorem length_rdrop_lt {xs : List α} {n : Nat} (h : xs.rtake n ≠ []) :
    (xs.rdrop n).length < xs.length := by
  have hsplit := congrArg List.length (rdrop_append_rtake xs n)
  rw [List.length_append] at hsplit
  have := List.length_pos_iff.mpr h
  omega

theorem eq_nil_of_rtake {xs : List α} {n : Nat} (hn : 0 < n) (h : xs.rtake n = []) : xs = [] := by
  rw [List.rtake,List.drop_eq_nil_iff] at h
  exact List.length_eq_zero_iff.mp (by omega)

end Sorted

end Imy.Lib
