import Mathlib.Data.List.AList
set_option autoImplicit false

/-!
Maps from keys to lists: all elements of the lists together.
-/

namespace Imy.Lib.Pools

variable {κ ν : Type} [DecidableEq κ] {m : AList fun _ : κ => List ν} {k : κ} {xs : List ν} {x : ν}

def pooled (m : AList fun _ : κ => List ν) : List ν := m.entries.flatMap (·.2)

def pool (m : AList fun _ : κ => List ν) (k : κ) : List ν := (m.lookup k).getD []

omit [DecidableEq κ] in
@[simp] theorem pooled_empty : pooled (∅ : AList fun _ : κ => List ν) = [] := rfl

theorem pooled_insert (m : AList fun _ : κ => List ν) (k : κ) (xs : List ν) :
    pooled (m.insert k xs) = xs ++ pooled (m.erase k) := by
  rw [pooled,AList.entries_insert,List.flatMap_cons]
  rfl

theorem flatMap_kerase_perm (k : κ) (l : List (Sigma fun _ : κ => List ν)) :
    (l.flatMap (·.2)).Perm ((List.dlookup k l).getD [] ++ (List.kerase k l).flatMap (·.2)) := by
  induction l with
  | nil => simp
  | cons e l ih =>
    obtain ⟨k',xs⟩ := e
    by_cases hk : k = k'
    · subst hk
      simp
    · rw [List.dlookup_cons_ne _ _ hk,List.kerase_cons_ne hk]
      simp only [List.flatMap_cons]
      exact (ih.append_left xs).trans (List.perm_append_comm_assoc _ _ _)

theorem pooled_perm (m : AList fun _ : κ => List ν) (k : κ) :
    (pooled m).Perm (pool m k ++ pooled (m.erase k)) := flatMap_kerase_perm k m.entries

theorem mem_pooled : x ∈ pooled m ↔ ∃ k, x ∈ pool m k := by
  constructor
  · intro hx
    obtain ⟨⟨k,xs⟩,he,hx⟩ := List.mem_flatMap.mp hx
    exact ⟨k,by rw [pool,AList.mem_lookup_iff.mpr he]; exact hx⟩
  · rintro ⟨k,hx⟩
    exact (pooled_perm m k).symm.subset (List.mem_append_left _ hx)

@[simp] theorem pool_insert_self (m : AList fun _ : κ => List ν) (k : κ) (xs : List ν) :
    pool (m.insert k xs) k = xs := by simp [pool]

theorem pool_insert_of_ne {k' : κ} (h : k' ≠ k) (m : AList fun _ : κ => List ν) (xs : List ν) :
    pool (m.insert k xs) k' = pool m k' := by simp [pool,AList.lookup_insert_ne h]

theorem pooled_push (h : pool m k = xs) (x : ν) :
    (pooled (m.insert k (xs ++ [x]))).Perm (x :: pooled m) := by
  rw [pooled_insert,List.append_assoc]
  refine List.perm_middle.trans ?_
  exact List.Perm.cons x (h ▸ (pooled_perm m k).symm)

theorem pooled_pop (h : pool m k = xs ++ [x]) : (pooled m).Perm (x :: pooled (m.insert k xs)) := by
  rw [pooled_insert]
  refine (pooled_perm m k).trans ?_
  rw [h,List.append_assoc]
  exact List.perm_middle

end Imy.Lib.Pools
