import Mathlib.Data.List.Perm.Subperm
import Mathlib.Data.List.Nodup
set_option autoImplicit false

namespace Imy.Lib

variable {α : Type} [DecidableEq α] {xs : List α} {picks window : List (Option α)}

/-- Whatever call one starts to count at, after `k` rounds every member was picked
`k` times. -/
def Fair (xs : List α) (picks : List (Option α)) : Prop :=
  ∀ start k, start+xs.length*k ≤ picks.length → ∀ x ∈ xs,
    ((picks.drop start).take (xs.length*k)).count (some x) = k

/-- One round picks every member once if no pick of it fails and none is repeated. -/
theorem count_round_iff (hxs : xs.Nodup) (hlen : window.length = xs.length)
    (hmem : ∀ x, some x ∈ window → x ∈ xs) :
    (∀ x ∈ xs, window.count (some x) = 1) ↔ none ∉ window ∧ window.Nodup := by
  have hsome : (xs.map some).Nodup := hxs.map fun _ _ h => Option.some.inj h
  constructor
  · intro hcount
    have hsub : xs.map some ⊆ window := by
      intro y hy
      obtain ⟨x,hx,rfl⟩ := List.mem_map.mp hy
      exact List.count_pos_iff.mp (by rw [hcount x hx]; exact Nat.one_pos)
    have hperm : (xs.map some).Perm window :=
      (List.subperm_of_subset hsome hsub).perm_of_length_le (by simp [hlen])
    exact ⟨fun h => by simpa using hperm.mem_iff.mpr h,hperm.nodup_iff.mp hsome⟩
  · rintro ⟨hnone,hnodup⟩
    have hsub : window ⊆ xs.map some := by
      rintro (_ | x) hy
      · exact (hnone hy).elim
      · exact List.mem_map_of_mem (hmem x hy)
    have hperm : window.Perm (xs.map some) :=
      (List.subperm_of_subset hnodup hsub).perm_of_length_le (by simp [hlen])
    intro x hx
    rw [hperm.count_eq]
    exact List.count_eq_one_of_mem hsome (List.mem_map_of_mem hx)

theorem fair_iff_rounds : Fair xs picks ↔ ∀ start, start+xs.length ≤ picks.length → ∀ x ∈ xs,
    ((picks.drop start).take xs.length).count (some x) = 1 := by
  constructor
  · intro hfair start hle x hx
    simpa using hfair start 1 (by simpa using hle) x hx
  · intro hround start k
    induction k generalizing start with
    | zero => simp
    | succ k ih =>
      intro hle x hx
      rw [Nat.mul_succ] at hle
      have hrest := ih (start+xs.length) (by omega) x hx
      rw [Nat.mul_succ,Nat.add_comm,List.take_add,List.count_append,List.drop_drop,
        hround start (by omega) x hx,hrest,Nat.add_comm]

theorem getElem?_round {β : Type} {ys : List β} {start n j : Nat} (hj : j < n) :
    ((ys.drop start).take n)[j]? = ys[start+j]? := by
  rw [List.getElem?_take_of_lt hj,List.getElem?_drop]

theorem fair_iff (hxs : xs.Nodup) (hpos : 0 < xs.length) (hmem : ∀ x, some x ∈ picks → x ∈ xs)
    (hlen : xs.length ≤ picks.length) :
    Fair xs picks ↔ none ∉ picks ∧ ∀ a b, a < b → b < a+xs.length → b < picks.length →
      picks[a]? ≠ picks[b]? := by
  have hwindow (start : Nat) (hle : start+xs.length ≤ picks.length) :
      ((picks.drop start).take xs.length).length = xs.length := by
    simp
    omega
  have hround (start : Nat) (hle : start+xs.length ≤ picks.length) :=
    count_round_iff hxs (hwindow start hle)
      (fun x hx => hmem x (List.mem_of_mem_drop (List.mem_of_mem_take hx)))
  rw [fair_iff_rounds]
  constructor
  · intro hfair
    have hone (start : Nat) (hle : start+xs.length ≤ picks.length) :=
      (hround start hle).mp (hfair start hle)
    -- two picks that close, and any single one, lie in one round
    refine ⟨?_,?_⟩
    · intro hnone
      obtain ⟨a,ha,hget⟩ := List.getElem_of_mem hnone
      let start := min a (picks.length-xs.length)
      refine (hone start (by omega)).1 (List.mem_iff_getElem?.mpr ⟨a-start,?_⟩)
      rw [getElem?_round (by omega),Nat.add_sub_cancel' (by omega),List.getElem?_eq_getElem ha,hget]
    · intro a b hab hclose hb
      let start := min a (picks.length-xs.length)
      have hdiff := List.nodup_iff_getElem?_ne_getElem?.mp (hone start (by omega)).2
        (a-start) (b-start) (by omega) (by simp; omega)
      rwa [getElem?_round (by omega),getElem?_round (by omega),Nat.add_sub_cancel' (by omega),
        Nat.add_sub_cancel' (by omega)] at hdiff
  · rintro ⟨hnone,hapart⟩ start hle
    refine (hround start hle).mpr ⟨fun h =>
      hnone (List.mem_of_mem_drop (List.mem_of_mem_take h)),?_⟩
    refine List.nodup_iff_getElem?_ne_getElem?.mpr ?_
    intro i j hij hj
    simp only [List.length_take,List.length_drop] at hj
    rw [getElem?_round (by omega),getElem?_round (by omega)]
    exact hapart _ _ (by omega) (by omega) (by omega)

end Imy.Lib
