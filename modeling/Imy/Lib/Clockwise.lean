import Mathlib.Data.List.Rotate
import Mathlib.Data.Set.Basic
import Mathlib.Order.Fin.Basic
set_option autoImplicit false

/-!
Points on a circle. The first point from a place on is found by binary search
in a sorted list of the points; which one it is depends on the set alone.
-/

namespace Imy.Lib

def searchLoop (f : Nat → Bool) : Nat → Nat → Nat → Nat
  | 0, i, _ => i
  | fuel+1, i, j =>
    if i < j then
      if f ((i+j)/2) then searchLoop f fuel i ((i+j)/2) else searchLoop f fuel ((i+j)/2+1) j
    else i

def search (n : Nat) (f : Nat → Bool) : Nat := searchLoop f n 0 n

/-- Everything below `r` fails the test and everything from `r` to `n` passes it. -/
def Splits (f : Nat → Bool) (n r : Nat) : Prop :=
  r ≤ n ∧ (∀ k < r, f k = false) ∧ ∀ k, r ≤ k → k < n → f k = true

-- a round takes at least one place away, so `j-i` rounds are enough
theorem searchLoop_splits {f : Nat → Bool} {n : Nat}
    (hmono : ∀ a b, a ≤ b → b < n → f a = true → f b = true) (fuel i j : Nat) (hij : i ≤ j)
    (hjn : j ≤ n) (hfuel : j-i ≤ fuel) (hlow : ∀ k < i, f k = false)
    (hhigh : ∀ k, j ≤ k → k < n → f k = true) : Splits f n (searchLoop f fuel i j) := by
  induction fuel generalizing i j with
  | zero =>
    have hji : j = i := by omega
    subst hji
    exact ⟨hjn,hlow,hhigh⟩
  | succ fuel ih =>
    unfold searchLoop
    split
    · rename_i hlt
      split
      · rename_i hf
        refine ih i ((i+j)/2) (by omega) (by omega) (by omega) hlow ?_
        intro k hk hkn
        exact hmono ((i+j)/2) k hk hkn hf
      · rename_i hf
        refine ih ((i+j)/2+1) j (by omega) hjn (by omega) ?_ hhigh
        intro k hk
        cases hfk : f k with
        | false => rfl
        | true => exact (hf (hmono k ((i+j)/2) (by omega) (by omega) hfk)).elim
    · have hji : j = i := by omega
      subst hji
      exact ⟨hjn,hlow,hhigh⟩

theorem search_splits {f : Nat → Bool} {n : Nat}
    (hmono : ∀ a b, a ≤ b → b < n → f a = true → f b = true) : Splits f n (search n f) :=
  searchLoop_splits hmono n 0 n (by omega) (by omega) (by omega) (by simp)
    (fun k hk hkn => by omega)

section Circle
variable {α : Type} [LinearOrder α]

/-- `y` is the first point from `x` on or, if all points are before `x`, the
first one of all. -/
structure Clockwise (s : Set α) (x y : α) : Prop where
  mem : y ∈ s
  next : x ≤ y → ∀ z ∈ s, x ≤ z → y ≤ z
  wrap : y < x → ∀ z ∈ s, z < x ∧ y ≤ z

theorem Clockwise.unique {s : Set α} {x y y' : α} (h : Clockwise s x y) (h' : Clockwise s x y') :
    y = y' := by
  rcases le_or_gt x y with hy | hy <;> rcases le_or_gt x y' with hy' | hy'
  · exact le_antisymm (h.next hy y' h'.mem hy') (h'.next hy' y h.mem hy)
  · exact absurd (h'.wrap hy' y h.mem).1 (not_lt.mpr hy)
  · exact absurd (h.wrap hy y' h'.mem).1 (not_lt.mpr hy')
  · exact le_antisymm (h.wrap hy y' h'.mem).2 (h'.wrap hy' y h.mem).2

/-- Points that go take their own keys with them and no others. -/
theorem Clockwise.subset {s t : Set α} (hst : s ⊆ t) {x y : α} (h : Clockwise t x y)
    (hy : y ∈ s) : Clockwise s x y :=
  ⟨hy,fun hxy z hz => h.next hxy z (hst hz),fun hyx z hz => h.wrap hyx z (hst hz)⟩

/-- The place of the first point from `x` on, or 0 past the last one. -/
def clockwisePlace (xs : List α) (x : α) : Nat :=
  let idx := search xs.length fun i => (xs[i]?).any fun y => decide (x ≤ y)
  if idx = xs.length then 0 else idx

theorem getElem_le_of_sorted {xs : List α} (hs : xs.Pairwise (· ≤ ·)) {a b : Nat}
    (ha : a < xs.length) (hb : b < xs.length) (hab : a ≤ b) : xs[a] ≤ xs[b] := by
  rcases Nat.eq_or_lt_of_le hab with rfl | hlt
  · exact le_refl _
  · exact List.pairwise_iff_getElem.mp hs a b ha hb hlt

/-- The points before the place are before `x` and the others are not, unless all
of them are before `x`. -/
theorem clockwisePlace_splits {xs : List α} (hs : xs.Pairwise (· ≤ ·)) (hne : xs ≠ []) (x : α) :
    clockwisePlace xs x < xs.length ∧
      (clockwisePlace xs x = 0 ∧ (∀ k (hk : k < xs.length), xs[k] < x) ∨
        (∀ k (hk : k < xs.length), k < clockwisePlace xs x → xs[k] < x) ∧
          ∀ k (hk : k < xs.length), clockwisePlace xs x ≤ k → x ≤ xs[k]) := by
  have hpos : 0 < xs.length := List.length_pos_iff.mpr hne
  have hsplit := search_splits (n := xs.length) (f := fun i => (xs[i]?).any fun y => decide (x ≤ y))
    (by
      intro a b hab hb hfa
      have ha : a < xs.length := by omega
      simp only [List.getElem?_eq_getElem ha,List.getElem?_eq_getElem hb,Option.any_some,
        decide_eq_true_eq] at hfa ⊢
      exact le_trans hfa (getElem_le_of_sorted hs ha hb hab))
  obtain ⟨hn,hlow,hhigh⟩ := hsplit
  simp only [clockwisePlace]
  generalize search xs.length (fun i => (xs[i]?).any fun y => decide (x ≤ y)) = r at *
  have hbelow : ∀ k (hk : k < xs.length), k < r → xs[k] < x := by
    intro k hk hkr
    have := hlow k hkr
    simpa [List.getElem?_eq_getElem hk] using this
  have hfrom : ∀ k (hk : k < xs.length), r ≤ k → x ≤ xs[k] := by
    intro k hk hrk
    have := hhigh k hrk hk
    simpa [List.getElem?_eq_getElem hk] using this
  split
  · rename_i hr
    exact ⟨hpos,Or.inl ⟨rfl,fun k hk => hbelow k hk (by omega)⟩⟩
  · exact ⟨by omega,Or.inr ⟨hbelow,hfrom⟩⟩

theorem clockwise_of_sorted {xs : List α} (hs : xs.Pairwise (· ≤ ·)) (hne : xs ≠ []) (x : α) :
    ∃ y, xs[clockwisePlace xs x]? = some y ∧ Clockwise {z | z ∈ xs} x y := by
  obtain ⟨hlt,hsplit⟩ := clockwisePlace_splits hs hne x
  generalize clockwisePlace xs x = r at *
  refine ⟨xs[r],List.getElem?_eq_getElem hlt,List.getElem_mem hlt,?_,?_⟩
  · intro hx z hz hxz
    obtain ⟨k,hk,rfl⟩ := List.mem_iff_getElem.mp hz
    rcases hsplit with ⟨-,hall⟩ | ⟨hbelow,-⟩
    · exact absurd (hall r hlt) (not_lt.mpr hx)
    · rcases Nat.lt_or_ge k r with hkr | hkr
      · exact absurd (hbelow k hk hkr) (not_lt.mpr hxz)
      · exact getElem_le_of_sorted hs hlt hk hkr
  · intro hlx z hz
    obtain ⟨k,hk,rfl⟩ := List.mem_iff_getElem.mp hz
    rcases hsplit with ⟨hr,hall⟩ | ⟨-,hfrom⟩
    · exact ⟨hall k hk,getElem_le_of_sorted hs hlt hk (by omega)⟩
    · exact absurd hlx (not_lt.mpr (hfrom r hlt (Nat.le_refl r)))

/-- `a` comes before `b` on the way round that starts at `x`. -/
def Sooner (x a b : α) : Prop := (x ≤ a ∧ b < x) ∨ (a < b ∧ (x ≤ a ↔ x ≤ b))

/-- From the place of `x` on and around the end, the points are met one by one. -/
theorem rotate_clockwisePlace {xs : List α} (hs : xs.Pairwise (· < ·)) (x : α) :
    (xs.rotate (clockwisePlace xs x)).Pairwise (Sooner x) := by
  rcases eq_or_ne xs [] with rfl | hne
  · simp
  obtain ⟨hlt,hsplit⟩ := clockwisePlace_splits (hs.imp le_of_lt) hne x
  generalize clockwisePlace xs x = r at *
  rw [List.rotate_eq_drop_append_take hlt.le,List.pairwise_append]
  -- two points on one side of `x` come in their own order
  have hside : ∀ {ys : List α}, ys.Sublist xs → ((∀ y ∈ ys, x ≤ y) ∨ ∀ y ∈ ys, y < x) →
      ys.Pairwise (Sooner x) := by
    intro ys hys hone
    refine (hs.sublist hys).imp_of_mem fun {a b} ha hb hab => Or.inr ⟨hab,?_⟩
    rcases hone with h | h
    · exact iff_of_true (h a ha) (h b hb)
    · exact iff_of_false (not_le.mpr (h a ha)) (not_le.mpr (h b hb))
  rcases hsplit with ⟨rfl,hall⟩ | ⟨hbelow,hfrom⟩
  · have hbefore : ∀ y ∈ xs, y < x := by
      intro y hy
      obtain ⟨k,hk,rfl⟩ := List.mem_iff_getElem.mp hy
      exact hall k hk
    refine ⟨hside (List.drop_sublist 0 xs) (Or.inr ?_),by simp,by simp⟩
    simpa using hbefore
  · have htake : ∀ y ∈ xs.take r, y < x := by
      intro y hy
      obtain ⟨k,hk,rfl⟩ := List.mem_take_iff_getElem.mp hy
      exact hbelow k (by omega) (by omega)
    have hdrop : ∀ y ∈ xs.drop r, x ≤ y := by
      intro y hy
      obtain ⟨k,hk,rfl⟩ := List.mem_drop_iff_getElem.mp hy
      exact hfrom (r+k) (by omega) (by omega)
    exact ⟨hside (List.drop_sublist r xs) (Or.inl hdrop),
      hside (List.take_sublist r xs) (Or.inr htake),
      fun a ha b hb => Or.inl ⟨hdrop a ha,htake b hb⟩⟩

end Circle

/-- On a circle of `n` points that is the order of the distances from `x`. -/
theorem sooner_iff_sub_lt {n : Nat} {x a b : Fin n} : Sooner x a b ↔ a-x < b-x := by
  simp only [Sooner,Fin.lt_def,Fin.le_def,Fin.sub_def]
  have hx := x.isLt
  have ha := a.isLt
  have hb := b.isLt
  have hval : ∀ c : Fin n, (n-x.val+c.val)%n = if x.val ≤ c.val then c.val-x.val
      else n-x.val+c.val := by
    intro c
    have hc := c.isLt
    split
    · rw [show n-x.val+c.val = c.val-x.val+n by omega,Nat.add_mod_right,Nat.mod_eq_of_lt (by omega)]
    · rw [Nat.mod_eq_of_lt (by omega)]
  rw [hval,hval]
  split <;> split <;> omega

end Imy.Lib
