import Mathlib.Data.List.Infix
import Mathlib.Data.List.Nodup
import Mathlib.Algebra.Order.Group.Nat
import Mathlib.Tactic.Ring
set_option autoImplicit false

namespace Imy.Lib

variable {α β : Type}

theorem modify_concat (l : List α) (a : α) (f : α → α) :
    (l ++ [a]).modify l.length f = l ++ [f a] := by
  induction l with
  | nil => rfl
  | cons b l ih => simp [ih]

theorem map_modify_of_eq (l : List α) (i : Nat) (f : α → α) (g : α → β)
    (h : ∀ a, g (f a) = g a) : (l.modify i f).map g = l.map g := by
  induction l generalizing i with
  | nil => simp
  | cons b l ih => cases i <;> simp [h,ih]

theorem getElem?_concat_some {xs : List α} {x y : α} {i : Nat}
    (h : (xs ++ [x])[i]? = some y) : xs[i]? = some y ∨ (i = xs.length ∧ y = x) := by
  rcases Nat.lt_trichotomy i xs.length with hlt | rfl | hgt
  · rw [List.getElem?_append_left hlt] at h
    exact Or.inl h
  · rw [List.getElem?_concat_length] at h
    exact Or.inr ⟨rfl,(Option.some.inj h).symm⟩
  · rw [List.getElem?_eq_none (by simp; omega)] at h
    cases h

theorem getElem?_set_some {xs : List α} {y z : α} {i j : Nat}
    (h : (xs.set i y)[j]? = some z) : (j = i ∧ z = y) ∨ (j ≠ i ∧ xs[j]? = some z) := by
  rw [List.getElem?_set] at h
  split at h
  · rename_i hij
    split at h
    · exact Or.inl ⟨hij.symm,(Option.some.inj h).symm⟩
    · cases h
  · rename_i hij
    exact Or.inr ⟨Ne.symm hij,h⟩

/-- The longest prefix that can be cut into chunks of `k` elements. -/
def fullPrefix (k : Nat) (xs : List α) : List α := xs.take (xs.length / k * k)

theorem fullPrefix_initial (k : Nat) (xs : List α) : fullPrefix k xs <+: xs := List.take_prefix _ _

theorem fullPrefix_length (k : Nat) (xs : List α) :
    (fullPrefix k xs).length = xs.length / k * k := by
  simp only [fullPrefix,List.length_take]
  exact Nat.min_eq_left (Nat.div_mul_le_self xs.length k)

theorem dvd_fullPrefix_length (k : Nat) (xs : List α) : k ∣ (fullPrefix k xs).length := by
  rw [fullPrefix_length]
  exact Nat.dvd_mul_left k _

theorem fullPrefix_eq_self_iff {k : Nat} (xs : List α) : fullPrefix k xs = xs ↔ k ∣ xs.length := by
  constructor
  · intro h
    rw [← h]
    exact dvd_fullPrefix_length k xs
  · intro h
    unfold fullPrefix
    rw [Nat.div_mul_cancel h,List.take_length]

theorem dvd_length_flatten {k : Nat} {chunks : List (List α)} (h : ∀ c ∈ chunks, c.length = k) :
    k ∣ chunks.flatten.length := by
  induction chunks with
  | nil => simp
  | cons c chunks ih =>
    have hc := h c (by simp)
    have ht := ih (fun d hd => h d (by simp [hd]))
    simp only [List.flatten_cons,List.length_append,hc]
    exact (Nat.dvd_add_right (Nat.dvd_refl k)).mpr ht

theorem fullPrefix_chunks {k : Nat} {chunks : List (List α)} {rest : List α}
    (h : ∀ c ∈ chunks, c.length = k) (hr : rest.length < k) :
    fullPrefix k (chunks.flatten ++ rest) = chunks.flatten := by
  obtain ⟨q,hq⟩ := dvd_length_flatten h
  have hdiv : (chunks.flatten ++ rest).length / k = q := by
    rw [List.length_append,hq,Nat.mul_add_div (by omega),Nat.div_eq_of_lt hr,Nat.add_zero]
  unfold fullPrefix
  rw [hdiv,Nat.mul_comm,← hq,List.take_left]

@[simp] theorem fullPrefix_nil (k : Nat) : fullPrefix k ([] : List α) = [] := by simp [fullPrefix]

/-- A table after some time: every row is still there, at its place and related to
what it was, and there may be new ones behind. -/
def Grown (R : α → α → Prop) (xs ys : List α) : Prop :=
  ∃ f rest, ys = xs.map f ++ rest ∧ ∀ x, R x (f x)

section Grown
variable {R : α → α → Prop} {xs ys zs : List α}

theorem Grown.append (hrefl : ∀ x, R x x) (xs rest : List α) : Grown R xs (xs ++ rest) :=
  ⟨id,rest,by rw [List.map_id],hrefl⟩

theorem Grown.refl (hrefl : ∀ x, R x x) (xs : List α) : Grown R xs xs :=
  ⟨id,[],by simp,hrefl⟩

theorem Grown.map (f : α → α) (hf : ∀ x, R x (f x)) : Grown R xs (xs.map f) :=
  ⟨f,[],by simp,hf⟩

theorem Grown.trans (htrans : ∀ x y z, R x y → R y z → R x z) (h : Grown R xs ys)
    (h' : Grown R ys zs) : Grown R xs zs := by
  obtain ⟨f,rest,rfl,hf⟩ := h
  obtain ⟨g,rest',rfl,hg⟩ := h'
  refine ⟨g ∘ f,rest.map g ++ rest',by simp,fun x => ?_⟩
  exact htrans x (f x) (g (f x)) (hf x) (hg (f x))

theorem Grown.mem (h : Grown R xs ys) {x : α} (hx : x ∈ xs) : ∃ y ∈ ys, R x y := by
  obtain ⟨f,rest,rfl,hf⟩ := h
  exact ⟨f x,List.mem_append_left _ (List.mem_map_of_mem hx),hf x⟩

theorem Grown.length_le (h : Grown R xs ys) : xs.length ≤ ys.length := by
  obtain ⟨f,rest,rfl,-⟩ := h
  simp

end Grown

theorem eq_of_distinct {α κ : Type} {key : α → κ} {xs : List α} {x y : α}
    (h : xs.Pairwise fun x y => key x ≠ key y) (hx : x ∈ xs) (hy : y ∈ xs)
    (hkey : key x = key y) : x = y :=
  List.inj_on_of_nodup_map (List.pairwise_map.mpr h) hx hy hkey

theorem eq_of_increasing {α : Type} {key : α → Nat} {xs : List α} {x y : α}
    (h : xs.Pairwise fun x y => key x < key y) (hx : x ∈ xs) (hy : y ∈ xs)
    (hkey : key x = key y) : x = y :=
  eq_of_distinct (h.imp fun hlt => hlt.ne) hx hy hkey

theorem eraseP_eq_erase {α : Type} [DecidableEq α] {xs : List α} {p : α → Bool} {x : α}
    (h : xs.find? p = some x) : xs.eraseP p = xs.erase x := by
  obtain ⟨hp,before,after,rfl,hbefore⟩ := List.find?_eq_some_iff_append.mp h
  have hnone : ∀ y ∈ before, ¬ p y = true := fun y hy => by simpa using hbefore y hy
  have hx : x ∉ before := fun hin => hnone x hin hp
  rw [List.eraseP_append_right _ hnone,List.erase_append_right _ hx,List.eraseP_cons_of_pos hp,
    List.erase_cons_head]

theorem find?_filter_of {α : Type} {xs : List α} {p q : α → Bool} {x : α} (h : xs.find? p = some x)
    (hq : q x = true) : (xs.filter q).find? p = some x := by
  obtain ⟨hp,before,after,rfl,hbefore⟩ := List.find?_eq_some_iff_append.mp h
  refine List.find?_eq_some_iff_append.mpr ⟨hp,before.filter q,after.filter q,?_,?_⟩
  · rw [List.filter_append,List.filter_cons_of_pos hq]
  · exact fun y hy => hbefore y (List.mem_of_mem_filter hy)

theorem beginnings_of {α : Type} {P : List α → Prop} {C : List α → α → Prop} {xs : List α}
    (start : P []) (step : ∀ before x after, xs = before ++ x :: after → P before → C before x →
      P (before ++ [x]))
    (h : ∀ before x after, xs = before ++ x :: after → C before x) :
    ∀ before after, xs = before ++ after → P before := by
  intro before
  induction before using List.reverseRecOn with
  | nil => exact fun _ _ => start
  | append_singleton before x ih =>
    intro after hsplit
    rw [List.append_assoc] at hsplit
    exact step before x after hsplit (ih _ hsplit) (h before x after hsplit)

/-- Where each further element keeps a property of the beginnings exactly if it meets a
condition, all beginnings have the property exactly if all elements meet the condition. -/
theorem beginnings_iff {α : Type} {P : List α → Prop} {C : List α → α → Prop} {xs : List α}
    (start : P []) (step : ∀ before x after, xs = before ++ x :: after → P before →
      (P (before ++ [x]) ↔ C before x)) :
    (∀ before after, xs = before ++ after → P before) ↔
      ∀ before x after, xs = before ++ x :: after → C before x := by
  constructor
  · intro h before x after hsplit
    refine (step before x after hsplit (h before _ hsplit)).mp (h _ after ?_)
    rw [hsplit,List.append_assoc]
    rfl
  · exact beginnings_of start fun before x after hsplit hP => (step before x after hsplit hP).mpr

theorem splits_cons {α : Type} {x : α} {xs : List α} {P : List α → α → Prop} :
    (∀ before y after, x :: xs = before ++ y :: after → P before y) ↔
      P [] x ∧ ∀ before y after, xs = before ++ y :: after → P (x :: before) y := by
  constructor
  · intro h
    exact ⟨h [] x xs rfl,fun before y after hsplit => h (x :: before) y after (by rw [hsplit]; rfl)⟩
  · rintro ⟨hhead,htail⟩ before y after hsplit
    cases before with
    | nil =>
      obtain ⟨rfl,-⟩ := List.cons.inj hsplit
      exact hhead
    | cons z before =>
      obtain ⟨rfl,hrest⟩ := List.cons.inj hsplit
      exact htail before y after hrest

theorem beginnings_cons {α : Type} {x y : α} {xs : List α} {P : List α → Prop} :
    (∀ before after, x :: xs = before ++ y :: after → P before) ↔
      (x = y → P []) ∧ ∀ before after, xs = before ++ y :: after → P (x :: before) := by
  have hfixed : ∀ (ys : List α) (Q : List α → Prop),
      (∀ before after, ys = before ++ y :: after → Q before) ↔
        ∀ before z after, ys = before ++ z :: after → z = y → Q before := by
    intro ys Q
    constructor
    · rintro h before z after hsplit rfl
      exact h before after hsplit
    · exact fun h before after hsplit => h before y after hsplit rfl
  rw [hfixed,hfixed,splits_cons]

theorem take_eq_take_iff {α : Type} {xs ys : List α} (h : xs <+: ys) (n : Nat) :
    xs.take n = ys.take n ↔ n ≤ xs.length ∨ ys.length = xs.length := by
  obtain ⟨zs,rfl⟩ := h
  rw [List.take_append,List.self_eq_append_right,List.take_eq_nil_iff,List.length_append,
    Nat.sub_eq_zero_iff_le,
    Nat.add_eq_left,List.length_eq_zero_iff]

end Imy.Lib
