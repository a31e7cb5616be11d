import Mathlib.Data.Set.Card
import Mathlib.Logic.Function.Basic
set_option autoImplicit false

/-!
The number of a crowd, kept beside it by those who change it. Whoever brings people in
looks at the crowd first and writes down the sum later; whoever leaves takes one off
the number that it has read. The number is right in the end when nobody writes down
what others have changed meanwhile.
-/

namespace Imy.Lib

section Update
variable {ι α : Type} [DecidableEq ι] {P : α → Prop} {f : ι → α} {i : ι} {x : α}

theorem setOf_update_of_pos (h : P x) :
    {j | P (Function.update f i x j)} = insert i {j | P (f j)} := by
  ext j
  by_cases hj : j = i
  · subst hj
    simp [h]
  · simp [hj]

theorem setOf_update_of_neg (h : ¬ P x) :
    {j | P (Function.update f i x j)} = {j | P (f j)} \ {i} := by
  ext j
  by_cases hj : j = i
  · subst hj
    simp [h]
  · simp [hj]

theorem setOf_update_same (h : P x ↔ P (f i)) :
    {j | P (Function.update f i x j)} = {j | P (f j)} := by
  ext j
  by_cases hj : j = i
  · subst hj
    simp [h]
  · simp [hj]

theorem update_comp_same {β : Type} {g : α → β} (h : g x = g (f i)) :
    g ∘ Function.update f i x = g ∘ f := by
  rw [Function.comp_update,h]
  exact Function.update_eq_self i (g ∘ f)

end Update

structure Tally (ι : Type) where
  crowd : Nat
  /-- how many ever were in the crowd -/
  ever : Nat
  count : Nat
  /-- who has left -/
  left : Set ι
  /-- who has left and not taken one off the number -/
  owing : Set ι
  /-- who has brought people in and not written down the number -/
  adding : Set ι
  /-- what a bringer takes the crowd for -/
  expects : ι → Option Nat
  /-- who has left since a bringer looked -/
  gone : ι → Set ι
  /-- whether another has brought people in since a bringer looked -/
  missed : ι → Prop
  /-- the number that a leaver has read -/
  holds : ι → Option Nat
  /-- whether the number was written since a leaver read it -/
  stale : ι → Prop

namespace Tally
variable {ι : Type} [DecidableEq ι] (t : Tally ι) (i : ι)

def look (seen : Option Nat) : Tally ι :=
  { t with
    expects := Function.update t.expects i seen
    gone := Function.update t.gone i ∅
    missed := Function.update t.missed i False }

def enter (k : Nat) : Tally ι :=
  { t with
    crowd := t.crowd+k
    ever := t.ever+k
    adding := insert i t.adding
    expects := Function.update t.expects i ((t.expects i).map (·+k))
    missed := fun j => j ≠ i ∨ t.missed j }

def write (n : Nat) : Tally ι :=
  { t with
    count := n
    adding := t.adding \ {i}
    expects := Function.update t.expects i none
    stale := fun _ => True }

def leave : Tally ι :=
  { t with
    crowd := t.crowd-1
    left := insert i t.left
    owing := insert i t.owing
    gone := fun j => insert i (t.gone j) }

def read : Tally ι :=
  { t with
    holds := Function.update t.holds i (some t.count)
    stale := Function.update t.stale i False }

def skip : Tally ι :=
  { t with
    owing := t.owing \ {i}
    stale := Function.update t.stale i False }

def settle (n : Nat) : Tally ι :=
  { t with
    count := n
    owing := t.owing \ {i}
    holds := Function.update t.holds i none
    stale := fun _ => True }

/-- Where nobody is about to write down a number, it is the crowd and those who owe. -/
structure Fair : Prop where
  gone : ∀ j, t.gone j ⊆ t.left
  owing : t.owing ⊆ t.left
  ever : t.crowd+t.left.ncard ≤ t.ever
  expects : ∀ j n, t.expects j = some n → ¬ t.missed j → t.crowd+(t.gone j).ncard = n
  holds : ∀ j n, t.holds j = some n → ¬ t.stale j → n = t.count
  right : t.adding = ∅ → t.count = t.crowd+t.owing.ncard

variable {t i}

theorem Fair.look (h : t.Fair) {seen : Option Nat} (hseen : ∀ n, seen = some n → n = t.crowd) :
    (t.look i seen).Fair where
  gone := by
    intro j
    by_cases hj : j = i
    · subst hj
      simp [Tally.look]
    · simpa [Tally.look,hj] using h.gone j
  owing := h.owing
  ever := h.ever
  expects := by
    intro j n
    by_cases hj : j = i
    · subst hj
      simp only [Tally.look,Function.update_self]
      intro hn _
      simpa using (hseen n hn).symm
    · simpa [Tally.look,hj] using h.expects j n
  holds := h.holds
  right := h.right

theorem Fair.enter (h : t.Fair) (k : Nat) : (t.enter i k).Fair where
  gone := h.gone
  owing := h.owing
  ever := by
    have hever := h.ever
    simp only [Tally.enter]
    omega
  expects := by
    intro j n
    by_cases hj : j = i
    · subst hj
      simp only [Tally.enter,Function.update_self]
      intro hn hmissed
      obtain ⟨m,hm,rfl⟩ := Option.map_eq_some_iff.mp hn
      have hcrowd := h.expects j m hm fun hj => hmissed (Or.inr hj)
      omega
    · intro _ hmissed
      exact (hmissed (Or.inl hj)).elim
  holds := h.holds
  right := fun hnone => ((Set.insert_nonempty i t.adding).ne_empty hnone).elim

/-- A number that is written is right when nobody else brought people in since the look,
and those who left since then are those who owe. -/
theorem Fair.write (h : t.Fair) {n : Nat} (hi : t.expects i = some n) (hmissed : ¬ t.missed i)
    (hgone : t.gone i = t.owing) : (t.write i n).Fair where
  gone := h.gone
  owing := h.owing
  ever := h.ever
  expects := by
    intro j m
    by_cases hj : j = i
    · subst hj
      simp [Tally.write]
    · simpa [Tally.write,hj] using h.expects j m
  holds := fun _ _ _ hstale => (hstale trivial).elim
  right := fun _ => by
    change n = t.crowd+t.owing.ncard
    rw [← hgone]
    exact (h.expects i n hi hmissed).symm

theorem Fair.read (h : t.Fair) : (t.read i).Fair where
  gone := h.gone
  owing := h.owing
  ever := h.ever
  expects := h.expects
  holds := by
    intro j n
    by_cases hj : j = i
    · subst hj
      simp only [Tally.read,Function.update_self]
      intro hn _
      exact (Option.some.inj hn).symm
    · simpa [Tally.read,hj] using h.holds j n
  right := h.right

section Finite
variable [Finite ι]

omit [DecidableEq ι] in
theorem Fair.leave (h : t.Fair) (hi : i ∉ t.left) (hcrowd : 0 < t.crowd) : t.leave i |>.Fair where
  gone := fun j => Set.insert_subset_insert (h.gone j)
  owing := Set.insert_subset_insert h.owing
  ever := by
    have hever := h.ever
    simp only [Tally.leave,Set.ncard_insert_of_notMem hi]
    omega
  expects := by
    intro j n hn hmissed
    have hexpects := h.expects j n hn hmissed
    simp only [Tally.leave,Set.ncard_insert_of_notMem fun hin => hi (h.gone j hin)]
    omega
  holds := h.holds
  right := fun hnone => by
    have hright := h.right hnone
    simp only [Tally.leave,Set.ncard_insert_of_notMem fun hin => hi (h.owing hin)]
    omega

theorem Fair.skip (h : t.Fair) (hi : i ∈ t.owing) (hholds : t.holds i = none)
    (hzero : t.count = 0) :
    (t.skip i).Fair where
  gone := h.gone
  owing := Set.sdiff_subset.trans h.owing
  ever := h.ever
  expects := h.expects
  holds := by
    intro j n
    by_cases hj : j = i
    · subst hj
      simp [Tally.skip,hholds]
    · simpa [Tally.skip,hj] using h.holds j n
  right := fun hnone => by
    have hright := h.right hnone
    have hpos : 0 < t.owing.ncard := (Set.ncard_pos).mpr ⟨i,hi⟩
    omega

theorem Fair.settle (h : t.Fair) {n : Nat} (hi : i ∈ t.owing) (hholds : t.holds i = some (n+1))
    (hstale : ¬ t.stale i) : (t.settle i n).Fair where
  gone := h.gone
  owing := Set.sdiff_subset.trans h.owing
  ever := h.ever
  expects := h.expects
  holds := fun _ _ _ hstale => (hstale trivial).elim
  right := fun hnone => by
    have hright := h.right hnone
    have hcount := h.holds i _ hholds hstale
    have hless := Set.ncard_sdiff_singleton_add_one hi
    simp only [Tally.settle]
    omega

end Finite

omit [DecidableEq ι] in
theorem Fair.count_eq (h : t.Fair) (hadding : t.adding = ∅) (howing : t.owing = ∅) :
    t.count = t.crowd := by
  rw [h.right hadding,howing,Set.ncard_empty,Nat.add_zero]

end Tally

end Imy.Lib
