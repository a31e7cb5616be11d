import Mathlib.Logic.Function.Basic
set_option autoImplicit false

/-!
Mutexes that are kept in a table, one for each key. A thread looks its mutex up, locks
it, works, and unlocks it; the table may meanwhile lose the entry and get another one.
-/

namespace Imy.Lib

/-- Mutexes are numbered; `locked` has their states. A thread has a mutex pending from the
time it has it until its work is done, and holds it from the lock to the unlock. -/
structure LockTable (ι κ : Type) where
  entry : κ → Option Nat
  locked : List Bool
  pending : ι → Option (κ × Nat)
  holds : ι → Option Nat

namespace LockTable

variable {ι κ : Type}

def Works (t : LockTable ι κ) (i : ι) (c : κ) : Prop :=
  ∃ l, t.pending i = some (c,l) ∧ t.holds i = some l

def Unused (t : LockTable ι κ) (c : κ) : Prop := ∀ i l, t.pending i ≠ some (c,l)

structure Sound (t : LockTable ι κ) : Prop where
  one : ∀ i j c l l', t.pending i = some (c,l) → t.pending j = some (c,l') → l = l'
  current : ∀ i c l l', t.pending i = some (c,l) → t.entry c = some l' → l = l'
  held : ∀ i l, t.holds i = some l → t.locked[l]? = some true
  alone : ∀ i j l, t.holds i = some l → t.holds j = some l → i = j

variable {t t' : LockTable ι κ} {i : ι} {c : κ} {l : Nat}

theorem Sound.works_unique (hs : t.Sound) {j : ι} (hi : t.Works i c) (hj : t.Works j c) :
    i = j := by
  obtain ⟨l,hpi,hhi⟩ := hi
  obtain ⟨l',hpj,hhj⟩ := hj
  obtain rfl := hs.one i j c l l' hpi hpj
  exact hs.alone i j l hhi hhj

theorem Sound.drop (hs : t.Sound) (hentry : ∀ c l, t'.entry c = some l → t.entry c = some l)
    (hlocked : t'.locked = t.locked) (hpending : ∀ i p, t'.pending i = some p →
      t.pending i = some p)
    (hholds : t'.holds = t.holds) : t'.Sound where
  one i j c l l' hi hj := hs.one i j c l l' (hpending i _ hi) (hpending j _ hj)
  current i c l l' hi hc := hs.current i c l l' (hpending i _ hi) (hentry c l' hc)
  held i l hi := by
    rw [hlocked]
    exact hs.held i l (hholds ▸ hi)
  alone i j l hi hj := hs.alone i j l (hholds ▸ hi) (hholds ▸ hj)

theorem Sound.make [DecidableEq κ] (hs : t.Sound) (hunused : t.Unused c) :
    Sound { t with
      entry := Function.update t.entry c (some t.locked.length)
      locked := t.locked ++ [false] } := by
  refine ⟨hs.one,fun i d k k' hi hd => ?_,fun i k hi => ?_,hs.alone⟩
  · by_cases hdc : d = c
    · subst hdc
      exact (hunused i k hi).elim
    · dsimp only at hd
      rw [Function.update_of_ne hdc] at hd
      exact hs.current i d k k' hi hd
  · have hheld := hs.held i k hi
    rw [List.getElem?_append_left (List.getElem?_eq_some_iff.mp hheld).1]
    exact hheld

variable [DecidableEq ι]

theorem Sound.find (hs : t.Sound) (hentry : t.entry c = some l) (i : ι) :
    Sound { t with pending := Function.update t.pending i (some (c,l)) } := by
  have hcases : ∀ j d k, Function.update t.pending i (some (c,l)) j = some (d,k) →
      t.pending j = some (d,k) ∨ d = c ∧ k = l := by
    intro j d k hj
    by_cases hji : j = i
    · subst hji
      rw [Function.update_self] at hj
      cases hj
      exact Or.inr ⟨rfl,rfl⟩
    · rw [Function.update_of_ne hji] at hj
      exact Or.inl hj
  refine ⟨fun j j' d k k' hj hj' => ?_,fun j d k k' hj hd => ?_,hs.held,hs.alone⟩
  · rcases hcases j d k hj with hold | ⟨rfl,rfl⟩
    · rcases hcases j' d k' hj' with hold' | ⟨rfl,rfl⟩
      · exact hs.one j j' d k k' hold hold'
      · exact hs.current j d k k' hold hentry
    · rcases hcases j' d k' hj' with hold' | ⟨-,rfl⟩
      · exact (hs.current j' d k' k hold' hentry).symm
      · rfl
  · rcases hcases j d k hj with hold | ⟨rfl,rfl⟩
    · exact hs.current j d k k' hold hd
    · exact Option.some.inj (hentry.symm.trans hd)

theorem Sound.lock (hs : t.Sound) (hfree : t.locked[l]? = some false) (i : ι) :
    Sound { t with
      locked := t.locked.set l true, holds := Function.update t.holds i (some l) } := by
  have hnobody : ∀ j, t.holds j ≠ some l := fun j hj => by
    rw [hs.held j l hj] at hfree
    cases hfree
  have hcases : ∀ j k, Function.update t.holds i (some l) j = some k →
      j = i ∧ k = l ∨ t.holds j = some k := by
    intro j k hj
    by_cases hji : j = i
    · subst hji
      rw [Function.update_self] at hj
      cases hj
      exact Or.inl ⟨rfl,rfl⟩
    · rw [Function.update_of_ne hji] at hj
      exact Or.inr hj
  refine ⟨hs.one,hs.current,fun j k hj => ?_,fun j j' k hj hj' => ?_⟩
  · rcases hcases j k hj with ⟨-,rfl⟩ | hold
    · exact List.getElem?_set_self (List.getElem?_eq_some_iff.mp hfree).1
    · rw [List.getElem?_set_ne]
      · exact hs.held j k hold
      · rintro rfl
        exact hnobody j hold
  · rcases hcases j k hj with ⟨rfl,rfl⟩ | hold
    · rcases hcases j' k hj' with ⟨rfl,-⟩ | hold'
      · rfl
      · exact (hnobody j' hold').elim
    · rcases hcases j' k hj' with ⟨rfl,rfl⟩ | hold'
      · exact (hnobody j hold).elim
      · exact hs.alone j j' k hold hold'

theorem Sound.unlock (hs : t.Sound) (hholds : t.holds i = some l) :
    Sound { t with locked := t.locked.set l false, holds := Function.update t.holds i none } := by
  have hcases : ∀ j k, Function.update t.holds i none j = some k → t.holds j = some k ∧ j ≠ i := by
    intro j k hj
    by_cases hji : j = i
    · subst hji
      rw [Function.update_self] at hj
      cases hj
    · rw [Function.update_of_ne hji] at hj
      exact ⟨hj,hji⟩
  refine ⟨hs.one,hs.current,fun j k hj => ?_,fun j j' k hj hj' => ?_⟩
  · obtain ⟨hj,hji⟩ := hcases j k hj
    rw [List.getElem?_set_ne]
    · exact hs.held j k hj
    · rintro rfl
      exact hji (hs.alone j i l hj hholds)
  · exact hs.alone j j' k (hcases j k hj).1 (hcases j' k hj').1

end LockTable

end Imy.Lib
