import Mathlib.Data.List.Basic
import Mathlib.Data.List.Infix
set_option autoImplicit false

/-!
Lists kept in the order of use: when a thing was last used, and what is left of a list
whose shortest ending is dropped that makes room.
-/

namespace Imy.Lib.Lru

section Uses
variable {A : Type} [DecidableEq A] {uses : List (Option A)} {x y : A} {xs ys : List A}

def lastUse (uses : List (Option A)) (x : A) : Nat := uses.length-uses.reverse.idxOf (some x)

theorem lastUse_le (uses : List (Option A)) (x : A) : lastUse uses x ≤ uses.length := Nat.sub_le _ _

@[simp] theorem lastUse_concat_self (uses : List (Option A)) (x : A) :
    lastUse (uses ++ [some x]) x = uses.length+1 := by simp [lastUse]

theorem lastUse_concat_of_ne {used : Option A} (h : used ≠ some x) :
    lastUse (uses ++ [used]) x = lastUse uses x := by
  simp [lastUse,List.idxOf_cons_ne _ h]

structure Recent (uses : List (Option A)) (xs : List A) : Prop where
  ordered : xs.Pairwise fun x y => lastUse uses y < lastUse uses x
  used : ∀ x ∈ xs, 0 < lastUse uses x

theorem recent_nil (uses : List (Option A)) : Recent uses [] := ⟨.nil,by simp⟩

theorem Recent.sublist (h : Recent uses xs) (hsub : List.Sublist ys xs) : Recent uses ys :=
  ⟨h.ordered.sublist hsub,fun x hx => h.used x (hsub.subset hx)⟩

theorem Recent.concat {used : Option A} (h : Recent uses xs) (hused : ∀ x ∈ xs, used ≠ some x) :
    Recent (uses ++ [used]) xs := by
  constructor
  · refine List.Pairwise.imp_of_mem (fun hx hy hlt => ?_) h.ordered
    rwa [lastUse_concat_of_ne (hused _ hx),lastUse_concat_of_ne (hused _ hy)]
  · intro x hx
    rw [lastUse_concat_of_ne (hused x hx)]
    exact h.used x hx

theorem Recent.use (h : Recent uses xs) (hx : x ∉ xs) : Recent (uses ++ [some x]) (x :: xs) := by
  have hne : ∀ y ∈ xs, some x ≠ some y := by
    rintro y hy ⟨⟩
    exact hx hy
  have hrest := h.concat hne
  constructor
  · refine List.Pairwise.cons (fun y hy => ?_) hrest.ordered
    rw [lastUse_concat_self,lastUse_concat_of_ne (hne y hy)]
    have hle := lastUse_le uses y
    omega
  · intro y hy
    obtain rfl | hy := List.mem_cons.mp hy
    · simp
    · exact hrest.used y hy

end Uses

section Room
variable {A : Type} {fits : List A → Prop} {xs kept kept' : List A}

/-- `kept` is `xs` less its shortest ending that makes room, or less everything. -/
structure Trimmed (fits : List A → Prop) (xs kept : List A) : Prop where
  initial : kept <+: xs
  shortest : ∀ ys, ys <+: xs → kept.length < ys.length → ¬ fits ys
  room : kept = [] ∨ fits kept

theorem trimmed_of_fits (h : fits xs) : Trimmed fits xs xs where
  initial := List.prefix_refl _
  shortest ys hys hlt := by
    have hle := hys.length_le
    omega
  room := .inr h

theorem trimmed_nil : Trimmed fits [] [] where
  initial := List.prefix_refl _
  shortest ys hys hlt := by simp [List.prefix_nil.mp hys] at hlt
  room := .inl rfl

theorem Trimmed.of_dropLast (hxs : ¬ fits xs) (h : Trimmed fits xs.dropLast kept) :
    Trimmed fits xs kept where
  initial := h.initial.trans (List.dropLast_prefix xs)
  shortest ys hys hlt := by
    by_cases hlen : ys.length = xs.length
    · rwa [hys.eq_of_length hlen]
    · have hle := hys.length_le
      refine h.shortest ys (List.prefix_of_prefix_length_le hys (List.dropLast_prefix xs) ?_) hlt
      simp only [List.length_dropLast]
      omega
  room := h.room

theorem Trimmed.length_le (h : Trimmed fits xs kept) (h' : Trimmed fits xs kept') :
    kept.length ≤ kept'.length := by
  by_contra hlt
  obtain hnil | hfits := h.room
  · simp [hnil] at hlt
  · exact h'.shortest kept h.initial (by omega) hfits

theorem Trimmed.unique (h : Trimmed fits xs kept) (h' : Trimmed fits xs kept') : kept = kept' :=
  (List.prefix_of_prefix_length_le h.initial h'.initial (h.length_le h')).eq_of_length
    (Nat.le_antisymm (h.length_le h') (h'.length_le h))

end Room

end Imy.Lib.Lru
