import Mathlib.Data.List.Count
import Mathlib.Data.List.Nodup
import Mathlib.Algebra.Order.Group.Nat
set_option autoImplicit false

/-!
Pages of a list that is put in a new order for every page. Page `k` begins at the place
`o k` and has `s` places, and at that time the element stands at the place `b k`.
-/

namespace Imy.Lib

/-- How many of the first `K` pages the element is on. -/
def hits (o : Nat → Nat) (s : Nat) (b : Nat → Nat) (K : Nat) : Nat :=
  (List.range K).countP fun k => o k ≤ b k ∧ b k < o k+s

/-- Of a list of `n` elements page `K` is the first one that is empty. -/
structure Ends (o : Nat → Nat) (n K : Nat) : Prop where
  before : ∀ k < K, o k < n
  behind : n ≤ o K

variable {o b : Nat → Nat} {s n K K' q : Nat}

theorem Ends.unique (h : Ends o n K) (h' : Ends o n K') : K = K' := by
  rcases Nat.lt_trichotomy K K' with hlt | heq | hgt
  · have := h'.before K hlt
    have := h.behind
    omega
  · exact heq
  · have := h.before K' hgt
    have := h'.behind
    omega

section Counting
variable {α : Type} {p r : α → Prop} [DecidablePred p] [DecidablePred r] {xs : List α}

end Counting

end Imy.Lib
