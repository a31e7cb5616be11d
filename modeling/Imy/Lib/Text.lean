import Mathlib.Data.List.Infix
set_option autoImplicit false

namespace Imy.Lib

def decimal (n : Int) : String := toString n

theorem decimal_toList_ofNat (n : Nat) :
    (decimal (Int.ofNat n)).toList = Nat.toDigits 10 n := by
  simp [decimal,toString,Int.repr]

theorem decimal_toList_negSucc (n : Nat) :
    (decimal (Int.negSucc n)).toList = '-' :: Nat.toDigits 10 (n+1) := by
  simp [decimal,toString,Int.repr]

theorem toDigits_injective {m n : Nat} (h : Nat.toDigits 10 m = Nat.toDigits 10 n) : m = n := by
  rw [← Nat.ofDigitChars_ten_toDigits (n := m),h,Nat.ofDigitChars_ten_toDigits]

theorem minus_not_mem_toDigits (n : Nat) : '-' ∉ Nat.toDigits 10 n := by
  intro h
  have hd := Nat.isDigit_of_mem_toDigits (by decide) (by decide) h
  exact absurd hd (by decide)

theorem toDigits_ne_minus_cons (m n : Nat) : Nat.toDigits 10 m ≠ '-' :: Nat.toDigits 10 n := by
  intro h
  apply minus_not_mem_toDigits m
  simp [h]

theorem decimal_injective {m n : Int} (h : decimal m = decimal n) : m = n := by
  have hl := congrArg String.toList h
  cases m with
  | ofNat m =>
    cases n with
    | ofNat n =>
      rw [decimal_toList_ofNat,decimal_toList_ofNat] at hl
      rw [toDigits_injective hl]
    | negSucc n =>
      rw [decimal_toList_ofNat,decimal_toList_negSucc] at hl
      exact absurd hl (toDigits_ne_minus_cons m (n+1))
  | negSucc m =>
    cases n with
    | ofNat n =>
      rw [decimal_toList_ofNat,decimal_toList_negSucc] at hl
      exact absurd hl.symm (toDigits_ne_minus_cons n (m+1))
    | negSucc n =>
      rw [decimal_toList_negSucc,decimal_toList_negSucc] at hl
      have hmn := toDigits_injective (List.cons.inj hl).2
      rw [Nat.succ.inj hmn]

theorem not_mem_decimal {c : Char} (hc : c.isDigit = false) (hm : c ≠ '-') (n : Int) :
    c ∉ (decimal n).toList := by
  have hd : ∀ m : Nat, c ∉ Nat.toDigits 10 m := by
    intro m h
    rw [Nat.isDigit_of_mem_toDigits (by decide) (by decide) h] at hc
    cases hc
  cases n with
  | ofNat n =>
    rw [decimal_toList_ofNat]
    exact hd n
  | negSucc n =>
    rw [decimal_toList_negSucc]
    simp only [List.mem_cons,not_or]
    exact ⟨hm,hd _⟩

theorem underscore_not_mem_decimal (n : Int) : '_' ∉ (decimal n).toList :=
  not_mem_decimal (by decide) (by decide) n

theorem slash_not_mem_decimal (n : Int) : '/' ∉ (decimal n).toList :=
  not_mem_decimal (by decide) (by decide) n

theorem colon_not_mem_decimal (n : Int) : ':' ∉ (decimal n).toList :=
  not_mem_decimal (by decide) (by decide) n

/-- A separator that does not occur in the second part marks where it starts. -/
theorem split_at_last {α : Type} {c : α} {x x' y y' : List α} (hy : c ∉ y) (hy' : c ∉ y')
    (h : x ++ c :: y = x' ++ c :: y') : x = x' ∧ y = y' := by
  rw [List.append_eq_append_iff] at h
  rcases h with ⟨z,hx,hz⟩ | ⟨z,hx,hz⟩
  · cases z with
    | nil => simp_all
    | cons d z =>
      obtain ⟨-,rfl⟩ := List.cons.inj hz
      simp at hy
  · cases z with
    | nil => simp_all
    | cons d z =>
      obtain ⟨-,rfl⟩ := List.cons.inj hz
      simp at hy'

/-- A number behind the last colon can be read off. -/
theorem colon_decimal_injective {s s' : String} {n n' : Int}
    (h : s ++ ":" ++ decimal n = s' ++ ":" ++ decimal n') : s = s' ∧ n = n' := by
  have hlist := congrArg String.toList h
  simp only [String.toList_append,List.append_assoc] at hlist
  obtain ⟨hs,hn⟩ := split_at_last (colon_not_mem_decimal n) (colon_not_mem_decimal n') hlist
  exact ⟨String.toList_injective hs,decimal_injective (String.toList_injective hn)⟩

end Imy.Lib
