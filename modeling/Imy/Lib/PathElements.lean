import Imy.Lib.FilePath
import Imy.Lib.Separated
set_option autoImplicit false

/-!
What cleaning does to a name with separators in it. A name of normal elements keeps them all;
in any other name the elements between the first and the last either take back the first one
or leave a shorter row of normal elements above it.
-/

namespace Imy.Lib

theorem normal_of_length {e : List Char} (h : 3 ≤ e.length) : NormalElem e := by
  refine ⟨?_,?_,?_⟩ <;> rintro rfl <;> simp at h

theorem pieces_eq_splitOn (s : List Char) : pieces s = s.splitOn '/' := by
  induction s with
  | nil => rfl
  | cons c s ih =>
    rw [List.splitOn_cons_eq_if_modifyHead,← ih]
    by_cases hc : c = '/'
    · simp [pieces,hc]
    · cases hp : pieces s with
      | nil => exact absurd hp (pieces_ne_nil s)
      | cons p ps => simp [pieces,hc,hp]

theorem intercalate_pieces (s : List Char) : ['/'].intercalate (pieces s) = s := by
  rw [pieces_eq_splitOn,List.intercalate_splitOn]

theorem pieces_intercalate {ps : List (List Char)} (hne : ps ≠ []) (h : ∀ p ∈ ps, '/' ∉ p) :
    pieces (['/'].intercalate ps) = ps := by
  rw [pieces_eq_splitOn,List.splitOn_intercalate '/' h hne]

theorem pieces_injective {s t : List Char} (h : pieces s = pieces t) : s = t := by
  rw [← intercalate_pieces s,h,intercalate_pieces]

theorem join_normal_injective {m n : List Char} (hm : ∀ e ∈ pieces m, NormalElem e)
    (hn : ∀ e ∈ pieces n, NormalElem e) {dir : List Char} (h : join dir m = join dir n) :
    m = n := by
  rw [join_normal hm,join_normal hn] at h
  exact pieces_injective (by simpa using h)

theorem slash_not_mem_pieces {s p : List Char} (h : p ∈ pieces s) : '/' ∉ p := by
  rw [pieces_eq_splitOn] at h
  exact not_mem_of_mem_splitOn h

theorem intercalate_append_cons (sep pre p : List Char) (ps : List (List Char)) :
    pre ++ sep.intercalate (p :: ps) = sep.intercalate ((pre ++ p) :: ps) := by
  cases ps <;> simp [List.intercalate_cons_cons]

theorem intercalate_suffix (sep suf q : List Char) (ps : List (List Char)) :
    sep.intercalate (ps ++ [q]) ++ suf = sep.intercalate (ps ++ [q ++ suf]) := by
  induction ps with
  | nil => simp
  | cons p ps ih =>
    rw [List.cons_append,List.cons_append,List.intercalate_cons_of_ne_nil (by simp),
      List.intercalate_cons_of_ne_nil (by simp),← ih]
    simp

def innerElems (s : List Char) : List (List Char) := (pieces s).tail.dropLast

theorem pieces_cases (s : List Char) :
    pieces s = [s] ∨ ∃ p q, pieces s = p :: innerElems s ++ [q] := by
  have hs := intercalate_pieces s
  unfold innerElems
  cases hp : pieces s with
  | nil => exact absurd hp (pieces_ne_nil s)
  | cons p ps =>
    rcases List.eq_nil_or_concat ps with rfl | ⟨inner,q,rfl⟩
    · rw [hp,List.intercalate_singleton] at hs
      exact .inl (by rw [hs])
    · exact .inr ⟨p,q,by simp⟩

/-- What is put before and after a name goes into its first and its last element, and the
elements between them stay. -/
theorem pieces_around {pre suf s p q : List Char} {inner : List (List Char)} (hpre : '/' ∉ pre)
    (hsuf : '/' ∉ suf) (hs : pieces s = p :: inner ++ [q]) :
    pieces (pre ++ s ++ suf) = (pre ++ p) :: inner ++ [q ++ suf] := by
  have hslash := @slash_not_mem_pieces s
  rw [hs] at hslash
  have hmem : ∀ e ∈ (pre ++ p) :: inner ++ [q ++ suf], '/' ∉ e := by
    intro e he
    simp only [List.cons_append,List.mem_cons,List.mem_append,List.not_mem_nil,or_false] at he
    rcases he with rfl | he | rfl
    · have hp : '/' ∉ p := hslash (by simp)
      simp [hpre,hp]
    · exact hslash (by simp [he])
    · have hq : '/' ∉ q := hslash (by simp)
      simp [hsuf,hq]
  have hjoined : pre ++ s ++ suf = ['/'].intercalate ((pre ++ p) :: inner ++ [q ++ suf]) := by
    rw [← intercalate_pieces s,hs,List.cons_append,intercalate_append_cons,← List.cons_append,
      intercalate_suffix]
  rw [hjoined,pieces_intercalate (by simp) hmem]

/-- The elements that are met, over the row of normal elements already there: either some row
is left above the first element, whatever it is, or the first element is gone. -/
theorem foldl_resolve_cases (es m : List (List Char)) (hm : ∀ e ∈ m, NormalElem e) :
    (∃ m', (∀ e ∈ m', NormalElem e ∧ (e ∈ es ∨ e ∈ m)) ∧
      ∀ f, NormalElem f → es.foldl (resolve false) (m ++ [f]) = m' ++ [f]) ∨
    ∃ left, ∀ f, NormalElem f → es.foldl (resolve false) (m ++ [f]) = left := by
  induction es generalizing m with
  | nil => exact .inl ⟨m,fun e he => ⟨hm e he,.inr he⟩,fun f _ => rfl⟩
  | cons e es ih =>
    -- What the row `n` gives is what `m` gives, where `e` turns the one into the other.
    have pass : ∀ n : List (List Char), (∀ e' ∈ n, NormalElem e' ∧ (e' = e ∨ e' ∈ m)) →
        (∀ f, NormalElem f → resolve false (m ++ [f]) e = n ++ [f]) →
        (∃ m', (∀ e' ∈ m', NormalElem e' ∧ (e' ∈ e :: es ∨ e' ∈ m)) ∧
          ∀ f, NormalElem f → (e :: es).foldl (resolve false) (m ++ [f]) = m' ++ [f]) ∨
        ∃ left, ∀ f, NormalElem f → (e :: es).foldl (resolve false) (m ++ [f]) = left := by
      intro n hn hr
      rcases ih n fun e' he' => (hn e' he').1 with ⟨m',hm',hf⟩ | ⟨left,hl⟩
      · refine .inl ⟨m',fun e' he' => ⟨(hm' e' he').1,?_⟩,fun f h => ?_⟩
        · rcases (hm' e' he').2 with h | h
          · exact .inl (List.mem_cons_of_mem _ h)
          · rcases (hn e' h).2 with rfl | h
            · exact .inl List.mem_cons_self
            · exact .inr h
        · rw [List.foldl_cons,hr f h,hf f h]
      · exact .inr ⟨left,fun f h => by rw [List.foldl_cons,hr f h,hl f h]⟩
    by_cases hskip : e = [] ∨ e = ['.']
    · exact pass m (fun e' he' => ⟨hm e' he',.inr he'⟩) fun f _ => by simp [resolve,hskip]
    · by_cases hdots : e = ['.','.']
      · subst e
        cases m with
        | nil =>
          refine .inr ⟨es.foldl (resolve false) [],fun f h => ?_⟩
          simp [resolve,h.notDots]
        | cons top rest =>
          have ht := hm top List.mem_cons_self
          refine pass rest (fun e' he' => ?_) fun f _ => by simp [resolve,ht.notDots]
          exact ⟨hm e' (List.mem_cons_of_mem _ he'),.inr (List.mem_cons_of_mem _ he')⟩
      · have he : NormalElem e := ⟨fun h => hskip (.inl h),fun h => hskip (.inr h),hdots⟩
        refine pass (e :: m) (fun e' he' => ?_) fun f _ => resolve_normal he _ _
        rcases List.mem_cons.mp he' with rfl | he'
        · exact ⟨he,.inl rfl⟩
        · exact ⟨hm e' he',.inr he'⟩

end Imy.Lib
