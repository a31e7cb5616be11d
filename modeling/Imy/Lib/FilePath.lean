import Mathlib.Data.List.Basic
set_option autoImplicit false

namespace Imy.Lib

/-- A cleaned slash-separated path: whether it starts at the root, and its
elements. The empty relative path is what is printed as a single dot. -/
structure Path where
  rooted : Bool
  elems : List (List Char)
  deriving DecidableEq, Repr

def pieces : List Char → List (List Char)
  | [] => [[]]
  | c :: cs =>
    if c = '/' then [] :: pieces cs
    else
      match pieces cs with
      | [] => [[c]]
      | p :: ps => (c :: p) :: ps

/-- One element of a path, resolved against the stack of elements before it:
an empty element and a dot vanish, two dots take back the element before, and at
the root they vanish too. -/
def resolve (rooted : Bool) (stack : List (List Char)) (e : List Char) : List (List Char) :=
  if e = [] ∨ e = ['.'] then stack
  else if e = ['.','.'] then
    match stack with
    | [] => if rooted then [] else [e]
    | top :: rest => if top = ['.','.'] then e :: stack else rest
  else e :: stack

def clean (s : List Char) : Path :=
  let rooted := s.head? == some '/'
  ⟨rooted, ((pieces s).foldl (resolve rooted) []).reverse⟩

def join (dir file : List Char) : Path :=
  if dir = [] then clean file else clean (dir ++ '/' :: file)

theorem pieces_ne_nil (s : List Char) : pieces s ≠ [] := by
  cases s with
  | nil => simp [pieces]
  | cons c cs =>
    simp only [pieces]
    split
    · simp
    · split <;> simp

theorem pieces_append_slash (s t : List Char) : pieces (s ++ '/' :: t) = pieces s ++ pieces t := by
  induction s with
  | nil => simp [pieces]
  | cons c cs ih =>
    by_cases hc : c = '/'
    · simp [pieces,hc,ih]
    · simp only [List.cons_append,pieces,hc,if_false,ih]
      cases hp : pieces cs with
      | nil => exact absurd hp (pieces_ne_nil cs)
      | cons p ps => rfl

theorem pieces_of_not_mem {s : List Char} (h : '/' ∉ s) : pieces s = [s] := by
  induction s with
  | nil => rfl
  | cons c cs ih =>
    simp only [List.mem_cons,not_or] at h
    have hc : c ≠ '/' := fun e => h.1 e.symm
    simp [pieces,hc,ih h.2]

structure NormalElem (e : List Char) : Prop where
  nonempty : e ≠ []
  notDot : e ≠ ['.']
  notDots : e ≠ ['.','.']

instance (e : List Char) : Decidable (NormalElem e) :=
  decidable_of_iff (e ≠ [] ∧ e ≠ ['.'] ∧ e ≠ ['.','.'])
    ⟨fun h => ⟨h.1,h.2.1,h.2.2⟩,fun h => ⟨h.nonempty,h.notDot,h.notDots⟩⟩

theorem resolve_normal {e : List Char} (h : NormalElem e) (rooted : Bool)
    (stack : List (List Char)) : resolve rooted stack e = e :: stack := by
  simp [resolve,h.nonempty,h.notDot,h.notDots]

theorem foldl_resolve_normal {es : List (List Char)} (h : ∀ e ∈ es, NormalElem e) (rooted : Bool)
    (stack : List (List Char)) : es.foldl (resolve rooted) stack = es.reverse ++ stack := by
  induction es generalizing stack with
  | nil => rfl
  | cons e es ih =>
    rw [List.foldl_cons,resolve_normal (h e List.mem_cons_self),
      ih fun e he => h e (List.mem_cons_of_mem _ he)]
    simp

/-- A name of normal elements, joined to a directory, adds its elements to the cleaned
directory. -/
theorem join_normal {n : List Char} (h : ∀ e ∈ pieces n, NormalElem e) (dir : List Char) :
    join dir n = ⟨(clean dir).rooted,(clean dir).elems ++ pieces n⟩ := by
  cases dir with
  | nil =>
    have hr : (n.head? == some '/') = false := by
      cases n with
      | nil => rfl
      | cons c cs =>
        have hc : c ≠ '/' := by
          rintro rfl
          exact (h [] (by simp [pieces])).nonempty rfl
        simpa using hc
    have hd : clean [] = ⟨false,[]⟩ := by decide
    rw [hd]
    simp [join,clean,hr,foldl_resolve_normal h]
  | cons c cs =>
    simp only [join,reduceCtorEq,if_false,clean,List.cons_append,List.head?_cons]
    rw [← List.cons_append,pieces_append_slash,List.foldl_append,foldl_resolve_normal h]
    simp

structure PlainName (n : List Char) : Prop where
  noSlash : '/' ∉ n
  nonempty : n ≠ []
  notDot : n ≠ ['.']
  notDots : n ≠ ['.','.']

/-- Joining a plain name to a directory adds one element to the cleaned directory. -/
theorem join_plain {n : List Char} (h : PlainName n) (dir : List Char) :
    join dir n = ⟨(clean dir).rooted,(clean dir).elems ++ [n]⟩ := by
  have hn := pieces_of_not_mem h.noSlash
  rw [join_normal (by simpa [hn] using ⟨h.nonempty,h.notDot,h.notDots⟩),hn]

theorem join_plain_injective {m n : List Char} (hm : PlainName m) (hn : PlainName n)
    {dir : List Char} (h : join dir m = join dir n) : m = n := by
  rw [join_plain hm,join_plain hn] at h
  simpa using h

end Imy.Lib
