import Imy.Lib.PathElements
set_option autoImplicit false

/-!
Cleaned paths as they are printed, and the way from one to another.
-/

namespace Imy.Lib

def Path.chars (p : Path) : List Char :=
  if p.rooted then '/' :: ['/'].intercalate p.elems
  else if p.elems = [] then ['.'] else ['/'].intercalate p.elems

/-- The elements are printed and read back as they are. -/
def PlainElems (es : List (List Char)) : Prop := ∀ e ∈ es, PlainName e

section Plain
variable {s e : List Char} {es fs : List (List Char)}

theorem PlainName.normal (h : PlainName e) : NormalElem e := ⟨h.nonempty,h.notDot,h.notDots⟩

theorem PlainElems.append (hes : PlainElems es) (hfs : PlainElems fs) : PlainElems (es ++ fs) := by
  intro e he
  exact (List.mem_append.mp he).elim (hes e) (hfs e)

theorem plain_resolve (hes : PlainElems es) (he : '/' ∉ e) : PlainElems (resolve true es e) := by
  unfold resolve
  split
  · exact hes
  rename_i hdot
  rw [not_or] at hdot
  split
  · cases es with
    | nil => exact hes
    | cons top rest =>
      dsimp only
      rw [if_neg (hes top List.mem_cons_self).notDots]
      exact fun f hf => hes f (List.mem_cons_of_mem top hf)
  · rename_i hdots
    intro f hf
    rcases List.mem_cons.mp hf with rfl | hf
    · exact ⟨he,hdot.1,hdot.2,hdots⟩
    · exact hes f hf

theorem plain_clean (h : (clean s).rooted = true) : PlainElems (clean s).elems := by
  have hfold : ∀ ps : List (List Char), (∀ p ∈ ps, '/' ∉ p) → ∀ es, PlainElems es →
      PlainElems (ps.foldl (resolve true) es) := by
    intro ps
    induction ps with
    | nil => exact fun _ es hes => hes
    | cons p ps ih =>
      intro hps es hes
      exact ih (fun q hq => hps q (List.mem_cons_of_mem p hq)) _
        (plain_resolve hes (hps p List.mem_cons_self))
  simp only [clean] at h ⊢
  rw [h]
  intro e he
  exact hfold (pieces s) (fun p hp => slash_not_mem_pieces hp) [] (by simp [PlainElems]) e
    (List.mem_reverse.mp he)

theorem PlainElems.pieces_intercalate (hes : PlainElems es) (hne : es ≠ []) :
    pieces (['/'].intercalate es) = es :=
  Lib.pieces_intercalate hne fun e he => (hes e he).noSlash

theorem PlainElems.clean_intercalate (hes : PlainElems es) :
    clean ('/' :: ['/'].intercalate es) = ⟨true,es⟩ := by
  have hcons : ∀ s, clean ('/' :: s) = ⟨true,((pieces s).foldl (resolve true) []).reverse⟩ := by
    intro s
    simp [clean,pieces,resolve]
  rw [hcons]
  cases es with
  | nil => rfl
  | cons e es =>
    rw [hes.pieces_intercalate (List.cons_ne_nil e es),foldl_resolve_normal fun f hf =>
      (hes f hf).normal]
    simp

theorem PlainElems.join_intercalate (hes : PlainElems es) (hne : es ≠ []) (dir : List Char) :
    join dir (['/'].intercalate es) = ⟨(clean dir).rooted,(clean dir).elems ++ es⟩ := by
  rw [join_normal,hes.pieces_intercalate hne]
  rw [hes.pieces_intercalate hne]
  exact fun e he => (hes e he).normal

theorem PlainElems.intercalate_ne_nil (hes : PlainElems es) (hne : es ≠ []) :
    ['/'].intercalate es ≠ [] := by
  intro heq
  have hpieces := hes.pieces_intercalate hne
  rw [heq] at hpieces
  rw [← hpieces] at hes
  exact (hes [] List.mem_cons_self).nonempty rfl

theorem join_dot (dir : List Char) : join dir ['.'] = clean dir := by
  cases dir with
  | nil => rfl
  | cons c cs =>
    rw [join,if_neg (List.cons_ne_nil c cs)]
    simp only [clean,List.cons_append,List.head?_cons]
    rw [← List.cons_append,pieces_append_slash,List.foldl_append]
    simp [pieces,resolve]

theorem PlainElems.intercalate_append (hes : PlainElems es) (hfs : PlainElems fs)
    (hes' : es ≠ []) (hfs' : fs ≠ []) :
    ['/'].intercalate (es ++ fs) = ['/'].intercalate es ++ '/' :: ['/'].intercalate fs := by
  refine pieces_injective ?_
  rw [(hes.append hfs).pieces_intercalate (List.append_ne_nil_of_left_ne_nil hes' fs),
    pieces_append_slash,
    hes.pieces_intercalate hes',hfs.pieces_intercalate hfs']

theorem clean_slash_slash (s : List Char) : clean ('/' :: '/' :: s) = clean ('/' :: s) := by
  simp [clean,pieces,resolve]

theorem clean_append_slash (hs : s ≠ []) : clean (s ++ ['/']) = clean s := by
  cases s with
  | nil => exact absurd rfl hs
  | cons c cs =>
    simp only [clean,List.cons_append,List.head?_cons]
    rw [← List.cons_append,pieces_append_slash,List.foldl_append]
    simp [pieces,resolve]

theorem PlainElems.not_slash_suffix (hes : PlainElems es) (hne : es ≠ []) :
    ¬ ['/'] <:+ '/' :: ['/'].intercalate es := by
  rintro ⟨t,ht⟩
  have hcons : ∀ s, pieces ('/' :: s) = [] :: pieces s := fun s => pieces_append_slash [] s
  have hpieces := congrArg pieces ht
  rw [pieces_append_slash,hcons,hes.pieces_intercalate hne] at hpieces
  obtain rfl | ⟨init,e,rfl⟩ := List.eq_nil_or_concat es
  · exact hne rfl
  · rw [List.concat_eq_append,← List.cons_append] at hpieces
    obtain ⟨-,hlast⟩ := List.append_inj' hpieces rfl
    cases hlast
    exact (hes [] (by simp)).nonempty rfl

theorem slash_suffix_iff {t : List Char} (ht : '/' ∉ t) :
    '/' :: t <:+ '/' :: s ↔ (pieces s).getLast? = some t := by
  have hone : pieces t = [t] := by
    simpa using pieces_intercalate (List.cons_ne_nil t []) (by simpa using ht)
  constructor
  · rintro ⟨u,hu⟩
    have hpieces := congrArg pieces hu
    rw [pieces_append_slash,hone,← List.nil_append ('/' :: s),pieces_append_slash] at hpieces
    rw [← List.getLast?_append_of_ne_nil _ (pieces_ne_nil s),← hpieces,List.getLast?_concat]
  · intro hlast
    obtain ⟨init,hinit⟩ := List.getLast?_eq_some_iff.mp hlast
    rcases eq_or_ne init [] with rfl | hne
    · obtain rfl : s = t := pieces_injective (hinit.trans hone.symm)
      exact List.suffix_refl _
    · have hs : s = ['/'].intercalate init ++ '/' :: t := by
        refine pieces_injective ?_
        rw [pieces_append_slash,hone,pieces_intercalate hne,hinit]
        exact fun p hp => slash_not_mem_pieces (hinit ▸ List.mem_append_left _ hp)
      rw [hs,← List.cons_append]
      exact List.suffix_append _ _

theorem rooted_clean_slash (s : List Char) : (clean ('/' :: s)).rooted = true := by
  simp [clean]

end Plain

section Rel

def afterCommon : List (List Char) → List (List Char) → List (List Char) × List (List Char)
  | b :: bs, t :: ts => if b = t then afterCommon bs ts else (b :: bs,t :: ts)
  | bs, ts => (bs,ts)

theorem afterCommon_append (bs ts : List (List Char)) : afterCommon bs (bs ++ ts) = ([],ts) := by
  induction bs with
  | nil => cases ts <;> rfl
  | cons b bs ih => simpa [afterCommon] using ih

/-- `filepath.Rel`. An empty relative target is a dot here. -/
def rel (basepath targpath : List Char) : Option (List Char) :=
  let base := clean basepath
  let targ := clean targpath
  if targ = base then some ['.']
  else if base.rooted ≠ targ.rooted then none
  else
    let left := afterCommon base.elems (if targ.elems = [] ∧ targ.rooted = false then
      [['.']] else targ.elems)
    if left.1.head? = some ['.','.'] then none
    else some (['/'].intercalate (left.1.map (fun _ => ['.','.']) ++ left.2))

section Rooted
variable {basepath targpath : List Char} (hbase : (clean basepath).rooted = true)
  (htarg : (clean targpath).rooted = true)
include hbase htarg

theorem rel_same (h : (clean basepath).elems = (clean targpath).elems) :
    rel basepath targpath = some ['.'] := by
  have heq : clean targpath = clean basepath := by
    cases hb : clean basepath
    cases ht : clean targpath
    simp_all
  rw [rel,if_pos heq]

theorem rel_below {ts : List (List Char)} (h : (clean targpath).elems =
    (clean basepath).elems ++ ts)
    (hne : ts ≠ []) : rel basepath targpath = some (['/'].intercalate ts) := by
  have hdiff : clean targpath ≠ clean basepath := by
    intro heq
    rw [heq] at h
    exact hne (List.append_cancel_left (h.symm.trans (List.append_nil _).symm))
  have hfull : ¬ ((clean targpath).elems = [] ∧ (clean targpath).rooted = false) := by
    rw [htarg]
    simp
  rw [rel,if_neg hdiff,if_neg (by rw [hbase,htarg]; simp)]
  dsimp only
  rw [if_neg hfull,h,afterCommon_append]
  rfl

end Rooted

end Rel

end Imy.Lib
