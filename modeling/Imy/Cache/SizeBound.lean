import Imy.Cache.LruMap
set_option autoImplicit false

namespace Imy.Cache
open Imy.Lib Lru

namespace MemoryCache
variable {α : Type} {m : MemoryCache α} {c : MemoryCall α} {elem : Nat} {size : Int} {key : String}

def Sized (m : MemoryCache α) : Prop := ∀ elem, 0 ≤ (m.elems elem).size

theorem sizeOf_nonneg (h : m.Sized) (xs : List Nat) : 0 ≤ m.sizeOf xs := by
  induction xs with
  | nil => simp [sizeOf]
  | cons elem xs ih =>
    have hsize := h elem
    simp only [sizeOf,List.map_cons,List.sum_cons] at ih ⊢
    omega

/-- What an eviction leaves as it is, the loop of `Set` does. -/
theorem makeRoom_keeps {β : Type} {f : MemoryCache α → β}
    (hevict : ∀ m, f m.evictLRU = f m) (size : Int)
    (n : Nat) (m : MemoryCache α) : f (makeRoom size n m) = f m := by
  induction n generalizing m with
  | zero => rfl
  | succ n ih =>
    rw [makeRoom]
    split
    · rw [ih,hevict]
    · rfl

theorem makeRoom_elems (size : Int) (n : Nat) (m : MemoryCache α) :
    (makeRoom size n m).elems = m.elems := makeRoom_keeps evictLRU_elems size n m

theorem makeRoom_maxSize (size : Int) (n : Nat) (m : MemoryCache α) :
    (makeRoom size n m).maxSize = m.maxSize := makeRoom_keeps evictLRU_maxSize size n m

theorem sized_update (h : m.Sized) {item : MemoryCacheItem α} (hitem : 0 ≤ item.size) (e : Nat) :
    0 ≤ (Function.update m.elems elem item e).size := by
  by_cases he : e = elem
  · simpa [he] using hitem
  · simpa [Function.update_of_ne he] using h e

theorem Sized.next (h : m.Sized) (c : MemoryCall α) : (m.next c).Sized := by
  cases c with
  | set key value ttl now =>
    have hitem : 0 ≤ (newItem key value ttl now).size := estimateSize_nonneg value
    simp only [MemoryCache.next,MemoryCache.set]
    cases hcache : m.cache key with
    | some elem => exact sized_update h hitem
    | none =>
      have hroom : (makeRoom (newItem key value ttl now).size m.lruList.length m).Sized := by
        intro e
        rw [makeRoom_elems]
        exact h e
      exact sized_update hroom hitem
  | get key now =>
    simp only [MemoryCache.next,MemoryCache.get]
    cases hcache : m.cache key with
    | none => exact h
    | some elem =>
      dsimp only
      split <;> exact h
  | delete key =>
    simp only [MemoryCache.next,MemoryCache.delete]
    cases hcache : m.cache key <;> exact h
  | clear => exact h

theorem Sized.run (h : m.Sized) (calls : List (MemoryCall α)) : (m.run calls).Sized := by
  induction calls generalizing m with
  | nil => exact h
  | cons c calls ih => exact ih (h.next c)

theorem sized_new (maxSize : Int) : (newMemoryCache α maxSize).Sized := fun _ => Int.le_refl 0

@[simp] theorem next_maxSize (m : MemoryCache α) (c : MemoryCall α) :
    (m.next c).maxSize = m.maxSize := by
  cases c with
  | set key value ttl now =>
    simp only [MemoryCache.next,MemoryCache.set]
    cases m.cache key with
    | some elem => rfl
    | none => exact makeRoom_maxSize _ _ m
  | get key now =>
    simp only [MemoryCache.next,MemoryCache.get]
    cases m.cache key with
    | none => rfl
    | some elem =>
      dsimp only
      split <;> rfl
  | delete key =>
    simp only [MemoryCache.next,MemoryCache.delete]
    cases m.cache key <;> rfl
  | clear => rfl

@[simp] theorem run_maxSize (m : MemoryCache α) (calls : List (MemoryCall α)) :
    (m.run calls).maxSize = m.maxSize := by
  induction calls generalizing m with
  | nil => rfl
  | cons c calls ih => rw [run_cons,ih,next_maxSize]

/-- The elements with other keys. -/
def others (m : MemoryCache α) (key : String) : List Nat :=
  m.lruList.filter fun e => (m.elems e).key ≠ key

/-- A new value for a key that is there fits beside the other entries. -/
def FitsBeside (m : MemoryCache α) : MemoryCall α → Prop
  | .set key value _ _ => m.cache key ≠ none → m.Fits (estimateSize value) (m.others key)
  | _ => True

theorem Linked.others_eq (h : m.Linked) (hcache : m.cache key = some elem) :
    m.others key = m.lruList.erase elem := by
  rw [others,h.nodup.erase_eq_filter]
  refine List.filter_congr fun e he => ?_
  have hsame : (m.elems e).key = key ↔ e = elem := by
    constructor
    · exact fun hkey => h.key_inj he (h.mem hcache) (hkey.trans (h.key_eq hcache).symm)
    · rintro rfl
      exact h.key_eq hcache
  simp only [ne_eq,hsame]
  exact decide_not

theorem Linked.curSize_overwrite (h : m.Linked) (hcache : m.cache key = some elem)
    (item : MemoryCacheItem α) :
    (m.overwrite elem item).curSize = m.sizeOf (m.others key)+item.size := by
  rw [h.others_eq hcache,sizeOf_erase m (h.mem hcache),← h.curSize]
  rfl

theorem curSize_removeElement_le (hsized : m.Sized) (elem : Nat) :
    (m.removeElement elem).curSize ≤ m.curSize := by
  have hsize := hsized elem
  simp only [MemoryCache.removeElement]
  omega

theorem Shrunk.room {m' : MemoryCache α} (hs : m.Shrunk size m') (hsmall : size ≤ m.maxSize) :
    m'.curSize+size ≤ m.maxSize := by
  rw [hs.linked.curSize]
  obtain hnil | hfits := hs.trimmed.room
  · simpa [hnil,sizeOf] using hsmall
  · simpa [Fits,sizeOf,hs.elems] using hfits

/-- Within the bound, the next call stays within it exactly if it puts no value over an
old one that does not fit beside the other entries. -/
theorem Linked.next_bounded_iff (h : m.Linked) (hsized : m.Sized) (hbound : m.curSize ≤ m.maxSize)
    (hsmall : ∀ key value ttl now, c = .set key value ttl now → estimateSize value ≤ m.maxSize) :
    (m.next c).curSize ≤ m.maxSize ↔ m.FitsBeside c := by
  cases c with
  | set key value ttl now =>
    simp only [MemoryCache.next,MemoryCache.set,FitsBeside,Fits]
    cases hcache : m.cache key with
    | some elem => simp [h.curSize_overwrite hcache,newItem]
    | none =>
      have hs := shrunk_makeRoom h (newItem key value ttl now).size _ (Nat.le_refl _)
      have hroom := hs.room (hsmall key value ttl now rfl)
      simpa [MemoryCache.pushFront] using hroom
  | get key now =>
    simp only [MemoryCache.next,MemoryCache.get,FitsBeside,iff_true]
    cases hcache : m.cache key with
    | none => exact hbound
    | some elem =>
      dsimp only
      split
      · exact (curSize_removeElement_le hsized elem).trans hbound
      · exact hbound
  | delete key =>
    simp only [MemoryCache.next,MemoryCache.delete,FitsBeside,iff_true]
    cases hcache : m.cache key with
    | none => exact hbound
    | some elem => exact (curSize_removeElement_le hsized elem).trans hbound
  | clear =>
    have hnonneg := sizeOf_nonneg hsized m.lruList
    have hsize := h.curSize
    simp only [MemoryCache.next,MemoryCache.clear,FitsBeside,iff_true]
    omega

end MemoryCache

variable {α : Type} {maxSize : Int} {calls : List (MemoryCall α)}

/-- No value is larger than the cache may be. -/
def Small (maxSize : Int) (calls : List (MemoryCall α)) : Prop :=
  ∀ key value ttl now, .set key value ttl now ∈ calls → estimateSize value ≤ maxSize

/-- After every call the size is within the bound. -/
def SizeBounded (maxSize : Int) (calls : List (MemoryCall α)) : Prop :=
  ∀ before after, calls = before ++ after → before ≠ [] →
    ((newMemoryCache α maxSize).run before).curSize ≤ maxSize

theorem curSize_nonneg (maxSize : Int) (calls : List (MemoryCall α)) :
    0 ≤ ((newMemoryCache α maxSize).run calls).curSize := by
  rw [((MemoryCache.linked_new maxSize).run calls).curSize]
  exact MemoryCache.sizeOf_nonneg ((MemoryCache.sized_new maxSize).run calls) _

theorem sizeBounded_iff_of_nonneg (hsmall : Small maxSize calls) (hmax : 0 ≤ maxSize) :
    SizeBounded maxSize calls ↔ ∀ before c after, calls = before ++ c :: after →
      ((newMemoryCache α maxSize).run before).FitsBeside c := by
  have hall : SizeBounded maxSize calls ↔ ∀ before after, calls = before ++ after →
      ((newMemoryCache α maxSize).run before).curSize ≤ maxSize := by
    refine ⟨fun h before after hsplit => ?_,fun h before after hsplit _ => h before after hsplit⟩
    by_cases hnil : before = []
    · simpa [hnil,newMemoryCache] using hmax
    · exact h before after hsplit hnil
  rw [hall]
  refine beginnings_iff (P := fun before =>
    ((newMemoryCache α maxSize).run before).curSize ≤ maxSize)
    (by simpa [newMemoryCache] using hmax) fun before c after hsplit hbound => ?_
  have hstep := ((MemoryCache.linked_new maxSize).run before).next_bounded_iff (c := c)
    ((MemoryCache.sized_new maxSize).run before) (by simpa [newMemoryCache] using hbound)
  simp only [MemoryCache.run_maxSize,MemoryCache.run_append,MemoryCache.run_cons,
    MemoryCache.run_nil] at hstep ⊢
  refine hstep ?_
  rintro key value ttl now rfl
  exact hsmall key value ttl now (by simp [hsplit])

/-- The size is within the bound exactly if no value is put over an old one that does not
fit beside the other entries; a negative bound is never kept. -/
theorem memoryCache_bounded_iff (hsmall : Small maxSize calls) :
    SizeBounded maxSize calls ↔ (calls = [] ∨ 0 ≤ maxSize) ∧
      ∀ before c after, calls = before ++ c :: after →
        ((newMemoryCache α maxSize).run before).FitsBeside c := by
  by_cases hmax : 0 ≤ maxSize
  · simp only [hmax,or_true,true_and]
    exact sizeBounded_iff_of_nonneg hsmall hmax
  · simp only [hmax,or_false]
    constructor
    · intro h
      have hnil : calls = [] := by
        by_contra hne
        have hsize := curSize_nonneg maxSize calls
        have hle := h calls [] (by simp) hne
        omega
      subst hnil
      simp
    · rintro ⟨rfl,-⟩ before after hsplit hne
      exact absurd (List.append_eq_nil_iff.mp hsplit.symm).1 hne

/-- A value, a smaller one over it, and one that evicts it. -/
def evicting : List (MemoryCall Unit) :=
  [.set "a" (.string [1,2,3]) 0 0,.set "a" (.string [4,5]) 0 0,
    .set "b" (.string (List.replicate 9 0)) 0 0]

theorem memoryCache_bounded_evicting :
    SizeBounded 10 evicting ∧ ((newMemoryCache Unit 10).run evicting).cache "a" = none := by
  refine ⟨(memoryCache_bounded_iff ?_).mpr ⟨Or.inr (by decide),?_⟩,by decide⟩
  · intro key value ttl now hmem
    simp only [evicting,List.mem_cons,MemoryCall.set.injEq,List.not_mem_nil,or_false] at hmem
    obtain ⟨-,rfl,-⟩ | ⟨-,rfl,-⟩ | ⟨-,rfl,-⟩ := hmem <;> decide
  · simp only [evicting,splits_cons]
    refine ⟨?_,?_,?_,by simp⟩
    · exact fun hthere => (hthere rfl).elim
    · exact fun _ => (by decide : (2 : Int) ≤ 10)
    · exact fun hthere => (hthere rfl).elim

/-- Two values of half the bound, and the first of them again as large as the bound. -/
def growing : List (MemoryCall Unit) :=
  [.set "a" (.string (List.replicate 5 0)) 0 0,.set "b" (.string (List.replicate 5 0)) 0 0,
    .set "a" (.string (List.replicate 10 0)) 0 0]

theorem growing_curSize : ((newMemoryCache Unit 10).run growing).curSize = 15 := by decide

theorem memoryCache_unbounded : Small 10 growing ∧ ¬ SizeBounded 10 growing := by
  constructor
  · intro key value ttl now hmem
    simp only [growing,List.mem_cons,MemoryCall.set.injEq,List.not_mem_nil,or_false] at hmem
    obtain ⟨-,rfl,-⟩ | ⟨-,rfl,-⟩ | ⟨-,rfl,-⟩ := hmem <;> decide
  · intro h
    have hle := h growing [] (by simp) (by simp [growing])
    rw [growing_curSize] at hle
    exact absurd hle (by decide)

end Imy.Cache
