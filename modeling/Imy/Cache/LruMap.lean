import Imy.Cache.MemoryCache
import Imy.Lib.Lists
set_option autoImplicit false

namespace Imy.Cache
open Imy.Lib Lru

namespace MemoryCache
variable {α : Type} {m : MemoryCache α} {elem : Nat} {size : Int} {key : String}

def sizeOf (m : MemoryCache α) (xs : List Nat) : Int := (xs.map fun e => (m.elems e).size).sum

structure Linked (m : MemoryCache α) : Prop where
  nodup : m.lruList.Nodup
  own : ∀ key elem, m.cache key = some elem ↔ elem ∈ m.lruList ∧ (m.elems elem).key = key
  curSize : m.curSize = m.sizeOf m.lruList
  allocated : ∀ elem ∈ m.lruList, elem < m.allocated
  entryCount : m.stats.entryCount = m.lruList.length

theorem linked_new (maxSize : Int) : (newMemoryCache α maxSize).Linked where
  nodup := List.nodup_nil
  own key elem := by simp [newMemoryCache]
  curSize := rfl
  allocated elem helem := by cases helem
  entryCount := rfl

theorem Linked.mem (h : m.Linked) (hcache : m.cache key = some elem) : elem ∈ m.lruList :=
  ((h.own key elem).mp hcache).1

theorem Linked.key_eq (h : m.Linked) (hcache : m.cache key = some elem) :
    (m.elems elem).key = key :=
  ((h.own key elem).mp hcache).2

theorem Linked.cache_key (h : m.Linked) (helem : elem ∈ m.lruList) :
    m.cache (m.elems elem).key = some elem := (h.own _ elem).mpr ⟨helem,rfl⟩

theorem Linked.key_inj (h : m.Linked) {e e' : Nat} (he : e ∈ m.lruList) (he' : e' ∈ m.lruList)
    (hkey : (m.elems e).key = (m.elems e').key) : e = e' := by
  have hcache := h.cache_key he
  rw [hkey,h.cache_key he'] at hcache
  simpa using hcache.symm

theorem sizeOf_erase (m : MemoryCache α) {xs : List Nat} (helem : elem ∈ xs) :
    m.sizeOf (xs.erase elem) = m.sizeOf xs-(m.elems elem).size := by
  have hperm := (List.perm_cons_erase helem).map fun e => (m.elems e).size
  have hsum := hperm.sum_eq
  simp only [List.map_cons,List.sum_cons] at hsum
  simp only [sizeOf]
  omega

theorem sizeOf_update (m : MemoryCache α) {xs : List Nat} (item : MemoryCacheItem α)
    (helem : elem ∉ xs) :
    (xs.map fun e => (Function.update m.elems elem item e).size).sum = m.sizeOf xs := by
  refine congrArg List.sum (List.map_congr_left fun e he => ?_)
  rw [Function.update_of_ne]
  rintro rfl
  exact helem he

theorem Linked.removeElement (h : m.Linked) (helem : elem ∈ m.lruList) :
    (m.removeElement elem).Linked where
  nodup := h.nodup.erase elem
  own key e := by
    simp only [MemoryCache.removeElement,h.nodup.mem_erase_iff]
    by_cases hkey : key = (m.elems elem).key
    · subst hkey
      simp only [Function.update_self,reduceCtorEq,false_iff,not_and]
      rintro ⟨hne,he⟩ hsame
      exact hne (h.key_inj he helem hsame)
    · rw [Function.update_of_ne hkey,h.own]
      constructor
      · rintro ⟨he,rfl⟩
        refine ⟨⟨?_,he⟩,rfl⟩
        rintro rfl
        exact hkey rfl
      · rintro ⟨⟨-,he⟩,hsame⟩
        exact ⟨he,hsame⟩
  curSize := by
    simp only [MemoryCache.removeElement]
    exact (h.curSize ▸ (sizeOf_erase m helem).symm)
  allocated e he := h.allocated e (List.mem_of_mem_erase he)
  entryCount := by
    have hlen := List.length_pos_of_mem helem
    have hcount := h.entryCount
    simp only [MemoryCache.removeElement,List.length_erase_of_mem helem]
    omega

theorem Linked.miss (h : m.Linked) : m.miss.Linked :=
  ⟨h.nodup,h.own,h.curSize,h.allocated,h.entryCount⟩

theorem erase_getLast {xs : List Nat} (hnodup : xs.Nodup) (hlast : xs.getLast? = some elem) :
    xs.erase elem = xs.dropLast := by
  obtain ⟨ys,rfl⟩ := List.getLast?_eq_some_iff.mp hlast
  have hnot : elem ∉ ys :=
    fun hmem => (List.nodup_append.mp hnodup).2.2 elem hmem elem (by simp) rfl
  simp [List.erase_append_right _ hnot]

section Evict

theorem evictLRU_lruList (h : m.Linked) : m.evictLRU.lruList = m.lruList.dropLast := by
  cases hlast : m.lruList.getLast? with
  | none => simp [evictLRU,List.getLast?_eq_none_iff.mp hlast]
  | some elem =>
    simp only [evictLRU,hlast,MemoryCache.removeElement]
    exact erase_getLast h.nodup hlast

@[simp] theorem evictLRU_elems (m : MemoryCache α) : m.evictLRU.elems = m.elems := by
  unfold evictLRU
  cases m.lruList.getLast? <;> rfl

@[simp] theorem evictLRU_maxSize (m : MemoryCache α) : m.evictLRU.maxSize = m.maxSize := by
  unfold evictLRU
  cases m.lruList.getLast? <;> rfl

theorem Linked.evictLRU (h : m.Linked) : m.evictLRU.Linked := by
  cases hlast : m.lruList.getLast? with
  | none => simpa [MemoryCache.evictLRU,hlast] using h
  | some elem =>
    have hrest := h.removeElement (List.mem_of_getLast? hlast)
    simp only [MemoryCache.evictLRU,hlast]
    exact ⟨hrest.nodup,hrest.own,hrest.curSize,hrest.allocated,hrest.entryCount⟩

end Evict

def Fits (m : MemoryCache α) (size : Int) (xs : List Nat) : Prop := m.sizeOf xs+size ≤ m.maxSize

theorem fits_evictLRU (m : MemoryCache α) (size : Int) : m.evictLRU.Fits size = m.Fits size := by
  funext xs
  simp [Fits,sizeOf]

structure Shrunk (m : MemoryCache α) (size : Int) (m' : MemoryCache α) : Prop where
  linked : m'.Linked
  elems : m'.elems = m.elems
  maxSize : m'.maxSize = m.maxSize
  trimmed : Trimmed (m.Fits size) m.lruList m'.lruList

theorem shrunk_makeRoom (h : m.Linked) (size : Int) (n : Nat) (hn : m.lruList.length ≤ n) :
    m.Shrunk size (makeRoom size n m) := by
  induction n generalizing m with
  | zero =>
    have hnil := List.length_eq_zero_iff.mp (Nat.le_zero.mp hn)
    exact ⟨h,rfl,rfl,hnil.symm ▸ trimmed_nil⟩
  | succ n ih =>
    rw [makeRoom]
    split
    · rename_i hfull
      have hlist := evictLRU_lruList h
      have hrest := ih h.evictLRU (by simp only [hlist,List.length_dropLast]; omega)
      refine ⟨hrest.linked,by simp [hrest.elems],by simp [hrest.maxSize],?_⟩
      refine Trimmed.of_dropLast ?_ (hlist ▸ fits_evictLRU m size ▸ hrest.trimmed)
      rw [Fits,← h.curSize]
      omega
    · rename_i hroom
      refine ⟨h,rfl,rfl,?_⟩
      by_cases hlen : m.lruList.length = 0
      · exact (List.length_eq_zero_iff.mp hlen).symm ▸ trimmed_nil
      · refine trimmed_of_fits ?_
        rw [Fits,← h.curSize]
        omega

theorem Linked.pushFront (h : m.Linked) {item : MemoryCacheItem α}
    (hnew : m.cache item.key = none) :
    (m.pushFront item).Linked := by
  have hfresh : m.allocated ∉ m.lruList := fun hmem => Nat.lt_irrefl _ (h.allocated _ hmem)
  refine ⟨List.nodup_cons.mpr ⟨hfresh,h.nodup⟩,fun key e => ?_,?_,fun e he => ?_,?_⟩
  · simp only [MemoryCache.pushFront,List.mem_cons]
    by_cases he : e = m.allocated
    · subst he
      by_cases hkey : key = item.key
      · simp [hkey]
      · have hno : m.cache key ≠ some m.allocated := fun hsome => hfresh (h.mem hsome)
        simp [Function.update_of_ne hkey,hno,Ne.symm hkey]
    · rw [Function.update_of_ne he]
      by_cases hkey : key = item.key
      · subst hkey
        have hno : ¬ (e ∈ m.lruList ∧ (m.elems e).key = item.key) := by
          rw [← h.own,hnew]
          simp
        simp only [Function.update_self,Option.some.injEq,Ne.symm he,he,false_or,false_iff]
        exact hno
      · simp [Function.update_of_ne hkey,he,h.own]
  · simp only [sizeOf,MemoryCache.pushFront,List.map_cons,List.sum_cons,Function.update_self,
      sizeOf_update m item hfresh,h.curSize]
    exact Int.add_comm _ _
  · obtain rfl | hmem := List.mem_cons.mp he
    · simp [MemoryCache.pushFront]
    · exact Nat.lt_succ_of_lt (h.allocated e hmem)
  · simp [MemoryCache.pushFront,h.entryCount]

theorem Linked.overwrite (h : m.Linked) {item : MemoryCacheItem α}
    (hcache : m.cache item.key = some elem) : (m.overwrite elem item).Linked := by
  have helem := h.mem hcache
  have hperm := List.perm_cons_erase helem
  refine ⟨?_,fun key e => ?_,?_,fun e he => ?_,?_⟩
  · simp only [MemoryCache.overwrite,moveToFront,helem,if_true]
    exact hperm.nodup_iff.mp h.nodup
  · simp only [MemoryCache.overwrite,moveToFront,helem,if_true,← hperm.mem_iff,h.own]
    by_cases he : e = elem
    · subst he
      simp [h.key_eq hcache]
    · rw [Function.update_of_ne he]
  · have hnot : elem ∉ m.lruList.erase elem := h.nodup.not_mem_erase
    have hrest := sizeOf_erase m helem
    have hsize := h.curSize
    simp only [sizeOf,MemoryCache.overwrite,moveToFront,helem,if_true,List.map_cons,List.sum_cons,
      Function.update_self]
    rw [sizeOf_update m item hnot]
    omega
  · simp only [MemoryCache.overwrite,moveToFront,helem,if_true,← hperm.mem_iff] at he
    exact h.allocated e he
  · simp only [MemoryCache.overwrite,moveToFront,helem,if_true,← hperm.length_eq]
    exact h.entryCount

theorem Linked.hit (h : m.Linked) (helem : elem ∈ m.lruList) : (m.hit elem).Linked := by
  have hperm := List.perm_cons_erase helem
  refine ⟨?_,fun key e => ?_,?_,fun e he => ?_,?_⟩
  · simp only [MemoryCache.hit,moveToFront,helem,if_true]
    exact hperm.nodup_iff.mp h.nodup
  · simp only [MemoryCache.hit,moveToFront,helem,if_true,← hperm.mem_iff]
    exact h.own key e
  · simp only [MemoryCache.hit,moveToFront,helem,if_true,sizeOf]
    rw [h.curSize]
    exact (hperm.map _).sum_eq
  · simp only [MemoryCache.hit,moveToFront,helem,if_true,← hperm.mem_iff] at he
    exact h.allocated e he
  · simp only [MemoryCache.hit,moveToFront,helem,if_true,← hperm.length_eq]
    exact h.entryCount

theorem linked_clear (m : MemoryCache α) : m.clear.Linked where
  nodup := List.nodup_nil
  own key elem := by simp [MemoryCache.clear]
  curSize := rfl
  allocated elem helem := by cases helem
  entryCount := rfl

/-- A key that the map lacks it still lacks when elements have been evicted. -/
theorem Shrunk.cache_none {m' : MemoryCache α} (hs : m.Shrunk size m') (h : m.Linked)
    (hnew : m.cache key = none) : m'.cache key = none := by
  refine Option.eq_none_iff_forall_not_mem.mpr fun e he => ?_
  obtain ⟨hmem,hkey⟩ := (hs.linked.own key e).mp he
  have hold := (h.own key e).mpr ⟨hs.trimmed.initial.subset hmem,by rw [← hs.elems]; exact hkey⟩
  simp [hnew] at hold

theorem Linked.next (h : m.Linked) (c : MemoryCall α) : (m.next c).Linked := by
  cases c with
  | set key value ttl now =>
    simp only [MemoryCache.next,MemoryCache.set]
    cases hcache : m.cache key with
    | some elem => exact h.overwrite hcache
    | none =>
      have hs := shrunk_makeRoom h (newItem key value ttl now).size _ (Nat.le_refl _)
      exact hs.linked.pushFront (hs.cache_none h hcache)
  | get key now =>
    simp only [MemoryCache.next,MemoryCache.get]
    cases hcache : m.cache key with
    | none => exact h.miss
    | some elem =>
      dsimp only
      split
      · exact (h.removeElement (h.mem hcache)).miss
      · exact h.hit (h.mem hcache)
  | delete key =>
    simp only [MemoryCache.next,MemoryCache.delete]
    cases hcache : m.cache key with
    | none => exact h
    | some elem => exact h.removeElement (h.mem hcache)
  | clear => exact linked_clear m

theorem Linked.run (h : m.Linked) (calls : List (MemoryCall α)) : (m.run calls).Linked := by
  induction calls generalizing m with
  | nil => exact h
  | cons c calls ih => exact ih (h.next c)

end MemoryCache

end Imy.Cache
