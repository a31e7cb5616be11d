import Imy.Cache.LruMap
set_option autoImplicit false

namespace Imy.Cache
open Imy.Lib Lru

def MemoryCall.Sets {α : Type} (key : String) : MemoryCall α → Prop
  | .set k _ _ _ => k = key
  | _ => False

namespace MemoryCache
variable {α : Type} {m : MemoryCache α} {elem : Nat} {size : Int} {key : String}

/-- The keys of the elements, from the front on. -/
def keys (m : MemoryCache α) : List String := m.lruList.map fun e => (m.elems e).key

theorem Linked.nodup_keys (h : m.Linked) : m.keys.Nodup :=
  List.Nodup.map_on (fun _ he _ he' hkey => h.key_inj he he' hkey) h.nodup

theorem Linked.cache_isSome_iff (h : m.Linked) (key : String) :
    (m.cache key).isSome ↔ key ∈ m.keys := by
  rw [Option.isSome_iff_exists,keys,List.mem_map]
  exact exists_congr fun e => h.own key e

/-- The key that a `Set` or a `Get` with a value found makes the latest used. -/
def used (m : MemoryCache α) : MemoryCall α → Option String
  | .set key _ _ _ => some key
  | .get key now => if (m.get key now).1.isSome then some key else none
  | _ => none

def uses (m : MemoryCache α) : List (MemoryCall α) → List (Option String)
  | [] => []
  | c :: calls => m.used c :: (m.next c).uses calls

theorem uses_concat (m : MemoryCache α) (calls : List (MemoryCall α)) (c : MemoryCall α) :
    m.uses (calls ++ [c]) = m.uses calls ++ [(m.run calls).used c] := by
  induction calls generalizing m with
  | nil => rfl
  | cons c' calls ih => simp [uses,ih]

section Keys

theorem removeElement_keys (m : MemoryCache α) (elem : Nat) :
    List.Sublist (m.removeElement elem).keys m.keys := List.Sublist.map _ List.erase_sublist

theorem map_key_update {xs : List Nat} (item : MemoryCacheItem α) (helem : elem ∉ xs) :
    (xs.map fun e => (Function.update m.elems elem item e).key) = xs.map fun e =>
      (m.elems e).key := by
  refine List.map_congr_left fun e he => ?_
  rw [Function.update_of_ne]
  rintro rfl
  exact helem he

theorem Linked.overwrite_keys (h : m.Linked) (item : MemoryCacheItem α) (helem : elem ∈ m.lruList) :
    (m.overwrite elem item).keys = item.key :: (m.lruList.erase elem).map fun e =>
      (m.elems e).key := by
  have hnot : elem ∉ m.lruList.erase elem := h.nodup.not_mem_erase
  simp only [keys,MemoryCache.overwrite,moveToFront,helem,if_true,List.map_cons,
    Function.update_self]
  rw [map_key_update item hnot]

theorem hit_keys (helem : elem ∈ m.lruList) :
    (m.hit elem).keys =
      (m.elems elem).key :: (m.lruList.erase elem).map fun e => (m.elems e).key := by
  simp only [keys,MemoryCache.hit,moveToFront,helem,if_true,List.map_cons]

theorem Linked.pushFront_keys (h : m.Linked) (item : MemoryCacheItem α) :
    (m.pushFront item).keys = item.key :: m.keys := by
  have hfresh : m.allocated ∉ m.lruList := fun hmem => Nat.lt_irrefl _ (h.allocated _ hmem)
  simp only [keys,MemoryCache.pushFront,List.map_cons,Function.update_self]
  rw [map_key_update item hfresh]

theorem Shrunk.keys {m' : MemoryCache α} (hs : m.Shrunk size m') :
    List.Sublist m'.keys m.keys := by
  simp only [MemoryCache.keys,hs.elems]
  exact hs.trimmed.initial.sublist.map _

theorem erase_keys (m : MemoryCache α) (elem : Nat) :
    List.Sublist ((m.lruList.erase elem).map fun e => (m.elems e).key) m.keys :=
  List.Sublist.map _ List.erase_sublist

theorem Linked.keys_used (h : m.Linked) {c : MemoryCall α} (hused : m.used c = some key) :
    ∃ rest, (m.next c).keys = key :: rest ∧ List.Sublist rest m.keys := by
  cases c with
  | set k value ttl now =>
    obtain rfl : k = key := by simpa [used] using hused
    simp only [MemoryCache.next,MemoryCache.set]
    cases hcache : m.cache k with
    | some elem => exact ⟨_,h.overwrite_keys _ (h.mem hcache),erase_keys m elem⟩
    | none =>
      have hs := shrunk_makeRoom h (newItem k value ttl now).size _ (Nat.le_refl _)
      exact ⟨_,hs.linked.pushFront_keys _,hs.keys⟩
  | get k now =>
    simp only [used,MemoryCache.next,MemoryCache.get] at hused ⊢
    cases hcache : m.cache k with
    | none => simp [hcache] at hused
    | some elem =>
      by_cases hexp : expired (m.elems elem).expireTime now
      · simp [hcache,hexp] at hused
      · obtain rfl : k = key := by simpa [hcache,hexp] using hused
        simp only [hexp,if_false]
        exact ⟨_,h.key_eq hcache ▸ hit_keys (h.mem hcache),erase_keys m elem⟩
  | delete k => simp [used] at hused
  | clear => simp [used] at hused

theorem keys_quiet {c : MemoryCall α} (hused : m.used c = none) :
    List.Sublist (m.next c).keys m.keys := by
  cases c with
  | set k value ttl now => simp [used] at hused
  | get k now =>
    simp only [used,MemoryCache.next,MemoryCache.get] at hused ⊢
    cases hcache : m.cache k with
    | none => exact List.Sublist.refl _
    | some elem =>
      by_cases hexp : expired (m.elems elem).expireTime now
      · simp only [hexp,if_true]
        exact removeElement_keys m elem
      · simp [hcache,hexp] at hused
  | delete k =>
    simp only [MemoryCache.next,MemoryCache.delete]
    cases hcache : m.cache k with
    | none => exact List.Sublist.refl _
    | some elem => exact removeElement_keys m elem
  | clear => exact List.nil_sublist _

theorem recent_run (maxSize : Int) (calls : List (MemoryCall α)) :
    Recent ((newMemoryCache α maxSize).uses calls) ((newMemoryCache α maxSize).run calls).keys := by
  induction calls using List.reverseRecOn with
  | nil => exact recent_nil _
  | append_singleton calls c ih =>
    have hlinked := (linked_new (α := α) maxSize).run calls
    rw [uses_concat,run_append,run_cons,run_nil]
    cases hused : ((newMemoryCache α maxSize).run calls).used c with
    | none => exact (ih.sublist (keys_quiet hused)).concat (by simp)
    | some key =>
      obtain ⟨rest,hkeys,hrest⟩ := hlinked.keys_used hused
      have hnodup := (hlinked.next c).nodup_keys
      rw [hkeys] at hnodup ⊢
      exact (ih.sublist hrest).use (List.nodup_cons.mp hnodup).1

end Keys

section Items

def item (m : MemoryCache α) (key : String) : Option (MemoryCacheItem α) :=
  (m.cache key).map m.elems

theorem item_of_none (hcache : m.cache key = none) : m.item key = none := by simp [item,hcache]

theorem item_of_some (hcache : m.cache key = some elem) : m.item key = some (m.elems elem) := by
  simp [item,hcache]

/-- The elements that a `Set` of a new key of this size evicts: those outside what is left
of the list when its shortest ending is dropped that makes room. -/
def Evicts (m : MemoryCache α) (size : Int) (elem : Nat) : Prop :=
  elem ∈ m.lruList ∧ ∃ kept, Trimmed (m.Fits size) m.lruList kept ∧ elem ∉ kept

/-- The call takes away the key, whose item expires at this time: it is deleted, cleared,
found expired or evicted. -/
def Removes (m : MemoryCache α) (expireTime : Time) (key : String) : MemoryCall α → Prop
  | .delete k => k = key
  | .clear => True
  | .get k now => k = key ∧ expired expireTime now
  | .set k value _ _ =>
    m.cache k = none ∧ ∃ elem, m.Evicts (estimateSize value) elem ∧ (m.elems elem).key = key

theorem Linked.removeElement_item (h : m.Linked) {k : String} (hcache : m.cache k = some elem) :
    (m.removeElement elem).item key = if k = key then none else m.item key := by
  simp only [item,MemoryCache.removeElement,h.key_eq hcache]
  split
  · rename_i hkey
    simp [hkey]
  · rename_i hkey
    rw [Function.update_of_ne (Ne.symm hkey)]

theorem miss_item (m : MemoryCache α) : m.miss.item key = m.item key := rfl

theorem hit_item (m : MemoryCache α) (elem : Nat) : (m.hit elem).item key = m.item key := rfl

theorem Linked.overwrite_item (h : m.Linked) (it : MemoryCacheItem α) (key : String)
    (hcache : m.cache it.key = some elem) :
    (m.overwrite elem it).item key = if it.key = key then some it else m.item key := by
  simp only [item,MemoryCache.overwrite]
  split
  · rename_i hkey
    simp [← hkey,hcache]
  · rename_i hkey
    refine Option.map_congr fun e he => ?_
    rw [Function.update_of_ne]
    rintro rfl
    exact hkey ((h.key_eq hcache).symm.trans (h.key_eq he))

theorem Linked.pushFront_item (h : m.Linked) (it : MemoryCacheItem α) (key : String) :
    (m.pushFront it).item key = if it.key = key then some it else m.item key := by
  simp only [item,MemoryCache.pushFront]
  split
  · rename_i hkey
    simp [hkey]
  · rename_i hkey
    rw [Function.update_of_ne (Ne.symm hkey)]
    refine Option.map_congr fun e he => ?_
    rw [Function.update_of_ne]
    rintro rfl
    exact Nat.lt_irrefl _ (h.allocated _ (h.mem he))

/-- The loop of `Set` takes away the keys of the elements that are evicted. -/
theorem Shrunk.item_none {m' : MemoryCache α} (hs : m.Shrunk size m') (h : m.Linked)
    (hevict : ∃ elem, m.Evicts size elem ∧ (m.elems elem).key = key) : m'.item key = none := by
  obtain ⟨elem,⟨hmem,kept,hkept,hnot⟩,rfl⟩ := hevict
  rw [hkept.unique hs.trimmed] at hnot
  refine Option.map_eq_none_iff.mpr (Option.eq_none_iff_forall_not_mem.mpr fun e he => ?_)
  obtain ⟨hmem',hkey⟩ := (hs.linked.own _ e).mp he
  rw [hs.elems] at hkey
  exact hnot (h.key_inj (hs.trimmed.initial.subset hmem') hmem hkey ▸ hmem')

theorem Shrunk.item_eq {m' : MemoryCache α} (hs : m.Shrunk size m') (h : m.Linked)
    (hstay : ¬ ∃ elem, m.Evicts size elem ∧ (m.elems elem).key = key) :
    m'.item key = m.item key := by
  have hcache : m'.cache key = m.cache key := by
    cases hnone : m.cache key with
    | none => exact hs.cache_none h hnone
    | some elem =>
      have hmem := h.mem hnone
      have hkey := h.key_eq hnone
      refine (hs.linked.own key elem).mpr ⟨?_,by rw [hs.elems]; exact hkey⟩
      by_contra hnot
      exact hstay ⟨elem,⟨hmem,_,hs.trimmed,hnot⟩,hkey⟩
  rw [item,item,hcache,hs.elems]

theorem set_item (m : MemoryCache α) (key : String) (value : Value α) (ttl : Int) (now : Time) :
    (m.set key value ttl now).item key = some (newItem key value ttl now) := by
  rw [MemoryCache.set]
  cases hcache : m.cache key with
  | some elem => simp [item,MemoryCache.overwrite,hcache]
  | none => simp [item,MemoryCache.pushFront,newItem]

variable {e : Time} {c : MemoryCall α}

theorem Linked.next_removed (h : m.Linked) (hset : ¬ c.Sets key)
    (he : ∀ it, m.item key = some it → it.expireTime = e) (hrem : m.Removes e key c) :
    (m.next c).item key = none := by
  cases c with
  | set k value ttl now =>
    obtain ⟨hcache,hevict⟩ := hrem
    have hs := shrunk_makeRoom h (newItem k value ttl now).size _ (Nat.le_refl _)
    have hne : ¬ (newItem k value ttl now).key = key := hset
    have hitem := hs.linked.pushFront_item (newItem k value ttl now) key
    rw [if_neg hne,hs.item_none h hevict] at hitem
    simpa [MemoryCache.next,MemoryCache.set,hcache] using hitem
  | get k now =>
    obtain ⟨rfl,hexp⟩ := hrem
    simp only [MemoryCache.next,MemoryCache.get]
    cases hcache : m.cache k with
    | none => simp [miss_item,item_of_none hcache]
    | some elem =>
      have htime := he _ (item_of_some hcache)
      simp only [htime,hexp,if_true,miss_item]
      simp [h.removeElement_item hcache]
  | delete k =>
    obtain rfl : k = key := hrem
    simp only [MemoryCache.next,MemoryCache.delete]
    cases hcache : m.cache k with
    | none => exact item_of_none hcache
    | some elem => simp [h.removeElement_item hcache]
  | clear => rfl

theorem Linked.next_kept (h : m.Linked) (hset : ¬ c.Sets key)
    (he : ∀ it, m.item key = some it → it.expireTime = e) (hrem : ¬ m.Removes e key c) :
    (m.next c).item key = m.item key := by
  cases c with
  | set k value ttl now =>
    have hne : ¬ (newItem k value ttl now).key = key := hset
    simp only [MemoryCache.next,MemoryCache.set]
    cases hcache : m.cache k with
    | some elem =>
      have hitem := h.overwrite_item (newItem k value ttl now) key hcache
      rwa [if_neg hne] at hitem
    | none =>
      have hs := shrunk_makeRoom h (newItem k value ttl now).size _ (Nat.le_refl _)
      have hitem := hs.linked.pushFront_item (newItem k value ttl now) key
      rwa [if_neg hne,hs.item_eq h (fun hevict => hrem ⟨hcache,hevict⟩)] at hitem
  | get k now =>
    simp only [MemoryCache.next,MemoryCache.get]
    cases hcache : m.cache k with
    | none => rfl
    | some elem =>
      by_cases hexp : expired (m.elems elem).expireTime now
      · simp only [hexp,if_true,miss_item,h.removeElement_item hcache]
        refine if_neg ?_
        rintro rfl
        exact hrem ⟨rfl,he _ (item_of_some hcache) ▸ hexp⟩
      · simp only [hexp,if_false,hit_item]
  | delete k =>
    simp only [MemoryCache.next,MemoryCache.delete]
    cases hcache : m.cache k with
    | none => rfl
    | some elem =>
      rw [h.removeElement_item hcache]
      exact if_neg hrem
  | clear => exact absurd trivial hrem

theorem Linked.next_none (h : m.Linked) (hset : ¬ c.Sets key) (hnone : m.item key = none) :
    (m.next c).item key = none := by
  have he : ∀ it, m.item key = some it → it.expireTime = 0 := by simp [hnone]
  by_cases hrem : m.Removes 0 key c
  · exact h.next_removed hset he hrem
  · rw [h.next_kept hset he hrem,hnone]

theorem Linked.run_none (h : m.Linked) {calls : List (MemoryCall α)}
    (hset : ∀ c ∈ calls, ¬ c.Sets key) (hnone : m.item key = none) :
    (m.run calls).item key = none := by
  induction calls generalizing m with
  | nil => exact hnone
  | cons c calls ih =>
    exact ih (h.next c) (fun c' hc' => hset c' (List.mem_cons_of_mem _ hc'))
      (h.next_none (hset c List.mem_cons_self) hnone)

def Stays (m : MemoryCache α) (e : Time) (key : String) (calls : List (MemoryCall α)) : Prop :=
  ∀ before c after, calls = before ++ c :: after → ¬ (m.run before).Removes e key c

theorem Linked.run_item (h : m.Linked) {calls : List (MemoryCall α)} {it : MemoryCacheItem α}
    (hset : ∀ c ∈ calls, ¬ c.Sets key) (hitem : m.item key = some it) :
    ((m.run calls).item key = some it ↔ m.Stays it.expireTime key calls) ∧
      (¬ m.Stays it.expireTime key calls → (m.run calls).item key = none) := by
  induction calls generalizing m with
  | nil => simp [Stays,hitem]
  | cons c calls ih =>
    have he : ∀ it', m.item key = some it' → it'.expireTime = it.expireTime := by
      intro it' hit'
      rw [hitem] at hit'
      rw [Option.some.inj hit']
    have hrest : ∀ c' ∈ calls, ¬ c'.Sets key := fun c' hc' => hset c' (List.mem_cons_of_mem _ hc')
    have hstays : m.Stays it.expireTime key (c :: calls) ↔
        ¬ m.Removes it.expireTime key c ∧ (m.next c).Stays it.expireTime key calls :=
      splits_cons (P := fun before c => ¬ (m.run before).Removes it.expireTime key c)
    rw [hstays,run_cons]
    by_cases hrem : m.Removes it.expireTime key c
    · have hnone := (h.next c).run_none hrest
        (h.next_removed (hset c List.mem_cons_self) he hrem)
      simp [hrem,hnone]
    · have hkept := h.next_kept (hset c List.mem_cons_self) he hrem
      simpa [hrem] using ih (h.next c) hrest (hkept.trans hitem)

/-- `Get` returns the value under the key unless it has expired. -/
theorem get_answer (m : MemoryCache α) (key : String) (now : Time) (value : Value α) :
    (m.get key now).1 = some value ↔
      ∃ it, m.item key = some it ∧ it.value = value ∧ ¬ expired it.expireTime now := by
  rw [MemoryCache.get,item]
  cases hcache : m.cache key with
  | none => simp
  | some elem =>
    by_cases hexp : expired (m.elems elem).expireTime now <;> simp [hexp]

end Items

end MemoryCache

/-- What makes the cache, after these calls, an LRU map. `ordered` is about the keys of
the list from the front on, `latest` about the latest `Set` of a key. -/
structure LruMap {α : Type} (maxSize : Int) (calls : List (MemoryCall α)) (m : MemoryCache α) :
    Prop where
  keys : ∀ key, (m.cache key).isSome ↔ key ∈ m.keys
  once : m.keys.Nodup
  own : ∀ elem ∈ m.lruList, m.cache (m.elems elem).key = some elem
  curSize : m.curSize = (m.lruList.map fun elem => (m.elems elem).size).sum
  ordered : Recent ((newMemoryCache α maxSize).uses calls) m.keys
  latest : ∀ before key value ttl now after, calls = before ++ .set key value ttl now :: after →
    (∀ c ∈ after, ¬ c.Sets key) → ∀ t v, (m.get key t).1 = some v ↔ v = value ∧
      ((newMemoryCache α maxSize).run (before ++ [.set key value ttl now])).Stays
        (expireTime ttl now) key after ∧ ¬ expired (expireTime ttl now) t
  unset : ∀ key, (∀ c ∈ calls, ¬ c.Sets key) → ∀ t, (m.get key t).1 = none
  evicts : ∀ key value ttl now, m.cache key = none → ∃ elem kept,
    Trimmed (m.Fits (estimateSize value)) m.lruList kept ∧
      (m.set key value ttl now).lruList = elem :: kept ∧
      (m.set key value ttl now).elems elem = MemoryCache.newItem key value ttl now ∧
      ∀ e ∈ kept, (m.set key value ttl now).elems e = m.elems e

theorem memoryCache_lru {α : Type} (maxSize : Int) (calls : List (MemoryCall α)) :
    LruMap maxSize calls ((newMemoryCache α maxSize).run calls) := by
  have hnew := MemoryCache.linked_new (α := α) maxSize
  have hlinked := hnew.run calls
  refine ⟨hlinked.cache_isSome_iff,hlinked.nodup_keys,fun elem => hlinked.cache_key,hlinked.curSize,
    MemoryCache.recent_run maxSize calls,?latest,?unset,?evicts⟩
  case latest =>
    intro before key value ttl now after hcalls hset t v
    have hbefore := hnew.run (before ++ [.set key value ttl now])
    have hitem : ((newMemoryCache α maxSize).run (before ++ [.set key value ttl now])).item key =
        some (MemoryCache.newItem key value ttl now) := by
      rw [MemoryCache.run_append]
      exact MemoryCache.set_item _ key value ttl now
    obtain ⟨hstays,hgone⟩ := hbefore.run_item hset hitem
    have hrun : (newMemoryCache α maxSize).run calls =
        ((newMemoryCache α maxSize).run (before ++ [.set key value ttl now])).run after := by
      rw [hcalls,← MemoryCache.run_append,List.append_assoc]
      rfl
    rw [MemoryCache.get_answer,hrun]
    generalize (newMemoryCache α maxSize).run (before ++ [.set key value ttl now]) = m'
      at hstays hgone ⊢
    by_cases hstay : m'.Stays (expireTime ttl now) key after
    · rw [hstays.mpr hstay]
      simp [MemoryCache.newItem,hstay,eq_comm]
    · rw [hgone hstay]
      simp [hstay]
  case unset =>
    intro key hset t
    have hnone : ((newMemoryCache α maxSize).run calls).item key = none := hnew.run_none hset rfl
    rw [Option.eq_none_iff_forall_ne_some]
    intro v hv
    obtain ⟨it,hit,-⟩ := (MemoryCache.get_answer _ key t v).mp hv
    simp [hnone] at hit
  case evicts =>
    intro key value ttl now hcache
    have hs := MemoryCache.shrunk_makeRoom hlinked
      (MemoryCache.newItem key value ttl now).size _ (Nat.le_refl _)
    refine ⟨_,_,hs.trimmed,by rw [MemoryCache.set,hcache]; rfl,?_,fun e he => ?_⟩
    · simp [MemoryCache.set,hcache,MemoryCache.pushFront]
    · rw [MemoryCache.set,hcache]
      have hne := Nat.ne_of_lt (hs.linked.allocated e he)
      simp [MemoryCache.pushFront,Function.update_of_ne hne,hs.elems]

end Imy.Cache
