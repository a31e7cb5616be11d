import Mathlib.Data.List.Nodup
import Mathlib.Logic.Function.Basic
set_option autoImplicit false

/-!
Sets that are known by names and changed in place. A set is made for a name that has none,
and a name is given up when its set is empty; who has found the set goes on with it.
-/

namespace Imy.Lib

structure NamedSets (ν κ : Type) where
  byName : ν → Option Nat
  sets : List (List κ)

namespace NamedSets
variable {ν κ : Type} {h : NamedSets ν κ} {n m : ν} {s t : Nat} {c d : κ}

def get (h : NamedSets ν κ) (s : Nat) : List κ := h.sets.getD s []

theorem get_length (h : NamedSets ν κ) : h.get h.sets.length = [] := by
  rw [get,List.getD_eq_getElem?_getD,List.getElem?_eq_none (Nat.le_refl _),Option.getD_none]

def Has (h : NamedSets ν κ) (n : ν) (c : κ) : Prop := ∃ s, h.byName n = some s ∧ c ∈ h.get s

/-- The sets of the names are there, and are different ones. -/
structure Sound (h : NamedSets ν κ) : Prop where
  known : ∀ n s, h.byName n = some s → s < h.sets.length
  apart : ∀ n m s, h.byName n = some s → h.byName m = some s → n = m
  nodup : ∀ s, (h.get s).Nodup

def Found (h : NamedSets ν κ) (n : ν) (s : Nat) : Prop :=
  s < h.sets.length ∧ (h.byName n = some s ∨ h.get s = [] ∧ ∀ m, h.byName m ≠ some s)

theorem Found.has (hf : h.Found n s) (hc : c ∈ h.get s) : h.Has n c := by
  rcases hf.2 with hn | ⟨hempty,-⟩
  · exact ⟨s,hn,hc⟩
  · rw [hempty] at hc
    cases hc

theorem Sound.found (hs : h.Sound) (hn : h.byName n = some s) : h.Found n s :=
  ⟨hs.known n s hn,.inl hn⟩

theorem Sound.ne_length (hs : h.Sound) (hn : h.byName n = some s) : s ≠ h.sets.length :=
  Nat.ne_of_lt (hs.known n s hn)

theorem has_of_byName (hn : h.byName n = some s) : h.Has n c ↔ c ∈ h.get s := by
  simp [Has,hn]

section Modify
variable (f : List κ → List κ)

def modify (h : NamedSets ν κ) (s : Nat) (f : List κ → List κ) : NamedSets ν κ :=
  { h with sets := h.sets.modify s f }

theorem get_modify (hs : s < h.sets.length) (t : Nat) :
    (h.modify s f).get t = if s = t then f (h.get t) else h.get t := by
  rw [get,modify,List.getD_eq_getElem?_getD,List.getElem?_modify,get,List.getD_eq_getElem?_getD]
  split
  · rename_i heq
    rw [← heq,List.getElem?_eq_getElem hs]
    rfl
  · rw [id_map']

theorem Sound.modify (hs : h.Sound) (hlt : s < h.sets.length) (hf : (f (h.get s)).Nodup) :
    (h.modify s f).Sound where
  known n t hn := by
    rw [NamedSets.modify,List.length_modify]
    exact hs.known n t hn
  apart := hs.apart
  nodup t := by
    rw [get_modify f hlt]
    split
    · rename_i heq
      rwa [← heq]
    · exact hs.nodup t

theorem Sound.has_modify (hs : h.Sound) (hn : h.byName n = some s) (m : ν) (c : κ) :
    (h.modify s f).Has m c ↔ m = n ∧ c ∈ f (h.get s) ∨ m ≠ n ∧ h.Has m c := by
  have hget := get_modify f (hs.known n s hn)
  rcases eq_or_ne m n with rfl | hne
  · have hm : (h.modify s f).Has m c ↔ c ∈ (h.modify s f).get s :=
      has_of_byName (h := h.modify s f) hn
    rw [hm,hget,if_pos rfl]
    simp
  · simp only [hne,false_and,ne_eq,not_false_eq_true,true_and,false_or]
    refine exists_congr fun t => and_congr_right fun hm => ?_
    rw [hget,if_neg]
    rintro rfl
    exact hne (hs.apart m n s hm hn)

theorem Found.modify (hf : h.Found m t) (hn : h.byName n = some s) (hlt : s < h.sets.length) :
    (h.modify s f).Found m t := by
  refine ⟨by rw [NamedSets.modify,List.length_modify]; exact hf.1,hf.2.imp_right ?_⟩
  rintro ⟨hempty,hnone⟩
  refine ⟨?_,hnone⟩
  rw [get_modify f hlt,if_neg,hempty]
  rintro rfl
  exact hnone n hn

end Modify

variable [DecidableEq ν]

section Link

def link (h : NamedSets ν κ) (n : ν) : NamedSets ν κ :=
  ⟨Function.update h.byName n (some h.sets.length),h.sets ++ [[]]⟩

theorem get_link (h : NamedSets ν κ) (n : ν) (s : Nat) : (h.link n).get s = h.get s := by
  simp only [get,link,List.getD_eq_getElem?_getD]
  rcases Nat.lt_trichotomy s h.sets.length with hlt | rfl | hgt
  · rw [List.getElem?_append_left hlt]
  · simp
  · rw [List.getElem?_eq_none (Nat.le_of_lt hgt),List.getElem?_eq_none
      (by rw [List.length_append]; exact hgt)]

theorem byName_link (h : NamedSets ν κ) (n m : ν) :
    (h.link n).byName m = if m = n then some h.sets.length else h.byName m :=
  Function.update_apply ..

theorem Sound.link (hs : h.Sound) (n : ν) : (h.link n).Sound where
  known m s hm := by
    rw [byName_link] at hm
    rw [NamedSets.link,List.length_append]
    split at hm
    · cases hm
      exact Nat.lt_succ_self _
    · exact Nat.lt_succ_of_lt (hs.known m s hm)
  apart m m' s hm hm' := by
    rw [byName_link] at hm hm'
    split at hm <;> split at hm'
    · rename_i heq heq'
      rw [heq,heq']
    · cases hm
      exact absurd rfl (hs.ne_length hm')
    · cases hm'
      exact absurd rfl (hs.ne_length hm)
    · exact hs.apart m m' s hm hm'
  nodup s := by
    rw [get_link]
    exact hs.nodup s

theorem has_link (hn : h.byName n = none) (m : ν) (c : κ) : (h.link n).Has m c ↔ h.Has m c := by
  rcases eq_or_ne m n with rfl | hne
  · simp [Has,byName_link,hn,get_link,get_length]
  · simp [Has,byName_link,hne,get_link]

theorem Found.link (hf : h.Found m s) (hn : h.byName n = none) : (h.link n).Found m s := by
  refine ⟨?_,?_⟩
  · rw [NamedSets.link,List.length_append]
    exact Nat.lt_succ_of_lt hf.1
  · rcases hf.2 with hm | ⟨hempty,hnone⟩
    · refine .inl ?_
      rw [byName_link,if_neg,hm]
      rintro rfl
      rw [hn] at hm
      cases hm
    · refine .inr ⟨by rw [get_link,hempty],fun m' => ?_⟩
      rw [byName_link]
      split
      · rintro ⟨⟩
        exact absurd hf.1 (Nat.lt_irrefl _)
      · exact hnone m'

end Link

section Unlink

def unlink (h : NamedSets ν κ) (n : ν) : NamedSets ν κ :=
  { h with byName := Function.update h.byName n none }

theorem byName_unlink (h : NamedSets ν κ) (n m : ν) :
    (h.unlink n).byName m = if m = n then none else h.byName m :=
  Function.update_apply ..

theorem byName_of_unlink (hm : (h.unlink n).byName m = some s) : h.byName m = some s := by
  rw [byName_unlink] at hm
  split at hm
  · cases hm
  · exact hm

theorem Sound.unlink (hs : h.Sound) (n : ν) : (h.unlink n).Sound where
  known m s hm := hs.known m s (byName_of_unlink hm)
  apart m m' s hm hm' := hs.apart m m' s (byName_of_unlink hm) (byName_of_unlink hm')
  nodup := hs.nodup

theorem has_unlink {h : NamedSets ν κ} (hn : h.byName n = some s)
    (hempty : h.get s = []) (m : ν) (c : κ) :
    (h.unlink n).Has m c ↔ h.Has m c := by
  rcases eq_or_ne m n with rfl | hne
  · rw [has_of_byName hn,hempty]
    simp [Has,byName_unlink]
  · simp only [Has,byName_unlink,if_neg hne]
    rfl

theorem Found.unlink (hf : h.Found m t) (hs : h.Sound) (hn : h.byName n = some s)
    (hempty : h.get s = []) :
    (h.unlink n).Found m t := by
  refine ⟨hf.1,?_⟩
  rcases hf.2 with hm | ⟨hget,hnone⟩
  · rcases eq_or_ne m n with rfl | hne
    · rw [hn] at hm
      cases hm
      refine .inr ⟨hempty,fun m' hm' => ?_⟩
      rw [byName_unlink] at hm'
      split at hm'
      · cases hm'
      · rename_i hne
        exact hne (hs.apart m' m s hm' hn)
    · exact .inl (by rw [byName_unlink,if_neg hne,hm])
  · exact .inr ⟨hget,fun m' hm' => hnone m' (byName_of_unlink hm')⟩

end Unlink

section Operations
variable [DecidableEq κ]

def add (h : NamedSets ν κ) (n : ν) (c : κ) : NamedSets ν κ :=
  match h.byName n with
  | some s => h.modify s (·.insert c)
  | none => (h.link n).modify h.sets.length (·.insert c)

def drop (h : NamedSets ν κ) (n : ν) (c : κ) : NamedSets ν κ :=
  match h.byName n with
  | some s =>
    if (h.modify s (·.erase c)).get s = [] then (h.modify s (·.erase c)).unlink n
    else h.modify s (·.erase c)
  | none => h

theorem drop_of_none (hn : h.byName n = none) (c : κ) : h.drop n c = h := by
  rw [drop,hn]

theorem drop_of_some (hn : h.byName n = some s) (c : κ) : h.drop n c =
    if (h.modify s (·.erase c)).get s = [] then (h.modify s (·.erase c)).unlink n
    else h.modify s (·.erase c) := by
  simp only [drop,hn]

theorem Sound.add (hs : h.Sound) (n : ν) (c : κ) : (h.add n c).Sound := by
  unfold NamedSets.add
  split
  · rename_i s hn
    exact hs.modify _ (hs.known n s hn) (hs.nodup s).insert
  · refine (hs.link n).modify _ ((hs.link n).known n _ (by rw [byName_link,if_pos rfl])) ?_
    exact ((hs.link n).nodup _).insert

theorem Sound.has_add (hs : h.Sound) (n : ν) (c : κ) (m : ν) (d : κ) :
    (h.add n c).Has m d ↔ m = n ∧ d = c ∨ h.Has m d := by
  unfold NamedSets.add
  split
  · rename_i s hn
    rw [hs.has_modify _ hn,List.mem_insert_iff]
    rcases eq_or_ne m n with rfl | hne
    · simp [has_of_byName hn]
    · simp [hne]
  · rename_i hn
    rw [(hs.link n).has_modify _ (by rw [byName_link,if_pos rfl]),List.mem_insert_iff,
      has_link hn,get_link,
      get_length]
    rcases eq_or_ne m n with rfl | hne
    · simp [Has,hn]
    · simp [hne]

theorem Found.add (hf : h.Found m s) (hs : h.Sound) (n : ν) (c : κ) : (h.add n c).Found m s := by
  unfold NamedSets.add
  split
  · rename_i s hn
    exact hf.modify _ hn (hs.known n s hn)
  · rename_i hn
    have hlink : (h.link n).byName n = some h.sets.length := by rw [byName_link,if_pos rfl]
    exact (hf.link hn).modify _ hlink ((hs.link n).known n _ hlink)

theorem Sound.drop (hs : h.Sound) (n : ν) (c : κ) : (h.drop n c).Sound := by
  cases hn : h.byName n with
  | some s =>
    rw [drop_of_some hn]
    have hmodify := hs.modify (·.erase c) (hs.known n s hn) ((hs.nodup s).erase c)
    split
    · exact hmodify.unlink n
    · exact hmodify
  | none => rwa [drop_of_none hn]

theorem Sound.has_drop (hs : h.Sound) (n : ν) (c : κ) (m : ν) (d : κ) :
    (h.drop n c).Has m d ↔ h.Has m d ∧ ¬ (m = n ∧ d = c) := by
  cases hn : h.byName n with
  | some s =>
    rw [drop_of_some hn]
    have hmodify : (h.modify s (·.erase c)).Has m d ↔ h.Has m d ∧ ¬ (m = n ∧ d = c) := by
      rw [hs.has_modify _ hn,(hs.nodup s).mem_erase_iff]
      rcases eq_or_ne m n with rfl | hne
      · simp [has_of_byName hn,and_comm]
      · simp [hne]
    split
    · rename_i hempty
      rw [has_unlink (h := h.modify s (·.erase c)) hn hempty,hmodify]
    · exact hmodify
  | none =>
    rw [drop_of_none hn]
    refine ⟨fun hm => ⟨hm,?_⟩,And.left⟩
    rintro ⟨rfl,-⟩
    obtain ⟨s,hm,-⟩ := hm
    rw [hn] at hm
    cases hm

theorem Found.drop (hf : h.Found m t) (hs : h.Sound) (n : ν) (c : κ) : (h.drop n c).Found m t := by
  cases hn : h.byName n with
  | some s =>
    rw [drop_of_some hn]
    have hlt := hs.known n s hn
    have hmodify := hf.modify (·.erase c) hn hlt
    split
    · rename_i hempty
      exact hmodify.unlink (hs.modify _ hlt ((hs.nodup s).erase c)) hn hempty
    · exact hmodify
  | none => rwa [drop_of_none hn]

theorem byName_add (hn : h.byName n = some s) (m : ν) (c : κ) : (h.add m c).byName n = some s := by
  unfold NamedSets.add
  split
  · exact hn
  · rename_i hm
    change (h.link m).byName n = some s
    rw [byName_link,if_neg,hn]
    rintro rfl
    rw [hm] at hn
    cases hn

theorem byName_of_drop (hn : (h.drop m c).byName n = some s) : h.byName n = some s := by
  cases hm : h.byName m with
  | some t =>
    rw [drop_of_some hm] at hn
    split at hn
    · exact byName_of_unlink hn
    · exact hn
  | none => rwa [drop_of_none hm] at hn

end Operations

end NamedSets

end Imy.Lib
