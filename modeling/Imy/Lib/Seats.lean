import Mathlib.Data.List.Nodup
set_option autoImplicit false

/-!
Who sits where. A seat that is given up is only marked, and its place and holder
stay taken: nobody gets the same seat twice.
-/

namespace Imy.Lib

structure Seat (κ υ : Type) where
  place : κ
  holder : υ
  gone : Bool
  deriving DecidableEq, Repr

namespace Seat
variable {κ υ : Type}

def key (s : Seat κ υ) : κ × υ := (s.place,s.holder)

def Free (seats : List (Seat κ υ)) (k : κ) (us : List υ) : Prop :=
  (seats.map key ++ us.map fun u => (k,u)).Nodup

def enter (seats : List (Seat κ υ)) (k : κ) (us : List υ) : List (Seat κ υ) :=
  seats ++ us.map fun u => ⟨k,u,false⟩

section Keys
variable {seats : List (Seat κ υ)} {k : κ} {u : υ} {us : List υ}

theorem keys_enter : (enter seats k us).map key = seats.map key ++ us.map fun u => (k,u) := by
  simp [enter,key,Function.comp_def]

theorem free_singleton (hkeys : (seats.map key).Nodup) :
    Free seats k [u] ↔ (k,u) ∉ seats.map key := by
  rw [Free,List.map_singleton,List.nodup_append]
  constructor
  · rintro ⟨-,-,hne⟩ hin
    exact hne _ hin _ (List.mem_singleton_self _) rfl
  · intro hnot
    refine ⟨hkeys,List.nodup_singleton _,fun key hin key' hin' heq => hnot ?_⟩
    rw [← List.mem_singleton.mp hin',← heq]
    exact hin

theorem free_of_fresh (hkeys : (seats.map key).Nodup) (hus : us.Nodup)
    (hfresh : ∀ u ∈ us, (k,u) ∉ seats.map key) : Free seats k us := by
  refine List.nodup_append.mpr ⟨hkeys,hus.map fun a b hab => (Prod.mk.inj hab).2,?_⟩
  rintro key hin key' hin' rfl
  obtain ⟨u,hu,rfl⟩ := List.mem_map.mp hin'
  exact hfresh u hu hin

theorem free_new (hkeys : (seats.map key).Nodup) (hnew : ∀ s ∈ seats, s.place ≠ k)
    (hus : us.Nodup) : Free seats k us := by
  refine free_of_fresh hkeys hus fun u _ hin => ?_
  obtain ⟨s,hs,hu⟩ := List.mem_map.mp hin
  exact hnew s hs (Prod.mk.inj hu).1

end Keys

section Sitting
variable [DecidableEq κ]

def sitting (seats : List (Seat κ υ)) (k : κ) : List υ :=
  (seats.filter fun s => !s.gone && s.place = k).map holder

variable {seats : List (Seat κ υ)} {k l : κ} {u : υ} {us : List υ}

theorem sitting_cons (s : Seat κ υ) : sitting (s :: seats) k =
    if s.gone = false ∧ s.place = k then s.holder :: sitting seats k else sitting seats k := by
  rw [sitting,List.filter_cons]
  by_cases h : s.gone = false ∧ s.place = k
  · rw [if_pos h,if_pos (by simpa using h)]
    rfl
  · rw [if_neg h,if_neg (by simpa using h)]
    rfl

theorem mem_sitting : u ∈ sitting seats k ↔ ⟨k,u,false⟩ ∈ seats := by
  simp only [sitting,List.mem_map,List.mem_filter,Bool.and_eq_true,Bool.not_eq_true',
    decide_eq_true_eq]
  constructor
  · rintro ⟨⟨place,holder,gone⟩,⟨hs,rfl,rfl⟩,rfl⟩
    exact hs
  · exact fun hs => ⟨_,⟨hs,rfl,rfl⟩,rfl⟩

theorem key_of_mem_sitting (h : u ∈ sitting seats k) : (k,u) ∈ seats.map key :=
  List.mem_map.mpr ⟨_,mem_sitting.mp h,rfl⟩

theorem sitting_enter : sitting (enter seats k us) k = sitting seats k ++ us := by
  simp [sitting,enter,List.filter_append,List.filter_map,Function.comp_def]

theorem sitting_enter_other (h : l ≠ k) : sitting (enter seats k us) l = sitting seats l := by
  simp [sitting,enter,List.filter_append,List.filter_map,Function.comp_def,h.symm]

theorem length_sitting_le : (sitting seats k).length ≤ seats.length := by
  rw [sitting,List.length_map]
  exact List.length_filter_le _ _

end Sitting

section Leave
variable [DecidableEq κ] [DecidableEq υ]

instance (seats : List (Seat κ υ)) (k : κ) (us : List υ) : Decidable (Free seats k us) :=
  inferInstanceAs (Decidable (List.Nodup _))

def leave (seats : List (Seat κ υ)) (k : κ) (u : υ) : List (Seat κ υ) :=
  seats.map fun s => if s.place = k ∧ s.holder = u then { s with gone := true } else s

variable {seats : List (Seat κ υ)} {k l : κ} {u : υ}

theorem leave_cons (s : Seat κ υ) : leave (s :: seats) k u =
    (if s.place = k ∧ s.holder = u then { s with gone := true } else s) :: leave seats k u := rfl

theorem keys_leave : (leave seats k u).map key = seats.map key := by
  rw [leave,List.map_map]
  refine List.map_congr_left fun s _ => ?_
  simp only [Function.comp_apply]
  split <;> rfl

theorem leave_of_not_mem (h : (k,u) ∉ seats.map key) : leave seats k u = seats := by
  refine (List.map_congr_left fun s hs => ?_).trans (List.map_id _)
  refine if_neg fun hkey => h (List.mem_map.mpr ⟨s,hs,?_⟩)
  exact Prod.ext hkey.1 hkey.2

theorem sitting_leave_other (h : l ≠ k) : sitting (leave seats k u) l = sitting seats l := by
  induction seats with
  | nil => rfl
  | cons s seats ih =>
    rw [leave_cons,sitting_cons,sitting_cons,ih]
    by_cases hs : s.place = k ∧ s.holder = u
    · simp [hs,h.symm]
    · rw [if_neg hs]

theorem length_sitting_leave (hkeys : (seats.map key).Nodup) (h : u ∈ sitting seats k) :
    (sitting (leave seats k u) k).length+1 = (sitting seats k).length := by
  induction seats with
  | nil => simp [sitting] at h
  | cons s seats ih =>
    rw [List.map_cons,List.nodup_cons] at hkeys
    rw [leave_cons,sitting_cons,sitting_cons]
    by_cases hs : s.place = k ∧ s.holder = u
    · -- this is the seat, and it is the only one
      have hrest : (k,u) ∉ seats.map key := fun hin => hkeys.1 (by rwa [key,hs.1,hs.2])
      have hhere : s.gone = false := by
        rcases List.mem_cons.mp (mem_sitting.mp h) with heq | hin
        · rw [← heq]
        · exact (hrest (List.mem_map.mpr ⟨_,hin,rfl⟩)).elim
      simp [hs,hhere,leave_of_not_mem hrest]
    · have hin : u ∈ sitting seats k := by
        rcases List.mem_cons.mp (mem_sitting.mp h) with heq | hin
        · exact (hs ⟨by rw [← heq],by rw [← heq]⟩).elim
        · exact mem_sitting.mpr hin
      have hless := ih hkeys.2 hin
      rw [if_neg hs]
      split
      · rw [List.length_cons,List.length_cons,hless]
      · exact hless

end Leave

end Seat

end Imy.Lib
