import Imy.Friends.Friendship
set_option autoImplicit false

namespace Imy.Friends
open Imy.Lib
open Imy.Auth (User)

def FriendVerify.Joins (a b : String) (v : FriendVerify) : Prop := v.Goes a b ∨ v.Goes b a

def ValidFriendReq.decision (req : ValidFriendReq) : Option Int8 :=
  if req.status = 1 then some 2 else if req.status = 2 then some 3 else none

/-- The receiver decides again, and not as before. -/
def FriendCall.Reverses (db : FriendTables) : FriendCall → Prop
  | .addFriend _ => False
  | .validFriend req => ∃ v status, req.record db = some v ∧ req.decision = some status ∧
      v.revStatus ≠ 1 ∧ v.revStatus ≠ status

structure Mirrored (db : FriendTables) : Prop where
  ids : db.verifies.Pairwise fun v w => v.id < w.id
  next : ∀ v ∈ db.verifies, v.id < db.nextVerify
  named : ∀ v ∈ db.verifies, v.sendUUID ≠ "" ∧ v.revUUID ≠ ""
  accepted : ∀ v ∈ db.verifies, v.revStatus = 2 → ∃ f ∈ db.friends, f.Goes v.sendUUID v.revUUID
  decided : ∀ f ∈ db.friends, ∃ v ∈ db.verifies, v.Goes f.sendUUID f.revUUID ∧ v.revStatus = 2

def Stands (db db' : FriendTables) : Prop :=
  ∀ v ∈ db.verifies, ∃ w ∈ db'.verifies, w.id = v.id ∧ (v.revStatus ≠ 1 → w.revStatus = v.revStatus)

section Step
variable {db db' db'' : FriendTables} {req : ValidFriendReq} {v : FriendVerify} {status : Int8}

theorem Stands.refl (db : FriendTables) : Stands db db := fun v hv => ⟨v,hv,rfl,fun _ => rfl⟩

theorem Stands.trans (h : Stands db db') (h' : Stands db' db'') : Stands db db'' := by
  intro v hv
  obtain ⟨w,hw,hid,hsame⟩ := h v hv
  obtain ⟨x,hx,hid',hsame'⟩ := h' w hw
  refine ⟨x,hx,hid'.trans hid,fun hdecided => ?_⟩
  rw [hsame' (by rw [hsame hdecided]; exact hdecided),hsame hdecided]

theorem record_mem (h : req.record db = some v) : v ∈ db.verifies := by
  unfold ValidFriendReq.record at h
  split at h
  · cases h
  · exact List.mem_of_find?_eq_some (Option.filter_eq_some_iff.mp h).1

theorem mem_setRevStatus {w : FriendVerify} (hw : w ∈ (db.setRevStatus v.id status).verifies) :
    ∃ old ∈ db.verifies, w = old.decided v.id status :=
  (List.mem_map.mp hw).imp fun _ h => ⟨h.1,h.2.symm⟩

@[simp] theorem decided_id (old : FriendVerify) (id : Nat) :
    (old.decided id status).id = old.id := by
  unfold FriendVerify.decided
  split <;> rfl

@[simp] theorem decided_sendUUID (old : FriendVerify) (id : Nat) :
    (old.decided id status).sendUUID = old.sendUUID := by
  unfold FriendVerify.decided
  split <;> rfl

@[simp] theorem decided_revUUID (old : FriendVerify) (id : Nat) :
    (old.decided id status).revUUID = old.revUUID := by
  unfold FriendVerify.decided
  split <;> rfl

theorem decided_revStatus (old : FriendVerify) (id : Nat) : (old.decided id status).revStatus =
    if old.id = id then status else old.revStatus := by
  unfold FriendVerify.decided
  split <;> rfl

theorem Mirrored.stands_setRevStatus (h : Mirrored db) (hv : v ∈ db.verifies)
    (hsame : v.revStatus ≠ 1 → v.revStatus = status) : Stands db (db.setRevStatus v.id status) := by
  intro w hw
  refine ⟨w.decided v.id status,List.mem_map_of_mem hw,decided_id w _,fun hdecided => ?_⟩
  rw [decided_revStatus]
  split
  · rename_i hid
    obtain rfl := eq_of_increasing h.ids hw hv hid
    exact (hsame hdecided).symm
  · rfl

theorem Mirrored.addVerify (h : Mirrored db) {req : AddFriendReq} (hopens : req.Opens db) :
    Mirrored (db.addVerify (requestOf req)) := by
  refine ⟨?_,?_,?_,?_,?_⟩
  · refine List.pairwise_append.mpr ⟨h.ids,List.pairwise_singleton _ _,fun v hv w hw => ?_⟩
    rw [List.mem_singleton.mp hw]
    exact h.next v hv
  · intro v hv
    rcases List.mem_append.mp hv with hv | hv
    · exact (h.next v hv).trans (Nat.lt_succ_self _)
    · rw [List.mem_singleton.mp hv]
      exact Nat.lt_succ_self _
  · intro v hv
    rcases List.mem_append.mp hv with hv | hv
    · exact h.named v hv
    · rw [List.mem_singleton.mp hv]
      exact ⟨hopens.1,hopens.2.1⟩
  · intro v hv haccepted
    rcases List.mem_append.mp hv with hv | hv
    · exact h.accepted v hv haccepted
    · rw [List.mem_singleton.mp hv] at haccepted
      cases haccepted
  · intro f hf
    obtain ⟨v,hv,hgoes⟩ := h.decided f hf
    exact ⟨v,List.mem_append_left _ hv,hgoes⟩

theorem Mirrored.setRevStatus (h : Mirrored db) (hverifies : db'.verifies = db.verifies)
    (hnext : db'.nextVerify = db.nextVerify)
    (haccepted : ∀ w ∈ (db'.setRevStatus v.id status).verifies, w.revStatus = 2 →
      ∃ f ∈ db'.friends, f.Goes w.sendUUID w.revUUID)
    (hdecided : ∀ f ∈ db'.friends, ∃ w ∈ (db'.setRevStatus v.id status).verifies,
      w.Goes f.sendUUID f.revUUID ∧ w.revStatus = 2) : Mirrored (db'.setRevStatus v.id status) := by
  refine ⟨?_,?_,?_,haccepted,hdecided⟩
  · change (db'.verifies.map _).Pairwise _
    rw [hverifies,List.pairwise_map]
    exact h.ids.imp fun hlt => by simpa using hlt
  · intro w hw
    obtain ⟨old,hold,rfl⟩ := mem_setRevStatus hw
    rw [hverifies] at hold
    rw [decided_id]
    exact (h.next old hold).trans_eq hnext.symm
  · intro w hw
    obtain ⟨old,hold,rfl⟩ := mem_setRevStatus hw
    rw [hverifies] at hold
    simpa using h.named old hold

theorem Mirrored.reject (h : Mirrored db) (hv : v ∈ db.verifies) (hopen : v.revStatus ≠ 2) :
    Mirrored (db.setRevStatus v.id 3) := by
  refine h.setRevStatus rfl rfl (fun w hw haccepted => ?_) fun f hf => ?_
  · obtain ⟨old,hold,rfl⟩ := mem_setRevStatus hw
    rw [decided_revStatus] at haccepted
    split at haccepted
    · cases haccepted
    · simpa using h.accepted old hold haccepted
  · obtain ⟨w,hw,hgoes,haccepted⟩ := h.decided f hf
    have hid : w.id ≠ v.id := fun hid => by
      rw [eq_of_increasing h.ids hw hv hid] at haccepted
      exact hopen haccepted
    refine ⟨w.decided v.id 3,List.mem_map_of_mem hw,by simpa [FriendVerify.Goes] using hgoes,?_⟩
    rw [decided_revStatus,if_neg hid]
    exact haccepted

theorem Mirrored.accept (h : Mirrored db) (hv : v ∈ db.verifies) :
    Mirrored ((db.befriend v).setRevStatus v.id 2) := by
  -- the row for `v`, and nothing else that is new
  have hrows : (∃ f ∈ (db.befriend v).friends, f.Goes v.sendUUID v.revUUID) ∧
      (∀ f ∈ db.friends, f ∈ (db.befriend v).friends) ∧
      ∀ f ∈ (db.befriend v).friends, f ∈ db.friends ∨ f.Goes v.sendUUID v.revUUID := by
    by_cases hold : ∃ f ∈ db.friends, f.Goes v.sendUUID v.revUUID
    · rw [befriend_of_some hold]
      exact ⟨hold,fun f hf => hf,fun f hf => Or.inl hf⟩
    · obtain ⟨f,hgoes,hfriends⟩ := befriend_of_none fun f hf hgoes => hold ⟨f,hf,hgoes⟩
      rw [hfriends]
      refine ⟨⟨f,by simp,hgoes⟩,fun g hg => List.mem_append_left _ hg,fun g hg => ?_⟩
      rcases List.mem_append.mp hg with hg | hg
      · exact Or.inl hg
      · rw [List.mem_singleton.mp hg]
        exact Or.inr hgoes
  obtain ⟨⟨row,hrow,hgoes⟩,hkept,honly⟩ := hrows
  refine h.setRevStatus (befriend_verifies v) (befriend_nextVerify v) (fun w hw haccepted => ?_)
    fun f hf => ?_
  · obtain ⟨old,hold,rfl⟩ := mem_setRevStatus hw
    rw [befriend_verifies] at hold
    simp only [decided_sendUUID,decided_revUUID]
    by_cases hid : old.id = v.id
    · rw [eq_of_increasing h.ids hold hv hid]
      exact ⟨row,hrow,hgoes⟩
    · rw [decided_revStatus,if_neg hid] at haccepted
      obtain ⟨f,hf,hgoes⟩ := h.accepted old hold haccepted
      exact ⟨f,hkept f hf,hgoes⟩
  · have hmem : ∀ w ∈ db.verifies, w.decided v.id 2 ∈
        ((db.befriend v).setRevStatus v.id 2).verifies := by
      intro w hw
      refine List.mem_map_of_mem ?_
      rw [befriend_verifies]
      exact hw
    rcases honly f hf with hf | hgoes
    · obtain ⟨w,hw,hgoes,haccepted⟩ := h.decided f hf
      refine ⟨_,hmem w hw,by simpa [FriendVerify.Goes] using hgoes,?_⟩
      rw [decided_revStatus]
      split
      · rfl
      · exact haccepted
    · refine ⟨_,hmem v hv,?_,by rw [decided_revStatus,if_pos rfl]⟩
      simpa [FriendVerify.Goes] using ⟨hgoes.1.symm,hgoes.2.symm⟩

/-- A call that reverses nothing keeps the tables in step. -/
theorem Mirrored.effect (h : Mirrored db) (call : FriendCall) (hcall : ¬ call.Reverses db) :
    Mirrored (call.effect db) ∧ Stands db (call.effect db) := by
  cases call with
  | addFriend req =>
    rw [FriendCall.effect]
    split
    · rename_i hopens
      refine ⟨h.addVerify hopens,fun v hv => ⟨v,List.mem_append_left _ hv,rfl,fun _ => rfl⟩⟩
    · exact ⟨h,Stands.refl db⟩
  | validFriend req =>
    cases hrecord : req.record db with
    | none =>
      simp only [FriendCall.effect,hrecord]
      exact ⟨h,Stands.refl db⟩
    | some v =>
      have hv := record_mem hrecord
      have hsame : ∀ status, req.decision = some status → v.revStatus ≠ 1 →
          v.revStatus = status := by
        intro status hstatus hdecided
        by_contra hother
        exact hcall ⟨v,status,hrecord,hstatus,hdecided,hother⟩
      simp only [FriendCall.effect,hrecord]
      unfold ValidFriendReq.decision at hsame
      split at hsame
      · rename_i haccept
        rw [if_pos haccept]
        refine ⟨h.accept hv,?_⟩
        have hstands := h.stands_setRevStatus hv (hsame 2 rfl)
        unfold Stands FriendTables.setRevStatus at hstands ⊢
        rw [befriend_verifies]
        exact hstands
      · rename_i haccept
        rw [if_neg haccept]
        split at hsame
        · rename_i hreject
          rw [if_pos hreject]
          refine ⟨h.reject hv fun htwo => ?_,h.stands_setRevStatus hv (hsame 3 rfl)⟩
          have hthree := hsame 3 rfl (by rw [htwo]; decide)
          rw [htwo] at hthree
          cases hthree
        · rename_i hreject
          rw [if_neg hreject]
          exact ⟨h,Stands.refl db⟩

end Step

section Runs
variable (fails : Nat → Bool) (users : List User)

theorem Mirrored.apply {s : FriendServer} (h : Mirrored s.tables) {call : FriendCall}
    (hcall : ¬ call.Reverses s.tables) :
    Mirrored (call.apply fails s).tables ∧ Stands s.tables (call.apply fails s).tables := by
  rcases apply_tables fails s call with heq | ⟨_,heq⟩
  · rw [heq]
    exact h.effect call hcall
  · rw [heq]
    exact ⟨h,Stands.refl _⟩

end Runs

end Imy.Friends
