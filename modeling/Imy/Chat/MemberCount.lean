import Imy.Lib.Lists
import Imy.Chat.CollatedRuns
import Imy.Chat.Roster
set_option autoImplicit false

namespace Imy.Chat
open Imy.Lib

/-- The member count of every conversation is the number of its live rows. -/
def Database.CountsRight (db : Database) : Prop :=
  ∀ conv ∈ db.conversations, conv.memberCount.toNat =
    (db.live.filter fun m => m.conversationID = conv.id).length

/-- The user has a row in the conversation, deleted or not. -/
def Database.HasRow (db : Database) (c : Nat) (u : String) : Prop :=
  ∃ m ∈ db.members, m.conversationID = c ∧ m.userUUID = u

/-- When a private conversation is there already, its two users are members, or exactly
one of them has no row. -/
def Operation.KeepsCount (db : Database) : Operation → Prop
  | .createPrivateConversation req =>
    req.uuid = "" ∨ req.peerUUID = "" ∨ req.uuid = req.peerUUID ∨
      ∀ conv, db.conversations.find? (fun conv =>
          conv.privateKey = privateKeyOf req.uuid req.peerUUID) = some conv →
        (db.IsMember conv.id req.uuid ∧ db.IsMember conv.id req.peerUUID) ∨
          (db.HasRow conv.id req.uuid ↔ ¬ db.HasRow conv.id req.peerUUID)
  | _ => True

def Roster.Right (r : Roster) : Prop :=
  ∀ room ∈ r.rooms, room.memberCount.toNat = (r.sitting room.id).length

theorem right_roster {db : Database} : db.roster.Right ↔ db.CountsRight := by
  simp only [Roster.Right,Database.CountsRight,Database.roster,List.forall_mem_map]
  refine forall₂_congr fun conv _ => ?_
  rw [← List.length_map (fun m : ChatConversationMember => m.userUUID),← sitting_roster]
  rfl

section Right
variable {r : Roster} {c : Nat} {u : String} {us : List String} {n : UInt32}

theorem Roster.Right.setCount (hother : ∀ room ∈ r.rooms, room.id ≠ c →
      room.memberCount.toNat = (r.sitting room.id).length)
    (hn : n.toNat = (r.sitting c).length) : (r.setCount c n).Right := by
  intro room hroom
  obtain ⟨old,hold,rfl⟩ := List.mem_map.mp hroom
  by_cases hid : old.id = c
  · rw [if_pos hid]
    exact hid ▸ hn
  · rw [if_neg hid]
    exact hother old hold hid

theorem Roster.Right.of_setCount (h : (r.setCount c n).Right) {room : Room} (hroom : room ∈ r.rooms)
    (hid : room.id = c) : n.toNat = (r.sitting c).length := by
  have hset := h _ (List.mem_map_of_mem hroom)
  rw [if_pos hid] at hset
  exact hid ▸ hset

theorem Roster.Right.enter_other (h : r.Right) {room : Room} (hroom : room ∈ r.rooms)
    (hid : room.id ≠ c) : room.memberCount.toNat = ((r.enter c us).sitting room.id).length := by
  rw [Roster.sitting,Roster.enter,Seat.sitting_enter_other hid]
  exact h room hroom

theorem Roster.length_sitting_enter :
    ((r.enter c us).sitting c).length = (r.sitting c).length+us.length := by
  rw [Roster.sitting,Roster.enter,Seat.sitting_enter,List.length_append]
  rfl

theorem Roster.length_sitting_le : (r.sitting c).length ≤ r.seats.length := Seat.length_sitting_le

theorem Roster.Right.enter_setCount (h : r.Right) (hn : n.toNat = (r.sitting c).length+us.length) :
    ((r.enter c us).setCount c n).Right :=
  Roster.Right.setCount (fun _ hroom hid => h.enter_other hroom hid)
    (by rw [Roster.length_sitting_enter,hn])

theorem Roster.length_enter_lt (h : (r.enter c us).seats.length < 2^32) :
    (r.sitting c).length+us.length < 2^32 := by
  rw [← Roster.length_sitting_enter]
  exact Roster.length_sitting_le.trans_lt h

theorem Roster.Right.addMembers (h : r.Right) (req : AddMembersReq)
    (hseats : (req.onRoster r).seats.length < 2^32) : (req.onRoster r).Right := by
  simp only [AddMembersReq.onRoster] at hseats ⊢
  split_ifs at hseats ⊢ with hinvalid hcaller hadd
  · exact h
  · exact h.enter_setCount (UInt32.toNat_ofNat_of_lt' (Roster.length_enter_lt hseats))
  · exact h
  · exact h

theorem Roster.Right.removeMember (h : r.Right) (hvalid : r.Valid) (req : RemoveMemberReq) :
    (req.onRoster r).Right := by
  rw [RemoveMemberReq.onRoster]
  split_ifs with hinvalid hstranger
  · exact h
  · exact h
  have hmember : req.removeUUID ∈ r.sitting req.conversationId := by
    by_contra hno
    exact hstranger (Or.inr hno)
  have hother : ∀ room ∈ r.rooms, room.id ≠ req.conversationId → room.memberCount.toNat =
      ((r.leave req.conversationId req.removeUUID).sitting room.id).length := by
    intro room hroom hid
    rw [Roster.sitting,Roster.leave,Seat.sitting_leave_other hid]
    exact h room hroom
  have hless : ((r.leave req.conversationId req.removeUUID).sitting req.conversationId).length+1 =
      (r.sitting req.conversationId).length := Seat.length_sitting_leave hvalid.keys hmember
  cases hfind : r.rooms.find? fun room => room.id = req.conversationId with
  | none =>
    intro room hroom
    refine hother room hroom fun hid => ?_
    exact List.find?_eq_none.mp hfind room hroom (by simpa using hid)
  | some room =>
    have hid : room.id = req.conversationId := by simpa using List.find?_some hfind
    have hcount := h room (List.mem_of_find?_eq_some hfind)
    rw [hid] at hcount
    have hpos : 0 < room.memberCount := by
      rw [UInt32.lt_iff_toNat_lt,hcount,← hless]
      exact Nat.succ_pos _
    simp only [if_pos hpos]
    refine Roster.Right.setCount hother ?_
    have hone : (1 : UInt32) ≤ room.memberCount := by
      rw [UInt32.le_iff_toNat_le,hcount,← hless]
      exact Nat.succ_le_succ (Nat.zero_le _)
    rw [UInt32.toNat_sub_of_le _ _ hone,hcount,← hless]
    rfl

theorem Roster.Right.openRoom (h : r.Right) (hvalid : r.Valid) (type : Int8) (key : String)
    (hn : n.toNat = us.length) : ((r.openRoom type key n).enter r.next us).Right := by
  intro room hroom
  rcases List.mem_append.mp hroom with hroom | hroom
  · exact h.enter_other hroom (hvalid.rooms room hroom).ne
  · rw [List.mem_singleton.mp hroom]
    have hempty : r.sitting r.next = [] :=
      List.eq_nil_iff_forall_not_mem.mpr fun u hu => (hvalid.sitting_lt hu).false
    change n.toNat = ((r.enter r.next us).sitting r.next).length
    rw [Roster.length_sitting_enter,hempty,hn,List.length_nil,Nat.zero_add]

theorem Roster.Right.createGroup (h : r.Right) (hvalid : r.Valid) (key : String)
    (req : CreateGroupConversationReq) (hseats : (req.onRoster key r).seats.length < 2^32) :
    (req.onRoster key r).Right := by
  unfold CreateGroupConversationReq.onRoster at hseats ⊢
  split_ifs at hseats ⊢ with hinvalid htaken
  · exact h
  · exact h
  · refine h.openRoom hvalid 2 _ (UInt32.toNat_ofNat_of_lt' ?_)
    exact (Nat.le_add_left _ _).trans_lt (Roster.length_enter_lt hseats)

end Right

section Complete
variable {r : Roster} {room : Room} {u v : String}

def Roster.rowless (r : Roster) (c : Nat) (us : List String) : List String :=
  us.filter fun u => (c,u) ∉ r.seats.map Seat.key

theorem Roster.rowless_new {c : Nat} (h : (c,u) ∉ r.seats.map Seat.key) : r.rowless c [u] = [u] :=
  List.filter_cons_of_pos (by simpa using h)

theorem Roster.rowless_row {c : Nat} (h : (c,u) ∈ r.seats.map Seat.key) : r.rowless c [u] = [] :=
  List.filter_cons_of_neg (by simpa using h)

theorem Roster.rowless_pair (c : Nat) : r.rowless c [u,v] = r.rowless c [u] ++ r.rowless c [v] :=
  List.filter_append [u] [v]

theorem Roster.enter_nil (r : Roster) (c : Nat) : r.enter c [] = r := by
  simp [Roster.enter,Seat.enter]

theorem Roster.enter_enter (c : Nat) (us vs : List String) :
    (r.enter c us).enter c vs = r.enter c (us ++ vs) := by
  simp [Roster.enter,Seat.enter]

theorem Roster.setCount_enter (n : UInt32) (c : Nat) (us : List String) :
    (r.setCount c n).enter c us = (r.enter c us).setCount c n := rfl

theorem Roster.setCount_setCount (n n' : UInt32) (c : Nat) :
    (r.setCount c n).setCount c n' = r.setCount c n' := by
  simp only [Roster.setCount,List.map_map]
  congr 1
  refine List.map_congr_left fun room _ => ?_
  simp only [Function.comp_apply]
  split <;> simp_all

theorem Roster.complete_eq (hvalid : r.Valid) : r.complete room u =
    if u ∈ r.sitting room.id then r
    else (r.enter room.id (r.rowless room.id [u])).setCount room.id (room.memberCount+1) := by
  rw [Roster.complete]
  split_ifs with hsits hfree
  · rfl
  · have hnew := (Seat.free_singleton hvalid.keys).mp hfree
    rw [Roster.rowless_new hnew]
  · have hrow : (room.id,u) ∈ r.seats.map Seat.key := by
      by_contra hnew
      exact hfree ((Seat.free_singleton hvalid.keys).mpr hnew)
    rw [Roster.rowless_row hrow,Roster.enter_nil]

/-- Those of the two who have no row get one, and unless both are members the count
goes up by one. -/
theorem Roster.complete_complete (hvalid : r.Valid) (hroom : room.id < r.next) (huv : u ≠ v) :
    (r.complete room u).complete room v =
      if u ∈ r.sitting room.id ∧ v ∈ r.sitting room.id then r
      else (r.enter room.id (r.rowless room.id [u,v])).setCount room.id (room.memberCount+1) := by
  rw [Roster.complete_eq (hvalid.complete hroom),Roster.complete_eq hvalid,Roster.rowless_pair]
  by_cases hu : u ∈ r.sitting room.id
  · rw [if_pos hu,Roster.rowless_row (Seat.key_of_mem_sitting hu),List.nil_append]
    by_cases hv : v ∈ r.sitting room.id
    · rw [if_pos hv,if_pos ⟨hu,hv⟩]
    · rw [if_neg hv,if_neg fun h : _ ∧ _ => hv h.2]
  · rw [if_neg hu,if_neg fun h : _ ∧ _ => hu h.1]
    have hin : ∀ w ∈ r.rowless room.id [u], w ≠ v := by
      intro w hw
      rwa [List.mem_singleton.mp (List.mem_of_mem_filter hw)]
    have hseat : v ∈ ((r.enter room.id (r.rowless room.id [u])).setCount room.id
        (room.memberCount+1)).sitting room.id ↔ v ∈ r.sitting room.id := by
      change v ∈ Seat.sitting (Seat.enter r.seats room.id (r.rowless room.id [u])) room.id ↔ _
      rw [Seat.sitting_enter,List.mem_append]
      exact or_iff_left fun hv => hin v hv rfl
    have hrow : ((r.enter room.id (r.rowless room.id [u])).setCount room.id
        (room.memberCount+1)).rowless room.id [v] = r.rowless room.id [v] := by
      refine List.filter_congr fun w hw => ?_
      obtain rfl := List.mem_singleton.mp hw
      change decide ((room.id,w) ∉ (Seat.enter r.seats room.id (r.rowless room.id [u])).map
        Seat.key) = _
      rw [Seat.keys_enter,decide_eq_decide,List.mem_append]
      refine not_congr (or_iff_left fun hw => ?_)
      obtain ⟨w',hw',heq⟩ := List.mem_map.mp hw
      exact hin w' hw' (Prod.mk.inj heq).2
    by_cases hv : v ∈ r.sitting room.id
    · rw [if_pos (hseat.mpr hv),Roster.rowless_row (Seat.key_of_mem_sitting hv),List.append_nil]
    · rw [if_neg fun h => hv (hseat.mp h),hrow,Roster.setCount_enter,Roster.setCount_setCount,
        Roster.enter_enter]

theorem Roster.length_rowless_pair (c : Nat) : (r.rowless c [u,v]).length = 1 ↔
    ((c,u) ∈ r.seats.map Seat.key ↔ (c,v) ∉ r.seats.map Seat.key) := by
  rw [Roster.rowless_pair,List.length_append]
  by_cases hu : (c,u) ∈ r.seats.map Seat.key <;> by_cases hv : (c,v) ∈ r.seats.map Seat.key
  · simp only [Roster.rowless_row hu,Roster.rowless_row hv,hu,hv]
    simp
  · simp only [Roster.rowless_row hu,Roster.rowless_new hv,hu,hv]
    simp
  · simp only [Roster.rowless_new hu,Roster.rowless_row hv,hu,hv]
    simp
  · simp only [Roster.rowless_new hu,Roster.rowless_new hv,hu,hv]
    simp

theorem Roster.Right.enter_succ (h : r.Right) (hroom : room ∈ r.rooms) {us : List String}
    (hseats : (r.enter room.id us).seats.length < 2^32) :
    ((r.enter room.id us).setCount room.id (room.memberCount+1)).Right ↔ us.length = 1 := by
  have hcount := h room hroom
  have hsum : (room.memberCount+1).toNat = (room.memberCount.toNat+1) % 2^32 :=
    UInt32.toNat_add _ _
  have hlt := Roster.length_enter_lt hseats
  rw [hcount] at hsum
  constructor
  · intro hright
    have hset := hright.of_setCount hroom rfl
    rw [Roster.length_sitting_enter,hsum] at hset
    omega
  · intro hone
    refine h.enter_setCount ?_
    rw [hsum,hone,Nat.mod_eq_of_lt]
    omega

theorem Roster.Right.createPrivate (h : r.Right) (hvalid : r.Valid)
    (req : CreatePrivateConversationReq) (hseats : (req.onRoster r).seats.length < 2^32) :
    (req.onRoster r).Right ↔ req.uuid = "" ∨ req.peerUUID = "" ∨ req.uuid = req.peerUUID ∨
      ∀ room, r.rooms.find? (fun room =>
          room.privateKey = privateKeyOf req.uuid req.peerUUID) = some room →
        (req.uuid ∈ r.sitting room.id ∧ req.peerUUID ∈ r.sitting room.id) ∨
          ((room.id,req.uuid) ∈ r.seats.map Seat.key ↔
            (room.id,req.peerUUID) ∉ r.seats.map Seat.key) := by
  rw [CreatePrivateConversationReq.onRoster] at hseats ⊢
  by_cases hinvalid : req.uuid = "" ∨ req.peerUUID = "" ∨ req.uuid = req.peerUUID
  · rw [if_pos hinvalid]
    refine iff_of_true h ?_
    rcases hinvalid with h₁ | h₁ | h₁
    · exact Or.inl h₁
    · exact Or.inr (Or.inl h₁)
    · exact Or.inr (Or.inr (Or.inl h₁))
  rw [if_neg hinvalid] at hseats ⊢
  have hrest : ∀ P : Prop, (req.uuid = "" ∨ req.peerUUID = "" ∨ req.uuid = req.peerUUID ∨ P) ↔
      P := by
    intro P
    tauto
  rw [hrest]
  cases hfind : r.rooms.find? fun room =>
      room.privateKey = privateKeyOf req.uuid req.peerUUID with
  | none => exact iff_of_true (h.openRoom hvalid 1 _ rfl) (by simp)
  | some room =>
    have hroom := List.mem_of_find?_eq_some hfind
    have huv : req.uuid ≠ req.peerUUID := fun heq => hinvalid (Or.inr (Or.inr heq))
    rw [hfind] at hseats
    simp only [Roster.complete_complete hvalid (hvalid.rooms room hroom) huv,
      Option.some.injEq,forall_eq'] at hseats ⊢
    split_ifs at hseats ⊢ with hboth
    · exact iff_of_true h (Or.inl hboth)
    · rw [h.enter_succ hroom hseats,Roster.length_rowless_pair]
      exact (or_iff_right hboth).symm

end Complete

section Run
variable {out : Outer} {db : Database} {c : Nat} {u : String}

theorem hasRow_roster : (c,u) ∈ db.roster.seats.map Seat.key ↔ db.HasRow c u := by
  rw [keys_roster,List.mem_map]
  simp [Database.HasRow]

theorem countsRight_apply (h : Kept db) (hright : db.CountsRight) (op : Operation)
    (hrows : (op.apply out db).members.length < 2^32) :
    (op.apply out db).CountsRight ↔ op.KeepsCount db := by
  have happly := roster_apply out h.keyed h.roster op
  have hseats : (op.onRoster (out.uuid db.tick) db.roster).seats.length < 2^32 := by
    rw [← happly,Database.roster,List.length_map]
    exact hrows
  rw [← right_roster,happly]
  rw [← right_roster] at hright
  cases op with
  | createGroupConversation req =>
    exact iff_of_true (hright.createGroup h.roster _ req hseats) trivial
  | createPrivateConversation req =>
    refine (hright.createPrivate h.roster req hseats).trans ?_
    simp only [find_room,Option.map_eq_some_iff,forall_exists_index,and_imp,
      forall_apply_eq_imp_iff₂,
      mem_sitting_roster,hasRow_roster]
    exact Iff.rfl
  | addMembers req => exact iff_of_true (hright.addMembers req hseats) trivial
  | removeMember req => exact iff_of_true (hright.removeMember h.roster req) trivial
  | _ => exact iff_of_true hright trivial

theorem later_runOperations (out : Outer) (db : Database) (ops : List Operation) :
    Later db (runOperations out db ops) := by
  induction ops using List.reverseRecOn with
  | nil => exact Later.refl db
  | append_singleton ops op ih =>
    rw [runOperations_concat]
    exact ih.trans (final_of_wp (wp_later _ _))

theorem countsRight_iff_of_exact (out : Outer) (ops : List Operation)
    (hrows : (runOperations out emptyDatabase ops).members.length < 2^32) :
    (∀ before after, ops = before ++ after →
      (runOperations out emptyDatabase before).CountsRight) ↔
    ∀ before op after, ops = before ++ op :: after →
      op.KeepsCount (runOperations out emptyDatabase before) := by
  refine beginnings_iff (P := fun before => (runOperations out emptyDatabase before).CountsRight)
    (by simp [runOperations,emptyDatabase,Database.CountsRight]) ?_
  intro before op after hsplit hright
  rw [runOperations_concat]
  refine countsRight_apply (kept_empty.run out before) hright op (lt_of_le_of_lt ?_ hrows)
  have hend : runOperations out emptyDatabase ops =
      runOperations out (op.apply out (runOperations out emptyDatabase before)) after := by
    rw [hsplit,runOperations,List.foldl_append]
    rfl
  rw [hend]
  exact (later_runOperations out _ after).members.length_le

/-- In a run whose strings the collation tells apart, the count of every conversation is right
after every call exactly if every call meets the condition. There are fewer than 2^32 rows:
their IDs are 32-bit numbers. -/
theorem memberCount_right_iff (fold : String → String) (out : Outer) (ops : List Operation)
    (happart : ToldApart fold (Occurs out ops))
    (hrows : (runOperationsIn fold out emptyDatabase ops).members.length < 2^32) :
    (∀ before after, ops = before ++ after →
      (runOperationsIn fold out emptyDatabase before).CountsRight) ↔
    ∀ before op after, ops = before ++ op :: after →
      op.KeepsCount (runOperationsIn fold out emptyDatabase before) := by
  have hsame : ∀ before after, ops = before ++ after →
      runOperationsIn fold out emptyDatabase before = runOperations out emptyDatabase before := by
    rintro before after rfl
    exact (runOperationsIn_eq happart (List.subset_append_left before after)).1
  rw [hsame ops [] (List.append_nil ops).symm] at hrows
  have hexact := countsRight_iff_of_exact out ops hrows
  constructor
  · intro hright before op after hsplit
    rw [hsame before (op :: after) hsplit]
    refine hexact.mp (fun before' after' hsplit' => ?_) before op after hsplit
    exact hsame before' after' hsplit' ▸ hright before' after' hsplit'
  · intro hkeeps before after hsplit
    rw [hsame before after hsplit]
    refine hexact.mpr (fun before' op after' hsplit' => ?_) before after hsplit
    exact hsame before' (op :: after') hsplit' ▸ hkeeps before' op after' hsplit'

end Run

/-- A group with somebody added. -/
theorem memberCount_right_iff_group :
    (runOperationsIn ignoringCase countingOuter emptyDatabase [newGroup,addB]).CountsRight := by
  have hlower : ∀ s, Occurs countingOuter [newGroup,addB] s → ignoringCase s = s := by
    rintro s (⟨op,hop,hs⟩ | ⟨n,rfl⟩)
    · simp only [List.mem_cons,List.not_mem_nil,or_false] at hop
      rcases hop with rfl | rfl <;>
        simp only [newGroup,addB,Operation.strings,List.mem_cons,List.not_mem_nil,or_false] at hs
      · subst hs
        decide
      · rcases hs with rfl | rfl <;> decide
    · exact (by decide : ignoringCase ("g:" ++ "") = "g:" ++ "")
  have happart : ToldApart ignoringCase (Occurs countingOuter [newGroup,addB]) := by
    intro s t hs ht heq
    rwa [hlower s hs,hlower t ht] at heq
  refine (memberCount_right_iff ignoringCase countingOuter [newGroup,addB] happart
    (by decide)).mpr ?_ _ []
    (List.append_nil _).symm
  intro before op after hsplit
  have hop : op ∈ [newGroup,addB] := by
    rw [hsplit]
    exact List.mem_append_right _ List.mem_cons_self
  simp only [List.mem_cons,List.not_mem_nil,or_false] at hop
  rcases hop with rfl | rfl <;> exact trivial

def newPair : Operation := .createPrivateConversation ⟨"a","b"⟩

/-- "b" was removed and is asked for again: one live row, and a count of two. -/
theorem memberCount_wrong_after_removal :
    ¬ (runOperationsIn id countingOuter emptyDatabase
      [newPair,.removeMember ⟨"a",1,"b"⟩,newPair]).CountsRight := by
  unfold Database.CountsRight
  decide

/-- Two users who are one to the database: no row, and a count of two. -/
example : ¬ (runOperationsIn ignoringCase countingOuter emptyDatabase
    [.createPrivateConversation ⟨"a","A"⟩]).CountsRight := by
  unfold Database.CountsRight
  decide

end Imy.Chat
