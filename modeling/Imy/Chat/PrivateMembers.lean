import Imy.Chat.MemberCount
import Imy.Chat.UnreadInvariant
set_option autoImplicit false

namespace Imy.Chat
open Imy.Lib

def Created (out : Outer) (ops : List Operation) (c : Nat) (req : CreatePrivateConversationReq) :
    Prop :=
  ∃ before after, ops = before ++ .createPrivateConversation req :: after ∧
    (∀ conv ∈ (runOperations out emptyDatabase before).conversations, conv.id ≠ c) ∧
    ∃ conv ∈ (runOperations out emptyDatabase
      (before ++ [.createPrivateConversation req])).conversations,
      conv.id = c

section Step
variable {out : Outer} {db : Database} {op : Operation} {c : Nat} {u : String}

theorem isMember_apply (h : Kept db) : (op.apply out db).IsMember c u ↔
    u ∈ (op.onRoster (out.uuid db.tick) db.roster).sitting c := by
  rw [← mem_sitting_roster,roster_apply out h.keyed h.roster]

theorem Roster.sitting_enter {r : Roster} {us : List String} :
    (r.enter c us).sitting c = r.sitting c ++ us := Seat.sitting_enter

theorem Roster.sitting_enter_other {r : Roster} {us : List String} {d : Nat} (h : d ≠ c) :
    (r.enter c us).sitting d = r.sitting d := Seat.sitting_enter_other h

theorem Roster.mem_setCount {r : Roster} {n : UInt32} {room : Room}
    (h : room ∈ (r.setCount c n).rooms) : ∃ old ∈ r.rooms, old.id = room.id := by
  obtain ⟨old,hold,rfl⟩ := List.mem_map.mp h
  refine ⟨old,hold,?_⟩
  split <;> rfl

theorem Roster.mem_complete {r : Roster} {room room' : Room}
    (h : room' ∈ (r.complete room u).rooms) :
    ∃ old ∈ r.rooms, old.id = room'.id := by
  rw [Roster.complete] at h
  split_ifs at h
  · exact ⟨room',h,rfl⟩
  · exact Roster.mem_setCount (r := r.enter room.id [u]) h
  · exact Roster.mem_setCount h

section Rooms
variable {r : Roster} {room : Room}

theorem room_createGroup {req : CreateGroupConversationReq} {key : String}
    (hroom : room ∈ (req.onRoster key r).rooms) :
    (∃ old ∈ r.rooms, old.id = room.id) ∨ room.type = 2 := by
  rw [CreateGroupConversationReq.onRoster] at hroom
  split_ifs at hroom
  · exact Or.inl ⟨room,hroom,rfl⟩
  · exact Or.inl ⟨room,hroom,rfl⟩
  · rcases List.mem_append.mp hroom with hroom | hroom
    · exact Or.inl ⟨room,hroom,rfl⟩
    · exact Or.inr (congrArg Room.type (List.mem_singleton.mp hroom))

theorem room_createPrivate (hvalid : r.Valid) {req : CreatePrivateConversationReq}
    (hroom : room ∈ (req.onRoster r).rooms) : (∃ old ∈ r.rooms, old.id = room.id) ∨
      ∀ u, u ∈ (req.onRoster r).sitting room.id ↔ u = req.uuid ∨ u = req.peerUUID := by
  rw [CreatePrivateConversationReq.onRoster] at hroom ⊢
  split_ifs at hroom ⊢ with hinvalid
  · exact Or.inl ⟨room,hroom,rfl⟩
  cases hfind : r.rooms.find? fun room => room.privateKey = privateKeyOf req.uuid req.peerUUID with
  | none =>
    rw [hfind] at hroom
    rcases List.mem_append.mp hroom with hroom | hroom
    · exact Or.inl ⟨room,hroom,rfl⟩
    · refine Or.inr fun u => ?_
      have hid : room.id = r.next := congrArg Room.id (List.mem_singleton.mp hroom)
      have hempty : r.sitting r.next = [] :=
        List.eq_nil_iff_forall_not_mem.mpr fun u hu => (hvalid.sitting_lt hu).false
      change u ∈ (r.enter r.next [req.uuid,req.peerUUID]).sitting room.id ↔ _
      rw [hid,Roster.sitting_enter,hempty]
      simp
  | some old =>
    rw [hfind] at hroom
    obtain ⟨mid,hmid,hid⟩ := Roster.mem_complete hroom
    obtain ⟨old,hold,hid'⟩ := Roster.mem_complete hmid
    exact Or.inl ⟨old,hold,hid'.trans hid⟩

theorem room_addMembers {req : AddMembersReq} (hroom : room ∈ (req.onRoster r).rooms) :
    ∃ old ∈ r.rooms, old.id = room.id := by
  simp only [AddMembersReq.onRoster] at hroom
  split_ifs at hroom
  · exact ⟨room,hroom,rfl⟩
  · exact Roster.mem_setCount (r := r.enter req.conversationId _) hroom
  · exact ⟨room,hroom,rfl⟩
  · exact ⟨room,hroom,rfl⟩

theorem room_removeMember {req : RemoveMemberReq} (hroom : room ∈ (req.onRoster r).rooms) :
    ∃ old ∈ r.rooms, old.id = room.id := by
  rw [RemoveMemberReq.onRoster] at hroom
  split_ifs at hroom
  · exact ⟨room,hroom,rfl⟩
  · exact ⟨room,hroom,rfl⟩
  split at hroom
  · exact ⟨room,hroom,rfl⟩
  · split at hroom
    · exact Roster.mem_setCount (r := r.leave req.conversationId req.removeUUID) hroom
    · exact ⟨room,hroom,rfl⟩

end Rooms

theorem new_private (h : Kept db) {conv : ChatConversation}
    (hconv : conv ∈ (op.apply out db).conversations) (htype : conv.type = 1)
    (hnew : ∀ old ∈ db.conversations, old.id ≠ conv.id) :
    ∃ req, op = .createPrivateConversation req ∧
      ∀ u, (op.apply out db).IsMember conv.id u ↔ u = req.uuid ∨ u = req.peerUUID := by
  have hroom : conv.room ∈ (op.onRoster (out.uuid db.tick) db.roster).rooms := by
    rw [← roster_apply out h.keyed h.roster]
    exact List.mem_map_of_mem hconv
  have hnone : ¬ ∃ old ∈ db.roster.rooms, old.id = conv.room.id := by
    rintro ⟨old,hold,hid⟩
    obtain ⟨conv',hconv',rfl⟩ := List.mem_map.mp hold
    exact hnew conv' hconv' hid
  simp only [isMember_apply h]
  cases op with
  | createGroupConversation req =>
    have hgroup : conv.type = 2 := (room_createGroup hroom).resolve_left hnone
    rw [htype] at hgroup
    exact absurd hgroup (by decide)
  | createPrivateConversation req =>
    exact ⟨req,rfl,(room_createPrivate h.roster hroom).resolve_left hnone⟩
  | addMembers req => exact (hnone (room_addMembers hroom)).elim
  | removeMember req => exact (hnone (room_removeMember hroom)).elim
  | _ => exact (hnone ⟨_,hroom,rfl⟩).elim

end Step

section Run
variable {out : Outer} {ops : List Operation} {op : Operation} {c : Nat} {u : String}
  {req : CreatePrivateConversationReq}

theorem Created.concat (h : Created out ops c req) : Created out (ops ++ [op]) c req := by
  obtain ⟨before,after,hsplit,hcreated⟩ := h
  exact ⟨before,after ++ [op],by simp [hsplit],hcreated⟩

theorem runOperations_append (out : Outer) (db : Database) (ops ops' : List Operation) :
    runOperations out db (ops ++ ops') = runOperations out (runOperations out db ops) ops' :=
  List.foldl_append

theorem Created.hasRow (h : Created out ops c req) (htype : ∀ conv ∈
      (runOperations out emptyDatabase ops).conversations, conv.id = c → conv.type = 1)
    (hu : u = req.uuid ∨ u = req.peerUUID) :
    (runOperations out emptyDatabase ops).HasRow c u := by
  obtain ⟨before,after,rfl,hnot,conv,hconv,rfl⟩ := h
  have hlater : Later (runOperations out emptyDatabase
    (before ++ [Operation.createPrivateConversation req]))
      (runOperations out emptyDatabase (before ++
          Operation.createPrivateConversation req :: after)) := by
    have happend : before ++ Operation.createPrivateConversation req :: after =
        before ++ [Operation.createPrivateConversation req] ++ after := by simp
    rw [happend,runOperations_append out _ (before ++ [_])]
    exact later_runOperations out _ after
  obtain ⟨conv',hconv',hstill⟩ := hlater.conversations.mem hconv
  have htype' : conv.type = 1 := hstill.type.symm.trans (htype conv' hconv' hstill.id)
  rw [runOperations_concat] at hconv hlater
  obtain ⟨req',hreq,hmembers⟩ := new_private (kept_empty.run out before) hconv htype' hnot
  cases hreq
  obtain ⟨m,hm,-,hconvID,huser⟩ := (hmembers u).mpr hu
  obtain ⟨m',hm',hstill'⟩ := hlater.members.mem hm
  exact ⟨m',hm',hstill'.conversationID.trans hconvID,hstill'.userUUID.trans huser⟩

end Run

end Imy.Chat
