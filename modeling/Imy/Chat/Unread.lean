import Mathlib.Data.List.Nodup
import Imy.Chat.Stages
set_option autoImplicit false

namespace Imy.Chat
open Imy.Lib

/-- What `GetUnreadCounts` reports to a user for a conversation. -/
def reportedUnread (out : Outer) (db : Database) (u : String) (c : Nat) : List UInt32 :=
  match ((getUnreadCounts u).run (exec out)) db with
  | .ok (.unread items,_) _ => (items.filter fun item => item.conversationId = c).map (·.unread)
  | _ => []

/-- The members' cached counts of a conversation are what is reported to them. -/
def CacheRight (out : Outer) (db : Database) (c : Nat) : Prop :=
  ∀ m ∈ db.live, m.conversationID = c → reportedUnread out db m.userUUID c = [m.unreadCount]

def Database.unreadOf (db : Database) (m : ChatConversationMember) : UInt32 :=
  UInt32.ofNat (db.unread m.conversationID m.lastReadMessageID m.userUUID).length

/-- The keys of the member table, and that every row has a user. -/
structure KeyedMembers (db : Database) : Prop where
  ids : (db.members.map (·.id)).Nodup
  keys : db.members.Pairwise fun m m' => ¬ sameKey m m'
  named : ∀ m ∈ db.members, m.userUUID ≠ ""

section Keys
variable {db db' : Database} {m m' : ChatConversationMember}

theorem KeyedMembers.map (h : KeyedMembers db) {f : ChatConversationMember → ChatConversationMember}
    (hf : db'.members = db.members.map f) (hid : ∀ m, (f m).id = m.id)
    (hkey : ∀ m, sameKey (f m) m) : KeyedMembers db' := by
  refine ⟨?_,?_,?_⟩
  · have hids : db'.members.map (·.id) = db.members.map (·.id) := by
      rw [hf,List.map_map]
      exact List.map_congr_left fun m _ => hid m
    rw [hids]
    exact h.ids
  · rw [hf,List.pairwise_map]
    refine h.keys.imp fun {m m'} hne hsame => hne ⟨?_,?_⟩
    · rw [← (hkey m).1,hsame.1,(hkey m').1]
    · rw [← (hkey m).2,hsame.2,(hkey m').2]
  · intro m' hm'
    rw [hf] at hm'
    obtain ⟨m,hm,rfl⟩ := List.mem_map.mp hm'
    rw [(hkey m).2]
    exact h.named m hm

theorem KeyedMembers.eq_of_id (h : KeyedMembers db) (hm : m ∈ db.live) (hm' : m' ∈ db.live)
    (hid : m.id = m'.id) : m = m' :=
  List.inj_on_of_nodup_map h.ids (List.mem_of_mem_filter hm) (List.mem_of_mem_filter hm') hid

theorem filter_sameKey {rows : List ChatConversationMember}
    (hkeys : rows.Pairwise fun m m' => ¬ sameKey m m') (hm : m ∈ rows) :
    rows.filter (fun m' => sameKey m' m) = [m] := by
  induction rows with
  | nil => cases hm
  | cons row rows ih =>
    obtain ⟨hrow,hkeys⟩ := List.pairwise_cons.mp hkeys
    rcases List.mem_cons.mp hm with rfl | hm
    · rw [List.filter_cons_of_pos (by simp [sameKey])]
      have hnone : rows.filter (fun m' => sameKey m' m) = [] := by
        rw [List.filter_eq_nil_iff]
        intro m' hm' hsame
        have hsame : sameKey m' m := by simpa using hsame
        exact hrow m' hm' ⟨hsame.1.symm,hsame.2.symm⟩
      rw [hnone]
    · rw [List.filter_cons_of_neg (by simpa using hrow m hm)]
      exact ih hkeys hm

theorem KeyedMembers.eq_of_key (h : KeyedMembers db) (hm : m ∈ db.live) (hm' : m' ∈ db.live)
    (hkey : sameKey m m') : m = m' := by
  have hin : m ∈ db.members.filter (fun m => sameKey m m') :=
    List.mem_filter.mpr ⟨List.mem_of_mem_filter hm,by simpa using hkey⟩
  rw [filter_sameKey h.keys (List.mem_of_mem_filter hm')] at hin
  exact List.mem_singleton.mp hin

end Keys

section Messages
variable {db db' : Database} {c lastReadID : Nat} {u : String}

theorem unread_congr (h : db'.messages = db.messages) :
    db'.unread c lastReadID u = db.unread c lastReadID u := by
  rw [Database.unread,h]
  rfl

theorem unread_concat {msg : ChatMessage} (h : db'.messages = db.messages ++ [msg])
    (hmsg : msg.conversationID ≠ c ∨ msg.sendUUID = u) :
    db'.unread c lastReadID u = db.unread c lastReadID u := by
  rw [Database.unread,h,List.filter_append,Database.unread]
  have hno : ¬ (msg.conversationID = c ∧ lastReadID < msg.id ∧ msg.sendUUID ≠ u) := by tauto
  simp [hno]

end Messages

section Report
variable {out : Outer} {db : Database} {m : ChatConversationMember} {u : String} {c : Nat}

theorem wp_unreadItems (members : List ChatConversationMember) (items : List UnreadItem) :
    wp ((members.foldlM (addUnreadItem u) items).run (exec out))
      (fun items' t => items' = items ++ members.map (fun m => ⟨m.conversationID,
        UInt32.ofNat (db.unread m.conversationID m.lastReadMessageID u).length⟩) ∧ t = db)
      (fun _ _ => False) db := by
  rw [Prog.run_foldlM]
  refine wp_foldlM (I := fun done items' t => items' = items ++ done.map (fun m =>
    ⟨m.conversationID,UInt32.ofNat (db.unread m.conversationID m.lastReadMessageID u).length⟩) ∧
    t = db) (b := items) members ⟨by simp,rfl⟩ ?_
  rintro done m rest _ _ - ⟨rfl,rfl⟩
  refine ⟨?_,rfl⟩
  rw [List.map_append,List.append_assoc]
  rfl

theorem wp_getUnreadCounts (out : Outer) (db : Database) (hu : u ≠ "") :
    wp ((getUnreadCounts u).run (exec out))
      (fun reply _ => reply.1 = .unread ((db.live.filter fun m => m.userUUID = u).map fun m =>
        ⟨m.conversationID,
          UInt32.ofNat (db.unread m.conversationID m.lastReadMessageID u).length⟩))
      (fun _ _ => False) db := by
  rw [getUnreadCounts,if_neg hu]
  -- the query always succeeds here
  change wp (Prog.run (exec out) (do
    let items ← (db.live.filter fun m => m.userUUID = u).foldlM (addUnreadItem u) []
    return (Response.unread items,pure ()))) _ _ db
  rw [Prog.wp_run_bind]
  refine wp_mono (wp_unreadItems _ []) ?_ (fun _ _ h => h)
  rintro items _ ⟨rfl,-⟩
  rfl

theorem reportedUnread_eq (h : KeyedMembers db) (hm : m ∈ db.live) :
    reportedUnread out db m.userUUID m.conversationID = [db.unreadOf m] := by
  have hname := h.named m (List.mem_of_mem_filter hm)
  obtain ⟨⟨response,goroutine⟩,t,hrun,hresponse⟩ := eq_ok_of_wp (wp_getUnreadCounts out db
    hname)
  cases hresponse
  have hlive : db.live.Pairwise fun m m' => ¬ sameKey m m' := h.keys.sublist List.filter_sublist
  have hone : (db.live.filter fun m' => m'.userUUID = m.userUUID).filter
      (fun m' => m'.conversationID = m.conversationID) = [m] := by
    rw [List.filter_filter,← filter_sameKey hlive hm]
    refine List.filter_congr fun m' _ => ?_
    rw [Bool.eq_iff_iff]
    simp only [Bool.and_eq_true,decide_eq_true_eq]
    exact Iff.rfl
  rw [reportedUnread,hrun]
  simp only
  rw [List.filter_map]
  change ((List.filter (fun m' : ChatConversationMember =>
    decide (m'.conversationID = m.conversationID)) _).map _).map _ = _
  rw [hone]
  rfl

theorem cacheRight_iff (h : KeyedMembers db) : CacheRight out db c ↔
    ∀ m ∈ db.live, m.conversationID = c → m.unreadCount = db.unreadOf m := by
  refine forall_congr' fun m => imp_congr_right fun hm => imp_congr_right fun hconv => ?_
  subst hconv
  rw [reportedUnread_eq h hm,List.cons_eq_cons,and_iff_left rfl,eq_comm]

end Report

end Imy.Chat
