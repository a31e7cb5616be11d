import Imy.Lib.Lists
import Imy.Lib.Trace
import Imy.Chat.Operations
set_option autoImplicit false

/-!
All calls of the chat, and what no statement of any call can break: the keys of the
tables, and that a row which is there stays.
-/

namespace Imy.Chat
open Imy.Lib

inductive Request where
  | operation (op : Operation)
  | getMessages (req : GetMessagesReq)
  | getConversations (req : GetConversationsReq)
  | getConversationDetail (req : GetConversationDetailReq)
  | getUnreadCounts (uuid : String)
  | updateConversationSettings (req : UpdateConversationSettingsReq)

def Request.main (parse : String → Option Int) : Request → ChatM Reply
  | .operation op => op.main
  | .getMessages req => Chat.getMessages req
  | .getConversations req => Chat.getConversations req
  | .getConversationDetail req => Chat.getConversationDetail req
  | .getUnreadCounts uuid => Chat.getUnreadCounts uuid
  | .updateConversationSettings req => Chat.updateConversationSettings parse req

/-- What a call returns when nothing else runs. -/
def Request.result (out : Outer) (parse : String → Option Int) (db : Database) (req : Request) :
    Except ErrCode Response :=
  match (req.main parse).run (exec out) db with
  | .ok (response,_) _ => .ok response
  | .error e _ => .error e

/-- The tables after a call and its goroutine. -/
def Request.apply (out : Outer) (parse : String → Option Int) (db : Database) (req : Request) :
    Database :=
  final ((serve (req.main parse)).run (exec out)) db

/-- No time can be read from a text. -/
def noTimes (_ : String) : Option Int := none

def runRequests (out : Outer) (parse : String → Option Int) (db : Database)
    (reqs : List Request) : Database :=
  reqs.foldl (Request.apply out parse) db

/-- The unique keys, and IDs that were given in order; those of messages from 1 on. -/
structure Keyed (db : Database) : Prop where
  memberKeys : db.members.Pairwise fun m m' => ¬ sameKey m m'
  memberIDs : db.members.Pairwise fun m m' => m.id < m'.id
  memberNext : ∀ m ∈ db.members, m.id < db.nextMember
  privateKeys : db.conversations.Pairwise fun conv conv' => conv.privateKey ≠ conv'.privateKey
  conversationIDs : db.conversations.Pairwise fun conv conv' => conv.id < conv'.id
  conversationNext : ∀ conv ∈ db.conversations, conv.id < db.nextConversation
  messageIDs : db.messages.Pairwise fun m m' => m.id < m'.id
  messageNext : ∀ m ∈ db.messages, m.id < db.nextMessage
  messagePositive : ∀ m ∈ db.messages, 0 < m.id
  nextPositive : 0 < db.nextMessage

structure StillRow (m m' : ChatConversationMember) : Prop where
  id : m'.id = m.id
  conversationID : m'.conversationID = m.conversationID
  userUUID : m'.userUUID = m.userUUID
  role : m'.role = m.role
  deleted : m.deleted = true → m'.deleted = true

structure StillConversation (conv conv' : ChatConversation) : Prop where
  id : conv'.id = conv.id
  type : conv'.type = conv.type
  privateKey : conv'.privateKey = conv.privateKey

structure StillMessage (m m' : ChatMessage) : Prop where
  id : m'.id = m.id
  conversationID : m'.conversationID = m.conversationID
  sendUUID : m'.sendUUID = m.sendUUID
  clientMsgID : m'.clientMsgID = m.clientMsgID
  msgType : m'.msgType = m.msgType
  content : m'.content = m.content
  contentExtra : m'.contentExtra = m.contentExtra
  replyToMessageID : m'.replyToMessageID = m.replyToMessageID
  mentionedUuids : m'.mentionedUuids = m.mentionedUuids
  isSystem : m'.isSystem = m.isSystem
  createdAt : m'.createdAt = m.createdAt

structure Later (db db' : Database) : Prop where
  members : Grown StillRow db.members db'.members
  conversations : Grown StillConversation db.conversations db'.conversations
  messages : Grown StillMessage db.messages db'.messages

theorem StillRow.refl (m : ChatConversationMember) : StillRow m m := ⟨rfl,rfl,rfl,rfl,fun h => h⟩

theorem StillConversation.refl (conv : ChatConversation) : StillConversation conv conv :=
  ⟨rfl,rfl,rfl⟩

theorem StillMessage.refl (m : ChatMessage) : StillMessage m m :=
  ⟨rfl,rfl,rfl,rfl,rfl,rfl,rfl,rfl,rfl,rfl,rfl⟩

theorem StillRow.trans (m₁ m₂ m₃ : ChatConversationMember) (h : StillRow m₁ m₂)
    (h' : StillRow m₂ m₃) : StillRow m₁ m₃ where
  id := h'.id.trans h.id
  conversationID := h'.conversationID.trans h.conversationID
  userUUID := h'.userUUID.trans h.userUUID
  role := h'.role.trans h.role
  deleted hdel := h'.deleted (h.deleted hdel)

theorem StillConversation.trans (c₁ c₂ c₃ : ChatConversation) (h : StillConversation c₁ c₂)
    (h' : StillConversation c₂ c₃) : StillConversation c₁ c₃ where
  id := h'.id.trans h.id
  type := h'.type.trans h.type
  privateKey := h'.privateKey.trans h.privateKey

theorem StillMessage.trans (m₁ m₂ m₃ : ChatMessage) (h : StillMessage m₁ m₂)
    (h' : StillMessage m₂ m₃) : StillMessage m₁ m₃ where
  id := h'.id.trans h.id
  conversationID := h'.conversationID.trans h.conversationID
  sendUUID := h'.sendUUID.trans h.sendUUID
  clientMsgID := h'.clientMsgID.trans h.clientMsgID
  msgType := h'.msgType.trans h.msgType
  content := h'.content.trans h.content
  contentExtra := h'.contentExtra.trans h.contentExtra
  replyToMessageID := h'.replyToMessageID.trans h.replyToMessageID
  mentionedUuids := h'.mentionedUuids.trans h.mentionedUuids
  isSystem := h'.isSystem.trans h.isSystem
  createdAt := h'.createdAt.trans h.createdAt

section Statements
variable {out : Outer} {db db' db'' : Database}

theorem Later.refl (db : Database) : Later db db :=
  ⟨.refl StillRow.refl _,.refl StillConversation.refl _,.refl StillMessage.refl _⟩

theorem Later.trans (h : Later db db') (h' : Later db' db'') : Later db db'' :=
  ⟨h.members.trans StillRow.trans h'.members,
    h.conversations.trans StillConversation.trans h'.conversations,
    h.messages.trans StillMessage.trans h'.messages⟩

theorem stillRow_copy (src m : ChatConversationMember) (cols : List MemberColumn) :
    StillRow m (cols.foldl (fun m col => col.copy src m) m) := by
  induction cols generalizing m with
  | nil => exact StillRow.refl m
  | cons col cols ih =>
    have hcol : StillRow m (col.copy src m) := by
      cases col <;> exact ⟨rfl,rfl,rfl,rfl,fun h => h⟩
    rw [List.foldl_cons]
    exact StillRow.trans _ _ _ hcol (ih _)

theorem stillConversation_copy (src conv : ChatConversation) (cols : List ConversationColumn) :
    StillConversation conv (cols.foldl (fun conv col => col.copy src conv) conv) := by
  induction cols generalizing conv with
  | nil => exact StillConversation.refl conv
  | cons col cols ih =>
    have hcol : StillConversation conv (col.copy src conv) := by
      cases col <;> exact ⟨rfl,rfl,rfl⟩
    rw [List.foldl_cons]
    exact StillConversation.trans _ _ _ hcol (ih _)

theorem stillMessage_copy (src m : ChatMessage) (cols : List MessageColumn) :
    StillMessage m (cols.foldl (fun m col => col.copy src m) m) := by
  induction cols generalizing m with
  | nil => exact StillMessage.refl m
  | cons col cols ih =>
    have hcol : StillMessage m (col.copy src m) := by
      cases col <;> exact ⟨rfl,rfl,rfl,rfl,rfl,rfl,rfl,rfl,rfl,rfl,rfl⟩
    rw [List.foldl_cons]
    exact StillMessage.trans _ _ _ hcol (ih _)

theorem stillMessage_update (row m : ChatMessage) (cols : List MessageColumn) :
    StillMessage m (if m.id = row.id then cols.foldl (fun m col => col.copy row m) m else m) := by
  split
  · exact stillMessage_copy row m cols
  · exact StillMessage.refl m

theorem stillRow_update (row m : ChatConversationMember) (cols : List MemberColumn) :
    StillRow m (if m.id = row.id ∧ m.deleted = false then
      cols.foldl (fun m col => col.copy row m) m else m) := by
  split
  · exact stillRow_copy row m cols
  · exact StillRow.refl m

theorem stillRow_delete (id : Nat) (m : ChatConversationMember) :
    StillRow m (if m.id = id then { m with deleted := true } else m) := by
  split
  · exact ⟨rfl,rfl,rfl,rfl,fun _ => rfl⟩
  · exact StillRow.refl m

theorem later_of_same (hmembers : db'.members = db.members)
    (hconvs : db'.conversations = db.conversations) (hmessages : db'.messages = db.messages) :
    Later db db' := by
  constructor
  · rw [hmembers]
    exact .refl StillRow.refl _
  · rw [hconvs]
    exact .refl StillConversation.refl _
  · rw [hmessages]
    exact .refl StillMessage.refl _

theorem later_exec (out : Outer) (q : Stmt) (db : Database) : Later db (exec out q db).2 := by
  cases q with
  | createConversation row =>
    refine ⟨?_,?_,?_⟩ <;> simp only [exec,Database.createConversation] <;> split <;>
      first
      | exact .refl StillRow.refl _
      | exact .refl StillMessage.refl _
      | exact .refl StillConversation.refl _
      | exact .append StillConversation.refl _ _
  | updateConversation row cols =>
    refine ⟨.refl StillRow.refl _,.map _ fun conv => ?_,.refl StillMessage.refl _⟩
    split
    · exact stillConversation_copy row conv cols
    · exact StillConversation.refl conv
  | createMembers rows =>
    refine ⟨?_,?_,?_⟩ <;> simp only [exec,Database.createMembers] <;> split <;>
      first
      | exact .refl StillConversation.refl _
      | exact .refl StillMessage.refl _
      | exact .refl StillRow.refl _
      | exact .append StillRow.refl _ _
  | updateMember row cols =>
    exact ⟨.map _ fun m => stillRow_update row m cols,.refl StillConversation.refl _,
      .refl StillMessage.refl _⟩
  | deleteMember id =>
    exact ⟨.map _ fun m => stillRow_delete id m,.refl StillConversation.refl _,
      .refl StillMessage.refl _⟩
  | createMessage row =>
    refine ⟨?_,?_,?_⟩ <;> simp only [exec,Database.createMessage] <;> split <;>
      first
      | exact .refl StillRow.refl _
      | exact .refl StillConversation.refl _
      | exact .refl StillMessage.refl _
      | exact .append StillMessage.refl _ _
  | updateMessage row cols =>
    exact ⟨.refl StillRow.refl _,.refl StillConversation.refl _,
      .map _ fun m => stillMessage_update row m cols⟩
  | _ => exact later_of_same rfl rfl rfl

theorem wp_later {α : Type} (p : ChatM α) (db : Database) :
    wp (p.run (exec out)) (fun _ t => Later db t) (fun _ t => Later db t) db := by
  suffices hall : ∀ s, Later db s →
      wp (p.run (exec out)) (fun _ t => Later db t) (fun _ t => Later db t) s from
    hall db (Later.refl db)
  induction p with
  | ret a => exact fun s hs => hs
  | fail e => exact fun s hs => hs
  | ask q next ih => exact fun s hs => ih _ _ (hs.trans (later_exec out q s))

theorem Keyed.rows (h : Keyed db) {f : ChatConversationMember → ChatConversationMember}
    (hf : ∀ m, StillRow m (f m)) : Keyed { db with members := db.members.map f } := by
  refine { h with memberKeys := ?_, memberIDs := ?_, memberNext := ?_ }
  · refine List.pairwise_map.mpr (h.memberKeys.imp fun {m m'} hne hsame => hne ⟨?_,?_⟩)
    · rw [← (hf m).conversationID,hsame.1,(hf m').conversationID]
    · rw [← (hf m).userUUID,hsame.2,(hf m').userUUID]
  · refine List.pairwise_map.mpr (h.memberIDs.imp fun {m m'} hlt => ?_)
    rw [(hf m).id,(hf m').id]
    exact hlt
  · intro m' hm'
    obtain ⟨m,hm,rfl⟩ := List.mem_map.mp hm'
    rw [(hf m).id]
    exact h.memberNext m hm

theorem Keyed.createConversation (h : Keyed db) (row : ChatConversation) :
    Keyed (db.createConversation row).2 := by
  rw [Database.createConversation]
  split
  · exact { h with
      conversationNext := fun conv hconv => Nat.lt_succ_of_lt (h.conversationNext conv hconv) }
  · rename_i hfree
    refine { h with privateKeys := ?_, conversationIDs := ?_, conversationNext := ?_ }
    · refine List.pairwise_append.mpr ⟨h.privateKeys,List.pairwise_singleton _ _,?_⟩
      intro conv hconv conv' hconv'
      rw [List.mem_singleton.mp hconv']
      simp only [List.any_eq_true,decide_eq_true_eq,not_exists,not_and] at hfree
      exact hfree conv hconv
    · refine List.pairwise_append.mpr ⟨h.conversationIDs,List.pairwise_singleton _ _,?_⟩
      intro conv hconv conv' hconv'
      rw [List.mem_singleton.mp hconv']
      exact h.conversationNext conv hconv
    · intro conv hconv
      rcases List.mem_append.mp hconv with hconv | hconv
      · exact Nat.lt_succ_of_lt (h.conversationNext conv hconv)
      · rw [List.mem_singleton.mp hconv]
        exact Nat.lt_succ_self _

theorem Keyed.updateConversation (h : Keyed db) (row : ChatConversation)
    (cols : List ConversationColumn) :
    Keyed (exec out (.updateConversation row cols) db).2 := by
  have hf : ∀ conv : ChatConversation, StillConversation conv
      (if conv.id = row.id then cols.foldl (fun c col => col.copy row c) conv else conv) := by
    intro conv
    split
    · exact stillConversation_copy row conv cols
    · exact StillConversation.refl conv
  refine { h with privateKeys := ?_, conversationIDs := ?_, conversationNext := ?_ }
  · refine List.pairwise_map.mpr (h.privateKeys.imp fun {conv conv'} hne => ?_)
    rw [(hf conv).privateKey,(hf conv').privateKey]
    exact hne
  · refine List.pairwise_map.mpr (h.conversationIDs.imp fun {conv conv'} hlt => ?_)
    rw [(hf conv).id,(hf conv').id]
    exact hlt
  · intro conv' hconv'
    obtain ⟨conv,hconv,rfl⟩ := List.mem_map.mp hconv'
    rw [(hf conv).id]
    exact h.conversationNext conv hconv

theorem numbered_increasing (lastReadAt : Int) (next : Nat) (rows : List ChatConversationMember) :
    (numbered lastReadAt next rows).Pairwise fun m m' => m.id < m'.id := by
  have hids : ((numbered lastReadAt next rows).map (·.id)).Pairwise (· < ·) := by
    rw [numbered_ids]
    exact List.pairwise_map.mpr (List.pairwise_lt_range.imp fun hlt => Nat.add_lt_add_left hlt next)
  exact List.pairwise_map.mp hids

theorem Keyed.createMembers (h : Keyed db) (rows : List ChatConversationMember) :
    Keyed (db.createMembers out rows).2 := by
  rw [Database.createMembers]
  split
  · rename_i hkeys
    refine { h with memberKeys := ?_, memberIDs := ?_, memberNext := ?_ }
    · rw [pairwise_keys,List.map_append] at hkeys
      rw [pairwise_keys,List.map_append,numbered_keys]
      exact hkeys
    · refine List.pairwise_append.mpr ⟨h.memberIDs,numbered_increasing _ _ _,?_⟩
      intro m hm m' hm'
      obtain ⟨row,-,i,-,rfl⟩ := mem_numbered hm'
      exact (h.memberNext m hm).trans_le (Nat.le_add_right _ i)
    · intro m hm
      rcases List.mem_append.mp hm with hm | hm
      · exact (h.memberNext m hm).trans_le (Nat.le_add_right _ _)
      · obtain ⟨row,-,i,hi,rfl⟩ := mem_numbered hm
        exact Nat.add_lt_add_left hi _
  · exact { h with
      memberNext := fun m hm => (h.memberNext m hm).trans_le (Nat.le_add_right _ _) }

theorem Keyed.createMessage (h : Keyed db) (row : ChatMessage) :
    Keyed (db.createMessage out row).2 := by
  rw [Database.createMessage]
  split
  · exact { h with
      messageNext := fun m hm => Nat.lt_succ_of_lt (h.messageNext m hm)
      nextPositive := Nat.succ_pos _ }
  · refine { h with
      messageIDs := ?_, messageNext := ?_, messagePositive := ?_, nextPositive := Nat.succ_pos _ }
    · refine List.pairwise_append.mpr ⟨h.messageIDs,List.pairwise_singleton _ _,?_⟩
      intro m hm m' hm'
      rw [List.mem_singleton.mp hm']
      exact h.messageNext m hm
    · intro m hm
      rcases List.mem_append.mp hm with hm | hm
      · exact Nat.lt_succ_of_lt (h.messageNext m hm)
      · rw [List.mem_singleton.mp hm]
        exact Nat.lt_succ_self _
    · intro m hm
      rcases List.mem_append.mp hm with hm | hm
      · exact h.messagePositive m hm
      · rw [List.mem_singleton.mp hm]
        exact h.nextPositive

theorem Keyed.updateMessage (h : Keyed db) (row : ChatMessage) (cols : List MessageColumn) :
    Keyed (exec out (.updateMessage row cols) db).2 := by
  refine { h with messageIDs := ?_, messageNext := ?_, messagePositive := ?_ }
  · refine List.pairwise_map.mpr (h.messageIDs.imp fun {m m'} hlt => ?_)
    rw [(stillMessage_update row m cols).id,(stillMessage_update row m' cols).id]
    exact hlt
  · intro m' hm'
    obtain ⟨m,hm,rfl⟩ := List.mem_map.mp hm'
    rw [(stillMessage_update row m cols).id]
    exact h.messageNext m hm
  · intro m' hm'
    obtain ⟨m,hm,rfl⟩ := List.mem_map.mp hm'
    rw [(stillMessage_update row m cols).id]
    exact h.messagePositive m hm

theorem Keyed.exec (out : Outer) (q : Stmt) (h : Keyed db) : Keyed (exec out q db).2 := by
  cases q with
  | createConversation row => exact h.createConversation row
  | updateConversation row cols => exact h.updateConversation row cols
  | createMembers rows => exact h.createMembers rows
  | updateMember row cols => exact h.rows fun m => stillRow_update row m cols
  | deleteMember id => exact h.rows fun m => stillRow_delete id m
  | createMessage row => exact h.createMessage row
  | updateMessage row cols => exact h.updateMessage row cols
  | _ => exact { h with }

theorem keyed_empty : Keyed emptyDatabase := by
  constructor <;> simp [emptyDatabase]

theorem wp_keyed {α : Type} (p : ChatM α) (h : Keyed db) :
    wp (p.run (exec out)) (fun _ t => Keyed t) (fun _ t => Keyed t) db := by
  induction p generalizing db with
  | ret a => exact h
  | fail e => exact h
  | ask q next ih => exact ih _ (h.exec out q)

variable {parse : String → Option Int}

theorem keyed_runRequests (reqs : List Request) (h : Keyed db) :
    Keyed (runRequests out parse db reqs) := by
  induction reqs generalizing db with
  | nil => exact h
  | cons req reqs ih => exact ih (final_of_wp (wp_keyed _ h))

theorem later_runRequests (reqs : List Request) (db : Database) :
    Later db (runRequests out parse db reqs) := by
  induction reqs generalizing db with
  | nil => exact Later.refl db
  | cons req reqs ih => exact (final_of_wp (wp_later _ db)).trans (ih _)

end Statements

end Imy.Chat
