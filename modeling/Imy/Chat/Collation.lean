import Mathlib.Data.List.Find
import Imy.Chat.Requests
set_option autoImplicit false

/-!
The statements where the columns are compared by a collation, as `utf8mb4_general_ci` of
`schema/db.sql` does. To the database strings are equal when `fold` makes them the same.
Where it tells the strings of a run apart, it answers as `exec` does.
-/

namespace Imy.Chat
open Imy.Lib

section Statements
variable (fold : String → String) (out : Outer)

def sameKeyIn (m m' : ChatConversationMember) : Prop :=
  m.conversationID = m'.conversationID ∧ fold m.userUUID = fold m'.userUUID

instance (m m' : ChatConversationMember) : Decidable (sameKeyIn fold m m') :=
  inferInstanceAs (Decidable (_ ∧ _))

def Database.createConversationIn (db : Database) (row : ChatConversation) :
    Except DBError ChatConversation × Database :=
  if db.conversations.any fun c => fold c.privateKey = fold row.privateKey then
    (.error .duplicatedKey,{ db with nextConversation := db.nextConversation+1 })
  else db.createConversation row

def Database.createMembersIn (db : Database) (rows : List ChatConversationMember) :
    Except DBError Unit × Database :=
  if (db.members ++ rows).Pairwise fun m m' => ¬ sameKeyIn fold m m' then db.createMembers out rows
  else (.error .duplicatedKey,{ db with
    nextMember := db.nextMember+rows.length
    tick := db.tick+1 })

def Database.createMessageIn (db : Database) (row : ChatMessage) :
    Except DBError ChatMessage × Database :=
  if db.messages.any fun m => m.conversationID = row.conversationID ∧
      fold m.sendUUID = fold row.sendUUID ∧
      fold m.clientMsgID = fold row.clientMsgID then
    (.error .duplicatedKey,{ db with nextMessage := db.nextMessage+1, tick := db.tick+1 })
  else db.createMessage out row

def Database.joinedIn (db : Database) (userUUID : String) : List ChatConversation :=
  db.conversations.flatMap fun conv =>
    (db.members.filter fun m => m.conversationID = conv.id ∧ fold m.userUUID = fold userUUID).map
      fun _ => conv

def execIn : (q : Stmt) → Database → q.Answer × Database
  | .takeConversation privateKey, db =>
    (found (db.conversations.find? fun c => fold c.privateKey = fold privateKey),db)
  | .createConversation row, db => db.createConversationIn fold row
  | .takeMember conversationID userUUID, db =>
    (found (db.live.find? fun m => m.conversationID = conversationID ∧
      fold m.userUUID = fold userUUID),db)
  | .findMemberships userUUID, db =>
    (.ok (db.live.filter fun m => fold m.userUUID = fold userUUID),db)
  | .createMembers rows, db => db.createMembersIn fold out rows
  | .takeMessageByClient conversationID sendUUID clientMsgID, db =>
    (found (db.messages.find? fun m => m.conversationID = conversationID ∧
      fold m.sendUUID = fold sendUUID ∧
      fold m.clientMsgID = fold clientMsgID),db)
  | .countMessages conversationID lastReadMessageID userUUID, db =>
    (.ok (db.messages.filter fun m => m.conversationID = conversationID ∧ lastReadMessageID < m.id ∧
      fold m.sendUUID ≠ fold userUUID).length,db)
  | .findConversations userUUID offset limit, db =>
    (.ok ((((db.joinedIn fold userUUID).insertionSort (out.Leads db.tick)).drop offset).take limit),
      { db with tick := db.tick+1 })
  | .createMessage row, db => db.createMessageIn fold out row
  | q, db => exec out q db

end Statements

/-- A collation that ignores the case. -/
def ignoringCase (s : String) : String := String.ofList (s.toList.map Char.toLower)

/-- The database tells these strings apart. -/
def ToldApart (fold : String → String) (U : String → Prop) : Prop :=
  ∀ s t, U s → U t → fold s = fold t → s = t

structure Database.Within (U : String → Prop) (db : Database) : Prop where
  members : ∀ m ∈ db.members, U m.userUUID
  keys : ∀ conv ∈ db.conversations, U conv.privateKey
  senders : ∀ m ∈ db.messages, U m.sendUUID
  clients : ∀ m ∈ db.messages, U m.clientMsgID

def Stmt.Within (U : String → Prop) : Stmt → Prop
  | .takeConversation privateKey => U privateKey
  | .createConversation row => U row.privateKey
  | .takeMember _ userUUID => U userUUID
  | .findMemberships userUUID => U userUUID
  | .createMembers rows => ∀ row ∈ rows, U row.userUUID
  | .takeMessageByClient _ sendUUID clientMsgID => U sendUUID ∧ U clientMsgID
  | .countMessages _ _ userUUID => U userUUID
  | .findConversations userUUID _ _ => U userUUID
  | .createMessage row => U row.sendUUID ∧ U row.clientMsgID
  | _ => True

def Stmt.Tells (U : String → Prop) (out : Outer) : (q : Stmt) → q.Answer → Prop
  | .takeMember _ _, .ok mem => U mem.userUUID
  | .findMembers _, .ok members => ∀ mem ∈ members, U mem.userUUID
  | .generateUUID, key => ∃ n, key = out.uuid n
  | _, _ => True

section Agree
variable {fold : String → String} {out : Outer} {U : String → Prop} {db : Database} {q : Stmt}

theorem ToldApart.iff (happart : ToldApart fold U) {s t : String} (hs : U s) (ht : U t) :
    fold s = fold t ↔ s = t :=
  ⟨happart s t hs ht,congrArg fold⟩

theorem any_congr_mem {α : Type} {l : List α} {p p' : α → Prop} [DecidablePred p] [DecidablePred p']
    (h : ∀ a ∈ l, p a ↔ p' a) : (l.any fun a => p a) = l.any fun a => p' a := by
  rw [Bool.eq_iff_iff]
  simp only [List.any_eq_true,decide_eq_true_eq]
  exact exists_congr fun a => and_congr_right (h a)

/-- Where no string of the statement or of the tables is taken for another one, the collation
makes no difference. -/
theorem execIn_eq (happart : ToldApart fold U) (hdb : db.Within U) (hq : q.Within U) :
    execIn fold out q db = exec out q db := by
  have hlive : ∀ m ∈ db.live, U m.userUUID := fun m hm => hdb.members m (List.mem_of_mem_filter hm)
  cases q with
  | takeConversation privateKey =>
    have hfind : db.conversations.find? (fun c => fold c.privateKey = fold privateKey) =
        db.conversations.find? fun c => c.privateKey = privateKey :=
      List.find?_congr fun conv hconv => decide_eq_decide.mpr (happart.iff (hdb.keys conv hconv) hq)
    exact congrArg (fun conv => (found conv,db)) hfind
  | createConversation row =>
    change db.createConversationIn fold row = db.createConversation row
    have hany : (db.conversations.any fun c => fold c.privateKey = fold row.privateKey) =
        db.conversations.any fun c => c.privateKey = row.privateKey :=
      any_congr_mem fun conv hconv => happart.iff (hdb.keys conv hconv) hq
    rw [Database.createConversationIn,hany,Database.createConversation]
    split <;> rfl
  | takeMember c u =>
    have hfind : db.live.find? (fun m => m.conversationID = c ∧ fold m.userUUID = fold u) =
        db.live.find? fun m => m.conversationID = c ∧ m.userUUID = u :=
      List.find?_congr fun m hm =>
        decide_eq_decide.mpr (and_congr_right fun _ => happart.iff (hlive m hm) hq)
    exact congrArg (fun mem => (found mem,db)) hfind
  | findMemberships u =>
    have hfilter : db.live.filter (fun m => fold m.userUUID = fold u) = db.live.filter fun m =>
        m.userUUID = u :=
      List.filter_congr fun m hm => decide_eq_decide.mpr (happart.iff (hlive m hm) hq)
    exact congrArg (fun members => (Except.ok members,db)) hfilter
  | createMembers rows =>
    change db.createMembersIn fold out rows = db.createMembers out rows
    have hU : ∀ m ∈ db.members ++ rows, U m.userUUID := by
      intro m hm
      rcases List.mem_append.mp hm with hm | hm
      · exact hdb.members m hm
      · exact hq m hm
    have hkeys : ((db.members ++ rows).Pairwise fun m m' => ¬ sameKeyIn fold m m') ↔
        (db.members ++ rows).Pairwise fun m m' => ¬ sameKey m m' :=
      List.Pairwise.iff_of_mem fun hm hm' =>
        not_congr (and_congr_right fun _ => happart.iff (hU _ hm) (hU _ hm'))
    rw [Database.createMembersIn,Database.createMembers]
    simp only [hkeys]
    split <;> rfl
  | takeMessageByClient c s k =>
    have hfind : db.messages.find? (fun m => m.conversationID = c ∧ fold m.sendUUID = fold s ∧
          fold m.clientMsgID = fold k) =
        db.messages.find? fun m => m.conversationID = c ∧ m.sendUUID = s ∧ m.clientMsgID = k :=
      List.find?_congr fun m hm => decide_eq_decide.mpr (and_congr_right fun _ =>
        and_congr (happart.iff (hdb.senders m hm) hq.1) (happart.iff (hdb.clients m hm) hq.2))
    exact congrArg (fun msg => (found msg,db)) hfind
  | countMessages c last u =>
    have hfilter :
      db.messages.filter (fun m => m.conversationID = c ∧ last < m.id ∧ fold m.sendUUID ≠ fold u) =
        db.unread c last u :=
      List.filter_congr fun m hm =>
          decide_eq_decide.mpr (and_congr_right fun _ => and_congr_right fun _ =>
        not_congr (happart.iff (hdb.senders m hm) hq))
    exact congrArg (fun messages : List ChatMessage => (Except.ok messages.length,db)) hfilter
  | findConversations u offset limit =>
    have hjoined : db.joinedIn fold u = db.joined u := by
      refine List.flatMap_congr fun conv _ =>
        congrArg _ (List.filter_congr fun m hm => decide_eq_decide.mpr ?_)
      exact and_congr_right fun _ => happart.iff (hdb.members m hm) hq
    change (Except.ok
      ((((db.joinedIn fold u).insertionSort (out.Leads db.tick)).drop offset).take limit),_) = _
    rw [hjoined]
    rfl
  | createMessage row =>
    change db.createMessageIn fold out row = db.createMessage out row
    have hany : (db.messages.any fun m => m.conversationID = row.conversationID ∧
          fold m.sendUUID = fold row.sendUUID ∧ fold m.clientMsgID = fold row.clientMsgID) =
        db.messages.any fun m => m.conversationID = row.conversationID ∧ m.sendUUID = row.sendUUID ∧
          m.clientMsgID = row.clientMsgID :=
      any_congr_mem fun m hm => and_congr_right fun _ =>
        and_congr (happart.iff (hdb.senders m hm) hq.1) (happart.iff (hdb.clients m hm) hq.2)
    rw [Database.createMessageIn,hany,Database.createMessage]
    split <;> rfl
  | _ => rfl

end Agree

end Imy.Chat
