import Mathlib.Data.List.Sort
import Imy.Lib.Threads
set_option autoImplicit false

/-!
The chat tables of `schema/db.sql`, and the statements that the chat logic sends
to them through `internal/dao`. A row that is deleted stays, and with it its
unique key; queries and updates pass it over. Only members are ever deleted, so
the other tables have no mark for it. IDs are numbers without a bound, times are
seconds, and strings are equal when they are the same string: what the collation of the
columns makes equal is told in `Collation`.
-/

namespace Imy.Chat
open Imy.Lib

structure ChatConversation where
  id : Nat
  type : Int8
  privateKey : String
  createUUID : String
  name : String
  memberCount : UInt32
  lastMessageID : Nat
  avatar : String
  extra : String
  deriving DecidableEq, Repr, Inhabited

structure ChatConversationMember where
  id : Nat
  conversationID : Nat
  userUUID : String
  role : Int8
  lastReadMessageID : Nat
  lastReadAt : Int
  muteUntil : Int
  isPinned : Bool
  alias_ : String
  unreadCount : UInt32
  deleted : Bool
  deriving DecidableEq, Repr, Inhabited

structure ChatMessage where
  id : Nat
  conversationID : Nat
  sendUUID : String
  clientMsgID : String
  msgType : Int8
  content : String
  contentExtra : String
  replyToMessageID : Nat
  mentionedUuids : String
  isSystem : Bool
  isRevoked : Bool
  revokedAt : Option Int
  createdAt : Int
  deriving DecidableEq, Repr, Inhabited

structure MessageInfo where
  id : Nat
  conversationId : Nat
  sendUuid : String
  msgType : UInt32
  content : String
  contentExtra : String
  replyToMessageId : Nat
  mentionedUuids : List String
  isSystem : UInt32
  isRevoked : UInt32
  createdAt : Int
  deriving DecidableEq, Repr

structure ConversationInfo where
  conversationId : Nat
  type : UInt32
  privateKey : String
  name : String
  memberCount : UInt32
  lastMessageId : Nat
  avatar : String
  extra : String
  deriving DecidableEq, Repr

structure ConversationMember where
  userUUID : String
  role : UInt32
  alias_ : String
  muteUntil : Int
  isPinned : UInt32
  deriving DecidableEq, Repr

structure UnreadItem where
  conversationId : Nat
  unread : UInt32
  deriving DecidableEq, Repr

/-- What `SendJSON` pushes to a user. -/
inductive Event where
  | conversationCreated (info : ConversationInfo)
  | memberAdded (conversationId : Nat) (addedUuids : List String)
  | memberRemoved (conversationId : Nat) (removedUuid : String)
  | messageNew (info : MessageInfo)
  | messageRead (conversationId : Nat) (readerUuid : String)
    (lastReadMessageId : Nat) (readAt : Int)
  | messageRecalled (conversationId messageId : Nat) (operatorUuid : String) (revokedAt : Int)
  | unreadCountChange (item : UnreadItem)
  deriving DecidableEq, Repr

inductive DBError where
  | recordNotFound
  | duplicatedKey
  | unavailable
  deriving DecidableEq, Repr

inductive ErrCode where
  | invalidParam
  | dataCreateFail (e : DBError)
  | dataModifyFail (e : DBError)
  | dataQueryFail (e : DBError)
  | auth
  | authSession
  deriving DecidableEq, Repr

inductive Response where
  | none
  | conversation (info : ConversationInfo)
  | sent (serverMsgId : Nat) (clientMsgId : String) (createdAt : Int)
  | read (lastReadMessageId : Nat)
  | unread (items : List UnreadItem)
  | messages (list : List MessageInfo)
  | conversations (list : List ConversationInfo)
  | detail (info : ConversationInfo) (members : List ConversationMember)
  deriving DecidableEq, Repr

inductive MemberColumn where
  | lastReadMessageID | lastReadAt | unreadCount | alias_ | muteUntil | isPinned
  deriving DecidableEq, Repr

inductive ConversationColumn where
  | memberCount | lastMessageID
  deriving DecidableEq, Repr

inductive MessageColumn where
  | isRevoked | revokedAt
  deriving DecidableEq, Repr

def MemberColumn.copy (src row : ChatConversationMember) : MemberColumn → ChatConversationMember
  | .lastReadMessageID => { row with lastReadMessageID := src.lastReadMessageID }
  | .lastReadAt => { row with lastReadAt := src.lastReadAt }
  | .unreadCount => { row with unreadCount := src.unreadCount }
  | .alias_ => { row with alias_ := src.alias_ }
  | .muteUntil => { row with muteUntil := src.muteUntil }
  | .isPinned => { row with isPinned := src.isPinned }

def ConversationColumn.copy (src row : ChatConversation) : ConversationColumn → ChatConversation
  | .memberCount => { row with memberCount := src.memberCount }
  | .lastMessageID => { row with lastMessageID := src.lastMessageID }

def MessageColumn.copy (src row : ChatMessage) : MessageColumn → ChatMessage
  | .isRevoked => { row with isRevoked := src.isRevoked }
  | .revokedAt => { row with revokedAt := src.revokedAt }

inductive PageMode where
  | latest
  | before (id : Nat)
  | after (id : Nat)
  deriving DecidableEq, Repr

/-- One statement, one push, or one reading of the clock or of the random source.
`respond` is where a call returns to its caller. -/
inductive Stmt where
  | takeConversation (privateKey : String)
  | getConversation (id : Nat)
  | createConversation (row : ChatConversation)
  | updateConversation (row : ChatConversation) (cols : List ConversationColumn)
  | takeMember (conversationID : Nat) (userUUID : String)
  | findMembers (conversationID : Nat)
  | findMemberships (userUUID : String)
  | createMembers (rows : List ChatConversationMember)
  | updateMember (row : ChatConversationMember) (cols : List MemberColumn)
  | deleteMember (id : Nat)
  | takeMessage (id conversationID : Nat)
  | takeMessageByClient (conversationID : Nat) (sendUUID clientMsgID : String)
  | countMessages (conversationID lastReadMessageID : Nat) (userUUID : String)
  | findMessages (conversationID : Nat) (mode : PageMode) (limit : Nat)
  | findConversations (userUUID : String) (offset limit : Nat)
  | createMessage (row : ChatMessage)
  | updateMessage (row : ChatMessage) (cols : List MessageColumn)
  | now
  | generateUUID
  | sendJSON (uuid : String) (event : Event)
  | respond (result : Except ErrCode Response)

@[reducible] def Stmt.Answer : Stmt → Type
  | .takeConversation _ | .getConversation _ | .createConversation _ =>
    Except DBError ChatConversation
  | .takeMember _ _ => Except DBError ChatConversationMember
  | .findMembers _ | .findMemberships _ => Except DBError (List ChatConversationMember)
  | .takeMessage _ _ | .takeMessageByClient _ _ _ | .createMessage _ => Except DBError ChatMessage
  | .countMessages _ _ _ => Except DBError Nat
  | .findMessages _ _ _ => Except DBError (List ChatMessage)
  | .findConversations _ _ _ => Except DBError (List ChatConversation)
  | .updateConversation _ _ | .createMembers _ | .updateMember _ _ | .deleteMember _
  | .updateMessage _ _ => Except DBError Unit
  | .now => Int
  | .generateUUID => String
  | .sendJSON _ _ | .respond _ => Unit

/-- The tables, the next auto-increment values, and what was pushed. -/
structure Database where
  conversations : List ChatConversation
  members : List ChatConversationMember
  messages : List ChatMessage
  nextConversation : Nat
  nextMember : Nat
  nextMessage : Nat
  tick : Nat
  pushed : List (String × Event)

def emptyDatabase : Database := ⟨[],[],[],1,1,1,0,[]⟩

/-- The clock, the random source, and how conversations with the same last message
are ordered, by the number of the reading. -/
structure Outer where
  clock : Nat → Int
  uuid : Nat → String
  rank : Nat → Nat → Nat

/-- A clock that counts its readings. -/
def countingOuter : Outer := ⟨fun n => n,fun _ => "",fun _ id => id⟩

section Statements
variable (out : Outer)

def found {α : Type} : Option α → Except DBError α
  | some a => .ok a
  | none => .error .recordNotFound

def Database.live (db : Database) : List ChatConversationMember :=
  db.members.filter fun m => !m.deleted

def Database.unread (db : Database) (conversationID lastReadMessageID : Nat) (userUUID : String) :
    List ChatMessage :=
  db.messages.filter fun m =>
    m.conversationID = conversationID ∧ lastReadMessageID < m.id ∧ m.sendUUID ≠ userUUID

/-- The messages of a conversation, in the order of their IDs. -/
def Database.history (db : Database) (conversationID : Nat) : List ChatMessage :=
  (db.messages.filter fun m => m.conversationID = conversationID).insertionSort
    fun m m' => m.id ≤ m'.id

def Database.findMessages (db : Database) (conversationID : Nat) (mode : PageMode) (limit : Nat) :
    List ChatMessage :=
  match mode with
  | .latest => (db.history conversationID).reverse.take limit
  | .before id => ((db.history conversationID).filter fun m => m.id < id).reverse.take limit
  | .after id => ((db.history conversationID).filter fun m => id < m.id).take limit

/-- The conversations joined with the rows of a user. The mark of a deleted row is
asked for in the main table only, so that all rows of the user count. -/
def Database.joined (db : Database) (userUUID : String) : List ChatConversation :=
  db.conversations.flatMap fun conv =>
    (db.members.filter fun m => m.conversationID = conv.id ∧
      m.userUUID = userUUID).map fun _ => conv

def Outer.Leads (n : Nat) (conv conv' : ChatConversation) : Prop :=
  conv'.lastMessageID < conv.lastMessageID ∨
    conv.lastMessageID = conv'.lastMessageID ∧ (out.rank n conv.id < out.rank n conv'.id ∨
      out.rank n conv.id = out.rank n conv'.id ∧ conv.id ≤ conv'.id)

instance (n : Nat) : DecidableRel (out.Leads n) :=
  fun _ _ => inferInstanceAs (Decidable (_ ∨ _))

def Database.findConversations (db : Database) (userUUID : String) (offset limit : Nat) :
    List ChatConversation :=
  (((db.joined userUUID).insertionSort (out.Leads db.tick)).drop offset).take limit

def Database.createConversation (db : Database) (row : ChatConversation) :
    Except DBError ChatConversation × Database :=
  if db.conversations.any fun c => c.privateKey = row.privateKey then
    (.error .duplicatedKey,{ db with nextConversation := db.nextConversation+1 })
  else
    let row := { row with id := db.nextConversation }
    (.ok row,{ db with
      conversations := db.conversations ++ [row]
      nextConversation := db.nextConversation+1 })

def numbered (lastReadAt : Int) (next : Nat) (rows : List ChatConversationMember) :
    List ChatConversationMember :=
  rows.mapIdx fun i row => { row with id := next+i, lastReadAt := lastReadAt, muteUntil := 0 }

def sameKey (m m' : ChatConversationMember) : Prop :=
  m.conversationID = m'.conversationID ∧ m.userUUID = m'.userUUID

instance (m m' : ChatConversationMember) : Decidable (sameKey m m') :=
  inferInstanceAs (Decidable (_ ∧ _))

def Database.createMembers (db : Database) (rows : List ChatConversationMember) :
    Except DBError Unit × Database :=
  if (db.members ++ rows).Pairwise fun m m' => ¬ sameKey m m' then
    (.ok (),{ db with
      members := db.members ++ numbered (out.clock db.tick) db.nextMember rows
      nextMember := db.nextMember+rows.length
      tick := db.tick+1 })
  else (.error .duplicatedKey,{ db with
    nextMember := db.nextMember+rows.length
    tick := db.tick+1 })

def Database.updateMember (db : Database) (row : ChatConversationMember)
    (cols : List MemberColumn) : Database :=
  { db with
    members := db.members.map fun m =>
      if m.id = row.id ∧ m.deleted = false then cols.foldl (fun m col => col.copy row m) m else m }

/-- The row with its ID and the defaults of the columns. -/
def ChatMessage.stored (row : ChatMessage) (id : Nat) (createdAt : Int) : ChatMessage :=
  { row with
    id := id
    msgType := if row.msgType = 0 then 1 else row.msgType
    createdAt := createdAt }

@[simp] theorem ChatMessage.stored_id (row : ChatMessage) (id : Nat) (createdAt : Int) :
    (row.stored id createdAt).id = id := rfl

@[simp] theorem ChatMessage.stored_conversationID (row : ChatMessage) (id : Nat) (createdAt : Int) :
    (row.stored id createdAt).conversationID = row.conversationID := rfl

@[simp] theorem ChatMessage.stored_sendUUID (row : ChatMessage) (id : Nat) (createdAt : Int) :
    (row.stored id createdAt).sendUUID = row.sendUUID := rfl

@[simp] theorem ChatMessage.stored_clientMsgID (row : ChatMessage) (id : Nat) (createdAt : Int) :
    (row.stored id createdAt).clientMsgID = row.clientMsgID := rfl

def Database.createMessage (db : Database) (row : ChatMessage) :
    Except DBError ChatMessage × Database :=
  if db.messages.any fun m => m.conversationID = row.conversationID ∧ m.sendUUID = row.sendUUID ∧
      m.clientMsgID = row.clientMsgID then
    (.error .duplicatedKey,{ db with nextMessage := db.nextMessage+1, tick := db.tick+1 })
  else
    let row := row.stored db.nextMessage (out.clock db.tick)
    (.ok row,{ db with
      messages := db.messages ++ [row]
      nextMessage := db.nextMessage+1
      tick := db.tick+1 })

def exec : (q : Stmt) → Database → q.Answer × Database
  | .takeConversation privateKey, db =>
    (found (db.conversations.find? fun c => c.privateKey = privateKey),db)
  | .getConversation id, db => (found (db.conversations.find? fun c => c.id = id),db)
  | .createConversation row, db => db.createConversation row
  | .updateConversation row cols, db =>
    (.ok (),{ db with
      conversations := db.conversations.map fun c =>
        if c.id = row.id then cols.foldl (fun c col => col.copy row c) c else c })
  | .takeMember conversationID userUUID, db =>
    (found (db.live.find? fun m => m.conversationID = conversationID ∧ m.userUUID = userUUID),db)
  | .findMembers conversationID, db =>
    (.ok (db.live.filter fun m => m.conversationID = conversationID),db)
  | .findMemberships userUUID, db => (.ok (db.live.filter fun m => m.userUUID = userUUID),db)
  | .createMembers rows, db => db.createMembers out rows
  | .updateMember row cols, db => (.ok (),db.updateMember row cols)
  | .deleteMember id, db =>
    (.ok (),{ db with
      members := db.members.map fun m => if m.id = id then { m with deleted := true } else m })
  | .takeMessage id conversationID, db =>
    (found (db.messages.find? fun m => m.id = id ∧ m.conversationID = conversationID),db)
  | .takeMessageByClient conversationID sendUUID clientMsgID, db =>
    (found (db.messages.find? fun m => m.conversationID = conversationID ∧ m.sendUUID = sendUUID ∧
      m.clientMsgID = clientMsgID),db)
  | .countMessages conversationID lastReadMessageID userUUID, db =>
    (.ok (db.unread conversationID lastReadMessageID userUUID).length,db)
  | .findMessages conversationID mode limit, db =>
    (.ok (db.findMessages conversationID mode limit),db)
  | .findConversations userUUID offset limit, db =>
    (.ok (db.findConversations out userUUID offset limit),{ db with tick := db.tick+1 })
  | .createMessage row, db => db.createMessage out row
  | .updateMessage row cols, db =>
    (.ok (),{ db with
      messages := db.messages.map fun m =>
        if m.id = row.id then cols.foldl (fun m col => col.copy row m) m else m })
  | .now, db => (out.clock db.tick,{ db with tick := db.tick+1 })
  | .generateUUID, db => (out.uuid db.tick,{ db with tick := db.tick+1 })
  | .sendJSON uuid event, db => ((),{ db with pushed := db.pushed ++ [(uuid,event)] })
  | .respond _, db => ((),db)

end Statements

end Imy.Chat
