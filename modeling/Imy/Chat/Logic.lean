import Imy.Chat.Database
set_option autoImplicit false

/-!
The calls of `internal/logic/chat`. Each returns its response together with the
goroutine that it starts just before it returns.
-/

namespace Imy.Chat
open Imy.Lib

abbrev ChatM := Prog Stmt Stmt.Answer ErrCode

abbrev Reply := Response × ChatM Unit

def ask (q : Stmt) : ChatM q.Answer := Prog.query q

def serve (main : ChatM Reply) : ChatM Unit := do
  match ← main.attempt with
  | .error e => ask (.respond (.error e))
  | .ok (response,goroutine) =>
    ask (.respond (.ok response))
    goroutine

def requireMember (conversationID : Nat) (userUUID : String) (missing : ErrCode) :
    ChatM ChatConversationMember := do
  match ← ask (.takeMember conversationID userUUID) with
  | .ok mem => return mem
  | .error .recordNotFound => .fail missing
  | .error e => .fail (.dataQueryFail e)

def broadcast (event : Event) (members : List ChatConversationMember) : ChatM Unit :=
  forM members fun m => ask (.sendJSON m.userUUID event)

section SendMessage

structure SendMessageReq where
  uuid : String
  conversationId : Nat
  clientMsgId : String
  msgType : UInt32
  content : String
  contentExtra : String
  replyToMessageId : Nat
  mentionedUuids : List String
  deriving DecidableEq, Repr

def SendMessageReq.message (req : SendMessageReq) : ChatMessage where
  id := 0
  conversationID := req.conversationId
  sendUUID := req.uuid
  clientMsgID := req.clientMsgId
  msgType := req.msgType.toUInt8.toInt8
  content := req.content
  contentExtra := req.contentExtra
  replyToMessageID := req.replyToMessageId
  mentionedUuids := ",".intercalate req.mentionedUuids
  isSystem := req.msgType = 6
  isRevoked := false
  revokedAt := none
  createdAt := 0

def ternary (cond : Bool) (a b : UInt32) : UInt32 := if cond then a else b

def ChatMessage.info (m : ChatMessage) : MessageInfo where
  id := m.id
  conversationId := m.conversationID
  sendUuid := m.sendUUID
  msgType := m.msgType.toInt32.toUInt32
  content := m.content
  contentExtra := m.contentExtra
  replyToMessageId := m.replyToMessageID
  mentionedUuids := if m.mentionedUuids ≠ "" then m.mentionedUuids.splitOn "," else []
  isSystem := ternary m.isSystem 1 0
  isRevoked := ternary m.isRevoked 1 0
  createdAt := m.createdAt

def tellUnread (uuid : String) (conversationID : Nat) (unread : UInt32) : ChatM Unit :=
  ask (.sendJSON uuid (.unreadCountChange ⟨conversationID,unread⟩))

def storeUnread (mem : ChatConversationMember) (cnt : Nat) : ChatM Unit := do
  let _ ← ask (.updateMember { mem with unreadCount := UInt32.ofNat cnt } [.unreadCount])
  tellUnread mem.userUUID mem.conversationID (UInt32.ofNat cnt)

def recountMember (m : ChatMessage) (mem : ChatConversationMember) : ChatM Unit := do
  match ← ask (.countMessages m.conversationID mem.lastReadMessageID mem.userUUID) with
  | .error _ => pure ()
  | .ok cnt => storeUnread mem cnt

def refreshMember (m : ChatMessage) (mem : ChatConversationMember) : ChatM Unit := do
  ask (.sendJSON mem.userUUID (.messageNew m.info))
  recountMember m mem

def broadcastMessage (m : ChatMessage) : ChatM Unit := do
  match ← ask (.findMembers m.conversationID) with
  | .error _ => pure ()
  | .ok members => forM members (refreshMember m)

def pointToMessage (req : SendMessageReq) (msg : ChatMessage) : ChatM Reply := do
  let _ ← ask (.updateConversation
    { (default : ChatConversation) with id := req.conversationId, lastMessageID := msg.id }
    [.lastMessageID])
  return (.sent msg.id msg.clientMsgID msg.createdAt,broadcastMessage msg)

def insertMessage (req : SendMessageReq) : ChatM Reply := do
  match ← ask (.createMessage req.message) with
  | .error e => .fail (.dataCreateFail e)
  | .ok msg => pointToMessage req msg

def lookUpMessage (req : SendMessageReq) : ChatM Reply := do
  match ← ask (.takeMessageByClient req.conversationId req.uuid req.clientMsgId) with
  | .ok exist => return (.sent exist.id exist.clientMsgID exist.createdAt,pure ())
  | .error .recordNotFound => insertMessage req
  | .error e => .fail (.dataQueryFail e)

def SendMessageReq.Invalid (req : SendMessageReq) : Prop :=
  req.uuid = "" ∨ req.conversationId = 0 ∨ req.clientMsgId = "" ∨ req.msgType = 0

instance (req : SendMessageReq) : Decidable req.Invalid :=
  inferInstanceAs (Decidable (_ ∨ _ ∨ _ ∨ _))

def sendMessage (req : SendMessageReq) : ChatM Reply :=
  if req.Invalid then .fail .invalidParam
  else do
    let _ ← requireMember req.conversationId req.uuid .authSession
    lookUpMessage req

end SendMessage

section ReadMessages

structure ReadMessagesReq where
  uuid : String
  conversationId : Nat
  upToMessageId : Nat
  deriving DecidableEq, Repr

def announceRead (conversationID : Nat) (reader : String) (lastReadID : Nat) (unread : UInt32) :
    ChatM Unit := do
  match ← ask (.findMembers conversationID) with
  | .error _ => pure ()
  | .ok members =>
    let readAt ← ask .now
    broadcast (.messageRead conversationID reader lastReadID readAt) members
  tellUnread reader conversationID unread

def storeRead (req : ReadMessagesReq) (mem : ChatConversationMember) (cnt : Nat)
    (lastReadAt : Int) : ChatM Reply := do
  let mem := { mem with
    lastReadMessageID := req.upToMessageId
    lastReadAt := lastReadAt
    unreadCount := UInt32.ofNat cnt }
  match ← ask (.updateMember mem [.lastReadMessageID,.lastReadAt,.unreadCount]) with
  | .error e => .fail (.dataModifyFail e)
  | .ok _ => return (.read req.upToMessageId,
      announceRead req.conversationId req.uuid req.upToMessageId (UInt32.ofNat cnt))

def advanceRead (req : ReadMessagesReq) (mem : ChatConversationMember) : ChatM Reply := do
  match ← ask (.countMessages req.conversationId req.upToMessageId req.uuid) with
  | .error e => .fail (.dataQueryFail e)
  | .ok cnt =>
    let lastReadAt ← ask .now
    storeRead req mem cnt lastReadAt

def checkMessage (req : ReadMessagesReq) (mem : ChatConversationMember) : ChatM Reply := do
  match ← ask (.takeMessage req.upToMessageId req.conversationId) with
  | .error .recordNotFound => .fail .invalidParam
  | .error e => .fail (.dataQueryFail e)
  | .ok _ => advanceRead req mem

def checkProgress (req : ReadMessagesReq) (mem : ChatConversationMember) : ChatM Reply :=
  if req.upToMessageId = 0 ∨ req.upToMessageId ≤ mem.lastReadMessageID then
    return (.read mem.lastReadMessageID,pure ())
  else checkMessage req mem

def ReadMessagesReq.Invalid (req : ReadMessagesReq) : Prop :=
  req.uuid = "" ∨ req.conversationId = 0

instance (req : ReadMessagesReq) : Decidable req.Invalid :=
  inferInstanceAs (Decidable (_ ∨ _))

def readMessages (req : ReadMessagesReq) : ChatM Reply :=
  if req.Invalid then .fail .invalidParam
  else do
    let mem ← requireMember req.conversationId req.uuid .authSession
    checkProgress req mem

end ReadMessages

def addUnreadItem (uuid : String) (items : List UnreadItem) (m : ChatConversationMember) :
    ChatM (List UnreadItem) := do
  match ← ask (.countMessages m.conversationID m.lastReadMessageID uuid) with
  | .error e => .fail (.dataQueryFail e)
  | .ok cnt => return items ++ [⟨m.conversationID,UInt32.ofNat cnt⟩]

def getUnreadCounts (uuid : String) : ChatM Reply :=
  if uuid = "" then .fail .invalidParam
  else do
    match ← ask (.findMemberships uuid) with
    | .error e => .fail (.dataQueryFail e)
    | .ok members =>
      let items ← members.foldlM (addUnreadItem uuid) []
      return (.unread items,pure ())

section Membership

def memberRow (conversationID : Nat) (userUUID : String) : ChatConversationMember :=
  { (default : ChatConversationMember) with
    conversationID := conversationID, userUUID := userUUID, role := 1 }

def newUUIDs (there : List String) (uuids : List String) : List String :=
  uuids.foldl (fun added u => if u = "" ∨ u ∈ there ∨ u ∈ added then added else added ++ [u]) []

def setMemberCount (conversationID : Nat) (memberCount : UInt32) : ChatM Unit := do
  let _ ← ask (.updateConversation
    { (default : ChatConversation) with id := conversationID, memberCount := memberCount }
    [.memberCount])

structure AddMembersReq where
  uuid : String
  conversationId : Nat
  memberUUIDs : List String
  deriving DecidableEq, Repr

def announceAdded (conversationID : Nat) (added : List String) : ChatM Unit := do
  match ← ask (.findMembers conversationID) with
  | .error _ => pure ()
  | .ok members => broadcast (.memberAdded conversationID added) members
  forM added fun u => tellUnread u conversationID 0

def insertMembers (conversationID : Nat) (existing : Nat) (toCreate : List String) : ChatM Reply :=
  if toCreate = [] then return (.none,announceAdded conversationID [])
  else do
    match ← ask (.createMembers (toCreate.map (memberRow conversationID))) with
    | .error e => .fail (.dataCreateFail e)
    | .ok _ =>
      setMemberCount conversationID (UInt32.ofNat (existing+toCreate.length))
      return (.none,announceAdded conversationID toCreate)

def addMembers (req : AddMembersReq) : ChatM Reply :=
  if req.uuid = "" ∨ req.conversationId = 0 ∨ req.memberUUIDs = [] then .fail .invalidParam
  else do
    let _ ← requireMember req.conversationId req.uuid .authSession
    match ← ask (.findMembers req.conversationId) with
    | .error e => .fail (.dataQueryFail e)
    | .ok existMembers =>
      insertMembers req.conversationId existMembers.length
        (newUUIDs (existMembers.map (·.userUUID)) req.memberUUIDs)

structure RemoveMemberReq where
  uuid : String
  conversationId : Nat
  removeUUID : String
  deriving DecidableEq, Repr

def announceRemoved (conversationID : Nat) (removed : String) : ChatM Unit := do
  match ← ask (.findMembers conversationID) with
  | .error _ => pure ()
  | .ok members => broadcast (.memberRemoved conversationID removed) members
  ask (.sendJSON removed (.memberRemoved conversationID removed))

def removeMember (req : RemoveMemberReq) : ChatM Reply :=
  if req.uuid = "" ∨ req.conversationId = 0 ∨ req.removeUUID = "" then .fail .invalidParam
  else do
    let _ ← requireMember req.conversationId req.uuid .authSession
    let mem ← requireMember req.conversationId req.removeUUID .invalidParam
    match ← ask (.deleteMember mem.id) with
    | .error e => .fail (.dataModifyFail e)
    | .ok _ =>
      match ← ask (.getConversation req.conversationId) with
      | .error _ => pure ()
      | .ok conv =>
        if 0 < conv.memberCount then setMemberCount conv.id (conv.memberCount-1) else pure ()
      return (.none,announceRemoved req.conversationId req.removeUUID)

structure CreateGroupConversationReq where
  uuid : String
  name : String
  memberUUIDs : List String
  deriving DecidableEq, Repr

def ChatConversation.info (conv : ChatConversation) : ConversationInfo where
  conversationId := conv.id
  type := conv.type.toInt32.toUInt32
  privateKey := conv.privateKey
  name := conv.name
  memberCount := conv.memberCount
  lastMessageId := conv.lastMessageID
  avatar := conv.avatar
  extra := conv.extra

/-- To everybody in the list. For a group the source goes through a map, in no
particular order. -/
def announceCreated (info : ConversationInfo) (uuids : List String) : ChatM Unit :=
  forM uuids fun u => ask (.sendJSON u (.conversationCreated info))

def createGroupConversation (req : CreateGroupConversationReq) : ChatM Reply :=
  if req.uuid = "" then .fail .invalidParam
  else do
    let key ← ask .generateUUID
    match ← ask (.createConversation { (default : ChatConversation) with
      type := 2, privateKey := "g:" ++ key, createUUID := req.uuid, name := req.name }) with
    | .error e => .fail (.dataCreateFail e)
    | .ok conv =>
      let members := req.uuid :: newUUIDs [req.uuid] req.memberUUIDs
      match ← ask (.createMembers (members.map (memberRow conv.id))) with
      | .error e => .fail (.dataCreateFail e)
      | .ok _ =>
        let conv := { conv with memberCount := UInt32.ofNat members.length }
        setMemberCount conv.id conv.memberCount
        return (.conversation conv.info,announceCreated conv.info members)

structure CreatePrivateConversationReq where
  uuid : String
  peerUUID : String
  deriving DecidableEq, Repr

/-- The two UUIDs in order, with a colon between them. -/
def privateKeyOf (uuid peerUUID : String) : String :=
  if peerUUID < uuid then "p:" ++ peerUUID ++ ":" ++ uuid else "p:" ++ uuid ++ ":" ++ peerUUID

theorem privateKeyOf_comm {a b : String} (h : a ≠ b) : privateKeyOf a b = privateKeyOf b a := by
  rw [privateKeyOf,privateKeyOf]
  by_cases hlt : a < b
  · rw [if_neg (String.lt_asymm hlt),if_pos hlt]
  · have hgt : b < a := by
      by_contra hge
      exact h (String.le_antisymm hge hlt)
    rw [if_pos hgt,if_neg hlt]

def completeMember (conv : ChatConversation) (u : String) : ChatM Unit := do
  match ← ask (.takeMember conv.id u) with
  | .ok _ => pure ()
  | .error .recordNotFound =>
    let _ ← ask (.createMembers [memberRow conv.id u])
    setMemberCount conv.id (conv.memberCount+1)
  | .error e => .fail (.dataQueryFail e)

def createPair (req : CreatePrivateConversationReq) : ChatM ChatConversation := do
  match ← ask (.createConversation { (default : ChatConversation) with
    type := 1, privateKey := privateKeyOf req.uuid req.peerUUID, createUUID := req.uuid
    memberCount := 2 }) with
  | .error e => .fail (.dataCreateFail e)
  | .ok conv =>
    match ← ask (.createMembers [memberRow conv.id req.uuid,memberRow conv.id req.peerUUID]) with
    | .error e => .fail (.dataCreateFail e)
    | .ok _ => return conv

def findPair (req : CreatePrivateConversationReq) : ChatM ChatConversation := do
  match ← ask (.takeConversation (privateKeyOf req.uuid req.peerUUID)) with
  | .ok conv =>
    forM [req.uuid,req.peerUUID] (completeMember conv)
    return conv
  | .error .recordNotFound => createPair req
  | .error e => .fail (.dataQueryFail e)

def createPrivateConversation (req : CreatePrivateConversationReq) : ChatM Reply :=
  if req.uuid = "" ∨ req.peerUUID = "" ∨ req.uuid = req.peerUUID then .fail .invalidParam
  else do
    let conv ← findPair req
    return (.conversation conv.info,announceCreated conv.info [req.uuid,req.peerUUID])

end Membership

section RecallMessage

structure RecallMessageReq where
  uuid : String
  conversationId : Nat
  messageId : Nat
  deriving DecidableEq, Repr

def announceRecalled (conversationID messageID : Nat) (operator : String) (revokedAt : Int) :
    ChatM Unit := do
  match ← ask (.findMembers conversationID) with
  | .error _ => pure ()
  | .ok members =>
    broadcast (.messageRecalled conversationID messageID operator revokedAt) members

def requireRecallRight (req : RecallMessageReq) (msg : ChatMessage) : ChatM Unit :=
  if msg.sendUUID = req.uuid then pure ()
  else do
    let mem ← requireMember req.conversationId req.uuid .authSession
    if mem.role < 2 then .fail .auth else pure ()

def recallMessage (req : RecallMessageReq) : ChatM Reply :=
  if req.uuid = "" ∨ req.conversationId = 0 ∨ req.messageId = 0 then .fail .invalidParam
  else do
    let _ ← requireMember req.conversationId req.uuid .authSession
    match ← ask (.takeMessage req.messageId req.conversationId) with
    | .error .recordNotFound => .fail .invalidParam
    | .error e => .fail (.dataQueryFail e)
    | .ok msg =>
      requireRecallRight req msg
      let now ← ask .now
      match ← ask (.updateMessage { msg with isRevoked := true, revokedAt := some now }
        [.isRevoked,.revokedAt]) with
      | .error e => .fail (.dataModifyFail e)
      | .ok _ =>
        return (.none,announceRecalled req.conversationId req.messageId req.uuid now)

end RecallMessage

section Queries

structure GetMessagesReq where
  uuid : String
  conversationId : Nat
  beforeId : Nat
  afterId : Nat
  limit : Int64
  deriving DecidableEq, Repr

def clampedLimit (given default_ : Int64) : Int64 :=
  let limit := if given ≤ 0 then default_ else given
  if 50 < limit then 50 else limit

theorem clampedLimit_bounds (given : Int64) {default_ : Int64} (h : 0 < default_) :
    0 < (clampedLimit given default_).toInt ∧ (clampedLimit given default_).toInt ≤ 50 := by
  have hfifty : (50 : Int64).toInt = 50 := rfl
  have hzero : (0 : Int64).toInt = 0 := rfl
  rw [Int64.lt_iff_toInt_lt,hzero] at h
  rw [clampedLimit]
  split <;> split <;> simp_all [Int64.lt_iff_toInt_lt,Int64.le_iff_toInt_le]

def GetMessagesReq.pageMode (req : GetMessagesReq) : PageMode :=
  if 0 < req.afterId then .after req.afterId
  else if 0 < req.beforeId then .before req.beforeId
  else .latest

def PageMode.ascending : PageMode → List ChatMessage → List ChatMessage
  | .after _, list => list
  | _, list => list.reverse

def getMessages (req : GetMessagesReq) : ChatM Reply :=
  if req.uuid = "" ∨ req.conversationId = 0 then .fail .invalidParam
  else do
    let _ ← requireMember req.conversationId req.uuid .authSession
    match ← ask (.findMessages req.conversationId req.pageMode
      (clampedLimit req.limit 20).toNatClampNeg) with
    | .error e => .fail (.dataQueryFail e)
    | .ok list => return (.messages ((req.pageMode.ascending list).map (·.info)),pure ())

structure GetConversationsReq where
  uuid : String
  pageSize : Int64
  pageIndex : Int64
  deriving DecidableEq, Repr

/-- The offset can overflow; a negative one is left out of the query. -/
def GetConversationsReq.offset (req : GetConversationsReq) : Int64 :=
  ((if req.pageIndex ≤ 0 then 1 else req.pageIndex)-1)*clampedLimit req.pageSize 10

def getConversations (req : GetConversationsReq) : ChatM Reply :=
  if req.uuid = "" then .fail .invalidParam
  else do
    match ← ask (.findConversations req.uuid req.offset.toNatClampNeg
      (clampedLimit req.pageSize 10).toNatClampNeg) with
    | .error e => .fail (.dataQueryFail e)
    | .ok convs => return (.conversations (convs.map (·.info)),pure ())

structure GetConversationDetailReq where
  uuid : String
  conversationId : Nat
  deriving DecidableEq, Repr

def ChatConversationMember.info (m : ChatConversationMember) : ConversationMember where
  userUUID := m.userUUID
  role := m.role.toInt32.toUInt32
  alias_ := m.alias_
  muteUntil := m.muteUntil
  isPinned := ternary m.isPinned 1 0

def getConversationDetail (req : GetConversationDetailReq) : ChatM Reply :=
  if req.uuid = "" ∨ req.conversationId = 0 then .fail .invalidParam
  else do
    let _ ← requireMember req.conversationId req.uuid .authSession
    match ← ask (.getConversation req.conversationId) with
    | .error e => .fail (.dataQueryFail e)
    | .ok conv =>
      match ← ask (.findMembers req.conversationId) with
      | .error e => .fail (.dataQueryFail e)
      | .ok members => return (.detail conv.info (members.map (·.info)),pure ())

end Queries

section UpdateConversationSettings

structure UpdateSettingsPresence where
  alias_ : Bool
  muteUntil : Bool
  isPinned : Bool
  deriving DecidableEq, Repr

structure UpdateConversationSettingsReq where
  uuid : String
  conversationId : Nat
  alias_ : String
  muteUntil : String
  isPinned : UInt32
  presence : UpdateSettingsPresence
  deriving DecidableEq, Repr

def UpdateConversationSettingsReq.muteTime (parse : String → Option Int)
    (req : UpdateConversationSettingsReq) : Option Int :=
  if req.muteUntil = "" then some 0 else parse req.muteUntil

/-- The row as it is handed back, when the time could be read. -/
def UpdateConversationSettingsReq.row (req : UpdateConversationSettingsReq) (muteUntil : Int)
    (mem : ChatConversationMember) : ChatConversationMember :=
  { mem with
    alias_ := if req.presence.alias_ then req.alias_ else mem.alias_
    muteUntil := if req.presence.muteUntil then muteUntil else mem.muteUntil
    isPinned := if req.presence.isPinned then req.isPinned ≠ 0 else mem.isPinned }

def UpdateConversationSettingsReq.cols (req : UpdateConversationSettingsReq) : List MemberColumn :=
  (if req.presence.alias_ then [.alias_] else []) ++
    (if req.presence.muteUntil then [.muteUntil] else []) ++
    (if req.presence.isPinned then [.isPinned] else [])

def storeSettings (req : UpdateConversationSettingsReq) (muteUntil : Int)
    (mem : ChatConversationMember) : ChatM Reply :=
  if req.cols = [] then return (.none,pure ())
  else do
    match ← ask (.updateMember (req.row muteUntil mem) req.cols) with
    | .error e => .fail (.dataModifyFail e)
    | .ok _ => return (.none,pure ())

def updateConversationSettings (parse : String → Option Int)
    (req : UpdateConversationSettingsReq) : ChatM Reply :=
  if req.uuid = "" ∨ req.conversationId = 0 then .fail .invalidParam
  else do
    let mem ← requireMember req.conversationId req.uuid .authSession
    match (if req.presence.muteUntil then req.muteTime parse else some mem.muteUntil) with
    | none => .fail .invalidParam
    | some muteUntil => storeSettings req muteUntil mem

end UpdateConversationSettings

end Imy.Chat
