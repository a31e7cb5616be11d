import Imy.Chat.Logic
set_option autoImplicit false

namespace Imy.Chat
open Imy.Lib

inductive Stage where
  | sendCheck (req : SendMessageReq)
  | lookUp (req : SendMessageReq)
  | insert (req : SendMessageReq)
  | point (req : SendMessageReq) (msg : ChatMessage)
  | readCheck (req : ReadMessagesReq)
  | validate (req : ReadMessagesReq) (mem : ChatConversationMember)
  | count (req : ReadMessagesReq) (mem : ChatConversationMember)
  | stamp (req : ReadMessagesReq) (mem : ChatConversationMember) (cnt : Nat)
  | store (req : ReadMessagesReq) (mem : ChatConversationMember) (cnt : Nat) (lastReadAt : Int)
  | respond (result : Except ErrCode Response) (goroutine : Stage)
  | list (msg : ChatMessage)
  | refresh (msg : ChatMessage) (members : List ChatConversationMember)
  | recount (msg : ChatMessage) (mem : ChatConversationMember) (rest : List ChatConversationMember)
  | restore (msg : ChatMessage) (mem : ChatConversationMember) (rest : List ChatConversationMember)
      (cnt : Nat)
  | retell (msg : ChatMessage) (mem : ChatConversationMember) (rest : List ChatConversationMember)
      (cnt : Nat)
  | readers (conversationID : Nat) (reader : String) (lastReadID : Nat) (unread : UInt32)
  | readStamp (conversationID : Nat) (reader : String) (lastReadID : Nat) (unread : UInt32)
      (members : List ChatConversationMember)
  | announce (conversationID : Nat) (reader : String) (event : Event) (unread : UInt32)
      (members : List ChatConversationMember)
  | finished

def Stage.program : Stage → ChatM Unit
  | .sendCheck req => serve do
    let _ ← requireMember req.conversationId req.uuid .authSession
    lookUpMessage req
  | .lookUp req => serve (lookUpMessage req)
  | .insert req => serve (insertMessage req)
  | .point req msg => serve (pointToMessage req msg)
  | .readCheck req => serve do
    let mem ← requireMember req.conversationId req.uuid .authSession
    checkProgress req mem
  | .validate req mem => serve (checkMessage req mem)
  | .count req mem => serve (advanceRead req mem)
  | .stamp req mem cnt => serve do
    let lastReadAt ← ask .now
    storeRead req mem cnt lastReadAt
  | .store req mem cnt lastReadAt => serve (storeRead req mem cnt lastReadAt)
  | .respond result goroutine => do
    ask (.respond result)
    goroutine.program
  | .list msg => broadcastMessage msg
  | .refresh msg members => forM members (refreshMember msg)
  | .recount msg mem rest => do
    recountMember msg mem
    forM rest (refreshMember msg)
  | .restore msg mem rest cnt => do
    storeUnread mem cnt
    forM rest (refreshMember msg)
  | .retell msg mem rest cnt => do
    tellUnread mem.userUUID mem.conversationID (UInt32.ofNat cnt)
    forM rest (refreshMember msg)
  | .readers conversationID reader lastReadID unread =>
    announceRead conversationID reader lastReadID unread
  | .readStamp conversationID reader lastReadID unread members => do
    let readAt ← ask .now
    broadcast (.messageRead conversationID reader lastReadID readAt) members
    tellUnread reader conversationID unread
  | .announce conversationID reader event unread members => do
    broadcast event members
    tellUnread reader conversationID unread
  | .finished => pure ()

inductive Call where
  | send (req : SendMessageReq)
  | read (req : ReadMessagesReq)

def Call.main : Call → ChatM Reply
  | .send req => sendMessage req
  | .read req => readMessages req

def Call.start : Call → Stage
  | .send req => if req.Invalid then .respond (.error .invalidParam) .finished else .sendCheck req
  | .read req => if req.Invalid then .respond (.error .invalidParam) .finished else .readCheck req

theorem Call.program_start (call : Call) : serve call.main = call.start.program := by
  cases call with
  | send req =>
    simp only [Call.main,sendMessage,Call.start]
    split <;> rfl
  | read req =>
    simp only [Call.main,readMessages,Call.start]
    split <;> rfl

/-- The row that `ReadMessages` hands back. -/
def ReadMessagesReq.row (req : ReadMessagesReq) (mem : ChatConversationMember) (cnt : Nat)
    (lastReadAt : Int) : ChatConversationMember :=
  { mem with
    lastReadMessageID := req.upToMessageId
    lastReadAt := lastReadAt
    unreadCount := UInt32.ofNat cnt }

/-- The row that the goroutine of `SendMessage` hands back. -/
def ChatConversationMember.recounted (mem : ChatConversationMember) (cnt : Nat) :
    ChatConversationMember :=
  { mem with unreadCount := UInt32.ofNat cnt }

def Database.pointTo (db : Database) (conversationID lastMessageID : Nat) : Database :=
  { db with
    conversations := db.conversations.map fun c =>
      if c.id = conversationID then { c with lastMessageID := lastMessageID } else c }

def Database.push (db : Database) (uuid : String) (event : Event) : Database :=
  { db with pushed := db.pushed ++ [(uuid,event)] }

section Step
variable (out : Outer) (db : Database)

/-- One statement of a call: from which stage to which, and the tables after it. -/
inductive Step : Stage → Stmt → Stage → Database → Prop where
  | sendMember (req : SendMessageReq) (mem : ChatConversationMember)
      (hmem : db.live.find? (fun m => m.conversationID = req.conversationId ∧
        m.userUUID = req.uuid) = some mem) :
      Step (.sendCheck req) (.takeMember req.conversationId req.uuid) (.lookUp req) db
  | sendStranger (req : SendMessageReq)
      (hmem : db.live.find? (fun m => m.conversationID = req.conversationId ∧
        m.userUUID = req.uuid) = none) :
      Step (.sendCheck req) (.takeMember req.conversationId req.uuid)
        (.respond (.error .authSession) .finished) db
  | hit (req : SendMessageReq) (exist : ChatMessage)
      (hexist : db.messages.find? (fun m => m.conversationID = req.conversationId ∧
        m.sendUUID = req.uuid ∧ m.clientMsgID = req.clientMsgId) = some exist) :
      Step (.lookUp req) (.takeMessageByClient req.conversationId req.uuid req.clientMsgId)
        (.respond (.ok (.sent exist.id exist.clientMsgID exist.createdAt)) .finished) db
  | miss (req : SendMessageReq)
      (hexist : db.messages.find? (fun m => m.conversationID = req.conversationId ∧
        m.sendUUID = req.uuid ∧ m.clientMsgID = req.clientMsgId) = none) :
      Step (.lookUp req) (.takeMessageByClient req.conversationId req.uuid req.clientMsgId)
        (.insert req) db
  | inserted (req : SendMessageReq) (msg : ChatMessage) (db' : Database)
      (hcreate : db.createMessage out req.message = (.ok msg,db')) :
      Step (.insert req) (.createMessage req.message) (.point req msg) db'
  | duplicate (req : SendMessageReq) (e : DBError) (db' : Database)
      (hcreate : db.createMessage out req.message = (.error e,db')) :
      Step (.insert req) (.createMessage req.message)
        (.respond (.error (.dataCreateFail e)) .finished) db'
  | pointed (req : SendMessageReq) (msg : ChatMessage) :
      Step (.point req msg) (.updateConversation
          { (default : ChatConversation) with id := req.conversationId, lastMessageID := msg.id }
          [.lastMessageID])
        (.respond (.ok (.sent msg.id msg.clientMsgID msg.createdAt)) (.list msg))
        (db.pointTo req.conversationId msg.id)
  | readStale (req : ReadMessagesReq) (mem : ChatConversationMember)
      (hmem : db.live.find? (fun m => m.conversationID = req.conversationId ∧
        m.userUUID = req.uuid) = some mem)
      (hold : req.upToMessageId = 0 ∨ req.upToMessageId ≤ mem.lastReadMessageID) :
      Step (.readCheck req) (.takeMember req.conversationId req.uuid)
        (.respond (.ok (.read mem.lastReadMessageID)) .finished) db
  | readAhead (req : ReadMessagesReq) (mem : ChatConversationMember)
      (hmem : db.live.find? (fun m => m.conversationID = req.conversationId ∧
        m.userUUID = req.uuid) = some mem)
      (hnew : ¬ (req.upToMessageId = 0 ∨ req.upToMessageId ≤ mem.lastReadMessageID)) :
      Step (.readCheck req) (.takeMember req.conversationId req.uuid) (.validate req mem) db
  | readStranger (req : ReadMessagesReq)
      (hmem : db.live.find? (fun m => m.conversationID = req.conversationId ∧
        m.userUUID = req.uuid) = none) :
      Step (.readCheck req) (.takeMember req.conversationId req.uuid)
        (.respond (.error .authSession) .finished) db
  | valid (req : ReadMessagesReq) (mem : ChatConversationMember) (msg : ChatMessage)
      (hmsg : db.messages.find? (fun m => m.id = req.upToMessageId ∧
        m.conversationID = req.conversationId) = some msg) :
      Step (.validate req mem) (.takeMessage req.upToMessageId req.conversationId)
        (.count req mem) db
  | unknown (req : ReadMessagesReq) (mem : ChatConversationMember)
      (hmsg : db.messages.find? (fun m => m.id = req.upToMessageId ∧
        m.conversationID = req.conversationId) = none) :
      Step (.validate req mem) (.takeMessage req.upToMessageId req.conversationId)
        (.respond (.error .invalidParam) .finished) db
  | counted (req : ReadMessagesReq) (mem : ChatConversationMember) :
      Step (.count req mem) (.countMessages req.conversationId req.upToMessageId req.uuid)
        (.stamp req mem (db.unread req.conversationId req.upToMessageId req.uuid).length) db
  | stamped (req : ReadMessagesReq) (mem : ChatConversationMember) (cnt : Nat) :
      Step (.stamp req mem cnt) .now (.store req mem cnt (out.clock db.tick))
        { db with tick := db.tick+1 }
  | stored (req : ReadMessagesReq) (mem : ChatConversationMember) (cnt : Nat) (lastReadAt : Int) :
      Step (.store req mem cnt lastReadAt)
        (.updateMember (req.row mem cnt lastReadAt) [.lastReadMessageID,.lastReadAt,.unreadCount])
        (.respond (.ok (.read req.upToMessageId))
          (.readers req.conversationId req.uuid req.upToMessageId (UInt32.ofNat cnt)))
        (db.updateMember (req.row mem cnt lastReadAt) [.lastReadMessageID,.lastReadAt,.unreadCount])
  | responded (result : Except ErrCode Response) (goroutine : Stage) :
      Step (.respond result goroutine) (.respond result) goroutine db
  | listed (msg : ChatMessage) :
      Step (.list msg) (.findMembers msg.conversationID)
        (.refresh msg (db.live.filter fun m => m.conversationID = msg.conversationID)) db
  | refreshed (msg : ChatMessage) (mem : ChatConversationMember)
      (rest : List ChatConversationMember) :
      Step (.refresh msg (mem :: rest)) (.sendJSON mem.userUUID (.messageNew msg.info))
        (.recount msg mem rest) (db.push mem.userUUID (.messageNew msg.info))
  | recounted (msg : ChatMessage) (mem : ChatConversationMember)
      (rest : List ChatConversationMember) :
      Step (.recount msg mem rest)
        (.countMessages msg.conversationID mem.lastReadMessageID mem.userUUID)
        (.restore msg mem rest
          (db.unread msg.conversationID mem.lastReadMessageID mem.userUUID).length) db
  | restored (msg : ChatMessage) (mem : ChatConversationMember)
      (rest : List ChatConversationMember) (cnt : Nat) :
      Step (.restore msg mem rest cnt) (.updateMember (mem.recounted cnt) [.unreadCount])
        (.retell msg mem rest cnt) (db.updateMember (mem.recounted cnt) [.unreadCount])
  | retold (msg : ChatMessage) (mem : ChatConversationMember)
      (rest : List ChatConversationMember) (cnt : Nat) :
      Step (.retell msg mem rest cnt)
        (.sendJSON mem.userUUID (.unreadCountChange ⟨mem.conversationID,UInt32.ofNat cnt⟩))
        (.refresh msg rest)
        (db.push mem.userUUID (.unreadCountChange ⟨mem.conversationID,UInt32.ofNat cnt⟩))
  | readersListed (conversationID : Nat) (reader : String) (lastReadID : Nat) (unread : UInt32) :
      Step (.readers conversationID reader lastReadID unread) (.findMembers conversationID)
        (.readStamp conversationID reader lastReadID unread
          (db.live.filter fun m => m.conversationID = conversationID)) db
  | readStamped (conversationID : Nat) (reader : String) (lastReadID : Nat) (unread : UInt32)
      (members : List ChatConversationMember) :
      Step (.readStamp conversationID reader lastReadID unread members) .now
        (.announce conversationID reader
          (.messageRead conversationID reader lastReadID (out.clock db.tick)) unread members)
        { db with tick := db.tick+1 }
  | announced (conversationID : Nat) (reader : String) (event : Event) (unread : UInt32)
      (m : ChatConversationMember) (members : List ChatConversationMember) :
      Step (.announce conversationID reader event unread (m :: members))
        (.sendJSON m.userUUID event)
        (.announce conversationID reader event unread members) (db.push m.userUUID event)
  | readerTold (conversationID : Nat) (reader : String) (event : Event) (unread : UInt32) :
      Step (.announce conversationID reader event unread [])
        (.sendJSON reader (.unreadCountChange ⟨conversationID,unread⟩)) .finished
        (db.push reader (.unreadCountChange ⟨conversationID,unread⟩))

theorem exec_takeMember (conversationID : Nat) (userUUID : String) :
    exec out (.takeMember conversationID userUUID) db =
      (found (db.live.find? fun m => m.conversationID = conversationID ∧
        m.userUUID = userUUID),db) :=
  rfl

theorem exec_takeMessageByClient (conversationID : Nat) (sendUUID clientMsgID : String) :
    exec out (.takeMessageByClient conversationID sendUUID clientMsgID) db =
      (found (db.messages.find? fun m => m.conversationID = conversationID ∧
        m.sendUUID = sendUUID ∧ m.clientMsgID = clientMsgID),db) :=
  rfl

theorem exec_takeMessage (id conversationID : Nat) :
    exec out (.takeMessage id conversationID) db =
      (found (db.messages.find? fun m => m.id = id ∧ m.conversationID = conversationID),db) :=
  rfl

/-- A call has ended, or its next statement is one of `Step`. -/
theorem Stage.step (st : Stage) : st.program = .ret () ∨ ∃ q k st', st.program = .ask q k ∧
    k (exec out q db).1 = st'.program ∧ Step out db st q st' (exec out q db).2 := by
  cases st with
  | sendCheck req =>
    refine Or.inr ?_
    cases hmem : db.live.find? (fun m => m.conversationID = req.conversationId ∧
        m.userUUID = req.uuid) with
    | none =>
      refine ⟨_,_,_,rfl,?_,.sendStranger req hmem⟩
      rw [exec_takeMember,hmem]
      rfl
    | some mem =>
      refine ⟨_,_,_,rfl,?_,.sendMember req mem hmem⟩
      rw [exec_takeMember,hmem]
      rfl
  | lookUp req =>
    refine Or.inr ?_
    cases hexist : db.messages.find? (fun m => m.conversationID = req.conversationId ∧
        m.sendUUID = req.uuid ∧ m.clientMsgID = req.clientMsgId) with
    | none =>
      refine ⟨_,_,_,rfl,?_,.miss req hexist⟩
      rw [exec_takeMessageByClient,hexist]
      rfl
    | some exist =>
      refine ⟨_,_,_,rfl,?_,.hit req exist hexist⟩
      rw [exec_takeMessageByClient,hexist]
      rfl
  | insert req =>
    refine Or.inr ?_
    rcases hcreate : db.createMessage out req.message with ⟨result,db'⟩
    have hexec : exec out (.createMessage req.message) db = (result,db') := hcreate
    cases result with
    | error e =>
      refine ⟨.createMessage req.message,_,
        .respond (.error (.dataCreateFail e)) .finished,rfl,?_,?_⟩
      · rw [hexec]
        rfl
      · rw [hexec]
        exact .duplicate req e db' hcreate
    | ok msg =>
      refine ⟨.createMessage req.message,_,.point req msg,rfl,?_,?_⟩
      · rw [hexec]
        rfl
      · rw [hexec]
        exact .inserted req msg db' hcreate
  | point req msg => exact Or.inr ⟨_,_,_,rfl,rfl,.pointed req msg⟩
  | readCheck req =>
    refine Or.inr ?_
    cases hmem : db.live.find? (fun m => m.conversationID = req.conversationId ∧
        m.userUUID = req.uuid) with
    | none =>
      refine ⟨_,_,_,rfl,?_,.readStranger req hmem⟩
      rw [exec_takeMember,hmem]
      rfl
    | some mem =>
      by_cases hold : req.upToMessageId = 0 ∨ req.upToMessageId ≤ mem.lastReadMessageID
      · refine ⟨_,_,_,rfl,?_,.readStale req mem hmem hold⟩
        rw [exec_takeMember,hmem]
        change serve (checkProgress req mem) = _
        rw [checkProgress,if_pos hold]
        rfl
      · refine ⟨_,_,_,rfl,?_,.readAhead req mem hmem hold⟩
        rw [exec_takeMember,hmem]
        change serve (checkProgress req mem) = _
        rw [checkProgress,if_neg hold]
        rfl
  | validate req mem =>
    refine Or.inr ?_
    cases hmsg : db.messages.find? (fun m => m.id = req.upToMessageId ∧
        m.conversationID = req.conversationId) with
    | none =>
      refine ⟨_,_,_,rfl,?_,.unknown req mem hmsg⟩
      rw [exec_takeMessage,hmsg]
      rfl
    | some msg =>
      refine ⟨_,_,_,rfl,?_,.valid req mem msg hmsg⟩
      rw [exec_takeMessage,hmsg]
      rfl
  | count req mem => exact Or.inr ⟨_,_,_,rfl,rfl,.counted req mem⟩
  | stamp req mem cnt => exact Or.inr ⟨_,_,_,rfl,rfl,.stamped req mem cnt⟩
  | store req mem cnt lastReadAt => exact Or.inr ⟨_,_,_,rfl,rfl,.stored req mem cnt lastReadAt⟩
  | respond result goroutine => exact Or.inr ⟨_,_,_,rfl,rfl,.responded result goroutine⟩
  | list msg => exact Or.inr ⟨_,_,_,rfl,rfl,.listed msg⟩
  | refresh msg members =>
    cases members with
    | nil => exact Or.inl rfl
    | cons mem rest => exact Or.inr ⟨_,_,_,rfl,rfl,.refreshed msg mem rest⟩
  | recount msg mem rest => exact Or.inr ⟨_,_,_,rfl,rfl,.recounted msg mem rest⟩
  | restore msg mem rest cnt => exact Or.inr ⟨_,_,_,rfl,rfl,.restored msg mem rest cnt⟩
  | retell msg mem rest cnt => exact Or.inr ⟨_,_,_,rfl,rfl,.retold msg mem rest cnt⟩
  | readers conversationID reader lastReadID unread =>
    exact Or.inr ⟨_,_,_,rfl,rfl,.readersListed conversationID reader lastReadID unread⟩
  | readStamp conversationID reader lastReadID unread members =>
    exact Or.inr ⟨_,_,_,rfl,rfl,.readStamped conversationID reader lastReadID unread members⟩
  | announce conversationID reader event unread members =>
    cases members with
    | nil => exact Or.inr ⟨_,_,_,rfl,rfl,.readerTold conversationID reader event unread⟩
    | cons m members =>
      exact Or.inr ⟨_,_,_,rfl,rfl,.announced conversationID reader event unread m members⟩
  | finished => exact Or.inl rfl

end Step

theorem Stage.step_of_ask {st : Stage} {q : Stmt} {k : q.Answer → ChatM Unit}
    (h : st.program = .ask q k) :
    ∃ st' db', Step countingOuter emptyDatabase st q st' db' := by
  rcases Stage.step countingOuter emptyDatabase st with hret | ⟨q',k',st',hprog,-,hstep⟩
  · rw [hret] at h
    cases h
  · rw [hprog] at h
    cases h
    exact ⟨st',_,hstep⟩

def SameMessageKey (row m : ChatMessage) : Prop :=
  m.conversationID = row.conversationID ∧ m.sendUUID = row.sendUUID ∧
    m.clientMsgID = row.clientMsgID

section Effects
variable {out : Outer} {db db' : Database} {st st' : Stage} {q : Stmt}

theorem createMessage_ok {row msg : ChatMessage}
    (h : db.createMessage out row = (.ok msg,db')) :
    (∀ m ∈ db.messages, ¬ SameMessageKey row m) ∧
      msg = row.stored db.nextMessage (out.clock db.tick) ∧
      db' = { db with
        messages := db.messages ++ [msg]
        nextMessage := db.nextMessage+1
        tick := db.tick+1 } := by
  unfold Database.createMessage at h
  split at h
  · cases h
  · rename_i hnone
    cases h
    refine ⟨?_,rfl,rfl⟩
    simpa [SameMessageKey] using hnone

theorem createMessage_error {row : ChatMessage} {e : DBError}
    (h : db.createMessage out row = (.error e,db')) :
    (∃ m ∈ db.messages, SameMessageKey row m) ∧
      db' = { db with nextMessage := db.nextMessage+1, tick := db.tick+1 } := by
  unfold Database.createMessage at h
  split at h
  · rename_i hsome
    cases h
    refine ⟨?_,rfl⟩
    simpa [SameMessageKey] using hsome
  · cases h

def Stage.Returned : Stage → Prop
  | .list _ | .refresh _ _ | .recount _ _ _ | .restore _ _ _ _ | .retell _ _ _ _
  | .readers _ _ _ _ | .readStamp _ _ _ _ _ | .announce _ _ _ _ _ | .finished => True
  | _ => False

def Stage.Inserting : Stage → Prop
  | .insert _ => True
  | _ => False

def Stage.Undecided : Stage → Prop
  | .sendCheck _ | .lookUp _ | .insert _ => True
  | _ => False

theorem Stage.Returned.not_undecided (h : st.Returned) : ¬ st.Undecided := by
  cases st <;> first | exact id | exact h.elim

theorem Stage.Inserting.undecided (h : st.Inserting) : st.Undecided := by
  cases st <;> first | exact trivial | exact h.elim

theorem Step.returned (h : Step out db st q st' db') (hst : st.Returned) :
    st'.Returned ∧ ∀ result, q ≠ .respond result := by
  cases h <;> first | exact hst.elim | exact ⟨trivial,by simp⟩

inductive Sending (req : SendMessageReq) : Stage → Prop where
  | check : Sending req (.sendCheck req)
  | lookUp : Sending req (.lookUp req)
  | insert : Sending req (.insert req)
  | point (msg : ChatMessage) : Sending req (.point req msg)
  | respond (result : Except ErrCode Response) (goroutine : Stage) (h : goroutine.Returned) :
      Sending req (.respond result goroutine)
  | returned (st : Stage) (h : st.Returned) : Sending req st

theorem Sending.start (req : SendMessageReq) : Sending req (Call.start (.send req)) := by
  rw [Call.start]
  split
  · exact .respond _ _ trivial
  · exact .check

variable {req : SendMessageReq}

theorem Sending.step (h : Sending req st) (hs : Step out db st q st' db') : Sending req st' := by
  cases h with
  | returned st hst => exact .returned _ (hs.returned hst).1
  | respond result goroutine hg =>
    cases hs
    exact .returned _ hg
  | check =>
    cases hs with
    | sendMember => exact .lookUp
    | sendStranger => exact .respond _ _ trivial
  | lookUp =>
    cases hs with
    | hit => exact .respond _ _ trivial
    | miss => exact .insert
  | insert =>
    cases hs with
    | inserted => exact .point _
    | duplicate => exact .respond _ _ trivial
  | point msg =>
    cases hs
    exact .respond _ _ trivial

theorem Sending.unanswered (h : Sending req st) (hs : Step out db st q st' db')
    (hst' : ¬ st'.Returned) : ¬ st.Returned ∧ ∀ result, q ≠ .respond result := by
  refine ⟨fun hst => hst' (hs.returned hst).1,?_⟩
  rintro result rfl
  cases hs
  cases h with
  | respond result goroutine hg => exact hst' hg
  | returned st hst => exact hst

theorem insert_of_ask {row : ChatMessage} {k : Stmt.Answer (.createMessage row) → ChatM Unit}
    (h : st.program = .ask (.createMessage row) k) : ∃ req, st = .insert req := by
  obtain ⟨st',db',hstep⟩ := Stage.step_of_ask h
  cases hstep <;> exact ⟨_,rfl⟩

theorem lookUp_of_ask {a : Nat} {b c : String}
    {k : Stmt.Answer (.takeMessageByClient a b c) → ChatM Unit}
    (h : st.program = .ask (.takeMessageByClient a b c) k) : ∃ req, st = .lookUp req := by
  obtain ⟨st',db',hstep⟩ := Stage.step_of_ask h
  cases hstep <;> exact ⟨_,rfl⟩

theorem Step.messages (h : Step out db st q st' db') : db'.messages = db.messages ∨
    ∃ req msg, st = .insert req ∧ q = .createMessage req.message ∧ st' = .point req msg ∧
      db.createMessage out req.message = (.ok msg,db') := by
  cases h with
  | inserted req msg db' hcreate => exact Or.inr ⟨req,msg,rfl,rfl,rfl,hcreate⟩
  | duplicate req e db' hcreate => exact Or.inl (by rw [(createMessage_error hcreate).2])
  | _ => exact Or.inl rfl

structure SameMember (m m' : ChatConversationMember) : Prop where
  id : m'.id = m.id
  conversationID : m'.conversationID = m.conversationID
  userUUID : m'.userUUID = m.userUUID
  deleted : m'.deleted = m.deleted

theorem SameMember.refl (m : ChatConversationMember) : SameMember m m := ⟨rfl,rfl,rfl,rfl⟩

theorem SameMember.sameKey {m m' : ChatConversationMember} (h : SameMember m m') :
    sameKey m' m :=
  ⟨h.conversationID,h.userUUID⟩

theorem SameMember.trans {m₁ m₂ m₃ : ChatConversationMember} (h : SameMember m₁ m₂)
    (h' : SameMember m₂ m₃) : SameMember m₁ m₃ :=
  ⟨h'.id.trans h.id,h'.conversationID.trans h.conversationID,h'.userUUID.trans h.userUUID,
    h'.deleted.trans h.deleted⟩

theorem sameMember_copy (src m : ChatConversationMember) (cols : List MemberColumn) :
    SameMember m (cols.foldl (fun m col => col.copy src m) m) := by
  induction cols generalizing m with
  | nil => exact SameMember.refl m
  | cons col cols ih =>
    obtain ⟨hid,hconv,huser,hdel⟩ := ih (col.copy src m)
    rw [List.foldl_cons]
    cases col <;> exact ⟨hid,hconv,huser,hdel⟩

theorem sameMember_update (row : ChatConversationMember) (cols : List MemberColumn)
    (m : ChatConversationMember) :
    SameMember m (if m.id = row.id ∧ m.deleted = false then
      cols.foldl (fun m col => col.copy row m) m else m) := by
  split
  · exact sameMember_copy row m cols
  · exact SameMember.refl m

theorem Step.rows (h : Step out db st q st' db') :
    (db'.members = db.members ∧ ∀ row cols, q ≠ .updateMember row cols) ∨
    (∃ req mem cnt lastReadAt, st = .store req mem cnt lastReadAt ∧
      q = .updateMember (req.row mem cnt lastReadAt) [.lastReadMessageID,.lastReadAt,.unreadCount] ∧
      db' = db.updateMember (req.row mem cnt lastReadAt)
        [.lastReadMessageID,.lastReadAt,.unreadCount]) ∨
    ∃ msg mem rest cnt, st = .restore msg mem rest cnt ∧
      q = .updateMember (mem.recounted cnt) [.unreadCount] ∧
      db' = db.updateMember (mem.recounted cnt) [.unreadCount] := by
  cases h with
  | stored req mem cnt lastReadAt =>
    exact Or.inr (Or.inl ⟨req,mem,cnt,lastReadAt,rfl,rfl,rfl⟩)
  | restored msg mem rest cnt => exact Or.inr (Or.inr ⟨msg,mem,rest,cnt,rfl,rfl,rfl⟩)
  | inserted req msg db' hcreate => exact Or.inl ⟨by rw [(createMessage_ok hcreate).2.2],by simp⟩
  | duplicate req e db' hcreate => exact Or.inl ⟨by rw [(createMessage_error hcreate).2],by simp⟩
  | _ => exact Or.inl ⟨rfl,by simp⟩

theorem Step.members (h : Step out db st q st' db') :
    ∃ f, db'.members = db.members.map f ∧ ∀ m, SameMember m (f m) := by
  rcases h.rows with ⟨hmembers,-⟩ | ⟨req,mem,cnt,lastReadAt,-,-,rfl⟩ | ⟨msg,mem,rest,cnt,-,-,rfl⟩
  · exact ⟨id,by rw [hmembers,List.map_id],SameMember.refl⟩
  · exact ⟨_,rfl,sameMember_update _ _⟩
  · exact ⟨_,rfl,sameMember_update _ _⟩

theorem live_map {f : ChatConversationMember → ChatConversationMember}
    (h : db'.members = db.members.map f) (hf : ∀ m, SameMember m (f m)) :
    db'.live = db.live.map f := by
  rw [Database.live,h,List.filter_map,Database.live]
  have hlive : (fun m : ChatConversationMember => !m.deleted) ∘ f = fun m => !m.deleted := by
    funext m
    simp only [Function.comp_apply,(hf m).deleted]
  rw [hlive]

theorem live_updateMember (db : Database) (row : ChatConversationMember)
    (cols : List MemberColumn) : (db.updateMember row cols).live = db.live.map fun m =>
      if m.id = row.id ∧ m.deleted = false then cols.foldl (fun m col => col.copy row m) m else m :=
  live_map rfl (sameMember_update row cols)

theorem deleted_of_live {m : ChatConversationMember} (hm : m ∈ db.live) : m.deleted = false := by
  simpa using (List.mem_filter.mp hm).2

theorem mem_live_updateMember {row m' : ChatConversationMember} {cols : List MemberColumn}
    (h : m' ∈ (db.updateMember row cols).live) :
    (m' ∈ db.live ∧ row.id ≠ m'.id) ∨ ∃ m ∈ db.live, m.id = row.id ∧
      m' = cols.foldl (fun m col => col.copy row m) m := by
  rw [live_updateMember] at h
  obtain ⟨m,hm,rfl⟩ := List.mem_map.mp h
  by_cases hid : m.id = row.id
  · rw [if_pos ⟨hid,deleted_of_live hm⟩]
    exact Or.inr ⟨m,hm,hid,rfl⟩
  · rw [if_neg fun h => hid h.1]
    exact Or.inl ⟨hm,Ne.symm hid⟩

def Database.member (db : Database) (conversationID : Nat) (userUUID : String) :
    Option ChatConversationMember :=
  db.live.find? fun m => m.conversationID = conversationID ∧ m.userUUID = userUUID

theorem member_map {f : ChatConversationMember → ChatConversationMember}
    (h : db'.members = db.members.map f) (hf : ∀ m, SameMember m (f m)) (conversationID : Nat)
    (userUUID : String) :
    db'.member conversationID userUUID = (db.member conversationID userUUID).map f := by
  rw [Database.member,live_map h hf,List.find?_map,Database.member]
  congr 2
  funext m
  simp only [Function.comp_apply,(hf m).conversationID,(hf m).userUUID]

theorem member_updateMember (row : ChatConversationMember) (cols : List MemberColumn)
    (conversationID : Nat) (userUUID : String) :
    (db.updateMember row cols).member conversationID userUUID =
      (db.member conversationID userUUID).map fun m =>
        if m.id = row.id ∧ m.deleted = false then cols.foldl (fun m col => col.copy row m) m
        else m :=
  member_map rfl (sameMember_update row cols) conversationID userUUID

theorem live_of_member {m : ChatConversationMember} {conversationID : Nat} {userUUID : String}
    (h : db.member conversationID userUUID = some m) : m ∈ db.members ∧ m.deleted = false := by
  obtain ⟨hm,hlive⟩ := List.mem_filter.mp (List.mem_of_find?_eq_some h)
  exact ⟨hm,by simpa using hlive⟩

def Database.IsMember (db : Database) (conversationID : Nat) (userUUID : String) : Prop :=
  ∃ m ∈ db.members, m.deleted = false ∧ m.conversationID = conversationID ∧ m.userUUID = userUUID

theorem find_live_eq_none {conversationID : Nat} {userUUID : String}
    (h : db.live.find? (fun m => m.conversationID = conversationID ∧
      m.userUUID = userUUID) = none) :
    ¬ db.IsMember conversationID userUUID := by
  rintro ⟨m,hm,hlive,hkey⟩
  rw [List.find?_eq_none] at h
  have hin : m ∈ db.live := List.mem_filter.mpr ⟨hm,by simp [hlive]⟩
  exact h m hin (by simpa using hkey)

theorem Step.isMember (h : Step out db st q st' db') {conversationID : Nat} {userUUID : String}
    (hm : db.IsMember conversationID userUUID) : db'.IsMember conversationID userUUID := by
  obtain ⟨f,hf,hsame⟩ := h.members
  obtain ⟨m,hmem,hlive,hconv,huser⟩ := hm
  refine ⟨f m,hf ▸ List.mem_map_of_mem hmem,(hsame m).deleted.trans hlive,
    (hsame m).conversationID.trans hconv,(hsame m).userUUID.trans huser⟩

end Effects

abbrev Calls (ι : Type) := Pool ι Stmt Stmt.Answer ErrCode Unit Database

section Calls
variable {ι : Type}

def startCalls (db : Database) (calls : ι → Call) : Calls ι :=
  ⟨db,fun i => serve (calls i).main,[]⟩

/-- What the calls have returned, in that order. -/
def responses (log : List (ι × Stmt)) : List (ι × Except ErrCode Response) :=
  log.filterMap fun entry => match entry with
    | (i,.respond result) => some (i,result)
    | _ => none

theorem mem_responses {log : List (ι × Stmt)} {i : ι} {result : Except ErrCode Response} :
    (i,result) ∈ responses log ↔ (i,Stmt.respond result) ∈ log := by
  rw [responses,List.mem_filterMap]
  constructor
  · rintro ⟨⟨j,q⟩,hmem,hentry⟩
    cases q <;> cases hentry
    exact hmem
  · intro hmem
    exact ⟨_,hmem,rfl⟩

def At (p : Calls ι) (stages : ι → Stage) : Prop := ∀ i, p.threads i = (stages i).program

theorem at_start (db : Database) (calls : ι → Call) :
    At (startCalls db calls) fun i => (calls i).start :=
  fun i => (calls i).program_start

variable [DecidableEq ι] (out : Outer)

def runCalls (db : Database) (calls : ι → Call) (schedule : List ι) : Calls ι :=
  (startCalls db calls).run (exec out) schedule

/-- A request of thread `i` is a step of its stage. -/
theorem At.next {p : Calls ι} {stages : ι → Stage} (h : At p stages) {i : ι} {q : Stmt}
    {k : q.Answer → ChatM Unit} (hask : p.threads i = .ask q k) :
    ∃ st', Step out p.state (stages i) q st' (p.next (exec out) i).state ∧
      At (p.next (exec out) i) (Function.update stages i st') ∧
      (p.next (exec out) i).log = p.log ++ [(i,q)] := by
  rcases Stage.step out p.state (stages i) with hret | ⟨q',k',st',hprog,hk,hstep⟩
  · rw [h i,hret] at hask
    cases hask
  · rw [h i,hprog] at hask
    cases hask
    have hnext := Pool.next_of_ask (exec out) ((h i).trans hprog)
    rw [hnext]
    refine ⟨st',hstep,?_,rfl⟩
    intro j
    by_cases hj : j = i
    · subst hj
      simp only [Function.update_self]
      exact hk
    · simp only [Function.update_of_ne hj]
      exact h j

theorem forall_updated {P : ι → Stage → Prop} {stages : ι → Stage} {i : ι} {st' : Stage}
    (h : ∀ j, P j (stages j)) (hi : P i st') : ∀ j, P j (Function.update stages i st' j) := by
  intro j
  by_cases hj : j = i
  · subst hj
    rwa [Function.update_self]
  · rw [Function.update_of_ne hj]
    exact h j

variable {stages : ι → Stage} {log : List (ι × Stmt)} {i : ι} {q : Stmt} {st' : Stage}

/-- Calls of `SendMessage`: one that has not returned has given no answer. -/
structure Sends (req : ι → SendMessageReq) (stages : ι → Stage) (log : List (ι × Stmt)) : Prop where
  sending : ∀ i, Sending (req i) (stages i)
  silent : ∀ i, ¬ (stages i).Returned → ∀ result, (i,Stmt.respond result) ∉ log

omit [DecidableEq ι] in
theorem sends_start (req : ι → SendMessageReq) :
    Sends req (fun i => Call.start (.send (req i))) [] :=
  ⟨fun i => Sending.start (req i),fun _ _ _ => List.not_mem_nil⟩

omit [DecidableEq ι] in
theorem Sends.returned {req : ι → SendMessageReq} (h : Sends req stages log)
    (hdone : ∀ i, ∃ result, (i,Stmt.respond result) ∈ log) (i : ι) : (stages i).Returned := by
  by_contra hret
  obtain ⟨result,hresult⟩ := hdone i
  exact h.silent i hret result hresult

variable {out} in
theorem Sends.step {req : ι → SendMessageReq} (h : Sends req stages log)
    {db db' : Database} (hs : Step out db (stages i) q st' db') :
    Sends req (Function.update stages i st') (log ++ [(i,q)]) := by
  refine ⟨forall_updated h.sending ((h.sending i).step hs),?_⟩
  intro j hret result hlog
  rw [List.mem_append,List.mem_singleton] at hlog
  by_cases hj : j = i
  · subst hj
    rw [Function.update_self] at hret
    obtain ⟨hret,hq⟩ := (h.sending j).unanswered hs hret
    rcases hlog with hlog | hlog
    · exact h.silent j hret result hlog
    · exact hq result (Prod.mk.inj hlog).2.symm
  · rw [Function.update_of_ne hj] at hret
    rcases hlog with hlog | hlog
    · exact h.silent j hret result hlog
    · exact hj (Prod.mk.inj hlog).1

/-- Some call gives an answer of the kind `P`, or has given it. -/
def Gives (P : Except ErrCode Response → Prop) (stages : ι → Stage)
    (log : List (ι × Stmt)) : Prop :=
  ∃ i result, P result ∧
    ((∃ goroutine, stages i = .respond result goroutine) ∨ (i,Stmt.respond result) ∈ log)

def RefusedInsert (result : Except ErrCode Response) : Prop :=
  ∃ e, result = .error (.dataCreateFail e)

variable {out} in
theorem Gives.step {P : Except ErrCode Response → Prop} (h : Gives P stages log)
    {db db' : Database} (hs : Step out db (stages i) q st' db') :
    Gives P (Function.update stages i st') (log ++ [(i,q)]) := by
  obtain ⟨j,result,hP,⟨goroutine,hst⟩ | hlog⟩ := h
  · refine ⟨j,result,hP,?_⟩
    by_cases hj : j = i
    · subst hj
      rw [hst] at hs
      cases hs
      exact Or.inr (List.mem_append_right _ (List.mem_singleton_self _))
    · exact Or.inl ⟨goroutine,by rw [Function.update_of_ne hj,hst]⟩
  · exact ⟨j,result,hP,Or.inr (List.mem_append_left _ hlog)⟩

/-- The calls stand at stages for which `J` holds, with the tables and the log. -/
def Staged (J : Database → (ι → Stage) → List (ι × Stmt) → Prop) (p : Calls ι) : Prop :=
  ∃ stages, At p stages ∧ J p.state stages p.log

variable {J J' : Database → (ι → Stage) → List (ι × Stmt) → Prop} {p : Calls ι} {i : ι}

theorem Staged.step (h : Staged J p) {q : Stmt} {k : q.Answer → ChatM Unit}
    (hask : p.threads i = .ask q k)
    (keep : ∀ stages st' db', At p stages → J p.state stages p.log →
      Step out p.state (stages i) q st' db' →
      J' db' (Function.update stages i st') (p.log ++ [(i,q)])) :
    Staged J' (p.next (exec out) i) := by
  obtain ⟨stages,hat,hJ⟩ := h
  obtain ⟨st',hstep,hat',hlog⟩ := hat.next out hask
  refine ⟨_,hat',?_⟩
  rw [hlog]
  exact keep stages st' _ hat hJ hstep

theorem Staged.next (h : Staged J p)
    (keep : ∀ stages q st' db', At p stages → J p.state stages p.log →
      Step out p.state (stages i) q st' db' →
      J db' (Function.update stages i st') (p.log ++ [(i,q)])) :
    Staged J (p.next (exec out) i) := by
  rcases Pool.asks_or_stays (exec out) p i with ⟨q,k,hask⟩ | hstays
  · exact h.step out hask fun stages st' db' => keep stages q st' db'
  · rw [hstays]
    exact h

end Calls

/-- A conversation of two. -/
def pairDatabase : Database :=
  { emptyDatabase with
    conversations := [{ (default : ChatConversation) with id := 1, memberCount := 2 }]
    members := [{ memberRow 1 "a" with id := 1 },{ memberRow 1 "b" with id := 2 }]
    nextConversation := 2
    nextMember := 3 }

def greeting (first : Bool) : SendMessageReq :=
  ⟨if first then "a" else "b",1,"k",1,"hello","",0,[]⟩

end Imy.Chat
