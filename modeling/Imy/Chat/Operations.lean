import Imy.Chat.Unread
set_option autoImplicit false

namespace Imy.Chat
open Imy.Lib

inductive Operation where
  | createGroupConversation (req : CreateGroupConversationReq)
  | createPrivateConversation (req : CreatePrivateConversationReq)
  | addMembers (req : AddMembersReq)
  | removeMember (req : RemoveMemberReq)
  | sendMessage (req : SendMessageReq)
  | recallMessage (req : RecallMessageReq)
  | readMessages (req : ReadMessagesReq)

def Operation.main : Operation → ChatM Reply
  | .createGroupConversation req => Chat.createGroupConversation req
  | .createPrivateConversation req => Chat.createPrivateConversation req
  | .addMembers req => Chat.addMembers req
  | .removeMember req => Chat.removeMember req
  | .sendMessage req => Chat.sendMessage req
  | .recallMessage req => Chat.recallMessage req
  | .readMessages req => Chat.readMessages req

/-- The tables after a call and its goroutine. -/
def Operation.apply (out : Outer) (db : Database) (op : Operation) : Database :=
  final ((serve op.main).run (exec out)) db

def runOperations (out : Outer) (db : Database) (ops : List Operation) : Database :=
  ops.foldl (Operation.apply out) db

theorem runOperations_concat (out : Outer) (db : Database) (ops : List Operation) (op : Operation) :
    runOperations out db (ops ++ [op]) = op.apply out (runOperations out db ops) := by
  rw [runOperations,List.foldl_append]
  rfl

/-- The count that an `unread_count_change` tells the user `u` for `c`. -/
def unreadPush (u : String) (c : Nat) : String × Event → Option UInt32
  | (v,.unreadCountChange item) => if v = u ∧ item.conversationId = c then
    some item.unread else none
  | _ => none

def Database.lastPushed (db : Database) (u : String) (c : Nat) : Option UInt32 :=
  db.pushed.reverse.findSome? (unreadPush u c)

/-- The tables refer to what is there, and the next IDs are unused. -/
structure Sound (db : Database) : Prop where
  keyed : KeyedMembers db
  memberIDs : ∀ m ∈ db.members, m.id < db.nextMember
  conversationIDs : ∀ conv ∈ db.conversations, conv.id < db.nextConversation
  memberConversations : ∀ m ∈ db.members, m.conversationID < db.nextConversation
  messageConversations : ∀ m ∈ db.messages, m.conversationID < db.nextConversation
  pushedTo : ∀ u c n, (u,.unreadCountChange ⟨c,n⟩) ∈ db.pushed →
    ∃ m ∈ db.members, m.conversationID = c ∧ m.userUUID = u

structure Counts (stale late : String → Nat → Prop) (db : Database) : Prop where
  cached : ∀ m ∈ db.live, ¬ stale m.userUUID m.conversationID → m.unreadCount = db.unreadOf m
  told : ∀ m ∈ db.live, ¬ late m.userUUID m.conversationID →
    ∀ n ∈ db.lastPushed m.userUUID m.conversationID, n = db.unreadOf m

def Stmt.Neutral : Stmt → Prop
  | .createMembers _ | .updateMember _ _ | .createMessage _ => False
  | .sendJSON _ (.unreadCountChange _) => False
  | _ => True

section Statements
variable {out : Outer} {db db' : Database} {stale late : String → Nat → Prop} {u v : String}
  {c : Nat} {e : Event} {m mem : ChatConversationMember}

theorem lastPushed_push : (db.push v e).lastPushed u c =
    (unreadPush u c (v,e)).or (db.lastPushed u c) := by
  rw [Database.lastPushed,Database.push,List.reverse_concat,List.findSome?_cons,Database.lastPushed]
  cases unreadPush u c (v,e) <;> rfl

theorem mem_pushed_of_lastPushed {n : UInt32} (h : n ∈ db.lastPushed u c) :
    (u,.unreadCountChange ⟨c,n⟩) ∈ db.pushed := by
  obtain ⟨⟨v,e⟩,hin,hpush⟩ := List.exists_of_findSome?_eq_some h
  rw [List.mem_reverse] at hin
  cases e with
  | unreadCountChange item =>
    rw [unreadPush] at hpush
    split at hpush
    · rename_i hkey
      obtain ⟨rfl,rfl⟩ := hkey
      cases hpush
      exact hin
    · cases hpush
  | _ => cases hpush

theorem Counts.mono {stale' late' : String → Nat → Prop} (h : Counts stale late db)
    (hstale : ∀ m ∈ db.live, stale m.userUUID m.conversationID → stale' m.userUUID m.conversationID)
    (hlate : ∀ m ∈ db.live, late m.userUUID m.conversationID → late' m.userUUID m.conversationID) :
    Counts stale' late' db :=
  ⟨fun m hm hno => h.cached m hm fun hst => hno (hstale m hm hst),
    fun m hm hno => h.told m hm fun hla => hno (hlate m hm hla)⟩

theorem Counts.congr (h : Counts stale late db) (hlive : ∀ m ∈ db'.live, m ∈ db.live)
    (hunread : ∀ m ∈ db'.live, db'.unreadOf m = db.unreadOf m)
    (hpushed : ∀ u c, db'.lastPushed u c = db.lastPushed u c) : Counts stale late db' := by
  refine ⟨fun m hm hno => ?_,fun m hm hno n hn => ?_⟩
  · rw [hunread m hm]
    exact h.cached m (hlive m hm) hno
  · rw [hunread m hm]
    rw [hpushed] at hn
    exact h.told m (hlive m hm) hno n hn

theorem Sound.congr (h : Sound db) {f : ChatConversationMember → ChatConversationMember}
    (hmembers : db'.members = db.members.map f) (hid : ∀ m, (f m).id = m.id)
    (hkey : ∀ m, sameKey (f m) m) (hnext : db.nextMember ≤ db'.nextMember)
    (hconvs : ∀ conv ∈ db'.conversations, conv.id < db'.nextConversation)
    (hnext' : db.nextConversation ≤ db'.nextConversation)
    (hmessages : ∀ m ∈ db'.messages, m.conversationID < db'.nextConversation)
    (hpushed : ∀ u item, (u,.unreadCountChange item) ∈ db'.pushed →
      (u,.unreadCountChange item) ∈ db.pushed) : Sound db' := by
  refine ⟨h.keyed.map hmembers hid hkey,?_,hconvs,?_,hmessages,?_⟩
  · intro m' hm'
    rw [hmembers] at hm'
    obtain ⟨m,hm,rfl⟩ := List.mem_map.mp hm'
    rw [hid]
    exact (h.memberIDs m hm).trans_le hnext
  · intro m' hm'
    rw [hmembers] at hm'
    obtain ⟨m,hm,rfl⟩ := List.mem_map.mp hm'
    rw [(hkey m).1]
    exact (h.memberConversations m hm).trans_le hnext'
  · intro u c n hin
    obtain ⟨m,hm,hc,hu⟩ := h.pushedTo u c n (hpushed u ⟨c,n⟩ hin)
    refine ⟨f m,?_,(hkey m).1.trans hc,(hkey m).2.trans hu⟩
    rw [hmembers]
    exact List.mem_map_of_mem hm

theorem Sound.same (h : Sound db) (hmembers : db'.members = db.members)
    (hnext : db.nextMember ≤ db'.nextMember) (hconvs : db'.conversations = db.conversations)
    (hnext' : db'.nextConversation = db.nextConversation) (hmessages : db'.messages = db.messages)
    (hpushed : ∀ u item, (u,.unreadCountChange item) ∈ db'.pushed →
      (u,.unreadCountChange item) ∈ db.pushed) : Sound db' := by
  refine h.congr (f := id) (by rw [hmembers,List.map_id]) (fun _ => rfl) (fun _ => ⟨rfl,rfl⟩) hnext
    ?_ hnext'.ge ?_ hpushed
  · rw [hconvs,hnext']
    exact h.conversationIDs
  · rw [hmessages,hnext']
    exact h.messageConversations

theorem sound_push (h : Sound db) (he : ∀ item, e ≠ .unreadCountChange item) :
    Sound (db.push v e) := by
  refine h.same rfl le_rfl rfl rfl rfl fun u item hin => ?_
  rcases List.mem_append.mp hin with hin | hin
  · exact hin
  · exact (he item (Prod.mk.inj (List.mem_singleton.mp hin)).2.symm).elim

theorem counts_push (h : Counts stale late db) (he : ∀ item, e ≠ .unreadCountChange item) :
    Counts stale late (db.push v e) := by
  refine h.congr (fun m hm => hm) (fun m _ => rfl) fun u c => ?_
  rw [lastPushed_push]
  cases e <;> first | rfl | exact (he _ rfl).elim

theorem counts_conversations (h : Counts stale late db) (hmembers : db'.members = db.members)
    (hmessages : db'.messages = db.messages) (hpushed : db'.pushed = db.pushed) :
    Counts stale late db' := by
  refine h.congr ?_ ?_ ?_
  · rw [Database.live,hmembers]
    exact fun m hm => hm
  · intro m _
    rw [Database.unreadOf,unread_congr hmessages]
    rfl
  · intro u c
    rw [Database.lastPushed,hpushed]
    rfl

theorem sound_createConversation (h : Sound db) (row : ChatConversation) :
    Sound (db.createConversation row).2 := by
  rw [Database.createConversation]
  split
  · exact h.congr (f := id) (List.map_id _).symm (fun _ => rfl) (fun _ => ⟨rfl,rfl⟩) le_rfl
      (fun conv hconv => Nat.lt_succ_of_lt (h.conversationIDs conv hconv)) (Nat.le_succ _)
      (fun m hm => Nat.lt_succ_of_lt (h.messageConversations m hm)) (fun _ _ hin => hin)
  · refine h.congr (f := id) (List.map_id _).symm (fun _ => rfl) (fun _ => ⟨rfl,rfl⟩) le_rfl
      (fun conv hconv => ?_) (Nat.le_succ _)
      (fun m hm => Nat.lt_succ_of_lt (h.messageConversations m hm)) (fun _ _ hin => hin)
    rcases List.mem_append.mp hconv with hconv | hconv
    · exact Nat.lt_succ_of_lt (h.conversationIDs conv hconv)
    · rw [List.mem_singleton.mp hconv]
      exact Nat.lt_succ_self _

theorem copy_message (src m : ChatMessage) (cols : List MessageColumn) :
    (cols.foldl (fun m col => col.copy src m) m).id = m.id ∧
      (cols.foldl (fun m col => col.copy src m) m).conversationID = m.conversationID ∧
      (cols.foldl (fun m col => col.copy src m) m).sendUUID = m.sendUUID := by
  induction cols generalizing m with
  | nil => exact ⟨rfl,rfl,rfl⟩
  | cons col cols ih =>
    obtain ⟨hid,hconv,hsend⟩ := ih (col.copy src m)
    rw [List.foldl_cons]
    cases col <;> exact ⟨hid,hconv,hsend⟩

theorem unreadOf_map {f : ChatMessage → ChatMessage} (h : db'.messages = db.messages.map f)
    (hf : ∀ m, (f m).id = m.id ∧ (f m).conversationID = m.conversationID ∧
      (f m).sendUUID = m.sendUUID) (m : ChatConversationMember) :
    db'.unreadOf m = db.unreadOf m := by
  rw [Database.unreadOf,Database.unread,h,List.filter_map,List.length_map,Database.unreadOf,
    Database.unread]
  congr 3
  funext msg
  simp only [Function.comp_apply,(hf msg).1,(hf msg).2.1,(hf msg).2.2]

theorem copy_conversation (src conv : ChatConversation) (cols : List ConversationColumn) :
    (cols.foldl (fun conv col => col.copy src conv) conv).id = conv.id := by
  induction cols generalizing conv with
  | nil => rfl
  | cons col cols ih =>
    rw [List.foldl_cons,ih]
    cases col <;> rfl

def Settled (stale late : String → Nat → Prop) (db : Database) : Prop :=
  Sound db ∧ Counts stale late db

theorem Settled.updateMessage (h : Settled stale late db) (row : ChatMessage)
    (cols : List MessageColumn) : Settled stale late (exec out (.updateMessage row cols) db).2 := by
  have hf : ∀ m : ChatMessage,
      (if m.id = row.id then cols.foldl (fun m col => col.copy row m) m else m).id = m.id ∧
      (if m.id = row.id then cols.foldl (fun m col => col.copy row m) m else m).conversationID =
        m.conversationID ∧
      (if m.id = row.id then cols.foldl (fun m col => col.copy row m) m else m).sendUUID =
        m.sendUUID := by
    intro m
    split
    · exact copy_message row m cols
    · exact ⟨rfl,rfl,rfl⟩
  refine ⟨?_,h.2.congr (fun m hm => hm) (fun m _ => unreadOf_map rfl hf m) fun _ _ => rfl⟩
  refine h.1.congr (f := id) (List.map_id _).symm (fun _ => rfl) (fun _ => ⟨rfl,rfl⟩) le_rfl
    h.1.conversationIDs le_rfl (fun m' hm' => ?_) (fun _ _ hin => hin)
  obtain ⟨m,hm,rfl⟩ := List.mem_map.mp hm'
  rw [(hf m).2.1]
  exact h.1.messageConversations m hm

theorem Settled.updateConversation (out : Outer) (h : Settled stale late db)
    (row : ChatConversation) (cols : List ConversationColumn) :
    Settled stale late (exec out (.updateConversation row cols) db).2 := by
  refine ⟨?_,counts_conversations h.2 rfl rfl rfl⟩
  refine h.1.congr (f := id) (List.map_id _).symm (fun _ => rfl) (fun _ => ⟨rfl,rfl⟩) le_rfl
    (fun conv hconv => ?_) le_rfl h.1.messageConversations (fun _ _ hin => hin)
  obtain ⟨old,hold,rfl⟩ := List.mem_map.mp hconv
  have hid : (if old.id = row.id then cols.foldl (fun c col => col.copy row c) old else old).id =
      old.id := by
    split
    · exact copy_conversation row old cols
    · rfl
  rw [hid]
  exact h.1.conversationIDs old hold

theorem Settled.deleteMember (h : Settled stale late db) (id : Nat) :
    Settled stale late (exec out (.deleteMember id) db).2 := by
  constructor
  · refine h.1.congr rfl (fun m => ?_) (fun m => ?_) le_rfl h.1.conversationIDs le_rfl
      h.1.messageConversations (fun _ _ hin => hin)
    · split <;> rfl
    · split <;> exact ⟨rfl,rfl⟩
  · refine h.2.congr (fun m' hm' => ?_) (fun _ _ => rfl) fun _ _ => rfl
    obtain ⟨hm',hlive⟩ := List.mem_filter.mp hm'
    obtain ⟨m,hm,rfl⟩ := List.mem_map.mp hm'
    by_cases hid : m.id = id
    · rw [if_pos hid] at hlive
      cases hlive
    · rw [if_neg hid] at hlive ⊢
      exact List.mem_filter.mpr ⟨hm,hlive⟩

theorem Settled.createConversation (h : Settled stale late db) (row : ChatConversation) :
    Settled stale late (db.createConversation row).2 := by
  refine ⟨sound_createConversation h.1 row,?_⟩
  rw [Database.createConversation]
  split <;> exact counts_conversations h.2 rfl rfl rfl

theorem Settled.tick (h : Settled stale late db) :
    Settled stale late { db with tick := db.tick+1 } :=
  ⟨h.1.same rfl le_rfl rfl rfl rfl fun _ _ hin => hin,counts_conversations h.2 rfl rfl rfl⟩

theorem Settled.neutral (out : Outer) (q : Stmt) (db : Database) (hq : q.Neutral)
    (h : Settled stale late db) :
    Settled stale late (exec out q db).2 := by
  cases q with
  | createMembers rows => exact hq.elim
  | updateMember row cols => exact hq.elim
  | createMessage row => exact hq.elim
  | createConversation row => exact h.createConversation row
  | updateConversation row cols => exact h.updateConversation out row cols
  | deleteMember id => exact h.deleteMember id
  | updateMessage row cols => exact h.updateMessage row cols
  | findConversations userUUID offset limit => exact h.tick
  | now => exact h.tick
  | generateUUID => exact h.tick
  | sendJSON uuid event =>
    have he : ∀ item, event ≠ .unreadCountChange item := by
      rintro item rfl
      exact hq
    exact ⟨sound_push h.1 he,counts_push h.2 he⟩
  | _ => exact h

/-- The user `u` is told its count for `c`. -/
theorem Settled.tell (h : Settled stale late db) {n : UInt32}
    (hrow : ∃ m ∈ db.members, m.conversationID = c ∧ m.userUUID = u)
    (hn : ∀ m ∈ db.live, m.userUUID = u → m.conversationID = c → n = db.unreadOf m) :
    Settled stale (fun v d => late v d ∧ ¬ (v = u ∧ d = c))
      (db.push u (.unreadCountChange ⟨c,n⟩)) := by
  refine ⟨⟨⟨h.1.keyed.ids,h.1.keyed.keys,h.1.keyed.named⟩,h.1.memberIDs,h.1.conversationIDs,
    h.1.memberConversations,h.1.messageConversations,?_⟩,h.2.cached,?_⟩
  · intro v d n' hin
    rcases List.mem_append.mp hin with hin | hin
    · exact h.1.pushedTo v d n' hin
    · cases List.mem_singleton.mp hin
      exact hrow
  · intro m hm hno n' hn'
    rw [lastPushed_push] at hn'
    by_cases hkey : m.userUUID = u ∧ m.conversationID = c
    · have hnew : unreadPush m.userUUID m.conversationID (u,.unreadCountChange ⟨c,n⟩) = some n :=
        if_pos ⟨hkey.1.symm,hkey.2.symm⟩
      rw [hnew,Option.some_or,Option.mem_some_iff] at hn'
      rw [← hn']
      exact hn m hm hkey.1 hkey.2
    · have hnone : unreadPush m.userUUID m.conversationID (u,.unreadCountChange ⟨c,n⟩) = none :=
        if_neg fun hkey' => hkey ⟨hkey'.1.symm,hkey'.2.symm⟩
      rw [hnone,Option.none_or] at hn'
      exact h.2.told m hm (fun hlate => hno ⟨hlate,hkey⟩) n' hn'

theorem Sound.updateMember (h : Sound db) (row : ChatConversationMember)
    (cols : List MemberColumn) : Sound (db.updateMember row cols) :=
  h.congr rfl (fun m => (sameMember_update row cols m).id)
    (fun m => (sameMember_update row cols m).sameKey) le_rfl h.conversationIDs le_rfl
    h.messageConversations (fun _ _ hin => hin)

theorem Settled.refresh (h : Settled stale late db) (hm : m ∈ db.live) (hsame : SameMember mem m)
    (hread : m.lastReadMessageID = mem.lastReadMessageID) {cnt : Nat}
    (hcnt : cnt = (db.unread mem.conversationID mem.lastReadMessageID mem.userUUID).length) :
    Settled (fun v d => stale v d ∧ ¬ (v = mem.userUUID ∧ d = mem.conversationID)) late
      (db.updateMember (mem.recounted cnt) [.unreadCount]) := by
  refine ⟨h.1.updateMember _ _,?_,?_⟩
  · intro m' hm' hno
    rcases mem_live_updateMember hm' with ⟨hlive,hid⟩ | ⟨m₀,hm₀,hid,rfl⟩
    · refine h.2.cached m' hlive fun hstale => hno ⟨hstale,fun hkey => hid ?_⟩
      have heq : m' = m := h.1.keyed.eq_of_key hlive hm
        ⟨hkey.2.trans hsame.conversationID.symm,hkey.1.trans hsame.userUUID.symm⟩
      rw [heq]
      exact hsame.id.symm
    · obtain rfl : m₀ = m := h.1.keyed.eq_of_id hm₀ hm (hid.trans hsame.id.symm)
      change UInt32.ofNat cnt = db.unreadOf m₀
      rw [hcnt,← hread,← hsame.conversationID,← hsame.userUUID]
      rfl
  · intro m' hm' hno n hn
    rcases mem_live_updateMember hm' with ⟨hlive,-⟩ | ⟨m₀,hm₀,-,rfl⟩
    · exact h.2.told m' hlive hno n hn
    · exact h.2.told m₀ hm₀ hno n hn

theorem Settled.store (h : Settled stale late db) (hm : m ∈ db.live) (hsame : SameMember mem m)
    (req : ReadMessagesReq) (lastReadAt : Int) {cnt : Nat}
    (hcnt : cnt = (db.unread mem.conversationID req.upToMessageId mem.userUUID).length) :
    Settled stale (fun v d => late v d ∨ (v = mem.userUUID ∧ d = mem.conversationID))
      (db.updateMember (req.row mem cnt lastReadAt)
        [.lastReadMessageID,.lastReadAt,.unreadCount]) := by
  have hrow : ∀ m₀ ∈ db.live, m₀.id = mem.id → m₀ = m :=
    fun m₀ hm₀ hid => h.1.keyed.eq_of_id hm₀ hm (hid.trans hsame.id.symm)
  refine ⟨h.1.updateMember _ _,?_,?_⟩
  · intro m' hm' hno
    rcases mem_live_updateMember hm' with ⟨hlive,-⟩ | ⟨m₀,hm₀,hid,rfl⟩
    · exact h.2.cached m' hlive hno
    · obtain rfl := hrow m₀ hm₀ hid
      change UInt32.ofNat cnt =
        UInt32.ofNat (db.unread m₀.conversationID req.upToMessageId m₀.userUUID).length
      rw [hcnt,← hsame.conversationID,← hsame.userUUID]
  · intro m' hm' hno n hn
    rcases mem_live_updateMember hm' with ⟨hlive,-⟩ | ⟨m₀,hm₀,hid,rfl⟩
    · exact h.2.told m' hlive (fun hlate => hno (Or.inl hlate)) n hn
    · obtain rfl := hrow m₀ hm₀ hid
      exact (hno (Or.inr ⟨hsame.userUUID,hsame.conversationID⟩)).elim

theorem Settled.insert (h : Settled stale late db) {row msg : ChatMessage}
    (hcreate : db.createMessage out row = (.ok msg,db')) (hconv : row.conversationID = c)
    (hc : c < db.nextConversation) :
    Settled (fun v d => stale v d ∨ d = c) (fun v d => late v d ∨ d = c) db' := by
  obtain ⟨-,hmsg,rfl⟩ := createMessage_ok hcreate
  have hmsgconv : msg.conversationID = c := by rw [hmsg]; exact hconv
  have hunread : ∀ m : ChatConversationMember, m.conversationID ≠ c → Database.unreadOf
      { db with
        messages := db.messages ++ [msg]
        nextMessage := db.nextMessage+1
        tick := db.tick+1 } m = db.unreadOf m := by
    intro m hne
    have hother : msg.conversationID ≠ m.conversationID ∨ msg.sendUUID = m.userUUID :=
      Or.inl (hmsgconv ▸ hne.symm)
    rw [Database.unreadOf,unread_concat (show _ = db.messages ++ [msg] from rfl) hother]
    rfl
  refine ⟨?_,?_,?_⟩
  · refine h.1.congr (f := id) (List.map_id _).symm (fun _ => rfl) (fun _ => ⟨rfl,rfl⟩) le_rfl
      h.1.conversationIDs le_rfl (fun m hm => ?_) (fun _ _ hin => hin)
    rcases List.mem_append.mp hm with hm | hm
    · exact h.1.messageConversations m hm
    · rw [List.mem_singleton.mp hm,hmsgconv]
      exact hc
  · intro m hm hno
    rw [hunread m fun heq => hno (Or.inr heq)]
    exact h.2.cached m hm fun hstale => hno (Or.inl hstale)
  · intro m hm hno n hn
    rw [hunread m fun heq => hno (Or.inr heq)]
    exact h.2.told m hm (fun hlate => hno (Or.inl hlate)) n hn

theorem pairwise_keys (rows : List ChatConversationMember) :
    rows.Pairwise (fun m m' => ¬ sameKey m m') ↔
      (rows.map fun m => (m.conversationID,m.userUUID)).Nodup := by
  rw [List.Nodup,List.pairwise_map]
  refine iff_of_eq (congrArg (fun R => List.Pairwise R rows) ?_)
  funext m m'
  simp [sameKey]

section Numbered
variable {lastReadAt : Int} {next : Nat} {rows : List ChatConversationMember}

theorem numbered_ids : (numbered lastReadAt next rows).map (·.id) =
    (List.range rows.length).map (next+·) := by
  refine List.ext_getElem (by simp [numbered]) fun i h h' => ?_
  simp [numbered]

theorem numbered_keys :
    (numbered lastReadAt next rows).map (fun m => (m.conversationID,m.userUUID)) =
    rows.map fun m => (m.conversationID,m.userUUID) := by
  refine List.ext_getElem (by simp [numbered]) fun i h h' => ?_
  simp [numbered]

theorem mem_numbered (h : m ∈ numbered lastReadAt next rows) :
    ∃ row ∈ rows, ∃ i < rows.length,
      m = { row with id := next+i, lastReadAt := lastReadAt, muteUntil := 0 } := by
  obtain ⟨i,hi,rfl⟩ := List.mem_mapIdx.mp h
  exact ⟨_,List.getElem_mem hi,i,hi,rfl⟩

end Numbered

theorem KeyedMembers.append (h : KeyedMembers db) (hids : ∀ m ∈ db.members, m.id < db.nextMember)
    {rows : List ChatConversationMember} {lastReadAt : Int}
    (hkeys : (db.members ++ rows).Pairwise fun m m' => ¬ sameKey m m')
    (hnamed : ∀ row ∈ rows, row.userUUID ≠ "")
    (hmembers : db'.members = db.members ++ numbered lastReadAt db.nextMember rows) :
    KeyedMembers db' := by
  refine ⟨?_,?_,?_⟩
  · rw [hmembers,List.map_append,numbered_ids,List.nodup_append]
    refine ⟨h.ids,List.nodup_range.map fun a b hab => by omega,?_⟩
    intro a ha b hb hab
    obtain ⟨m,hm,rfl⟩ := List.mem_map.mp ha
    obtain ⟨i,-,rfl⟩ := List.mem_map.mp hb
    have hlt := hids m hm
    omega
  · rw [pairwise_keys,List.map_append] at hkeys
    rw [pairwise_keys,hmembers,List.map_append,numbered_keys]
    exact hkeys
  · intro m hm
    rw [hmembers] at hm
    rcases List.mem_append.mp hm with hm | hm
    · exact h.named m hm
    · obtain ⟨row,hrow,i,-,rfl⟩ := mem_numbered hm
      exact hnamed row hrow

/-- Users are added to a conversation in which nobody else has sent anything. -/
theorem Settled.createMembers (out : Outer) (h : Settled stale late db) (us : List String)
    (hnamed : ∀ u ∈ us, u ≠ "") (hc : c < db.nextConversation)
    (hfresh : (db.members ++ us.map (memberRow c)).Pairwise (fun m m' => ¬ sameKey m m') →
      ∀ u ∈ us, db.unread c 0 u = []) :
    Settled stale late (db.createMembers out (us.map (memberRow c))).2 := by
  rw [Database.createMembers]
  split
  · rename_i hkeys
    have hrow : ∀ {m}, m ∈ numbered (out.clock db.tick) db.nextMember (us.map (memberRow c)) →
        m.id < db.nextMember+(us.map (memberRow c)).length ∧ m.conversationID = c ∧
          m.userUUID ∈ us ∧ m.unreadCount = 0 ∧ m.lastReadMessageID = 0 := by
      intro m hm
      obtain ⟨row,hrow,i,hi,rfl⟩ := mem_numbered hm
      obtain ⟨u,hu,rfl⟩ := List.mem_map.mp hrow
      exact ⟨Nat.add_lt_add_left hi _,rfl,hu,rfl,rfl⟩
    refine ⟨⟨?_,?_,h.1.conversationIDs,?_,h.1.messageConversations,?_⟩,?_,?_⟩
    · refine h.1.keyed.append h.1.memberIDs hkeys (fun row hrow => ?_) rfl
      obtain ⟨u,hu,rfl⟩ := List.mem_map.mp hrow
      exact hnamed u hu
    · intro m hm
      rcases List.mem_append.mp hm with hm | hm
      · exact Nat.lt_add_right _ (h.1.memberIDs m hm)
      · exact (hrow hm).1
    · intro m hm
      rcases List.mem_append.mp hm with hm | hm
      · exact h.1.memberConversations m hm
      · rw [(hrow hm).2.1]
        exact hc
    · intro u d n hin
      obtain ⟨m,hm,hkey⟩ := h.1.pushedTo u d n hin
      exact ⟨m,List.mem_append_left _ hm,hkey⟩
    · intro m hm hno
      obtain ⟨hm,hlive⟩ := List.mem_filter.mp hm
      rcases List.mem_append.mp hm with hm | hm
      · exact h.2.cached m (List.mem_filter.mpr ⟨hm,hlive⟩) hno
      · obtain ⟨-,hconv,huser,hcount,hread⟩ := hrow hm
        have hnone := hfresh hkeys m.userUUID huser
        rw [hcount,Database.unreadOf,hconv,hread]
        change 0 = UInt32.ofNat (db.unread c 0 m.userUUID).length
        rw [hnone]
        rfl
    · intro m hm hno n hn
      obtain ⟨hm,hlive⟩ := List.mem_filter.mp hm
      rcases List.mem_append.mp hm with hm | hm
      · exact h.2.told m (List.mem_filter.mpr ⟨hm,hlive⟩) hno n hn
      · -- nothing was pushed to a user who had no row
        obtain ⟨m₀,hm₀,hkey⟩ := h.1.pushedTo _ _ n (mem_pushed_of_lastPushed hn)
        obtain ⟨row,hin,i,-,rfl⟩ := mem_numbered hm
        exact ((List.pairwise_append.mp hkeys).2.2 m₀ hm₀ row hin hkey).elim
  · exact ⟨h.1.same rfl (Nat.le_add_right _ _) rfl rfl rfl fun _ _ hin => hin,
      counts_conversations h.2 rfl rfl rfl⟩

theorem createMembers_frame (out : Outer) (db : Database) (rows : List ChatConversationMember) :
    (db.createMembers out rows).2.messages = db.messages ∧
      (db.createMembers out rows).2.nextConversation = db.nextConversation ∧
      ∀ m ∈ db.members, m ∈ (db.createMembers out rows).2.members := by
  rw [Database.createMembers]
  split
  · exact ⟨rfl,rfl,fun m hm => List.mem_append_left _ hm⟩
  · exact ⟨rfl,rfl,fun m hm => hm⟩

end Statements

section Programs
variable {out : Outer} {db : Database}

theorem wp_serve {main : ChatM Reply} {P : Database → Prop}
    (h : wp (main.run (exec out))
      (fun reply t => wp (reply.2.run (exec out)) (fun _ t => P t) (fun _ t => P t) t)
      (fun _ t => P t) db) :
    wp ((serve main).run (exec out)) (fun _ t => P t) (fun _ t => P t) db := by
  rw [serve,Prog.wp_run_bind,Prog.wp_run_attempt]
  exact wp_mono h (fun reply t hreply => hreply) fun e t he => he

@[simp] theorem wp_ask (q : Stmt) (Q : q.Answer → Database → Prop) (E : ErrCode → Database → Prop) :
    wp ((ask q).run (exec out)) Q E db = Q (exec out q db).1 (exec out q db).2 := rfl

theorem wp_requireMember {c : Nat} {u : String} {missing : ErrCode}
    {Q : ChatConversationMember → Database → Prop} {E : ErrCode → Database → Prop}
    (hok : ∀ mem, db.member c u = some mem → Q mem db) (hno : E missing db) :
    wp ((requireMember c u missing).run (exec out)) Q E db := by
  rw [requireMember,Prog.wp_run_bind,wp_ask,exec_takeMember]
  cases hmem : db.live.find? (fun m => m.conversationID = c ∧ m.userUUID = u) with
  | none => exact hno
  | some mem => exact hok mem hmem

end Programs

def newGroup : Operation := .createGroupConversation ⟨"a","group",[]⟩

def addB : Operation := .addMembers ⟨"a",1,["b"]⟩

end Imy.Chat
