import Imy.Chat.Requests
set_option autoImplicit false

namespace Imy.Chat
open Imy.Lib

abbrev ChatTrace := Trace Stmt Stmt.Answer

def Stmt.Reads : Stmt → Prop
  | .createConversation _ | .updateConversation _ _ | .createMembers _ | .updateMember _ _
  | .deleteMember _ | .createMessage _ | .updateMessage _ _ => False
  | _ => True

def Stmt.OnRoster : Stmt → Prop
  | .updateMember _ _ | .createMessage _ | .updateMessage _ _ => False
  | _ => True

def Stmt.Fits : (q : Stmt) → q.Answer → Prop
  | .takeMember c u, .ok mem => mem.conversationID = c ∧ mem.userUUID = u
  | .findMembers c, .ok members => ∀ mem ∈ members, mem.conversationID = c
  | .takeMessage id c, .ok msg => msg.id = id ∧ msg.conversationID = c
  | .createMessage row, .ok msg => msg.conversationID = row.conversationID
  | _, _ => True

/-- A row of the conversation `c` that a call was given. -/
def Told (h : ChatTrace) (c : Nat) (mem : ChatConversationMember) : Prop :=
  (∃ u, ⟨.takeMember c u,.ok mem⟩ ∈ h) ∨ ∃ members, ⟨.findMembers c,.ok members⟩ ∈ h ∧ mem ∈ members

/-- The caller of `RecallMessage` was found to be a member, and the message to be the
caller's own or the caller to be an administrator. -/
def RecallMessageReq.Entitled (req : RecallMessageReq) (h : ChatTrace) (msg : ChatMessage) : Prop :=
  ⟨.takeMessage req.messageId req.conversationId,.ok msg⟩ ∈ h ∧
    ∃ mem, ⟨.takeMember req.conversationId req.uuid,.ok mem⟩ ∈ h ∧
      (msg.sendUUID = req.uuid ∨ 2 ≤ mem.role)

def UpdateConversationSettingsReq.Handed (parse : String → Option Int)
    (req : UpdateConversationSettingsReq) (mem : ChatConversationMember) (muteUntil : Int) : Prop :=
  (if req.presence.muteUntil then req.muteTime parse else some mem.muteUntil) = some muteUntil

def Request.Writes (parse : String → Option Int) (h : ChatTrace) (q : Stmt) : Request → Prop
  | .operation (.sendMessage req) =>
    q = .createMessage req.message ∨
      (∃ row, q = .updateConversation row [.lastMessageID] ∧ row.id = req.conversationId) ∨
      ∃ mem cnt, Told h req.conversationId mem ∧
        q = .updateMember (mem.recounted cnt) [.unreadCount]
  | .operation (.readMessages req) =>
    ∃ mem cnt lastReadAt, ⟨.takeMember req.conversationId req.uuid,.ok mem⟩ ∈ h ∧
      q = .updateMember (req.row mem cnt lastReadAt) [.lastReadMessageID,.lastReadAt,.unreadCount]
  | .operation (.recallMessage req) =>
    ∃ msg now, req.Entitled h msg ∧
      q = .updateMessage { msg with isRevoked := true, revokedAt := some now }
        [.isRevoked,.revokedAt]
  | .operation _ => q.OnRoster
  | .updateConversationSettings req =>
    ∃ mem muteUntil, ⟨.takeMember req.conversationId req.uuid,.ok mem⟩ ∈ h ∧
      req.Handed parse mem muteUntil ∧ q = .updateMember (req.row muteUntil mem) req.cols
  | _ => False

def Request.May (parse : String → Option Int) (req : Request) (h : ChatTrace) (q : Stmt) : Prop :=
  q.Reads ∨ req.Writes parse h q

theorem mem_live_of_find {db : Database} {c : Nat} {u : String} {mem : ChatConversationMember}
    (h : db.live.find? (fun m => m.conversationID = c ∧ m.userUUID = u) = some mem) :
    mem ∈ db.live ∧ mem.conversationID = c ∧ mem.userUUID = u :=
  ⟨List.mem_of_find?_eq_some h,by simpa using List.find?_some h⟩

theorem found_eq_ok {α : Type} {o : Option α} {a : α} : found o = .ok a ↔ o = some a := by
  cases o <;> simp [found]

theorem takeMember_ok {out : Outer} {db : Database} {c : Nat} {u : String}
    {mem : ChatConversationMember} (h : (exec out (.takeMember c u) db).1 = .ok mem) :
    db.member c u = some mem :=
  found_eq_ok.mp h

theorem takeMessage_ok {out : Outer} {db : Database} {id c : Nat} {msg : ChatMessage}
    (h : (exec out (.takeMessage id c) db).1 = .ok msg) :
    msg ∈ db.messages ∧ msg.id = id ∧ msg.conversationID = c :=
  ⟨List.mem_of_find?_eq_some (found_eq_ok.mp h),by
    simpa using List.find?_some (found_eq_ok.mp h)⟩

theorem exec_fits (out : Outer) (q : Stmt) (db : Database) : q.Fits (exec out q db).1 := by
  cases q with
  | takeMember c u =>
    rw [exec_takeMember]
    cases hmem : db.live.find? (fun m => m.conversationID = c ∧ m.userUUID = u) with
    | none => exact trivial
    | some mem => exact (mem_live_of_find hmem).2
  | findMembers c =>
    intro mem hmem
    simpa using (List.mem_filter.mp hmem).2
  | takeMessage id c =>
    rw [exec_takeMessage]
    cases hmsg : db.messages.find? (fun m => m.id = id ∧ m.conversationID = c) with
    | none => exact trivial
    | some msg =>
      have hkey : msg.id = id ∧ msg.conversationID = c := by simpa using List.find?_some hmsg
      exact hkey
  | createMessage row =>
    change Stmt.Fits (.createMessage row) (db.createMessage out row).1
    rw [Database.createMessage]
    split
    · exact trivial
    · exact row.stored_conversationID _ _
  | _ => exact trivial

section Rules
variable {K : ChatTrace → Stmt → Prop} {h : ChatTrace}

def Going (K : ChatTrace → Stmt → Prop) (h : ChatTrace) (reply : Reply) : Prop :=
  ∀ h', h ⊆ h' → reply.2.Traced Stmt.Fits K (fun _ _ => True) h'

theorem traced_serve {main : ChatM Reply} (hmain : main.Traced Stmt.Fits K (Going K) h)
    (hrespond : ∀ h result, K h (.respond result)) :
    (serve main).Traced Stmt.Fits K (fun _ _ => True) h := by
  refine (Prog.traced_attempt hmain).bind fun h result hresult => ?_
  cases result with
  | error e => exact ⟨hrespond h _,fun _ _ => trivial⟩
  | ok reply =>
    refine ⟨hrespond h _,fun _ _ => ?_⟩
    exact hresult reply rfl _ (List.subset_append_left _ _)

theorem traced_reads {α : Type} {P : α → Prop} {p : ChatM α} (hp : p.Yields Stmt.Reads P)
    (hK : ∀ h q, q.Reads → K h q) : p.Traced Stmt.Fits K (fun h' a => h ⊆ h' ∧ P a) h :=
  hp.traced (I := fun h' => h ⊆ h') (fun h q _ hq => hK h q hq)
    (fun _ _ hsub => List.Subset.trans hsub (List.subset_append_left _ _)) (List.Subset.refl h)

theorem traced_requireMember (c : Nat) (u : String) (missing : ErrCode)
    (hK : ∀ h q, q.Reads → K h q) :
    (requireMember c u missing).Traced Stmt.Fits K
      (fun h' mem => h ⊆ h' ∧ ⟨.takeMember c u,.ok mem⟩ ∈ h') h := by
  refine ⟨hK h _ trivial,fun answer _ => ?_⟩
  rcases answer with e | mem
  · cases e <;> exact trivial
  · exact ⟨List.subset_append_left _ _,List.mem_append_right _ (List.mem_singleton_self _)⟩

theorem reads_requireMember (c : Nat) (u : String) (missing : ErrCode) :
    (requireMember c u missing).Yields Stmt.Reads fun _ => True := by
  refine ⟨trivial,fun answer => ?_⟩
  rcases answer with e | mem
  · cases e <;> exact trivial
  · exact trivial

theorem reads_broadcast (event : Event) (members : List ChatConversationMember) :
    (broadcast event members).Yields Stmt.Reads fun _ => True :=
  Prog.yields_forM members fun _ _ => ⟨trivial,fun _ => trivial⟩

theorem reads_tellUnread (u : String) (c : Nat) (n : UInt32) :
    (tellUnread u c n).Yields Stmt.Reads fun _ => True :=
  ⟨trivial,fun _ => trivial⟩

end Rules

section SendMessage
variable {K : ChatTrace → Stmt → Prop} {h : ChatTrace}

theorem traced_refreshMember (msg : ChatMessage) (mem : ChatConversationMember)
    (hK : ∀ h q, q.Reads → K h q)
    (hstore : ∀ h' cnt, h ⊆ h' → K h' (.updateMember (mem.recounted cnt) [.unreadCount])) :
    (refreshMember msg mem).Traced Stmt.Fits K (fun h' _ => h ⊆ h') h := by
  refine ⟨hK h _ trivial,fun _ _ => ⟨hK _ _ trivial,fun answer _ => ?_⟩⟩
  rcases answer with e | cnt
  · exact fun e he => by simp [he]
  · refine ⟨hstore _ cnt fun e he => by simp [he],fun _ _ => ⟨hK _ _ trivial,fun _ _ => ?_⟩⟩
    exact fun e he => by simp [he]

theorem traced_broadcastMessage (msg : ChatMessage) (hK : ∀ h q, q.Reads → K h q)
    (hstore : ∀ h mem cnt, Told h msg.conversationID mem →
      K h (.updateMember (mem.recounted cnt) [.unreadCount])) :
    (broadcastMessage msg).Traced Stmt.Fits K (fun _ _ => True) h := by
  refine ⟨hK h _ trivial,fun answer _ => ?_⟩
  rcases answer with e | members
  · exact trivial
  · refine (Prog.traced_forM (I := fun h' => ⟨.findMembers msg.conversationID,.ok members⟩ ∈ h')
      members ?_ fun mem hmem h' hin => ?_).imp fun _ _ _ => trivial
    · exact List.mem_append_right _ (List.mem_singleton_self _)
    · refine (traced_refreshMember msg mem hK fun h'' cnt hsub => ?_).imp
        fun h'' _ hsub => hsub hin
      exact hstore h'' mem cnt (Or.inr ⟨members,hsub hin,hmem⟩)

variable (parse : String → Option Int)

theorem traced_sendMessage (req : SendMessageReq) :
    (sendMessage req).Traced Stmt.Fits (Request.May parse (.operation (.sendMessage req)))
      (Going (Request.May parse (.operation (.sendMessage req)))) h := by
  have hK : ∀ h q, q.Reads → Request.May parse (.operation (.sendMessage req)) h q :=
    fun _ _ hq => Or.inl hq
  rw [sendMessage]
  split
  · exact trivial
  refine (traced_requireMember _ _ _ hK).bind fun h _ _ => ⟨hK h _ trivial,fun answer _ => ?_⟩
  rcases answer with e | exist
  · rcases e with _ | _ | _
    · refine ⟨Or.inr (Or.inl rfl),fun answer hfit => ?_⟩
      rcases answer with e | msg
      · exact trivial
      · have hconv : msg.conversationID = req.conversationId := hfit
        refine ⟨Or.inr (Or.inr (Or.inl ⟨_,rfl,rfl⟩)),fun _ _ h' _ => ?_⟩
        refine traced_broadcastMessage msg hK fun h mem cnt htold => ?_
        rw [hconv] at htold
        exact Or.inr (Or.inr (Or.inr ⟨mem,cnt,htold,rfl⟩))
    · exact trivial
    · exact trivial
  · exact fun _ _ => trivial

end SendMessage

section Calls
variable {h : ChatTrace} (parse : String → Option Int)

theorem reads_announceRead (c : Nat) (reader : String) (lastReadID : Nat) (unread : UInt32) :
    (announceRead c reader lastReadID unread).Yields Stmt.Reads fun _ => True := by
  refine ⟨trivial,fun answer => ?_⟩
  rcases answer with e | members
  · exact reads_tellUnread reader c unread
  · exact ⟨trivial,fun readAt => (reads_broadcast _ members).bind fun _ _ =>
      reads_tellUnread reader c unread⟩

theorem traced_readMessages (req : ReadMessagesReq) :
    (readMessages req).Traced Stmt.Fits (Request.May parse (.operation (.readMessages req)))
      (Going (Request.May parse (.operation (.readMessages req)))) h := by
  have hK : ∀ h q, q.Reads → Request.May parse (.operation (.readMessages req)) h q :=
    fun _ _ hq => Or.inl hq
  rw [readMessages]
  split
  · exact trivial
  refine (traced_requireMember _ _ _ hK).bind fun h mem hmem => ?_
  rw [checkProgress]
  split
  · exact fun _ _ => trivial
  refine ⟨hK h _ trivial,fun answer _ => ?_⟩
  rcases answer with e | msg
  · cases e <;> exact trivial
  refine ⟨hK _ _ trivial,fun answer _ => ?_⟩
  rcases answer with e | cnt
  · exact trivial
  refine ⟨hK _ _ trivial,fun lastReadAt _ => ?_⟩
  have hold : ⟨.takeMember req.conversationId req.uuid,.ok mem⟩ ∈ h := hmem.2
  refine ⟨Or.inr ⟨mem,cnt,lastReadAt,by simp [hold],rfl⟩,fun answer _ => ?_⟩
  rcases answer with e | _
  · exact trivial
  · exact fun _ _ => (traced_reads (reads_announceRead _ _ _ _) hK).imp fun _ _ _ => trivial

theorem reads_announceRecalled (c messageID : Nat) (operator : String) (revokedAt : Int) :
    (announceRecalled c messageID operator revokedAt).Yields Stmt.Reads fun _ => True := by
  refine ⟨trivial,fun answer => ?_⟩
  rcases answer with e | members
  · exact trivial
  · exact reads_broadcast _ members

theorem traced_recallMessage (req : RecallMessageReq) :
    (recallMessage req).Traced Stmt.Fits (Request.May parse (.operation (.recallMessage req)))
      (Going (Request.May parse (.operation (.recallMessage req)))) h := by
  have hK : ∀ h q, q.Reads → Request.May parse (.operation (.recallMessage req)) h q :=
    fun _ _ hq => Or.inl hq
  rw [recallMessage]
  split
  · exact trivial
  refine (traced_requireMember _ _ _ hK).bind fun h mem hmem => ?_
  refine ⟨hK h _ trivial,fun answer _ => ?_⟩
  rcases answer with e | msg
  · cases e <;> exact trivial
  -- the right is known from the first row for the sender, else from the second
  have hright : (requireRecallRight req msg).Traced Stmt.Fits
      (Request.May parse (.operation (.recallMessage req))) (fun h' _ => req.Entitled h' msg)
      (h ++ [⟨.takeMessage req.messageId req.conversationId,.ok msg⟩]) := by
    have htold : ⟨.takeMember req.conversationId req.uuid,.ok mem⟩ ∈ h := hmem.2
    rw [requireRecallRight]
    split
    · rename_i hown
      exact ⟨by simp,mem,by simp [htold],Or.inl hown⟩
    · refine (traced_requireMember _ _ _ hK).bind fun h' mem' hmem' => ?_
      split
      · exact trivial
      · rename_i hrole
        exact ⟨hmem'.1 (by simp),mem',hmem'.2,Or.inr (Int8.not_lt.mp hrole)⟩
  refine hright.bind fun h' _ hentitled => ⟨hK _ _ trivial,fun now _ => ?_⟩
  refine ⟨Or.inr ⟨msg,now,?_,rfl⟩,fun answer _ => ?_⟩
  · obtain ⟨hmsg,mem',hmem',hor⟩ := hentitled
    exact ⟨by simp [hmsg],mem',by simp [hmem'],hor⟩
  · rcases answer with e | _
    · exact trivial
    · exact fun _ _ => (traced_reads (reads_announceRecalled _ _ _ _) hK).imp fun _ _ _ => trivial

theorem traced_updateConversationSettings (req : UpdateConversationSettingsReq) :
    (updateConversationSettings parse req).Traced Stmt.Fits
      (Request.May parse (.updateConversationSettings req))
      (Going (Request.May parse (.updateConversationSettings req))) h := by
  rw [updateConversationSettings]
  split
  · exact trivial
  refine (traced_requireMember _ _ _ fun _ _ hq => Or.inl hq).bind fun h mem hmem => ?_
  split
  · exact trivial
  · rename_i muteUntil htime
    rw [storeSettings]
    split
    · exact fun _ _ => trivial
    · refine ⟨Or.inr ⟨mem,muteUntil,hmem.2,htime,rfl⟩,fun answer _ => ?_⟩
      rcases answer with e | _
      · exact trivial
      · exact fun _ _ => trivial

end Calls

section Roster

theorem Stmt.Reads.onRoster {q : Stmt} (h : q.Reads) : q.OnRoster := by
  cases q <;> first | exact trivial | exact h.elim

def Keeps (K : Stmt → Prop) (main : ChatM Reply) : Prop :=
  main.Yields K fun reply => reply.2.Yields K fun _ => True

theorem onRoster_requireMember (c : Nat) (u : String) (missing : ErrCode) :
    (requireMember c u missing).Yields Stmt.OnRoster fun _ => True :=
  (reads_requireMember c u missing).imp fun _ => Stmt.Reads.onRoster

theorem onRoster_setMemberCount (c : Nat) (n : UInt32) :
    (setMemberCount c n).Yields Stmt.OnRoster fun _ => True :=
  ⟨trivial,fun _ => trivial⟩

theorem reads_announceAdded (c : Nat) (added : List String) :
    (announceAdded c added).Yields Stmt.Reads fun _ => True := by
  have htell : (forM added fun u => tellUnread u c 0).Yields Stmt.Reads fun _ => True :=
    Prog.yields_forM added fun u _ => reads_tellUnread u c 0
  refine ⟨trivial,fun answer => ?_⟩
  rcases answer with e | members
  · exact htell
  · exact (reads_broadcast _ members).bind fun _ _ => htell

theorem reads_announceRemoved (c : Nat) (u : String) :
    (announceRemoved c u).Yields Stmt.Reads fun _ => True := by
  refine ⟨trivial,fun answer => ?_⟩
  rcases answer with e | members
  · exact ⟨trivial,fun _ => trivial⟩
  · exact (reads_broadcast _ members).bind fun _ _ => ⟨trivial,fun _ => trivial⟩

theorem reads_announceCreated (info : ConversationInfo) (us : List String) :
    (announceCreated info us).Yields Stmt.Reads fun _ => True :=
  Prog.yields_forM us fun _ _ => ⟨trivial,fun _ => trivial⟩

theorem onRoster_addMembers (req : AddMembersReq) : Keeps Stmt.OnRoster (addMembers req) := by
  have hend : ∀ added, (announceAdded req.conversationId added).Yields Stmt.OnRoster
      fun _ => True :=
    fun added => (reads_announceAdded _ added).imp fun _ => Stmt.Reads.onRoster
  rw [addMembers]
  split
  · exact trivial
  refine (onRoster_requireMember _ _ _).bind fun _ _ => ⟨trivial,fun answer => ?_⟩
  rcases answer with e | members
  · exact trivial
  change Keeps Stmt.OnRoster (insertMembers _ _ _)
  rw [insertMembers]
  split
  · exact hend []
  · refine ⟨trivial,fun answer => ?_⟩
    rcases answer with e | _
    · exact trivial
    · exact (onRoster_setMemberCount _ _).bind fun _ _ => hend _

theorem onRoster_removeMember (req : RemoveMemberReq) : Keeps Stmt.OnRoster (removeMember req) := by
  have hend : Keeps Stmt.OnRoster
      (pure (Response.none,announceRemoved req.conversationId req.removeUUID)) :=
    (reads_announceRemoved _ _).imp fun _ => Stmt.Reads.onRoster
  rw [removeMember]
  split
  · exact trivial
  refine (onRoster_requireMember _ _ _).bind fun _ _ =>
    (onRoster_requireMember _ _ _).bind fun mem _ => ⟨trivial,fun answer => ?_⟩
  rcases answer with e | _
  · exact trivial
  refine ⟨trivial,fun answer => ?_⟩
  rcases answer with e | conv
  · exact hend
  · change Prog.Yields _ _ (if 0 < conv.memberCount then
      setMemberCount conv.id (conv.memberCount-1) >>= fun _ => _ else _)
    split
    · exact (onRoster_setMemberCount _ _).bind fun _ _ => hend
    · exact hend

theorem onRoster_createGroupConversation (req : CreateGroupConversationReq) :
    Keeps Stmt.OnRoster (createGroupConversation req) := by
  rw [createGroupConversation]
  split
  · exact trivial
  refine ⟨trivial,fun key => ⟨trivial,fun answer => ?_⟩⟩
  rcases answer with e | conv
  · exact trivial
  refine ⟨trivial,fun answer => ?_⟩
  rcases answer with e | _
  · exact trivial
  · exact (onRoster_setMemberCount _ _).bind fun _ _ =>
      (reads_announceCreated _ _).imp fun _ => Stmt.Reads.onRoster

theorem onRoster_completeMember (conv : ChatConversation) (u : String) :
    (completeMember conv u).Yields Stmt.OnRoster fun _ => True := by
  refine ⟨trivial,fun answer => ?_⟩
  rcases answer with e | mem
  · cases e with
    | recordNotFound => exact ⟨trivial,fun _ => onRoster_setMemberCount _ _⟩
    | _ => exact trivial
  · exact trivial

theorem onRoster_findPair (req : CreatePrivateConversationReq) :
    (findPair req).Yields Stmt.OnRoster fun _ => True := by
  refine ⟨trivial,fun answer => ?_⟩
  rcases answer with e | conv
  · cases e with
    | recordNotFound =>
      refine ⟨trivial,fun answer => ?_⟩
      rcases answer with e | conv
      · exact trivial
      refine ⟨trivial,fun answer => ?_⟩
      rcases answer with e | _ <;> exact trivial
    | _ => exact trivial
  · exact (Prog.yields_forM _ fun u _ => onRoster_completeMember conv u).bind fun _ _ => trivial

theorem onRoster_createPrivateConversation (req : CreatePrivateConversationReq) :
    Keeps Stmt.OnRoster (createPrivateConversation req) := by
  rw [createPrivateConversation]
  split
  · exact trivial
  · exact (onRoster_findPair req).bind fun _ _ =>
      (reads_announceCreated _ _).imp fun _ => Stmt.Reads.onRoster

end Roster

section Queries

theorem reads_getMessages (req : GetMessagesReq) : Keeps Stmt.Reads (getMessages req) := by
  rw [getMessages]
  split
  · exact trivial
  refine (reads_requireMember _ _ _).bind fun _ _ => ⟨trivial,fun answer => ?_⟩
  rcases answer with e | list <;> exact trivial

theorem reads_getConversations (req : GetConversationsReq) :
    Keeps Stmt.Reads (getConversations req) := by
  rw [getConversations]
  split
  · exact trivial
  refine ⟨trivial,fun answer => ?_⟩
  rcases answer with e | convs <;> exact trivial

theorem reads_getConversationDetail (req : GetConversationDetailReq) :
    Keeps Stmt.Reads (getConversationDetail req) := by
  rw [getConversationDetail]
  split
  · exact trivial
  refine (reads_requireMember _ _ _).bind fun _ _ => ⟨trivial,fun answer => ?_⟩
  rcases answer with e | conv
  · exact trivial
  refine ⟨trivial,fun answer => ?_⟩
  rcases answer with e | members <;> exact trivial

theorem reads_getUnreadCounts (uuid : String) : Keeps Stmt.Reads (getUnreadCounts uuid) := by
  rw [getUnreadCounts]
  split
  · exact trivial
  refine ⟨trivial,fun answer => ?_⟩
  rcases answer with e | members
  · exact trivial
  refine (Prog.yields_foldlM (P := fun _ => True) members trivial fun items _ m _ => ?_).bind
    fun _ _ => trivial
  refine ⟨trivial,fun answer => ?_⟩
  rcases answer with e | cnt <;> exact trivial

end Queries

theorem Keeps.traced {K : Stmt → Prop} {K' : ChatTrace → Stmt → Prop} {main : ChatM Reply}
    {h : ChatTrace} (hmain : Keeps K main) (hK : ∀ h q, K q → K' h q) :
    main.Traced Stmt.Fits K' (Going K') h := by
  refine (Prog.Yields.traced (I := fun _ => True) hmain (fun h q _ hq => hK h q hq)
    (fun _ _ _ => trivial) trivial).imp fun h reply hreply h' _ => ?_
  exact (hreply.2.traced (I := fun _ => True) (fun h q _ hq => hK h q hq) (fun _ _ _ => trivial)
    trivial).imp fun _ _ _ => trivial

/-- A call writes what `Request.May` says and nothing else. -/
theorem traced_request (parse : String → Option Int) (req : Request) :
    (serve (req.main parse)).Traced Stmt.Fits (req.May parse) (fun _ _ => True) [] := by
  refine traced_serve ?_ fun _ _ => Or.inl trivial
  cases req with
  | operation op =>
    cases op with
    | createGroupConversation req =>
      exact (onRoster_createGroupConversation req).traced fun _ _ hq => Or.inr hq
    | createPrivateConversation req =>
      exact (onRoster_createPrivateConversation req).traced fun _ _ hq => Or.inr hq
    | addMembers req => exact (onRoster_addMembers req).traced fun _ _ hq => Or.inr hq
    | removeMember req => exact (onRoster_removeMember req).traced fun _ _ hq => Or.inr hq
    | sendMessage req => exact traced_sendMessage parse req
    | recallMessage req => exact traced_recallMessage parse req
    | readMessages req => exact traced_readMessages parse req
  | getMessages req => exact (reads_getMessages req).traced fun _ _ hq => Or.inl hq
  | getConversations req => exact (reads_getConversations req).traced fun _ _ hq => Or.inl hq
  | getConversationDetail req =>
    exact (reads_getConversationDetail req).traced fun _ _ hq => Or.inl hq
  | getUnreadCounts uuid => exact (reads_getUnreadCounts uuid).traced fun _ _ hq => Or.inl hq
  | updateConversationSettings req => exact traced_updateConversationSettings parse req

section Together
variable {ι : Type}

/-- Calls of all kinds side by side. -/
def startTogether (parse : String → Option Int) (db : Database) (reqs : ι → Request) : Calls ι :=
  ⟨db,fun i => serve ((reqs i).main parse),[]⟩

theorem traced_together (parse : String → Option Int) (db : Database) (reqs : ι → Request) (i : ι) :
    ((startTogether parse db reqs).threads i).Traced Stmt.Fits ((reqs i).May parse)
      (fun _ _ => True) [] :=
  traced_request parse (reqs i)

variable [DecidableEq ι]

def runTogether (out : Outer) (parse : String → Option Int) (db : Database) (reqs : ι → Request)
    (schedule : List ι) : Calls ι :=
  (startTogether parse db reqs).run (exec out) schedule

theorem runTogether_concat (out : Outer) (parse : String → Option Int) (db : Database)
    (reqs : ι → Request) (schedule : List ι) (i : ι) :
    runTogether out parse db reqs (schedule ++ [i]) =
      (runTogether out parse db reqs schedule).next (exec out) i :=
  Pool.run_concat (exec out) schedule i _

variable {out : Outer} {p : Calls ι}

theorem later_run (out : Outer) (p : Calls ι) (schedule : List ι) :
    Later p.state (p.run (exec out) schedule).state :=
  Pool.run_state (I := fun t => Later p.state t) (exec out)
    (fun q s hs => hs.trans (later_exec out q s)) (Later.refl _) schedule

theorem keyed_run (h : Keyed p.state) (schedule : List ι) :
    Keyed (p.run (exec out) schedule).state :=
  Pool.run_state (exec out) (fun q _ hs => hs.exec out q) h schedule

end Together

end Imy.Chat
