import Imy.Lib.History
import Imy.Chat.Answers
import Imy.Chat.MemberCount
set_option autoImplicit false

namespace Imy.Chat
open Imy.Lib

def Operation.caller : Operation → String
  | .createGroupConversation req => req.uuid
  | .createPrivateConversation req => req.uuid
  | .addMembers req => req.uuid
  | .removeMember req => req.uuid
  | .sendMessage req => req.uuid
  | .recallMessage req => req.uuid
  | .readMessages req => req.uuid

def Request.caller : Request → String
  | .operation op => op.caller
  | .getMessages req => req.uuid
  | .getConversations req => req.uuid
  | .getConversationDetail req => req.uuid
  | .getUnreadCounts uuid => uuid
  | .updateConversationSettings req => req.uuid

/-- The conversation that an event is about. -/
def Event.conversationId : Event → Nat
  | .conversationCreated info => info.conversationId
  | .memberAdded c _ => c
  | .memberRemoved c _ => c
  | .messageNew info => info.conversationId
  | .messageRead c _ _ _ => c
  | .messageRecalled c _ _ _ => c
  | .unreadCountChange item => item.conversationId

section Known
variable {h h' : ChatTrace} {c : Nat} {u caller : String}

def Seen (h : ChatTrace) (c : Nat) (u : String) : Prop :=
  (∃ mem, ⟨.takeMember c u,.ok mem⟩ ∈ h) ∨
    (∃ members, ⟨.findMembers c,.ok members⟩ ∈ h ∧ ∃ mem ∈ members, mem.userUUID = u) ∨
    ∃ rows, ⟨.createMembers rows,.ok ()⟩ ∈ h ∧ memberRow c u ∈ rows

def Rowed (h : ChatTrace) (c : Nat) (u : String) : Prop :=
  Seen h c u ∨ ∃ e, ⟨.createMembers [memberRow c u],.error e⟩ ∈ h

/-- The message was inserted for the sender before the members were asked for, and those
who were told before the user come first in the answer. -/
def Announces (h : ChatTrace) (sender u : String) (info : MessageInfo) : Prop :=
  ∃ h₁ h₂ row msg done mem rest,
    h = h₁ ++ ⟨.findMembers msg.conversationID,.ok (done ++ mem :: rest)⟩ :: h₂ ∧
    ⟨.createMessage row,.ok msg⟩ ∈ h₁ ∧ row.sendUUID = sender ∧ info = msg.info ∧ mem.userUUID = u ∧
    ∀ v info', ⟨.sendJSON v (.messageNew info'),()⟩ ∈ h → ∃ m ∈ done, m.userUUID = v

def Tells (caller : String) (h : ChatTrace) : Stmt → Prop
  | .sendJSON u (.conversationCreated info) =>
    Rowed h info.conversationId u ∧ Rowed h info.conversationId caller
  | .sendJSON u (.messageNew info) => Seen h info.conversationId caller ∧ Announces h caller u info
  | .sendJSON u e => Seen h e.conversationId u ∧ Seen h e.conversationId caller
  | _ => True

theorem Seen.mono (hs : Seen h c u) (hsub : h ⊆ h') : Seen h' c u := by
  rcases hs with ⟨mem,hmem⟩ | ⟨members,hfind,hin⟩ | ⟨rows,hrows,hin⟩
  · exact Or.inl ⟨mem,hsub hmem⟩
  · exact Or.inr (Or.inl ⟨members,hsub hfind,hin⟩)
  · exact Or.inr (Or.inr ⟨rows,hsub hrows,hin⟩)

theorem Rowed.mono (hs : Rowed h c u) (hsub : h ⊆ h') : Rowed h' c u :=
  hs.imp (Seen.mono · hsub) fun ⟨e,he⟩ => ⟨e,hsub he⟩

theorem seen_of_found {members : List ChatConversationMember} {mem : ChatConversationMember}
    (hfind : ⟨.findMembers c,.ok members⟩ ∈ h) (hmem : mem ∈ members) : Seen h c mem.userUUID :=
  Or.inr (Or.inl ⟨members,hfind,mem,hmem,rfl⟩)

end Known

section Parts
variable {h : ChatTrace} {c : Nat} {caller u : String}

theorem traced_membership (c : Nat) (u : String) (missing : ErrCode) :
    (requireMember c u missing).Traced Stmt.Fits (Tells caller)
      (fun h' _ => h ⊆ h' ∧ Seen h' c u) h := by
  refine ⟨trivial,fun answer _ => ?_⟩
  rcases answer with e | mem
  · cases e <;> exact trivial
  · exact ⟨List.subset_append_left _ _,Or.inl
      ⟨mem,List.mem_append_right _ (List.mem_singleton_self _)⟩⟩

theorem traced_tellUnread (hu : Seen h c u) (hcaller : Seen h c caller) (n : UInt32) :
    (tellUnread u c n).Traced Stmt.Fits (Tells caller) (fun h' _ => h ⊆ h') h :=
  ⟨⟨hu,hcaller⟩,fun _ _ => List.subset_append_left _ _⟩

theorem traced_broadcast {members : List ChatConversationMember} {event : Event}
    (hfind : ⟨.findMembers c,.ok members⟩ ∈ h)
    (hK : ∀ h' u, h ⊆ h' → Seen h' c u → Tells caller h' (.sendJSON u event)) :
    (broadcast event members).Traced Stmt.Fits (Tells caller) (fun h' _ => h ⊆ h') h := by
  refine Prog.traced_forM (I := fun h' => h ⊆ h') members (List.Subset.refl h)
    fun mem hmem h' hsub => ?_
  refine ⟨hK h' mem.userUUID hsub (seen_of_found (hsub hfind) hmem),fun _ _ => ?_⟩
  exact List.Subset.trans hsub (List.subset_append_left _ _)

theorem traced_announceAdded {added : List String} (hcaller : Seen h c caller)
    (hadded : ∀ u ∈ added, Seen h c u) :
    (announceAdded c added).Traced Stmt.Fits (Tells caller) (fun _ _ => True) h := by
  have htell : ∀ h', h ⊆ h' → (forM added fun u => tellUnread u c 0).Traced Stmt.Fits (Tells caller)
      (fun _ _ => True) h' := by
    intro h' hsub
    refine (Prog.traced_forM (I := fun h' => h ⊆ h') added hsub fun u hu h'' hsub' => ?_).imp
      fun _ _ _ => trivial
    refine (traced_tellUnread ((hadded u hu).mono hsub') (hcaller.mono hsub') 0).imp
      fun _ _ hmore => ?_
    exact List.Subset.trans hsub' hmore
  refine ⟨trivial,fun answer _ => ?_⟩
  rcases answer with e | members
  · exact htell _ (List.subset_append_left _ _)
  · refine (traced_broadcast (List.mem_append_right _ (List.mem_singleton_self _))
      fun h' u hsub hu => ?_).bind
      fun h' _ hsub => htell h' (List.Subset.trans (List.subset_append_left _ _) hsub)
    exact ⟨hu,hcaller.mono (List.Subset.trans (List.subset_append_left _ _) hsub)⟩

theorem traced_announceRemoved (hcaller : Seen h c caller) (hu : Seen h c u) :
    (announceRemoved c u).Traced Stmt.Fits (Tells caller) (fun _ _ => True) h := by
  refine ⟨trivial,fun answer _ => ?_⟩
  have hlater : ∀ {h' v}, h ++ [⟨.findMembers c,answer⟩] ⊆ h' → Seen h c v → Seen h' c v :=
    fun hsub hv => hv.mono (List.Subset.trans (List.subset_append_left _ _) hsub)
  rcases answer with e | members
  · exact ⟨⟨hlater (List.Subset.refl _) hu,hlater (List.Subset.refl _) hcaller⟩,fun _ _ => trivial⟩
  · refine (traced_broadcast (List.mem_append_right _ (List.mem_singleton_self _))
      fun h' v hsub hv => ?_).bind
      fun h' _ hsub => ⟨⟨hlater hsub hu,hlater hsub hcaller⟩,fun _ _ => trivial⟩
    exact ⟨hv,hlater hsub hcaller⟩

theorem traced_announceRead (hcaller : Seen h c caller) (lastReadID : Nat) (unread : UInt32) :
    (announceRead c caller lastReadID unread).Traced Stmt.Fits (Tells caller)
      (fun _ _ => True) h := by
  refine ⟨trivial,fun answer _ => ?_⟩
  have hlater : ∀ {h'}, h ++ [⟨.findMembers c,answer⟩] ⊆ h' → Seen h' c caller :=
    fun hsub => hcaller.mono (List.Subset.trans (List.subset_append_left _ _) hsub)
  rcases answer with e | members
  · exact (traced_tellUnread (hlater (List.Subset.refl _)) (hlater (List.Subset.refl _)) unread).imp
      fun _ _ _ => trivial
  · refine ⟨trivial,fun readAt _ =>
      (traced_broadcast (c := c) (by simp) fun h' v hsub hv => ?_).bind
      fun h' _ hsub => ?_⟩
    · exact ⟨hv,hlater (List.Subset.trans (List.subset_append_left _ _) hsub)⟩
    · have hsub' := hlater (List.Subset.trans (List.subset_append_left _ _) hsub)
      exact (traced_tellUnread hsub' hsub' unread).imp fun _ _ _ => trivial

theorem traced_announceRecalled (hcaller : Seen h c caller) (messageID : Nat) (revokedAt : Int) :
    (announceRecalled c messageID caller revokedAt).Traced Stmt.Fits (Tells caller)
      (fun _ _ => True) h := by
  refine ⟨trivial,fun answer _ => ?_⟩
  rcases answer with e | members
  · exact trivial
  · refine (traced_broadcast (List.mem_append_right _ (List.mem_singleton_self _))
      fun h' v hsub hv => ?_).imp
      fun _ _ _ => trivial
    exact ⟨hv,hcaller.mono (List.Subset.trans (List.subset_append_left _ _) hsub)⟩

theorem traced_announceCreated_rowed {info : ConversationInfo} {us : List String}
    (hcaller : Rowed h info.conversationId caller) (hus : ∀ u ∈ us, Rowed h info.conversationId u) :
    (announceCreated info us).Traced Stmt.Fits (Tells caller) (fun _ _ => True) h := by
  refine (Prog.traced_forM (I := fun h' => h ⊆ h') us (List.Subset.refl h)
    fun u hu h' hsub => ?_).imp
    fun _ _ _ => trivial
  refine ⟨⟨(hus u hu).mono hsub,hcaller.mono hsub⟩,fun _ _ => ?_⟩
  exact List.Subset.trans hsub (List.subset_append_left _ _)

end Parts

section Calls
variable {h : ChatTrace}

theorem traced_addMembers_tells (req : AddMembersReq) :
    (addMembers req).Traced Stmt.Fits (Tells req.uuid) (Going (Tells req.uuid)) h := by
  rw [addMembers]
  split
  · exact trivial
  refine (traced_membership _ _ _).bind fun h _ hchecked => ⟨trivial,fun answer _ => ?_⟩
  have hcaller := hchecked.2
  rcases answer with e | members
  · exact trivial
  change Prog.Traced _ _ _ _ (insertMembers _ _ _)
  rw [insertMembers]
  split
  · intro h' hsub
    refine traced_announceAdded (hcaller.mono ?_) (by simp)
    exact List.Subset.trans (List.subset_append_left _ _) hsub
  · refine ⟨trivial,fun answer _ => ?_⟩
    rcases answer with e | _
    · exact trivial
    · refine ⟨trivial,fun _ _ h' hsub => traced_announceAdded ?_ fun u hu => ?_⟩
      · exact hcaller.mono fun e he => hsub (by simp [he])
      · exact Or.inr (Or.inr ⟨_,hsub (by simp),List.mem_map_of_mem hu⟩)

theorem traced_removeMember_tells (req : RemoveMemberReq) :
    (removeMember req).Traced Stmt.Fits (Tells req.uuid) (Going (Tells req.uuid)) h := by
  rw [removeMember]
  split
  · exact trivial
  refine (traced_membership _ _ _).bind fun h _ hchecked =>
    (traced_membership _ _ _).bind fun h₁ mem hfound => ⟨trivial,fun answer _ => ?_⟩
  have hcaller := hchecked.2
  obtain ⟨hsub,hremoved⟩ := hfound
  rcases answer with e | _
  · exact trivial
  have hend : ∀ {h₂}, h₁ ⊆ h₂ → Going (Tells req.uuid) h₂
      (.none,announceRemoved req.conversationId req.removeUUID) := by
    intro h₂ hmore h₃ hmore'
    have hall := List.Subset.trans hmore hmore'
    exact traced_announceRemoved (hcaller.mono (List.Subset.trans hsub hall)) (hremoved.mono hall)
  refine ⟨trivial,fun answer _ => ?_⟩
  rcases answer with e | conv
  · exact hend fun e he => by simp [he]
  · change Prog.Traced _ _ _ _ (if 0 < conv.memberCount then
      setMemberCount conv.id (conv.memberCount-1) >>= fun _ => _ else _)
    split
    · exact ⟨trivial,fun _ _ => hend fun e he => by simp [he]⟩
    · exact hend fun e he => by simp [he]

theorem traced_recallMessage_tells (req : RecallMessageReq) :
    (recallMessage req).Traced Stmt.Fits (Tells req.uuid) (Going (Tells req.uuid)) h := by
  rw [recallMessage]
  split
  · exact trivial
  refine (traced_membership _ _ _).bind fun h _ hchecked => ⟨trivial,fun answer _ => ?_⟩
  have hcaller := hchecked.2
  rcases answer with e | msg
  · cases e <;> exact trivial
  have hright : (requireRecallRight req msg).Traced Stmt.Fits (Tells req.uuid)
      (fun h' _ => Seen h' req.conversationId req.uuid)
      (h ++ [⟨.takeMessage req.messageId req.conversationId,.ok msg⟩]) := by
    rw [requireRecallRight]
    split
    · exact hcaller.mono (List.subset_append_left _ _)
    · refine (traced_membership _ _ _).bind fun h' mem hfound => ?_
      split
      · exact trivial
      · exact hfound.2
  refine hright.bind fun h' _ hseen => ⟨trivial,fun now _ => ⟨trivial,fun answer _ => ?_⟩⟩
  rcases answer with e | _
  · exact trivial
  · exact fun h'' hsub => traced_announceRecalled (hseen.mono fun e he => hsub (by simp [he])) _ _

theorem traced_readMessages_tells (req : ReadMessagesReq) :
    (readMessages req).Traced Stmt.Fits (Tells req.uuid) (Going (Tells req.uuid)) h := by
  rw [readMessages]
  split
  · exact trivial
  refine (traced_membership _ _ _).bind fun h mem hchecked => ?_
  have hcaller := hchecked.2
  rw [checkProgress]
  split
  · exact fun _ _ => trivial
  refine ⟨trivial,fun answer _ => ?_⟩
  rcases answer with e | msg
  · cases e <;> exact trivial
  refine ⟨trivial,fun answer _ => ?_⟩
  rcases answer with e | cnt
  · exact trivial
  refine ⟨trivial,fun lastReadAt _ => ⟨trivial,fun answer _ => ?_⟩⟩
  rcases answer with e | _
  · exact trivial
  · exact fun h' hsub => traced_announceRead (hcaller.mono fun e he => hsub (by simp [he])) _ _

theorem traced_createGroupConversation_tells (req : CreateGroupConversationReq) :
    (createGroupConversation req).Traced Stmt.Fits (Tells req.uuid) (Going (Tells req.uuid)) h := by
  rw [createGroupConversation]
  split
  · exact trivial
  refine ⟨trivial,fun key _ => ⟨trivial,fun answer _ => ?_⟩⟩
  rcases answer with e | conv
  · exact trivial
  refine ⟨trivial,fun answer _ => ?_⟩
  rcases answer with e | _
  · exact trivial
  · refine ⟨trivial,fun _ _ h' hsub => ?_⟩
    have hrowed : ∀ u ∈ req.uuid :: newUUIDs [req.uuid] req.memberUUIDs, Rowed h' conv.id u :=
      fun u hu => Or.inl (Or.inr (Or.inr ⟨_,hsub (by simp),List.mem_map_of_mem hu⟩))
    exact traced_announceCreated_rowed (hrowed _ List.mem_cons_self) hrowed

theorem traced_completeMember_rowed (conv : ChatConversation) (caller u : String) :
    (completeMember conv u).Traced Stmt.Fits (Tells caller) (fun h' _ => h ⊆ h' ∧
      Rowed h' conv.id u) h := by
  refine ⟨trivial,fun answer _ => ?_⟩
  rcases answer with (_ | _ | _) | mem
  · refine ⟨trivial,fun answer _ => ⟨trivial,fun _ _ => ⟨fun e he => by simp [he],?_⟩⟩⟩
    rcases answer with e | _
    · exact Or.inr ⟨e,by simp⟩
    · exact Or.inl (Or.inr (Or.inr ⟨_,by simp,List.mem_singleton_self _⟩))
  · exact trivial
  · exact trivial
  · exact ⟨List.subset_append_left _ _,Or.inl (Or.inl ⟨mem,by simp⟩)⟩

theorem traced_findPair_rowed (req : CreatePrivateConversationReq) :
    (findPair req).Traced Stmt.Fits (Tells req.uuid)
      (fun h' conv => ∀ u ∈ [req.uuid,req.peerUUID], Rowed h' conv.id u) h := by
  refine ⟨trivial,fun answer _ => ?_⟩
  rcases answer with (_ | _ | _) | conv
  · refine ⟨trivial,fun answer _ => ?_⟩
    rcases answer with e | conv
    · exact trivial
    refine ⟨trivial,fun answer _ => ?_⟩
    rcases answer with e | _
    · exact trivial
    · refine fun u hu =>
        Or.inl (Or.inr (Or.inr ⟨[memberRow conv.id req.uuid,memberRow conv.id req.peerUUID],?_⟩))
      exact ⟨by simp,List.mem_map_of_mem (f := memberRow conv.id) hu⟩
  · exact trivial
  · exact trivial
  · refine (Prog.traced_forM_done (I := fun us h' => ∀ u ∈ us, Rowed h' conv.id u)
      [req.uuid,req.peerUUID]
      (by simp) fun us u _ _ h' hus => ?_).bind fun h' _ hall => hall
    refine (traced_completeMember_rowed conv req.uuid u).imp fun h'' _ hround v hv => ?_
    obtain ⟨hsub,hu⟩ := hround
    rcases List.mem_append.mp hv with hv | hv
    · exact (hus v hv).mono hsub
    · rw [List.mem_singleton.mp hv]
      exact hu

theorem traced_createPrivateConversation_tells (req : CreatePrivateConversationReq) :
    (createPrivateConversation req).Traced Stmt.Fits (Tells req.uuid)
      (Going (Tells req.uuid)) h := by
  rw [createPrivateConversation]
  split
  · exact trivial
  refine (traced_findPair_rowed req).bind fun h' conv hrowed h'' hsub => ?_
  refine traced_announceCreated_rowed ((hrowed _ ?_).mono hsub) fun u hu => (hrowed u hu).mono hsub
  exact List.mem_cons_self

/-- Neither a push nor a new message. -/
def Stmt.Silent : Stmt → Prop
  | .sendJSON _ _ => False
  | .createMessage _ => False
  | _ => True

theorem silent_requireMember (c : Nat) (u : String) (missing : ErrCode) :
    (requireMember c u missing).Yields Stmt.Silent fun _ => True := by
  refine ⟨trivial,fun answer => ?_⟩
  rcases answer with e | mem
  · cases e <;> exact trivial
  · exact trivial

theorem silent_getMessages (req : GetMessagesReq) : Keeps Stmt.Silent (getMessages req) := by
  rw [getMessages]
  split
  · exact trivial
  refine (silent_requireMember _ _ _).bind fun _ _ => ⟨trivial,fun answer => ?_⟩
  rcases answer with e | list <;> exact trivial

theorem silent_getConversations (req : GetConversationsReq) :
    Keeps Stmt.Silent (getConversations req) := by
  rw [getConversations]
  split
  · exact trivial
  refine ⟨trivial,fun answer => ?_⟩
  rcases answer with e | convs <;> exact trivial

theorem silent_getConversationDetail (req : GetConversationDetailReq) :
    Keeps Stmt.Silent (getConversationDetail req) := by
  rw [getConversationDetail]
  split
  · exact trivial
  refine (silent_requireMember _ _ _).bind fun _ _ => ⟨trivial,fun answer => ?_⟩
  rcases answer with e | conv
  · exact trivial
  refine ⟨trivial,fun answer => ?_⟩
  rcases answer with e | members <;> exact trivial

theorem silent_getUnreadCounts (uuid : String) : Keeps Stmt.Silent (getUnreadCounts uuid) := by
  rw [getUnreadCounts]
  split
  · exact trivial
  refine ⟨trivial,fun answer => ?_⟩
  rcases answer with e | members
  · exact trivial
  refine (Prog.yields_foldlM (P := fun _ => True) members trivial fun items _ m _ => ?_).bind
    fun _ _ => trivial
  refine ⟨trivial,fun answer => ?_⟩
  rcases answer with e | cnt <;> exact trivial

theorem silent_updateConversationSettings (parse : String → Option Int)
    (req : UpdateConversationSettingsReq) :
    Keeps Stmt.Silent (updateConversationSettings parse req) := by
  rw [updateConversationSettings]
  split
  · exact trivial
  refine (silent_requireMember _ _ _).bind fun mem _ => ?_
  split
  · exact trivial
  · rw [storeSettings]
    split
    · exact trivial
    · refine ⟨trivial,fun answer => ?_⟩
      rcases answer with e | _ <;> exact trivial

end Calls

section SendMessage
variable {h h₁ : ChatTrace} {caller : String} {row msg : ChatMessage}
    {members : List ChatConversationMember}

def AllTold (h : ChatTrace) : Prop :=
  ∀ row msg members, ⟨.createMessage row,.ok msg⟩ ∈ h →
    ⟨.findMembers msg.conversationID,.ok members⟩ ∈ h →
    ∃ h₁ h₂, h = h₁ ++ ⟨.findMembers msg.conversationID,.ok members⟩ :: h₂ ∧
      ⟨.createMessage row,.ok msg⟩ ∈ h₁ ∧
    ∀ mem ∈ members, ⟨.sendJSON mem.userUUID (.messageNew msg.info),()⟩ ∈ h

def Stmt.Beside : Stmt → Prop
  | .createMessage _ | .findMembers _ | .sendJSON _ (.messageNew _) => False
  | _ => True

structure Telling (h₁ : ChatTrace) (row msg : ChatMessage)
    (members done : List ChatConversationMember) (h : ChatTrace) : Prop where
  inserted : ⟨.createMessage row,.ok msg⟩ ∈ h₁
  found : ∃ h₂, h = h₁ ++ ⟨.findMembers msg.conversationID,.ok members⟩ :: h₂
  alone : ∀ row' msg', ⟨.createMessage row',.ok msg'⟩ ∈ h → row' = row ∧ msg' = msg
  asked : ∀ members', ⟨.findMembers msg.conversationID,.ok members'⟩ ∈ h → members' = members
  told : ∀ v info, ⟨.sendJSON v (.messageNew info),()⟩ ∈ h ↔
    (∃ m ∈ done, m.userUUID = v) ∧ info = msg.info

theorem mem_beside {e e' : Sigma Stmt.Answer} (he : e.1.Beside) (he' : ¬ e'.1.Beside) :
    e' ∈ h ++ [e] ↔ e' ∈ h := by
  rw [List.mem_append,or_iff_left]
  intro hin
  rw [List.mem_singleton.mp hin] at he'
  exact he' he

theorem Telling.append {done : List ChatConversationMember} (ht : Telling h₁ row msg members done h)
    {e : Sigma Stmt.Answer} (he : e.1.Beside) : Telling h₁ row msg members done (h ++ [e]) := by
  obtain ⟨h₂,hsplit⟩ := ht.found
  refine ⟨ht.inserted,⟨h₂ ++ [e],by rw [hsplit]; simp⟩,fun row' msg' hin => ?_,
    fun members' hin => ?_,fun v info => ?_⟩
  · exact ht.alone row' msg' ((mem_beside he id).mp hin)
  · exact ht.asked members' ((mem_beside he id).mp hin)
  · rw [mem_beside he id]
    exact ht.told v info

theorem Telling.tell {done : List ChatConversationMember} (ht : Telling h₁ row msg members done h)
    (mem : ChatConversationMember) : Telling h₁ row msg members (done ++ [mem])
      (h ++ [⟨.sendJSON mem.userUUID (.messageNew msg.info),()⟩]) := by
  obtain ⟨h₂,hsplit⟩ := ht.found
  refine ⟨ht.inserted,⟨h₂ ++ [⟨.sendJSON mem.userUUID (.messageNew msg.info),()⟩],
    by rw [hsplit]; simp⟩,
    fun row' msg' hin => ?_,fun members' hin => ?_,fun v info => ?_⟩
  · rcases List.mem_append.mp hin with hin | hin
    · exact ht.alone row' msg' hin
    · cases List.mem_singleton.mp hin
  · rcases List.mem_append.mp hin with hin | hin
    · exact ht.asked members' hin
    · cases List.mem_singleton.mp hin
  · rw [List.mem_append,ht.told,List.mem_singleton]
    simp only [Sigma.mk.injEq,Stmt.sendJSON.injEq,Event.messageNew.injEq,heq_eq_eq,
      and_true,List.mem_append,
      List.mem_singleton,or_and_right,exists_or,exists_eq_left]
    exact or_congr_right (and_congr_left fun _ => eq_comm)

theorem Telling.announces {mem : ChatConversationMember} {done rest : List ChatConversationMember}
    (ht : Telling h₁ row msg (done ++ mem :: rest) done h) :
    Announces h row.sendUUID mem.userUUID msg.info := by
  obtain ⟨h₂,hsplit⟩ := ht.found
  exact ⟨h₁,h₂,row,msg,done,mem,rest,hsplit,ht.inserted,rfl,rfl,rfl,fun v info hin =>
    ((ht.told v info).mp hin).1⟩

theorem Telling.allTold (ht : Telling h₁ row msg members members h) : AllTold h := by
  intro row' msg' members' hin hfound
  obtain ⟨rfl,rfl⟩ := ht.alone row' msg' hin
  obtain rfl := ht.asked members' hfound
  obtain ⟨h₂,hsplit⟩ := ht.found
  exact ⟨h₁,h₂,hsplit,ht.inserted,fun mem hmem => (ht.told _ _).mpr ⟨⟨mem,hmem,rfl⟩,rfl⟩⟩

theorem traced_refreshMember_tells {mem : ChatConversationMember}
    {done rest : List ChatConversationMember}
    (ht : Telling h₁ row msg (done ++ mem :: rest) done h)
    (hcaller : Seen h₁ msg.conversationID row.sendUUID)
    (hconv : mem.conversationID = msg.conversationID) :
    (refreshMember msg mem).Traced Stmt.Fits (Tells row.sendUUID)
      (fun h' _ => Telling h₁ row msg (done ++ mem :: rest) (done ++ [mem]) h') h := by
  have hseen : ∀ {h' done'}, Telling h₁ row msg (done ++ mem :: rest) done' h' →
    ∀ c, c = msg.conversationID →
      Seen h' c mem.userUUID ∧ Seen h' c row.sendUUID := by
    rintro h' done' ht' c rfl
    obtain ⟨h₂,rfl⟩ := ht'.found
    have hfound : (⟨.findMembers msg.conversationID,
      .ok (done ++ mem :: rest)⟩ : Sigma Stmt.Answer) ∈
        h₁ ++ ⟨.findMembers msg.conversationID,.ok (done ++ mem :: rest)⟩ :: h₂ := by
      simp
    exact ⟨seen_of_found hfound (by simp),hcaller.mono (List.subset_append_left _ _)⟩
  refine ⟨⟨(hseen ht _ rfl).2,ht.announces⟩,fun _ _ => ⟨trivial,fun answer _ => ?_⟩⟩
  have htold := (ht.tell mem).append (e :=
    ⟨.countMessages msg.conversationID mem.lastReadMessageID mem.userUUID,answer⟩)
    trivial
  rcases answer with e | cnt
  · exact htold
  · refine ⟨trivial,fun answer _ => ?_⟩
    have hstored := htold.append
      (e := ⟨.updateMember { mem with unreadCount := UInt32.ofNat cnt }
        [.unreadCount],answer⟩) trivial
    exact ⟨hseen hstored _ hconv,fun _ _ => hstored.append trivial⟩

theorem traced_broadcastMessage_tells (hinserted : ⟨.createMessage row,.ok msg⟩ ∈ h)
    (halone : ∀ row' msg', ⟨.createMessage row',.ok msg'⟩ ∈ h → row' = row ∧ msg' = msg)
    (hunasked : ∀ c answer, ⟨.findMembers c,answer⟩ ∉ h)
    (hsilent : ∀ v info, ⟨.sendJSON v (.messageNew info),()⟩ ∉ h)
    (hcaller : Seen h msg.conversationID row.sendUUID) :
    (broadcastMessage msg).Traced Stmt.Fits (Tells row.sendUUID) (fun h' _ => AllTold h') h := by
  refine ⟨trivial,fun answer hfits => ?_⟩
  rcases answer with e | members
  · intro row' msg' members hin hfound
    simp [hunasked] at hfound
  have hstart : Telling h row msg members []
      (h ++ [⟨.findMembers msg.conversationID,.ok members⟩]) := by
    refine ⟨hinserted,⟨[],rfl⟩,fun row' msg' hin => halone row' msg' (by simpa using hin),
      fun members' hin => ?_,
      fun v info => by simp [hsilent]⟩
    simpa [hunasked] using hin
  refine (Prog.traced_forM_done (I := Telling h row msg members) members hstart
    fun done mem rest hmembers h' ht => ?_).imp
    fun h' _ ht => ht.allTold
  subst hmembers
  exact traced_refreshMember_tells ht hcaller (hfits mem (by simp))

theorem allTold_of_none (hnone : ∀ row msg, ⟨.createMessage row,.ok msg⟩ ∉ h) : AllTold h :=
  fun row msg _ hin => (hnone row msg hin).elim

/-- The whole call, from nothing asked to everybody told. -/
theorem traced_sendMessage_tells (req : SendMessageReq) :
    (serve (sendMessage req)).Traced Stmt.Fits (Tells req.uuid) (fun h _ => AllTold h) [] := by
  rw [sendMessage]
  split
  · exact ⟨trivial,fun _ _ => allTold_of_none (by simp)⟩
  refine ⟨trivial,fun answer _ => ?_⟩
  rcases answer with (_ | _ | _) | mem
  · exact ⟨trivial,fun _ _ => allTold_of_none (by simp)⟩
  · exact ⟨trivial,fun _ _ => allTold_of_none (by simp)⟩
  · exact ⟨trivial,fun _ _ => allTold_of_none (by simp)⟩
  refine ⟨trivial,fun answer _ => ?_⟩
  rcases answer with (_ | _ | _) | exist
  · refine ⟨trivial,fun answer hfits => ?_⟩
    rcases answer with e | msg
    · exact ⟨trivial,fun _ _ => allTold_of_none (by simp)⟩
    have hconv : msg.conversationID = req.conversationId := hfits
    refine ⟨trivial,fun _ _ => ⟨trivial,fun _ _ => ?_⟩⟩
    change Prog.Traced _ (Tells req.message.sendUUID) _ _ _
    refine traced_broadcastMessage_tells (by simp) (by simp) (by simp) (by simp) ?_
    rw [hconv]
    exact Or.inl ⟨mem,by simp [SendMessageReq.message]⟩
  · exact ⟨trivial,fun _ _ => allTold_of_none (by simp)⟩
  · exact ⟨trivial,fun _ _ => allTold_of_none (by simp)⟩
  · exact ⟨trivial,fun _ _ => allTold_of_none (by simp)⟩

end SendMessage

theorem traced_request_tells (parse : String → Option Int) (req : Request) :
    (serve (req.main parse)).Traced Stmt.Fits (Tells req.caller) (fun _ _ => True) [] := by
  have hsilent : Keeps Stmt.Silent (req.main parse) →
    (serve (req.main parse)).Traced Stmt.Fits (Tells req.caller)
      (fun _ _ => True) [] := by
    refine fun hmain => traced_serve (hmain.traced fun h q hq => ?_) fun _ _ => trivial
    cases q with
    | sendJSON u e => exact hq.elim
    | _ => exact trivial
  cases req with
  | operation op =>
    cases op with
    | createGroupConversation req =>
      exact traced_serve (traced_createGroupConversation_tells req) fun _ _ => trivial
    | createPrivateConversation req =>
      exact traced_serve (traced_createPrivateConversation_tells req) fun _ _ => trivial
    | addMembers req => exact traced_serve (traced_addMembers_tells req) fun _ _ => trivial
    | removeMember req => exact traced_serve (traced_removeMember_tells req) fun _ _ => trivial
    | sendMessage req => exact (traced_sendMessage_tells req).imp fun _ _ _ => trivial
    | recallMessage req => exact traced_serve (traced_recallMessage_tells req) fun _ _ => trivial
    | readMessages req => exact traced_serve (traced_readMessages_tells req) fun _ _ => trivial
  | getMessages req => exact hsilent (silent_getMessages req)
  | getConversations req => exact hsilent (silent_getConversations req)
  | getConversationDetail req => exact hsilent (silent_getConversationDetail req)
  | getUnreadCounts uuid => exact hsilent (silent_getUnreadCounts uuid)
  | updateConversationSettings req => exact hsilent (silent_updateConversationSettings parse req)

section Run
variable {ι : Type} [DecidableEq ι] (out : Outer) (parse : String → Option Int) (db : Database)
  (reqs : ι → Request)

def WasMember (schedule : List ι) (c : Nat) (u : String) : Prop :=
  ∃ before, before <+: schedule ∧ (runTogether out parse db reqs before).state.IsMember c u

def WasMemberWith (schedule : List ι) (info : MessageInfo) (u : String) : Prop :=
  ∃ before, before <+: schedule ∧ (runTogether out parse db reqs before).state.IsMember
    info.conversationId u ∧
    ∃ msg, info = msg.info ∧ ∃ m ∈ (runTogether out parse db reqs before).state.messages,
      StillMessage msg m

/-- Between whom an event may pass: from whom and to whom. -/
def Event.Passes (schedule : List ι) (caller u : String) : Event → Prop
  | .conversationCreated info =>
    (runTogether out parse db reqs schedule).state.HasRow info.conversationId caller ∧
      (runTogether out parse db reqs schedule).state.HasRow info.conversationId u
  | .messageNew info => info.sendUuid = caller ∧
    WasMember out parse db reqs schedule info.conversationId caller ∧
      WasMemberWith out parse db reqs schedule info u
  | e => WasMember out parse db reqs schedule e.conversationId caller ∧
      WasMember out parse db reqs schedule e.conversationId u

variable {out parse db reqs} {schedule before : List ι} {i j : ι} {h : ChatTrace}
    {c : Nat} {u : String}

/-- What thread `i` has asked and was answered. -/
abbrev past (out : Outer) (parse : String → Option Int) (db : Database) (reqs : ι → Request)
    (schedule : List ι) (i : ι) : ChatTrace :=
  (startTogether parse db reqs).history (exec out) i schedule

theorem isMember_of_live {s : Database} {mem : ChatConversationMember} (hmem : mem ∈ s.live)
    (hc : mem.conversationID = c) (hu : mem.userUUID = u) : s.IsMember c u := by
  obtain ⟨hin,hlive⟩ := List.mem_filter.mp hmem
  exact ⟨mem,hin,by simpa using hlive,hc,hu⟩

theorem isMember_findMembers {s : Database} {members : List ChatConversationMember}
    {mem : ChatConversationMember}
    (hanswer : (exec out (.findMembers c) s).1 = .ok members) (hmem : mem ∈ members) :
    s.IsMember c mem.userUUID := by
  obtain rfl := Except.ok.inj hanswer
  obtain ⟨hlive,hc⟩ := List.mem_filter.mp hmem
  exact isMember_of_live hlive (by simpa using hc) rfl

theorem isMember_createMembers {s : Database} {rows : List ChatConversationMember}
    (hanswer : (exec out (.createMembers rows) s).1 = .ok ()) (hrow : memberRow c u ∈ rows) :
    (exec out (.createMembers rows) s).2.IsMember c u := by
  change (s.createMembers out rows).1 = .ok () at hanswer
  change (s.createMembers out rows).2.IsMember c u
  rw [Database.createMembers] at hanswer ⊢
  split at hanswer
  · rename_i hfree
    rw [if_pos hfree]
    obtain ⟨k,hk,hrow⟩ := List.mem_iff_getElem.mp hrow
    refine ⟨_,List.mem_append_right _ (List.mem_mapIdx.mpr ⟨k,hk,rfl⟩),?_⟩
    rw [hrow]
    exact ⟨rfl,rfl,rfl⟩
  · cases hanswer

theorem hasRow_createMembers {s : Database} (hkeyed : Keyed s) {e : DBError}
    (hanswer : (exec out (.createMembers [memberRow c u]) s).1 = .error e) : s.HasRow c u := by
  change (s.createMembers out _).1 = .error e at hanswer
  rw [Database.createMembers] at hanswer
  split at hanswer
  · cases hanswer
  · rename_i hfree
    by_contra hnone
    refine hfree (List.pairwise_append.mpr ⟨hkeyed.memberKeys,List.pairwise_singleton _ _,?_⟩)
    intro m hm row hrow hsame
    rw [List.mem_singleton.mp hrow] at hsame
    exact hnone ⟨m,hm,hsame.1,hsame.2⟩

theorem WasMember.mono (hw : WasMember out parse db reqs before c u) (hinit : before <+: schedule) :
    WasMember out parse db reqs schedule c u := by
  obtain ⟨before',hbefore,hmember⟩ := hw
  exact ⟨before',hbefore.trans hinit,hmember⟩

theorem Seen.wasMember (hs : Seen (past out parse db reqs schedule i) c u) :
    WasMember out parse db reqs schedule c u := by
  rcases hs with ⟨mem,hmem⟩ | ⟨members,hfind,mem,hmem,rfl⟩ | ⟨rows,hrows,hrow⟩
  · obtain ⟨before,after,k,rfl,-,hanswer⟩ := Pool.asked_of_history hmem
    obtain ⟨hlive,hc,hu⟩ := mem_live_of_find (takeMember_ok hanswer)
    exact ⟨before,List.prefix_append _ _,isMember_of_live hlive hc hu⟩
  · obtain ⟨before,after,k,rfl,-,hanswer⟩ := Pool.asked_of_history hfind
    exact ⟨before,List.prefix_append _ _,isMember_findMembers hanswer hmem⟩
  · obtain ⟨before,after,k,rfl,hask,hanswer⟩ := Pool.asked_of_history hrows
    refine ⟨before ++ [i],⟨after,by simp⟩,?_⟩
    rw [runTogether,Pool.run_concat,Pool.next_of_ask (exec out) hask]
    exact isMember_createMembers hanswer hrow

theorem later_of_earlier (hinit : before <+: schedule) :
    Later (runTogether out parse db reqs before).state
    (runTogether out parse db reqs schedule).state := by
  obtain ⟨after,rfl⟩ := hinit
  rw [runTogether,runTogether,Pool.run_append]
  exact later_run out _ after

theorem hasRow_later {s s' : Database} (hlater : Later s s') (hrow : s.HasRow c u) :
    s'.HasRow c u := by
  obtain ⟨m,hm,hc,hu⟩ := hrow
  obtain ⟨m',hm',hstill⟩ := hlater.members.mem hm
  exact ⟨m',hm',hstill.conversationID.trans hc,hstill.userUUID.trans hu⟩

theorem Rowed.hasRow (hkeyed : Keyed db) (hs : Rowed (past out parse db reqs schedule i) c u) :
    (runTogether out parse db reqs schedule).state.HasRow c u := by
  rcases hs with hs | ⟨e,he⟩
  · obtain ⟨before,hinit,m,hm,-,hc,hu⟩ := hs.wasMember
    exact hasRow_later (later_of_earlier hinit) ⟨m,hm,hc,hu⟩
  · obtain ⟨before,after,k,rfl,-,hanswer⟩ := Pool.asked_of_history he
    refine hasRow_later (later_of_earlier (List.prefix_append _ _))
      (hasRow_createMembers ?_ hanswer)
    exact keyed_run (p := startTogether parse db reqs) hkeyed before

/-- The message of an announcement was inserted for the caller, and the user was a member after
that. -/
theorem Announces.told {sender : String} {info : MessageInfo}
    (ha : Announces (past out parse db reqs schedule i) sender u info) :
    info.sendUuid = sender ∧ WasMemberWith out parse db reqs schedule info u := by
  obtain ⟨h₁,h₂,row,msg,done,mem,rest,hsplit,hinsert,rfl,rfl,rfl,-⟩ := ha
  obtain ⟨before,after,k,rfl,rfl,-,hanswer⟩ := Pool.history_split hsplit
  obtain ⟨⟨id,createdAt,rfl⟩,m,hm,hstill⟩ := message_of_insert (Pool.asked_of_history hinsert)
  refine ⟨rfl,before,List.prefix_append _ _,?_,_,rfl,m,hm,hstill⟩
  exact isMember_findMembers hanswer (by simp)

theorem Tells.passes (hkeyed : Keyed db) {e : Event}
    (ht : Tells (reqs i).caller (past out parse db reqs schedule i) (.sendJSON u e)) :
    e.Passes out parse db reqs schedule (reqs i).caller u := by
  cases e with
  | conversationCreated info => exact ⟨ht.2.hasRow hkeyed,ht.1.hasRow hkeyed⟩
  | messageNew info =>
    obtain ⟨hsender,htold⟩ := ht.2.told
    exact ⟨hsender,ht.1.wasMember,htold⟩
  | _ => exact ⟨ht.2.wasMember,ht.1.wasMember⟩

theorem Event.Passes.mono {e : Event} {caller : String}
    (hp : e.Passes out parse db reqs before caller u)
    (hinit : before <+: schedule) : e.Passes out parse db reqs schedule caller u := by
  cases e with
  | conversationCreated info =>
    exact ⟨hasRow_later (later_of_earlier hinit) hp.1,hasRow_later (later_of_earlier hinit) hp.2⟩
  | messageNew info =>
    obtain ⟨hsender,hcaller,before',hbefore,hrest⟩ := hp
    exact ⟨hsender,hcaller.mono hinit,before',hbefore.trans hinit,hrest⟩
  | _ => exact ⟨hp.1.mono hinit,hp.2.mono hinit⟩

end Run

/-- "a" sends a message, and removes "b" meanwhile. -/
def greetAndRemove (send : Bool) : Request :=
  if send then .operation (.sendMessage (greeting true)) else .operation (.removeMember ⟨"a",1,"b"⟩)

/-- The message is inserted, "b" is removed, and then the message is announced. -/
def removedMeanwhile : List Bool :=
  List.replicate 3 true ++ List.replicate 9 false ++ List.replicate 7 true

end Imy.Chat
