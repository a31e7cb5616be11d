import Imy.Chat.Collation
import Imy.Chat.RemovedMembers
import Imy.Chat.Writes
set_option autoImplicit false

namespace Imy.Chat
open Imy.Lib

section Tables
variable {out : Outer} {U : String → Prop} {db : Database} {q : Stmt}

theorem Database.Within.exec (hdb : db.Within U) (hq : q.Within U) :
    (exec out q db).2.Within U := by
  cases q with
  | createConversation row =>
    change (db.createConversation row).2.Within U
    rw [Database.createConversation]
    split
    · exact ⟨hdb.members,hdb.keys,hdb.senders,hdb.clients⟩
    · refine ⟨hdb.members,fun conv hconv => ?_,hdb.senders,hdb.clients⟩
      rcases List.mem_append.mp hconv with hconv | hconv
      · exact hdb.keys conv hconv
      · rw [List.mem_singleton.mp hconv]
        exact hq
  | updateConversation row cols =>
    refine ⟨hdb.members,fun conv' hconv' => ?_,hdb.senders,hdb.clients⟩
    obtain ⟨conv,hconv,rfl⟩ := List.mem_map.mp hconv'
    split
    · rw [(stillConversation_copy row conv cols).privateKey]
      exact hdb.keys conv hconv
    · exact hdb.keys conv hconv
  | createMembers rows =>
    change (db.createMembers out rows).2.Within U
    rw [Database.createMembers]
    split
    · refine ⟨fun m hm => ?_,hdb.keys,hdb.senders,hdb.clients⟩
      rcases List.mem_append.mp hm with hm | hm
      · exact hdb.members m hm
      · obtain ⟨row,hrow,i,-,rfl⟩ := mem_numbered hm
        exact hq row hrow
    · exact ⟨hdb.members,hdb.keys,hdb.senders,hdb.clients⟩
  | updateMember row cols =>
    refine ⟨fun m' hm' => ?_,hdb.keys,hdb.senders,hdb.clients⟩
    obtain ⟨m,hm,rfl⟩ := List.mem_map.mp hm'
    rw [(stillRow_update row m cols).userUUID]
    exact hdb.members m hm
  | deleteMember id =>
    refine ⟨fun m' hm' => ?_,hdb.keys,hdb.senders,hdb.clients⟩
    obtain ⟨m,hm,rfl⟩ := List.mem_map.mp hm'
    rw [(stillRow_delete id m).userUUID]
    exact hdb.members m hm
  | createMessage row =>
    change (db.createMessage out row).2.Within U
    rw [Database.createMessage]
    split
    · exact ⟨hdb.members,hdb.keys,hdb.senders,hdb.clients⟩
    · refine ⟨hdb.members,hdb.keys,fun m hm => ?_,fun m hm => ?_⟩ <;>
        rcases List.mem_append.mp hm with hm | hm
      · exact hdb.senders m hm
      · rw [List.mem_singleton.mp hm]
        exact hq.1
      · exact hdb.clients m hm
      · rw [List.mem_singleton.mp hm]
        exact hq.2
  | updateMessage row cols =>
    refine ⟨hdb.members,hdb.keys,fun m' hm' => ?_,fun m' hm' => ?_⟩ <;> obtain ⟨m,hm,rfl⟩ :=
      List.mem_map.mp hm'
    · rw [(stillMessage_update row m cols).sendUUID]
      exact hdb.senders m hm
    · rw [(stillMessage_update row m cols).clientMsgID]
      exact hdb.clients m hm
  | _ => exact ⟨hdb.members,hdb.keys,hdb.senders,hdb.clients⟩

theorem tells_exec (hdb : db.Within U) (q : Stmt) : q.Tells U out (exec out q db).1 := by
  cases q with
  | takeMember c u =>
    rw [exec_takeMember]
    cases hmem : db.live.find? (fun m => m.conversationID = c ∧ m.userUUID = u) with
    | none => exact trivial
    | some mem => exact hdb.members mem (List.mem_of_mem_filter (List.mem_of_find?_eq_some hmem))
  | findMembers c =>
    exact fun mem hmem => hdb.members mem (List.mem_of_mem_filter (List.mem_of_mem_filter hmem))
  | generateUUID => exact ⟨_,rfl⟩
  | _ => exact trivial

end Tables

section Calls
variable {U : String → Prop} {out : Outer} {h : ChatTrace}

variable (U out) in
abbrev KeepsWithin {α : Type} (P : α → Prop) (p : ChatM α) : Prop :=
  ∀ h : ChatTrace, p.Traced (Stmt.Tells U out) (fun _ q => q.Within U) (fun _ a => P a) h

variable (U out) in
abbrev CallWithin (main : ChatM Reply) : Prop :=
  KeepsWithin U out (fun reply => KeepsWithin U out (fun _ => True) reply.2) main

theorem KeepsWithin.bind {α β : Type} {P : α → Prop} {P' : β → Prop} {p : ChatM α} {f : α → ChatM β}
    (hp : KeepsWithin U out P p) (hf : ∀ a, P a → KeepsWithin U out P' (f a)) :
    KeepsWithin U out P' (p >>= f) :=
  fun h => (hp h).bind fun h' a ha => hf a ha h'

theorem within_forM {α : Type} {f : α → ChatM Unit} (xs : List α)
    (hf : ∀ x ∈ xs, KeepsWithin U out (fun _ => True) (f x)) :
    KeepsWithin U out (fun _ => True) (forM xs f) :=
  fun _ => (Prog.traced_forM (I := fun _ => True) xs trivial fun x hx h' _ =>
    (hf x hx h').imp fun _ _ _ => trivial).imp fun _ _ _ => trivial

theorem within_serve {main : ChatM Reply} (hmain : CallWithin U out main) :
    KeepsWithin U out (fun _ => True) (serve main) := by
  refine fun h => (Prog.traced_attempt (hmain h)).bind fun h' result hresult => ?_
  cases result with
  | error e => exact ⟨trivial,fun _ _ => trivial⟩
  | ok reply => exact ⟨trivial,fun _ _ => hresult reply rfl _⟩

theorem within_requireMember {c : Nat} {u : String} {missing : ErrCode} (hu : U u) :
    KeepsWithin U out (fun mem => U mem.userUUID) (requireMember c u missing) := by
  refine fun h => ⟨hu,fun answer htells => ?_⟩
  rcases answer with e | mem
  · cases e <;> exact trivial
  · exact htells

theorem within_broadcast (event : Event) (members : List ChatConversationMember) :
    KeepsWithin U out (fun _ => True) (broadcast event members) :=
  within_forM members fun _ _ _ => ⟨trivial,fun _ _ => trivial⟩

theorem within_tellUnread (u : String) (c : Nat) (n : UInt32) :
    KeepsWithin U out (fun _ => True) (tellUnread u c n) :=
  fun _ => ⟨trivial,fun _ _ => trivial⟩

theorem within_announceCreated (info : ConversationInfo) (us : List String) :
    KeepsWithin U out (fun _ => True) (announceCreated info us) :=
  within_forM us fun _ _ _ => ⟨trivial,fun _ _ => trivial⟩

theorem within_memberRows {c : Nat} (us : List String) (hus : ∀ u ∈ us, U u) :
    Stmt.Within U (.createMembers (us.map (memberRow c))) := by
  intro row hrow
  obtain ⟨u,hu,rfl⟩ := List.mem_map.mp hrow
  exact hus u hu

theorem within_newUUIDs {there uuids : List String} (huuids : ∀ u ∈ uuids, U u) :
    ∀ u ∈ newUUIDs there uuids, U u :=
  fun u hu => huuids u (mem_newUUIDs.mp hu).1

theorem within_refreshMember (msg : ChatMessage) {mem : ChatConversationMember}
    (hu : U mem.userUUID) :
    KeepsWithin U out (fun _ => True) (refreshMember msg mem) := by
  refine fun h => ⟨trivial,fun _ _ => ⟨hu,fun answer _ => ?_⟩⟩
  rcases answer with e | cnt
  · exact trivial
  · exact ⟨trivial,fun _ _ => ⟨trivial,fun _ _ => trivial⟩⟩

theorem within_sendMessage {req : SendMessageReq} (hu : U req.uuid) (hk : U req.clientMsgId) :
    CallWithin U out (sendMessage req) := by
  rw [sendMessage]
  split
  · exact fun _ => trivial
  refine (within_requireMember hu).bind fun mem _ h => ⟨⟨hu,hk⟩,fun answer _ => ?_⟩
  rcases answer with (_ | _ | _) | exist
  · refine ⟨⟨hu,hk⟩,fun answer _ => ?_⟩
    rcases answer with e | msg
    · exact trivial
    refine ⟨trivial,fun _ _ h' => ⟨trivial,fun answer htells => ?_⟩⟩
    rcases answer with e | members
    · exact trivial
    exact within_forM members (fun mem hmem => within_refreshMember msg (htells mem hmem)) _
  · exact trivial
  · exact trivial
  · exact fun _ => trivial

theorem within_readMessages {req : ReadMessagesReq} (hu : U req.uuid) :
    CallWithin U out (readMessages req) := by
  rw [readMessages]
  split
  · exact fun _ => trivial
  refine (within_requireMember hu).bind fun mem _ h => ?_
  rw [checkProgress]
  split
  · exact fun _ => trivial
  refine ⟨trivial,fun answer _ => ?_⟩
  rcases answer with (_ | _ | _) | msg
  · exact trivial
  · exact trivial
  · exact trivial
  refine ⟨hu,fun answer _ => ?_⟩
  rcases answer with e | cnt
  · exact trivial
  refine ⟨trivial,fun lastReadAt _ => ⟨trivial,fun answer _ => ?_⟩⟩
  rcases answer with e | _
  · exact trivial
  refine fun h' => ⟨trivial,fun answer _ => ?_⟩
  rcases answer with e | members
  · exact within_tellUnread _ _ _ _
  · refine ⟨trivial,fun readAt _ => (within_broadcast _ members _).bind fun _ _ _ => ?_⟩
    exact within_tellUnread _ _ _ _

theorem within_recallMessage {req : RecallMessageReq} (hu : U req.uuid) :
    CallWithin U out (recallMessage req) := by
  rw [recallMessage]
  split
  · exact fun _ => trivial
  refine (within_requireMember hu).bind fun mem _ h => ⟨trivial,fun answer _ => ?_⟩
  rcases answer with (_ | _ | _) | msg
  · exact trivial
  · exact trivial
  · exact trivial
  have hright : KeepsWithin U out (fun _ => True) (requireRecallRight req msg) := by
    rw [requireRecallRight]
    split
    · exact fun _ => trivial
    · refine (within_requireMember hu).bind fun mem _ h => ?_
      split <;> exact trivial
  refine (hright _).bind fun h' _ _ => ⟨trivial,fun now _ => ⟨trivial,fun answer _ => ?_⟩⟩
  rcases answer with e | _
  · exact trivial
  refine fun h' => ⟨trivial,fun answer _ => ?_⟩
  rcases answer with e | members
  · exact trivial
  · exact within_broadcast _ members _

theorem within_addMembers {req : AddMembersReq} (hu : U req.uuid)
    (hus : ∀ u ∈ req.memberUUIDs, U u) :
    CallWithin U out (addMembers req) := by
  have hannounce : ∀ c us, KeepsWithin U out (fun _ => True) (announceAdded c us) := by
    refine fun c us h => ⟨trivial,fun answer _ => ?_⟩
    have hpushes : KeepsWithin U out (fun _ => True) (forM us fun u => tellUnread u c 0) :=
      within_forM us fun u _ => within_tellUnread u c 0
    rcases answer with e | members
    · exact hpushes _
    · exact (within_broadcast _ members _).bind fun _ _ _ => hpushes _
  rw [addMembers]
  split
  · exact fun _ => trivial
  refine (within_requireMember hu).bind fun mem _ h => ⟨trivial,fun answer _ => ?_⟩
  rcases answer with e | existMembers
  · exact trivial
  change Prog.Traced _ _ _ _ (insertMembers _ _ _)
  rw [insertMembers]
  split
  · exact hannounce _ _
  refine ⟨within_memberRows _ (within_newUUIDs hus),fun answer _ => ?_⟩
  rcases answer with e | _
  · exact trivial
  · exact ⟨trivial,fun _ _ => hannounce _ _⟩

theorem within_removeMember {req : RemoveMemberReq} (hu : U req.uuid) (hv : U req.removeUUID) :
    CallWithin U out (removeMember req) := by
  have hannounce :
      KeepsWithin U out (fun _ => True) (announceRemoved req.conversationId req.removeUUID) := by
    refine fun h => ⟨trivial,fun answer _ => ?_⟩
    rcases answer with e | members
    · exact ⟨trivial,fun _ _ => trivial⟩
    · refine (within_broadcast _ members _).bind fun _ _ _ => ?_
      exact ⟨trivial,fun _ _ => trivial⟩
  rw [removeMember]
  split
  · exact fun _ => trivial
  refine (within_requireMember hu).bind fun _ _ => (within_requireMember hv).bind fun mem _ h => ?_
  refine ⟨trivial,fun answer _ => ?_⟩
  rcases answer with e | _
  · exact trivial
  refine ⟨trivial,fun answer _ => ?_⟩
  rcases answer with e | conv
  · exact hannounce
  · change Prog.Traced _ _ _ _ (if 0 < conv.memberCount then
      setMemberCount conv.id (conv.memberCount-1) >>= fun _ => _ else _)
    split
    · exact ⟨trivial,fun _ _ => hannounce⟩
    · exact hannounce

theorem within_createGroupConversation {req : CreateGroupConversationReq} (hu : U req.uuid)
    (hus : ∀ u ∈ req.memberUUIDs, U u) (hkeys : ∀ n, U ("g:" ++ out.uuid n)) :
    CallWithin U out (createGroupConversation req) := by
  rw [createGroupConversation]
  split
  · exact fun _ => trivial
  refine fun h => ⟨trivial,fun key hkey => ?_⟩
  obtain ⟨n,rfl⟩ := hkey
  refine ⟨hkeys n,fun answer _ => ?_⟩
  rcases answer with e | conv
  · exact trivial
  have hmembers : ∀ u ∈ req.uuid :: newUUIDs [req.uuid] req.memberUUIDs, U u := by
    intro u hin
    rcases List.mem_cons.mp hin with rfl | hin
    · exact hu
    · exact within_newUUIDs hus u hin
  refine ⟨within_memberRows _ hmembers,fun answer _ => ?_⟩
  rcases answer with e | _
  · exact trivial
  · exact ⟨trivial,fun _ _ => within_announceCreated _ _⟩

theorem within_completeMember {conv : ChatConversation} {u : String} (hu : U u) :
    KeepsWithin U out (fun _ => True) (completeMember conv u) := by
  refine fun h => ⟨hu,fun answer _ => ?_⟩
  rcases answer with (_ | _ | _) | mem
  · exact ⟨within_memberRows [u] (by simpa using hu),fun _ _ => ⟨trivial,fun _ _ => trivial⟩⟩
  · exact trivial
  · exact trivial
  · exact trivial

theorem within_createPrivateConversation {req : CreatePrivateConversationReq} (hu : U req.uuid)
    (hv : U req.peerUUID)
    (hkey : U (privateKeyOf req.uuid req.peerUUID)) :
    CallWithin U out (createPrivateConversation req) := by
  have hpair : ∀ u ∈ [req.uuid,req.peerUUID], U u := by
    simp only [List.mem_cons,List.not_mem_nil,or_false,forall_eq_or_imp,forall_eq]
    exact ⟨hu,hv⟩
  rw [createPrivateConversation]
  split
  · exact fun _ => trivial
  have hfind : KeepsWithin U out (fun _ => True) (findPair req) := by
    refine fun h => ⟨hkey,fun answer _ => ?_⟩
    rcases answer with (_ | _ | _) | conv
    · refine ⟨hkey,fun answer _ => ?_⟩
      rcases answer with e | conv
      · exact trivial
      refine ⟨within_memberRows _ hpair,fun answer _ => ?_⟩
      rcases answer with e | _ <;> exact trivial
    · exact trivial
    · exact trivial
    · refine ((within_forM _ fun u hin => within_completeMember (hpair u hin)) _).bind
        fun _ _ _ => ?_
      exact trivial
  exact hfind.bind fun conv _ _ => within_announceCreated _ _

end Calls

def Operation.strings : Operation → List String
  | .createGroupConversation req => req.uuid :: req.memberUUIDs
  | .createPrivateConversation req => [req.uuid,req.peerUUID,privateKeyOf req.uuid req.peerUUID]
  | .addMembers req => req.uuid :: req.memberUUIDs
  | .removeMember req => [req.uuid,req.removeUUID]
  | .sendMessage req => [req.uuid,req.clientMsgId]
  | .recallMessage req => [req.uuid]
  | .readMessages req => [req.uuid]

/-- The strings of a run: those of its calls, and the keys that groups are given. -/
def Occurs (out : Outer) (ops : List Operation) (s : String) : Prop :=
  (∃ op ∈ ops, s ∈ op.strings) ∨ ∃ n, s = "g:" ++ out.uuid n

def Operation.applyIn (fold : String → String) (out : Outer) (db : Database) (op : Operation) :
    Database :=
  final ((serve op.main).run (execIn fold out)) db

def runOperationsIn (fold : String → String) (out : Outer) (db : Database) (ops : List Operation) :
    Database :=
  ops.foldl (Operation.applyIn fold out) db

section Runs
variable {fold : String → String} {out : Outer} {U : String → Prop} {db : Database}

theorem within_operation {op : Operation} (hop : ∀ s ∈ op.strings, U s)
    (hkeys : ∀ n, U ("g:" ++ out.uuid n)) :
    KeepsWithin U out (fun _ => True) (serve op.main) := by
  refine within_serve ?_
  cases op with
  | createGroupConversation req =>
    exact within_createGroupConversation (hop _ List.mem_cons_self)
      (fun u hu => hop u (List.mem_cons_of_mem _ hu)) hkeys
  | createPrivateConversation req =>
    exact within_createPrivateConversation (hop _ (by simp [Operation.strings]))
      (hop _ (by simp [Operation.strings]))
      (hop _ (by simp [Operation.strings]))
  | addMembers req =>
    exact within_addMembers (hop _ List.mem_cons_self) fun u hu => hop u (List.mem_cons_of_mem _ hu)
  | removeMember req =>
    exact within_removeMember (hop _ (by simp [Operation.strings]))
      (hop _ (by simp [Operation.strings]))
  | sendMessage req =>
    exact within_sendMessage (hop _ (by simp [Operation.strings]))
      (hop _ (by simp [Operation.strings]))
  | recallMessage req => exact within_recallMessage (hop _ List.mem_cons_self)
  | readMessages req => exact within_readMessages (hop _ List.mem_cons_self)

theorem applyIn_eq (happart : ToldApart fold U) (hkeys : ∀ n, U ("g:" ++ out.uuid n))
    (hdb : db.Within U) {op : Operation} (hop : ∀ s ∈ op.strings, U s) :
    op.applyIn fold out db = op.apply out db ∧ (op.apply out db).Within U := by
  have agree : ∀ (q : Stmt) (s : Database), q.Within U → s.Within U →
      execIn fold out q s = exec out q s :=
    fun _ _ hq hs => execIn_eq happart hs hq
  have keep : ∀ (q : Stmt) (s : Database), q.Within U → s.Within U →
      q.Tells U out (exec out q s).1 ∧ (exec out q s).2.Within U :=
    fun q _ hq hs => ⟨tells_exec hs q,hs.exec hq⟩
  obtain ⟨hsame,hwithin⟩ := (within_operation hop hkeys []).run_eq agree keep hdb
  rw [Operation.applyIn,Operation.apply,final,final,hsame]
  exact ⟨rfl,hwithin⟩

/-- Calls whose strings are among those of a run that the collation tells apart. -/
theorem runOperationsIn_eq {ops : List Operation} (happart : ToldApart fold (Occurs out ops))
    {before : List Operation}
    (hsub : before ⊆ ops) :
    runOperationsIn fold out emptyDatabase before = runOperations out emptyDatabase before ∧
      (runOperations out emptyDatabase before).Within (Occurs out ops) := by
  induction before using List.reverseRecOn with
  | nil => exact ⟨rfl,by constructor <;> simp [runOperations,emptyDatabase]⟩
  | append_singleton before op ih =>
    obtain ⟨hsame,hwithin⟩ := ih fun op' hop' => hsub (List.mem_append_left _ hop')
    have hop : op ∈ ops := hsub (List.mem_append_right _ (List.mem_singleton_self op))
    rw [runOperations_concat,runOperationsIn,List.foldl_append]
    change op.applyIn fold out (runOperationsIn fold out emptyDatabase before) = _ ∧ _
    rw [hsame]
    exact applyIn_eq happart (fun n => Or.inr ⟨n,rfl⟩) hwithin fun s hs => Or.inl ⟨op,hop,hs⟩

end Runs

end Imy.Chat
