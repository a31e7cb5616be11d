import Imy.Chat.RemovedMembers
import Imy.Chat.Writes
set_option autoImplicit false

namespace Imy.Chat
open Imy.Lib

/-- The calls with which a user looks at conversations or takes part in them. -/
inductive Access where
  | getMessages (req : GetMessagesReq)
  | getConversationDetail (req : GetConversationDetailReq)
  | getConversations (req : GetConversationsReq)
  | getUnreadCounts (uuid : String)
  | sendMessage (req : SendMessageReq)
  | readMessages (req : ReadMessagesReq)
  | recallMessage (req : RecallMessageReq)

def Access.request : Access → Request
  | .getMessages req => .getMessages req
  | .getConversationDetail req => .getConversationDetail req
  | .getConversations req => .getConversations req
  | .getUnreadCounts uuid => .getUnreadCounts uuid
  | .sendMessage req => .operation (.sendMessage req)
  | .readMessages req => .operation (.readMessages req)
  | .recallMessage req => .operation (.recallMessage req)

def Access.caller : Access → String
  | .getMessages req => req.uuid
  | .getConversationDetail req => req.uuid
  | .getConversations req => req.uuid
  | .getUnreadCounts uuid => uuid
  | .sendMessage req => req.uuid
  | .readMessages req => req.uuid
  | .recallMessage req => req.uuid

/-- The conversation that the request names. -/
def Access.conversation : Access → Option Nat
  | .getMessages req => some req.conversationId
  | .getConversationDetail req => some req.conversationId
  | .getConversations _ => none
  | .getUnreadCounts _ => none
  | .sendMessage req => some req.conversationId
  | .readMessages req => some req.conversationId
  | .recallMessage req => some req.conversationId

def Response.Shows (c : Nat) : Response → Prop
  | .conversation info => info.conversationId = c
  | .unread items => ∃ item ∈ items, item.conversationId = c
  | .messages list => ∃ info ∈ list, info.conversationId = c
  | .conversations list => ∃ info ∈ list, info.conversationId = c
  | .detail info _ => info.conversationId = c
  | .none | .sent _ _ _ | .read _ => False

structure SameAbout (c : Nat) (db db' : Database) : Prop where
  conversation : db'.conversations.filter (fun conv => conv.id = c) =
    db.conversations.filter fun conv => conv.id = c
  members : db'.members.filter (fun m => m.conversationID = c) =
    db.members.filter fun m => m.conversationID = c
  messages : db'.messages.filter (fun m => m.conversationID = c) =
    db.messages.filter fun m => m.conversationID = c

/-- The call asks for the page of conversations on which this one comes: so many of the
conversations that the user ever had a row in are ahead of it. -/
def Access.Pages (out : Outer) (db : Database) (c : Nat) : Access → Prop
  | .getConversations req => ∃ conv ∈ db.conversations, conv.id = c ∧
    req.offset.toNatClampNeg ≤
      ((db.joined req.uuid).filter fun conv' => conv' ≠ conv ∧
        out.Leads db.tick conv' conv).length ∧
    ((db.joined req.uuid).filter fun conv' => conv' ≠ conv ∧ out.Leads db.tick conv' conv).length <
      req.offset.toNatClampNeg+(clampedLimit req.pageSize 10).toNatClampNeg
  | _ => False

section Frame
variable {out : Outer} {db db' db'' : Database} {c : Nat}

theorem SameAbout.refl (c : Nat) (db : Database) : SameAbout c db db := ⟨rfl,rfl,rfl⟩

theorem SameAbout.trans (h : SameAbout c db db') (h' : SameAbout c db' db'') :
    SameAbout c db db'' :=
  ⟨h'.conversation.trans h.conversation,h'.members.trans h.members,h'.messages.trans h.messages⟩

theorem filter_map_fixed {α : Type} {f : α → α} {P : α → Bool} {xs : List α}
    (hP : ∀ x, P (f x) = P x) (hf : ∀ x ∈ xs, P x = true → f x = x) :
    (xs.map f).filter P = xs.filter P := by
  rw [List.filter_map]
  have hcomp : P ∘ f = P := funext hP
  rw [hcomp]
  conv_rhs => rw [← List.map_id (xs.filter P)]
  refine List.map_congr_left fun x hx => ?_
  obtain ⟨hx,hPx⟩ := List.mem_filter.mp hx
  exact hf x hx hPx

theorem tables_of_reads (out : Outer) (db : Database) {q : Stmt} (hq : q.Reads) :
    (exec out q db).2.conversations = db.conversations ∧
    (exec out q db).2.members = db.members ∧ (exec out q db).2.messages = db.messages := by
  cases q <;> first | exact ⟨rfl,rfl,rfl⟩ | exact hq.elim

theorem sameAbout_reads {q : Stmt} (hq : q.Reads) : SameAbout c db (exec out q db).2 := by
  obtain ⟨hconvs,hmembers,hmessages⟩ := tables_of_reads out db hq
  exact ⟨by rw [hconvs],by rw [hmembers],by rw [hmessages]⟩

theorem sameAbout_updateConversation {row : ChatConversation} (cols : List ConversationColumn)
    (hrow : row.id ≠ c) : SameAbout c db (exec out (.updateConversation row cols) db).2 := by
  refine ⟨filter_map_fixed (fun conv => ?_) fun conv _ hconv => if_neg ?_,rfl,rfl⟩
  · split
    · rw [(stillConversation_copy row conv cols).id]
    · rfl
  · rw [of_decide_eq_true hconv]
    exact Ne.symm hrow

theorem sameAbout_updateMember {row m₀ : ChatConversationMember} (cols : List MemberColumn)
    (hkeyed : Keyed db) (hm₀ : m₀ ∈ db.members) (hid : m₀.id = row.id)
    (hc : m₀.conversationID ≠ c) :
    SameAbout c db (exec out (.updateMember row cols) db).2 := by
  refine ⟨rfl,filter_map_fixed (fun m => ?_) fun m hm hconv => if_neg fun hsame => hc ?_,rfl⟩
  · rw [(stillRow_update row m cols).conversationID]
  · have hnodup : (db.members.map (·.id)).Nodup :=
      List.pairwise_map.mpr (hkeyed.memberIDs.imp fun hlt => hlt.ne)
    have heq : m₀ = m := List.inj_on_of_nodup_map hnodup hm₀ hm (hid.trans hsame.1.symm)
    rw [heq]
    exact of_decide_eq_true hconv

theorem sameAbout_createMessage {row : ChatMessage} (hrow : row.conversationID ≠ c) :
    SameAbout c db (exec out (.createMessage row) db).2 := by
  change SameAbout c db (db.createMessage out row).2
  rw [Database.createMessage]
  split
  · exact ⟨rfl,rfl,rfl⟩
  · refine ⟨rfl,rfl,?_⟩
    rw [List.filter_append,List.filter_cons_of_neg (by simp [hrow]),List.filter_nil,
      List.append_nil]

theorem sameAbout_updateMessage {row m₀ : ChatMessage} (cols : List MessageColumn)
    (hkeyed : Keyed db) (hm₀ : m₀ ∈ db.messages) (hid : m₀.id = row.id)
    (hc : m₀.conversationID ≠ c) : SameAbout c db (exec out (.updateMessage row cols) db).2 := by
  refine ⟨rfl,rfl,filter_map_fixed (fun m => ?_) fun m hm hconv => if_neg fun hsame => hc ?_⟩
  · rw [(stillMessage_update row m cols).conversationID]
  · have hnodup : (db.messages.map (·.id)).Nodup :=
      List.pairwise_map.mpr (hkeyed.messageIDs.imp fun hlt => hlt.ne)
    have heq : m₀ = m := List.inj_on_of_nodup_map hnodup hm₀ hm (hid.trans hsame.symm)
    rw [heq]
    exact of_decide_eq_true hconv

end Frame

section Elsewhere
variable {out : Outer} {parse : String → Option Int} {db s : Database} {c : Nat} {a : Access}
  {h : ChatTrace} {q : Stmt}

/-- What a call was told is in the tables, and the conversation `c` is as it was. -/
structure Informed (c : Nat) (db : Database) (h : ChatTrace) (s : Database) : Prop where
  keyed : Keyed s
  same : SameAbout c db s
  rows : ∀ d mem, Told h d mem → ∃ m ∈ s.members, m.id = mem.id ∧ m.conversationID = d
  messages : ∀ id d msg, ⟨.takeMessage id d,.ok msg⟩ ∈ h →
    ∃ m ∈ s.messages, m.id = msg.id ∧ m.conversationID = d

/-- A call that does not name `c` leaves it alone. -/
theorem Informed.sameAbout (hs : Informed c db h s) (hconv : a.conversation ≠ some c)
    (hmay : a.request.May parse h q) : SameAbout c s (exec out q s).2 := by
  rcases hmay with hreads | hwrites
  · exact sameAbout_reads hreads
  cases a with
  | sendMessage req =>
    have hne : req.conversationId ≠ c := fun heq => hconv (congrArg some heq)
    rcases hwrites with rfl | ⟨row,rfl,hrow⟩ | ⟨mem,cnt,htold,rfl⟩
    · exact sameAbout_createMessage hne
    · exact sameAbout_updateConversation _ (hrow ▸ hne)
    · obtain ⟨m,hm,hid,hd⟩ := hs.rows _ mem htold
      exact sameAbout_updateMember _ hs.keyed hm hid (hd ▸ hne)
  | readMessages req =>
    have hne : req.conversationId ≠ c := fun heq => hconv (congrArg some heq)
    obtain ⟨mem,cnt,lastReadAt,hin,rfl⟩ := hwrites
    obtain ⟨m,hm,hid,hd⟩ := hs.rows _ mem (Or.inl ⟨_,hin⟩)
    exact sameAbout_updateMember _ hs.keyed hm hid (hd ▸ hne)
  | recallMessage req =>
    have hne : req.conversationId ≠ c := fun heq => hconv (congrArg some heq)
    obtain ⟨msg,now,hentitled,rfl⟩ := hwrites
    obtain ⟨m,hm,hid,hd⟩ := hs.messages _ _ msg hentitled.1
    exact sameAbout_updateMessage _ hs.keyed hm hid (hd ▸ hne)
  | _ => exact hwrites.elim

theorem Informed.step (hs : Informed c db h s) (hconv : a.conversation ≠ some c)
    (hmay : a.request.May parse h q) :
    Informed c db (h ++ [⟨q,(exec out q s).1⟩]) (exec out q s).2 := by
  have hlater := later_exec out q s
  have hrow : ∀ {d : Nat} {mem m : ChatConversationMember}, m ∈ s.members → m.id = mem.id →
      m.conversationID = d → ∃ m ∈ (exec out q s).2.members, m.id = mem.id ∧
          m.conversationID = d := by
    intro d mem m hm hid hd
    obtain ⟨m',hm',hstill⟩ := hlater.members.mem hm
    exact ⟨m',hm',hstill.id.trans hid,hstill.conversationID.trans hd⟩
  refine ⟨hs.keyed.exec out q,hs.same.trans (hs.sameAbout hconv hmay),?_,?_⟩
  · rintro d mem (⟨u,hin⟩ | ⟨members,hin,hmem⟩)
    · rcases List.mem_append.mp hin with hin | hin
      · obtain ⟨m,hm,hid,hd⟩ := hs.rows d mem (Or.inl ⟨u,hin⟩)
        exact hrow hm hid hd
      · obtain ⟨rfl,hanswer⟩ := Sigma.mk.inj (List.mem_singleton.mp hin)
        have hfound := mem_live_of_find (takeMember_ok (eq_of_heq hanswer).symm)
        exact hrow (List.mem_of_mem_filter hfound.1) rfl hfound.2.1
    · rcases List.mem_append.mp hin with hin | hin
      · obtain ⟨m,hm,hid,hd⟩ := hs.rows d mem (Or.inr ⟨members,hin,hmem⟩)
        exact hrow hm hid hd
      · obtain ⟨rfl,hanswer⟩ := Sigma.mk.inj (List.mem_singleton.mp hin)
        obtain rfl := Except.ok.inj (eq_of_heq hanswer)
        obtain ⟨hmem,hd⟩ := List.mem_filter.mp hmem
        exact hrow (List.mem_of_mem_filter hmem) rfl (of_decide_eq_true hd)
  · intro id d msg hin
    have hmsg : ∃ m ∈ s.messages, m.id = msg.id ∧ m.conversationID = d := by
      rcases List.mem_append.mp hin with hin | hin
      · exact hs.messages id d msg hin
      · obtain ⟨rfl,hanswer⟩ := Sigma.mk.inj (List.mem_singleton.mp hin)
        obtain ⟨hm,-,hd⟩ := takeMessage_ok (eq_of_heq hanswer).symm
        exact ⟨msg,hm,rfl,hd⟩
    obtain ⟨m,hm,hid,hd⟩ := hmsg
    obtain ⟨m',hm',hstill⟩ := hlater.messages.mem hm
    exact ⟨m',hm',hstill.id.trans hid,hstill.conversationID.trans hd⟩

end Elsewhere

section Answers
variable {out : Outer} {parse : String → Option Int} {db : Database} {c : Nat} {a : Access}

theorem wp_requireMember_gone {u : String} (hgone : db.Gone c u) (hkeyed : Keyed db)
    {missing : ErrCode} {Q : ChatConversationMember → Database → Prop}
    {E : ErrCode → Database → Prop} (hE : E missing db) :
    wp ((requireMember c u missing).run (exec out)) Q E db := by
  refine wp_requireMember (fun mem hmem => ?_) hE
  rw [Database.member,find_live_of_gone hgone hkeyed] at hmem
  cases hmem

theorem wp_refused {u : String} (hgone : db.Gone c u) (hkeyed : Keyed db) (invalid : Prop)
    [Decidable invalid] (rest : ChatConversationMember → ChatM Reply) :
    wp (Prog.run (exec out) (if invalid then .fail .invalidParam
      else requireMember c u .authSession >>= rest)) (fun _ _ => False) (fun _ t => t = db) db := by
  split
  · rfl
  · rw [Prog.wp_run_bind]
    exact wp_requireMember_gone hgone hkeyed rfl

theorem Access.refused (hkeyed : Keyed db) (hgone : db.Gone c a.caller)
    (hconv : a.conversation = some c) :
    wp ((a.request.main parse).run (exec out)) (fun _ _ => False) (fun _ t => t = db) db := by
  cases a with
  | getMessages req =>
    obtain rfl := Option.some.inj hconv
    exact wp_refused hgone hkeyed _ _
  | getConversationDetail req =>
    obtain rfl := Option.some.inj hconv
    exact wp_refused hgone hkeyed _ _
  | sendMessage req =>
    obtain rfl := Option.some.inj hconv
    exact wp_refused hgone hkeyed _ _
  | readMessages req =>
    obtain rfl := Option.some.inj hconv
    exact wp_refused hgone hkeyed _ _
  | recallMessage req =>
    obtain rfl := Option.some.inj hconv
    exact wp_refused hgone hkeyed _ _
  | _ => cases hconv

theorem mem_findMessages {mode : PageMode} {limit : Nat} {m : ChatMessage}
    (h : m ∈ db.findMessages c mode limit) : m ∈ db.messages ∧ m.conversationID = c := by
  have hhistory : m ∈ db.history c := by
    cases mode with
    | latest => exact List.mem_reverse.mp (List.mem_of_mem_take h)
    | before id => exact List.mem_of_mem_filter (List.mem_reverse.mp (List.mem_of_mem_take h))
    | after id => exact List.mem_of_mem_filter (List.mem_of_mem_take h)
  rw [Database.history,List.mem_insertionSort,List.mem_filter] at hhistory
  exact ⟨hhistory.1,of_decide_eq_true hhistory.2⟩

theorem mem_ascending {mode : PageMode} {list : List ChatMessage} {m : ChatMessage} :
    m ∈ mode.ascending list ↔ m ∈ list := by
  cases mode <;> simp [PageMode.ascending]

end Answers

section Pages
variable {out : Outer} {db : Database} {c : Nat} {u : String} {n : Nat}

instance (out : Outer) (n : Nat) : Std.Total (out.Leads n) where
  total conv conv' := by
    unfold Outer.Leads
    omega

instance (out : Outer) (n : Nat) : IsTrans ChatConversation (out.Leads n) where
  trans conv₁ conv₂ conv₃ := by
    unfold Outer.Leads
    omega

end Pages

section Removed
variable {out : Outer} {parse : String → Option Int} {db : Database} {c : Nat} {a : Access}

end Removed

end Imy.Chat
