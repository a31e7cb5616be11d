import Imy.Chat.Writes
set_option autoImplicit false

namespace Imy.Chat
open Imy.Lib

/-- The calls that write a member's settings, progress or count. -/
def Request.Personal : Request → Prop
  | .updateConversationSettings _ => True
  | .operation (.readMessages _) => True
  | .operation (.sendMessage _) => True
  | _ => False

def Stmt.rowFor (x : Nat) : Stmt → Option ChatConversationMember
  | .updateMember row _ => if row.id = x then some row else none
  | _ => none

section Columns
variable {ι β : Type}

/-- The value of a column after the updates in a log, where `written` says what an
update of the row writes there, if anything. -/
def lastWritten (written : ι → ChatConversationMember → Option β) (x : Nat) (start : β)
    (log : List (ι × Stmt)) : β :=
  (log.filterMap fun e => (e.2.rowFor x).bind (written e.1)).getLast?.getD start

theorem lastWritten_concat (written : ι → ChatConversationMember → Option β) (x : Nat) (start : β)
    (log : List (ι × Stmt)) (i : ι) (q : Stmt) :
    lastWritten written x start (log ++ [(i,q)]) =
      ((q.rowFor x).bind (written i)).getD (lastWritten written x start log) := by
  rw [lastWritten,List.filterMap_append]
  cases hq : (q.rowFor x).bind (written i) with
  | none => simp [hq,lastWritten]
  | some b => simp [hq]

end Columns

def Request.newAlias : Request → Option String
  | .updateConversationSettings req => if req.presence.alias_ then some req.alias_ else none
  | _ => none

def Request.newMuteUntil (parse : String → Option Int) : Request → Option Int
  | .updateConversationSettings req => if req.presence.muteUntil then req.muteTime parse else none
  | _ => none

def Request.newIsPinned : Request → Option Bool
  | .updateConversationSettings req => if req.presence.isPinned then
    some (req.isPinned ≠ 0) else none
  | _ => none

def Request.newLastRead : Request → Option Nat
  | .operation (.readMessages req) => some req.upToMessageId
  | _ => none

def Request.newLastReadAt : Request → ChatConversationMember → Option Int
  | .operation (.readMessages _), row => some row.lastReadAt
  | _, _ => none

def Request.newUnreadCount : Request → ChatConversationMember → Option UInt32
  | .operation (.readMessages _), row => some row.unreadCount
  | .operation (.sendMessage _), row => some row.unreadCount
  | _, _ => none

/-- Each column of the row holds what was last written to it. -/
structure HoldsLast {ι : Type} (parse : String → Option Int) (reqs : ι → Request)
    (start m : ChatConversationMember) (log : List (ι × Stmt)) : Prop where
  id : m.id = start.id
  live : m.deleted = false
  alias_ : m.alias_ = lastWritten (fun i _ => (reqs i).newAlias) start.id start.alias_ log
  muteUntil : m.muteUntil =
    lastWritten (fun i _ => (reqs i).newMuteUntil parse) start.id start.muteUntil log
  isPinned : m.isPinned = lastWritten (fun i _ => (reqs i).newIsPinned) start.id start.isPinned log
  lastReadMessageID : m.lastReadMessageID =
    lastWritten (fun i _ => (reqs i).newLastRead) start.id start.lastReadMessageID log
  lastReadAt : m.lastReadAt =
    lastWritten (fun i row => (reqs i).newLastReadAt row) start.id start.lastReadAt log
  unreadCount : m.unreadCount =
    lastWritten (fun i row => (reqs i).newUnreadCount row) start.id start.unreadCount log

section Step
variable {ι : Type} {out : Outer} {parse : String → Option Int} {reqs : ι → Request}
  {start m : ChatConversationMember} {log : List (ι × Stmt)} {db : Database} {i : ι} {q : Stmt}
  {h : ChatTrace}

theorem HoldsLast.skip (hm : HoldsLast parse reqs start m log) (hq : q.rowFor start.id = none) :
    HoldsLast parse reqs start m (log ++ [(i,q)]) := by
  constructor <;> try rw [lastWritten_concat,hq]
  · exact hm.id
  · exact hm.live
  · exact hm.alias_
  · exact hm.muteUntil
  · exact hm.isPinned
  · exact hm.lastReadMessageID
  · exact hm.lastReadAt
  · exact hm.unreadCount

theorem HoldsLast.refresh (hm : HoldsLast parse reqs start m log) {req : SendMessageReq}
    (hreq : reqs i = .operation (.sendMessage req)) {row : ChatConversationMember}
    (hrow : row.id = start.id) :
    HoldsLast parse reqs start ([MemberColumn.unreadCount].foldl (fun m col => col.copy row m) m)
      (log ++ [(i,Stmt.updateMember row [.unreadCount])]) := by
  constructor <;> try simp only [lastWritten_concat,Stmt.rowFor,hrow,if_true,Option.bind_some,hreq]
  · exact hm.id
  · exact hm.live
  · exact hm.alias_
  · exact hm.muteUntil
  · exact hm.isPinned
  · exact hm.lastReadMessageID
  · exact hm.lastReadAt
  · rfl

theorem HoldsLast.read (hm : HoldsLast parse reqs start m log) {req : ReadMessagesReq}
    (hreq : reqs i = .operation (.readMessages req)) {mem : ChatConversationMember} {cnt : Nat}
    {lastReadAt : Int} (hrow : mem.id = start.id) :
    HoldsLast parse reqs start
      ([MemberColumn.lastReadMessageID,.lastReadAt,.unreadCount].foldl
        (fun m col => col.copy (req.row mem cnt lastReadAt) m) m)
      (log ++ [(i,Stmt.updateMember (req.row mem cnt lastReadAt)
        [.lastReadMessageID,.lastReadAt,.unreadCount])]) := by
  have hid : (req.row mem cnt lastReadAt).id = start.id := hrow
  constructor <;> try simp only [lastWritten_concat,Stmt.rowFor,hid,if_true,Option.bind_some,hreq]
  · exact hm.id
  · exact hm.live
  · exact hm.alias_
  · exact hm.muteUntil
  · exact hm.isPinned
  · rfl
  · rfl
  · rfl

theorem copy_settings (req : UpdateConversationSettingsReq) (muteUntil : Int)
    (mem m : ChatConversationMember) :
    req.cols.foldl (fun m col => col.copy (req.row muteUntil mem) m) m =
      { m with
        alias_ := if req.presence.alias_ then req.alias_ else m.alias_
        muteUntil := if req.presence.muteUntil then muteUntil else m.muteUntil
        isPinned := if req.presence.isPinned then req.isPinned ≠ 0 else m.isPinned } := by
  obtain ⟨uuid,conversationId,alias_,mute,isPinned,⟨hasAlias,hasMute,hasPinned⟩⟩ := req
  cases hasAlias <;> cases hasMute <;> cases hasPinned <;> rfl

theorem getD_ite {β : Type} (c : Prop) [Decidable c] (a b : β) :
    (if c then some a else none).getD b = if c then a else b := by
  split <;> rfl

theorem HoldsLast.settings (hm : HoldsLast parse reqs start m log)
    {req : UpdateConversationSettingsReq} (hreq : reqs i = .updateConversationSettings req)
    {mem : ChatConversationMember} {muteUntil : Int} (htime : req.Handed parse mem muteUntil)
    (hrow : mem.id = start.id) :
    HoldsLast parse reqs start
      (req.cols.foldl (fun m col => col.copy (req.row muteUntil mem) m) m)
      (log ++ [(i,Stmt.updateMember (req.row muteUntil mem) req.cols)]) := by
  have hid : (req.row muteUntil mem).id = start.id := hrow
  have halias : (reqs i).newAlias = if req.presence.alias_ then some req.alias_ else none := by
    rw [hreq,Request.newAlias]
  have hmute : (reqs i).newMuteUntil parse =
      if req.presence.muteUntil then some muteUntil else none := by
    rw [hreq,Request.newMuteUntil]
    unfold UpdateConversationSettingsReq.Handed at htime
    split
    · rename_i hhas
      rwa [if_pos hhas] at htime
    · rfl
  have hpinned : (reqs i).newIsPinned =
      if req.presence.isPinned then some (decide (req.isPinned ≠ 0)) else none := by
    rw [hreq,Request.newIsPinned]
  rw [copy_settings]
  constructor <;> try simp only [lastWritten_concat,Stmt.rowFor,hid,if_true,Option.bind_some]
  · exact hm.id
  · exact hm.live
  · rw [halias,getD_ite,← hm.alias_]
  · rw [hmute,getD_ite,← hm.muteUntil]
  · rw [hpinned,getD_ite,← hm.isPinned]
  · rw [hreq]
    exact hm.lastReadMessageID
  · rw [hreq]
    exact hm.lastReadAt
  · rw [hreq]
    exact hm.unreadCount

theorem update_other {row : ChatConversationMember} (cols : List MemberColumn)
    (hm : HoldsLast parse reqs start m log) (hrow : row.id ≠ start.id) :
    HoldsLast parse reqs start (if m.id = row.id ∧ m.deleted = false then
      cols.foldl (fun m col => col.copy row m) m else m)
        (log ++ [(i,Stmt.updateMember row cols)]) := by
  rw [if_neg fun hsame => hrow (hsame.1.symm.trans hm.id)]
  exact hm.skip (if_neg hrow)

theorem HoldsLast.step (hm : HoldsLast parse reqs start m log) (hin : m ∈ db.members)
    (hpersonal : (reqs i).Personal) (hmay : (reqs i).May parse h q) :
    ∃ m' ∈ (exec out q db).2.members, HoldsLast parse reqs start m' (log ++ [(i,q)]) := by
  have hupdate : ∀ row cols, q = .updateMember row cols →
      (if m.id = row.id ∧ m.deleted = false then
        cols.foldl (fun m col => col.copy row m) m else m) ∈
        (exec out q db).2.members := by
    rintro row cols rfl
    exact List.mem_map_of_mem hin
  rcases hmay with hreads | hwrites
  · refine ⟨m,?_,hm.skip ?_⟩
    · cases q <;> first | exact hin | exact hreads.elim
    · cases q <;> first | rfl | exact hreads.elim
  cases hreq : reqs i with
  | operation op =>
    rw [hreq] at hwrites hpersonal
    cases op with
    | sendMessage req =>
      rcases hwrites with rfl | ⟨row,rfl,-⟩ | ⟨mem,cnt,-,rfl⟩
      · refine ⟨m,?_,hm.skip rfl⟩
        change m ∈ (db.createMessage out req.message).2.members
        rw [Database.createMessage]
        split <;> exact hin
      · exact ⟨m,hin,hm.skip rfl⟩
      · refine ⟨_,hupdate _ _ rfl,?_⟩
        by_cases hrow : (mem.recounted cnt).id = start.id
        · rw [if_pos ⟨hm.id.trans hrow.symm,hm.live⟩]
          exact hm.refresh hreq hrow
        · exact update_other _ hm hrow
    | readMessages req =>
      obtain ⟨mem,cnt,lastReadAt,-,rfl⟩ := hwrites
      refine ⟨_,hupdate _ _ rfl,?_⟩
      by_cases hrow : mem.id = start.id
      · rw [if_pos ⟨hm.id.trans hrow.symm,hm.live⟩]
        exact hm.read hreq hrow
      · exact update_other _ hm hrow
    | _ => exact hpersonal.elim
  | updateConversationSettings req =>
    rw [hreq] at hwrites
    obtain ⟨mem,muteUntil,-,htime,rfl⟩ := hwrites
    refine ⟨_,hupdate _ _ rfl,?_⟩
    by_cases hrow : mem.id = start.id
    · rw [if_pos ⟨hm.id.trans hrow.symm,hm.live⟩]
      exact hm.settings hreq htime hrow
    · exact update_other _ hm hrow
  | _ =>
    rw [hreq] at hpersonal
    exact hpersonal.elim

end Step

section Run
variable {ι : Type} [DecidableEq ι]

/-- In any interleaving of these calls every column of a member's row holds what the
last update that names it wrote, whatever the rows said that were handed back. -/
theorem settings_and_progress_kept_apart (out : Outer) (parse : String → Option Int) (db : Database)
    (reqs : ι → Request) (hpersonal : ∀ i, (reqs i).Personal) (start : ChatConversationMember)
    (hstart : start ∈ db.members) (hlive : start.deleted = false) (schedule : List ι) :
    ∃ m ∈ (runTogether out parse db reqs schedule).state.members,
      HoldsLast parse reqs start m (runTogether out parse db reqs schedule).log := by
  induction schedule using List.reverseRecOn with
  | nil => exact ⟨start,hstart,rfl,hlive,rfl,rfl,rfl,rfl,rfl,rfl⟩
  | append_singleton before i ih =>
    obtain ⟨m,hin,hm⟩ := ih
    rw [runTogether_concat]
    rcases Pool.asks_or_stays (exec out) (runTogether out parse db reqs before) i
      with ⟨q,k,hask⟩ | hstays
    · obtain ⟨h,hmay,-⟩ := Pool.traced_ask (exec out) (exec_fits out)
        (traced_together parse db reqs) hask
      rw [Pool.next_of_ask (exec out) hask]
      exact hm.step hin (hpersonal i) hmay
    · rw [hstays]
      exact ⟨m,hin,hm⟩

end Run

/-- "b" changes the settings while "a" sends a message. -/
def greetAndSet (send : Bool) : Request :=
  if send then .operation (.sendMessage (greeting true))
  else .updateConversationSettings ⟨"b",1,"bee","",1,⟨true,true,true⟩⟩

/-- The row that "b" hands back was read before the message. -/
theorem settings_and_progress_kept_apart_stale_row :
    ∃ m ∈ (runTogether countingOuter noTimes pairDatabase greetAndSet
      (false :: List.replicate 20 true ++ [false])).state.members,
      m.id = 2 ∧ m.alias_ = "bee" ∧ m.isPinned = true ∧ m.unreadCount = 1 := by
  have hpersonal : ∀ send, (greetAndSet send).Personal := by
    intro send
    cases send <;> exact trivial
  obtain ⟨m,hm,hlast⟩ := settings_and_progress_kept_apart countingOuter noTimes pairDatabase
    greetAndSet hpersonal { memberRow 1 "b" with id := 2 } (by simp [pairDatabase]) rfl
    (false :: List.replicate 20 true ++ [false])
  refine ⟨m,hm,hlast.id,hlast.alias_.trans ?_,hlast.isPinned.trans ?_,hlast.unreadCount.trans ?_⟩
  · rfl
  · rfl
  · rfl

end Imy.Chat
