import Imy.Lib.CutOff
import Imy.Chat.Pushes
set_option autoImplicit false

/-!
How often a user is told of a message, when the contexts of the requests are cancelled at
any time. The goroutines ask with the context of the request, which is cancelled once the
handler has returned, so that the question for the members may fail.
-/

namespace Imy.Chat
open Imy.Lib

def Stmt.cancelled : (q : Stmt) → Option q.Answer
  | .takeConversation _ | .getConversation _ | .createConversation _ => some (.error .unavailable)
  | .takeMember _ _ => some (.error .unavailable)
  | .findMembers _ | .findMemberships _ => some (.error .unavailable)
  | .takeMessage _ _ | .takeMessageByClient _ _ _ | .createMessage _ => some (.error .unavailable)
  | .countMessages _ _ _ => some (.error .unavailable)
  | .findMessages _ _ _ => some (.error .unavailable)
  | .findConversations _ _ _ => some (.error .unavailable)
  | .updateConversation _ _ | .createMembers _ | .updateMember _ _ | .deleteMember _
  | .updateMessage _ _ => some (.error .unavailable)
  | .now | .generateUUID | .sendJSON _ _ | .respond _ => none

theorem fits_cancelled (q : Stmt) (answer : q.Answer) (h : q.cancelled = some answer) :
    q.Fits answer := by
  cases q <;> simp only [Stmt.cancelled,Option.some.injEq,reduceCtorEq] at h <;>
    subst h <;> exact trivial

section Thinned
variable {h h' : ChatTrace} {caller u : String} {info : MessageInfo}

def Announcing (caller : String) (h : ChatTrace) : Stmt → Prop
  | .sendJSON u (.messageNew info) => Announces h caller u info
  | _ => True

theorem Tells.announcing {q : Stmt} (ht : Tells caller h q) : Announcing caller h q := by
  cases q with
  | sendJSON u e =>
    cases e with
    | messageNew info => exact ht.2
    | _ => exact trivial
  | _ => exact trivial

theorem Announces.thinned (ha : Announces h caller u info) (ht : Thinned Stmt.cancelled h h') :
    Announces h' caller u info := by
  obtain ⟨h₁,h₂,row,msg,done,mem,rest,rfl,hinsert,hrow,hinfo,hu,htold⟩ := ha
  obtain ⟨h₁',h₂',rfl,ht₁,ht₂⟩ := ht.split (by simp [Stmt.cancelled])
  refine ⟨h₁',h₂',row,msg,done,mem,rest,rfl,ht₁.mem (by simp [Stmt.cancelled]) hinsert,
    hrow,hinfo,hu,?_⟩
  exact fun v info' hin => htold v info' (ht.subset hin)

theorem AllTold.thinned (ha : AllTold h) (ht : Thinned Stmt.cancelled h h') : AllTold h' := by
  intro row msg members hinsert hfound
  obtain ⟨h₁,h₂,rfl,hbefore,htold⟩ := ha row msg members (ht.subset hinsert) (ht.subset hfound)
  obtain ⟨h₁',h₂',rfl,ht₁,-⟩ := ht.split (by simp [Stmt.cancelled])
  refine ⟨h₁',h₂',rfl,ht₁.mem (by simp [Stmt.cancelled]) hbefore,fun mem hmem => ?_⟩
  exact ht.mem (by simp [Stmt.cancelled]) (htold mem hmem)

theorem announcing_thinned (h h' : ChatTrace) (q : Stmt) (ht : Thinned Stmt.cancelled h h')
    (ha : Announcing caller h q) : Announcing caller h' q := by
  cases q with
  | sendJSON u e =>
    cases e with
    | messageNew info => exact Announces.thinned ha ht
    | _ => exact trivial
  | _ => exact trivial

theorem traced_cutOff_announcing {P : ChatTrace → Unit → Prop} {call : ChatM Unit}
    (hcall : call.Traced Stmt.Fits (Tells caller) P []) (n : Nat) :
    (call.cutOff Stmt.cancelled n).Traced Stmt.Fits (Announcing caller)
      (fun h' a => ∃ h, Thinned Stmt.cancelled h h' ∧ P h a) [] :=
  (hcall.mono fun _ _ => Tells.announcing).cutOff fits_cancelled announcing_thinned .nil n

end Thinned

/-- The push tells the user of the message. -/
def tellsOf (u : String) (messageId : Nat) : String × Event → Bool
  | (v,.messageNew info) => v = u ∧ info.id = messageId
  | _ => false

theorem tellsOf_iff {u : String} {push : String × Event} {messageId : Nat} :
    tellsOf u messageId push = true ↔ ∃ info, push = (u,.messageNew info) ∧
      info.id = messageId := by
  obtain ⟨v,e⟩ := push
  cases e <;> simp [tellsOf]

def pushOf : Stmt → Option (String × Event)
  | .sendJSON u e => some (u,e)
  | _ => none

theorem exec_pushed (out : Outer) (q : Stmt) (s : Database) :
    (exec out q s).2.pushed = s.pushed ++ (pushOf q).toList := by
  cases q with
  | createConversation row =>
    change (s.createConversation row).2.pushed = _
    rw [Database.createConversation]
    split <;> simp [pushOf]
  | createMembers rows =>
    change (s.createMembers out rows).2.pushed = _
    rw [Database.createMembers]
    split <;> simp [pushOf]
  | createMessage row =>
    change (s.createMessage out row).2.pushed = _
    rw [Database.createMessage]
    split <;> simp [pushOf]
  | _ => simp [exec,pushOf,Database.updateMember]

section Once
variable {ι : Type} [DecidableEq ι] {out : Outer} {p : Calls ι} {callers : ι → String}
  {schedule before : List ι} {i j : ι} {u : String} {row row' msg msg' : ChatMessage}

theorem mem_pushed_iff (hpushed : p.state.pushed = []) (hstart : p.log = [])
    {push : String × Event} :
    push ∈ (p.run (exec out) schedule).state.pushed ↔
      ∃ i, (i,.sendJSON push.1 push.2) ∈ (p.run (exec out) schedule).log := by
  refine Pool.run_invariant (I := fun p => push ∈ p.state.pushed ↔
    ∃ i, (i,.sendJSON push.1 push.2) ∈ p.log)
    (C := fun _ _ => True) (exec out) ?_ (fun p i q k hp _ hask => ?_) schedule
      fun _ _ _ _ => trivial
  · simp [hpushed,hstart]
  · rw [Pool.next_of_ask (exec out) hask]
    dsimp only
    rw [exec_pushed,List.mem_append,hp]
    simp only [List.mem_append,exists_or,List.mem_singleton,Prod.mk.injEq,
      exists_and_right,exists_eq,true_and]
    refine or_congr_right ?_
    cases q <;> simp [pushOf,Prod.ext_iff,eq_comm]

theorem insert_above (hkeyed : Keyed p.state)
    (h : Pool.Asked (exec out) p before i ⟨.createMessage row,.ok msg⟩)
    (hanswer : (exec out (.createMessage row') (p.run (exec out) before).state).1 = .ok msg') :
    msg.id < msg'.id := by
  obtain ⟨-,m,hm,hstill⟩ := message_of_insert h
  have hthere : Keyed (p.run (exec out) before).state := keyed_run hkeyed before
  have hnext := hthere.messageNext m hm
  change (Database.createMessage out _ row').1 = .ok msg' at hanswer
  rw [Database.createMessage] at hanswer
  split at hanswer
  · cases hanswer
  · obtain rfl := Except.ok.inj hanswer
    rw [← hstill.id]
    exact hnext

theorem insert_unique (hkeyed : Keyed p.state)
    (h : Pool.Asked (exec out) p schedule i ⟨.createMessage row,.ok msg⟩)
    (h' : Pool.Asked (exec out) p schedule j ⟨.createMessage row',.ok msg'⟩)
    (hid : msg.id = msg'.id) : i = j ∧ msg = msg' := by
  -- of two turns the earlier one has inserted its message before the other
  have hearlier : ∀ {i j row row' msg msg' before before' after after' k k'},
      schedule = before ++ i :: after → schedule = before' ++ j :: after' →
        before.length < before'.length →
      (p.run (exec out) before).threads i = .ask (.createMessage row) k →
      (exec out (.createMessage row) (p.run (exec out) before).state).1 = .ok msg →
      (p.run (exec out) before').threads j = .ask (.createMessage row') k' →
      (exec out (.createMessage row') (p.run (exec out) before').state).1 = .ok msg' →
      msg.id < msg'.id := by
    intro i j row row' msg msg' before before' after after' k k' hsplit hsplit' hlt
      hask hanswer _ hanswer'
    have hturn : before ++ [i] <+: schedule := ⟨after,by simp [hsplit]⟩
    have hinit : before ++ [i] <+: before' := by
      refine List.prefix_of_prefix_length_le hturn ⟨j :: after',hsplit'.symm⟩ ?_
      rw [List.length_append]
      exact hlt
    obtain ⟨rest,rfl⟩ := hinit
    exact insert_above hkeyed ⟨before,rest,k,by simp,hask,hanswer⟩ hanswer'
  obtain ⟨before,after,k,hsplit,hask,hanswer⟩ := h
  obtain ⟨before',after',k',hsplit',hask',hanswer'⟩ := h'
  rcases Nat.lt_trichotomy before.length before'.length with hlt | heq | hgt
  · exact absurd hid (hearlier hsplit hsplit' hlt hask hanswer hask' hanswer').ne
  · obtain ⟨rfl,hrest⟩ := List.append_inj (hsplit.symm.trans hsplit') heq
    obtain ⟨rfl,-⟩ := List.cons.inj hrest
    rw [hask] at hask'
    cases hask'
    exact ⟨rfl,Except.ok.inj (hanswer.symm.trans hanswer')⟩
  · exact absurd hid (hearlier hsplit' hsplit hgt hask' hanswer' hask hanswer).ne'

theorem nodup_findMembers {s : Database} (hkeyed : Keyed s) {c : Nat}
    {members : List ChatConversationMember}
    (hanswer : (exec out (.findMembers c) s).1 = .ok members) :
    members.Pairwise fun m m' => m.userUUID ≠ m'.userUUID := by
  obtain rfl := Except.ok.inj hanswer
  have hkeys := (hkeyed.memberKeys.filter fun m => !m.deleted).filter fun m => m.conversationID = c
  refine hkeys.imp_of_mem fun {m m'} hm hm' hne hsame => hne ⟨?_,hsame⟩
  rw [show m.conversationID = c by simpa using (List.mem_filter.mp hm).2]
  exact (show m'.conversationID = c by simpa using (List.mem_filter.mp hm').2).symm

variable (htraced : ∀ i, (p.threads i).Traced Stmt.Fits (Announcing (callers i))
    (fun _ _ => True) [])
include htraced

/-- Whoever tells of a message has inserted it and was answered who is in the conversation. -/
theorem announces_of_log (hstart : p.log = []) {info : MessageInfo}
    (hlog : (i,.sendJSON u (.messageNew info)) ∈ (p.run (exec out) schedule).log) :
    ∃ before, before <+: schedule ∧ Announces (p.history (exec out) i before) (callers i) u info :=
  Pool.traced_log (K := fun i => Announcing (callers i)) (exec_fits out) hstart htraced hlog

theorem Announces.first (hkeyed : Keyed p.state) (hstart : p.log = []) {sender : String}
    {info info' : MessageInfo}
    (ha : Announces (p.history (exec out) i schedule) sender u info) (hid : info'.id = info.id) :
    (j,.sendJSON u (.messageNew info')) ∉ (p.run (exec out) schedule).log := by
  intro hlog
  obtain ⟨h₁,h₂,row,msg,done,mem,rest,hsplit,hinsert,-,rfl,rfl,htold⟩ := ha
  obtain ⟨before',⟨after',hinit⟩,h₁',h₂',row',msg',done',mem',rest',hsplit',hinsert',-,rfl,-⟩ :=
    announces_of_log htraced hstart hlog
  have hmine : ⟨.createMessage row,.ok msg⟩ ∈ p.history (exec out) i schedule := by
    simp [hsplit,hinsert]
  have htheirs : ⟨.createMessage row',.ok msg'⟩ ∈ p.history (exec out) j before' := by
    simp [hsplit',hinsert']
  have htheirs' : Pool.Asked (exec out) p schedule j ⟨.createMessage row',.ok msg'⟩ := by
    rw [← hinit]
    exact (Pool.asked_of_history htheirs).append (exec out)
  obtain ⟨rfl,-⟩ := insert_unique hkeyed (Pool.asked_of_history hmine) htheirs' hid.symm
  obtain ⟨⟨⟩,hpush⟩ := (Pool.mem_log_iff hstart).mp hlog
  obtain ⟨m,hm,hmu⟩ := htold _ _ hpush
  obtain ⟨before,after,k,rfl,-,-,hanswer⟩ := Pool.history_split hsplit
  have hnodup := nodup_findMembers (keyed_run hkeyed before) hanswer
  exact (List.pairwise_append.mp hnodup).2.2 m hm mem List.mem_cons_self hmu

theorem not_told_before (hkeyed : Keyed p.state) (hpushed : p.state.pushed = [])
    (hstart : p.log = []) {info : MessageInfo} {k : Unit → Prog Stmt Stmt.Answer ErrCode Unit}
    (hask : (p.run (exec out) before).threads i = .ask (.sendJSON u (.messageNew info)) k) :
    (p.run (exec out) before).state.pushed.countP (tellsOf u info.id) = 0 := by
  have hpast := Pool.traced_history (i := i) (exec_fits out) (htraced i) before
  rw [hask] at hpast
  refine List.countP_eq_zero.mpr fun push hpush htells => ?_
  obtain ⟨info',rfl,hid⟩ := tellsOf_iff.mp htells
  obtain ⟨j,hlog⟩ := (mem_pushed_iff hpushed hstart).mp hpush
  exact Announces.first htraced hkeyed hstart hpast.1 hid hlog

theorem told_at_most_once (hkeyed : Keyed p.state) (hpushed : p.state.pushed = [])
    (hstart : p.log = []) (schedule : List ι) (u : String) (messageId : Nat) :
    (p.run (exec out) schedule).state.pushed.countP (tellsOf u messageId) ≤ 1 := by
  induction schedule using List.reverseRecOn with
  | nil =>
    change p.state.pushed.countP _ ≤ 1
    simp [hpushed]
  | append_singleton before i ih =>
    rw [Pool.run_concat]
    rcases Pool.asks_or_stays (exec out) (p.run (exec out) before) i with ⟨q,k,hask⟩ | hstays
    · rw [Pool.next_of_ask (exec out) hask]
      dsimp only
      rw [exec_pushed,List.countP_append]
      by_cases htells : ∃ push, pushOf q = some push ∧ tellsOf u messageId push = true
      · obtain ⟨push,hpush,htells⟩ := htells
        obtain ⟨info,rfl,rfl⟩ := tellsOf_iff.mp htells
        cases q <;> cases hpush
        rw [not_told_before htraced hkeyed hpushed hstart hask,Nat.zero_add]
        exact List.countP_le_length
      · have hnone : (pushOf q).toList.countP (tellsOf u messageId) = 0 := by
          refine List.countP_eq_zero.mpr fun push hpush htells' => htells ⟨push,?_,htells'⟩
          exact Option.mem_toList.mp hpush
        rw [hnone,Nat.add_zero]
        exact ih
    · rw [hstays]
      exact ih

theorem untold_of_unanswered (hkeyed : Keyed p.state) (hpushed : p.state.pushed = [])
    (hstart : p.log = [])
    (hinsert : Pool.Asked (exec out) p schedule i ⟨.createMessage row,.ok msg⟩)
    (hnone : ∀ members, ¬ Pool.Asked (exec out) p schedule i
      ⟨.findMembers msg.conversationID,.ok members⟩)
    (u : String) : (p.run (exec out) schedule).state.pushed.countP (tellsOf u msg.id) = 0 := by
  refine List.countP_eq_zero.mpr fun push hpush htells => ?_
  obtain ⟨info,rfl,hid⟩ := tellsOf_iff.mp htells
  obtain ⟨j,hlog⟩ := (mem_pushed_iff hpushed hstart).mp hpush
  obtain ⟨before,⟨after,rfl⟩,h₁,h₂,row',msg',done,mem,rest,hsplit,hinsert',-,rfl,-⟩ :=
    announces_of_log htraced hstart hlog
  have htheirs : ⟨.createMessage row',.ok msg'⟩ ∈ p.history (exec out) j before := by
    simp [hsplit,hinsert']
  have hfound : ⟨.findMembers msg'.conversationID,.ok (done ++ mem :: rest)⟩ ∈ p.history
      (exec out) j before := by
    simp [hsplit]
  obtain ⟨rfl,rfl⟩ :=
    insert_unique hkeyed hinsert ((Pool.asked_of_history htheirs).append (exec out)) hid.symm
  exact hnone _ ((Pool.asked_of_history hfound).append (exec out))

end Once

section Cancelled
variable {ι : Type} [DecidableEq ι] (out : Outer) (parse : String → Option Int) (db : Database)
  (reqs : ι → Request) (cancels : ι → Nat)

/-- Calls of all kinds side by side. The context of call `i` is cancelled after `cancels i`
requests. -/
def startCancelled : Calls ι :=
  ⟨db,fun i => (serve ((reqs i).main parse)).cutOff Stmt.cancelled (cancels i),[]⟩

def runCancelled (schedule : List ι) : Calls ι :=
  (startCancelled parse db reqs cancels).run (exec out) schedule

/-- The user is a member from the time on when the message is there. -/
def MemberSince (schedule : List ι) (msg : ChatMessage) (u : String) : Prop :=
  ∀ before, before <+: schedule →
    (∃ m ∈ (runCancelled out parse db reqs cancels before).state.messages, m.id = msg.id) →
    (runCancelled out parse db reqs cancels before).state.IsMember msg.conversationID u

variable {out parse db reqs cancels} {schedule : List ι} {i : ι} {u : String}
    {row msg : ChatMessage}
  {members : List ChatConversationMember}

omit [DecidableEq ι] in
theorem traced_cancelled (i : ι) :
    ((startCancelled parse db reqs cancels).threads i).Traced Stmt.Fits
    (Announcing (reqs i).caller) (fun _ _ => True) [] :=
  (traced_cutOff_announcing (traced_request_tells parse (reqs i)) (cancels i)).imp
    fun _ _ _ => trivial

/-- A call that has ended and got an answer has told everybody of its message who was a member. -/
theorem told_of_ended {req : SendMessageReq} (hreq : reqs i = .operation (.sendMessage req))
    (hended : (runCancelled out parse db reqs cancels schedule).threads i = .ret ())
    (hinsert : Pool.Asked (exec out) (startCancelled parse db reqs cancels) schedule i
      ⟨.createMessage row,.ok msg⟩)
    (hfound : Pool.Asked (exec out) (startCancelled parse db reqs cancels) schedule i
      ⟨.findMembers msg.conversationID,.ok members⟩)
    (hmember : MemberSince out parse db reqs cancels schedule msg u) :
    (i,.sendJSON u (.messageNew msg.info)) ∈
      (runCancelled out parse db reqs cancels schedule).log := by
  have hstart : ((startCancelled parse db reqs cancels).threads i).Traced Stmt.Fits
    (Announcing req.uuid)
      (fun h' _ => AllTold h') [] := by
    change ((serve ((reqs i).main parse)).cutOff _ _).Traced _ _ _ _
    rw [hreq]
    refine (traced_cutOff_announcing (traced_sendMessage_tells req) (cancels i)).imp
      fun h' _ hthin => ?_
    obtain ⟨h,ht,hall⟩ := hthin
    exact hall.thinned ht
  have htraced := Pool.traced_history (exec_fits out) hstart schedule
  change ((runCancelled out parse db reqs cancels schedule).threads i).Traced _ _ _ _ at htraced
  rw [hended] at htraced
  obtain ⟨h₁,h₂,hsplit,hinsert',htold⟩ :=
    htraced row msg members (Pool.history_of_asked hinsert) (Pool.history_of_asked hfound)
  obtain ⟨before,after,k,hschedule,rfl,-,hanswer⟩ := Pool.history_split hsplit
  obtain ⟨-,m,hm,hstill⟩ := message_of_insert (Pool.asked_of_history hinsert')
  obtain ⟨mem,hmem,hlive,hc,hu⟩ := hmember before ⟨_,hschedule.symm⟩ ⟨m,hm,hstill.id⟩
  refine (Pool.mem_log_iff rfl).mpr ⟨(),?_⟩
  rw [← hu]
  obtain rfl := Except.ok.inj hanswer
  refine htold mem (List.mem_filter.mpr ⟨List.mem_filter.mpr ⟨hmem,?_⟩,?_⟩)
  · simpa using hlive
  · simpa using hc

/-- In every run, whenever contexts are cancelled, no user is told of a message twice. By the end of
the call everybody is told of it once who is a member from its insert on, if the goroutine was
answered who the members are, and else nobody is. -/
theorem message_told_once (hkeyed : Keyed db) (hpushed : db.pushed = []) (schedule : List ι) :
    (∀ u messageId,
      (runCancelled out parse db reqs cancels schedule).state.pushed.countP
        (tellsOf u messageId) ≤ 1) ∧
      ∀ i req row msg u, reqs i = .operation (.sendMessage req) →
        Pool.Asked (exec out) (startCancelled parse db reqs cancels) schedule i
          ⟨.createMessage row,.ok msg⟩ →
        ((∀ members, ¬ Pool.Asked (exec out) (startCancelled parse db reqs cancels) schedule i
          ⟨.findMembers msg.conversationID,.ok members⟩) →
          (runCancelled out parse db reqs cancels schedule).state.pushed.countP
            (tellsOf u msg.id) = 0) ∧
        ∀ members, Pool.Asked (exec out) (startCancelled parse db reqs cancels) schedule i
          ⟨.findMembers msg.conversationID,.ok members⟩ →
          (runCancelled out parse db reqs cancels schedule).threads i = .ret () →
          MemberSince out parse db reqs cancels schedule msg u →
          (runCancelled out parse db reqs cancels schedule).state.pushed.countP
            (tellsOf u msg.id) = 1 := by
  have hmost : ∀ u messageId,
      (runCancelled out parse db reqs cancels schedule).state.pushed.countP
          (tellsOf u messageId) ≤ 1 :=
    told_at_most_once (p := startCancelled parse db reqs cancels) traced_cancelled
      hkeyed hpushed rfl schedule
  refine ⟨hmost,fun i req row msg u hreq hinsert =>
    ⟨fun hnone => ?_,fun members hfound hended hmember => ?_⟩⟩
  · exact untold_of_unanswered traced_cancelled hkeyed hpushed rfl hinsert hnone u
  · refine (hmost u msg.id).antisymm (List.countP_pos_iff.mpr ⟨(u,.messageNew msg.info),?_,?_⟩)
    · exact (mem_pushed_iff hpushed rfl).mpr ⟨i,told_of_ended hreq hended hinsert hfound hmember⟩
    · exact tellsOf_iff.mpr ⟨msg.info,rfl,rfl⟩

end Cancelled

def Stmt.asksMembers : Stmt → Bool
  | .findMembers _ => true
  | _ => false

/-- "b" is removed between the insert and the announcement, and the context is cancelled. -/
def greetedWhileRemoving (cancels : Bool → Nat) : Calls Bool :=
  runCancelled countingOuter noTimes pairDatabase greetAndRemove cancels removedMeanwhile

theorem stays_member :
    MemberSince countingOuter noTimes pairDatabase greetAndRemove (fun _ => 20) removedMeanwhile
    ((greeting true).message.stored 1 0) "a" := by
  have hall : removedMeanwhile.inits.all fun before =>
      (runCancelled countingOuter noTimes pairDatabase greetAndRemove
          (fun _ => 20) before).state.members.any fun m =>
        !m.deleted && m.conversationID == 1 && m.userUUID == "a" := by
    rfl
  intro before hinit _
  have hany := List.all_eq_true.mp hall before ((List.mem_inits _ _).mpr hinit)
  obtain ⟨m,hm,hkey⟩ := List.any_eq_true.mp hany
  simp only [Bool.and_eq_true,Bool.not_eq_true',beq_iff_eq] at hkey
  exact ⟨m,hm,hkey.1.1,hkey.1.2,hkey.2⟩

theorem message_told_once_removed_meanwhile :
    (greetedWhileRemoving fun _ => 20).state.pushed.countP (tellsOf "a" 1) = 1 ∧
      (greetedWhileRemoving fun _ => 5).state.pushed.countP (tellsOf "a" 1) = 0 := by
  have hkeyed : Keyed pairDatabase := by constructor <;> decide
  constructor
  · exact ((message_told_once hkeyed rfl removedMeanwhile).2 true (greeting true)
      (greeting true).message
      ((greeting true).message.stored 1 0) "a" rfl ⟨[true,true],_,_,rfl,rfl,rfl⟩).2 _
      ⟨[true,true,true] ++ List.replicate 9 false ++ [true,true],_,_,rfl,rfl,rfl⟩ rfl stays_member
  · refine ((message_told_once hkeyed rfl removedMeanwhile).2 true (greeting true)
      (greeting true).message
      ((greeting true).message.stored 1 0) "a" rfl ⟨[true,true],_,_,rfl,rfl,rfl⟩).1
        fun members hasked => ?_
    have hlog := (Pool.mem_log_iff rfl).mpr ⟨_,Pool.history_of_asked hasked⟩
    have hnone : (greetedWhileRemoving fun _ => 5).log.all
      (fun e => !(e.1 && e.2.asksMembers)) = true := rfl
    exact absurd (List.all_eq_true.mp hnone _ hlog) (by decide)

end Imy.Chat
