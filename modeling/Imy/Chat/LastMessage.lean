import Imy.Chat.Stages
set_option autoImplicit false

namespace Imy.Chat
open Imy.Lib

/-- The largest ID of a message of the conversation; 0 when there is none. -/
def Database.largestID (db : Database) (c : Nat) : Nat :=
  ((db.messages.filter fun m => m.conversationID = c).map (·.id)).max?.getD 0

def PointsToLast (db : Database) (c : Nat) : Prop :=
  ∀ conv ∈ db.conversations, conv.id = c → conv.lastMessageID = db.largestID c

def isInsert {ι : Type} : ι × Stmt → Bool
  | (_,.createMessage _) => true
  | _ => false

def isPointing {ι : Type} : ι × Stmt → Bool
  | (_,.updateConversation _ _) => true
  | _ => false

section Stages
variable {out : Outer} {db db' : Database} {st st' : Stage} {q : Stmt} {req : SendMessageReq}
  {c : Nat}

theorem Sending.elsewhere {ι : Type} (h : Sending req st) (hs : Step out db st q st' db')
    (hins : ¬ st.Inserting) (hpoint : ∀ r msg, st ≠ .point r msg) (i : ι) :
    (st'.Undecided → st.Undecided) ∧ (∀ r msg, st' ≠ .point r msg) ∧
      db'.messages = db.messages ∧ db'.conversations = db.conversations ∧
      db'.nextMessage = db.nextMessage ∧ isInsert (i,q) = false ∧ isPointing (i,q) = false := by
  cases h with
  | check => cases hs <;> exact ⟨fun _ => trivial,by simp,rfl,rfl,rfl,rfl,rfl⟩
  | lookUp => cases hs <;> exact ⟨fun _ => trivial,by simp,rfl,rfl,rfl,rfl,rfl⟩
  | insert => exact (hins trivial).elim
  | point msg => exact (hpoint _ _ rfl).elim
  | respond result goroutine hg =>
    cases hs
    refine ⟨fun hu => (hg.not_undecided hu).elim,?_,rfl,rfl,rfl,rfl,rfl⟩
    rintro r msg rfl
    exact hg
  | returned st hst =>
    have hst' := (hs.returned hst).1
    refine ⟨fun hu => (hst'.not_undecided hu).elim,?_,?_⟩
    · rintro r msg rfl
      exact hst'
    · cases hs <;> first | exact hst.elim | exact ⟨rfl,rfl,rfl,rfl,rfl⟩

theorem largestID_congr (h : db'.messages = db.messages) : db'.largestID c = db.largestID c := by
  rw [Database.largestID,h]
  rfl

theorem largestID_inserted (hids : ∀ m ∈ db.messages, m.id < db.nextMessage)
    (hc : req.conversationId = c) {msg : ChatMessage}
    (h : db.createMessage out req.message = (.ok msg,db')) : db'.largestID c = msg.id := by
  obtain ⟨-,hmsg,rfl⟩ := createMessage_ok h
  have hid : msg.id = db.nextMessage := by rw [hmsg,ChatMessage.stored_id]
  have hconv : msg.conversationID = c := by rw [hmsg,← hc]; rfl
  have hmax : (((db.messages ++ [msg]).filter fun m => m.conversationID = c).map (·.id)).max? =
      some msg.id := by
    rw [List.max?_eq_some_iff]
    constructor
    · refine List.mem_map.mpr ⟨msg,List.mem_filter.mpr ⟨?_,by simpa using hconv⟩,rfl⟩
      exact List.mem_append_right _ (List.mem_singleton_self msg)
    · intro a ha
      obtain ⟨m,hm,rfl⟩ := List.mem_map.mp ha
      rcases List.mem_append.mp (List.mem_filter.mp hm).1 with hold | hnew
      · rw [hid]
        exact (hids m hold).le
      · rw [List.mem_singleton.mp hnew]
  rw [Database.largestID,hmax]
  rfl

end Stages

section Pointer
variable {ι : Type} {out : Outer} {db₀ db db' : Database} {c : Nat}
  {req : ι → SendMessageReq} {sent : ι → Option Nat} {stages : ι → Stage}
  {log : List (ι × Stmt)} {i : ι} {q : Stmt} {st' : Stage}

/-- `sent` are the IDs of the messages that the calls have inserted so far. -/
structure Inserted (req : ι → SendMessageReq) (sent : ι → Option Nat) (db : Database)
    (stages : ι → Stage) (log : List (ι × Stmt)) : Prop extends Sends req stages log where
  ids : ∀ m ∈ db.messages, m.id < db.nextMessage
  sentIDs : ∀ i a, sent i = some a → a < db.nextMessage
  different : ∀ i j a, sent i = some a → sent j = some a → i = j
  undecided : ∀ i, (stages i).Undecided → sent i = none
  pointing : ∀ i r msg, stages i = .point r msg → sent i = some msg.id

/-- What the last insert and the last update of the pointer leave behind, in a run
that began with `db₀`. -/
structure Pointing (db₀ : Database) (c : Nat) (sent : ι → Option Nat) (db : Database)
    (stages : ι → Stage) (log : List (ι × Stmt)) : Prop where
  conversation : ∃ conv ∈ db.conversations, conv.id = c
  pointed : ∀ i a, sent i = some a →
    (∃ r msg, stages i = .point r msg) ∨ lastBy isPointing log ≠ none
  noInsert : lastBy isInsert log = none → db.messages = db₀.messages ∧ ∀ i, sent i = none
  lastInsert : ∀ i, lastBy isInsert log = some i → sent i = some (db.largestID c)
  noPointer : lastBy isPointing log = none → db.conversations = db₀.conversations
  lastPointer : ∀ i, lastBy isPointing log = some i → ∃ a, sent i = some a ∧
    ∀ conv ∈ db.conversations, conv.id = c → conv.lastMessageID = a

/-- When everybody has returned, the pointer is right just if the last writers are
the same call; and if nobody has inserted, just if it was right before. -/
theorem Pointing.pointsToLast_iff (hins : Inserted req sent db stages log)
    (h : Pointing db₀ c sent db stages log) (hdone : ∀ i r msg, stages i ≠ .point r msg) :
    PointsToLast db c ↔ lastBy isInsert log = lastBy isPointing log ∧
      (lastBy isInsert log = none → PointsToLast db₀ c) := by
  cases hlast : lastBy isInsert log with
  | none =>
    obtain ⟨hmessages,hnone⟩ := h.noInsert hlast
    have hpointer : lastBy isPointing log = none := by
      cases hlast' : lastBy isPointing log with
      | none => rfl
      | some j =>
        obtain ⟨a,ha,-⟩ := h.lastPointer j hlast'
        rw [hnone j] at ha
        cases ha
    rw [hpointer,PointsToLast,h.noPointer hpointer,largestID_congr hmessages]
    simp [PointsToLast]
  | some i =>
    have hsent := h.lastInsert i hlast
    cases hlast' : lastBy isPointing log with
    | none =>
      rcases h.pointed i _ hsent with ⟨r,msg,hst⟩ | hne
      · exact (hdone i r msg hst).elim
      · exact (hne hlast').elim
    | some j =>
      obtain ⟨a,ha,hpointer⟩ := h.lastPointer j hlast'
      simp only [Option.some.injEq,reduceCtorEq,false_imp_iff,and_true]
      constructor
      · intro hlargest
        obtain ⟨conv,hconv,hid⟩ := h.conversation
        have heq : a = db.largestID c :=
          (hpointer conv hconv hid).symm.trans (hlargest conv hconv hid)
        exact hins.different i j a (heq ▸ hsent) ha
      · rintro rfl conv hconv hid
        rw [hpointer conv hconv hid]
        exact Option.some.inj (ha.symm.trans hsent)

variable [DecidableEq ι]

theorem Inserted.elsewhere (h : Inserted req sent db stages log)
    (hs : Step out db (stages i) q st' db') (hins : ¬ (stages i).Inserting)
    (hpoint : ∀ r msg, stages i ≠ .point r msg) :
    Inserted req sent db' (Function.update stages i st') (log ++ [(i,q)]) := by
  obtain ⟨hundecided,hnopoint,hmessages,-,hnext,-,-⟩ := (h.sending i).elsewhere hs hins hpoint i
  refine ⟨h.toSends.step hs,?_,?_,h.different,?_,?_⟩
  · rw [hmessages,hnext]
    exact h.ids
  · rw [hnext]
    exact h.sentIDs
  · exact forall_updated (P := fun j st => st.Undecided → sent j = none) h.undecided
      fun hu => h.undecided i (hundecided hu)
  · exact forall_updated (P := fun j st => ∀ r msg, st = .point r msg → sent j = some msg.id)
      h.pointing fun r msg hst => (hnopoint r msg hst).elim

theorem Pointing.elsewhere (hins : Inserted req sent db stages log)
    (h : Pointing db₀ c sent db stages log) (hs : Step out db (stages i) q st' db')
    (hinsert : ¬ (stages i).Inserting) (hpoint : ∀ r msg, stages i ≠ .point r msg) :
    Pointing db₀ c sent db' (Function.update stages i st') (log ++ [(i,q)]) := by
  obtain ⟨-,-,hmessages,hconvs,-,hq,hq'⟩ := (hins.sending i).elsewhere hs hinsert hpoint i
  have hlast := lastBy_concat isInsert log hq
  have hlast' := lastBy_concat isPointing log hq'
  refine ⟨by rw [hconvs]; exact h.conversation,?_,?_,?_,?_,?_⟩
  · rw [hlast']
    intro j a hj
    refine (h.pointed j a hj).imp_left fun ⟨r,msg,hst⟩ => ⟨r,msg,?_⟩
    rwa [Function.update_of_ne]
    rintro rfl
    exact hpoint r msg hst
  · rw [hlast,hmessages]
    exact h.noInsert
  · rw [hlast,largestID_congr hmessages]
    exact h.lastInsert
  · rw [hlast',hconvs]
    exact h.noPointer
  · rw [hlast',hconvs]
    exact h.lastPointer

theorem Inserted.insert (h : Inserted req sent db stages log) {msg : ChatMessage}
    (hst : stages i = .insert (req i))
    (hcreate : db.createMessage out (req i).message = (.ok msg,db')) :
    Inserted req (Function.update sent i (some msg.id)) db'
      (Function.update stages i (.point (req i) msg))
      (log ++ [(i,Stmt.createMessage (req i).message)]) := by
  have hs : Step out db (stages i) (.createMessage (req i).message) (.point (req i) msg) db' := by
    rw [hst]
    exact .inserted (req i) msg db' hcreate
  obtain ⟨-,hmsg,hdb'⟩ := createMessage_ok hcreate
  have hid : msg.id = db.nextMessage := by rw [hmsg,ChatMessage.stored_id]
  have hnext : db'.nextMessage = db.nextMessage+1 := by rw [hdb']
  have hsent : ∀ j a, Function.update sent i (some msg.id) j = some a →
      (j = i ∧ a = db.nextMessage) ∨ (j ≠ i ∧ sent j = some a ∧ a < db.nextMessage) := by
    intro j a hj
    by_cases hji : j = i
    · subst hji
      rw [Function.update_self,hid] at hj
      exact Or.inl ⟨rfl,(Option.some.inj hj).symm⟩
    · rw [Function.update_of_ne hji] at hj
      exact Or.inr ⟨hji,hj,h.sentIDs j a hj⟩
  refine ⟨h.toSends.step hs,?_,?_,?_,?_,?_⟩
  · intro m hm
    rw [hdb',List.mem_append,List.mem_singleton] at hm
    rw [hnext]
    rcases hm with hm | rfl
    · exact Nat.lt_succ_of_lt (h.ids m hm)
    · rw [hid]
      exact Nat.lt_succ_self _
  · intro j a hj
    rw [hnext]
    rcases hsent j a hj with ⟨-,rfl⟩ | ⟨-,-,hlt⟩
    · exact Nat.lt_succ_self _
    · exact Nat.lt_succ_of_lt hlt
  · intro j j' a hj hj'
    rcases hsent j a hj with ⟨rfl,ha⟩ | ⟨-,hj,hlt⟩ <;>
      rcases hsent j' a hj' with ⟨rfl,ha'⟩ | ⟨-,hj',hlt'⟩
    · rfl
    · omega
    · omega
    · exact h.different j j' a hj hj'
  · intro j hu
    by_cases hji : j = i
    · subst hji
      rw [Function.update_self] at hu
      exact hu.elim
    · rw [Function.update_of_ne hji] at hu ⊢
      exact h.undecided j hu
  · intro j r m hj
    by_cases hji : j = i
    · subst hji
      rw [Function.update_self] at hj ⊢
      cases hj
      rfl
    · rw [Function.update_of_ne hji] at hj ⊢
      exact h.pointing j r m hj

theorem Pointing.insert (hreq : (req i).conversationId = c)
    (hins : Inserted req sent db stages log) (h : Pointing db₀ c sent db stages log)
    {msg : ChatMessage} (hst : stages i = .insert (req i))
    (hcreate : db.createMessage out (req i).message = (.ok msg,db')) :
    Pointing db₀ c (Function.update sent i (some msg.id)) db'
      (Function.update stages i (.point (req i) msg))
      (log ++ [(i,Stmt.createMessage (req i).message)]) := by
  have hnone : sent i = none := hins.undecided i (hst ▸ trivial)
  have hlargest := largestID_inserted hins.ids hreq hcreate
  have hlast := lastBy_concat_marked isInsert log (i := i) (q := .createMessage (req i).message) rfl
  have hlast' := lastBy_concat isPointing log (i := i) (q := .createMessage (req i).message) rfl
  have hconvs : db'.conversations = db.conversations := by rw [(createMessage_ok hcreate).2.2]
  refine ⟨by rw [hconvs]; exact h.conversation,?_,?_,?_,?_,?_⟩
  · rw [hlast']
    intro j a hj
    by_cases hji : j = i
    · subst hji
      exact Or.inl ⟨req j,msg,Function.update_self j _ _⟩
    · rw [Function.update_of_ne hji] at hj ⊢
      exact h.pointed j a hj
  · simp [hlast]
  · rw [hlast]
    rintro j ⟨⟩
    rw [Function.update_self,hlargest]
  · rw [hlast',hconvs]
    exact h.noPointer
  · rw [hlast',hconvs]
    intro j hj
    obtain ⟨a,ha,hconv⟩ := h.lastPointer j hj
    refine ⟨a,?_,hconv⟩
    rwa [Function.update_of_ne]
    rintro rfl
    rw [hnone] at ha
    cases ha

theorem Inserted.point (h : Inserted req sent db stages log) {msg : ChatMessage}
    (hst : stages i = .point (req i) msg) (hs : Step out db (stages i) q st' db') :
    Inserted req sent db' (Function.update stages i st') (log ++ [(i,q)]) := by
  have hsends := h.toSends.step hs
  rw [hst] at hs
  cases hs
  refine ⟨hsends,h.ids,h.sentIDs,h.different,?_,?_⟩
  · exact forall_updated (P := fun j st => st.Undecided → sent j = none) h.undecided False.elim
  · exact forall_updated (P := fun j st => ∀ r msg, st = .point r msg → sent j = some msg.id)
      h.pointing (by simp)

theorem pointTo_conversation {a : Nat} {conv : ChatConversation}
    (h : conv ∈ (db.pointTo c a).conversations) (hid : conv.id = c) : conv.lastMessageID = a := by
  obtain ⟨old,-,rfl⟩ := List.mem_map.mp h
  by_cases hold : old.id = c
  · rw [if_pos hold]
  · rw [if_neg hold] at hid
    exact (hold hid).elim

theorem Pointing.point (hreq : (req i).conversationId = c)
    (hins : Inserted req sent db stages log) (h : Pointing db₀ c sent db stages log)
    {msg : ChatMessage} (hst : stages i = .point (req i) msg)
    (hs : Step out db (stages i) q st' db') :
    Pointing db₀ c sent db' (Function.update stages i st') (log ++ [(i,q)]) := by
  have hsent := hins.pointing i _ _ hst
  rw [hst] at hs
  cases hs
  rw [hreq]
  have hlast := fun row => lastBy_concat isInsert log (i := i)
    (q := .updateConversation row [.lastMessageID]) rfl
  have hlast' := fun row => lastBy_concat_marked isPointing log (i := i)
    (q := .updateConversation row [.lastMessageID]) rfl
  refine ⟨?_,?_,?_,?_,?_,?_⟩
  · obtain ⟨conv,hconv,hid⟩ := h.conversation
    refine ⟨{ conv with lastMessageID := msg.id },List.mem_map.mpr ⟨conv,hconv,?_⟩,hid⟩
    rw [if_pos hid]
  · intro j a hj
    rw [hlast']
    exact Or.inr (by simp)
  · rw [hlast]
    exact h.noInsert
  · rw [hlast]
    exact h.lastInsert
  · simp [hlast']
  · rw [hlast']
    rintro j ⟨⟩
    exact ⟨msg.id,hsent,fun conv hconv hid => pointTo_conversation hconv hid⟩

def PointerRun (db₀ : Database) (c : Nat) (req : ι → SendMessageReq) (db : Database)
    (stages : ι → Stage) (log : List (ι × Stmt)) : Prop :=
  Gives RefusedInsert stages log ∨
    ∃ sent, Inserted req sent db stages log ∧ Pointing db₀ c sent db stages log

omit [DecidableEq ι] in
theorem pointerRun_start (req : ι → SendMessageReq)
    (hconv : ∃ conv ∈ db.conversations, conv.id = c)
    (hids : ∀ m ∈ db.messages, m.id < db.nextMessage) :
    PointerRun db c req db (fun i => Call.start (.send (req i))) [] := by
  refine Or.inr ⟨fun _ => none,?_,?_⟩
  · refine ⟨sends_start req,hids,by simp,by simp,fun _ _ => rfl,?_⟩
    intro i r msg hst
    rw [Call.start] at hst
    split at hst <;> cases hst
  · exact ⟨hconv,by simp,fun _ => ⟨rfl,fun _ => rfl⟩,by simp [lastBy],fun _ => rfl,by simp [lastBy]⟩

theorem PointerRun.step (hreq : ∀ i, (req i).conversationId = c)
    (h : PointerRun db₀ c req db stages log) (hs : Step out db (stages i) q st' db') :
    PointerRun db₀ c req db' (Function.update stages i st') (log ++ [(i,q)]) := by
  rcases h with hgives | ⟨sent,hins,hpoint⟩
  · exact Or.inl (hgives.step hs)
  by_cases hst : stages i = .insert (req i)
  · have hs' := hs
    rw [hst] at hs'
    cases hs' with
    | inserted _ msg db' hcreate =>
      exact Or.inr ⟨_,hins.insert hst hcreate,hpoint.insert (hreq i) hins hst hcreate⟩
    | duplicate _ e db' hcreate =>
      refine Or.inl ⟨i,_,⟨e,rfl⟩,Or.inl ⟨.finished,?_⟩⟩
      rw [Function.update_self]
  by_cases hst' : ∃ msg, stages i = .point (req i) msg
  · obtain ⟨msg,hst'⟩ := hst'
    exact Or.inr ⟨sent,hins.point hst' hs,hpoint.point (hreq i) hins hst' hs⟩
  have hno : ¬ (stages i).Inserting ∧ ∀ r msg, stages i ≠ .point r msg := by
    have hsend := hins.sending i
    generalize stages i = st at hst hst' hsend
    cases hsend with
    | insert => exact (hst rfl).elim
    | point msg => exact (hst' ⟨msg,rfl⟩).elim
    | check => exact ⟨id,by simp⟩
    | lookUp => exact ⟨id,by simp⟩
    | respond result goroutine hg => exact ⟨id,by simp⟩
    | returned st hret =>
      refine ⟨fun hi => hret.not_undecided hi.undecided,?_⟩
      rintro r msg rfl
      exact hret
  exact Or.inr ⟨sent,hins.elsewhere hs hno.1 hno.2,hpoint.elsewhere hins hs hno.1 hno.2⟩

end Pointer

section Runs
variable {ι : Type} [DecidableEq ι]

/-- Senders to one conversation, each of whose inserts succeeds. When all of them
have returned, the pointer is right just if whoever inserted last also wrote the
pointer last. -/
theorem last_message_right_iff_last_inserter_points_last (out : Outer) (db : Database) (c : Nat)
    (req : ι → SendMessageReq) (hreq : ∀ i, (req i).conversationId = c)
    (hconv : ∃ conv ∈ db.conversations, conv.id = c)
    (hids : ∀ m ∈ db.messages, m.id < db.nextMessage) (schedule : List ι)
    (hdone : ∀ i, ∃ result, (i,Stmt.respond result) ∈
      (runCalls out db (fun i => .send (req i)) schedule).log)
    (hok : ∀ i e, (i,Stmt.respond (.error (.dataCreateFail e))) ∉
      (runCalls out db (fun i => .send (req i)) schedule).log) :
    PointsToLast (runCalls out db (fun i => .send (req i)) schedule).state c ↔
      lastBy isInsert (runCalls out db (fun i => .send (req i)) schedule).log =
        lastBy isPointing (runCalls out db (fun i => .send (req i)) schedule).log ∧
      (lastBy isInsert (runCalls out db (fun i => .send (req i)) schedule).log = none →
        PointsToLast db c) := by
  have hrun : Staged (fun db' stages log => Sends req stages log ∧
      PointerRun db c req db' stages log)
      (runCalls out db (fun i => .send (req i)) schedule) := by
    refine Pool.run_invariant (exec out) (C := fun _ _ => True) ?_ ?_ schedule
      fun _ _ _ _ => trivial
    · exact ⟨_,at_start db _,sends_start req,pointerRun_start req hconv hids⟩
    · intro p i q k hJ _ hask
      exact hJ.step out hask fun stages st' db' _ hJ hs => ⟨hJ.1.step hs,hJ.2.step hreq hs⟩
  obtain ⟨stages,-,hsends,hrun⟩ := hrun
  have hreturned := hsends.returned hdone
  rcases hrun with ⟨i,_,⟨e,rfl⟩,⟨goroutine,hst⟩ | hlog⟩ | ⟨sent,hins,hpoint⟩
  · have hret := hreturned i
    rw [hst] at hret
    exact hret.elim
  · exact (hok i e hlog).elim
  · refine hpoint.pointsToLast_iff hins ?_
    intro i r msg hst
    have hret := hreturned i
    rw [hst] at hret
    exact hret

end Runs

theorem last_message_right_iff_last_inserter_points_last_in_turn :
    PointsToLast (runCalls countingOuter pairDatabase (fun i => .send (greeting i))
      [true,true,true,true,true,false,false,false,false,false]).state 1 ↔
      lastBy isInsert (runCalls countingOuter pairDatabase (fun i => .send (greeting i))
        [true,true,true,true,true,false,false,false,false,false]).log =
        lastBy isPointing (runCalls countingOuter pairDatabase (fun i => .send (greeting i))
          [true,true,true,true,true,false,false,false,false,false]).log ∧
      (lastBy isInsert (runCalls countingOuter pairDatabase (fun i => .send (greeting i))
        [true,true,true,true,true,false,false,false,false,false]).log = none →
        PointsToLast pairDatabase 1) := by
  have hresponses : responses (runCalls countingOuter pairDatabase (fun i => .send (greeting i))
      [true,true,true,true,true,false,false,false,false,false]).log =
      [(true,.ok (.sent 1 "k" 0)),(false,.ok (.sent 2 "k" 1))] := rfl
  refine last_message_right_iff_last_inserter_points_last countingOuter pairDatabase 1 greeting
    (fun _ => rfl) ⟨_,List.mem_singleton_self _,rfl⟩ nofun _ ?_ ?_
  · intro i
    cases i
    · exact ⟨.ok (.sent 2 "k" 1),mem_responses.mp (by rw [hresponses]; simp)⟩
    · exact ⟨.ok (.sent 1 "k" 0),mem_responses.mp (by rw [hresponses]; simp)⟩
  · intro i e hlog
    have hmem := mem_responses.mpr hlog
    rw [hresponses] at hmem
    simp at hmem

/-- The second message is inserted and pointed to between the two statements of the
first sender. -/
theorem earlier_message_stays_last :
    responses (runCalls countingOuter pairDatabase (fun i => .send (greeting i))
      [true,true,true,false,false,false,false,false,true,true]).log =
      [(false,.ok (.sent 2 "k" 1)),(true,.ok (.sent 1 "k" 0))] ∧
    PointsToLast pairDatabase 1 ∧
    (runCalls countingOuter pairDatabase (fun i => .send (greeting i))
      [true,true,true,false,false,false,false,false,true,true]).state.conversations.map
        (·.lastMessageID) = [1] ∧
    (runCalls countingOuter pairDatabase (fun i => .send (greeting i))
      [true,true,true,false,false,false,false,false,true,true]).state.largestID 1 = 2 ∧
    ¬ PointsToLast (runCalls countingOuter pairDatabase (fun i => .send (greeting i))
      [true,true,true,false,false,false,false,false,true,true]).state 1 := by
  refine ⟨rfl,?_,rfl,rfl,fun h => ?_⟩
  · intro conv hconv _
    rw [List.mem_singleton.mp hconv]
    rfl
  · exact absurd (h _ (List.mem_singleton_self _) rfl) (by decide)

end Imy.Chat
