import Imy.Chat.Stages
set_option autoImplicit false

namespace Imy.Chat
open Imy.Lib

/-- The messages with the given unique key. -/
def Database.withKey (db : Database) (conversationID : Nat) (sendUUID clientMsgID : String) :
    List ChatMessage :=
  db.messages.filter fun m =>
    m.conversationID = conversationID ∧ m.sendUUID = sendUUID ∧ m.clientMsgID = clientMsgID

/-- A retry looks up no message while another call has missed it and is about to
insert it. -/
def NoRace {ι : Type} (p : Calls ι) (i : ι) : Prop :=
  (∃ a b c k, p.threads i = .ask (.takeMessageByClient a b c) k) →
    ∀ j row k, p.threads j ≠ .ask (.createMessage row) k

section Key
variable {out : Outer} {db db' : Database} {r : SendMessageReq} {c : Nat} {u k : String}

def SendMessageReq.HasKey (r : SendMessageReq) (c : Nat) (u k : String) : Prop :=
  r.conversationId = c ∧ r.uuid = u ∧ r.clientMsgId = k

theorem find_key (hr : r.HasKey c u k) : db.messages.find? (fun m =>
    m.conversationID = r.conversationId ∧ m.sendUUID = r.uuid ∧ m.clientMsgID = r.clientMsgId) =
      (db.withKey c u k).head? := by
  obtain ⟨rfl,rfl,rfl⟩ := hr
  rw [Database.withKey,List.head?_filter]

theorem withKey_congr (h : db'.messages = db.messages) : db'.withKey c u k = db.withKey c u k := by
  rw [Database.withKey,h]
  rfl

theorem withKey_inserted (hr : r.HasKey c u k) {msg : ChatMessage}
    (h : db.createMessage out r.message = (.ok msg,db')) :
    db.withKey c u k = [] ∧ db'.withKey c u k = [msg] ∧ msg.clientMsgID = k := by
  obtain ⟨rfl,rfl,rfl⟩ := hr
  obtain ⟨hfree,rfl,rfl⟩ := createMessage_ok h
  have hnone : db.withKey r.conversationId r.uuid r.clientMsgId = [] := by
    rw [Database.withKey,List.filter_eq_nil_iff]
    intro m hm
    simpa [SameMessageKey,SendMessageReq.message] using hfree m hm
  refine ⟨hnone,?_,rfl⟩
  rw [Database.withKey] at hnone ⊢
  rw [List.filter_append,hnone,List.nil_append]
  simp [SendMessageReq.message]

theorem withKey_duplicate (hr : r.HasKey c u k) {e : DBError}
    (h : db.createMessage out r.message = (.error e,db')) : db.withKey c u k ≠ [] := by
  obtain ⟨rfl,rfl,rfl⟩ := hr
  obtain ⟨⟨m,hm,hkey⟩,-⟩ := createMessage_error h
  have hin : m ∈ db.withKey r.conversationId r.uuid r.clientMsgId :=
    List.mem_filter.mpr ⟨hm,by simpa [SameMessageKey,SendMessageReq.message] using hkey⟩
  exact List.ne_nil_of_mem hin

end Key

section Retries
variable {ι : Type} {out : Outer} {db db' : Database} {c : Nat} {u k : String}
  {req : ι → SendMessageReq} {stages : ι → Stage} {log : List (ι × Stmt)} {i : ι} {q : Stmt}
  {st' : Stage}

structure Retrying (req : ι → SendMessageReq) (c : Nat) (u : String) (db : Database)
    (stages : ι → Stage) (log : List (ι × Stmt)) : Prop extends Sends req stages log where
  member : db.IsMember c u

structure Waiting (c : Nat) (u k : String) (db : Database) (stages : ι → Stage) : Prop where
  noRow : db.withKey c u k = []
  undecided : ∀ i, (stages i).Undecided
  single : ∀ i j, (stages i).Inserting → (stages j).Inserting → i = j

def sentAnswer (row : ChatMessage) (k : String) : Except ErrCode Response :=
  .ok (.sent row.id k row.createdAt)

/-- A stage that does not lead away from the answer `row`. -/
def Stage.Settles (row : ChatMessage) (k : String) : Stage → Prop
  | .insert _ => False
  | .point _ msg => msg = row
  | .respond result _ => result = sentAnswer row k
  | _ => True

structure Answering (c : Nat) (u k : String) (row : ChatMessage) (db : Database)
    (stages : ι → Stage) (log : List (ι × Stmt)) : Prop where
  oneRow : db.withKey c u k = [row]
  clientMsgID : row.clientMsgID = k
  settles : ∀ i, (stages i).Settles row k
  answers : ∀ i result, (i,Stmt.respond result) ∈ log → result = sentAnswer row k

def Failing (c : Nat) (u k : String) (db : Database) (stages : ι → Stage)
    (log : List (ι × Stmt)) : Prop :=
  (∃ i, (stages i).Inserting ∧ db.withKey c u k ≠ []) ∨
  (∃ i j, i ≠ j ∧ (stages i).Inserting ∧ (stages j).Inserting) ∨
  Gives (fun result => ∃ e, result = .error e) stages log

/-- No answer was given before, and none is given by this statement but `answer`. -/
theorem answers_concat {answer : Except ErrCode Response}
    (h : ∀ i result, (i,Stmt.respond result) ∈ log → result = answer)
    (hq : ∀ result, q = .respond result → result = answer) :
    ∀ j result, (j,Stmt.respond result) ∈ log ++ [(i,q)] → result = answer := by
  intro j result hlog
  rw [List.mem_append,List.mem_singleton] at hlog
  rcases hlog with hlog | hlog
  · exact h j result hlog
  · exact hq result (Prod.mk.inj hlog).2.symm

theorem Stage.settles_of_returned {st : Stage} (row : ChatMessage) (h : st.Returned) :
    st.Settles row k := by
  cases st <;> first | exact trivial | exact h.elim

theorem Stage.settles_of_undecided {st : Stage} (row : ChatMessage) (h : st.Undecided)
    (hins : ¬ st.Inserting) : st.Settles row k := by
  cases st <;> first | exact trivial | exact h.elim | exact (hins trivial).elim

theorem Step.withKey_ne_nil {st : Stage} (hs : Step out db st q st' db')
    (h : db.withKey c u k ≠ []) : db'.withKey c u k ≠ [] := by
  rcases hs.messages with hmessages | ⟨r,msg,-,-,-,hcreate⟩
  · rwa [withKey_congr hmessages]
  · obtain ⟨-,-,rfl⟩ := createMessage_ok hcreate
    rw [Database.withKey,List.filter_append]
    exact List.append_ne_nil_of_left_ne_nil h _

theorem Retrying.inserting (hreq : ∀ i, (req i).HasKey c u k)
    (hbase : Retrying req c u db stages log) (hi : (stages i).Inserting)
    (hs : Step out db (stages i) q st' db') :
    (db.withKey c u k = [] ∧ db'.withKey c u k ≠ []) ∨
      ∃ e, st' = .respond (.error e) .finished := by
  have hsend := hbase.sending i
  generalize stages i = st at hs hi hsend
  cases hsend with
  | insert =>
    cases hs with
    | inserted _ msg db' hcreate =>
      obtain ⟨hnone,hrow,-⟩ := withKey_inserted (hreq i) hcreate
      refine Or.inl ⟨hnone,?_⟩
      rw [hrow]
      exact List.cons_ne_nil msg []
    | duplicate _ e db' hcreate => exact Or.inr ⟨_,rfl⟩
  | check => exact hi.elim
  | lookUp => exact hi.elim
  | point msg => exact hi.elim
  | respond result goroutine hg => exact hi.elim
  | returned st hret => exact (hret.not_undecided hi.undecided).elim

theorem Stage.inserting_iff (st : Stage) :
    st.Inserting ↔ ∃ row next, st.program = .ask (.createMessage row) next := by
  constructor
  · intro h
    cases st <;> first | exact h.elim | exact ⟨_,_,rfl⟩
  · rintro ⟨row,next,h⟩
    obtain ⟨r,rfl⟩ := insert_of_ask h
    exact trivial

theorem noRace_iff {p : Calls ι} (hat : At p stages) (hbase : Retrying req c u db stages log) :
    NoRace p i ↔ (stages i = .lookUp (req i) → ∀ j, ¬ (stages j).Inserting) := by
  have hlook : (∃ a b c k, p.threads i = .ask (.takeMessageByClient a b c) k) ↔
      stages i = .lookUp (req i) := by
    constructor
    · rintro ⟨a,b,c,next,hask⟩
      rw [hat i] at hask
      obtain ⟨r,hr⟩ := lookUp_of_ask hask
      have hsend := hbase.sending i
      rw [hr] at hsend ⊢
      cases hsend with
      | lookUp => rfl
      | returned _ hret => exact hret.elim
    · intro hst
      rw [hat i,hst]
      exact ⟨_,_,_,_,rfl⟩
  rw [NoRace,hlook]
  refine imp_congr_right fun _ => forall_congr' fun j => ?_
  rw [Stage.inserting_iff,hat j]
  simp only [not_exists,ne_eq]

variable [DecidableEq ι]

theorem Retrying.step (h : Retrying req c u db stages log)
    (hs : Step out db (stages i) q st' db') :
    Retrying req c u db' (Function.update stages i st') (log ++ [(i,q)]) :=
  ⟨h.toSends.step hs,hs.isMember h.member⟩

theorem Answering.step {row : ChatMessage} (hreq : ∀ i, (req i).HasKey c u k)
    (hbase : Retrying req c u db stages log) (h : Answering c u k row db stages log)
    (hs : Step out db (stages i) q st' db') :
    Answering c u k row db' (Function.update stages i st') (log ++ [(i,q)]) := by
  have hi := h.settles i
  have hkeep : db'.messages = db.messages := by
    rcases hs.messages with hmessages | ⟨r,msg,hst,-⟩
    · exact hmessages
    · rw [hst] at hi
      exact hi.elim
  have hstep : st'.Settles row k ∧ ∀ result, q = .respond result → result = sentAnswer row k := by
    have hsend := hbase.sending i
    generalize stages i = st at hs hi hsend
    cases hsend with
    | check =>
      cases hs with
      | sendMember => exact ⟨trivial,nofun⟩
      | sendStranger _ hmem =>
        obtain ⟨hc,hu,-⟩ := hreq i
        rw [hc,hu] at hmem
        exact (find_live_eq_none hmem hbase.member).elim
    | lookUp =>
      cases hs with
      | hit _ exist hexist =>
        rw [find_key (hreq i),h.oneRow] at hexist
        cases hexist
        exact ⟨by rw [Stage.Settles,h.clientMsgID,sentAnswer],nofun⟩
      | miss _ hexist =>
        rw [find_key (hreq i),h.oneRow] at hexist
        cases hexist
    | insert => exact hi.elim
    | point msg =>
      cases hs
      cases hi
      exact ⟨by rw [Stage.Settles,h.clientMsgID,sentAnswer],nofun⟩
    | respond result goroutine hg =>
      cases hs
      exact ⟨Stage.settles_of_returned row hg,by rintro _ ⟨⟩; exact hi⟩
    | returned st hst =>
      obtain ⟨hst',hq⟩ := hs.returned hst
      exact ⟨Stage.settles_of_returned row hst',fun result hr => (hq result hr).elim⟩
  exact ⟨(withKey_congr hkeep).trans h.oneRow,h.clientMsgID,
    forall_updated (P := fun _ st => st.Settles row k) h.settles hstep.1,
    answers_concat h.answers hstep.2⟩

theorem inserting_updated {j : ι} (h : (Function.update stages i st' j).Inserting) :
    (j = i ∧ st'.Inserting) ∨ (j ≠ i ∧ (stages j).Inserting) := by
  by_cases hj : j = i
  · subst hj
    rw [Function.update_self] at h
    exact Or.inl ⟨rfl,h⟩
  · rw [Function.update_of_ne hj] at h
    exact Or.inr ⟨hj,h⟩

/-- The first call to insert the row makes it the answer. -/
theorem Waiting.step (hreq : ∀ i, (req i).HasKey c u k) (hbase : Retrying req c u db stages log)
    (h : Waiting c u k db stages)
    (hrace : stages i = .lookUp (req i) → ∀ j, ¬ (stages j).Inserting)
    (hs : Step out db (stages i) q st' db') :
    Waiting c u k db' (Function.update stages i st') ∨
      ∃ row, Answering c u k row db' (Function.update stages i st') (log ++ [(i,q)]) := by
  have hsilent : ∀ j result, (j,Stmt.respond result) ∉ log :=
    fun j => hbase.silent j fun hret => hret.not_undecided (h.undecided j)
  have hi := h.undecided i
  have hsend := hbase.sending i
  generalize hst : stages i = st at hs hi hsend
  cases hsend with
  | point msg => exact hi.elim
  | respond result goroutine hg => exact hi.elim
  | returned st hret => exact (hret.not_undecided hi).elim
  | check =>
    cases hs with
    | sendStranger _ hmem =>
      obtain ⟨hc,hu,-⟩ := hreq i
      rw [hc,hu] at hmem
      exact (find_live_eq_none hmem hbase.member).elim
    | sendMember =>
      refine Or.inl ⟨h.noRow,forall_updated (P := fun _ st => st.Undecided) h.undecided trivial,?_⟩
      intro j j' hj hj'
      rcases inserting_updated hj with ⟨-,hno⟩ | ⟨-,hj⟩
      · exact hno.elim
      rcases inserting_updated hj' with ⟨-,hno⟩ | ⟨-,hj'⟩
      · exact hno.elim
      exact h.single j j' hj hj'
  | lookUp =>
    cases hs with
    | hit _ exist hexist =>
      rw [find_key (hreq i),h.noRow] at hexist
      cases hexist
    | miss _ hexist =>
      refine Or.inl ⟨h.noRow,forall_updated (P := fun _ st => st.Undecided) h.undecided trivial,?_⟩
      have honly : ∀ j, (Function.update stages i (.insert (req i)) j).Inserting → j = i := by
        intro j hj
        rcases inserting_updated hj with ⟨hj,-⟩ | ⟨-,hj⟩
        · exact hj
        · exact (hrace hst j hj).elim
      intro j j' hj hj'
      exact (honly j hj).trans (honly j' hj').symm
  | insert =>
    cases hs with
    | duplicate _ e db' hcreate => exact (withKey_duplicate (hreq i) hcreate h.noRow).elim
    | inserted _ msg db' hcreate =>
      obtain ⟨-,hrow,hk⟩ := withKey_inserted (hreq i) hcreate
      refine Or.inr ⟨msg,hrow,hk,?_,?_⟩
      · intro j
        by_cases hj : j = i
        · subst hj
          rw [Function.update_self]
          exact rfl
        · rw [Function.update_of_ne hj]
          refine Stage.settles_of_undecided msg (h.undecided j) fun hins => hj ?_
          exact h.single j i hins (hst ▸ trivial)
      · exact answers_concat (fun j result hlog => (hsilent j result hlog).elim) nofun

theorem Failing.step (hreq : ∀ i, (req i).HasKey c u k) (hbase : Retrying req c u db stages log)
    (h : Failing c u k db stages log) (hs : Step out db (stages i) q st' db') :
    Failing c u k db' (Function.update stages i st') (log ++ [(i,q)]) := by
  have hother : ∀ {j}, j ≠ i → (stages j).Inserting →
      (Function.update stages i st' j).Inserting := by
    intro j hj hins
    rwa [Function.update_of_ne hj]
  have hfail : ∀ e, st' = .respond (.error e) .finished →
      Failing c u k db' (Function.update stages i st') (log ++ [(i,q)]) := by
    intro e hst'
    refine Or.inr (Or.inr ⟨i,.error e,⟨e,rfl⟩,Or.inl ⟨.finished,?_⟩⟩)
    rw [Function.update_self,hst']
  rcases h with ⟨j,hins,hrow⟩ | ⟨j,j',hne,hins,hins'⟩ | hgives
  · by_cases hj : j = i
    · subst hj
      rcases hbase.inserting hreq hins hs with ⟨hnone,-⟩ | ⟨e,hst'⟩
      · exact (hrow hnone).elim
      · exact hfail e hst'
    · exact Or.inl ⟨j,hother hj hins,hs.withKey_ne_nil hrow⟩
  · -- the first of the two to insert leaves the other one behind
    wlog hi : j' ≠ i generalizing j j'
    · rw [not_not] at hi
      subst hi
      exact this j' j hne.symm hins' hins hne
    by_cases hj : j = i
    · subst hj
      rcases hbase.inserting hreq hins hs with ⟨-,hrow⟩ | ⟨e,hst'⟩
      · exact Or.inl ⟨j',hother hi hins',hrow⟩
      · exact hfail e hst'
    · exact Or.inr (Or.inl ⟨j,j',hne,hother hj hins,hother hi hins'⟩)
  · exact Or.inr (Or.inr (hgives.step hs))

def Served (req : ι → SendMessageReq) (c : Nat) (u k : String) (db : Database)
    (stages : ι → Stage) (log : List (ι × Stmt)) : Prop :=
  Retrying req c u db stages log ∧
    (Waiting c u k db stages ∨ ∃ row, Answering c u k row db stages log)

def Unserved (req : ι → SendMessageReq) (c : Nat) (u k : String) (db : Database)
    (stages : ι → Stage) (log : List (ι × Stmt)) : Prop :=
  Retrying req c u db stages log ∧ Failing c u k db stages log

end Retries

/-- There is one row with the key, and every answer is its ID. -/
def AnsweredAlike {ι : Type} (p : Calls ι) (c : Nat) (u k : String) : Prop :=
  ∃ row, p.state.withKey c u k = [row] ∧
    ∀ i result, (i,Stmt.respond result) ∈ p.log → result = .ok (.sent row.id k row.createdAt)

section Runs
variable {ι : Type} {out : Outer} {db : Database} {c : Nat} {u k : String}
  {req : ι → SendMessageReq}

theorem served_start (hvalid : ∀ i, ¬ (req i).Invalid) (hmember : db.IsMember c u)
    (hkey : (db.withKey c u k).length ≤ 1) :
    Staged (Served req c u k) (startCalls db fun i => .send (req i)) := by
  refine ⟨_,at_start db _,⟨sends_start req,hmember⟩,?_⟩
  have hstart : ∀ i, Call.start (.send (req i)) = .sendCheck (req i) := by
    intro i
    rw [Call.start,if_neg (hvalid i)]
  rcases hrow : db.withKey c u k with _ | ⟨row,_ | ⟨row',rest⟩⟩
  · refine Or.inl ⟨hrow,?_,?_⟩
    · intro i
      rw [hstart i]
      exact trivial
    · intro i j hi
      rw [hstart i] at hi
      exact hi.elim
  · have hin : row ∈ db.withKey c u k := by rw [hrow]; exact List.mem_singleton_self row
    have hrowkey : row.clientMsgID = k := by
      have hfilter := (List.mem_filter.mp hin).2
      simp only [decide_eq_true_eq] at hfilter
      exact hfilter.2.2
    refine Or.inr ⟨row,hrow,hrowkey,?_,?_⟩
    · intro i
      rw [hstart i]
      exact trivial
    · exact fun _ _ hin => (List.not_mem_nil hin).elim
  · rw [hrow] at hkey
    simp at hkey

variable [DecidableEq ι]

theorem Served.next (out : Outer) (hreq : ∀ i, (req i).HasKey c u k)
    (p : Calls ι) (i : ι) (q : Stmt)
    (next : q.Answer → ChatM Unit) (h : Staged (Served req c u k) p) (hrace : NoRace p i)
    (hask : p.threads i = .ask q next) : Staged (Served req c u k) (p.next (exec out) i) := by
  refine h.step out hask fun stages st' db' hat hJ hs => ⟨hJ.1.step hs,?_⟩
  rcases hJ.2 with hwait | ⟨row,hanswer⟩
  · exact hwait.step hreq hJ.1 ((noRace_iff hat hJ.1).mp hrace) hs
  · exact Or.inr ⟨row,hanswer.step hreq hJ.1 hs⟩

theorem Served.spoil (hreq : ∀ i, (req i).HasKey c u k) (p : Calls ι) (i : ι)
    (h : Staged (Served req c u k) p) (hrace : ¬ NoRace p i) :
    Staged (Unserved req c u k) (p.next (exec out) i) := by
  obtain ⟨stages,hat,hJ⟩ := h
  have hlook := hrace
  rw [noRace_iff hat hJ.1] at hlook
  push Not at hlook
  obtain ⟨hlook,j,hins⟩ := hlook
  have hask : p.threads i = (Stage.lookUp (req i)).program := by rw [hat i,hlook]
  refine Staged.step (J := fun db stages' log => Served req c u k db stages' log ∧ stages' = stages)
    out ⟨stages,hat,hJ,rfl⟩ hask ?_
  rintro stages' st' db' - ⟨hJ,rfl⟩ hs
  refine ⟨hJ.1.step hs,?_⟩
  rcases hJ.2 with hwait | ⟨row,hanswer⟩
  · have hji : j ≠ i := by
      rintro rfl
      rw [hlook] at hins
      exact hins
    rw [hlook] at hs
    cases hs with
    | hit _ exist hexist =>
      rw [find_key (hreq i),hwait.noRow] at hexist
      cases hexist
    | miss _ hexist =>
      refine Or.inr (Or.inl ⟨i,j,hji.symm,?_,?_⟩)
      · rw [Function.update_self]
        exact trivial
      · rwa [Function.update_of_ne hji]
  · have hsettles := hanswer.settles j
    cases hst : stages' j <;> rw [hst] at hins hsettles <;>
      first | exact hsettles.elim | exact hins.elim

theorem Unserved.next (hreq : ∀ i, (req i).HasKey c u k) (p : Calls ι) (i : ι)
    (h : Staged (Unserved req c u k) p) : Staged (Unserved req c u k) (p.next (exec out) i) :=
  h.next out fun _ _ _ _ _ hJ hs => ⟨hJ.1.step hs,hJ.2.step hreq hJ.1 hs⟩

/-- When all calls have returned, the retries got the one row as their answer just
if none of them looked it up while another was about to insert it. -/
theorem retries_answered_alike_iff_no_race [Nonempty ι] (out : Outer) (db : Database) (c : Nat)
    (u k : String) (req : ι → SendMessageReq) (hreq : ∀ i, (req i).HasKey c u k)
    (hvalid : ∀ i, ¬ (req i).Invalid) (hmember : db.IsMember c u)
    (hkey : (db.withKey c u k).length ≤ 1) (schedule : List ι)
    (hdone : ∀ i, ∃ result, (i,Stmt.respond result) ∈
      (runCalls out db (fun i => .send (req i)) schedule).log) :
    AnsweredAlike (runCalls out db (fun i => .send (req i)) schedule) c u k ↔
      Pool.Turns (exec out) NoRace (startCalls db fun i => .send (req i)) schedule := by
  have hcases := Pool.run_dichotomy (exec out) (served_start hvalid hmember hkey)
    (Served.next out hreq) (Served.spoil hreq) (Unserved.next hreq) schedule
  rcases hcases with ⟨hturns,stages,-,hbase,hserved⟩ | ⟨hturns,stages,-,hbase,hfailing⟩
  · refine iff_of_true ?_ hturns
    rcases hserved with hwait | ⟨row,hanswer⟩
    · obtain ⟨i⟩ := ‹Nonempty ι›
      exact ((hbase.returned hdone i).not_undecided (hwait.undecided i)).elim
    · exact ⟨row,hanswer.oneRow,hanswer.answers⟩
  · refine iff_of_false ?_ hturns
    rintro ⟨row,-,hanswers⟩
    rcases hfailing with ⟨i,hins,-⟩ | ⟨i,j,-,hins,-⟩ | ⟨i,_,⟨e,rfl⟩,⟨goroutine,hst⟩ | hlog⟩
    · exact (hbase.returned hdone i).not_undecided hins.undecided
    · exact (hbase.returned hdone i).not_undecided hins.undecided
    · have hret := hbase.returned hdone i
      rw [hst] at hret
      exact hret
    · cases hanswers i _ hlog

end Runs

theorem retries_answered_alike_iff_no_race_in_turn :
    AnsweredAlike (runCalls countingOuter pairDatabase (fun _ : Bool => .send (greeting true))
      [true,true,true,true,true,false,false,false]) 1 "a" "k" ↔
    Pool.Turns (exec countingOuter) NoRace (startCalls pairDatabase fun _ => .send (greeting true))
      [true,true,true,true,true,false,false,false] := by
  refine retries_answered_alike_iff_no_race countingOuter pairDatabase 1 "a" "k"
    (fun _ => greeting true) (fun _ => ⟨rfl,rfl,rfl⟩) (fun _ => by decide) ?_ (by decide) _ ?_
  · exact ⟨{ memberRow 1 "a" with id := 1 },by decide,rfl,rfl,rfl⟩
  · intro i
    refine ⟨.ok (.sent 1 "k" 0),mem_responses.mp ?_⟩
    have hresponses : responses (runCalls countingOuter pairDatabase
        (fun _ : Bool => .send (greeting true)) [true,true,true,true,true,false,false,false]).log =
        [(true,.ok (.sent 1 "k" 0)),(false,.ok (.sent 1 "k" 0))] := rfl
    rw [hresponses]
    cases i <;> simp

/-- Both look up before either inserts: the second insert breaks the unique key. -/
theorem retry_that_races_fails :
    (greeting true).HasKey 1 "a" "k" ∧ ¬ (greeting true).Invalid ∧
    pairDatabase.IsMember 1 "a" ∧ pairDatabase.withKey 1 "a" "k" = [] ∧
    responses (runCalls countingOuter pairDatabase (fun _ : Bool => .send (greeting true))
      [true,false,true,false,true,false,true,true,false]).log =
      [(true,.ok (.sent 1 "k" 0)),(false,.error (.dataCreateFail .duplicatedKey))] ∧
    ¬ AnsweredAlike (runCalls countingOuter pairDatabase (fun _ : Bool => .send (greeting true))
      [true,false,true,false,true,false,true,true,false]) 1 "a" "k" := by
  refine ⟨⟨rfl,rfl,rfl⟩,by decide,?_,by decide,rfl,?_⟩
  · exact ⟨{ memberRow 1 "a" with id := 1 },by decide,rfl,rfl,rfl⟩
  · rintro ⟨row,-,hanswers⟩
    have hlog : (false,Stmt.respond (.error (.dataCreateFail .duplicatedKey))) ∈
        (runCalls countingOuter pairDatabase (fun _ : Bool => .send (greeting true))
          [true,false,true,false,true,false,true,true,false]).log :=
      mem_responses.mp (List.mem_of_mem_tail (List.mem_singleton_self _))
    cases hanswers false _ hlog

end Imy.Chat
