import Imy.Lib.Tally
import Imy.Chat.MemberCalls
set_option autoImplicit false

namespace Imy.Chat
open Imy.Lib

section Runs
variable {ι : Type} [DecidableEq ι]

def startMembers (db : Database) (calls : ι → MemberCall) : Calls ι :=
  ⟨db,fun i => serve (calls i).main,[]⟩

def runMembers (out : Outer) (db : Database) (calls : ι → MemberCall) (schedule : List ι) :
    Calls ι :=
  (startMembers db calls).run (exec out) schedule

/-- Nobody is brought in by two of the calls. -/
def Apart (calls : ι → MemberCall) : Prop :=
  ∀ i j, i ≠ j → ∀ u ∈ (calls i).added, u ∉ (calls j).added

def lists (i : ι) : ι × Stmt → Bool
  | (j,.findMembers _) => j = i
  | _ => false

def readsCount (i : ι) : ι × Stmt → Bool
  | (j,.getConversation _) => j = i
  | _ => false

def Stmt.Inserts : Stmt → Prop
  | .createMembers _ => True
  | _ => False

def Stmt.Deletes : Stmt → Prop
  | .deleteMember _ => True
  | _ => False

def Stmt.Counts : Stmt → Prop
  | .updateConversation _ _ => True
  | _ => False

/-- Another call has inserted members since `i` listed them. -/
def Missed (log : List (ι × Stmt)) (i : ι) : Prop :=
  ∃ e ∈ since (lists i) log, e.1 ≠ i ∧ e.2.Inserts

def GoneSince (log : List (ι × Stmt)) (i : ι) : Set ι :=
  {j | ∃ e ∈ since (lists i) log, e.1 = j ∧ e.2.Deletes}

/-- The count was written since `i` read it. -/
def Stale (log : List (ι × Stmt)) (i : ι) : Prop :=
  ∃ e ∈ since (readsCount i) log, e.2.Counts

def Owes (calls : ι → MemberCall) (p : Calls ι) (i : ι) : Prop :=
  (∃ req, calls i = .remove req) ∧ ((∃ c k, p.threads i = .ask (.getConversation c) k) ∨
    ∃ row cols k, p.threads i = .ask (.updateConversation row cols) k)

/-- A row that is deleted is live. A count that `AddMembers` writes is that of a list
since when nobody else inserted members, and the removals that deleted one since then
are those that have not written the count. A count that `RemoveMember` writes is one
less than what nobody has written since it was read. -/
structure Settles (calls : ι → MemberCall) (p : Calls ι) (i : ι) : Prop where
  deletes : ∀ id k, p.threads i = .ask (.deleteMember id) k → ∃ m ∈ p.state.live, m.id = id
  adds : ∀ req row cols k, calls i = .add req →
    p.threads i = .ask (.updateConversation row cols) k →
    ¬ Missed p.log i ∧ ∀ j, j ∈ GoneSince p.log i ↔ Owes calls p j
  removes : ∀ req row cols k, calls i = .remove req →
    p.threads i = .ask (.updateConversation row cols) k → ¬ Stale p.log i

end Runs

abbrev MemberScene (ι : Type) := Scene ι Stmt (CallStage MemberStage) Database

def Stmt.Announces : Stmt → Prop
  | .findMembers _ | .sendJSON _ _ => True
  | _ => False

namespace MemberStage

def expects : CallStage MemberStage → Option Nat
  | .main (.insert _ existing _) => some existing
  | .main (.count _ existing toCreate) => some (existing+toCreate.length)
  | _ => none

def holds : CallStage MemberStage → Option Nat
  | .main (.write _ conv) => some conv.memberCount.toNat
  | _ => none

def Adding : CallStage MemberStage → Prop
  | .main (.count _ _ _) => True
  | _ => False

def Owing : CallStage MemberStage → Prop
  | .main (.read _) | .main (.write _ _) => True
  | _ => False

def BeforeInsert : CallStage MemberStage → Prop
  | .main (.caller _) | .main (.list _) | .main (.insert _ _ _) => True
  | _ => False

def BeforeDelete : CallStage MemberStage → Prop
  | .main (.caller _) | .main (.find _) | .main (.delete _ _) => True
  | _ => False

def Of (c : Nat) : MemberCall → CallStage MemberStage → Prop
  | call,.main (.caller call') => call' = call
  | .add req,.main (.list req') => req' = req
  | .add req,.main (.insert req' _ toCreate) =>
    req' = req ∧ toCreate.Nodup ∧ ∀ u ∈ toCreate, u ∈ req.memberUUIDs
  | .add req,.main (.count req' _ _) => req' = req
  | .remove req,.main (.find req') => req' = req
  | .remove req,.main (.delete req' _) => req' = req
  | .remove req,.main (.read req') => req' = req
  | .remove req,.main (.write req' conv) => req' = req ∧ conv.id = c ∧ 0 < conv.memberCount
  | _,.main _ => False
  | _,.respond _ goroutine => goroutine.Yields Stmt.Announces fun _ => True
  | _,.after goroutine => goroutine.Yields Stmt.Announces fun _ => True

end MemberStage

section Tally
variable {ι : Type} [DecidableEq ι] (c : Nat)

/-- The crowd are the live rows of the conversation. -/
def tally (r : Roster) (stages : ι → CallStage MemberStage) (log : List (ι × Stmt)) : Tally ι where
  crowd := (r.sitting c).length
  ever := r.seats.length
  count := (r.countOf c).toNat
  left := {j | ∃ e ∈ log, e.1 = j ∧ e.2.Deletes}
  owing := {j | MemberStage.Owing (stages j)}
  adding := {j | MemberStage.Adding (stages j)}
  expects := MemberStage.expects ∘ stages
  gone := GoneSince log
  missed := Missed log
  holds := MemberStage.holds ∘ stages
  stale := Stale log

structure Tallied (calls : ι → MemberCall) (sc : MemberScene ι) : Prop where
  keyed : Keyed sc.state
  silent : CallStage.Silent sc
  room : ∃ conv ∈ sc.state.conversations, conv.id = c
  stages : ∀ i, MemberStage.Of c (calls i) (sc.stages i)
  fresh : ∀ i, MemberStage.BeforeInsert (sc.stages i) → ∀ u ∈ (calls i).added,
    (c,u) ∉ sc.state.roster.seats.map Seat.key
  undeleted : ∀ i, MemberStage.BeforeDelete (sc.stages i) → ∀ e ∈ sc.log, e.1 = i → ¬ e.2.Deletes
  tagged : ∀ i req mem, sc.stages i = .main (.delete req mem) →
    ∃ m ∈ sc.state.members, m.id = mem.id ∧ m.conversationID = c
  fair : (tally c sc.state.roster sc.stages sc.log).Fair

end Tally

/-! What one more statement does to the tally. -/

section Log
variable {ι : Type} [DecidableEq ι] {log : List (ι × Stmt)} {i : ι} {q : Stmt}

/-- A statement that the tally does not look at. -/
def Stmt.Plain : Stmt → Prop
  | .findMembers _ | .createMembers _ | .deleteMember _ | .getConversation _
  | .updateConversation _ _ => False
  | _ => True

theorem lists_eq_false (hq : ∀ d, q ≠ .findMembers d) (j : ι) : lists j (i,q) = false := by
  cases q <;> first | rfl | exact (hq _ rfl).elim

theorem readsCount_eq_false (hq : ∀ d, q ≠ .getConversation d) (j : ι) :
    readsCount j (i,q) = false := by
  cases q <;> first | rfl | exact (hq _ rfl).elim

theorem goneSince_look (d : Nat) :
    GoneSince (log ++ [(i,Stmt.findMembers d)]) = Function.update (GoneSince log) i ∅ := by
  funext j
  ext k
  by_cases hj : j = i
  · subst hj
    simp [GoneSince,exists_since_concat,lists]
  · simp [GoneSince,exists_since_concat,lists,hj,Ne.symm hj,Stmt.Deletes]

theorem goneSince_delete (id : Nat) :
    GoneSince (log ++ [(i,Stmt.deleteMember id)]) = fun j => insert i (GoneSince log j) := by
  funext j
  ext k
  simp [GoneSince,exists_since_concat,lists,Stmt.Deletes,or_comm,eq_comm]

theorem goneSince_other (hlook : ∀ d, q ≠ .findMembers d) (hq : ¬ q.Deletes) :
    GoneSince (log ++ [(i,q)]) = GoneSince log := by
  funext j
  ext k
  simp [GoneSince,exists_since_concat,lists_eq_false hlook,hq]

theorem missed_look (d : Nat) :
    Missed (log ++ [(i,Stmt.findMembers d)]) = Function.update (Missed log) i False := by
  funext j
  by_cases hj : j = i
  · subst hj
    simp [Missed,exists_since_concat,lists]
  · simp [Missed,exists_since_concat,lists,hj,Ne.symm hj,Stmt.Inserts]

theorem missed_insert (rows : List ChatConversationMember) :
    Missed (log ++ [(i,Stmt.createMembers rows)]) = fun j => j ≠ i ∨ Missed log j := by
  funext j
  simp [Missed,exists_since_concat,lists,Stmt.Inserts,or_comm,eq_comm]

theorem missed_other (hlook : ∀ d, q ≠ .findMembers d) (hq : ¬ q.Inserts) :
    Missed (log ++ [(i,q)]) = Missed log := by
  funext j
  simp [Missed,exists_since_concat,lists_eq_false hlook,hq]

theorem stale_read (d : Nat) :
    Stale (log ++ [(i,Stmt.getConversation d)]) = Function.update (Stale log) i False := by
  funext j
  by_cases hj : j = i
  · subst hj
    simp [Stale,exists_since_concat,readsCount]
  · simp [Stale,exists_since_concat,readsCount,hj,Ne.symm hj,Stmt.Counts]

theorem stale_write (row : ChatConversation) (cols : List ConversationColumn) :
    Stale (log ++ [(i,Stmt.updateConversation row cols)]) = fun _ => True := by
  funext j
  simp [Stale,exists_since_concat,readsCount,Stmt.Counts]

theorem stale_other (hread : ∀ d, q ≠ .getConversation d) (hq : ¬ q.Counts) :
    Stale (log ++ [(i,q)]) = Stale log := by
  funext j
  simp [Stale,exists_since_concat,readsCount_eq_false hread,hq]

omit [DecidableEq ι] in
theorem left_delete (id : Nat) :
    {j | ∃ e ∈ log ++ [(i,Stmt.deleteMember id)], e.1 = j ∧ e.2.Deletes} =
      insert i {j | ∃ e ∈ log, e.1 = j ∧ e.2.Deletes} := by
  ext j
  simp [or_and_right,exists_or,Stmt.Deletes,or_comm,eq_comm]

omit [DecidableEq ι] in
theorem left_other (q : Stmt) (hq : ¬ q.Deletes) :
    {j | ∃ e ∈ log ++ [(i,q)], e.1 = j ∧ e.2.Deletes} = {j | ∃ e ∈ log, e.1 = j ∧ e.2.Deletes} := by
  ext j
  simp [or_and_right,exists_or,hq]

end Log

section Moves
variable {ι : Type} [DecidableEq ι] {c : Nat} {r r' : Roster} {stages : ι → CallStage MemberStage}
  {log : List (ι × Stmt)} {i : ι} {st : CallStage MemberStage} {q : Stmt}

structure Idle (st : CallStage MemberStage) : Prop where
  expects : MemberStage.expects st = none
  holds : MemberStage.holds st = none
  owing : ¬ MemberStage.Owing st
  adding : ¬ MemberStage.Adding st

theorem tally_plain (hi : Idle (stages i)) (hst : Idle st) (hq : q.Plain) :
    tally c r (Function.update stages i st) (log ++ [(i,q)]) = tally c r stages log := by
  have hlook : ∀ d, q ≠ .findMembers d := by
    rintro d rfl
    exact hq
  have hread : ∀ d, q ≠ .getConversation d := by
    rintro d rfl
    exact hq
  have hdelete : ¬ q.Deletes := by cases q <;> first | exact id | exact fun _ => hq
  have hinsert : ¬ q.Inserts := by cases q <;> first | exact id | exact fun _ => hq
  have hcount : ¬ q.Counts := by cases q <;> first | exact id | exact fun _ => hq
  simp only [tally,goneSince_other hlook hdelete,missed_other hlook hinsert,
    stale_other hread hcount,
    left_other q hdelete,update_comp_same (hst.expects.trans hi.expects.symm),
    update_comp_same (hst.holds.trans hi.holds.symm),
    setOf_update_same (iff_of_false hst.owing hi.owing),
    setOf_update_same (iff_of_false hst.adding hi.adding)]

theorem tally_look (hi : Idle (stages i)) (hholds : MemberStage.holds st = none)
    (howing : ¬ MemberStage.Owing st) (hadding : ¬ MemberStage.Adding st) (d : Nat) :
    tally c r (Function.update stages i st) (log ++ [(i,Stmt.findMembers d)]) =
      (tally c r stages log).look i (MemberStage.expects st) := by
  have hread : ∀ d', Stmt.findMembers d ≠ .getConversation d' := by simp
  simp only [tally,Tally.look,goneSince_look,missed_look,stale_other hread id,
    left_other (.findMembers d) id,
    Function.comp_update MemberStage.expects,update_comp_same (hholds.trans hi.holds.symm),
    setOf_update_same (iff_of_false howing hi.owing),
    setOf_update_same (iff_of_false hadding hi.adding)]

theorem tally_enter {req : AddMembersReq} {existing : Nat} {toCreate : List String}
    (hi : stages i = .main (.insert req existing toCreate)) (rows : List ChatConversationMember) :
    tally c (r.enter c toCreate) (Function.update stages i (.main (.count req existing toCreate)))
      (log ++ [(i,Stmt.createMembers rows)]) = (tally c r stages log).enter i toCreate.length := by
  have hlook : ∀ d, Stmt.createMembers rows ≠ .findMembers d := by simp
  have hread : ∀ d, Stmt.createMembers rows ≠ .getConversation d := by simp
  have hexpects : MemberStage.expects (.main (.count req existing toCreate)) =
      ((MemberStage.expects ∘ stages) i).map (·+toCreate.length) := by
    rw [Function.comp_apply,hi]
    rfl
  have hcrowd : ((r.enter c toCreate).sitting c).length = (r.sitting c).length+toCreate.length := by
    rw [Roster.sitting,Roster.enter,Seat.sitting_enter,List.length_append]
    rfl
  have hever : (r.enter c toCreate).seats.length = r.seats.length+toCreate.length := by
    simp [Roster.enter,Seat.enter]
  have howing : MemberStage.Owing (.main (.count req existing toCreate)) ↔
      MemberStage.Owing (stages i) := by
    rw [hi]
    exact Iff.rfl
  have hholds : MemberStage.holds (.main (.count req existing toCreate)) =
      MemberStage.holds (stages i) := by
    rw [hi]
    rfl
  simp only [tally,Tally.enter,goneSince_other hlook id,missed_insert,stale_other hread id,
    left_other (.createMembers rows) id,Function.comp_update MemberStage.expects,hexpects,
      update_comp_same hholds,
    setOf_update_same howing,hcrowd,hever,
    setOf_update_of_pos (P := MemberStage.Adding)
      (x := .main (.count req existing toCreate)) trivial]
  rfl

theorem tally_write {req : AddMembersReq} {existing : Nat} {toCreate : List String}
    (hi : stages i = .main (.count req existing toCreate)) (hst : Idle st) {row : ChatConversation}
    {cols : List ConversationColumn} {n : UInt32} (hcount : (r.setCount c n).countOf c = n) :
    tally c (r.setCount c n) (Function.update stages i st)
      (log ++ [(i,Stmt.updateConversation row cols)]) = (tally c r stages log).write i n.toNat := by
  have hlook : ∀ d, Stmt.updateConversation row cols ≠ .findMembers d := by simp
  have howing : ¬ MemberStage.Owing (stages i) := by
    rw [hi]
    exact id
  have hholds : MemberStage.holds (stages i) = none := by
    rw [hi]
    rfl
  simp only [tally,Tally.write,goneSince_other hlook id,missed_other hlook id,stale_write,
    left_other (.updateConversation row cols) id,
      Function.comp_update MemberStage.expects,hst.expects,
    update_comp_same (hst.holds.trans hholds.symm),setOf_update_same
      (iff_of_false hst.owing howing),
    setOf_update_of_neg hst.adding,hcount]
  rfl

theorem tally_leave {req : RemoveMemberReq} {u : String} (hi : Idle (stages i))
    (hcrowd : ((r.leave c u).sitting c).length+1 = (r.sitting c).length) (id : Nat) :
    tally c (r.leave c u) (Function.update stages i (.main (.read req)))
      (log ++ [(i,Stmt.deleteMember id)]) = (tally c r stages log).leave i := by
  have hlook : ∀ d, Stmt.deleteMember id ≠ .findMembers d := by simp
  have hread : ∀ d, Stmt.deleteMember id ≠ .getConversation d := by simp
  have hever : (r.leave c u).seats.length = r.seats.length := by simp [Roster.leave,Seat.leave]
  have hexpects : MemberStage.expects (.main (.read req)) = MemberStage.expects (stages i) :=
    hi.expects.symm
  have hholds : MemberStage.holds (.main (.read req)) = MemberStage.holds (stages i) :=
    hi.holds.symm
  have hadding : MemberStage.Adding (.main (.read req)) ↔ MemberStage.Adding (stages i) :=
    iff_of_false (fun h => h) hi.adding
  have hless : ((r.leave c u).sitting c).length = (r.sitting c).length-1 := by omega
  simp only [tally,Tally.leave,goneSince_delete,missed_other hlook (fun h => h),
    stale_other hread (fun h => h),left_delete,
    update_comp_same hexpects,update_comp_same hholds,setOf_update_same hadding,hever,hless,
    setOf_update_of_pos (P := MemberStage.Owing) (x := .main (.read req)) trivial]
  rfl

theorem tally_read {req : RemoveMemberReq} (hi : stages i = .main (.read req))
    {conv : ChatConversation} (hcount : conv.memberCount = r.countOf c) (d : Nat) :
    tally c r (Function.update stages i (.main (.write req conv)))
      (log ++ [(i,Stmt.getConversation d)]) = (tally c r stages log).read i := by
  have hlook : ∀ d', Stmt.getConversation d ≠ .findMembers d' := by simp
  have hexpects : MemberStage.expects (.main (.write req conv)) =
      MemberStage.expects (stages i) := by
    rw [hi]
    rfl
  have howing : MemberStage.Owing (.main (.write req conv)) ↔ MemberStage.Owing (stages i) := by
    rw [hi]
    exact Iff.rfl
  have hadding : MemberStage.Adding (.main (.write req conv)) ↔ MemberStage.Adding (stages i) := by
    rw [hi]
    exact Iff.rfl
  have hholds : MemberStage.holds (.main (.write req conv)) = some (r.countOf c).toNat := by
    rw [← hcount]
    rfl
  simp only [tally,Tally.read,goneSince_other hlook id,missed_other hlook id,stale_read,
    left_other (.getConversation d) id,update_comp_same hexpects,
      Function.comp_update MemberStage.holds,hholds,
    setOf_update_same howing,setOf_update_same hadding]

theorem tally_skip {req : RemoveMemberReq} (hi : stages i = .main (.read req)) (hst : Idle st)
    (d : Nat) : tally c r (Function.update stages i st) (log ++ [(i,Stmt.getConversation d)]) =
      (tally c r stages log).skip i := by
  have hlook : ∀ d', Stmt.getConversation d ≠ .findMembers d' := by simp
  have hexpects : MemberStage.expects (stages i) = none := by
    rw [hi]
    rfl
  have hholds : MemberStage.holds (stages i) = none := by
    rw [hi]
    rfl
  have hadding : ¬ MemberStage.Adding (stages i) := by
    rw [hi]
    exact id
  simp only [tally,Tally.skip,goneSince_other hlook id,missed_other hlook id,stale_read,
    left_other (.getConversation d) id,update_comp_same (hst.expects.trans hexpects.symm),
    update_comp_same (hst.holds.trans hholds.symm),setOf_update_of_neg hst.owing,
    setOf_update_same (iff_of_false hst.adding hadding)]

theorem tally_settle {req : RemoveMemberReq} {conv : ChatConversation}
    (hi : stages i = .main (.write req conv)) (hst : Idle st) {row : ChatConversation}
    {cols : List ConversationColumn} {n : UInt32} (hcount : (r.setCount c n).countOf c = n) :
    tally c (r.setCount c n) (Function.update stages i st)
      (log ++ [(i,Stmt.updateConversation row cols)]) =
        (tally c r stages log).settle i n.toNat := by
  have hlook : ∀ d, Stmt.updateConversation row cols ≠ .findMembers d := by simp
  have hexpects : MemberStage.expects (stages i) = none := by
    rw [hi]
    rfl
  have hadding : ¬ MemberStage.Adding (stages i) := by
    rw [hi]
    exact id
  simp only [tally,Tally.settle,goneSince_other hlook id,missed_other hlook id,stale_write,
    left_other (.updateConversation row cols) id,update_comp_same (hst.expects.trans hexpects.symm),
    Function.comp_update MemberStage.holds,hst.holds,setOf_update_of_neg hst.owing,
    setOf_update_same (iff_of_false hst.adding hadding),hcount]
  rfl

end Moves

end Imy.Chat
