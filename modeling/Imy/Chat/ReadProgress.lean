import Imy.Chat.Stages
set_option autoImplicit false

namespace Imy.Chat
open Imy.Lib

def Database.lastRead (db : Database) (c : Nat) (u : String) : Option Nat :=
  (db.member c u).map (·.lastReadMessageID)

/-- The turn does not take the read progress back. -/
def NeverBack {ι : Type} [DecidableEq ι] (out : Outer) (c : Nat) (u : String) (p : Calls ι)
    (i : ι) : Prop :=
  ∀ a ∈ p.state.lastRead c u, ∀ b ∈ (p.next (exec out) i).state.lastRead c u, a ≤ b

def takesRow {ι : Type} [DecidableEq ι] (i : ι) : ι × Stmt → Bool
  | (j,.takeMember _ _) => j = i
  | _ => false

/-- A call that is about to write has not been overtaken, since it read the row, by
one that went further. -/
def NotOvertaken {ι : Type} [DecidableEq ι] (req : ι → ReadMessagesReq) (p : Calls ι)
    (i : ι) : Prop :=
  (∃ row cols k, p.threads i = .ask (.updateMember row cols) k) →
    ∀ j row cols, (j,.updateMember row cols) ∈ since (takesRow i) p.log →
      (req j).upToMessageId ≤ (req i).upToMessageId

def Stage.Announcing : Stage → Prop
  | .readers _ _ _ _ | .readStamp _ _ _ _ _ | .announce _ _ _ _ _ | .finished => True
  | _ => False

inductive Advancing (req : ReadMessagesReq) (mem : ChatConversationMember) : Stage → Prop where
  | validate : Advancing req mem (.validate req mem)
  | count : Advancing req mem (.count req mem)
  | stamp (cnt : Nat) : Advancing req mem (.stamp req mem cnt)
  | store (cnt : Nat) (lastReadAt : Int) : Advancing req mem (.store req mem cnt lastReadAt)

inductive Reading (req : ReadMessagesReq) : Stage → Prop where
  | check : Reading req (.readCheck req)
  | advancing (mem : ChatConversationMember) (st : Stage) (h : Advancing req mem st) :
      Reading req st
  | respond (result : Except ErrCode Response) (goroutine : Stage) (h : goroutine.Announcing) :
      Reading req (.respond result goroutine)
  | announcing (st : Stage) (h : st.Announcing) : Reading req st

section Stages
variable {out : Outer} {db db' : Database} {st st' : Stage} {q : Stmt} {req : ReadMessagesReq}

theorem Reading.start (req : ReadMessagesReq) : Reading req (Call.start (.read req)) := by
  rw [Call.start]
  split
  · exact .respond _ _ trivial
  · exact .check

def Stmt.Aside (q : Stmt) : Prop :=
  (∀ row cols, q ≠ .updateMember row cols) ∧ ∀ c u, q ≠ .takeMember c u

theorem Step.announcing (h : Step out db st q st' db') (hst : st.Announcing) :
    st'.Announcing ∧ db'.members = db.members ∧ q.Aside := by
  cases h <;> first | exact hst.elim | exact ⟨trivial,rfl,by simp [Stmt.Aside]⟩

theorem Stage.Announcing.not_advancing {mem : ChatConversationMember} (h : st.Announcing) :
    ¬ Advancing req mem st := by
  rintro ⟨⟩ <;> exact h

theorem Reading.step (h : Reading req st) (hs : Step out db st q st' db') :
    st = .readCheck req ∨ (∃ mem cnt lastReadAt, st = .store req mem cnt lastReadAt) ∨
      (Reading req st' ∧ db'.members = db.members ∧ q.Aside ∧
        ∀ mem, Advancing req mem st' → Advancing req mem st) := by
  cases h with
  | check => exact Or.inl rfl
  | respond result goroutine hg =>
    cases hs
    exact Or.inr (Or.inr ⟨.announcing _ hg,rfl,by simp [Stmt.Aside],fun mem hm =>
      (hg.not_advancing hm).elim⟩)
  | announcing st hst =>
    obtain ⟨hst',hmembers,hq⟩ := hs.announcing hst
    exact Or.inr (Or.inr ⟨.announcing _ hst',hmembers,hq,fun mem hm =>
      (hst'.not_advancing hm).elim⟩)
  | advancing mem st hst =>
    cases hst with
    | validate =>
      refine Or.inr (Or.inr ?_)
      cases hs with
      | valid =>
        refine ⟨.advancing mem _ .count,rfl,by simp [Stmt.Aside],?_⟩
        rintro _ ⟨⟩
        exact .validate
      | unknown => exact ⟨.respond _ _ trivial,rfl,by simp [Stmt.Aside],nofun⟩
    | count =>
      cases hs
      refine Or.inr (Or.inr ⟨.advancing mem _ (.stamp _),rfl,by simp [Stmt.Aside],?_⟩)
      rintro _ ⟨⟩
      exact .count
    | stamp cnt =>
      cases hs
      refine Or.inr (Or.inr ⟨.advancing mem _ (.store _ _),rfl,by simp [Stmt.Aside],?_⟩)
      rintro _ ⟨⟩
      exact .stamp cnt
    | store cnt lastReadAt => exact Or.inr (Or.inl ⟨mem,cnt,lastReadAt,rfl⟩)

theorem member_stored {c : Nat} {u : String} {row mem : ChatConversationMember}
    (req : ReadMessagesReq) (cnt : Nat) (lastReadAt : Int) (hrow : db.member c u = some row)
    (hid : row.id = mem.id) :
    (db.updateMember (req.row mem cnt lastReadAt)
      [.lastReadMessageID,.lastReadAt,.unreadCount]).member c u =
      some { row with
        lastReadMessageID := req.upToMessageId
        lastReadAt := lastReadAt
        unreadCount := UInt32.ofNat cnt } := by
  rw [member_updateMember,hrow,Option.map_some]
  have hlive := (live_of_member hrow).2
  rw [if_pos ⟨hid,hlive⟩]
  rfl

end Stages

section Progress
variable {ι : Type} [DecidableEq ι] {out : Outer} {db db' : Database} {c : Nat} {u : String}
  {req : ι → ReadMessagesReq} {stages : ι → Stage} {log : List (ι × Stmt)} {i : ι} {q : Stmt}
  {st' : Stage}

/-- The row is as call `i` read it, or as somebody has written it since. -/
def Accounted (req : ι → ReadMessagesReq) (log : List (ι × Stmt)) (i : ι)
    (mem row : ChatConversationMember) : Prop :=
  row.id = mem.id ∧ (row.lastReadMessageID = mem.lastReadMessageID ∨
    ∃ j row' cols, (j,.updateMember row' cols) ∈ since (takesRow i) log ∧
      (req j).upToMessageId = row.lastReadMessageID)

structure Progress (req : ι → ReadMessagesReq) (c : Nat) (u : String) (db : Database)
    (stages : ι → Stage) (log : List (ι × Stmt)) : Prop where
  reading : ∀ i, Reading (req i) (stages i)
  held : ∀ i mem, Advancing (req i) mem (stages i) →
    mem.lastReadMessageID < (req i).upToMessageId ∧
      ∃ row, db.member c u = some row ∧ Accounted req log i mem row
  written : ∀ j row cols, (j,.updateMember row cols) ∈ log →
    ∃ a ∈ db.lastRead c u, (req j).upToMessageId ≤ a

theorem Accounted.concat {mem row : ChatConversationMember} (h : Accounted req log i mem row)
    {j : ι} (hq : takesRow i (j,q) = false) : Accounted req (log ++ [(j,q)]) i mem row := by
  obtain ⟨hid,hsame | ⟨k,row',cols,hin,hup⟩⟩ := h
  · exact ⟨hid,Or.inl hsame⟩
  · exact ⟨hid,Or.inr ⟨k,row',cols,mem_since_concat _ hq hin,hup⟩⟩

theorem takesRow_of_aside (hq : q.Aside) (i j : ι) : takesRow i (j,q) = false := by
  cases q <;> first | rfl | exact (hq.2 _ _ rfl).elim

theorem takesRow_of_ne {i j : ι} (h : j ≠ i) (q : Stmt) : takesRow i (j,q) = false := by
  cases q <;> first | rfl | simp [takesRow,h]

theorem lastRead_congr (h : db'.members = db.members) : db'.lastRead c u = db.lastRead c u := by
  rw [Database.lastRead,Database.member,Database.live,h]
  rfl

theorem lastRead_eq {row : ChatConversationMember} (h : db.member c u = some row) :
    db.lastRead c u = some row.lastReadMessageID := by
  rw [Database.lastRead,h]
  rfl

theorem Progress.aside (h : Progress req c u db stages log) (hst' : Reading (req i) st')
    (hmembers : db'.members = db.members) (hq : q.Aside)
    (hback : ∀ mem, Advancing (req i) mem st' → Advancing (req i) mem (stages i)) :
    Progress req c u db' (Function.update stages i st') (log ++ [(i,q)]) := by
  have hmember : db'.member c u = db.member c u := by
    rw [Database.member,Database.live,hmembers]
    rfl
  refine ⟨forall_updated h.reading hst',?_,?_⟩
  · intro j mem hadv
    have hadv : Advancing (req j) mem (stages j) := by
      by_cases hj : j = i
      · subst hj
        rw [Function.update_self] at hadv
        exact hback mem hadv
      · rwa [Function.update_of_ne hj] at hadv
    obtain ⟨hnew,row,hrow,hacc⟩ := h.held j mem hadv
    exact ⟨hnew,row,hmember.trans hrow,hacc.concat (takesRow_of_aside hq j i)⟩
  · intro j row cols hin
    rw [List.mem_append,List.mem_singleton] at hin
    rw [lastRead_congr hmembers]
    rcases hin with hin | hin
    · exact h.written j row cols hin
    · exact (hq.1 row cols (Prod.mk.inj hin).2.symm).elim

theorem Progress.check (hreq : ∀ i, (req i).conversationId = c ∧ (req i).uuid = u)
    (h : Progress req c u db stages log) (hst : stages i = .readCheck (req i))
    (hs : Step out db (stages i) q st' db') :
    Progress req c u db' (Function.update stages i st') (log ++ [(i,q)]) := by
  obtain ⟨hc,hu⟩ := hreq i
  have hstep : db' = db ∧ q = .takeMember c u ∧ Reading (req i) st' ∧
      ∀ mem, Advancing (req i) mem st' → mem.lastReadMessageID < (req i).upToMessageId ∧
        db.member c u = some mem := by
    rw [hst] at hs
    rw [← hc,← hu]
    cases hs with
    | readStale => exact ⟨rfl,rfl,.respond _ _ trivial,nofun⟩
    | readStranger => exact ⟨rfl,rfl,.respond _ _ trivial,nofun⟩
    | readAhead _ mem hmem hnew =>
      refine ⟨rfl,rfl,.advancing mem _ .validate,?_⟩
      rintro _ ⟨⟩
      exact ⟨not_le.mp (not_or.mp hnew).2,hmem⟩
  obtain ⟨rfl,rfl,hst',hread⟩ := hstep
  refine ⟨forall_updated h.reading hst',?_,?_⟩
  · intro j mem hadv
    by_cases hj : j = i
    · subst hj
      rw [Function.update_self] at hadv
      obtain ⟨hnew,hmem⟩ := hread mem hadv
      exact ⟨hnew,mem,hmem,rfl,Or.inl rfl⟩
    · rw [Function.update_of_ne hj] at hadv
      obtain ⟨hnew,row,hrow,hacc⟩ := h.held j mem hadv
      exact ⟨hnew,row,hrow,hacc.concat (takesRow_of_ne (Ne.symm hj) _)⟩
  · intro j row cols hin
    rw [List.mem_append,List.mem_singleton] at hin
    rcases hin with hin | hin
    · exact h.written j row cols hin
    · cases hin

theorem Progress.store {mem : ChatConversationMember} {cnt : Nat} {lastReadAt : Int}
    (h : Progress req c u db stages log) (hst : stages i = .store (req i) mem cnt lastReadAt)
    (hback : ∀ a ∈ db.lastRead c u, a ≤ (req i).upToMessageId)
    (hs : Step out db (stages i) q st' db') :
    Progress req c u db' (Function.update stages i st') (log ++ [(i,q)]) := by
  obtain ⟨-,row,hrow,hid,-⟩ := h.held i mem (hst ▸ .store cnt lastReadAt)
  rw [hst] at hs
  cases hs
  have hrow' := member_stored (req i) cnt lastReadAt hrow hid
  have hlast : (req i).upToMessageId ∈ (db.updateMember ((req i).row mem cnt lastReadAt)
      [.lastReadMessageID,.lastReadAt,.unreadCount]).lastRead c u := by
    rw [lastRead_eq hrow']
    exact rfl
  refine ⟨forall_updated h.reading (.respond _ _ trivial),?_,?_⟩
  · intro j mem' hadv
    by_cases hj : j = i
    · subst hj
      rw [Function.update_self] at hadv
      cases hadv
    · rw [Function.update_of_ne hj] at hadv
      obtain ⟨hnew,row',hrow'',hacc⟩ := h.held j mem' hadv
      rw [hrow] at hrow''
      cases hrow''
      exact ⟨hnew,_,hrow',hacc.1,
        Or.inr ⟨i,_,_,mem_since_last _ log (takesRow_of_ne (Ne.symm hj) _),rfl⟩⟩
  · intro j row' cols hin
    rw [List.mem_append,List.mem_singleton] at hin
    refine ⟨_,hlast,?_⟩
    rcases hin with hin | hin
    · obtain ⟨a,ha,hle⟩ := h.written j row' cols hin
      exact hle.trans (hback a ha)
    · cases hin
      exact le_rfl

theorem store_of_ask {st : Stage} {r : ReadMessagesReq} (hst : Reading r st)
    {row : ChatConversationMember} {cols : List MemberColumn}
    {k : Stmt.Answer (.updateMember row cols) → ChatM Unit}
    (h : st.program = .ask (.updateMember row cols) k) :
    ∃ mem cnt lastReadAt, st = .store r mem cnt lastReadAt := by
  obtain ⟨st',db',hstep⟩ := Stage.step_of_ask h
  rcases hst.step hstep with rfl | hstore | ⟨-,-,hq,-⟩
  · cases hstep
  · exact hstore
  · exact (hq.1 _ _ rfl).elim

/-- At a write: the progress stays or advances just if nobody who went further has
written since the row was read. -/
theorem Progress.le_iff {mem : ChatConversationMember} {cnt : Nat} {lastReadAt : Int}
    (h : Progress req c u db stages log) (hst : stages i = .store (req i) mem cnt lastReadAt) :
    (∀ a ∈ db.lastRead c u, a ≤ (req i).upToMessageId) ↔
      ∀ j row cols, (j,.updateMember row cols) ∈ since (takesRow i) log →
        (req j).upToMessageId ≤ (req i).upToMessageId := by
  constructor
  · intro hle j row cols hin
    obtain ⟨a,ha,hja⟩ := h.written j row cols (mem_of_mem_since _ hin)
    exact hja.trans (hle a ha)
  · intro hfresh a ha
    obtain ⟨hnew,row,hrow,-,hacc⟩ := h.held i mem (hst ▸ .store cnt lastReadAt)
    rw [lastRead_eq hrow,Option.mem_some_iff] at ha
    subst ha
    rcases hacc with hsame | ⟨j,row',cols,hin,hup⟩
    · rw [hsame]
      exact hnew.le
    · rw [← hup]
      exact hfresh j row' cols hin

end Progress

section Runs
variable {ι : Type} [DecidableEq ι] {out : Outer} {db : Database} {c : Nat} {u : String}
  {req : ι → ReadMessagesReq}

theorem lastRead_next {p : Calls ι} {stages : ι → Stage} {i : ι} (hat : At p stages)
    (hread : Reading (req i) (stages i))
    (hstore : ¬ ∃ mem cnt lastReadAt, stages i = .store (req i) mem cnt lastReadAt) :
    (p.next (exec out) i).state.lastRead c u = p.state.lastRead c u := by
  rcases Pool.asks_or_stays (exec out) p i with ⟨q,k,hask⟩ | hstays
  · obtain ⟨st',hs,-,-⟩ := hat.next out hask
    refine lastRead_congr ?_
    generalize (p.next (exec out) i).state = db' at hs
    rcases hread.step hs with hst | hst | ⟨-,hmembers,-,-⟩
    · rw [hst] at hs
      cases hs <;> rfl
    · exact (hstore hst).elim
    · exact hmembers
  · rw [hstays]

theorem lastRead_store {p : Calls ι} {stages : ι → Stage} {i : ι} (hat : At p stages)
    (hJ : Progress req c u p.state stages p.log) {mem : ChatConversationMember} {cnt : Nat}
    {lastReadAt : Int} (hst : stages i = .store (req i) mem cnt lastReadAt) :
    (p.next (exec out) i).state.lastRead c u = some (req i).upToMessageId := by
  obtain ⟨-,row,hrow,hid,-⟩ := hJ.held i mem (hst ▸ .store cnt lastReadAt)
  have hask := hat i
  rw [hst] at hask
  rw [Pool.next_of_ask (exec out) hask]
  exact lastRead_eq (member_stored _ _ _ hrow hid)

theorem neverBack_iff {p : Calls ι} {i : ι} (h : Staged (Progress req c u) p) :
    NeverBack out c u p i ↔ NotOvertaken req p i := by
  obtain ⟨stages,hat,hJ⟩ := h
  by_cases hstore : ∃ mem cnt lastReadAt, stages i = .store (req i) mem cnt lastReadAt
  · obtain ⟨mem,cnt,lastReadAt,hst⟩ := hstore
    have hask : ∃ row cols k, p.threads i = .ask (.updateMember row cols) k := by
      rw [hat i,hst]
      exact ⟨_,_,_,rfl⟩
    rw [NeverBack,NotOvertaken,lastRead_store hat hJ hst,← hJ.le_iff hst]
    simp only [Option.mem_some_iff,forall_eq',hask,true_imp_iff]
  · refine iff_of_true ?_ ?_
    · intro a ha b hb
      rw [lastRead_next hat (hJ.reading i) hstore] at hb
      exact (Option.mem_unique ha hb).le
    · rintro ⟨row,cols,k,hask⟩
      rw [hat i] at hask
      exact (hstore (store_of_ask (hJ.reading i) hask)).elim

theorem Progress.next (hreq : ∀ i, (req i).conversationId = c ∧ (req i).uuid = u) (p : Calls ι)
    (i : ι) (q : Stmt) (k : q.Answer → ChatM Unit) (h : Staged (Progress req c u) p)
    (hback : NeverBack out c u p i) (hask : p.threads i = .ask q k) :
    Staged (Progress req c u) (p.next (exec out) i) := by
  refine h.step out hask fun stages st' db' hat hJ hs => ?_
  rcases (hJ.reading i).step hs with hst | ⟨mem,cnt,lastReadAt,hst⟩ | ⟨hst',hmembers,hq,hadv⟩
  · exact hJ.check hreq hst hs
  · refine hJ.store hst (fun a ha => ?_) hs
    exact hback a ha _ (lastRead_store hat hJ hst)
  · exact hJ.aside hst' hmembers hq hadv

/-- The devices of a member: its read progress never goes back just if no call
writes after one that went further has written what the first did not read. -/
theorem read_progress_never_back_iff_not_overtaken (out : Outer) (db : Database) (c : Nat)
    (u : String) (req : ι → ReadMessagesReq)
    (hreq : ∀ i, (req i).conversationId = c ∧ (req i).uuid = u) (schedule : List ι) :
    Pool.Turns (exec out) (NeverBack out c u) (startCalls db fun i => .read (req i)) schedule ↔
      Pool.Turns (exec out) (NotOvertaken req) (startCalls db fun i => .read (req i)) schedule := by
  refine Pool.turns_congr (exec out) (I := Staged (Progress req c u)) ?_ (Progress.next hreq)
    (fun p i h => neverBack_iff h) schedule
  refine ⟨_,at_start db _,fun i => Reading.start (req i),?_,nofun⟩
  intro i mem hadv
  simp only [Call.start] at hadv
  split at hadv <;> cases hadv

end Runs

/-- A member and two messages of somebody else. -/
def unreadDatabase : Database :=
  { emptyDatabase with
    members := [{ memberRow 1 "a" with id := 1, unreadCount := 2 }]
    messages := [{ (default : ChatMessage) with id := 1, conversationID := 1, sendUUID := "b" },
      { (default : ChatMessage) with id := 2, conversationID := 1, sendUUID := "b" }]
    nextMember := 2
    nextMessage := 3 }

/-- Two devices, one of which has seen both messages. -/
def deviceRequest (ahead : Bool) : ReadMessagesReq := ⟨"a",1,if ahead then 2 else 1⟩

theorem read_progress_never_back_iff_not_overtaken_in_turn :
    Pool.Turns (exec countingOuter) (NeverBack countingOuter 1 "a")
      (startCalls unreadDatabase fun ahead => .read (deviceRequest ahead))
      [false,false,false,false,false,true,true,true,true,true] ↔
    Pool.Turns (exec countingOuter) (NotOvertaken deviceRequest)
      (startCalls unreadDatabase fun ahead => .read (deviceRequest ahead))
      [false,false,false,false,false,true,true,true,true,true] :=
  read_progress_never_back_iff_not_overtaken countingOuter unreadDatabase 1 "a"
    deviceRequest (fun _ => ⟨rfl,rfl⟩) _

/-- Both compare with 0; the one that is ahead writes 2, and then the other one 1. -/
theorem slower_device_takes_progress_back :
    (∀ ahead, (deviceRequest ahead).conversationId = 1 ∧ (deviceRequest ahead).uuid = "a") ∧
    (runCalls countingOuter unreadDatabase (fun ahead => .read (deviceRequest ahead))
      [false,true,false,true,false,true,false,true,true]).state.lastRead 1 "a" = some 2 ∧
    (runCalls countingOuter unreadDatabase (fun ahead => .read (deviceRequest ahead))
      [false,true,false,true,false,true,false,true,true,false]).state.lastRead 1 "a" = some 1 ∧
    ¬ Pool.Turns (exec countingOuter) (NeverBack countingOuter 1 "a")
      (startCalls unreadDatabase fun ahead => .read (deviceRequest ahead))
      [false,true,false,true,false,true,false,true,true,false] := by
  refine ⟨fun _ => ⟨rfl,rfl⟩,rfl,rfl,fun hturns => ?_⟩
  have hback := hturns [false,true,false,true,false,true,false,true,true] false [] rfl 2 rfl 1 rfl
  exact absurd hback (by decide)

end Imy.Chat
