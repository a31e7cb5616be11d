import Imy.Chat.Unread
set_option autoImplicit false

namespace Imy.Chat
open Imy.Lib

section Marks
variable {ι : Type} [DecidableEq ι]

def countsFor (i : ι) (u : String) : ι × Stmt → Bool
  | (j,.countMessages _ _ v) => j = i ∧ v = u
  | _ => false

def listsMembers (i : ι) : ι × Stmt → Bool
  | (j,.findMembers _) => j = i
  | _ => false

def writesRow (x : Nat) : ι × Stmt → Bool
  | (_,.updateMember row _) => row.id = x
  | _ => false

/-- Call `i`, which writes columns `cols` of the row `x` of user `u` after `log`,
writes no count that is older than the one in the row. -/
structure CurrentWrite (x : Nat) (u : String) (log : List (ι × Stmt)) (i : ι)
    (cols : List MemberColumn) : Prop where
  notOvertaken : ∀ j row row' cols', (j,.createMessage row) ∈ since (countsFor i u) log →
    row.sendUUID ≠ u → (j,.updateMember row' cols') ∈ since (countsFor i u) log → row'.id ≠ x
  notStored : .lastReadMessageID ∉ cols → ∀ j row cols',
    (j,.updateMember row cols') ∈ since (listsMembers i) log →
    .lastReadMessageID ∈ cols' → row.id ≠ x

/-- The last write of the row is current. -/
def LastWriteCurrent (x : Nat) (u : String) (log : List (ι × Stmt)) : Prop :=
  ∀ before i row cols, upToLast (writesRow x) log = before ++ [(i,.updateMember row cols)] →
    CurrentWrite x u before i cols

variable {x : Nat} {u : String} {log : List (ι × Stmt)} {i : ι} {q : Stmt}

theorem LastWriteCurrent.of_write {row : ChatConversationMember} {cols : List MemberColumn}
    (h : LastWriteCurrent x u (log ++ [(i,Stmt.updateMember row cols)])) (hrow : row.id = x) :
    CurrentWrite x u log i cols :=
  h log i row cols (upToLast_concat_marked _ log (by simp [writesRow,hrow]))

theorem LastWriteCurrent.of_other (h : LastWriteCurrent x u (log ++ [(i,q)]))
    (hq : ∀ row cols, q = .updateMember row cols → row.id ≠ x) : LastWriteCurrent x u log := by
  have hmark : writesRow x (i,q) = false := by
    cases q <;> first | rfl | exact decide_eq_false (hq _ _ rfl)
  intro before j row cols hlog
  refine h before j row cols ?_
  rw [upToLast_concat _ log hmark,hlog]

theorem countsFor_of_ne {j : ι} (h : i ≠ j) (q : Stmt) : countsFor j u (i,q) = false := by
  cases q <;> first | rfl | simp [countsFor,h]

theorem listsMembers_of_ne {j : ι} (h : i ≠ j) (q : Stmt) : listsMembers j (i,q) = false := by
  cases q <;> first | rfl | simp [listsMembers,h]

end Marks

/-- The call has inserted a message and has not recounted the row `x` yet. -/
def Stage.Owes (x : Nat) : Stage → Prop
  | .point _ _ | .list _ => True
  | .respond _ goroutine => goroutine.Owes x
  | .refresh _ members => ∃ mem ∈ members, mem.id = x
  | .recount _ mem rest | .restore _ mem rest _ => ∃ mem' ∈ mem :: rest, mem'.id = x
  | .retell _ _ rest _ => ∃ mem ∈ rest, mem.id = x
  | _ => False

section Knowledge
variable {ι : Type} [DecidableEq ι]

def Own (c : Nat) (db : Database) (mem m : ChatConversationMember) : Prop :=
  m ∈ db.live ∧ SameMember mem m ∧ m.conversationID = c

/-- The listed row is still right about the read progress, unless that was stored
since. -/
def Listed (c : Nat) (db : Database) (log : List (ι × Stmt)) (i : ι)
    (mem : ChatConversationMember) : Prop :=
  ∃ m, Own c db mem m ∧ (m.lastReadMessageID = mem.lastReadMessageID ∨
    ∃ j row cols, (j,.updateMember row cols) ∈ since (listsMembers i) log ∧
      .lastReadMessageID ∈ cols ∧ row.id = m.id)

def Counted (c : Nat) (db : Database) (log : List (ι × Stmt)) (i : ι) (u : String)
    (lastReadID cnt : Nat) : Prop :=
  cnt = (db.unread c lastReadID u).length ∨
    ∃ j row, j ≠ i ∧ (j,.createMessage row) ∈ since (countsFor i u) log ∧ row.sendUUID ≠ u

def Stage.Knows (c : Nat) (db : Database) (log : List (ι × Stmt)) (i : ι) : Stage → Prop
  | .sendCheck req | .lookUp req | .insert req => req.conversationId = c
  | .point _ msg | .list msg => msg.conversationID = c
  | .readCheck req => req.conversationId = c
  | .validate req mem | .count req mem =>
    req.conversationId = c ∧ mem.userUUID = req.uuid ∧ ∃ m, Own c db mem m
  | .stamp req mem cnt | .store req mem cnt _ =>
    mem.userUUID = req.uuid ∧ (∃ m, Own c db mem m) ∧
      Counted c db log i req.uuid req.upToMessageId cnt
  | .respond _ goroutine => goroutine.Knows c db log i
  | .refresh msg members => msg.conversationID = c ∧ ∀ mem ∈ members, Listed c db log i mem
  | .recount msg mem rest => msg.conversationID = c ∧ ∀ mem' ∈ mem :: rest, Listed c db log i mem'
  | .restore msg mem rest cnt =>
    msg.conversationID = c ∧ (∀ mem' ∈ mem :: rest, Listed c db log i mem') ∧
      Counted c db log i mem.userUUID mem.lastReadMessageID cnt
  | .retell msg _ rest _ => msg.conversationID = c ∧ ∀ mem ∈ rest, Listed c db log i mem
  | _ => True

variable {c : Nat} {db db' : Database} {log log' : List (ι × Stmt)} {i : ι}

theorem Stage.Knows.frame {st : Stage} (h : st.Knows c db log i)
    (hown : ∀ mem, (∃ m, Own c db mem m) → ∃ m, Own c db' mem m)
    (hlisted : ∀ mem, Listed c db log i mem → Listed c db' log' i mem)
    (hcounted : ∀ u r cnt, Counted c db log i u r cnt → Counted c db' log' i u r cnt) :
    st.Knows c db' log' i := by
  induction st with
  | respond result goroutine ih => exact ih h
  | validate req mem => exact ⟨h.1,h.2.1,hown mem h.2.2⟩
  | count req mem => exact ⟨h.1,h.2.1,hown mem h.2.2⟩
  | stamp req mem cnt => exact ⟨h.1,hown mem h.2.1,hcounted _ _ _ h.2.2⟩
  | store req mem cnt lastReadAt => exact ⟨h.1,hown mem h.2.1,hcounted _ _ _ h.2.2⟩
  | refresh msg members => exact ⟨h.1,fun mem hmem => hlisted mem (h.2 mem hmem)⟩
  | recount msg mem rest => exact ⟨h.1,fun mem hmem => hlisted mem (h.2 mem hmem)⟩
  | restore msg mem rest cnt =>
    exact ⟨h.1,fun mem hmem => hlisted mem (h.2.1 mem hmem),hcounted _ _ _ h.2.2⟩
  | retell msg mem rest cnt => exact ⟨h.1,fun mem hmem => hlisted mem (h.2 mem hmem)⟩
  | _ => exact h

end Knowledge

section Frames
variable {ι : Type} [DecidableEq ι] {out : Outer} {c : Nat} {db db' : Database} {st st' : Stage}
  {q : Stmt} {log : List (ι × Stmt)} {i j : ι} {mem : ChatConversationMember}

theorem Own.frame (hs : Step out db st q st' db') (h : ∃ m, Own c db mem m) :
    ∃ m, Own c db' mem m := by
  obtain ⟨m,hm,hsame,hconv⟩ := h
  obtain ⟨f,hf,hmember⟩ := hs.members
  refine ⟨f m,?_,hsame.trans (hmember m),(hmember m).conversationID.trans hconv⟩
  rw [live_map hf hmember]
  exact List.mem_map_of_mem hm

theorem Listed.frame (hs : Step out db st q st' db') (hq : listsMembers j (i,q) = false)
    (h : Listed c db log j mem) : Listed c db' (log ++ [(i,q)]) j mem := by
  obtain ⟨m,⟨hm,hsame,hconv⟩,hread⟩ := h
  have hold : (∃ k row cols, (k,Stmt.updateMember row cols) ∈ since (listsMembers j) log ∧
      .lastReadMessageID ∈ cols ∧ row.id = m.id) →
      ∃ k row cols, (k,Stmt.updateMember row cols) ∈ since (listsMembers j) (log ++ [(i,q)]) ∧
        .lastReadMessageID ∈ cols ∧ row.id = m.id := by
    rintro ⟨k,row,cols,hin,hcols,hid⟩
    exact ⟨k,row,cols,mem_since_concat _ hq hin,hcols,hid⟩
  rcases hs.rows with ⟨hmembers,-⟩ | ⟨req,mem',cnt,at_,-,rfl,rfl⟩ | ⟨msg,mem',rest,cnt,-,rfl,rfl⟩
  · refine ⟨m,⟨?_,hsame,hconv⟩,hread.imp_right hold⟩
    rwa [Database.live,hmembers]
  · have hmember := sameMember_update (req.row mem' cnt at_)
      [.lastReadMessageID,.lastReadAt,.unreadCount] m
    refine ⟨_,⟨?_,hsame.trans hmember,hmember.conversationID.trans hconv⟩,?_⟩
    · rw [live_updateMember]
      exact List.mem_map_of_mem hm
    · by_cases hid : m.id = (req.row mem' cnt at_).id ∧ m.deleted = false
      · exact Or.inr ⟨i,_,_,mem_since_last _ log hq,by simp,(hmember.id.trans hid.1).symm⟩
      · rw [if_neg hid]
        exact hread.imp_right hold
  · have hmember := sameMember_update (mem'.recounted cnt) [.unreadCount] m
    refine ⟨_,⟨?_,hsame.trans hmember,hmember.conversationID.trans hconv⟩,?_⟩
    · rw [live_updateMember]
      exact List.mem_map_of_mem hm
    · rw [hmember.id]
      refine hread.imp (fun hread => ?_) hold
      rw [← hread]
      split <;> rfl

theorem Counted.frame {u : String} {lastReadID cnt : Nat} (hs : Step out db st q st' db')
    (hj : i ≠ j ∨ ¬ st.Inserting) (hq : countsFor j u (i,q) = false)
    (h : Counted c db log j u lastReadID cnt) :
    Counted c db' (log ++ [(i,q)]) j u lastReadID cnt := by
  rcases h with hcnt | ⟨k,row,hk,hin,hsend⟩
  · rcases hs.messages with hmessages | ⟨req,msg,rfl,rfl,rfl,hcreate⟩
    · exact Or.inl (by rw [unread_congr hmessages,hcnt])
    · obtain ⟨-,hmsg,rfl⟩ := createMessage_ok hcreate
      by_cases hu : req.uuid = u
      · refine Or.inl ?_
        have hown : msg.conversationID ≠ c ∨ msg.sendUUID = u := Or.inr (by rw [hmsg]; exact hu)
        rw [unread_concat (show _ = db.messages ++ [msg] from rfl) hown,hcnt]
      · have hij : i ≠ j := hj.resolve_right fun hno => hno trivial
        exact Or.inr ⟨i,req.message,hij,mem_since_last _ log hq,hu⟩
  · exact Or.inr ⟨k,row,hk,mem_since_concat _ hq hin,hsend⟩

theorem own_of_member {u : String} {m : ChatConversationMember}
    (h : db.live.find? (fun m => m.conversationID = c ∧ m.userUUID = u) = some m) :
    m.userUUID = u ∧ Own c db m m := by
  have hkey : m.conversationID = c ∧ m.userUUID = u := by simpa using List.find?_some h
  exact ⟨hkey.2,List.mem_of_find?_eq_some h,SameMember.refl m,hkey.1⟩

theorem Step.knows (hs : Step out db st q st' db') (h : st.Knows c db log i) :
    st'.Knows c db' (log ++ [(i,q)]) i := by
  have hlisted : ∀ mem, listsMembers i (i,q) = false → Listed c db log i mem →
      Listed c db' (log ++ [(i,q)]) i mem := fun mem hq => Listed.frame hs hq
  have hcounted : ∀ u r cnt, ¬ st.Inserting → countsFor i u (i,q) = false →
      Counted c db log i u r cnt → Counted c db' (log ++ [(i,q)]) i u r cnt :=
    fun u r cnt hst => Counted.frame hs (Or.inr hst)
  cases hs with
  | sendMember req mem hmem => exact h
  | sendStranger req hmem => exact trivial
  | hit req exist hexist => exact trivial
  | miss req hexist => exact h
  | inserted req msg db' hcreate =>
    rw [Stage.Knows,(createMessage_ok hcreate).2.1]
    exact h
  | duplicate req e db' hcreate => exact trivial
  | pointed req msg => exact h
  | readStale req mem hmem hold => exact trivial
  | readAhead req mem hmem hnew =>
    have hc : req.conversationId = c := h
    rw [hc] at hmem
    obtain ⟨huser,hown⟩ := own_of_member hmem
    exact ⟨hc,huser,mem,hown⟩
  | readStranger req hmem => exact trivial
  | valid req mem msg hmsg => exact h
  | unknown req mem hmsg => exact trivial
  | counted req mem =>
    obtain ⟨hc,huser,hown⟩ := h
    exact ⟨huser,hown,Or.inl (by rw [hc])⟩
  | stamped req mem cnt =>
    obtain ⟨huser,hown,hcnt⟩ := h
    exact ⟨huser,hown,hcounted _ _ _ id rfl hcnt⟩
  | stored req mem cnt lastReadAt => exact trivial
  | responded result =>
    exact Stage.Knows.frame h (fun _ h => h) (fun mem => hlisted mem rfl)
      (fun u r cnt => hcounted u r cnt id rfl)
  | listed msg =>
    have hc : msg.conversationID = c := h
    refine ⟨hc,fun mem hmem => ?_⟩
    obtain ⟨hlive,hconv⟩ := List.mem_filter.mp hmem
    have hconv : mem.conversationID = msg.conversationID := by simpa using hconv
    exact ⟨mem,⟨hlive,SameMember.refl mem,hconv.trans hc⟩,Or.inl rfl⟩
  | refreshed msg mem rest => exact ⟨h.1,fun mem' hmem' => hlisted mem' rfl (h.2 mem' hmem')⟩
  | recounted msg mem rest =>
    refine ⟨h.1,fun mem' hmem' => hlisted mem' rfl (h.2 mem' hmem'),Or.inl ?_⟩
    rw [h.1]
  | restored msg mem rest cnt =>
    exact ⟨h.1,fun mem' hmem' => hlisted mem' rfl (h.2.1 mem' (List.mem_cons_of_mem _ hmem'))⟩
  | retold msg mem rest cnt => exact ⟨h.1,fun mem' hmem' => hlisted mem' rfl (h.2 mem' hmem')⟩
  | readersListed => exact trivial
  | readStamped => exact trivial
  | announced => exact trivial
  | readerTold => exact trivial

theorem Step.owes {m : ChatConversationMember} (hs : Step out db st q st' db')
    (hknows : st.Knows c db log i) (hm : m ∈ db.live) (hconv : m.conversationID = c)
    (h : st.Owes m.id) :
    st'.Owes m.id ∨ ∃ row cols, q = .updateMember row cols ∧ row.id = m.id := by
  cases hs with
  | pointed req msg => exact Or.inl trivial
  | responded result goroutine => exact Or.inl h
  | listed msg =>
    have hc : msg.conversationID = c := hknows
    exact Or.inl ⟨m,List.mem_filter.mpr ⟨hm,by simp [hconv,hc]⟩,rfl⟩
  | refreshed msg mem rest => exact Or.inl h
  | recounted msg mem rest => exact Or.inl h
  | restored msg mem rest cnt =>
    obtain ⟨mem',hmem',hid⟩ := h
    rcases List.mem_cons.mp hmem' with rfl | hmem'
    · exact Or.inr ⟨_,_,rfl,hid⟩
    · exact Or.inl ⟨mem',hmem',hid⟩
  | retold msg mem rest cnt => exact Or.inl h
  | _ => exact h.elim

end Frames

section Refreshing
variable {ι : Type} [DecidableEq ι] {out : Outer} {c : Nat} {db db' : Database}
  {stages : ι → Stage} {log : List (ι × Stmt)} {i : ι} {q : Stmt} {st' : Stage}
  {m : ChatConversationMember}

/-- Every cached count whose last write was current is right, or somebody still owes
a recount. -/
structure Refreshing (c : Nat) (db : Database) (stages : ι → Stage) (log : List (ι × Stmt)) :
    Prop where
  keyed : KeyedMembers db
  knows : ∀ i, (stages i).Knows c db log i
  owed : ∀ j row mark, (j,.createMessage row) ∈ since mark log →
    ∀ m ∈ db.live, m.conversationID = c → (stages j).Owes m.id ∨
      ∃ row' cols, (j,.updateMember row' cols) ∈ since mark log ∧ row'.id = m.id
  cache : ∀ m ∈ db.live, m.conversationID = c → LastWriteCurrent m.id m.userUUID log →
    m.unreadCount = db.unreadOf m ∨ ∃ j, (stages j).Owes m.id

/-- A current write writes the count as it is, or somebody else owes one. -/
theorem Refreshing.counted (h : Refreshing c db stages log) (hm : m ∈ db.live)
    (hconv : m.conversationID = c) {cols : List MemberColumn} {lastReadID cnt : Nat}
    (hcurrent : CurrentWrite m.id m.userUUID log i cols)
    (hcounted : Counted c db log i m.userUUID lastReadID cnt) :
    cnt = (db.unread c lastReadID m.userUUID).length ∨ ∃ j, j ≠ i ∧ (stages j).Owes m.id := by
  refine hcounted.imp_right fun ⟨j,row,hj,hin,hsend⟩ => ⟨j,hj,?_⟩
  rcases h.owed j row _ hin m hm hconv with howes | ⟨row',cols',hin',hid⟩
  · exact howes
  · exact (hcurrent.notOvertaken j row row' cols' hin hsend hin' hid).elim

theorem Refreshing.step_knows (h : Refreshing c db stages log)
    (hs : Step out db (stages i) q st' db') :
    ∀ j, (Function.update stages i st' j).Knows c db' (log ++ [(i,q)]) j := by
  intro j
  by_cases hj : j = i
  · subst hj
    rw [Function.update_self]
    exact hs.knows (h.knows j)
  · rw [Function.update_of_ne hj]
    exact (h.knows j).frame (fun _ => Own.frame hs)
      (fun _ => Listed.frame hs (listsMembers_of_ne (Ne.symm hj) q))
      (fun _ _ _ => Counted.frame hs (Or.inl (Ne.symm hj)) (countsFor_of_ne (Ne.symm hj) q))

theorem Refreshing.step_owes (h : Refreshing c db stages log)
    (hs : Step out db (stages i) q st' db') (hm : m ∈ db.live) (hconv : m.conversationID = c)
    {j : ι} (howes : (stages j).Owes m.id) : (Function.update stages i st' j).Owes m.id ∨
      j = i ∧ ∃ row cols, q = .updateMember row cols ∧ row.id = m.id := by
  by_cases hj : j = i
  · subst hj
    rw [Function.update_self]
    exact (hs.owes (h.knows j) hm hconv howes).imp_right fun hwrite => ⟨rfl,hwrite⟩
  · rw [Function.update_of_ne hj]
    exact Or.inl howes

theorem Refreshing.step_owed (h : Refreshing c db stages log)
    (hs : Step out db (stages i) q st' db')
    (hok : ∀ row, q = .createMessage row → ∃ req msg, st' = .point req msg)
    (j : ι) (row : ChatMessage) (mark : ι × Stmt → Bool)
    (hin : (j,.createMessage row) ∈ since mark (log ++ [(i,q)])) (hm : m ∈ db.live)
    (hconv : m.conversationID = c) : (Function.update stages i st' j).Owes m.id ∨
      ∃ row' cols, (j,.updateMember row' cols) ∈ since mark (log ++ [(i,q)]) ∧ row'.id = m.id := by
  cases hmark : mark (i,q) with
  | true =>
    rw [since_concat_marked _ _ hmark] at hin
    cases hin
  | false =>
    rw [since_concat _ _ hmark,List.mem_append,List.mem_singleton] at hin
    rcases hin with hin | hin
    · rcases h.owed j row mark hin m hm hconv with howes | ⟨row',cols,hin',hid⟩
      · rcases h.step_owes hs hm hconv howes with howes | ⟨rfl,row',cols,rfl,hid⟩
        · exact Or.inl howes
        · exact Or.inr ⟨row',cols,mem_since_last _ log hmark,hid⟩
      · exact Or.inr ⟨row',cols,mem_since_concat _ hmark hin',hid⟩
    · cases hin
      obtain ⟨req,msg,rfl⟩ := hok row rfl
      rw [Function.update_self]
      exact Or.inl trivial

/-- `ReadMessages` writes the row. -/
theorem Refreshing.stored (h : Refreshing c db stages log) {req : ReadMessagesReq}
    {mem : ChatConversationMember} {cnt : Nat} {lastReadAt : Int} {cols : List MemberColumn}
    (hst : stages i = .store req mem cnt lastReadAt) (hm : m ∈ db.live)
    (hconv : m.conversationID = c) (hid : m.id = mem.id)
    (hcurrent : CurrentWrite m.id m.userUUID log i cols) :
    UInt32.ofNat cnt = UInt32.ofNat (db.unread c req.upToMessageId m.userUUID).length ∨
      ∃ j, j ≠ i ∧ (stages j).Owes m.id := by
  have hknows := h.knows i
  rw [hst] at hknows
  obtain ⟨huser,⟨m₀,hm₀,hsame,-⟩,hcnt⟩ := hknows
  obtain rfl : m = m₀ := h.keyed.eq_of_id hm hm₀ (hid.trans hsame.id.symm)
  rw [← huser,← hsame.userUUID] at hcnt
  exact (h.counted hm hconv hcurrent hcnt).imp_left fun hcnt => by rw [hcnt]

theorem Refreshing.restored (h : Refreshing c db stages log) {msg : ChatMessage}
    {mem : ChatConversationMember} {rest : List ChatConversationMember} {cnt : Nat}
    (hst : stages i = .restore msg mem rest cnt) (hm : m ∈ db.live)
    (hconv : m.conversationID = c) (hid : m.id = mem.id)
    (hcurrent : CurrentWrite m.id m.userUUID log i [.unreadCount]) :
    UInt32.ofNat cnt = UInt32.ofNat (db.unread c m.lastReadMessageID m.userUUID).length ∨
      ∃ j, j ≠ i ∧ (stages j).Owes m.id := by
  have hknows := h.knows i
  rw [hst] at hknows
  obtain ⟨-,hlisted,hcnt⟩ := hknows
  obtain ⟨m₀,⟨hm₀,hsame,-⟩,hread⟩ := hlisted mem List.mem_cons_self
  obtain rfl : m = m₀ := h.keyed.eq_of_id hm hm₀ (hid.trans hsame.id.symm)
  rcases hread with hread | ⟨j,row,cols,hin,hcols,hrow⟩
  · rw [← hread,← hsame.userUUID] at hcnt
    exact (h.counted hm hconv hcurrent hcnt).imp_left fun hcnt => by rw [hcnt]
  · exact (hcurrent.notStored (by simp) j row cols hin hcols hrow).elim

/-- A statement that does not write the row `m`. -/
theorem Refreshing.step_cache_of_other (h : Refreshing c db stages log)
    (hs : Step out db (stages i) q st' db') (hm : m ∈ db.live) (hconv : m.conversationID = c)
    (hq : ∀ row cols, q = .updateMember row cols → row.id ≠ m.id)
    (hlast : LastWriteCurrent m.id m.userUUID (log ++ [(i,q)])) :
    m.unreadCount = db'.unreadOf m ∨ ∃ j, (Function.update stages i st' j).Owes m.id := by
  rcases h.cache m hm hconv (hlast.of_other hq) with hright | ⟨j,howes⟩
  · rcases hs.messages with hmessages | ⟨req,msg,-,-,rfl,hcreate⟩
    · refine Or.inl ?_
      rw [hright,Database.unreadOf,Database.unreadOf,unread_congr hmessages]
    · exact Or.inr ⟨i,by rw [Function.update_self]; exact trivial⟩
  · rcases h.step_owes hs hm hconv howes with howes | ⟨-,row,cols,hrow,hid⟩
    · exact Or.inr ⟨j,howes⟩
    · exact (hq row cols hrow hid).elim

theorem owes_of_other {j : ι} {x : Nat} (hj : j ≠ i) (h : (stages j).Owes x) :
    (Function.update stages i st' j).Owes x := by
  rwa [Function.update_of_ne hj]

theorem Refreshing.step_cache (h : Refreshing c db stages log)
    (hs : Step out db (stages i) q st' db') :
    ∀ m ∈ db'.live, m.conversationID = c → LastWriteCurrent m.id m.userUUID (log ++ [(i,q)]) →
      m.unreadCount = db'.unreadOf m ∨ ∃ j, (Function.update stages i st' j).Owes m.id := by
  intro m' hm' hconv hlast
  rcases hs.rows with ⟨hmembers,hq⟩ | ⟨req,mem,cnt,lastReadAt,hst,rfl,rfl⟩ |
    ⟨msg,mem,rest,cnt,hst,rfl,rfl⟩
  · have hm : m' ∈ db.live := by rwa [Database.live,hmembers] at hm'
    exact h.step_cache_of_other hs hm hconv (fun row cols hrow => (hq row cols hrow).elim) hlast
  · rcases mem_live_updateMember hm' with ⟨hm,hid⟩ | ⟨m,hm,hid,rfl⟩
    · refine h.step_cache_of_other hs hm hconv (fun row cols hrow => ?_) hlast
      cases hrow
      exact hid
    · rcases h.stored hst hm hconv hid (hlast.of_write hid.symm) with hcnt | ⟨j,hj,howes⟩
      · have hconv : m.conversationID = c := hconv
        refine Or.inl ?_
        change UInt32.ofNat cnt = _
        rw [hcnt,← hconv]
        rfl
      · exact Or.inr ⟨j,owes_of_other hj howes⟩
  · rcases mem_live_updateMember hm' with ⟨hm,hid⟩ | ⟨m,hm,hid,rfl⟩
    · refine h.step_cache_of_other hs hm hconv (fun row cols hrow => ?_) hlast
      cases hrow
      exact hid
    · rcases h.restored hst hm hconv hid (hlast.of_write hid.symm) with hcnt | ⟨j,hj,howes⟩
      · have hconv : m.conversationID = c := hconv
        refine Or.inl ?_
        change UInt32.ofNat cnt = _
        rw [hcnt,← hconv]
        rfl
      · exact Or.inr ⟨j,owes_of_other hj howes⟩

theorem Refreshing.step (h : Refreshing c db stages log) (hs : Step out db (stages i) q st' db')
    (hok : ∀ row, q = .createMessage row → ∃ req msg, st' = .point req msg) :
    Refreshing c db' (Function.update stages i st') (log ++ [(i,q)]) := by
  obtain ⟨f,hf,hmember⟩ := hs.members
  refine ⟨h.keyed.map hf (fun m => (hmember m).id) (fun m => (hmember m).sameKey),
    h.step_knows hs,?_,h.step_cache hs⟩
  intro j row mark hin m' hm' hconv
  rw [live_map hf hmember] at hm'
  obtain ⟨m,hm,rfl⟩ := List.mem_map.mp hm'
  rw [(hmember m).conversationID] at hconv
  rw [(hmember m).id]
  exact h.step_owed hs hok j row mark hin hm hconv

theorem Step.create {st : Stage} {row : ChatMessage}
    (hs : Step out db st (.createMessage row) st' db') : (∃ req msg, st' = .point req msg) ∨
      ∃ e, st' = .respond (.error (.dataCreateFail e)) .finished := by
  cases hs with
  | inserted req msg db' hcreate => exact Or.inl ⟨req,msg,rfl⟩
  | duplicate req e db' hcreate => exact Or.inr ⟨e,rfl⟩

theorem refreshing_or_refused_step
    (h : Gives RefusedInsert stages log ∨ Refreshing c db stages log)
    (hs : Step out db (stages i) q st' db') :
    Gives RefusedInsert (Function.update stages i st') (log ++ [(i,q)]) ∨
      Refreshing c db' (Function.update stages i st') (log ++ [(i,q)]) := by
  rcases h with hgives | h
  · exact Or.inl (hgives.step hs)
  by_cases hok : ∀ row, q = .createMessage row → ∃ req msg, st' = .point req msg
  · exact Or.inr (h.step hs hok)
  · push Not at hok
    obtain ⟨row,rfl,hno⟩ := hok
    rcases hs.create with ⟨req,msg,hst'⟩ | ⟨e,rfl⟩
    · exact (hno req msg hst').elim
    · refine Or.inl ⟨i,_,⟨e,rfl⟩,Or.inl ⟨.finished,?_⟩⟩
      rw [Function.update_self]

end Refreshing

section Runs
variable {ι : Type} [DecidableEq ι]

def Call.conversationId : Call → Nat
  | .send req => req.conversationId
  | .read req => req.conversationId

theorem Stage.not_owes_of_ended {st : Stage} (h : st.program = .ret ()) (x : Nat) :
    ¬ st.Owes x := by
  cases st with
  | refresh msg members =>
    cases members with
    | nil => exact nofun
    | cons mem rest => exact nomatch (show Prog.ask _ _ = Prog.ret () from h)
  | _ => first | exact id | exact nomatch (show Prog.ask _ _ = Prog.ret () from h)

theorem refreshing_start (db : Database) (c : Nat) (calls : ι → Call)
    (hcalls : ∀ i, (calls i).conversationId = c) (hkeyed : KeyedMembers db)
    (hstart : ∀ m ∈ db.live, m.conversationID = c → m.unreadCount = db.unreadOf m) :
    Refreshing c db (fun i => (calls i).start) [] := by
  refine ⟨hkeyed,?_,nofun,fun m hm hconv _ => Or.inl (hstart m hm hconv)⟩
  intro i
  have hc := hcalls i
  cases hcall : calls i with
  | send req =>
    rw [hcall] at hc
    simp only [Call.start]
    split
    · exact trivial
    · exact hc
  | read req =>
    rw [hcall] at hc
    simp only [Call.start]
    split
    · exact trivial
    · exact hc

/-- Senders and readers in one conversation. When all calls and their goroutines
have ended, the cached counts are right, if the last write of each of them was
current. -/
theorem unread_cache_right_of_last_writes_current (out : Outer) (db : Database) (c : Nat)
    (calls : ι → Call) (hcalls : ∀ i, (calls i).conversationId = c) (hkeyed : KeyedMembers db)
    (hstart : CacheRight out db c) (schedule : List ι)
    (hended : ∀ i, (runCalls out db calls schedule).threads i = .ret ())
    (hok : ∀ i e, (i,Stmt.respond (.error (.dataCreateFail e))) ∉
      (runCalls out db calls schedule).log)
    (hcurrent : ∀ m ∈ (runCalls out db calls schedule).state.live, m.conversationID = c →
      LastWriteCurrent m.id m.userUUID (runCalls out db calls schedule).log) :
    CacheRight out (runCalls out db calls schedule).state c := by
  have hrun : Staged (fun db' stages log => Gives RefusedInsert stages log ∨
      Refreshing c db' stages log) (runCalls out db calls schedule) := by
    refine Pool.run_invariant (exec out) (C := fun _ _ => True) ?_ ?_ schedule
      fun _ _ _ _ => trivial
    · exact ⟨_,at_start db calls,
        Or.inr (refreshing_start db c calls hcalls hkeyed ((cacheRight_iff hkeyed).mp hstart))⟩
    · intro p i q k hJ _ hask
      exact hJ.step out hask fun stages st' db' _ hJ hs => refreshing_or_refused_step hJ hs
  obtain ⟨stages,hat,hrun⟩ := hrun
  have hended : ∀ i, (stages i).program = .ret () := fun i => (hat i).symm.trans (hended i)
  rcases hrun with ⟨i,_,⟨e,rfl⟩,⟨goroutine,hst⟩ | hlog⟩ | hrefreshing
  · have hprogram := hended i
    rw [hst] at hprogram
    exact nomatch (show Prog.ask _ _ = Prog.ret () from hprogram)
  · exact (hok i e hlog).elim
  · rw [cacheRight_iff hrefreshing.keyed]
    intro m hm hconv
    rcases hrefreshing.cache m hm hconv (hcurrent m hm hconv) with hright | ⟨j,howes⟩
    · exact hright
    · exact (Stage.not_owes_of_ended (hended j) m.id howes).elim

end Runs

section Quiet
variable {ι : Type} [DecidableEq ι] {x : Nat} {u : String} {log : List (ι × Stmt)}

def quiet (log : List (ι × Stmt)) : Bool :=
  log.all fun entry => match entry with
    | (_,.createMessage _) => false
    | (_,.updateMember _ cols) => .lastReadMessageID ∉ cols
    | _ => true

theorem LastWriteCurrent.of_quiet
    (h : ∀ i, quiet (since (countsFor i u) (upToLast (writesRow x) log).dropLast) = true ∧
      quiet (since (listsMembers i) (upToLast (writesRow x) log).dropLast) = true) :
    LastWriteCurrent x u log := by
  intro before i row cols hlog
  have hbefore : (upToLast (writesRow x) log).dropLast = before := by
    rw [hlog,List.dropLast_concat]
  rw [hbefore] at h
  refine ⟨fun j row row' cols' hin => ?_,fun _ j row cols' hin hcols => ?_⟩
  · exact absurd (List.all_eq_true.mp (h i).1 _ hin) nofun
  · exact absurd (List.all_eq_true.mp (h i).2 _ hin) (by simp [hcols])

end Quiet

def secondGreeting : SendMessageReq := { greeting true with clientMsgId := "l" }

def interleavedRun : Calls Bool :=
  runCalls countingOuter pairDatabase
    (fun first => .send (if first then greeting true else secondGreeting))
    (List.replicate 4 true ++ List.replicate 14 false ++ List.replicate 10 true)

theorem unread_cache_right_of_last_writes_current_interleaved :
    responses interleavedRun.log = [(false,.ok (.sent 2 "l" 1)),(true,.ok (.sent 1 "k" 0))] ∧
      interleavedRun.state.live.map (fun m => (m.userUUID,m.unreadCount)) = [("a",0),("b",2)] ∧
      CacheRight countingOuter interleavedRun.state 1 := by
  have hresponses : responses interleavedRun.log =
      [(false,.ok (.sent 2 "l" 1)),(true,.ok (.sent 1 "k" 0))] := rfl
  refine ⟨hresponses,rfl,?_⟩
  refine unread_cache_right_of_last_writes_current countingOuter pairDatabase 1 _ (fun first => ?_)
    ⟨by decide,by decide,by decide⟩ ?_ _ (fun first => ?_) ?_ ?_
  · cases first <;> rfl
  · rw [cacheRight_iff ⟨by decide,by decide,by decide⟩]
    decide
  · cases first <;> rfl
  · intro i e hlog
    have hmem : (i,.error (.dataCreateFail e)) ∈ responses interleavedRun.log :=
      mem_responses.mpr hlog
    rw [hresponses] at hmem
    simp at hmem
  · intro m hm _
    have hrows : interleavedRun.state.live.map (fun m => (m.id,m.userUUID)) =
      [(1,"a"),(2,"b")] := rfl
    have hrow := List.mem_map_of_mem (f := fun m => (m.id,m.userUUID)) hm
    change (m.id,m.userUUID) ∈ interleavedRun.state.live.map (fun m => (m.id,m.userUUID)) at hrow
    rw [hrows] at hrow
    rcases List.mem_cons.mp hrow with hrow | hrow
    · rw [(Prod.mk.inj hrow).1,(Prod.mk.inj hrow).2]
      refine LastWriteCurrent.of_quiet fun i => ?_
      cases i <;> exact ⟨rfl,rfl⟩
    · rw [(Prod.mk.inj (List.mem_singleton.mp hrow)).1,(Prod.mk.inj (List.mem_singleton.mp hrow)).2]
      refine LastWriteCurrent.of_quiet fun i => ?_
      cases i <;> exact ⟨rfl,rfl⟩

/-- The first sender has counted one message for `b`; the second message is inserted
and counted for `b`; then the first sender writes its count. -/
def overtakenRun : Calls Bool :=
  runCalls countingOuter pairDatabase
    (fun first => .send (if first then greeting true else secondGreeting))
    (List.replicate 12 true ++ List.replicate 14 false ++ [true,true])

theorem older_count_over_newer :
    CacheRight countingOuter pairDatabase 1 ∧ (∀ i, overtakenRun.threads i = .ret ()) ∧
    responses overtakenRun.log = [(true,.ok (.sent 1 "k" 0)),(false,.ok (.sent 2 "l" 1))] ∧
    overtakenRun.state.live.map (fun m => (m.userUUID,m.unreadCount)) = [("a",0),("b",1)] ∧
    reportedUnread countingOuter overtakenRun.state "b" 1 = [2] ∧
    ¬ CacheRight countingOuter overtakenRun.state 1 := by
  refine ⟨?_,?_,rfl,rfl,rfl,fun h => ?_⟩
  · rw [cacheRight_iff ⟨by decide,by decide,by decide⟩]
    decide
  · intro i
    cases i <;> rfl
  · have hb := h _ (List.mem_of_mem_tail (List.mem_singleton_self _)) rfl
    exact absurd hb (by decide)

end Imy.Chat
