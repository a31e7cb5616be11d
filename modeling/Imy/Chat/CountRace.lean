import Imy.Chat.CountTally
set_option autoImplicit false

namespace Imy.Chat
open Imy.Lib

section Steps
variable {ι : Type} [DecidableEq ι] {out : Outer} {c : Nat} {calls : ι → MemberCall}
  {sc : MemberScene ι} {i : ι} {st : CallStage MemberStage} {q : Stmt} {r : Roster}
open MemberStage

theorem Tallied.step (h : Tallied c calls sc)
    (happart : Apart calls)
    (hnext : CallStage.Arrives sc (sc.next (CallStage.script scene) (exec out) i) i st q r)
    (hof : Of c (calls i) st)
    (hkeys : ∀ u, (c,u) ∈ r.seats.map Seat.key → (c,u) ∈ sc.state.roster.seats.map Seat.key ∨
      (u ∈ (calls i).added ∧ ¬ BeforeInsert st))
    (hinsert : BeforeInsert st → BeforeInsert (sc.stages i))
    (hdelete : BeforeDelete st → BeforeDelete (sc.stages i) ∧ ¬ q.Deletes)
    (htag : ∀ req mem, st = .main (.delete req mem) →
      ∃ m ∈ sc.state.members, m.id = mem.id ∧ m.conversationID = c)
    (hfair : (tally c r (Function.update sc.stages i st) (sc.log ++ [(i,q)])).Fair) :
    Tallied c calls (sc.next (CallStage.script scene) (exec out) i) := by
  obtain ⟨hroster,hstages,hlog⟩ := hnext
  have hlater := CallStage.later_next scene out sc i
  refine ⟨CallStage.keyed_next h.keyed i,h.silent.next scene_silent i,?_,?_,?_,?_,?_,?_⟩
  · obtain ⟨conv,hconv,hid⟩ := h.room
    obtain ⟨conv',hconv',hstill⟩ := hlater.conversations.mem hconv
    exact ⟨conv',hconv',hstill.id.trans hid⟩
  · intro j
    rw [hstages]
    by_cases hj : j = i
    · subst hj
      rwa [Function.update_self]
    · rw [Function.update_of_ne hj]
      exact h.stages j
  · intro j hbefore u hu hin
    rw [hstages] at hbefore
    rw [hroster] at hin
    by_cases hj : j = i
    · subst hj
      rw [Function.update_self] at hbefore
      rcases hkeys u hin with hin | ⟨-,hnot⟩
      · exact h.fresh j (hinsert hbefore) u hu hin
      · exact hnot hbefore
    · rw [Function.update_of_ne hj] at hbefore
      rcases hkeys u hin with hin | ⟨hu',-⟩
      · exact h.fresh j hbefore u hu hin
      · exact happart j i hj u hu hu'
  · intro j hbefore e he heq
    rw [hstages] at hbefore
    rw [hlog,List.mem_append,List.mem_singleton] at he
    by_cases hj : j = i
    · subst hj
      rw [Function.update_self] at hbefore
      obtain ⟨hbefore,hq⟩ := hdelete hbefore
      rcases he with he | rfl
      · exact h.undeleted j hbefore e he heq
      · exact hq
    · rw [Function.update_of_ne hj] at hbefore
      rcases he with he | rfl
      · exact h.undeleted j hbefore e he heq
      · exact (hj heq.symm).elim
  · intro j req mem hst
    rw [hstages] at hst
    have htagged : ∃ m ∈ sc.state.members, m.id = mem.id ∧ m.conversationID = c := by
      by_cases hj : j = i
      · subst hj
        rw [Function.update_self] at hst
        exact htag req mem hst
      · rw [Function.update_of_ne hj] at hst
        exact h.tagged j req mem hst
    obtain ⟨m,hm,hid,hc⟩ := htagged
    obtain ⟨m',hm',hstill⟩ := hlater.members.mem hm
    exact ⟨m',hm',hstill.id.trans hid,hstill.conversationID.trans hc⟩
  · rw [hroster,hstages,hlog]
    exact hfair

theorem announces_broadcast (event : Event) (members : List ChatConversationMember) :
    (broadcast event members).Yields Stmt.Announces fun _ => True :=
  Prog.yields_forM members fun _ _ => ⟨trivial,fun _ => trivial⟩

theorem announces_added (d : Nat) (us : List String) :
    (announceAdded d us).Yields Stmt.Announces fun _ => True := by
  have htell : (forM us fun u => tellUnread u d 0).Yields Stmt.Announces fun _ => True :=
    Prog.yields_forM us fun u _ => ⟨trivial,fun _ => trivial⟩
  refine ⟨trivial,fun answer => ?_⟩
  rcases answer with e | members
  · exact htell
  · exact (announces_broadcast _ members).bind fun _ _ => htell

theorem announces_removed (d : Nat) (u : String) :
    (announceRemoved d u).Yields Stmt.Announces fun _ => True := by
  refine ⟨trivial,fun answer => ?_⟩
  rcases answer with e | members
  · exact ⟨trivial,fun _ => trivial⟩
  · exact (announces_broadcast _ members).bind fun _ _ => ⟨trivial,fun _ => trivial⟩

theorem of_refused (call : MemberCall) (e : ErrCode) : Of c call (CallStage.refused e) := by
  cases call <;> exact trivial

theorem of_done_added (req : AddMembersReq) (us : List String) :
    Of c (.add req) (CallStage.done (req.reply us)) := announces_added _ us

theorem of_done_removed (req : RemoveMemberReq) :
    Of c (.remove req) (CallStage.done req.reply) := announces_removed _ _

theorem idle_respond (result : Except ErrCode Response) (g : ChatM Unit) :
    Idle (.respond result g) := ⟨rfl,rfl,id,id⟩

theorem idle_done (reply : Reply) : Idle (CallStage.done reply) := idle_respond _ _

theorem idle_after (g : ChatM Unit) : Idle (.after g) := ⟨rfl,rfl,id,id⟩

theorem Tallied.quiet (h : Tallied c calls sc)
    (happart : Apart calls)
    (hnext : CallStage.Arrives sc (sc.next (CallStage.script scene) (exec out) i) i st q
      sc.state.roster)
    (hof : Of c (calls i) st) (hi : Idle (sc.stages i)) (hst : Idle st) (hq : q.Plain)
    (hinsert : BeforeInsert st → BeforeInsert (sc.stages i))
    (hdelete : BeforeDelete st → BeforeDelete (sc.stages i))
    (htag : ∀ req mem, st = .main (.delete req mem) →
      ∃ m ∈ sc.state.members, m.id = mem.id ∧ m.conversationID = c) :
    Tallied c calls (sc.next (CallStage.script scene) (exec out) i) := by
  have hnot : ¬ q.Deletes := by cases q <;> first | exact id | exact fun _ => hq
  refine h.step happart hnext hof (fun u hin => Or.inl hin) hinsert
    (fun hbefore => ⟨hdelete hbefore,hnot⟩) htag ?_
  rw [tally_plain hi hst hq]
  exact h.fair

theorem Tallied.looks (h : Tallied c calls sc)
    (happart : Apart calls) {d : Nat}
    (hnext : CallStage.Arrives sc (sc.next (CallStage.script scene) (exec out) i) i st
      (.findMembers d) sc.state.roster)
    (hof : Of c (calls i) st) (hi : Idle (sc.stages i))
    (hseen : ∀ n, expects st = some n → n = (sc.state.roster.sitting c).length)
    (hholds : holds st = none) (howing : ¬ Owing st) (hadding : ¬ Adding st)
    (hinsert : BeforeInsert st → BeforeInsert (sc.stages i)) (hdelete : ¬ BeforeDelete st) :
    Tallied c calls (sc.next (CallStage.script scene) (exec out) i) := by
  refine h.step happart hnext hof (fun u hin => Or.inl hin) hinsert
    (fun hbefore => (hdelete hbefore).elim) ?_ ?_
  · rintro req mem rfl
    exact (hdelete trivial).elim
  · rw [tally_look hi hholds howing hadding]
    exact h.fair.look hseen

theorem Tallied.next_caller (h : Tallied c calls sc)
    (happart : Apart calls) {call : MemberCall}
    (hi : sc.stages i = .main (.caller call)) :
    Tallied c calls (sc.next (CallStage.script scene) (exec out) i) := by
  have hof := h.stages i
  rw [hi] at hof
  have hcall : call = calls i := by
    cases hc : calls i <;> rw [hc] at hof <;> exact hof
  have hidle : Idle (sc.stages i) := by
    rw [hi]
    exact ⟨rfl,rfl,id,id⟩
  by_cases hsits : call.uuid ∈ sc.state.roster.sitting call.conversationId
  · have hafter : Of c (calls i) (.main (afterCaller call)) ∧ Idle (.main (afterCaller call)) := by
      rw [hcall]
      cases calls i <;> exact ⟨rfl,rfl,rfl,id,id⟩
    refine h.quiet happart ((leads_caller_sits out hsits).next hi) hafter.1 hidle hafter.2 trivial
      ?_ ?_ ?_
    · exact fun _ => hi ▸ trivial
    · exact fun _ => hi ▸ trivial
    · exact fun req mem hst => by cases call <;> cases hst
  · refine h.quiet happart ((leads_caller_lacks out hsits).next hi) (of_refused _ _) hidle
      (idle_respond _ _) trivial ?_ ?_ ?_
    · exact fun hb => hb.elim
    · exact fun hb => hb.elim
    · exact fun req mem hst => by cases hst

theorem Tallied.next_list (h : Tallied c calls sc) (happart : Apart calls) {req : AddMembersReq}
    (hi : sc.stages i = .main (.list req)) (hcall : calls i = .add req)
    (hc : req.conversationId = c) :
    Tallied c calls (sc.next (CallStage.script scene) (exec out) i) := by
  have hidle : Idle (sc.stages i) := by
    rw [hi]
    exact ⟨rfl,rfl,id,id⟩
  have hnext := (leads_list out sc.state req).next hi
  rw [inserting] at hnext
  split at hnext
  · refine h.looks happart hnext (hcall ▸ of_done_added req []) hidle ?_ rfl id id ?_ id
    · exact fun n hn => by cases hn
    · exact fun hb => hb.elim
  · refine h.looks happart hnext ?_ hidle ?_ rfl id id ?_ id
    · rw [hcall]
      exact ⟨rfl,nodup_newUUIDs,fun u hu => (mem_newUUIDs.mp hu).1⟩
    · intro n hn
      rw [← hc]
      exact (Option.some.inj hn).symm
    · exact fun _ => hi ▸ trivial

theorem Tallied.next_insert (h : Tallied c calls sc) (happart : Apart calls) {req : AddMembersReq}
    {existing : Nat} {toCreate : List String}
    (hi : sc.stages i = .main (.insert req existing toCreate))
    (hcall : calls i = .add req) (hc : req.conversationId = c) :
    Tallied c calls (sc.next (CallStage.script scene) (exec out) i) := by
  have hof := h.stages i
  rw [hi,hcall] at hof
  obtain ⟨-,hnodup,hsub⟩ := hof
  have hadded : ∀ u ∈ toCreate, u ∈ (calls i).added := by
    rw [hcall]
    exact hsub
  have hfree : Seat.Free sc.state.roster.seats req.conversationId toCreate := by
    refine Seat.free_of_fresh ?_ hnodup fun u hu => ?_
    · rw [keys_roster]
      exact (pairwise_keys _).mp h.keyed.memberKeys
    · rw [hc]
      exact h.fresh i (hi ▸ trivial) u (hadded u hu)
  have hnext := (leads_insert_free out hfree).next hi
  rw [hc] at hnext
  refine h.step happart hnext (hcall ▸ rfl) ?_ (fun hb => hb.elim) ?_ ?_ ?_
  · intro u hin
    rw [Roster.enter,Seat.keys_enter,List.mem_append] at hin
    refine hin.imp_right fun hnew => ?_
    obtain ⟨v,hv,heq⟩ := List.mem_map.mp hnew
    cases heq
    exact ⟨hadded _ hv,id⟩
  · exact fun hb => hb.elim
  · exact fun req mem hst => by cases hst
  · change (tally c _ _ (sc.log ++ [(i,Stmt.createMembers _)])).Fair
    rw [tally_enter hi]
    exact h.fair.enter _

theorem Tallied.next_find (h : Tallied c calls sc) (happart : Apart calls) {req : RemoveMemberReq}
    (hi : sc.stages i = .main (.find req)) (hcall : calls i = .remove req)
    (hc : req.conversationId = c) :
    Tallied c calls (sc.next (CallStage.script scene) (exec out) i) := by
  have hidle : Idle (sc.stages i) := by
    rw [hi]
    exact ⟨rfl,rfl,id,id⟩
  by_cases hsits : req.removeUUID ∈ sc.state.roster.sitting req.conversationId
  · obtain ⟨mem,hmem,hid,hleads⟩ := leads_find_sits out hsits
    refine h.quiet happart (hleads.next hi) (hcall ▸ rfl) hidle ⟨rfl,rfl,id,id⟩ trivial ?_ ?_ ?_
    · exact fun hb => hb.elim
    · exact fun _ => hi ▸ trivial
    · intro req' mem' hst
      cases hst
      exact ⟨mem,hmem,rfl,hid.trans hc⟩
  · refine h.quiet happart ((leads_find_lacks out hsits).next hi) (of_refused _ _) hidle
      (idle_respond _ _) trivial ?_ ?_ ?_
    · exact fun hb => hb.elim
    · exact fun hb => hb.elim
    · exact fun req mem hst => by cases hst

theorem Tallied.next_respond (h : Tallied c calls sc) (happart : Apart calls)
    {result : Except ErrCode Response} {g : ChatM Unit} (hi : sc.stages i = .respond result g) :
    Tallied c calls (sc.next (CallStage.script scene) (exec out) i) := by
  have hof := h.stages i
  rw [hi] at hof
  have hnext : CallStage.Arrives sc (sc.next (CallStage.script scene) (exec out) i) i (.after g)
      (.respond result) sc.state.roster := by
    rw [CallStage.next_respond hi]
    exact ⟨rfl,rfl,rfl⟩
  refine h.quiet happart hnext ?_ (hi ▸ idle_respond _ _) (idle_after _) trivial ?_ ?_ ?_
  · cases hc : calls i <;> rw [hc] at hof <;> exact hof
  · exact fun hb => hb.elim
  · exact fun hb => hb.elim
  · exact fun req mem hst => by cases hst

theorem Tallied.next_after (h : Tallied c calls sc) (happart : Apart calls) {g : ChatM Unit}
    (hi : sc.stages i = .after g) :
    Tallied c calls (sc.next (CallStage.script scene) (exec out) i) := by
  have hof := h.stages i
  rw [hi] at hof
  have hg : g.Yields Stmt.Announces fun _ => True := by
    cases hc : calls i <;> rw [hc] at hof <;> exact hof
  have hidle : Idle (sc.stages i) := hi ▸ idle_after _
  rcases CallStage.next_after scene out hi with ⟨q,k,rfl,hnext⟩ | hnext
  · obtain ⟨hq,hk⟩ := hg
    have hof' : ∀ answer, Of c (calls i) (.after (k answer)) := by
      intro answer
      cases calls i <;> exact hk answer
    have hreads : q.Reads := by cases q <;> first | exact trivial | exact hq.elim
    have harrives : CallStage.Arrives sc (sc.next (CallStage.script scene) (exec out) i) i
        (.after (k (exec out q sc.state).1)) q sc.state.roster := by
      rw [hnext]
      exact ⟨roster_reads out sc.state hreads,rfl,rfl⟩
    cases q with
    | findMembers d =>
      refine h.looks happart harrives (hof' _) hidle ?_ rfl id id ?_ id
      · exact fun n hn => by cases hn
      · exact fun hb => hb.elim
    | sendJSON u event =>
      refine h.quiet happart harrives (hof' _) hidle (idle_after _) trivial ?_ ?_ ?_
      · exact fun hb => hb.elim
      · exact fun hb => hb.elim
      · exact fun req mem hst => by cases hst
    | _ => exact hq.elim
  · rwa [hnext]

theorem Tallied.rooms (h : Tallied c calls sc) : ∃ room ∈ sc.state.roster.rooms, room.id = c := by
  obtain ⟨conv,hconv,hid⟩ := h.room
  exact ⟨conv.room,List.mem_map_of_mem hconv,hid⟩

theorem follows_members : Follows (CallStage.program main) (CallStage.script scene) :=
  CallStage.follows serve_main

def Stmt.OnCount : Stmt → Prop
  | .getConversation _ | .updateConversation _ _ => True
  | _ => False

omit [DecidableEq ι] in
theorem owing_of_script {req : RemoveMemberReq} (hof : Of c (.remove req) st)
    {next : q.Answer → CallStage MemberStage}
    (hscript : CallStage.script scene st = some ⟨q,next⟩) (hq : q.OnCount) : Owing st := by
  cases st with
  | main stage =>
    cases stage with
    | read req' => exact trivial
    | write req' conv => exact trivial
    | caller call =>
      cases hscript
      exact hq.elim
    | find req' =>
      cases hscript
      exact hq.elim
    | delete req' mem =>
      cases hscript
      exact hq.elim
    | _ => exact hof.elim
  | respond result g =>
    cases hscript
    exact hq.elim
  | after g =>
    cases g with
    | ask q' k =>
      cases hscript
      have hannounces := hof.1
      cases q <;> first | exact hq.elim | exact hannounces.elim
    | ret u => cases hscript
    | fail e => cases hscript

omit [DecidableEq ι] in
theorem ask_member {p : Calls ι} (hshows : Shows (CallStage.program main) p sc)
    {stage : MemberStage}
    (hst : sc.stages i = .main stage) : ∃ k, p.threads i = .ask (scene stage).1 k :=
  hshows.ask follows_members (by rw [hst]; rfl)

theorem Tallied.owes_iff (h : Tallied c calls sc) {p : Calls ι}
    (hshows : Shows (CallStage.program main) p sc) : Owes calls p i ↔ Owing (sc.stages i) := by
  have hof := h.stages i
  constructor
  · rintro ⟨⟨req,hcall⟩,hask⟩
    rw [hcall] at hof
    rcases hask with ⟨d,k,hask⟩ | ⟨row,cols,k,hask⟩
    · obtain ⟨next,hscript⟩ := hshows.asks follows_members hask
      exact owing_of_script hof hscript trivial
    · obtain ⟨next,hscript⟩ := hshows.asks follows_members hask
      exact owing_of_script hof hscript trivial
  · intro howing
    cases hst : sc.stages i with
    | main stage =>
      obtain ⟨k,hk⟩ := ask_member hshows hst
      rw [hst] at hof howing
      cases hcall : calls i with
      | add req =>
        rw [hcall] at hof
        cases stage <;> first | exact howing.elim | exact hof.elim
      | remove req =>
        refine ⟨⟨req,hcall⟩,?_⟩
        cases stage with
        | read req' => exact Or.inl ⟨_,k,hk⟩
        | write req' conv => exact Or.inr ⟨_,_,k,hk⟩
        | _ => exact howing.elim
    | respond result g =>
      rw [hst] at howing
      exact howing.elim
    | after g =>
      rw [hst] at howing
      exact howing.elim

variable [Finite ι]

theorem Tallied.next_delete (h : Tallied c calls sc) (happart : Apart calls) {req : RemoveMemberReq}
    {mem : ChatConversationMember} (hi : sc.stages i = .main (.delete req mem))
    (hcall : calls i = .remove req) (hlive : ∃ m ∈ sc.state.live, m.id = mem.id) :
    Tallied c calls (sc.next (CallStage.script scene) (exec out) i) := by
  obtain ⟨m,hm,hid⟩ := hlive
  have hconv : m.conversationID = c := by
    obtain ⟨m',hm',hid',hc⟩ := h.tagged i req mem hi
    rw [eq_of_increasing h.keyed.memberIDs (List.mem_of_mem_filter hm) hm' (hid.trans hid'.symm)]
    exact hc
  obtain ⟨hsits,hleads⟩ := leads_delete out h.keyed req hm hid
  rw [hconv] at hsits hleads
  have hless := Seat.length_sitting_leave (by
    rw [keys_roster]
    exact (pairwise_keys _).mp h.keyed.memberKeys) hsits
  have hpos : 0 < (sc.state.roster.sitting c).length := List.length_pos_of_mem hsits
  have hidle : Idle (sc.stages i) := by
    rw [hi]
    exact ⟨rfl,rfl,id,id⟩
  refine h.step happart (hleads.next hi) (hcall ▸ rfl) ?_ (fun hb => hb.elim)
    (fun hb => hb.elim) ?_ ?_
  · intro u hin
    rw [Roster.leave,Seat.keys_leave] at hin
    exact Or.inl hin
  · exact fun req mem hst => by cases hst
  · change (tally c _ _ (sc.log ++ [(i,Stmt.deleteMember _)])).Fair
    rw [tally_leave hidle hless]
    refine h.fair.leave ?_ hpos
    rintro ⟨e,he,heq,hdel⟩
    exact h.undeleted i (hi ▸ trivial) e he heq hdel

theorem Tallied.next_read (h : Tallied c calls sc) (happart : Apart calls) {req : RemoveMemberReq}
    (hi : sc.stages i = .main (.read req)) (hcall : calls i = .remove req)
    (hc : req.conversationId = c) :
    Tallied c calls (sc.next (CallStage.script scene) (exec out) i) := by
  subst hc
  obtain ⟨conv,hid,hcount,hleads⟩ := leads_read out h.room
  have hnext := hleads.next hi
  rw [settling] at hnext
  split at hnext
  · rename_i hpos
    refine h.step happart hnext ?_ (fun u hin => Or.inl hin) (fun hb => hb.elim) (fun hb => hb.elim)
      ?_ ?_
    · rw [hcall]
      exact ⟨rfl,hid,hpos⟩
    · exact fun req mem hst => by cases hst
    · change (tally _ _ _ (sc.log ++ [(i,Stmt.getConversation _)])).Fair
      rw [tally_read hi hcount]
      exact h.fair.read
  · rename_i hzero
    refine h.step happart hnext (hcall ▸ of_done_removed req) (fun u hin => Or.inl hin)
      (fun hb => hb.elim) (fun hb => hb.elim) ?_ ?_
    · exact fun req mem hst => by cases hst
    · change (tally _ _ _ (sc.log ++ [(i,Stmt.getConversation _)])).Fair
      rw [tally_skip hi (idle_done _)]
      refine h.fair.skip ?_ ?_ ?_
      · change Owing (sc.stages i)
        rw [hi]
        exact trivial
      · change holds (sc.stages i) = none
        rw [hi]
        rfl
      · change (sc.state.roster.countOf req.conversationId).toNat = 0
        rw [← hcount]
        rw [UInt32.lt_iff_toNat_lt] at hzero
        exact Nat.eq_zero_of_not_pos hzero

theorem Tallied.next_count (h : Tallied c calls sc) (happart : Apart calls) {req : AddMembersReq}
    {existing : Nat} {toCreate : List String}
    (hi : sc.stages i = .main (.count req existing toCreate))
    (hcall : calls i = .add req) (hc : req.conversationId = c) (hmissed : ¬ Missed sc.log i)
    (hgone : GoneSince sc.log i = {j | Owing (sc.stages j)})
    (hbound : sc.state.roster.seats.length < 2^32) :
    Tallied c calls (sc.next (CallStage.script scene) (exec out) i) := by
  have hnext := (leads_count out sc.state req existing toCreate).next hi
  rw [hc] at hnext
  have hexpects : (tally c sc.state.roster sc.stages sc.log).expects i =
      some (existing+toCreate.length) := by
    change expects (sc.stages i) = _
    rw [hi]
    rfl
  have hsmall : existing+toCreate.length < 2^32 := by
    have hcrowd := h.fair.expects i _ hexpects hmissed
    have hle := Set.ncard_le_ncard (h.fair.gone i)
    have hever := h.fair.ever
    change _ ≤ sc.state.roster.seats.length at hever
    omega
  refine h.step happart hnext (hcall ▸ of_done_added req toCreate) (fun u hin => Or.inl hin)
    (fun hb => hb.elim) (fun hb => hb.elim) ?_ ?_
  · exact fun req mem hst => by cases hst
  · change (tally _ _ _ (sc.log ++ [(i,Stmt.updateConversation _ _)])).Fair
    rw [tally_write hi (idle_done _) (Roster.countOf_setCount h.rooms _),
      UInt32.toNat_ofNat_of_lt' hsmall]
    exact h.fair.write hexpects hmissed hgone

theorem Tallied.next_write (h : Tallied c calls sc) (happart : Apart calls) {req : RemoveMemberReq}
    {conv : ChatConversation} (hi : sc.stages i = .main (.write req conv))
    (hcall : calls i = .remove req) (hid : conv.id = c) (hpos : 0 < conv.memberCount)
    (hstale : ¬ Stale sc.log i) :
    Tallied c calls (sc.next (CallStage.script scene) (exec out) i) := by
  have hnext := (leads_write out sc.state req conv).next hi
  rw [hid] at hnext
  refine h.step happart hnext (hcall ▸ of_done_removed req) (fun u hin => Or.inl hin)
    (fun hb => hb.elim) (fun hb => hb.elim) ?_ ?_
  · exact fun req mem hst => by cases hst
  · change (tally _ _ _ (sc.log ++ [(i,Stmt.updateConversation _ _)])).Fair
    rw [tally_settle hi (idle_done _) (Roster.countOf_setCount h.rooms _)]
    refine h.fair.settle ?_ ?_ hstale
    · change Owing (sc.stages i)
      rw [hi]
      exact trivial
    · change holds (sc.stages i) = _
      rw [hi]
      have hone : (1 : UInt32) ≤ conv.memberCount := by
        rw [UInt32.lt_iff_toNat_lt] at hpos
        exact UInt32.le_iff_toNat_le.mpr hpos
      have hone' : 1 ≤ conv.memberCount.toNat := UInt32.le_iff_toNat_le.mp hone
      change some conv.memberCount.toNat = _
      rw [UInt32.toNat_sub_of_le _ _ hone]
      exact congrArg some (Nat.sub_add_cancel hone').symm

theorem Tallied.next (h : Tallied c calls sc) (happart : Apart calls)
    (hcalls : ∀ i, (calls i).conversationId = c) {p : Calls ι}
    (hshows : Shows (CallStage.program main) p sc) (hsettles : Settles calls p i)
    (hbound : p.state.members.length < 2^32) :
    Tallied c calls (sc.next (CallStage.script scene) (exec out) i) := by
  have hof := h.stages i
  have hc := hcalls i
  cases hst : sc.stages i with
  | respond result g => exact h.next_respond happart hst
  | after g => exact h.next_after happart hst
  | main stage =>
    obtain ⟨k,hk⟩ := ask_member hshows hst
    rw [hst] at hof
    cases hcall : calls i with
    | add req =>
      rw [hcall] at hof hc
      cases stage with
      | caller call => exact h.next_caller happart hst
      | list req' =>
        obtain rfl : req' = req := hof
        exact h.next_list happart hst hcall hc
      | insert req' existing toCreate =>
        obtain ⟨rfl,-⟩ := hof
        exact h.next_insert happart hst hcall hc
      | count req' existing toCreate =>
        obtain rfl : req' = req := hof
        obtain ⟨hmissed,hgone⟩ := hsettles.adds _ _ _ k hcall hk
        rw [hshows.log] at hmissed hgone
        refine h.next_count happart hst hcall hc hmissed ?_ ?_
        · ext j
          rw [hgone j]
          exact h.owes_iff hshows
        · rw [hshows.state] at hbound
          simpa [Database.roster] using hbound
      | _ => exact hof.elim
    | remove req =>
      rw [hcall] at hof hc
      cases stage with
      | caller call => exact h.next_caller happart hst
      | find req' =>
        obtain rfl : req' = req := hof
        exact h.next_find happart hst hcall hc
      | delete req' mem =>
        obtain rfl : req' = req := hof
        have hlive := hsettles.deletes _ k hk
        rw [hshows.state] at hlive
        exact h.next_delete happart hst hcall hlive
      | read req' =>
        obtain rfl : req' = req := hof
        exact h.next_read happart hst hcall hc
      | write req' conv =>
        obtain ⟨rfl,hid,hpos⟩ := hof
        have hstale := hsettles.removes _ _ _ k hcall hk
        rw [hshows.log] at hstale
        exact h.next_write happart hst hcall hid hpos hstale
      | _ => exact hof.elim

end Steps

section Start
variable {ι : Type} [DecidableEq ι] {db : Database} {c : Nat}
open MemberStage

theorem countOf_roster (hkeyed : Keyed db) {conv : ChatConversation}
    (hconv : conv ∈ db.conversations) :
    db.roster.countOf conv.id = conv.memberCount := by
  have hrooms : db.roster.rooms.find? (fun room => room.id = conv.id) =
      (db.conversations.find? fun conv' => conv'.id = conv.id).map (·.room) := List.find?_map ..
  rw [Roster.countOf,hrooms]
  cases hfind : db.conversations.find? fun conv' => conv'.id = conv.id with
  | none => exact (List.find?_eq_none.mp hfind conv hconv (by simp)).elim
  | some conv' =>
    have hid : conv'.id = conv.id := by simpa using List.find?_some hfind
    rw [eq_of_increasing hkeyed.conversationIDs (List.mem_of_find?_eq_some hfind) hconv hid]
    rfl

/-- The member count of the conversation is the number of its live rows. -/
def Database.CountRight (db : Database) (c : Nat) : Prop :=
  ∀ conv ∈ db.conversations, conv.id = c →
    conv.memberCount.toNat = (db.live.filter fun m => m.conversationID = c).length

theorem countRight_iff (hkeyed : Keyed db) (hconv : ∃ conv ∈ db.conversations, conv.id = c) :
    db.CountRight c ↔ (db.roster.countOf c).toNat = (db.roster.sitting c).length := by
  rw [sitting_roster,List.length_map]
  constructor
  · intro h
    obtain ⟨conv,hconv,rfl⟩ := hconv
    rw [countOf_roster hkeyed hconv]
    exact h conv hconv rfl
  · rintro h conv hin rfl
    rwa [countOf_roster hkeyed hin] at h

theorem idle_first (call : MemberCall) : Idle (first call) := by
  cases call with
  | add req =>
    rw [first]
    split <;> exact ⟨rfl,rfl,id,id⟩
  | remove req =>
    rw [first]
    split <;> exact ⟨rfl,rfl,id,id⟩

theorem of_first (call : MemberCall) : Of c call (first call) := by
  cases call with
  | add req =>
    rw [first]
    split
    · exact trivial
    · exact rfl
  | remove req =>
    rw [first]
    split
    · exact trivial
    · exact rfl

theorem fair_start (hright : (db.roster.countOf c).toNat = (db.roster.sitting c).length)
    (calls : ι → MemberCall) : (tally c db.roster (fun i => first (calls i)) []).Fair := by
  have hidle := fun i => idle_first (calls i)
  have hleft : (tally c db.roster (fun i => first (calls i)) []).left = ∅ := by simp [tally]
  have howing : (tally c db.roster (fun i => first (calls i)) []).owing = ∅ :=
    Set.eq_empty_of_forall_notMem fun i => (hidle i).owing
  refine ⟨fun j k hk => ?_,?_,?_,fun j n hn => ?_,fun j n hn => ?_,fun _ => ?_⟩
  · obtain ⟨e,he,-⟩ := hk
    cases he
  · rw [howing]
    exact Set.empty_subset _
  · rw [hleft,Set.ncard_empty]
    exact Seat.length_sitting_le
  · cases (hidle j).expects.symm.trans hn
  · cases (hidle j).holds.symm.trans hn
  · rw [howing,Set.ncard_empty]
    exact hright

theorem startMembers_tallied (hkeyed : Keyed db) {calls : ι → MemberCall}
    (hconv : ∃ conv ∈ db.conversations, conv.id = c)
    (hnew : ∀ i, ∀ u ∈ (calls i).added, ¬ db.HasRow c u) (hright : db.CountRight c) :
    InScene (CallStage.program main) (Tallied c calls) (startMembers db calls) := by
  refine ⟨⟨db,fun i => first (calls i),[]⟩,⟨rfl,fun i => serve_call (calls i),rfl⟩,hkeyed,?_,hconv,
    fun i => of_first (calls i),?_,?_,?_,?_⟩
  · exact fun i _ result hin => by cases hin
  · intro i _ u hu hin
    rw [keys_roster] at hin
    obtain ⟨m,hm,hkey⟩ := List.mem_map.mp hin
    exact hnew i u hu ⟨m,hm,(Prod.mk.inj hkey).1,(Prod.mk.inj hkey).2⟩
  · exact fun i _ e he => by cases he
  · intro i req mem hst
    cases hcall : calls i with
    | add req' =>
      simp only [hcall,first] at hst
      split at hst <;> cases hst
    | remove req' =>
      simp only [hcall,first] at hst
      split at hst <;> cases hst
  · exact fair_start ((countRight_iff hkeyed hconv).mp hright) calls

variable [Finite ι]

/-- The count is right in the end when every write of it is current. -/
theorem memberCount_right_of_current_writes (out : Outer) (hkeyed : Keyed db)
    (hconv : ∃ conv ∈ db.conversations, conv.id = c) (hright : db.CountRight c)
    (calls : ι → MemberCall) (hcalls : ∀ i, (calls i).conversationId = c)
    (hnew : ∀ i, ∀ u ∈ (calls i).added, ¬ db.HasRow c u) (happart : Apart calls) (schedule : List ι)
    (hrows : (runMembers out db calls schedule).state.members.length < 2^32)
    (hreturned : ∀ i, ∃ result, (i,.respond result) ∈ (runMembers out db calls schedule).log)
    (hsettles : Pool.Turns (exec out) (Settles calls) (startMembers db calls) schedule) :
    (runMembers out db calls schedule).state.CountRight c := by
  have hbound : Pool.Turns (exec out) (fun p _ => p.state.members.length < 2^32)
      (startMembers db calls) schedule := by
    intro before i after hsplit
    refine lt_of_le_of_lt ?_ hrows
    rw [hsplit,runMembers,Pool.run_append]
    exact Pool.run_state (exec out) (I := fun t => _ ≤ t.members.length)
      (fun q s hs => hs.trans (later_exec out q s).members.length_le) le_rfl _
  have hrun : InScene (CallStage.program main) (Tallied c calls)
      (runMembers out db calls schedule) := by
    refine Pool.run_invariant (exec out)
      (C := fun p i => Settles calls p i ∧ p.state.members.length < 2^32)
      (startMembers_tallied hkeyed hconv hnew hright) ?_ schedule
      fun before i after hsplit => ⟨hsettles before i after hsplit,hbound before i after hsplit⟩
    exact fun p i _ _ hI hC _ => hI.next follows_members fun sc hshows hsc =>
      hsc.next happart hcalls hshows hC.1 hC.2
  obtain ⟨sc,hshows,htallied⟩ := hrun
  have hidle : ∀ i, Idle (sc.stages i) := by
    intro i
    obtain ⟨result,hin⟩ := hreturned i
    rw [hshows.log] at hin
    obtain ⟨g,hg⟩ := htallied.silent.returned hin
    rw [hg]
    exact idle_after g
  rw [hshows.state,countRight_iff htallied.keyed htallied.room]
  exact htallied.fair.count_eq (Set.eq_empty_of_forall_notMem fun i => (hidle i).adding)
    (Set.eq_empty_of_forall_notMem fun i => (hidle i).owing)

end Start

def addAndRemove (first : Bool) : MemberCall :=
  if first then .add ⟨"a",1,["c"]⟩ else .remove ⟨"a",1,"b"⟩

theorem Settles.of_plain {ι : Type} [DecidableEq ι] {calls : ι → MemberCall} {p : Calls ι} {i : ι}
    {q : Stmt} {k : q.Answer → ChatM Unit} (h : p.threads i = .ask q k) (hdelete : ¬ q.Deletes)
    (hcount : ¬ q.Counts) : Settles calls p i := by
  refine ⟨fun id k' h' => ?_,fun req row cols k' _ h' => ?_,fun req row cols k' _ h' => ?_⟩
  · cases h.symm.trans h'
    exact (hdelete trivial).elim
  · cases h.symm.trans h'
    exact (hcount trivial).elim
  · cases h.symm.trans h'
    exact (hcount trivial).elim

def twoMembers : Database := runOperations countingOuter emptyDatabase [newGroup,addB]

/-- The row is deleted after the list was asked for, and the count goes down after the new
one was written. -/
def lateRemoval : List Bool := [true,true,false,false,false,true,true,false,false,true,false]

theorem memberCount_right_of_current_writes_late_removal :
    (runMembers countingOuter twoMembers addAndRemove lateRemoval).state.CountRight 1 := by
  have hkept : Kept twoMembers := kept_empty.run countingOuter _
  refine memberCount_right_of_current_writes countingOuter hkept.keyed (by decide) ?_ addAndRemove
    ?_ ?_ ?_ lateRemoval (by decide) ?_ ?_
  · unfold Database.CountRight
    decide
  · intro i
    cases i <;> rfl
  · intro i u hu
    cases i with
    | true =>
      cases List.mem_singleton.mp hu
      unfold Database.HasRow
      decide
    | false => cases hu
  · intro i j hij u hu hu'
    cases i with
    | true =>
      cases j with
      | true => exact hij rfl
      | false => cases hu'
    | false => cases hu
  · intro i
    refine ⟨.ok .none,mem_responses.mp ?_⟩
    have hresponses : responses (runMembers countingOuter twoMembers addAndRemove lateRemoval).log =
        [(true,.ok .none),(false,.ok .none)] := rfl
    rw [hresponses]
    cases i <;> simp
  · refine Pool.turns_cons _ (Settles.of_plain rfl id id) ?_
    refine Pool.turns_cons _ (Settles.of_plain rfl id id) ?_
    refine Pool.turns_cons _ (Settles.of_plain rfl id id) ?_
    refine Pool.turns_cons _ (Settles.of_plain rfl id id) ?_
    refine Pool.turns_cons _ ?_ ?_
    · refine ⟨fun id k h => ?_,fun _ _ _ _ _ h => ?_,fun _ _ _ _ _ h => ?_⟩
      · cases h
        decide
      · cases h
      · cases h
    refine Pool.turns_cons _ (Settles.of_plain rfl id id) ?_
    refine Pool.turns_cons _ ?_ ?_
    · have hseen : since (lists true) (runMembers countingOuter twoMembers addAndRemove
          [true,true,false,false,false,true]).log = [(false,.takeMember 1 "a"),
            (false,.takeMember 1 "b"),(false,.deleteMember 2),
            (true,.createMembers [memberRow 1 "c"])] := rfl
      change Settles addAndRemove (runMembers countingOuter twoMembers addAndRemove
        [true,true,false,false,false,true]) true
      refine ⟨fun _ _ h => ?_,fun _ _ _ _ _ _ => ⟨?_,?_⟩,fun _ _ _ _ hcall => ?_⟩
      · cases h
      · rintro ⟨e,he,hother,hinserts⟩
        simp only [hseen,List.mem_cons,List.not_mem_nil,or_false] at he
        rcases he with rfl | rfl | rfl | rfl
        · exact hinserts
        · exact hinserts
        · exact hinserts
        · exact hother rfl
      · intro j
        cases j with
        | true =>
          refine iff_of_false ?_ ?_
          · rintro ⟨e,he,hown,hdeletes⟩
            simp only [hseen,List.mem_cons,List.not_mem_nil,or_false] at he
            rcases he with rfl | rfl | rfl | rfl
            · exact hdeletes
            · exact hdeletes
            · cases hown
            · exact hdeletes
          · rintro ⟨⟨req,hcall⟩,-⟩
            cases hcall
        | false =>
          refine iff_of_true ?_ ⟨⟨_,rfl⟩,Or.inl ⟨1,_,rfl⟩⟩
          refine ⟨(false,.deleteMember 2),?_,rfl,trivial⟩
          rw [hseen]
          simp
      · cases hcall
    refine Pool.turns_cons _ (Settles.of_plain rfl id id) ?_
    refine Pool.turns_cons _ ?_ ?_
    · refine ⟨fun _ _ h => ?_,fun _ _ _ _ hcall => ?_,fun _ _ _ _ _ _ => ?_⟩
      · cases h
      · cases hcall
      · rintro ⟨e,he,-⟩
        cases he
    refine Pool.turns_cons _ (Settles.of_plain rfl id id) ?_
    refine Pool.turns_cons _ (Settles.of_plain rfl id id) ?_
    exact fun before j after h => by simp at h
def twoAdditions (first : Bool) : MemberCall :=
  if first then .add ⟨"a",1,["b"]⟩ else .add ⟨"a",1,["c"]⟩

/-- Both list the members before either inserts: three live rows, and a count of two. -/
theorem memberCount_wrong_after_two_additions :
    (runOperations countingOuter emptyDatabase [newGroup]).CountRight 1 ∧
    responses (runMembers countingOuter (runOperations countingOuter emptyDatabase [newGroup])
      twoAdditions [true,true,false,false,true,true,true,false,false,false]).log =
      [(true,.ok .none),(false,.ok .none)] ∧
    ¬ (runMembers countingOuter (runOperations countingOuter emptyDatabase [newGroup])
      twoAdditions [true,true,false,false,true,true,true,false,false,
        false]).state.CountRight 1 := by
  unfold Database.CountRight
  exact ⟨by decide,rfl,by decide⟩

end Imy.Chat
