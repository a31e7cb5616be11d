import Imy.Lib.Lists
import Imy.Lib.Threads
import Imy.Friends.VerifyLogic
set_option autoImplicit false

namespace Imy.Friends.V2
open Imy.Lib

/-- A user whom the account leads to. -/
def AuthTable.Known (t : AuthTable) (a : Auth) : Prop := t.byAccount a.account = some a

structure Addressed (t : AuthTable) (db : VerifyTables) : Prop where
  auths : db.auths = t
  verifies : ∀ v ∈ db.verifies, ∃ a, t.Known a ∧ v.revID = a.id
  friends : ∀ f ∈ db.friends, ∃ a, t.Known a ∧ f.revID = a.id

section Users
variable {t : AuthTable} {a b : Auth}

theorem AuthTable.Known.mem (h : t.Known a) : a ∈ t.rows := List.mem_of_find?_eq_some h

theorem AuthTable.Known.eq_of_id (h : t.Known a) (h' : t.Known b) (hid : a.id = b.id) : a = b :=
  eq_of_distinct t.ids h.mem h'.mem hid

theorem AuthTable.Known.byID (h : t.Known a) : t.byID a.id = some a := by
  unfold AuthTable.byID
  cases hfind : t.rows.find? fun b => b.id = a.id with
  | none => simpa using List.find?_eq_none.mp hfind a h.mem
  | some b =>
    have hid : b.id = a.id := by simpa using List.find?_some hfind
    rw [eq_of_distinct t.ids (List.mem_of_find?_eq_some hfind) h.mem hid]

theorem AuthTable.Known.eq_of_account (h : t.Known a) (h' : t.Known b)
    (haccount : a.account = b.account) : a = b := by
  unfold AuthTable.Known at h h'
  rw [haccount,h'] at h
  exact (Option.some.inj h).symm

theorem uint32_id (h : t.Known a) : uint32 a.id = a.id := by
  have hrange := (t.range a h.mem).2
  rw [uint32,Int.emod_eq_of_lt]
  · rfl
  · exact Int.natCast_nonneg _
  · exact Int.ofNat_lt.mpr hrange

theorem known_of_byAccount {account : String} (h : t.byAccount account = some a) : t.Known a := by
  have haccount : a.account = account := by simpa using List.find?_some h
  rw [AuthTable.Known,haccount]
  exact h

end Users

section Calls
variable {s : VerifyServer}

theorem wp_first {α : Type} (f : VerifyTables → Option α)
    {Q : Except Imy.Auth.DBError α → VerifyServer → Prop} {E : VerifyErr → VerifyServer → Prop}
    (there : ∀ row (t : VerifyServer), t.tables = s.tables → f s.tables = some row → Q (.ok row) t)
    (none : ∀ t : VerifyServer, t.tables = s.tables → f s.tables = none →
      Q (.error .recordNotFound) t) : wp (first (fun _ => false) f) Q E s := by
  rw [first,wp_statement_sure]
  cases hf : f s.tables with
  | some row => exact there row _ rfl hf
  | none => exact none _ rfl hf

theorem wp_listFriends (sendId revId : Nat) : wp (listFriends (fun _ => false) sendId revId)
    (fun r t => t.tables = s.tables ∧ ∃ total, r = .ok ((s.tables.friends.filter fun f =>
      cond sendId f.sendID && cond revId f.revID).reverse,total)) (fun _ _ => False) s := by
  rw [listFriends,findAndCount,wp_bind,find,wp_statement_sure,wp_bind,count,wp_statement_sure]
  exact ⟨rfl,_,rfl⟩

theorem wp_listVerifies (sendId revId : Nat) : wp (listVerifies (fun _ => false) sendId revId)
    (fun _ t => t.tables = s.tables) (fun _ _ => False) s := by
  rw [listVerifies,findAndCount,wp_bind,find,wp_statement_sure,wp_bind,count,wp_statement_sure]
  rfl

def Sent (ob : Auth) (db db' : VerifyTables) : Prop :=
  db'.auths = db.auths ∧ db'.friends = db.friends ∧
    (db'.verifies = db.verifies ∨ ∃ v, v.revID = ob.id ∧ db'.verifies = db.verifies ++ [v])

theorem wp_sendOnce (userId : Nat) (ob : Auth) : wp (sendOnce (fun _ => false) userId ob)
    (fun _ t => Sent ob s.tables t.tables) (fun _ t => Sent ob s.tables t.tables) s := by
  have hnothing : Sent ob s.tables s.tables := ⟨rfl,rfl,Or.inl rfl⟩
  rw [sendOnce,wp_bind]
  refine wp_mono (wp_listFriends userId ob.id) (fun friends t ht => ?_) fun _ _ h => h.elim
  rw [wp_ite]
  split
  · rw [wp_throw,ht.1]
    exact hnothing
  rw [wp_bind]
  refine wp_mono (wp_listVerifies userId ob.id) (fun verifies u hu => ?_) fun _ _ h => h.elim
  rw [wp_ite]
  split
  · rw [wp_throw,hu,ht.1]
    exact hnothing
  rw [sendNew,wp_bind,createVerify,wp_statement_sure,hu,ht.1]
  exact ⟨rfl,rfl,Or.inr ⟨_,rfl,rfl⟩⟩

theorem wp_sendVerify (userId : Option Int) (account : String) :
    wp (sendVerify (fun _ => false) userId account)
      (fun _ t => ∃ ob, s.tables.auths.byAccount account = some ob ∧ Sent ob s.tables t.tables)
      (fun _ t => t.tables = s.tables ∨
        ∃ ob, s.tables.auths.byAccount account = some ob ∧ Sent ob s.tables t.tables) s := by
  rw [sendVerify,wp_bind]
  refine wp_first _ (fun ob t ht hob => ?_) fun t ht _ => Or.inl ht
  cases userId with
  | none => exact Or.inl ht
  | some userId64 =>
    rw [← ht] at hob ⊢
    exact wp_mono (wp_sendOnce (uint32 userId64) ob) (fun _ _ h => ⟨ob,hob,h⟩)
      fun _ _ h => Or.inr ⟨ob,hob,h⟩

/-- The record that the call finds is dealt with, and a row is made of it. -/
theorem wp_dealVerify (req : DealVerifyReq) : wp (dealVerify (fun _ => false) req)
    (fun _ t => ∃ v f, (s.tables.verifies.find? fun v => v.id = req.id) = some v ∧
      t.tables.auths = s.tables.auths ∧
      t.tables.verifies = s.tables.verifies.map (Verify.updated { v with status := req.status }) ∧
      f.sendID = v.sendID ∧ f.revID = v.revID ∧ t.tables.friends = s.tables.friends ++ [f])
    (fun _ t => (s.tables.verifies.find? fun v => v.id = req.id) = none ∧
        t.tables = s.tables) s := by
  rw [dealVerify,wp_bind]
  refine wp_first _ (fun v t ht hv => ?_) fun t ht hnone => ⟨hnone,ht⟩
  rw [← ht] at hv ⊢
  change wp (dealRecord (fun _ => false) v req.status) _ _ t
  rw [dealRecord,wp_bind,updateVerify,wp_statement_sure]
  exact ⟨v,_,hv,rfl,rfl,rfl,rfl,rfl⟩

theorem updated_revID (row old : Verify) :
    (row.updated old).revID = old.revID ∨ (row.updated old).revID = row.revID := by
  unfold Verify.updated
  split
  · dsimp only
    split
    · exact Or.inl rfl
    · exact Or.inr rfl
  · exact Or.inl rfl

theorem Addressed.next {t : AuthTable} (h : Addressed t s.tables) (call : VerifyCall) :
    Addressed t (final (call.main fun _ => false) s).tables := by
  have hsent : ∀ account ob db, s.tables.auths.byAccount account = some ob → Sent ob s.tables db →
      Addressed t db := by
    rintro account ob db hob ⟨hauths,hfriends,hverifies⟩
    rw [h.auths] at hob
    refine ⟨hauths.trans h.auths,fun v hv => ?_,fun f hf => h.friends f (hfriends ▸ hf)⟩
    rcases hverifies with heq | ⟨new,hrev,heq⟩
    · exact h.verifies v (heq ▸ hv)
    · rw [heq] at hv
      rcases List.mem_append.mp hv with hv | hv
      · exact h.verifies v hv
      · rw [List.mem_singleton.mp hv]
        exact ⟨ob,known_of_byAccount hob,hrev⟩
  refine final_of_wp (P := fun w : VerifyServer => Addressed t w.tables) ?_
  cases call with
  | sendVerify userId account =>
    refine wp_mono (wp_sendVerify userId account) ?_ ?_
    · rintro _ u ⟨ob,hob,hu⟩
      exact hsent account ob _ hob hu
    · rintro _ u (hu | ⟨ob,hob,hu⟩)
      · rw [hu]
        exact h
      · exact hsent account ob _ hob hu
  | dealVerify req =>
    refine wp_mono (wp_dealVerify req) ?_ ?_
    · rintro _ u ⟨v,f,hv,hauths,hverifies,-,hrev,hfriends⟩
      have hknown := h.verifies v (List.mem_of_find?_eq_some hv)
      refine ⟨hauths.trans h.auths,fun w hw => ?_,fun g hg => ?_⟩
      · rw [hverifies] at hw
        obtain ⟨old,hold,rfl⟩ := List.mem_map.mp hw
        rcases updated_revID { v with status := req.status } old with heq | heq
        · rw [heq]
          exact h.verifies old hold
        · rw [heq]
          exact hknown
      · rw [hfriends] at hg
        rcases List.mem_append.mp hg with hg | hg
        · exact h.friends g hg
        · rw [List.mem_singleton.mp hg,hrev]
          exact hknown
    · rintro _ u ⟨-,hu⟩
      rw [hu]
      exact h

end Calls

section Listing
variable {t : AuthTable} {s : VerifyServer} {u v : Auth}

theorem wp_infosOf (h : Addressed t s.tables) (list : List FriendV2)
    (hlist : ∀ f ∈ list, ∃ a, t.Known a ∧ f.revID = a.id) : wp (infosOf (fun _ => false) list)
      (fun infos _ => ∀ account, account ∈ infos.map (·.account) ↔
        ∃ f ∈ list, ∃ a, t.Known a ∧ f.revID = a.id ∧ a.account = account)
      (fun _ _ => False) s := by
  induction list generalizing s with
  | nil => exact fun account => by simp
  | cons item list ih =>
    obtain ⟨a,ha,hrev⟩ := hlist item List.mem_cons_self
    have hfound : s.tables.auths.byID item.revID = some a := by
      rw [h.auths,hrev]
      exact ha.byID
    rw [infosOf,wp_bind]
    refine wp_first _ (fun row w hw hrow => ?_) fun w hw hnone => ?_
    · obtain rfl := Option.some.inj (hrow.symm.trans hfound)
      rw [wp_bind]
      refine wp_mono (ih (s := w) (hw ▸ h) fun f hf => hlist f (List.mem_cons_of_mem _ hf)) ?_
        fun _ _ hfalse => hfalse
      intro infos _ hinfos account
      rw [List.map_cons,List.mem_cons,hinfos,List.exists_mem_cons_iff]
      refine or_congr_left ⟨fun heq => ⟨row,ha,hrev,heq.symm⟩,?_⟩
      rintro ⟨b,hb,hid,rfl⟩
      rw [ha.eq_of_id hb (hrev.symm.trans hid)]
    · rw [hfound] at hnone
      cases hnone

theorem mem_allFriendOf (h : Addressed t s.tables) (hu : t.Known u) (hv : t.Known v) :
    v.account ∈ allFriendOf s u ↔ ∃ f ∈ s.tables.friends, f.sendID = u.id ∧ f.revID = v.id := by
  have hcall : wp (allFriend (fun _ => false) (some (u.id : Int)))
      (fun infos _ => ∀ account, account ∈ infos.map (·.account) ↔
        ∃ f ∈ (s.tables.friends.filter fun f => cond u.id f.sendID && cond 0 f.revID).reverse,
          ∃ a, t.Known a ∧ f.revID = a.id ∧ a.account = account) (fun _ _ => False) s := by
    rw [allFriend,wp_bind,uint32_id hu]
    refine wp_mono (wp_listFriends u.id 0) ?_ fun _ _ hfalse => hfalse
    rintro r w ⟨hw,total,rfl⟩
    refine wp_infosOf (hw ▸ h) _ fun f hf => ?_
    exact h.friends f (List.mem_filter.mp (List.mem_reverse.mp hf)).1
  obtain ⟨infos,w,heq,hinfos⟩ := eq_ok_of_wp hcall
  have hpos := (t.range u hu.mem).1
  rw [allFriendOf,heq]
  dsimp only
  rw [hinfos]
  constructor
  · rintro ⟨f,hf,a,ha,hrev,haccount⟩
    obtain rfl := ha.eq_of_account hv haccount
    have hmem := List.mem_filter.mp (List.mem_reverse.mp hf)
    have hsend : f.sendID = u.id := by simpa [cond,hpos.ne'] using hmem.2
    exact ⟨f,hmem.1,hsend,hrev⟩
  · rintro ⟨f,hf,hsend,hrev⟩
    refine ⟨f,List.mem_reverse.mpr (List.mem_filter.mpr ⟨hf,?_⟩),v,hv,hrev,rfl⟩
    simp [cond,hsend]

end Listing

section Runs
variable (s : VerifyServer) (t : AuthTable)

/-- No records and no friendships. -/
def openedVerifies : VerifyServer := ⟨⟨t,[],1,[],1,[]⟩,0⟩

/-- A record from `a` to `b` was dealt with the status. -/
def Dealt (calls : List VerifyCall) (a b : Nat) (status : UInt8) : Prop :=
  ∃ before req after v, calls = before ++ .dealVerify req :: after ∧
    ((runVerifies s before).tables.verifies.find? fun v => v.id = req.id) = some v ∧
    v.sendID = a ∧ v.revID = b ∧ req.status = status

/-- Two users list each other, or neither does, and they do exactly if one has accepted
a record of the other. -/
def Consensual (calls : List VerifyCall) (u v : Auth) : Prop :=
  (v.account ∈ allFriendOf (runVerifies s calls) u ↔
    u.account ∈ allFriendOf (runVerifies s calls) v) ∧
  (v.account ∈ allFriendOf (runVerifies s calls) u ↔
    Dealt s calls u.id v.id 2 ∨ Dealt s calls v.id u.id 2)

variable {s t}

theorem runVerifies_concat (calls : List VerifyCall) (call : VerifyCall) :
    runVerifies s (calls ++ [call]) = final (call.main fun _ => false) (runVerifies s calls) := by
  rw [runVerifies,List.foldl_append]
  rfl

theorem Dealt.concat {calls : List VerifyCall} {a b : Nat} {status : UInt8}
    (h : Dealt s calls a b status) (call : VerifyCall) : Dealt s (calls ++ [call]) a b status := by
  obtain ⟨before,req,after,v,hsplit,hrest⟩ := h
  refine ⟨before,req,after ++ [call],v,?_,hrest⟩
  rw [hsplit,List.append_assoc]
  rfl

def Deals (s : VerifyServer) (a b : Nat) (call : VerifyCall) : Prop :=
  ∃ req v, call = .dealVerify req ∧ (s.tables.verifies.find? fun v => v.id = req.id) = some v ∧
    v.sendID = a ∧ v.revID = b

theorem dealt_concat {calls : List VerifyCall} {call : VerifyCall} {a b : Nat} :
    (∃ status, Dealt s (calls ++ [call]) a b status) ↔
      (∃ status, Dealt s calls a b status) ∨ Deals (runVerifies s calls) a b call := by
  constructor
  · rintro ⟨status,before,req,after,v,hsplit,hv,hsend,hrev,hstatus⟩
    rcases turn_concat hsplit with ⟨after',hsplit'⟩ | ⟨rfl,rfl⟩
    · exact Or.inl ⟨status,before,req,after',v,hsplit',hv,hsend,hrev,hstatus⟩
    · exact Or.inr ⟨req,v,rfl,hv,hsend,hrev⟩
  · rintro (⟨status,h⟩ | ⟨req,v,rfl,hv,hsend,hrev⟩)
    · exact ⟨status,h.concat call⟩
    · exact ⟨req.status,calls,req,[],v,rfl,hv,hsend,hrev,rfl⟩

theorem deals_dealVerify {a b : Nat} {req : DealVerifyReq} {v : Verify}
    (hv : (s.tables.verifies.find? fun v => v.id = req.id) = some v) :
    Deals s a b (.dealVerify req) ↔ v.sendID = a ∧ v.revID = b := by
  constructor
  · rintro ⟨req',v',heq,hv',hends⟩
    cases heq
    obtain rfl := Option.some.inj (hv'.symm.trans hv)
    exact hends
  · rintro ⟨hsend,hrev⟩
    exact ⟨req,v,rfl,hv,hsend,hrev⟩

theorem not_deals_of_none {a b : Nat} {req : DealVerifyReq}
    (hnone : (s.tables.verifies.find? fun v => v.id = req.id) = none) :
    ¬ Deals s a b (.dealVerify req) := by
  rintro ⟨req',v',heq,hv',-⟩
  cases heq
  rw [hnone] at hv'
  cases hv'

/-- One call: a row is made of the record that it deals with, whatever the status. -/
theorem friend_next (call : VerifyCall) (a b : Nat) :
    (∃ f ∈ (final (call.main fun _ => false) s).tables.friends, f.sendID = a ∧ f.revID = b) ↔
      (∃ f ∈ s.tables.friends, f.sendID = a ∧ f.revID = b) ∨ Deals s a b call := by
  refine final_of_wp (P := fun w : VerifyServer =>
    (∃ f ∈ w.tables.friends, f.sendID = a ∧ f.revID = b) ↔ _) ?_
  have hsame : ∀ w : VerifyServer, w.tables.friends = s.tables.friends → ¬ Deals s a b call →
      ((∃ f ∈ w.tables.friends, f.sendID = a ∧ f.revID = b) ↔
        (∃ f ∈ s.tables.friends, f.sendID = a ∧ f.revID = b) ∨ Deals s a b call) := by
    intro w hw hno
    rw [hw,or_iff_left hno]
  cases call with
  | sendVerify userId account =>
    have hno : ¬ Deals s a b (.sendVerify userId account) := by
      rintro ⟨req,v,heq,-⟩
      cases heq
    refine wp_mono (wp_sendVerify userId account) ?_ ?_
    · rintro _ w ⟨ob,-,hw⟩
      exact hsame w hw.2.1 hno
    · rintro _ w (hw | ⟨ob,-,hw⟩)
      · exact hsame w (by rw [hw]) hno
      · exact hsame w hw.2.1 hno
  | dealVerify req =>
    refine wp_mono (wp_dealVerify req) ?_ ?_
    · rintro _ w ⟨v,f,hv,-,-,hsend,hrev,hfriends⟩
      rw [hfriends,deals_dealVerify hv,← hsend,← hrev]
      simp only [List.mem_append,List.mem_singleton,or_and_right,exists_or,exists_eq_left]
    · rintro _ w ⟨hnone,hw⟩
      exact hsame w (by rw [hw]) (not_deals_of_none hnone)

theorem friend_iff_dealt (hstart : s.tables.friends = []) (calls : List VerifyCall) (a b : Nat) :
    (∃ f ∈ (runVerifies s calls).tables.friends, f.sendID = a ∧ f.revID = b) ↔
      ∃ status, Dealt s calls a b status := by
  induction calls using List.reverseRecOn with
  | nil =>
    have hfriends : (runVerifies s []).tables.friends = [] := hstart
    rw [hfriends]
    constructor
    · rintro ⟨f,hf,-⟩
      cases hf
    · rintro ⟨status,before,req,after,v,hsplit,-⟩
      simp at hsplit
  | append_singleton calls call ih => rw [dealt_concat,← ih,runVerifies_concat,friend_next]

theorem addressed_run (t : AuthTable) (calls : List VerifyCall) :
    Addressed t (runVerifies (openedVerifies t) calls).tables := by
  induction calls using List.reverseRecOn with
  | nil => exact ⟨rfl,nofun,nofun⟩
  | append_singleton calls call ih =>
    rw [runVerifies_concat]
    exact ih.next call

/-- Friendship is mutual and by consent exactly if no record between the two was dealt
with, or one of each direction was, and one of these accepted. -/
theorem consensual_iff_dealt_both_ways (t : AuthTable) (calls : List VerifyCall) {u v : Auth}
    (hu : t.Known u) (hv : t.Known v) : Consensual (openedVerifies t) calls u v ↔
      ((∀ status, ¬ Dealt (openedVerifies t) calls u.id v.id status ∧
        ¬ Dealt (openedVerifies t) calls v.id u.id status) ∨
      ((∃ status, Dealt (openedVerifies t) calls u.id v.id status) ∧
        (∃ status, Dealt (openedVerifies t) calls v.id u.id status) ∧
        (Dealt (openedVerifies t) calls u.id v.id 2 ∨
          Dealt (openedVerifies t) calls v.id u.id 2))) := by
  have haddressed := addressed_run t calls
  rw [Consensual,mem_allFriendOf haddressed hu hv,mem_allFriendOf haddressed hv hu,
    friend_iff_dealt rfl,friend_iff_dealt rfl]
  constructor
  · rintro ⟨hsym,hconsent⟩
    by_cases hthere : ∃ status, Dealt (openedVerifies t) calls u.id v.id status
    · exact Or.inr ⟨hthere,hsym.mp hthere,hconsent.mp hthere⟩
    · exact Or.inl fun status => ⟨fun h => hthere ⟨status,h⟩,fun h => hthere (hsym.mpr ⟨status,h⟩)⟩
  · rintro (hnone | ⟨hthere,hback,haccepted⟩)
    · have hthere : ¬ ∃ status, Dealt (openedVerifies t) calls u.id v.id status :=
        fun ⟨status,h⟩ => (hnone status).1 h
      have hback : ¬ ∃ status, Dealt (openedVerifies t) calls v.id u.id status :=
        fun ⟨status,h⟩ => (hnone status).2 h
      exact ⟨iff_of_false hthere hback,iff_of_false hthere fun h => h.elim (hnone 2).1 (hnone 2).2⟩
    · exact ⟨iff_of_true hthere hback,iff_of_true hthere haccepted⟩

end Runs

/-- Two users. -/
def anneAndBob : AuthTable where
  rows := [⟨1,"a","anne"⟩,⟨2,"b","bob"⟩]
  ids := by decide
  range := by decide

/-- Each asks the other and each accepts. -/
def bothWays : List VerifyCall :=
  [.sendVerify (some 1) "b",.sendVerify (some 2) "a",.dealVerify ⟨1,2⟩,.dealVerify ⟨2,2⟩]

theorem consensual_iff_dealt_both_ways_each_accepts :
    Consensual (openedVerifies anneAndBob) bothWays ⟨1,"a","anne"⟩ ⟨2,"b","bob"⟩ := by
  have hfirst : Dealt (openedVerifies anneAndBob) bothWays 1 2 2 :=
    ⟨[.sendVerify (some 1) "b",.sendVerify (some 2) "a"],⟨1,2⟩,[.dealVerify ⟨2,2⟩],⟨1,1,2,1⟩,rfl,
      by decide,rfl,rfl,rfl⟩
  have hsecond : Dealt (openedVerifies anneAndBob) bothWays 2 1 2 :=
    ⟨[.sendVerify (some 1) "b",.sendVerify (some 2) "a",.dealVerify ⟨1,2⟩],⟨2,2⟩,[],⟨2,2,1,1⟩,rfl,
      by decide,rfl,rfl,rfl⟩
  refine (consensual_iff_dealt_both_ways anneAndBob bothWays (by unfold AuthTable.Known; decide)
    (by unfold AuthTable.Known; decide)).mpr (Or.inr ⟨⟨2,hfirst⟩,⟨2,hsecond⟩,Or.inl hfirst⟩)

/-- Bob rejects what Anne asked: from then on she lists him, and he does not list her. -/
theorem rejected_user_listed :
    ¬ Consensual (openedVerifies anneAndBob) [.sendVerify (some 1) "b",.dealVerify ⟨1,3⟩]
      ⟨1,"a","anne"⟩ ⟨2,"b","bob"⟩ := by
  rintro ⟨hsym,-⟩
  exact absurd (hsym.mp (by decide)) (by decide)

end Imy.Friends.V2
