import Imy.Lib.Lists
import Imy.Friends.Logic
set_option autoImplicit false

namespace Imy.Friends
open Imy.Lib
open Imy.Auth (User DBError)

section Effects
variable (db : FriendTables)

def FriendTables.nickOf (uuid : String) : String :=
  match db.users.find? fun u => !u.deleted && u.uuid = uuid with
  | some u => u.nickName
  | none => ""

def FriendTables.befriend (v : FriendVerify) : FriendTables :=
  if ∃ f ∈ db.friends, f.Goes v.sendUUID v.revUUID then db
  else db.addFriend (newFriend v (db.nickOf v.sendUUID) (db.nickOf v.revUUID))

/-- The request is allowed, and it is neither answered nor made already. -/
def AddFriendReq.Opens (req : AddFriendReq) : Prop :=
  req.uuid ≠ "" ∧ req.revId ≠ "" ∧ req.uuid ≠ req.revId ∧
    (∀ f ∈ db.friends, ¬ f.Joins req.uuid req.revId) ∧
    ∀ v ∈ db.verifies, ¬ (v.Goes req.uuid req.revId ∧ v.revStatus = 1)

instance (req : AddFriendReq) : Decidable (req.Opens db) :=
  inferInstanceAs (Decidable (_ ∧ _))

def ValidFriendReq.record (req : ValidFriendReq) : Option FriendVerify :=
  if req.uuid = "" ∨ req.verifyId = 0 then none
  else (db.verifies.find? fun v => v.id = req.verifyId).filter fun v => v.revUUID = req.uuid

def FriendCall.effect : FriendCall → FriendTables
  | .addFriend req => if req.Opens db then db.addVerify (requestOf req) else db
  | .validFriend req =>
    match req.record db with
    | none => db
    | some v =>
      if req.status = 1 then (db.befriend v).setRevStatus v.id 2
      else if req.status = 2 then db.setRevStatus v.id 3
      else db

end Effects

section Calls
variable {fails : Nat → Bool} {s : FriendServer} {α : Type}

theorem wp_take (rows : FriendTables → List α) (p : α → Bool)
    {Q : Except DBError α → FriendServer → Prop} {E : FriendErr → FriendServer → Prop}
    (there : ∀ (t : FriendServer) row, t.tables = s.tables → (rows s.tables).find? p = some row →
      Q (.ok row) t)
    (none : ∀ t : FriendServer, t.tables = s.tables → (rows s.tables).find? p = none →
      Q (.error .recordNotFound) t)
    (failed : ∀ t : FriendServer, Faulty fails → t.tables = s.tables → Q (.error .failed) t) :
    wp (take fails rows p) Q E s := by
  refine wp_statement _ (fun t ht => ?_) failed
  cases hfind : (rows s.tables).find? p with
  | some row =>
    simp only [taken,hfind] at ht ⊢
    exact there t row ht hfind
  | none =>
    simp only [taken,hfind] at ht ⊢
    exact none t ht hfind

theorem wp_createRequest (req : AddFriendReq) : wp (createRequest fails req)
    (fun _ t => t.tables = s.tables.addVerify (requestOf req))
    (fun _ t => Faulty fails ∧ t.tables = s.tables) s := by
  rw [createRequest,wp_bind]
  exact wp_statement _ (fun t ht => ht) fun t hfault ht => ⟨hfault,ht⟩

theorem wp_requestOnce (req : AddFriendReq) : wp (requestOnce fails req)
    (fun _ t => t.tables =
      if ∀ v ∈ s.tables.verifies, ¬ (v.Goes req.uuid req.revId ∧ v.revStatus = 1) then
        s.tables.addVerify (requestOf req) else s.tables)
    (fun _ t => Faulty fails ∧ t.tables = s.tables) s := by
  rw [requestOnce,wp_bind]
  refine wp_take _ _ (fun t row ht hrow => ?_) (fun t ht hnone => ?_) fun t hfault ht => ⟨hfault,ht⟩
  · rw [if_neg fun h =>
      h row (List.mem_of_find?_eq_some hrow) (by simpa using List.find?_some hrow)]
    exact ht
  · rw [if_pos fun v hv hgoes => by
      simpa using (List.find?_eq_none.mp hnone v hv) (by simpa using hgoes)]
    rw [← ht]
    exact wp_createRequest req

/-- A call that does not fail does what `effect` says. -/
theorem wp_addFriend (req : AddFriendReq) : wp (addFriend fails req)
    (fun _ t => t.tables = (FriendCall.addFriend req).effect s.tables)
    (fun _ t => t.tables = s.tables ∧
      (Faulty fails ∨ (FriendCall.addFriend req).effect s.tables = s.tables)) s := by
  have hrefuse : ¬ req.Opens s.tables → (FriendCall.addFriend req).effect s.tables = s.tables :=
    fun h => if_neg h
  unfold addFriend
  split
  · rename_i hempty
    exact ⟨rfl,Or.inr (hrefuse fun h => hempty.elim h.1 h.2.1)⟩
  rename_i hempty
  split
  · rename_i hself
    exact ⟨rfl,Or.inr (hrefuse fun h => h.2.2.1 hself)⟩
  rename_i hself
  rw [wp_bind]
  refine wp_take _ _ (fun t row ht hrow => ?_) (fun t ht hnone => ?_)
    fun t hfault ht => ⟨ht,Or.inl hfault⟩
  · refine ⟨ht,Or.inr (hrefuse fun h => h.2.2.2.1 row (List.mem_of_find?_eq_some hrow) ?_)⟩
    simpa using List.find?_some hrow
  · refine wp_mono (wp_requestOnce req) (fun _ u hu => ?_) fun _ u hu => ⟨hu.2.trans ht,Or.inl hu.1⟩
    have hopens : req.Opens s.tables ↔
        ∀ v ∈ s.tables.verifies, ¬ (v.Goes req.uuid req.revId ∧ v.revStatus = 1) := by
      refine ⟨fun h => h.2.2.2.2,fun h =>
        ⟨fun h' => hempty (Or.inl h'),fun h' => hempty (Or.inr h'),
        hself,fun f hf hjoins => ?_,h⟩⟩
      simpa using List.find?_eq_none.mp hnone f hf (by simpa using hjoins)
    rw [hu,ht]
    exact (if_congr hopens rfl rfl).symm

theorem wp_nickName (uuid : String) : wp (nickName fails uuid)
    (fun nick t => t.tables = s.tables ∧ nick = s.tables.nickOf uuid)
      (fun _ _ => Faulty fails) s := by
  rw [nickName,wp_bind]
  refine wp_take _ _ (fun t row ht hrow => ?_) (fun t ht hnone => ?_) fun t hfault _ => hfault
  · refine ⟨ht,?_⟩
    rw [FriendTables.nickOf,hrow]
  · refine ⟨ht,?_⟩
    rw [FriendTables.nickOf,hnone]

theorem wp_insertFriend (v : FriendVerify) : wp (insertFriend fails v)
    (fun _ t => t.tables = s.tables.addFriend
      (newFriend v (s.tables.nickOf v.sendUUID) (s.tables.nickOf v.revUUID)))
    (fun _ _ => Faulty fails) s := by
  rw [insertFriend,wp_bind]
  refine wp_mono (wp_nickName v.sendUUID) ?_ fun _ _ h => h
  rintro senderNick t ⟨ht,rfl⟩
  rw [wp_bind]
  refine wp_mono (wp_nickName v.revUUID) ?_ fun _ _ h => h
  rintro receiverNick u ⟨hu,rfl⟩
  rw [wp_bind]
  refine wp_statement _ (fun w hw => ?_) fun _ hfault _ => hfault
  rw [hu,ht] at hw
  rw [ht] at *
  exact hw

theorem wp_insertFriendOnce (v : FriendVerify) : wp (insertFriendOnce fails v)
    (fun _ t => t.tables = s.tables.befriend v) (fun _ _ => Faulty fails) s := by
  rw [insertFriendOnce,wp_bind]
  refine wp_take _ _ (fun t row ht hrow => ?_) (fun t ht hnone => ?_) fun t hfault _ => hfault
  · have hthere : ∃ f ∈ s.tables.friends, f.Goes v.sendUUID v.revUUID :=
      ⟨row,List.mem_of_find?_eq_some hrow,by simpa using List.find?_some hrow⟩
    rw [FriendTables.befriend,if_pos hthere]
    exact ht
  · have hnone' : ¬ ∃ f ∈ s.tables.friends, f.Goes v.sendUUID v.revUUID := by
      rintro ⟨f,hf,hgoes⟩
      simpa using List.find?_eq_none.mp hnone f hf (by simpa using hgoes)
    rw [FriendTables.befriend,if_neg hnone',← ht]
    exact wp_insertFriend v

theorem wp_recordDecision (v : FriendVerify) (status : Int8) : wp (recordDecision fails v status)
    (fun _ t => t.tables = s.tables.setRevStatus v.id status)
    (fun _ t => Faulty fails ∧ t.tables = s.tables) s := by
  rw [recordDecision,wp_bind]
  exact wp_statement _ (fun t ht => ht) fun t hfault ht => ⟨hfault,ht⟩

theorem wp_accept (v : FriendVerify) : wp
    (transaction fails (.transaction .failed) do
      insertFriendOnce fails v
      recordDecision fails v 2)
    (fun _ t => t.tables = (s.tables.befriend v).setRevStatus v.id 2)
    (fun _ t => Faulty fails ∧ t.tables = s.tables) s := by
  refine wp_transaction (Q := fun db => db = (s.tables.befriend v).setRevStatus v.id 2)
    fun t ht => ?_
  rw [wp_bind,← ht]
  refine wp_mono (wp_insertFriendOnce v) (fun _ u hu => ?_) fun _ _ h => h
  rw [← hu]
  exact wp_mono (wp_recordDecision v 2) (fun _ _ h => h) fun _ _ h => h.1

theorem wp_validFriend (req : ValidFriendReq) : wp (validFriend fails req)
    (fun _ t => t.tables = (FriendCall.validFriend req).effect s.tables)
    (fun _ t => t.tables = s.tables ∧
      (Faulty fails ∨ (FriendCall.validFriend req).effect s.tables = s.tables)) s := by
  have hrefuse : req.record s.tables = none →
      (FriendCall.validFriend req).effect s.tables = s.tables := fun h => by
    simp only [FriendCall.effect,h]
  unfold validFriend
  split
  · rename_i hempty
    exact ⟨rfl,Or.inr (hrefuse (if_pos hempty))⟩
  rename_i hempty
  rw [wp_bind]
  refine wp_take _ _ (fun t v ht hv => ?_) (fun t ht hnone => ?_)
    fun t hfault ht => ⟨ht,Or.inl hfault⟩
  · have hrecord : req.record s.tables = (some v).filter fun v => v.revUUID = req.uuid :=
      (if_neg hempty).trans (by rw [hv])
    by_cases hrev : v.revUUID = req.uuid
    · rw [← ht] at hrecord ⊢
      have hthis : req.record t.tables = some v := by simp [hrecord,Option.filter,hrev]
      simp only [FriendCall.effect,hthis,if_neg (not_not.mpr hrev)]
      split
      · exact wp_mono (wp_accept v) (fun _ _ h => h) fun _ _ h => ⟨h.2,Or.inl h.1⟩
      split
      · exact wp_mono (wp_recordDecision v 3) (fun _ _ h => h) fun _ _ h => ⟨h.2,Or.inl h.1⟩
      · exact ⟨rfl,Or.inr rfl⟩
    · simp only [if_pos hrev]
      exact ⟨ht,Or.inr (hrefuse (by simp [hrecord,Option.filter,hrev]))⟩
  · refine ⟨ht,Or.inr (hrefuse ((if_neg hempty).trans ?_))⟩
    rw [hnone]
    rfl

/-- A call does what `effect` says, or the database has failed and it does nothing. -/
theorem apply_tables (fails : Nat → Bool) (s : FriendServer) (call : FriendCall) :
    (call.apply fails s).tables = call.effect s.tables ∨
      (Faulty fails ∧ (call.apply fails s).tables = s.tables) := by
  have hcall : wp (call.main fails) (fun _ t => t.tables = call.effect s.tables)
      (fun _ t => t.tables = s.tables ∧ (Faulty fails ∨ call.effect s.tables = s.tables)) s := by
    cases call with
    | addFriend req => exact wp_addFriend req
    | validFriend req => exact wp_validFriend req
  refine final_of_wp (P := fun t => t.tables = call.effect s.tables ∨
    (Faulty fails ∧ t.tables = s.tables)) (wp_mono hcall (fun _ _ h => Or.inl h) ?_)
  rintro _ t ⟨hsame,hfault | hnothing⟩
  · exact Or.inr ⟨hfault,hsame⟩
  · exact Or.inl (hsame.trans hnothing.symm)

end Calls

section Lists
variable {db : FriendTables} {s : FriendServer} {u v : String}

def OnePerPair (db : FriendTables) : Prop :=
  ∀ a b, (db.friends.countP fun f => f.Joins a b) ≤ 1

end Lists

section OneRow
variable {db : FriendTables}

def FriendCall.joining (db : FriendTables) : FriendCall → Option FriendVerify
  | .addFriend _ => none
  | .validFriend req =>
    if req.status = 1 then
      (req.record db).filter fun v => ∀ f ∈ db.friends, ¬ f.Goes v.sendUUID v.revUUID
    else none

/-- The row would be the second one, after a row of the other direction. -/
def FriendCall.Crosses (db : FriendTables) (call : FriendCall) : Prop :=
  ∃ v, call.joining db = some v ∧ ∃ f ∈ db.friends, f.Goes v.revUUID v.sendUUID

theorem befriend_of_some {v : FriendVerify} (h : ∃ f ∈ db.friends, f.Goes v.sendUUID v.revUUID) :
    db.befriend v = db :=
  if_pos h

theorem befriend_of_none {v : FriendVerify} (h : ∀ f ∈ db.friends, ¬ f.Goes v.sendUUID v.revUUID) :
    ∃ f, f.Goes v.sendUUID v.revUUID ∧ (db.befriend v).friends = db.friends ++ [f] := by
  rw [FriendTables.befriend,if_neg fun hex => hex.elim fun f hf => h f hf.1 hf.2]
  exact ⟨_,⟨rfl,rfl⟩,rfl⟩

@[simp] theorem befriend_verifies (v : FriendVerify) : (db.befriend v).verifies = db.verifies := by
  unfold FriendTables.befriend
  split <;> rfl

@[simp] theorem befriend_nextVerify (v : FriendVerify) :
    (db.befriend v).nextVerify = db.nextVerify := by
  unfold FriendTables.befriend
  split <;> rfl

theorem effect_friends (db : FriendTables) (call : FriendCall) :
    (call.joining db = none ∧ (call.effect db).friends = db.friends) ∨
      ∃ v f, call.joining db = some v ∧ (∀ f ∈ db.friends, ¬ f.Goes v.sendUUID v.revUUID) ∧
        f.Goes v.sendUUID v.revUUID ∧ (call.effect db).friends = db.friends ++ [f] := by
  cases call with
  | addFriend req =>
    refine Or.inl ⟨rfl,?_⟩
    rw [FriendCall.effect]
    split <;> rfl
  | validFriend req =>
    cases hrecord : req.record db with
    | none => simp [FriendCall.joining,FriendCall.effect,hrecord]
    | some v =>
      by_cases hstatus : req.status = 1
      · simp only [FriendCall.joining,FriendCall.effect,hrecord,if_pos hstatus]
        by_cases hnone : ∀ f ∈ db.friends, ¬ f.Goes v.sendUUID v.revUUID
        · obtain ⟨f,hgoes,hfriends⟩ := befriend_of_none hnone
          exact Or.inr ⟨v,f,by simpa [Option.filter] using hnone,hnone,hgoes,hfriends⟩
        · refine Or.inl ⟨by simp only [Option.filter,hnone]; rfl,?_⟩
          rw [befriend_of_some (by simpa using hnone)]
          rfl
      · refine Or.inl ⟨by rw [FriendCall.joining,if_neg hstatus],?_⟩
        simp only [FriendCall.effect,hrecord,if_neg hstatus]
        split <;> rfl

theorem Friend.Goes.joins_iff {f : Friend} {a b x y : String} (h : f.Goes a b) :
    f.Joins x y ↔ (x = a ∧ y = b) ∨ (x = b ∧ y = a) := by
  unfold Friend.Joins Friend.Goes
  rw [h.1,h.2]
  constructor
  · rintro (⟨rfl,rfl⟩ | ⟨rfl,rfl⟩)
    · exact Or.inl ⟨rfl,rfl⟩
    · exact Or.inr ⟨rfl,rfl⟩
  · rintro (⟨rfl,rfl⟩ | ⟨rfl,rfl⟩)
    · exact Or.inl ⟨rfl,rfl⟩
    · exact Or.inr ⟨rfl,rfl⟩

theorem OnePerPair.effect (h : OnePerPair db) (call : FriendCall) :
    OnePerPair (call.effect db) ↔ ¬ call.Crosses db := by
  rcases effect_friends db call with ⟨hnone,hsame⟩ | ⟨v,f,hjoin,hnew,hgoes,hmore⟩
  · refine iff_of_true (fun a b => ?_) fun ⟨v,hv,_⟩ => by simp [hnone] at hv
    rw [hsame]
    exact h a b
  · have hcount : ∀ a b, ((call.effect db).friends.countP fun f => f.Joins a b) =
        (db.friends.countP fun f => f.Joins a b) + if f.Joins a b then 1 else 0 := by
      intro a b
      rw [hmore,List.countP_append,List.countP_singleton]
      simp
    constructor
    · rintro hone ⟨v',hv',g,hg,hback⟩
      obtain rfl := Option.some.inj (hjoin.symm.trans hv')
      have hle := hone v.sendUUID v.revUUID
      have hold : 0 < db.friends.countP fun f => f.Joins v.sendUUID v.revUUID :=
        List.countP_pos_iff.mpr ⟨g,hg,decide_eq_true (Or.inr hback)⟩
      have hjoins : f.Joins v.sendUUID v.revUUID := Or.inl hgoes
      rw [hcount,if_pos hjoins] at hle
      omega
    · intro hcross a b
      rw [hcount]
      split
      · rename_i hjoins
        have hzero : (db.friends.countP fun f => f.Joins a b) = 0 := by
          rw [List.countP_eq_zero]
          intro g hg hgjoins
          have hgjoins := of_decide_eq_true hgjoins
          rcases hgoes.joins_iff.mp hjoins with ⟨rfl,rfl⟩ | ⟨rfl,rfl⟩
          · exact hgjoins.elim (hnew g hg) fun hback => hcross ⟨v,hjoin,g,hg,hback⟩
          · exact hgjoins.elim (fun hback => hcross ⟨v,hjoin,g,hg,hback⟩) (hnew g hg)
        omega
      · exact h a b

end OneRow

section Runs
variable (fails : Nat → Bool) (users : List User)

/-- No requests and no friendships. -/
def opened : FriendServer := ⟨⟨users,[],1,[],1⟩,0⟩

end Runs

end Imy.Friends
