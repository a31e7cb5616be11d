import Imy.Lib.Seats
import Imy.Chat.Writes
import Imy.Chat.RemovedMembers
set_option autoImplicit false

namespace Imy.Chat
open Imy.Lib

structure Room where
  id : Nat
  type : Int8
  privateKey : String
  memberCount : UInt32
  deriving DecidableEq, Repr

structure Roster where
  rooms : List Room
  seats : List (Seat Nat String)
  next : Nat
  deriving DecidableEq, Repr

def ChatConversation.room (conv : ChatConversation) : Room :=
  ⟨conv.id,conv.type,conv.privateKey,conv.memberCount⟩

def ChatConversationMember.seat (m : ChatConversationMember) : Seat Nat String :=
  ⟨m.conversationID,m.userUUID,m.deleted⟩

def Database.roster (db : Database) : Roster :=
  ⟨db.conversations.map (·.room),db.members.map (·.seat),db.nextConversation⟩

namespace Roster

def openRoom (r : Roster) (type : Int8) (key : String) (memberCount : UInt32) : Roster :=
  { r with rooms := r.rooms ++ [⟨r.next,type,key,memberCount⟩], next := r.next+1 }

def setCount (r : Roster) (c : Nat) (n : UInt32) : Roster :=
  { r with rooms := r.rooms.map fun room => if room.id = c then
    { room with memberCount := n } else room }

def enter (r : Roster) (c : Nat) (us : List String) : Roster :=
  { r with seats := Seat.enter r.seats c us }

def leave (r : Roster) (c : Nat) (u : String) : Roster :=
  { r with seats := Seat.leave r.seats c u }

def sitting (r : Roster) (c : Nat) : List String := Seat.sitting r.seats c

def complete (room : Room) (r : Roster) (u : String) : Roster :=
  if u ∈ r.sitting room.id then r
  else (if Seat.Free r.seats room.id [u] then r.enter room.id [u] else r).setCount room.id
    (room.memberCount+1)

end Roster

def AddMembersReq.onRoster (r : Roster) (req : AddMembersReq) : Roster :=
  if req.uuid = "" ∨ req.conversationId = 0 ∨ req.memberUUIDs = [] then r
  else if req.uuid ∉ r.sitting req.conversationId then r
  else
    let us := newUUIDs (r.sitting req.conversationId) req.memberUUIDs
    if us ≠ [] ∧ Seat.Free r.seats req.conversationId us then
      (r.enter req.conversationId us).setCount req.conversationId
        (UInt32.ofNat ((r.sitting req.conversationId).length+us.length))
    else r

def RemoveMemberReq.onRoster (r : Roster) (req : RemoveMemberReq) : Roster :=
  if req.uuid = "" ∨ req.conversationId = 0 ∨ req.removeUUID = "" then r
  else if req.uuid ∉ r.sitting req.conversationId ∨
      req.removeUUID ∉ r.sitting req.conversationId then r
  else
    match r.rooms.find? fun room => room.id = req.conversationId with
    | none => r.leave req.conversationId req.removeUUID
    | some room =>
      if 0 < room.memberCount then
        (r.leave req.conversationId req.removeUUID).setCount req.conversationId (room.memberCount-1)
      else r.leave req.conversationId req.removeUUID

/-- `key` is what the random source gave. -/
def CreateGroupConversationReq.onRoster (key : String) (r : Roster)
    (req : CreateGroupConversationReq) : Roster :=
  if req.uuid = "" then r
  else if r.rooms.any fun room => room.privateKey = "g:" ++ key then { r with next := r.next+1 }
  else
    let us := req.uuid :: newUUIDs [req.uuid] req.memberUUIDs
    (r.openRoom 2 ("g:" ++ key) (UInt32.ofNat us.length)).enter r.next us

def CreatePrivateConversationReq.onRoster (r : Roster) (req : CreatePrivateConversationReq) :
    Roster :=
  if req.uuid = "" ∨ req.peerUUID = "" ∨ req.uuid = req.peerUUID then r
  else
    match r.rooms.find? fun room => room.privateKey = privateKeyOf req.uuid req.peerUUID with
    | none => (r.openRoom 1 (privateKeyOf req.uuid req.peerUUID) 2).enter r.next
        [req.uuid,req.peerUUID]
    | some room => (r.complete room req.uuid).complete room req.peerUUID

def Operation.onRoster (key : String) (r : Roster) : Operation → Roster
  | .createGroupConversation req => req.onRoster key r
  | .createPrivateConversation req => req.onRoster r
  | .addMembers req => req.onRoster r
  | .removeMember req => req.onRoster r
  | _ => r

structure Roster.Valid (r : Roster) : Prop where
  keys : (r.seats.map Seat.key).Nodup
  seats : ∀ s ∈ r.seats, s.place < r.next
  rooms : ∀ room ∈ r.rooms, room.id < r.next

theorem Roster.Valid.free_next {r : Roster} (h : r.Valid) {us : List String} (hus : us.Nodup) :
    Seat.Free r.seats r.next us :=
  Seat.free_new h.keys (fun s hs => (h.seats s hs).ne) hus

theorem Roster.Valid.setCount_openRoom {r : Roster} (h : r.Valid) (type : Int8) (key : String)
    (n n' : UInt32) : (r.openRoom type key n).setCount r.next n' = r.openRoom type key n' := by
  have hold : r.rooms.map (fun room => if room.id = r.next then { room with memberCount := n' }
      else room) = r.rooms := by
    refine (List.map_congr_left fun room hroom => ?_).trans (List.map_id _)
    exact if_neg (h.rooms room hroom).ne
  simp only [Roster.openRoom,Roster.setCount,List.map_append,hold]
  simp

section Statements
variable {out : Outer} {db : Database} {c : Nat} {u : String}

theorem roster_reads (out : Outer) (db : Database) {q : Stmt} (hq : q.Reads) :
    (exec out q db).2.roster = db.roster := by
  cases q <;> first | rfl | exact hq.elim

theorem sitting_roster (db : Database) (c : Nat) :
    db.roster.sitting c = (db.live.filter fun m => m.conversationID = c).map (·.userUUID) := by
  rw [Roster.sitting,Seat.sitting,Database.roster,List.filter_map,List.map_map,Database.live,
    List.filter_filter]
  refine congrArg (List.map ChatConversationMember.userUUID) (List.filter_congr fun m _ => ?_)
  exact Bool.and_comm _ _

theorem mem_sitting_roster : u ∈ db.roster.sitting c ↔ db.IsMember c u := by
  rw [Roster.sitting,Seat.mem_sitting,Database.roster,List.mem_map]
  constructor
  · rintro ⟨m,hm,hseat⟩
    cases m
    cases hseat
    exact ⟨_,hm,rfl,rfl,rfl⟩
  · rintro ⟨m,hm,hlive,rfl,rfl⟩
    exact ⟨m,hm,by rw [ChatConversationMember.seat,hlive]⟩

theorem keys_roster (db : Database) :
    db.roster.seats.map Seat.key = db.members.map fun m => (m.conversationID,m.userUUID) := by
  rw [Database.roster,List.map_map]
  rfl

theorem free_roster (us : List String) : Seat.Free db.roster.seats c us ↔
    (db.members ++ us.map (memberRow c)).Pairwise fun m m' => ¬ sameKey m m' := by
  rw [pairwise_keys,List.map_append,List.map_map,Seat.Free,keys_roster]
  rfl

theorem seats_numbered (lastReadAt : Int) (next : Nat) (us : List String) :
    (numbered lastReadAt next (us.map (memberRow c))).map (·.seat) =
      us.map fun u => ⟨c,u,false⟩ := by
  refine List.ext_getElem (by simp [numbered]) fun i h h' => ?_
  simp [numbered,ChatConversationMember.seat,memberRow]
  rfl

theorem roster_createMembers_ok (out : Outer) {us : List String}
    (h : Seat.Free db.roster.seats c us) :
    (db.createMembers out (us.map (memberRow c))).1 = .ok () ∧
      (db.createMembers out (us.map (memberRow c))).2.roster = db.roster.enter c us := by
  rw [Database.createMembers,if_pos (free_roster us |>.mp h)]
  refine ⟨rfl,?_⟩
  simp only [Database.roster,List.map_append,seats_numbered]
  rfl

theorem roster_createMembers_error (out : Outer) {us : List String}
    (h : ¬ Seat.Free db.roster.seats c us) :
    (db.createMembers out (us.map (memberRow c))).1 = .error .duplicatedKey ∧
      (db.createMembers out (us.map (memberRow c))).2.roster = db.roster := by
  rw [Database.createMembers,if_neg fun hkeys => h ((free_roster us).mpr hkeys)]
  exact ⟨rfl,rfl⟩

theorem wp_enter {α : Type} (c : Nat) (us : List String) {f : Except DBError Unit → ChatM α}
    {Q : α → Database → Prop} {E : ErrCode → Database → Prop}
    (hok : Seat.Free db.roster.seats c us → ∀ t, t.roster = db.roster.enter c us →
      wp ((f (.ok ())).run (exec out)) Q E t)
    (herror : ¬ Seat.Free db.roster.seats c us → ∀ t, t.roster = db.roster →
      wp ((f (.error .duplicatedKey)).run (exec out)) Q E t) :
    wp ((ask (.createMembers (us.map (memberRow c))) >>= f).run (exec out)) Q E db := by
  rw [Prog.wp_run_bind,wp_ask]
  change wp (Prog.run (exec out) (f (db.createMembers out _).1)) Q E (db.createMembers out _).2
  by_cases hfree : Seat.Free db.roster.seats c us
  · obtain ⟨hanswer,hroster⟩ := roster_createMembers_ok out hfree
    rw [hanswer]
    exact hok hfree _ hroster
  · obtain ⟨hanswer,hroster⟩ := roster_createMembers_error out hfree
    rw [hanswer]
    exact herror hfree _ hroster

theorem any_roster (db : Database) (key : String) :
    (db.roster.rooms.any fun room => room.privateKey = key) =
      db.conversations.any fun conv => conv.privateKey = key := by
  rw [Database.roster,List.any_map]
  rfl

theorem find_room (db : Database) (key : String) :
    db.roster.rooms.find? (fun room => room.privateKey = key) =
      (db.conversations.find? fun conv => conv.privateKey = key).map (·.room) :=
  List.find?_map ..

theorem roster_createConversation_ok (row : ChatConversation)
    (h : (db.roster.rooms.any fun room => room.privateKey = row.privateKey) = false) :
    (db.createConversation row).1 = .ok { row with id := db.roster.next } ∧
      (db.createConversation row).2.roster =
        db.roster.openRoom row.type row.privateKey row.memberCount := by
  rw [any_roster] at h
  rw [Database.createConversation,if_neg (Bool.eq_false_iff.mp h)]
  refine ⟨rfl,?_⟩
  simp only [Database.roster,Roster.openRoom,List.map_append,ChatConversation.room]
  rfl

theorem roster_createConversation_error (row : ChatConversation)
    (h : (db.roster.rooms.any fun room => room.privateKey = row.privateKey) = true) :
    (db.createConversation row).1 = .error .duplicatedKey ∧
      (db.createConversation row).2.roster = { db.roster with next := db.roster.next+1 } := by
  rw [any_roster] at h
  rw [Database.createConversation,if_pos h]
  exact ⟨rfl,rfl⟩

theorem wp_openRoom {α : Type} {row : ChatConversation}
    {f : Except DBError ChatConversation → ChatM α} {Q : α → Database → Prop}
    {E : ErrCode → Database → Prop}
    (hok : (db.roster.rooms.any fun room => room.privateKey = row.privateKey) = false → ∀ t,
      t.roster = db.roster.openRoom row.type row.privateKey row.memberCount →
      wp ((f (.ok { row with id := db.roster.next })).run (exec out)) Q E t)
    (herror : (db.roster.rooms.any fun room => room.privateKey = row.privateKey) = true → ∀ t,
      t.roster = { db.roster with next := db.roster.next+1 } →
      wp ((f (.error .duplicatedKey)).run (exec out)) Q E t) :
    wp ((ask (.createConversation row) >>= f).run (exec out)) Q E db := by
  rw [Prog.wp_run_bind,wp_ask]
  change wp (Prog.run (exec out) (f (db.createConversation row).1)) Q E
    (db.createConversation row).2
  cases hany : db.roster.rooms.any fun room => room.privateKey = row.privateKey with
  | true =>
    obtain ⟨hanswer,hroster⟩ := roster_createConversation_error row hany
    rw [hanswer]
    exact herror hany _ hroster
  | false =>
    obtain ⟨hanswer,hroster⟩ := roster_createConversation_ok row hany
    rw [hanswer]
    exact hok hany _ hroster

theorem roster_updateCount (out : Outer) (db : Database) (c : Nat) (n : UInt32) :
    (exec out (.updateConversation { (default : ChatConversation) with id := c, memberCount := n }
      [.memberCount]) db).2.roster = db.roster.setCount c n := by
  simp only [exec,Database.roster,Roster.setCount,List.map_map]
  congr 1
  refine List.map_congr_left fun conv _ => ?_
  simp only [Function.comp_apply,ChatConversation.room]
  split <;> rfl

theorem roster_setMemberCount (n : UInt32) {Q : Unit → Database → Prop}
    {E : ErrCode → Database → Prop} (h : ∀ t, t.roster = db.roster.setCount c n → Q () t) :
    wp ((setMemberCount c n).run (exec out)) Q E db :=
  h _ (roster_updateCount out db c n)

/-- Among the rows of the tables, an ID stands for a key. -/
theorem roster_deleteMember (out : Outer) (hkeyed : Keyed db) {mem : ChatConversationMember}
    (hmem : db.member c u = some mem) :
    (exec out (.deleteMember mem.id) db).2.roster = db.roster.leave c u := by
  have hin := (live_of_member hmem).1
  have hkey : mem.conversationID = c ∧ mem.userUUID = u := (mem_live_of_find hmem).2
  simp only [exec,Database.roster,Roster.leave,Seat.leave,List.map_map]
  congr 1
  refine List.map_congr_left fun m hm => ?_
  simp only [Function.comp_apply,ChatConversationMember.seat]
  by_cases hid : m.id = mem.id
  · rw [if_pos hid,if_pos (by rw [eq_of_increasing hkeyed.memberIDs hm hin hid]; exact hkey)]
  · rw [if_neg hid,if_neg fun hkey' => hid ?_]
    rw [eq_of_sameKey hkeyed hm hin ⟨hkey'.1.trans hkey.1.symm,hkey'.2.trans hkey.2.symm⟩]

theorem takeMember_sits (out : Outer) (h : u ∈ db.roster.sitting c) :
    ∃ mem, db.member c u = some mem ∧ exec out (.takeMember c u) db = (.ok mem,db) := by
  rw [exec_takeMember]
  cases hmem : db.live.find? (fun m => m.conversationID = c ∧ m.userUUID = u) with
  | none => exact (find_live_eq_none hmem (mem_sitting_roster.mp h)).elim
  | some mem => exact ⟨mem,hmem,rfl⟩

theorem takeMember_lacks (out : Outer) (h : u ∉ db.roster.sitting c) :
    exec out (.takeMember c u) db = (.error .recordNotFound,db) := by
  rw [exec_takeMember]
  cases hmem : db.live.find? (fun m => m.conversationID = c ∧ m.userUUID = u) with
  | none => rfl
  | some mem =>
    obtain ⟨hin,hlive⟩ := live_of_member hmem
    exact (h (mem_sitting_roster.mpr ⟨mem,hin,hlive,(mem_live_of_find hmem).2⟩)).elim

theorem wp_requireSitting {missing : ErrCode} {Q : ChatConversationMember → Database → Prop}
    {E : ErrCode → Database → Prop}
    (hok : ∀ mem, db.member c u = some mem → u ∈ db.roster.sitting c → Q mem db)
    (hno : u ∉ db.roster.sitting c → E missing db) :
    wp ((requireMember c u missing).run (exec out)) Q E db := by
  rw [requireMember,Prog.wp_run_bind,wp_ask]
  by_cases hu : u ∈ db.roster.sitting c
  · obtain ⟨mem,hmem,htake⟩ := takeMember_sits out hu
    rw [htake]
    exact hok mem hmem hu
  · rw [takeMember_lacks out hu]
    exact hno hu

end Statements

section Calls
variable {out : Outer} {db : Database}

def Leaves (out : Outer) (db : Database) (main : ChatM Reply) (r : Roster) : Prop :=
  wp (main.run (exec out)) (fun reply t => t.roster = r ∧ reply.2.Yields Stmt.Reads fun _ => True)
    (fun _ t => t.roster = r) db

theorem Leaves.served {main : ChatM Reply} {r : Roster} (h : Leaves out db main r) :
    wp ((serve main).run (exec out)) (fun _ t => t.roster = r) (fun _ t => t.roster = r) db := by
  refine wp_serve (wp_mono h ?_ fun _ _ he => he)
  rintro reply t ⟨ht,hreply⟩
  refine wp_mono (hreply.wp_run (exec out) (fun q s hq hs => ?_) ht) (fun _ _ hu => hu.1)
    fun _ _ hu => hu
  rw [roster_reads out s hq,hs]

theorem leaves_addMembers (out : Outer) (db : Database) (req : AddMembersReq) :
    Leaves out db (addMembers req) (req.onRoster db.roster) := by
  rw [addMembers,AddMembersReq.onRoster,Leaves]
  split
  · exact rfl
  rw [Prog.wp_run_bind]
  refine wp_requireSitting (fun mem hmem hcaller => ?_) fun hstranger => by rw [if_pos hstranger]
  rw [if_neg (not_not_intro hcaller),Prog.wp_run_bind,wp_ask]
  have hlist : exec out (.findMembers req.conversationId) db =
    (.ok (db.live.filter fun m => m.conversationID = req.conversationId),db) := rfl
  rw [hlist]
  change wp (Prog.run (exec out) (insertMembers _ _ _)) _ _ db
  rw [← sitting_roster]
  have hlength : (db.live.filter fun m => m.conversationID = req.conversationId).length =
      (db.roster.sitting req.conversationId).length := by
    rw [sitting_roster,List.length_map]
  rw [hlength,insertMembers]
  split
  · rename_i hnone
    rw [if_neg fun hadd => hadd.1 hnone]
    exact ⟨rfl,reads_announceAdded _ _⟩
  · rename_i hsome
    refine wp_enter _ _ (fun hfree t ht => ?_) fun htaken t ht => ?_
    · rw [if_pos ⟨hsome,hfree⟩]
      refine (Prog.wp_run_bind (exec out) _ _ _ _ t).mpr (roster_setMemberCount _ fun t' ht' => ?_)
      exact ⟨by rw [ht',ht],reads_announceAdded _ _⟩
    · rw [if_neg fun hadd => htaken hadd.2]
      exact ht

theorem leaves_removeMember (out : Outer) (req : RemoveMemberReq) (hkeyed : Keyed db) :
    Leaves out db (removeMember req) (req.onRoster db.roster) := by
  rw [removeMember,RemoveMemberReq.onRoster,Leaves]
  split
  · exact rfl
  rw [Prog.wp_run_bind]
  refine wp_requireSitting (fun _ _ hcaller => ?_)
    fun hstranger => by rw [if_pos (Or.inl hstranger)]
  rw [Prog.wp_run_bind]
  refine wp_requireSitting (fun mem hmem hmember => ?_) fun hgone => by rw [if_pos (Or.inr hgone)]
  have hboth : ¬ (req.uuid ∉ db.roster.sitting req.conversationId ∨
      req.removeUUID ∉ db.roster.sitting req.conversationId) := by
    rintro (hno | hno)
    · exact hno hcaller
    · exact hno hmember
  rw [if_neg hboth,Prog.wp_run_bind,wp_ask]
  have hleave := roster_deleteMember out hkeyed hmem
  have hrooms : db.roster.rooms.find? (fun room => room.id = req.conversationId) =
      (db.conversations.find? fun conv => conv.id = req.conversationId).map (·.room) :=
    List.find?_map ..
  have hget : exec out (.getConversation req.conversationId)
      (exec out (.deleteMember mem.id) db).2 =
      (found (db.conversations.find? fun conv => conv.id = req.conversationId),
        (exec out (.deleteMember mem.id) db).2) := rfl
  change wp (Prog.run (exec out) (ask (.getConversation req.conversationId) >>= _)) _ _ _
  rw [Prog.wp_run_bind,wp_ask,hget,hrooms]
  cases hconv : db.conversations.find? fun conv => conv.id = req.conversationId with
  | none => exact ⟨hleave,reads_announceRemoved _ _⟩
  | some conv =>
    have hid : conv.id = req.conversationId := by simpa using List.find?_some hconv
    change wp (Prog.run (exec out) (if 0 < conv.memberCount then
      setMemberCount conv.id (conv.memberCount-1) >>= fun _ => _ else _)) _ _ _
    simp only [Option.map_some,ChatConversation.room]
    split
    · refine (Prog.wp_run_bind (exec out) _ _ _ _ _).mpr (roster_setMemberCount _ fun t ht => ?_)
      exact ⟨by rw [ht,hleave,hid],reads_announceRemoved _ _⟩
    · exact ⟨hleave,reads_announceRemoved _ _⟩

theorem leaves_createGroupConversation (out : Outer) (req : CreateGroupConversationReq)
    (h : db.roster.Valid) : Leaves out db (createGroupConversation req)
      (req.onRoster (out.uuid db.tick) db.roster) := by
  rw [createGroupConversation,CreateGroupConversationReq.onRoster,Leaves]
  split
  · exact rfl
  rw [Prog.wp_run_bind,wp_ask]
  have hkey : exec out .generateUUID db = (out.uuid db.tick,{ db with tick := db.tick+1 }) := rfl
  rw [hkey]
  refine wp_openRoom (fun hfree t ht => ?_) fun htaken t ht => ?_
  · have hnot : ¬ (db.roster.rooms.any fun room => room.privateKey =
        "g:" ++ out.uuid db.tick) = true :=
      Bool.eq_false_iff.mp hfree
    have hus : (req.uuid :: newUUIDs [req.uuid] req.memberUUIDs).Nodup :=
      List.nodup_cons.mpr ⟨fun hin => by simpa using (mem_newUUIDs.mp hin).2.2,nodup_newUUIDs⟩
    have hseats : t.roster.seats = db.roster.seats := by rw [ht]; rfl
    rw [if_neg hnot]
    refine wp_enter db.roster.next _ (fun _ t' ht' => ?_) fun htaken t' ht' => ?_
    · refine (Prog.wp_run_bind (exec out) _ _ _ _ t').mpr (roster_setMemberCount _ fun t₂ ht₂ => ?_)
      refine ⟨?_,reads_announceCreated _ _⟩
      rw [ht₂,ht',ht]
      change ((db.roster.openRoom 2 ("g:" ++ out.uuid db.tick) 0).setCount db.roster.next _).enter
        db.roster.next _ = _
      rw [h.setCount_openRoom]
    · exact (htaken (hseats ▸ h.free_next hus)).elim
  · have htaken : (db.roster.rooms.any fun room => room.privateKey =
        "g:" ++ out.uuid db.tick) = true :=
      htaken
    rw [if_pos htaken]
    exact ht

theorem wp_complete (out : Outer) (conv : ChatConversation) (u : String)
    {E : ErrCode → Database → Prop} :
    wp ((completeMember conv u).run (exec out))
      (fun _ t => t.roster = db.roster.complete conv.room u) E db := by
  rw [completeMember,Roster.complete,Prog.wp_run_bind,wp_ask]
  by_cases hu : u ∈ db.roster.sitting conv.room.id
  · obtain ⟨mem,-,htake⟩ := takeMember_sits out hu
    have htake : exec out (.takeMember conv.id u) db = (.ok mem,db) := htake
    rw [if_pos hu,htake]
    exact rfl
  · have htake : exec out (.takeMember conv.id u) db = (.error .recordNotFound,db) :=
      takeMember_lacks out hu
    rw [if_neg hu,htake]
    refine wp_enter conv.id [u] (fun hfree t ht => ?_) fun htaken t ht => ?_
    · refine roster_setMemberCount _ fun t' ht' => ?_
      rw [ht',ht]
      exact congrArg (fun r => Roster.setCount r conv.id (conv.memberCount+1)) (if_pos hfree).symm
    · refine roster_setMemberCount _ fun t' ht' => ?_
      rw [ht',ht]
      exact congrArg (fun r => Roster.setCount r conv.id (conv.memberCount+1)) (if_neg htaken).symm

theorem leaves_createPrivateConversation (out : Outer) (req : CreatePrivateConversationReq)
    (h : db.roster.Valid) :
    Leaves out db (createPrivateConversation req) (req.onRoster db.roster) := by
  rw [createPrivateConversation,CreatePrivateConversationReq.onRoster,Leaves]
  split
  · exact rfl
  rename_i hvalid
  have hrooms := find_room db (privateKeyOf req.uuid req.peerUUID)
  have htake : exec out (.takeConversation (privateKeyOf req.uuid req.peerUUID)) db =
      (found (db.conversations.find? fun conv =>
        conv.privateKey = privateKeyOf req.uuid req.peerUUID),db) := rfl
  rw [Prog.wp_run_bind,findPair,Prog.wp_run_bind,wp_ask,htake,hrooms]
  cases hconv : db.conversations.find? fun conv =>
      conv.privateKey = privateKeyOf req.uuid req.peerUUID with
  | some conv =>
    change wp (Prog.run (exec out) (forM [req.uuid,req.peerUUID]
      (completeMember conv) >>= _)) _ _ db
    rw [Prog.wp_run_bind,List.forM_cons,Prog.wp_run_bind]
    refine wp_mono (wp_complete out conv req.uuid) (fun _ t ht => ?_) fun _ _ he => he
    rw [List.forM_cons,Prog.wp_run_bind]
    refine wp_mono (wp_complete out conv req.peerUUID) (fun _ t' ht' => ?_) fun _ _ he => he
    exact ⟨by rw [ht',ht]; rfl,reads_announceCreated _ _⟩
  | none =>
    have hnone : (db.roster.rooms.any fun room =>
        room.privateKey = privateKeyOf req.uuid req.peerUUID) = false := by
      rw [hconv] at hrooms
      rw [List.any_eq_false]
      exact fun room hroom => by simpa using List.find?_eq_none.mp hrooms room hroom
    have hus : [req.uuid,req.peerUUID].Nodup := by
      simp only [not_or] at hvalid
      simp [hvalid.2.2]
    change wp (Prog.run (exec out) (createPair req)) _ _ db
    rw [createPair]
    refine wp_openRoom (fun _ t ht => ?_) fun htaken t ht => ?_
    · have hseats : t.roster.seats = db.roster.seats := by rw [ht]; rfl
      refine wp_enter db.roster.next [req.uuid,req.peerUUID] (fun _ t' ht' => ?_)
        fun htaken t' ht' => ?_
      · exact ⟨by rw [ht',ht]; rfl,reads_announceCreated _ _⟩
      · exact (htaken (hseats ▸ h.free_next hus)).elim
    · have htaken : (db.roster.rooms.any fun room =>
          room.privateKey = privateKeyOf req.uuid req.peerUUID) = true := htaken
      rw [hnone] at htaken
      cases htaken

def Stmt.OffRoster : Stmt → Prop
  | .createMessage _ | .updateMessage _ _ | .updateMember _ _ => True
  | .updateConversation _ cols => cols = [.lastMessageID]
  | q => q.Reads

theorem roster_offRoster (out : Outer) (db : Database) {q : Stmt} (hq : q.OffRoster) :
    (exec out q db).2.roster = db.roster := by
  cases q with
  | createMessage row =>
    change (db.createMessage out row).2.roster = db.roster
    rw [Database.createMessage]
    split <;> rfl
  | updateMember row cols =>
    simp only [exec,Database.updateMember,Database.roster,List.map_map]
    congr 1
    refine List.map_congr_left fun m _ => ?_
    have hsame := sameMember_update row cols m
    simp only [Function.comp_apply,ChatConversationMember.seat,hsame.conversationID,hsame.userUUID,
      hsame.deleted]
  | updateConversation row cols =>
    obtain rfl : cols = [.lastMessageID] := hq
    simp only [exec,Database.roster,List.map_map]
    congr 1
    refine List.map_congr_left fun conv _ => ?_
    simp only [Function.comp_apply]
    split <;> rfl
  | _ => first | exact hq.elim | rfl

theorem Stmt.Reads.offRoster {q : Stmt} (h : q.Reads) : q.OffRoster := by
  cases q <;> first | exact trivial | exact h.elim

theorem offRoster_may {parse : String → Option Int} {op : Operation} {h : ChatTrace} {q : Stmt}
    (hmay : (Request.operation op).May parse h q) :
    match op with
    | .sendMessage _ | .recallMessage _ | .readMessages _ => q.OffRoster
    | _ => True := by
  rcases hmay with hq | hq
  · cases op <;> first | exact trivial | exact hq.offRoster
  cases op with
  | sendMessage req =>
    rcases hq with rfl | ⟨row,rfl,-⟩ | ⟨mem,cnt,-,rfl⟩
    · exact trivial
    · exact rfl
    · exact trivial
  | recallMessage req =>
    obtain ⟨msg,now,-,rfl⟩ := hq
    exact trivial
  | readMessages req =>
    obtain ⟨mem,cnt,lastReadAt,-,rfl⟩ := hq
    exact trivial
  | _ => exact trivial

theorem wp_offRoster (op : Operation) (hop : ∀ h q, (Request.operation op).May noTimes h q →
    q.OffRoster) :
    wp ((serve op.main).run (exec out)) (fun _ t => t.roster = db.roster)
      (fun _ t => t.roster = db.roster) db := by
  have hrun := Prog.Traced.wp_run (J := fun _ (t : Database) => t.roster = db.roster)
    (exec_fits out) (fun h q t hmay ht => (roster_offRoster out t (hop h q hmay)).trans ht)
    (traced_request noTimes (.operation op)) rfl
  refine wp_mono hrun ?_ ?_
  · rintro _ t ⟨-,ht,-⟩
    exact ht
  · rintro _ t ⟨-,ht⟩
    exact ht

/-- What a call does to the tables is what `onRoster` says. -/
theorem roster_apply (out : Outer) (hkeyed : Keyed db) (h : db.roster.Valid) (op : Operation) :
    (op.apply out db).roster = op.onRoster (out.uuid db.tick) db.roster := by
  refine final_of_wp (P := fun t : Database =>
    t.roster = op.onRoster (out.uuid db.tick) db.roster) ?_
  cases op with
  | createGroupConversation req => exact (leaves_createGroupConversation out req h).served
  | createPrivateConversation req => exact (leaves_createPrivateConversation out req h).served
  | addMembers req => exact (leaves_addMembers out db req).served
  | removeMember req => exact (leaves_removeMember out req hkeyed).served
  | sendMessage req => exact wp_offRoster _ fun _ _ hmay => offRoster_may hmay
  | recallMessage req => exact wp_offRoster _ fun _ _ hmay => offRoster_may hmay
  | readMessages req => exact wp_offRoster _ fun _ _ hmay => offRoster_may hmay

end Calls

section Valid
variable {r : Roster} {c : Nat} {u : String}

theorem Roster.Valid.enter (h : r.Valid) {us : List String} (hfree : Seat.Free r.seats c us)
    (hc : c < r.next) : (r.enter c us).Valid := by
  refine ⟨?_,fun s hs => ?_,h.rooms⟩
  · simp only [Roster.enter,Seat.keys_enter]
    exact hfree
  · rcases List.mem_append.mp hs with hs | hs
    · exact h.seats s hs
    · obtain ⟨v,-,rfl⟩ := List.mem_map.mp hs
      exact hc

theorem Roster.Valid.leave (h : r.Valid) : (r.leave c u).Valid := by
  refine ⟨?_,fun s hs => ?_,h.rooms⟩
  · simp only [Roster.leave,Seat.keys_leave]
    exact h.keys
  · obtain ⟨s',hs',rfl⟩ := List.mem_map.mp hs
    split <;> exact h.seats s' hs'

theorem Roster.Valid.setCount (h : r.Valid) (n : UInt32) : (r.setCount c n).Valid := by
  refine ⟨h.keys,h.seats,fun room hroom => ?_⟩
  obtain ⟨room',hroom',rfl⟩ := List.mem_map.mp hroom
  split <;> exact h.rooms room' hroom'

theorem Roster.Valid.openRoom (h : r.Valid) (type : Int8) (key : String) (n : UInt32) :
    (r.openRoom type key n).Valid := by
  refine ⟨h.keys,fun s hs => Nat.lt_succ_of_lt (h.seats s hs),fun room hroom => ?_⟩
  rcases List.mem_append.mp hroom with hroom | hroom
  · exact Nat.lt_succ_of_lt (h.rooms room hroom)
  · rw [List.mem_singleton.mp hroom]
    exact Nat.lt_succ_self r.next

theorem Roster.Valid.complete (h : r.Valid) {room : Room} (hroom : room.id < r.next) :
    (r.complete room u).Valid := by
  rw [Roster.complete]
  split
  · exact h
  · split
    · rename_i hfree
      exact (h.enter hfree hroom).setCount _
    · exact h.setCount _

theorem Roster.complete_next (room : Room) : (r.complete room u).next = r.next := by
  rw [Roster.complete]
  split
  · rfl
  · split <;> rfl

theorem Roster.Valid.sitting_lt (h : r.Valid) (hu : u ∈ r.sitting c) : c < r.next :=
  h.seats _ (Seat.mem_sitting.mp hu)

theorem Roster.Valid.onRoster (h : r.Valid) (key : String) (op : Operation) :
    (op.onRoster key r).Valid := by
  cases op with
  | createGroupConversation req =>
    change (req.onRoster key r).Valid
    rw [CreateGroupConversationReq.onRoster]
    split
    · exact h
    split
    · exact ⟨h.keys,fun s hs => Nat.lt_succ_of_lt (h.seats s hs),
        fun room hroom => Nat.lt_succ_of_lt (h.rooms room hroom)⟩
    · have hus : (req.uuid :: newUUIDs [req.uuid] req.memberUUIDs).Nodup :=
        List.nodup_cons.mpr ⟨fun hin => by simpa using (mem_newUUIDs.mp hin).2.2,nodup_newUUIDs⟩
      exact (h.openRoom _ _ _).enter (h.free_next hus) (Nat.lt_succ_self r.next)
  | createPrivateConversation req =>
    change (req.onRoster r).Valid
    rw [CreatePrivateConversationReq.onRoster]
    split
    · exact h
    rename_i hvalid
    have hus : [req.uuid,req.peerUUID].Nodup := by
      simp only [not_or] at hvalid
      simp [hvalid.2.2]
    split
    · exact (h.openRoom _ _ _).enter (h.free_next hus) (Nat.lt_succ_self r.next)
    · rename_i room hroom
      have hlt := h.rooms room (List.mem_of_find?_eq_some hroom)
      exact (h.complete hlt).complete (by rwa [Roster.complete_next])
  | addMembers req =>
    change (req.onRoster r).Valid
    rw [AddMembersReq.onRoster]
    split
    · exact h
    split
    · exact h
    rename_i hcaller
    rw [not_not] at hcaller
    simp only
    split
    · rename_i hadd
      exact (h.enter hadd.2 (h.sitting_lt hcaller)).setCount _
    · exact h
  | removeMember req =>
    change (req.onRoster r).Valid
    rw [RemoveMemberReq.onRoster]
    split
    · exact h
    split
    · exact h
    split
    · exact h.leave
    · split
      · exact h.leave.setCount _
      · exact h.leave
  | _ => exact h

end Valid

section Run
variable {out : Outer} {db : Database}

/-- The keys hold and the roster is valid. -/
structure Kept (db : Database) : Prop where
  keyed : Keyed db
  roster : db.roster.Valid

theorem kept_empty : Kept emptyDatabase :=
  ⟨keyed_empty,by constructor <;> simp [emptyDatabase,Database.roster]⟩

theorem Kept.apply (h : Kept db) (out : Outer) (op : Operation) : Kept (op.apply out db) := by
  refine ⟨final_of_wp (wp_keyed _ h.keyed),?_⟩
  rw [roster_apply out h.keyed h.roster]
  exact h.roster.onRoster _ op

theorem Kept.run (h : Kept db) (out : Outer) (ops : List Operation) :
    Kept (runOperations out db ops) := by
  induction ops using List.reverseRecOn with
  | nil => exact h
  | append_singleton ops op ih =>
    rw [runOperations_concat]
    exact ih.apply out op

end Run

end Imy.Chat
