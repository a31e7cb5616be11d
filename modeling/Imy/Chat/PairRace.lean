import Imy.Chat.CallStages
set_option autoImplicit false

namespace Imy.Chat
open Imy.Lib

def CreatePrivateConversationReq.created (req : CreatePrivateConversationReq)
    (conv : ChatConversation) : Reply :=
  (.conversation conv.info,announceCreated conv.info [req.uuid,req.peerUUID])

/-- The row of a new conversation. -/
def CreatePrivateConversationReq.row (req : CreatePrivateConversationReq) : ChatConversation :=
  { (default : ChatConversation) with
    type := 1, privateKey := privateKeyOf req.uuid req.peerUUID, createUUID := req.uuid
    memberCount := 2 }

inductive PairStage where
  | lookUp (req : CreatePrivateConversationReq)
  | create (req : CreatePrivateConversationReq)
  | join (req : CreatePrivateConversationReq) (conv : ChatConversation)
  | check (req : CreatePrivateConversationReq) (conv : ChatConversation) (u : String)
      (rest : List String)
  | insert (req : CreatePrivateConversationReq) (conv : ChatConversation) (u : String)
      (rest : List String)
  | count (req : CreatePrivateConversationReq) (conv : ChatConversation) (rest : List String)

namespace PairStage
open CallStage

def main : PairStage → ChatM Reply
  | .lookUp req => do
    let conv ← findPair req
    return req.created conv
  | .create req => do
    let conv ← createPair req
    return req.created conv
  | .join req conv => do
    match ← ask (.createMembers [memberRow conv.id req.uuid,memberRow conv.id req.peerUUID]) with
    | .error e => .fail (.dataCreateFail e)
    | .ok _ => return req.created conv
  | .check req conv u rest => do
    forM (u :: rest) (completeMember conv)
    return req.created conv
  | .insert req conv u rest => do
    let _ ← ask (.createMembers [memberRow conv.id u])
    setMemberCount conv.id (conv.memberCount+1)
    forM rest (completeMember conv)
    return req.created conv
  | .count req conv rest => do
    setMemberCount conv.id (conv.memberCount+1)
    forM rest (completeMember conv)
    return req.created conv

def completing (req : CreatePrivateConversationReq) (conv : ChatConversation) :
    List String → CallStage PairStage
  | [] => CallStage.done (req.created conv)
  | u :: rest => .main (.check req conv u rest)

def scene : PairStage → (q : Stmt) × (q.Answer → CallStage PairStage)
  | .lookUp req => ⟨.takeConversation (privateKeyOf req.uuid req.peerUUID),fun
    | .ok conv => .main (.check req conv req.uuid [req.peerUUID])
    | .error .recordNotFound => .main (.create req)
    | .error e => refused (.dataQueryFail e)⟩
  | .create req => ⟨.createConversation req.row,fun
    | .ok conv => .main (.join req conv)
    | .error e => refused (.dataCreateFail e)⟩
  | .join req conv =>
    ⟨.createMembers [memberRow conv.id req.uuid,memberRow conv.id req.peerUUID],fun
    | .ok _ => CallStage.done (req.created conv)
    | .error e => refused (.dataCreateFail e)⟩
  | .check req conv u rest => ⟨.takeMember conv.id u,fun
    | .ok _ => completing req conv rest
    | .error .recordNotFound => .main (.insert req conv u rest)
    | .error e => refused (.dataQueryFail e)⟩
  | .insert req conv u rest => ⟨.createMembers [memberRow conv.id u],fun _ =>
    .main (.count req conv rest)⟩
  | .count req conv rest => ⟨.updateConversation { (default : ChatConversation) with
      id := conv.id, memberCount := conv.memberCount+1 } [.memberCount],fun _ =>
    completing req conv rest⟩

theorem program_completing (req : CreatePrivateConversationReq) (conv : ChatConversation)
    (us : List String) : program main (completing req conv us) = serve do
      forM us (completeMember conv)
      return req.created conv := by
  cases us <;> rfl

theorem serve_main (st : PairStage) :
    serve (main st) = .ask (scene st).1 fun r => program main ((scene st).2 r) := by
  cases st with
  | lookUp req =>
    refine congrArg (Prog.ask _) (funext fun answer => ?_)
    rcases answer with (_ | _ | _) | conv
    · rfl
    · rfl
    · rfl
    · exact congrArg serve (Prog.bind_assoc
        (forM [req.uuid,req.peerUUID] (completeMember conv)) _ _)
  | create req =>
    refine congrArg (Prog.ask _) (funext fun answer => ?_)
    rcases answer with e | conv
    · rfl
    · refine congrArg (Prog.ask _) (funext fun answer => ?_)
      rcases answer with e | _ <;> rfl
  | join req conv =>
    refine congrArg (Prog.ask _) (funext fun answer => ?_)
    rcases answer with e | conv <;> rfl
  | check req conv u rest =>
    refine congrArg (Prog.ask _) (funext fun answer => ?_)
    rcases answer with (_ | _ | _) | mem
    · rfl
    · rfl
    · rfl
    · exact (program_completing req conv rest).symm
  | insert req conv u rest => rfl
  | count req conv rest =>
    refine congrArg (Prog.ask _) (funext fun answer => ?_)
    exact (program_completing req conv rest).symm

theorem scene_silent (st : PairStage) (result : Except ErrCode Response) :
    (scene st).1 ≠ .respond result := by
  cases st <;> exact fun h => by cases h

end PairStage

def pairReq (a b : String) (first : Bool) : CreatePrivateConversationReq :=
  if first then ⟨a,b⟩ else ⟨b,a⟩

def startPair (db : Database) (a b : String) : Calls Bool :=
  ⟨db,fun i => serve (createPrivateConversation (pairReq a b i)),[]⟩

def runPair (out : Outer) (db : Database) (a b : String) (schedule : List Bool) : Calls Bool :=
  (startPair db a b).run (exec out) schedule

/-- Nobody looks the conversation up while the other has not found it and is about to
insert it, and nobody looks a member up while the other is about to insert members. -/
def InTurn (p : Calls Bool) (i : Bool) : Prop :=
  ((∃ key k, p.threads i = .ask (.takeConversation key) k) →
    ∀ row k, p.threads (!i) ≠ .ask (.createConversation row) k) ∧
  ((∃ c u k, p.threads i = .ask (.takeMember c u) k) →
    ∀ rows k, p.threads (!i) ≠ .ask (.createMembers rows) k)

/-- The conversation is there with its two members and the count 2, and every answer so
far is its ID. -/
def PairMade (p : Calls Bool) (a b : String) : Prop :=
  ∃ conv ∈ p.state.conversations, conv.privateKey = privateKeyOf a b ∧ conv.memberCount = 2 ∧
    (p.state.live.filter fun m => m.conversationID = conv.id).length = 2 ∧
    (∀ u, p.state.IsMember conv.id u ↔ u = a ∨ u = b) ∧
    ∀ i result, (i,.respond result) ∈ p.log →
      ∃ info, result = .ok (.conversation info) ∧ info.conversationId = conv.id

section Statements
variable {out : Outer} {db : Database} {key : String}

theorem takeConversation_none (out : Outer)
    (h : (db.roster.rooms.any fun room => room.privateKey = key) = false) :
    exec out (.takeConversation key) db = (.error .recordNotFound,db) := by
  rw [any_roster,List.any_eq_false] at h
  have hnone : db.conversations.find? (fun conv => conv.privateKey = key) = none :=
    List.find?_eq_none.mpr h
  change (found (db.conversations.find? fun conv => conv.privateKey = key),db) = _
  rw [hnone]
  rfl

theorem takeConversation_some (out : Outer) (hkeyed : Keyed db) {room : Room}
    (hroom : room ∈ db.roster.rooms) (hkey : room.privateKey = key) :
    ∃ conv, conv.room = room ∧ exec out (.takeConversation key) db = (.ok conv,db) := by
  obtain ⟨conv,hconv,rfl⟩ := List.mem_map.mp hroom
  have hkey : conv.privateKey = key := hkey
  have hfind : db.conversations.find? (fun conv => conv.privateKey = key) = some conv := by
    cases hfind : db.conversations.find? (fun conv => conv.privateKey = key) with
    | none => exact (List.find?_eq_none.mp hfind conv hconv (by simpa using hkey)).elim
    | some conv' =>
      have hkey' : conv'.privateKey = key := by simpa using List.find?_some hfind
      rw [eq_of_distinct hkeyed.privateKeys (List.mem_of_find?_eq_some hfind) hconv
        (hkey'.trans hkey.symm)]
  refine ⟨conv,rfl,?_⟩
  change (found (db.conversations.find? fun conv => conv.privateKey = key),db) = _
  rw [hfind]
  rfl

theorem pairReq_key {a b : String} (h : a ≠ b) (i : Bool) :
    privateKeyOf (pairReq a b i).uuid (pairReq a b i).peerUUID = privateKeyOf a b := by
  cases i with
  | true => rfl
  | false => exact privateKeyOf_comm h.symm

end Statements

/-! What each stage does, by the roster that it finds. -/

section Leads
variable (out : Outer) {db : Database} {req : CreatePrivateConversationReq}
  {conv : ChatConversation} {u : String} {rest : List String}
open PairStage CallStage

theorem leads_lookUp_none (h : (db.roster.rooms.any fun room =>
    room.privateKey = privateKeyOf req.uuid req.peerUUID) = false) :
    Leads scene out db (.lookUp req) (.main (.create req)) db.roster := by
  have htake := takeConversation_none out h
  constructor <;> simp only [scene,htake]

theorem leads_lookUp_some (hkeyed : Keyed db) {room : Room} (hroom : room ∈ db.roster.rooms)
    (hkey : room.privateKey = privateKeyOf req.uuid req.peerUUID) :
    ∃ conv, conv.room = room ∧ Leads scene out db (.lookUp req)
      (.main (.check req conv req.uuid [req.peerUUID])) db.roster := by
  obtain ⟨conv,hconv,htake⟩ := takeConversation_some out hkeyed hroom hkey
  refine ⟨conv,hconv,?_⟩
  constructor <;> simp only [scene,htake]

theorem leads_create_free (h : (db.roster.rooms.any fun room =>
    room.privateKey = privateKeyOf req.uuid req.peerUUID) = false) :
    ∃ conv, conv.id = db.roster.next ∧ Leads scene out db (.create req) (.main (.join req conv))
      (db.roster.openRoom 1 (privateKeyOf req.uuid req.peerUUID) 2) := by
  obtain ⟨hanswer,hroster⟩ := roster_createConversation_ok req.row h
  exact ⟨{ req.row with id := db.roster.next },rfl,congrArg (scene (.create req)).2 hanswer,hroster⟩

theorem leads_create_taken (h : (db.roster.rooms.any fun room =>
    room.privateKey = privateKeyOf req.uuid req.peerUUID) = true) :
    Leads scene out db (.create req) (refused (.dataCreateFail .duplicatedKey))
      { db.roster with next := db.roster.next+1 } := by
  obtain ⟨hanswer,hroster⟩ := roster_createConversation_error req.row h
  exact ⟨congrArg (scene (.create req)).2 hanswer,hroster⟩

theorem leads_join_free (h : Seat.Free db.roster.seats conv.id [req.uuid,req.peerUUID]) :
    Leads scene out db (.join req conv) (done (req.created conv))
      (db.roster.enter conv.id [req.uuid,req.peerUUID]) := by
  obtain ⟨hanswer,hroster⟩ := roster_createMembers_ok out h
  exact ⟨congrArg (scene (.join req conv)).2 hanswer,hroster⟩

theorem leads_join_taken (h : ¬ Seat.Free db.roster.seats conv.id [req.uuid,req.peerUUID]) :
    Leads scene out db (.join req conv) (refused (.dataCreateFail .duplicatedKey)) db.roster := by
  obtain ⟨hanswer,hroster⟩ := roster_createMembers_error out h
  exact ⟨congrArg (scene (.join req conv)).2 hanswer,hroster⟩

theorem leads_check_sits (h : u ∈ db.roster.sitting conv.id) :
    Leads scene out db (.check req conv u rest) (completing req conv rest) db.roster := by
  obtain ⟨mem,-,htake⟩ := takeMember_sits out h
  constructor <;> simp only [scene,htake]

theorem leads_check_lacks (h : u ∉ db.roster.sitting conv.id) :
    Leads scene out db (.check req conv u rest) (.main (.insert req conv u rest)) db.roster := by
  have htake := takeMember_lacks out h
  constructor <;> simp only [scene,htake]

theorem leads_insert (db : Database) (req : CreatePrivateConversationReq) (conv : ChatConversation)
    (u : String) (rest : List String) : ∃ seats, Leads scene out db (.insert req conv u rest)
    (.main (.count req conv rest)) { db.roster with seats := seats } := by
  by_cases h : Seat.Free db.roster.seats conv.id [u]
  · exact ⟨_,rfl,(roster_createMembers_ok out h).2⟩
  · exact ⟨_,rfl,(roster_createMembers_error out h).2⟩

theorem leads_count (db : Database) : Leads scene out db (.count req conv rest)
    (completing req conv rest) (db.roster.setCount conv.id (conv.memberCount+1)) :=
  ⟨rfl,roster_updateCount out db _ _⟩

end Leads

abbrev PairScene := Scene Bool Stmt (CallStage PairStage) Database

section Phases
variable (a b : String) (r₀ : Roster) (sc : PairScene)

structure Unopened : Prop where
  roster : sc.state.roster = r₀
  stages : ∀ i, sc.stages i = .main (.lookUp (pairReq a b i)) ∨
    sc.stages i = .main (.create (pairReq a b i))
  one : ∀ i, sc.stages i = .main (.create (pairReq a b i)) →
    sc.stages (!i) = .main (.lookUp (pairReq a b !i))

/-- The call `w` has inserted the conversation, and no members are there. -/
structure Opened (w : Bool) : Prop where
  roster : sc.state.roster = r₀.openRoom 1 (privateKeyOf a b) 2
  winner : ∃ conv, conv.id = r₀.next ∧ sc.stages w = .main (.join (pairReq a b w) conv)
  other : sc.stages (!w) = .main (.lookUp (pairReq a b !w)) ∨
    ∃ conv, conv.room = ⟨r₀.next,1,privateKeyOf a b,2⟩ ∧ sc.stages (!w) =
      .main (.check (pairReq a b !w) conv (pairReq a b !w).uuid [(pairReq a b !w).peerUUID])

def Answers (result : Except ErrCode Response) : Prop :=
  ∃ info, result = .ok (.conversation info) ∧ info.conversationId = r₀.next

def Stmt.Pushes : Stmt → Prop
  | .sendJSON _ _ => True
  | _ => False

def Completing (i : Bool) : CallStage PairStage → Prop
  | .main (.lookUp req) => req = pairReq a b i
  | .main (.check _ conv u rest) => conv.id = r₀.next ∧ ∀ v ∈ u :: rest, v = a ∨ v = b
  | .main _ => False
  | .respond result goroutine => Answers r₀ result ∧ goroutine.Yields Stmt.Pushes fun _ => True
  | .after goroutine => goroutine.Yields Stmt.Pushes fun _ => True

structure Joined : Prop where
  roster : ∃ us, (us = [a,b] ∨ us = [b,a]) ∧
    sc.state.roster = (r₀.openRoom 1 (privateKeyOf a b) 2).enter r₀.next us
  stages : ∀ i, Completing a b r₀ i (sc.stages i)
  answers : ∀ i result, (i,.respond result) ∈ sc.log → Answers r₀ result

/-- As long as the calls take turns. -/
structure Orderly : Prop where
  keyed : Keyed sc.state
  silent : CallStage.Silent sc
  phase : Unopened a b r₀ sc ∨ (∃ w, Opened a b r₀ sc w) ∨ Joined a b r₀ sc

end Phases

section Steps
variable {out : Outer} {a b : String} {r₀ : Roster} {sc : PairScene} {i w : Bool}

theorem forall_of_not {P : Bool → Prop} (i : Bool) (hi : P i) (hother : P (!i)) : ∀ j, P j := by
  intro j
  rcases Bool.eq_or_eq_not j i with rfl | rfl
  · exact hi
  · exact hother

theorem forall_stages {P : Bool → CallStage PairStage → Prop} {stages : Bool → CallStage PairStage}
    {st : CallStage PairStage} (hi : P i st) (hother : P (!i) (stages !i)) :
    ∀ j, P j (Function.update stages i st j) := by
  refine forall_of_not i ?_ ?_
  · rwa [Function.update_self]
  · rwa [Function.update_of_ne (by simp)]

theorem Unopened.next (h : Unopened a b r₀ sc) (hab : a ≠ b)
    (hfree : (r₀.rooms.any fun room => room.privateKey = privateKeyOf a b) = false)
    (hturn : sc.stages i = .main (.lookUp (pairReq a b i)) →
      sc.stages (!i) ≠ .main (.create (pairReq a b !i))) :
    Unopened a b r₀ (sc.next (CallStage.script PairStage.scene) (exec out) i) ∨
      Opened a b r₀ (sc.next (CallStage.script PairStage.scene) (exec out) i) i := by
  have hkey := pairReq_key hab i
  have hnone : (sc.state.roster.rooms.any fun room =>
      room.privateKey = privateKeyOf (pairReq a b i).uuid (pairReq a b i).peerUUID) = false := by
    rw [h.roster,hkey]
    exact hfree
  rcases h.stages i with hst | hst
  · have hother := (h.stages !i).resolve_right (hturn hst)
    obtain ⟨hroster,hstages,-⟩ := (leads_lookUp_none out hnone).next hst
    refine Or.inl ⟨hroster.trans h.roster,?_,?_⟩
    · rw [hstages]
      exact forall_stages (P := fun j st => st = .main (.lookUp (pairReq a b j)) ∨
        st = .main (.create (pairReq a b j))) (Or.inr rfl) (Or.inl hother)
    · rw [hstages]
      refine forall_of_not i ?_ ?_
      · intro _
        rw [Function.update_of_ne (by simp),hother]
      · intro hcreate
        rw [Function.update_of_ne (by simp),hother] at hcreate
        cases hcreate
  · -- the first insert goes through
    obtain ⟨conv,hconv,hleads⟩ := leads_create_free out hnone
    obtain ⟨hroster,hstages,-⟩ := hleads.next hst
    refine Or.inr ⟨?_,⟨conv,?_,?_⟩,Or.inl ?_⟩
    · rw [hroster,h.roster,hkey]
    · rw [hconv,h.roster]
    · rw [hstages,Function.update_self]
    · rw [hstages,Function.update_of_ne (by simp)]
      exact h.one i hst

theorem pairReq_free (hvalid : r₀.Valid) (hab : a ≠ b) (w : Bool) :
    Seat.Free r₀.seats r₀.next [(pairReq a b w).uuid,(pairReq a b w).peerUUID] := by
  refine hvalid.free_next ?_
  cases w with
  | true => simpa [pairReq] using hab
  | false => simpa [pairReq] using hab.symm

theorem pushes_created (req : CreatePrivateConversationReq) (conv : ChatConversation) :
    (req.created conv).2.Yields Stmt.Pushes fun _ => True :=
  Prog.yields_forM _ fun _ _ => ⟨trivial,fun _ => trivial⟩

theorem Completing.done {conv : ChatConversation} (hconv : conv.id = r₀.next)
    (req : CreatePrivateConversationReq) :
    Completing a b r₀ i (CallStage.done (req.created conv)) :=
  ⟨⟨_,rfl,hconv⟩,pushes_created req conv⟩

theorem pairReq_users (i : Bool) {v : String}
    (hv : v ∈ [(pairReq a b i).uuid,(pairReq a b i).peerUUID]) : v = a ∨ v = b := by
  cases i with
  | true => simpa [pairReq] using hv
  | false => simpa [pairReq,or_comm] using hv

theorem Opened.next_winner (h : Opened a b r₀ sc w) (hvalid : r₀.Valid) (hab : a ≠ b)
    (hsilent : CallStage.Silent sc) :
    Joined a b r₀ (sc.next (CallStage.script PairStage.scene) (exec out) w) := by
  obtain ⟨conv,hconv,hst⟩ := h.winner
  have hfree : Seat.Free sc.state.roster.seats conv.id
      [(pairReq a b w).uuid,(pairReq a b w).peerUUID] := by
    rw [h.roster,hconv]
    exact pairReq_free hvalid hab w
  obtain ⟨hroster,hstages,hlog⟩ := (leads_join_free out hfree).next hst
  refine ⟨⟨[(pairReq a b w).uuid,(pairReq a b w).peerUUID],?_,?_⟩,?_,?_⟩
  · cases w with
    | true => exact Or.inl rfl
    | false => exact Or.inr rfl
  · rw [hroster,h.roster,hconv]
  · rw [hstages]
    refine forall_stages (Completing.done hconv _) ?_
    rcases h.other with hother | ⟨conv',hconv',hother⟩
    · rw [hother]
      exact rfl
    · rw [hother]
      exact ⟨congrArg Room.id hconv',fun v => pairReq_users _⟩
  · -- nobody has answered
    intro j result hin
    rw [hlog,List.mem_append,List.mem_singleton] at hin
    rcases hin with hin | hin
    · obtain ⟨g,hg⟩ := hsilent.returned hin
      rcases Bool.eq_or_eq_not j w with rfl | rfl
      · rw [hst] at hg
        cases hg
      · rcases h.other with hother | ⟨conv',-,hother⟩ <;> rw [hother] at hg <;> cases hg
    · cases hin

theorem mem_openRoom (r : Roster) (type : Int8) (key : String) (n : UInt32) :
    ⟨r.next,type,key,n⟩ ∈ (r.openRoom type key n).rooms :=
  List.mem_append_right _ (List.mem_singleton_self _)

theorem Opened.next_lookUp (h : Opened a b r₀ sc w) (hkeyed : Keyed sc.state) (hab : a ≠ b)
    (hst : sc.stages (!w) = .main (.lookUp (pairReq a b !w))) :
    Opened a b r₀ (sc.next (CallStage.script PairStage.scene) (exec out) !w) w := by
  have hroom : ⟨r₀.next,1,privateKeyOf a b,2⟩ ∈ sc.state.roster.rooms := by
    rw [h.roster]
    exact mem_openRoom ..
  obtain ⟨conv,hconv,hleads⟩ := leads_lookUp_some out hkeyed hroom (pairReq_key hab !w).symm
  obtain ⟨hroster,hstages,-⟩ := hleads.next hst
  obtain ⟨conv',hconv',hwinner⟩ := h.winner
  refine ⟨hroster.trans h.roster,⟨conv',hconv',?_⟩,Or.inr ⟨conv,hconv,?_⟩⟩
  · rw [hstages,Function.update_of_ne (by simp),hwinner]
  · rw [hstages,Function.update_self]

theorem Joined.room (h : Joined a b r₀ sc) :
    ⟨r₀.next,1,privateKeyOf a b,2⟩ ∈ sc.state.roster.rooms := by
  obtain ⟨us,-,hroster⟩ := h.roster
  rw [hroster]
  exact mem_openRoom ..

theorem Joined.sits (h : Joined a b r₀ sc) {v : String} (hv : v = a ∨ v = b) :
    v ∈ sc.state.roster.sitting r₀.next := by
  obtain ⟨us,hus,hroster⟩ := h.roster
  rw [hroster,Roster.sitting,Roster.enter,Seat.sitting_enter]
  refine List.mem_append_right _ ?_
  rcases hus with rfl | rfl
  · simpa using hv
  · simpa [or_comm] using hv

/-- A step that leaves the roster and goes on to a stage of `Completing`. -/
theorem Joined.step (h : Joined a b r₀ sc) {sc' : PairScene} {st : CallStage PairStage} {q : Stmt}
    (hroster : sc'.state.roster = sc.state.roster)
    (hstages : sc'.stages = Function.update sc.stages i st) (hlog : sc'.log = sc.log ++ [(i,q)])
    (hst : Completing a b r₀ i st) (hq : ∀ result, q = .respond result → Answers r₀ result) :
    Joined a b r₀ sc' := by
  obtain ⟨us,hus,hold⟩ := h.roster
  refine ⟨⟨us,hus,hroster.trans hold⟩,?_,?_⟩
  · rw [hstages]
    exact forall_stages hst (h.stages !i)
  · intro j result hin
    rw [hlog,List.mem_append,List.mem_singleton] at hin
    rcases hin with hin | hin
    · exact h.answers j result hin
    · exact hq result (Prod.mk.inj hin).2.symm

theorem completing_completing {conv : ChatConversation} (hconv : conv.id = r₀.next)
    (req : CreatePrivateConversationReq) {us : List String} (hus : ∀ v ∈ us, v = a ∨ v = b) :
    Completing a b r₀ i (PairStage.completing req conv us) := by
  cases us with
  | nil => exact Completing.done hconv req
  | cons u rest => exact ⟨hconv,hus⟩

theorem Joined.next (h : Joined a b r₀ sc) (hkeyed : Keyed sc.state) (hab : a ≠ b) (i : Bool) :
    Joined a b r₀ (sc.next (CallStage.script PairStage.scene) (exec out) i) := by
  have hi := h.stages i
  cases hst : sc.stages i with
  | main stage =>
    rw [hst] at hi
    cases stage with
    | lookUp req =>
      obtain rfl : req = pairReq a b i := hi
      obtain ⟨conv,hconv,hleads⟩ := leads_lookUp_some out hkeyed h.room (pairReq_key hab i).symm
      obtain ⟨hroster,hstages,hlog⟩ := hleads.next hst
      exact h.step hroster hstages hlog ⟨congrArg Room.id hconv,fun v => pairReq_users i⟩
        fun result hq => (PairStage.scene_silent _ result hq).elim
    | check req conv u rest =>
      obtain ⟨hconv,husers⟩ := hi
      have hsits := h.sits (husers u List.mem_cons_self)
      rw [← hconv] at hsits
      obtain ⟨hroster,hstages,hlog⟩ := (leads_check_sits out hsits).next hst
      exact h.step hroster hstages hlog
        (completing_completing hconv req fun v hv => husers v (List.mem_cons_of_mem u hv))
        fun result hq => (PairStage.scene_silent _ result hq).elim
    | _ => exact hi.elim
  | respond result goroutine =>
    rw [hst] at hi
    rw [CallStage.next_respond hst]
    refine h.step rfl rfl rfl hi.2 fun result' hq => ?_
    cases hq
    exact hi.1
  | after goroutine =>
    rw [hst] at hi
    rcases CallStage.next_after PairStage.scene out hst with
      ⟨q,k,rfl,hnext⟩ | hnext
    · rw [hnext]
      have hpush : q.Pushes := hi.1
      cases q with
      | sendJSON u m => exact h.step rfl rfl rfl (hi.2 _) fun result hq => by cases hq
      | _ => exact hpush.elim
    · rw [hnext]
      exact h

end Steps

section Doomed
variable (a b : String) (r₀ : Roster) (sc : PairScene)

def Counting : CallStage PairStage → Prop
  | .main (.lookUp _) | .main (.create _) => False
  | .main (.join _ _) => True
  | .main (.check _ conv _ _) | .main (.insert _ conv _ _) | .main (.count _ conv _) =>
    conv.id = r₀.next ∧ conv.memberCount = 2
  | .respond _ goroutine => goroutine.Yields Stmt.Pushes fun _ => True
  | .after goroutine => goroutine.Yields Stmt.Pushes fun _ => True

def Adding : CallStage PairStage → Prop
  | .main (.insert _ _ _ _) | .main (.count _ _ _) => True
  | _ => False

inductive Doomed : Prop
  | clash (stages : ∀ i, sc.stages i = .main (.create (pairReq a b i)))
  | late (i : Bool) (stage : sc.stages i = .main (.create (pairReq a b i)))
      (taken : (sc.state.roster.rooms.any fun room => room.privateKey = privateKeyOf a b) = true)
  | refused (i : Bool) (e : ErrCode) (stage : sc.stages i = CallStage.refused e)
  | failed (i : Bool) (e : ErrCode) (log : (i,.respond (.error e)) ∈ sc.log)
  | counted (n : UInt32) (room : ⟨r₀.next,1,privateKeyOf a b,n⟩ ∈ sc.state.roster.rooms)
      (stages : ∀ i, Counting r₀ (sc.stages i)) (added : n = 3 ∨ ∃ i, Adding (sc.stages i))

variable {a b r₀ sc} {out : Outer}

theorem any_key_next {key : String}
    (h : (sc.state.roster.rooms.any fun room => room.privateKey = key) = true) (i : Bool) :
    ((sc.next (CallStage.script PairStage.scene) (exec out) i).state.roster.rooms.any
      fun room => room.privateKey = key) = true := by
  rw [any_roster,List.any_eq_true] at h ⊢
  obtain ⟨conv,hconv,hkey⟩ := h
  obtain ⟨conv',hconv',hstill⟩ :=
    (CallStage.later_next PairStage.scene out sc i).conversations.mem hconv
  exact ⟨conv',hconv',by rwa [hstill.privateKey]⟩

theorem Doomed.clash_next (hab : a ≠ b)
    (h : ∀ i, sc.stages i = .main (.create (pairReq a b i))) (i : Bool) :
    Doomed a b r₀ (sc.next (CallStage.script PairStage.scene) (exec out) i) := by
  have hkey := pairReq_key hab i
  cases hany : sc.state.roster.rooms.any fun room => room.privateKey = privateKeyOf a b with
  | true =>
    obtain ⟨-,hstages,-⟩ := (leads_create_taken out (hkey ▸ hany)).next (h i)
    exact .refused i _ (by rw [hstages,Function.update_self])
  | false =>
    obtain ⟨conv,-,hleads⟩ := leads_create_free out (hkey ▸ hany)
    obtain ⟨hroster,hstages,-⟩ := hleads.next (h i)
    refine .late (!i) ?_ ?_
    · rw [hstages,Function.update_of_ne (by simp),h]
    · rw [hroster,hkey]
      exact List.any_eq_true.mpr ⟨_,mem_openRoom ..,by simp⟩

theorem Doomed.late_next (hab : a ≠ b) {i : Bool}
    (h : sc.stages i = .main (.create (pairReq a b i)))
    (taken : (sc.state.roster.rooms.any fun room => room.privateKey = privateKeyOf a b) = true)
    (j : Bool) : Doomed a b r₀ (sc.next (CallStage.script PairStage.scene) (exec out) j) := by
  by_cases hij : i = j
  · subst hij
    obtain ⟨-,hstages,-⟩ := (leads_create_taken out (pairReq_key hab i ▸ taken)).next h
    exact .refused i _ (by rw [hstages,Function.update_self])
  · exact .late i (by rw [sc.next_stages_other hij,h]) (any_key_next taken j)

theorem Doomed.refused_next {i : Bool} {e : ErrCode} (h : sc.stages i = CallStage.refused e)
    (j : Bool) : Doomed a b r₀ (sc.next (CallStage.script PairStage.scene) (exec out) j) := by
  by_cases hij : i = j
  · subst hij
    rw [CallStage.next_respond h]
    exact .failed i e (List.mem_append_right _ (List.mem_singleton_self _))
  · exact .refused i e (by rw [sc.next_stages_other hij,h])

theorem counting_completing {conv : ChatConversation} (hid : conv.id = r₀.next)
    (hcount : conv.memberCount = 2) (req : CreatePrivateConversationReq) (us : List String) :
    Counting r₀ (PairStage.completing req conv us) := by
  cases us with
  | nil => exact pushes_created req conv
  | cons u rest => exact ⟨hid,hcount⟩

theorem Doomed.counted_step {n : UInt32} {i : Bool} {sc' : PairScene} {st : CallStage PairStage}
    (hroom : ⟨r₀.next,1,privateKeyOf a b,n⟩ ∈ sc.state.roster.rooms)
    (hcounting : ∀ j, Counting r₀ (sc.stages j)) (hadded : n = 3 ∨ ∃ j, Adding (sc.stages j))
    (hrooms : sc'.state.roster.rooms = sc.state.roster.rooms)
    (hstages : sc'.stages = Function.update sc.stages i st) (hst : Counting r₀ st)
    (hadding : Adding (sc.stages i) → Adding st) : Doomed a b r₀ sc' := by
  refine .counted n (hrooms ▸ hroom) ?_ (hadded.imp_right fun ⟨j,hj⟩ => ⟨j,?_⟩)
  · rw [hstages]
    exact forall_stages (P := fun _ => Counting r₀) hst (hcounting !i)
  · rw [hstages]
    by_cases hij : j = i
    · subst hij
      rw [Function.update_self]
      exact hadding hj
    · rwa [Function.update_of_ne hij]

theorem Doomed.counted_next {n : UInt32}
    (hroom : ⟨r₀.next,1,privateKeyOf a b,n⟩ ∈ sc.state.roster.rooms)
    (hcounting : ∀ j, Counting r₀ (sc.stages j)) (hadded : n = 3 ∨ ∃ j, Adding (sc.stages j))
    (i : Bool) : Doomed a b r₀ (sc.next (CallStage.script PairStage.scene) (exec out) i) := by
  have hi := hcounting i
  cases hst : sc.stages i with
  | main stage =>
    rw [hst] at hi
    cases stage with
    | lookUp req => exact hi.elim
    | create req => exact hi.elim
    | join req conv =>
      have hnot : ¬ Adding (sc.stages i) := by
        rw [hst]
        exact id
      by_cases hfree : Seat.Free sc.state.roster.seats conv.id [req.uuid,req.peerUUID]
      · obtain ⟨hroster,hstages,-⟩ := (leads_join_free out hfree).next hst
        exact counted_step hroom hcounting hadded (by rw [hroster]; rfl) hstages
          (pushes_created req conv) fun h => (hnot h).elim
      · obtain ⟨-,hstages,-⟩ := (leads_join_taken out hfree).next hst
        exact .refused i _ (by rw [hstages,Function.update_self])
    | check req conv u rest =>
      have hnot : ¬ Adding (sc.stages i) := by
        rw [hst]
        exact id
      by_cases hsits : u ∈ sc.state.roster.sitting conv.id
      · obtain ⟨hroster,hstages,-⟩ := (leads_check_sits out hsits).next hst
        exact counted_step hroom hcounting hadded (congrArg Roster.rooms hroster) hstages
          (counting_completing hi.1 hi.2 req rest) fun h => (hnot h).elim
      · obtain ⟨hroster,hstages,-⟩ := (leads_check_lacks out hsits).next hst
        exact counted_step hroom hcounting hadded (congrArg Roster.rooms hroster) hstages hi
          fun h => (hnot h).elim
    | insert req conv u rest =>
      obtain ⟨seats,hleads⟩ := leads_insert out sc.state req conv u rest
      obtain ⟨hroster,hstages,-⟩ := hleads.next hst
      exact counted_step hroom hcounting hadded (by rw [hroster]) hstages hi fun _ => trivial
    | count req conv rest =>
      obtain ⟨hroster,hstages,-⟩ := (leads_count out sc.state).next hst
      refine .counted 3 ?_ ?_ (Or.inl rfl)
      · rw [hroster,hi.1,hi.2]
        exact List.mem_map.mpr ⟨_,hroom,if_pos rfl⟩
      · rw [hstages]
        exact forall_stages (P := fun _ => Counting r₀) (counting_completing hi.1 hi.2 req rest)
          (hcounting !i)
  | respond result goroutine =>
    rw [hst] at hi
    rw [CallStage.next_respond hst]
    refine counted_step hroom hcounting hadded rfl rfl hi fun h => ?_
    rw [hst] at h
    exact h.elim
  | after goroutine =>
    rw [hst] at hi
    rcases CallStage.next_after PairStage.scene out hst with ⟨q,k,rfl,hnext⟩ | hnext
    · rw [hnext]
      have hpush : q.Pushes := hi.1
      cases q with
      | sendJSON u m =>
        refine counted_step hroom hcounting hadded rfl rfl (hi.2 _) fun h => ?_
        rw [hst] at h
        exact h.elim
      | _ => exact hpush.elim
    · rw [hnext]
      exact .counted n hroom hcounting hadded

theorem Doomed.next (h : Doomed a b r₀ sc) (hab : a ≠ b) (i : Bool) :
    Doomed a b r₀ (sc.next (CallStage.script PairStage.scene) (exec out) i) := by
  cases h with
  | clash stages => exact clash_next hab stages i
  | late j stage taken => exact late_next hab stage taken i
  | refused j e stage => exact refused_next stage i
  | failed j e log => exact .failed j e (Scene.mem_log_next log i)
  | counted n room stages added => exact counted_next room stages added i

end Doomed

section Turns
variable {out : Outer} {a b : String} {r₀ : Roster} {sc : PairScene} {p : Calls Bool} {i : Bool}

theorem follows_pair :
    Follows (CallStage.program PairStage.main) (CallStage.script PairStage.scene) :=
  CallStage.follows PairStage.serve_main

theorem ask_stage (hshows : Shows (CallStage.program PairStage.main) p sc) {stage : PairStage}
    (hst : sc.stages i = .main stage) : ∃ k, p.threads i = .ask (PairStage.scene stage).1 k :=
  hshows.ask follows_pair (by rw [hst]; rfl)

theorem asks_stage (hshows : Shows (CallStage.program PairStage.main) p sc) {stage : PairStage}
    (hst : sc.stages i = .main stage) {q : Stmt} {k : q.Answer → ChatM Unit}
    (hask : p.threads i = .ask q k) : (PairStage.scene stage).1 = q := by
  obtain ⟨next,hscript⟩ := hshows.asks follows_pair hask
  rw [hst] at hscript
  exact congrArg Sigma.fst (Option.some.inj hscript)

theorem Orderly.next (h : Orderly a b r₀ sc) (hvalid : r₀.Valid) (hab : a ≠ b)
    (hfree : (r₀.rooms.any fun room => room.privateKey = privateKeyOf a b) = false)
    (hshows : Shows (CallStage.program PairStage.main) p sc) (hturn : InTurn p i) :
    Orderly a b r₀ (sc.next (CallStage.script PairStage.scene) (exec out) i) := by
  refine ⟨CallStage.keyed_next h.keyed i,h.silent.next PairStage.scene_silent i,?_⟩
  rcases h.phase with hphase | ⟨w,hphase⟩ | hphase
  · have hlooks : sc.stages i = .main (.lookUp (pairReq a b i)) →
        sc.stages (!i) ≠ .main (.create (pairReq a b !i)) := by
      intro hlook hcreate
      obtain ⟨k,hk⟩ := ask_stage hshows hlook
      obtain ⟨k',hk'⟩ := ask_stage hshows hcreate
      exact hturn.1 ⟨_,_,hk⟩ _ _ hk'
    rcases hphase.next hab hfree hlooks with hphase | hphase
    · exact Or.inl hphase
    · exact Or.inr (Or.inl ⟨i,hphase⟩)
  · rcases Bool.eq_or_eq_not i w with rfl | rfl
    · exact Or.inr (Or.inr (hphase.next_winner hvalid hab h.silent))
    · rcases hphase.other with hother | ⟨conv,-,hother⟩
      · exact Or.inr (Or.inl ⟨w,hphase.next_lookUp h.keyed hab hother⟩)
      · -- the winner is about to insert the members
        obtain ⟨conv',-,hwinner⟩ := hphase.winner
        obtain ⟨k,hk⟩ := ask_stage hshows hother
        obtain ⟨k',hk'⟩ := ask_stage hshows hwinner
        exact (hturn.2 ⟨_,_,_,hk⟩ _ _ (by rw [Bool.not_not]; exact hk')).elim
  · exact Or.inr (Or.inr (hphase.next h.keyed hab i))

/-- Whoever looks the conversation up out of turn is about to insert it, too. -/
theorem Unopened.spoil (h : Unopened a b r₀ sc) (hab : a ≠ b)
    (hfree : (r₀.rooms.any fun room => room.privateKey = privateKeyOf a b) = false)
    (hst : sc.stages i = .main (.lookUp (pairReq a b i)))
    (hother : sc.stages (!i) = .main (.create (pairReq a b !i))) :
    Doomed a b r₀ (sc.next (CallStage.script PairStage.scene) (exec out) i) := by
  have hnone : (sc.state.roster.rooms.any fun room =>
      room.privateKey = privateKeyOf (pairReq a b i).uuid (pairReq a b i).peerUUID) = false := by
    rw [h.roster,pairReq_key hab i]
    exact hfree
  obtain ⟨-,hstages,-⟩ := (leads_lookUp_none out hnone).next hst
  refine .clash ?_
  rw [hstages]
  exact forall_stages (P := fun j st => st = .main (.create (pairReq a b j))) rfl hother

theorem Opened.spoil {w : Bool} (h : Opened a b r₀ sc w) (hvalid : r₀.Valid)
    {conv : ChatConversation} (hconv : conv.room = ⟨r₀.next,1,privateKeyOf a b,2⟩)
    (hst : sc.stages (!w) =
      .main (.check (pairReq a b !w) conv (pairReq a b !w).uuid [(pairReq a b !w).peerUUID])) :
    Doomed a b r₀ (sc.next (CallStage.script PairStage.scene) (exec out) !w) := by
  have hid : conv.id = r₀.next := congrArg Room.id hconv
  have hcount : conv.memberCount = 2 := congrArg Room.memberCount hconv
  have hlacks : (pairReq a b !w).uuid ∉ sc.state.roster.sitting conv.id := by
    rw [h.roster,hid]
    exact fun hsits => lt_irrefl _ (hvalid.sitting_lt hsits)
  obtain ⟨hroster,hstages,-⟩ := (leads_check_lacks out hlacks).next hst
  obtain ⟨conv',-,hwinner⟩ := h.winner
  refine .counted 2 ?_ ?_ (Or.inr ⟨!w,?_⟩)
  · rw [hroster,h.roster]
    exact mem_openRoom ..
  · rw [hstages]
    refine forall_stages (P := fun _ => Counting r₀) ⟨hid,hcount⟩ ?_
    rw [Bool.not_not,hwinner]
    exact trivial
  · rw [hstages,Function.update_self]
    exact trivial

theorem script_pushes {g : ChatM Unit} (hg : g.Yields Stmt.Pushes fun _ => True) {q : Stmt}
    {next : q.Answer → CallStage PairStage}
    (hscript : CallStage.script PairStage.scene (.after g) = some ⟨q,next⟩) : q.Pushes := by
  cases g with
  | ask q' k =>
    cases hscript
    exact hg.1
  | ret u => cases hscript
  | fail e => cases hscript

theorem Joined.inTurn (h : Joined a b r₀ sc)
    (hshows : Shows (CallStage.program PairStage.main) p sc) (i : Bool) : InTurn p i := by
  have hinserts : ∀ q k, p.threads (!i) = .ask q k →
      match q with
      | .createConversation _ | .createMembers _ => False
      | _ => True := by
    intro q k hask
    obtain ⟨next,hscript⟩ := hshows.asks follows_pair hask
    have hother := h.stages !i
    cases hst : sc.stages !i with
    | main stage =>
      rw [hst] at hscript hother
      cases stage with
      | lookUp req =>
        cases hscript
        exact trivial
      | check req conv u rest =>
        cases hscript
        exact trivial
      | _ => exact hother.elim
    | respond result g =>
      rw [hst] at hscript
      cases hscript
      exact trivial
    | after g =>
      rw [hst] at hscript hother
      have hpush := script_pushes hother hscript
      cases q <;> first | exact trivial | exact hpush
  exact ⟨fun _ row k hask => hinserts _ k hask,fun _ rows k hask => hinserts _ k hask⟩

theorem Orderly.spoil (h : Orderly a b r₀ sc) (hvalid : r₀.Valid) (hab : a ≠ b)
    (hfree : (r₀.rooms.any fun room => room.privateKey = privateKeyOf a b) = false)
    (hshows : Shows (CallStage.program PairStage.main) p sc) (hturn : ¬ InTurn p i) :
    Doomed a b r₀ (sc.next (CallStage.script PairStage.scene) (exec out) i) := by
  rcases h.phase with hphase | ⟨w,hphase⟩ | hphase
  · rcases hphase.stages i with hst | hst
    · rcases hphase.stages !i with hother | hother
      · refine (hturn ⟨fun _ row k hask => ?_,?_⟩).elim
        · cases asks_stage hshows hother hask
        · rintro ⟨c,u,k,hask⟩
          cases asks_stage hshows hst hask
      · exact hphase.spoil hab hfree hst hother
    · refine (hturn ⟨?_,?_⟩).elim
      · rintro ⟨key,k,hask⟩
        cases asks_stage hshows hst hask
      · rintro ⟨c,u,k,hask⟩
        cases asks_stage hshows hst hask
  · obtain ⟨conv',-,hwinner⟩ := hphase.winner
    rcases Bool.eq_or_eq_not i w with rfl | rfl
    · refine (hturn ⟨?_,?_⟩).elim
      · rintro ⟨key,k,hask⟩
        cases asks_stage hshows hwinner hask
      · rintro ⟨c,u,k,hask⟩
        cases asks_stage hshows hwinner hask
    · rcases hphase.other with hother | ⟨conv,hconv,hother⟩
      · refine (hturn ⟨fun _ row k hask => ?_,?_⟩).elim
        · rw [Bool.not_not] at hask
          cases asks_stage hshows hwinner hask
        · rintro ⟨c,u,k,hask⟩
          cases asks_stage hshows hother hask
      · exact hphase.spoil hvalid hconv hother
  · exact (hturn (hphase.inTurn hshows i)).elim

theorem Joined.made (h : Joined a b r₀ sc) (hvalid : r₀.Valid)
    (hshows : Shows (CallStage.program PairStage.main) p sc) : PairMade p a b := by
  obtain ⟨conv,hconv,hroom⟩ := List.mem_map.mp h.room
  have hid : conv.id = r₀.next := congrArg Room.id hroom
  obtain ⟨us,hus,hroster⟩ := h.roster
  have hsitting : sc.state.roster.sitting r₀.next = us := by
    have hempty : r₀.sitting r₀.next = [] :=
      List.eq_nil_iff_forall_not_mem.mpr fun v hv => lt_irrefl _ (hvalid.sitting_lt hv)
    rw [hroster,Roster.sitting,Roster.enter,Seat.sitting_enter]
    change r₀.sitting r₀.next ++ us = us
    rw [hempty,List.nil_append]
  refine ⟨conv,by rw [hshows.state]; exact hconv,congrArg Room.privateKey hroom,
    congrArg Room.memberCount hroom,?_,fun u => ?_,fun i result hin => ?_⟩
  · have hlength := congrArg List.length (sitting_roster sc.state r₀.next)
    rw [List.length_map,hsitting] at hlength
    rw [hshows.state,hid,← hlength]
    rcases hus with rfl | rfl <;> rfl
  · rw [hshows.state,hid,← mem_sitting_roster,hsitting]
    rcases hus with rfl | rfl
    · simp
    · simp [or_comm]
  · rw [hshows.log] at hin
    rw [hid]
    exact h.answers i result hin

theorem Doomed.not_made (h : Doomed a b r₀ sc) (hkeyed : Keyed sc.state)
    (hsilent : CallStage.Silent sc) (hshows : Shows (CallStage.program PairStage.main) p sc)
    (hreturned : ∀ i, ∃ result, (i,.respond result) ∈ p.log) : ¬ PairMade p a b := by
  rintro ⟨conv,hconv,hkey,htwo,-,-,hanswers⟩
  rw [hshows.state] at hconv
  rw [hshows.log] at hanswers hreturned
  have hafter : ∀ i, ∃ g, sc.stages i = .after g := fun i =>
    have ⟨result,hin⟩ := hreturned i
    hsilent.returned hin
  cases h with
  | clash stages =>
    obtain ⟨g,hg⟩ := hafter true
    cases (stages true).symm.trans hg
  | late i stage taken =>
    obtain ⟨g,hg⟩ := hafter i
    cases stage.symm.trans hg
  | refused i e stage =>
    obtain ⟨g,hg⟩ := hafter i
    cases stage.symm.trans hg
  | failed i e log =>
    obtain ⟨info,hinfo,-⟩ := hanswers i _ log
    cases hinfo
  | counted n room stages added =>
    obtain ⟨conv',hconv',hroom⟩ := List.mem_map.mp room
    have hsame := eq_of_distinct hkeyed.privateKeys hconv hconv'
      (hkey.trans (congrArg Room.privateKey hroom).symm)
    have hn : n = 2 := by
      rw [← htwo,hsame]
      exact (congrArg Room.memberCount hroom).symm
    rcases added with rfl | ⟨i,hadding⟩
    · cases hn
    · obtain ⟨g,hg⟩ := hafter i
      rw [hg] at hadding
      exact hadding

end Turns

section Runs
variable {db : Database} {a b : String}

theorem serve_createPrivateConversation {req : CreatePrivateConversationReq}
    (h : ¬ (req.uuid = "" ∨ req.peerUUID = "" ∨ req.uuid = req.peerUUID)) :
    serve (createPrivateConversation req) =
      CallStage.program PairStage.main (.main (.lookUp req)) := by
  rw [createPrivateConversation,if_neg h]
  rfl

theorem pairReq_valid (hab : a ≠ b) (ha : a ≠ "") (hb : b ≠ "") (i : Bool) :
    ¬ ((pairReq a b i).uuid = "" ∨ (pairReq a b i).peerUUID = "" ∨
      (pairReq a b i).uuid = (pairReq a b i).peerUUID) := by
  cases i with
  | true => simp [pairReq,ha,hb,hab]
  | false => simp [pairReq,ha,hb,hab.symm]

theorem startPair_orderly (hkeyed : Keyed db) (hab : a ≠ b) (ha : a ≠ "") (hb : b ≠ "") :
    InScene (CallStage.program PairStage.main) (Orderly a b db.roster) (startPair db a b) := by
  refine ⟨⟨db,fun i => .main (.lookUp (pairReq a b i)),[]⟩,⟨rfl,fun i => ?_,rfl⟩,hkeyed,?_,?_⟩
  · exact serve_createPrivateConversation (pairReq_valid hab ha hb i)
  · exact fun i _ result hin => by cases hin
  · exact Or.inl ⟨rfl,fun i => Or.inl rfl,fun i _ => rfl⟩

/-- Both get the same conversation exactly when nobody looks up what the other is about
to insert. -/
theorem private_conversation_made_iff_in_turn (out : Outer) (hkept : Kept db) (hab : a ≠ b)
    (ha : a ≠ "") (hb : b ≠ "")
    (hnone : ∀ conv ∈ db.conversations, conv.privateKey ≠ privateKeyOf a b) (schedule : List Bool)
    (hreturned : ∀ i, ∃ result, (i,.respond result) ∈ (runPair out db a b schedule).log) :
    PairMade (runPair out db a b schedule) a b ↔
      Pool.Turns (exec out) InTurn (startPair db a b) schedule := by
  have hfree : (db.roster.rooms.any fun room => room.privateKey = privateKeyOf a b) = false := by
    rw [any_roster,List.any_eq_false]
    exact fun conv hconv => by simpa using hnone conv hconv
  rcases Pool.run_dichotomy (exec out) (C := InTurn)
      (D := InScene (CallStage.program PairStage.main) fun sc =>
        Keyed sc.state ∧ CallStage.Silent sc ∧ Doomed a b db.roster sc)
      (startPair_orderly hkept.keyed hab ha hb)
      (fun p i _ _ hI hturn _ => hI.next follows_pair fun sc hshows hsc =>
        hsc.next hkept.roster hab hfree hshows hturn)
      (fun p i hI hturn => hI.next follows_pair fun sc hshows hsc =>
        ⟨CallStage.keyed_next hsc.keyed i,hsc.silent.next PairStage.scene_silent i,
          hsc.spoil hkept.roster hab hfree hshows hturn⟩)
      (fun p i hD => hD.next follows_pair fun sc hshows hsc =>
        ⟨CallStage.keyed_next hsc.1 i,hsc.2.1.next PairStage.scene_silent i,hsc.2.2.next hab i⟩)
      schedule with ⟨hturns,sc,hshows,horderly⟩ | ⟨hturns,sc,hshows,hkeyed,hsilent,hdoomed⟩
  · refine iff_of_true ?_ hturns
    have hreturned : ∀ i, ∃ result, (i,.respond result) ∈ sc.log := by
      rw [← hshows.log]
      exact hreturned
    have hafter : ∀ i, ∃ g, sc.stages i = .after g := fun i =>
      have ⟨result,hin⟩ := hreturned i
      horderly.silent.returned hin
    rcases horderly.phase with hphase | ⟨w,hphase⟩ | hphase
    · obtain ⟨g,hg⟩ := hafter true
      rcases hphase.stages true with hst | hst <;> cases hst.symm.trans hg
    · obtain ⟨g,hg⟩ := hafter w
      obtain ⟨conv,-,hst⟩ := hphase.winner
      cases hst.symm.trans hg
    · exact hphase.made hkept.roster hshows
  · exact iff_of_false (hdoomed.not_made hkeyed hsilent hshows hreturned) hturns

end Runs

theorem private_conversation_made_iff_in_turn_one_after_other :
    PairMade (runPair countingOuter emptyDatabase "a" "b"
      (List.replicate 4 true ++ List.replicate 4 false)) "a" "b" ↔
    Pool.Turns (exec countingOuter) InTurn (startPair emptyDatabase "a" "b")
      (List.replicate 4 true ++ List.replicate 4 false) := by
  refine private_conversation_made_iff_in_turn countingOuter kept_empty (by decide) (by decide)
    (by decide) (fun conv hconv => by cases hconv) _ fun i => ?_
  refine ⟨.ok (.conversation ⟨1,1,"p:a:b","",2,0,"",""⟩),mem_responses.mp ?_⟩
  have hresponses : responses (runPair countingOuter emptyDatabase "a" "b"
      (List.replicate 4 true ++ List.replicate 4 false)).log =
      [(true,.ok (.conversation ⟨1,1,"p:a:b","",2,0,"",""⟩)),
        (false,.ok (.conversation ⟨1,1,"p:a:b","",2,0,"",""⟩))] := rfl
  rw [hresponses]
  cases i <;> simp

/-- Both look up before either inserts: the second insert breaks the unique key. -/
theorem second_creator_refused :
    responses (runPair countingOuter emptyDatabase "a" "b"
      [true,false,true,true,true,false,false]).log =
      [(true,.ok (.conversation ⟨1,1,"p:a:b","",2,0,"",""⟩)),
        (false,.error (.dataCreateFail .duplicatedKey))] ∧
    ¬ PairMade (runPair countingOuter emptyDatabase "a" "b"
      [true,false,true,true,true,false,false]) "a" "b" := by
  have hresponses : responses (runPair countingOuter emptyDatabase "a" "b"
      [true,false,true,true,true,false,false]).log =
      [(true,.ok (.conversation ⟨1,1,"p:a:b","",2,0,"",""⟩)),
        (false,.error (.dataCreateFail .duplicatedKey))] := rfl
  refine ⟨hresponses,?_⟩
  rintro ⟨conv,-,-,-,-,-,hanswers⟩
  have hlog : (false,Stmt.respond (.error (.dataCreateFail .duplicatedKey))) ∈
      (runPair countingOuter emptyDatabase "a" "b"
          [true,false,true,true,true,false,false]).log := by
    rw [← mem_responses,hresponses]
    simp
  obtain ⟨info,hinfo,-⟩ := hanswers false _ hlog
  cases hinfo

end Imy.Chat
