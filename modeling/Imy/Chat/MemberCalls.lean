import Imy.Chat.CallStages
import Imy.Chat.MemberCount
set_option autoImplicit false

namespace Imy.Chat
open Imy.Lib


inductive MemberCall where
  | add (req : AddMembersReq)
  | remove (req : RemoveMemberReq)

namespace MemberCall

def main : MemberCall → ChatM Reply
  | .add req => addMembers req
  | .remove req => removeMember req

def uuid : MemberCall → String
  | .add req => req.uuid
  | .remove req => req.uuid

def conversationId : MemberCall → Nat
  | .add req => req.conversationId
  | .remove req => req.conversationId

/-- Whom the call may bring in. -/
def added : MemberCall → List String
  | .add req => req.memberUUIDs
  | .remove _ => []

end MemberCall

/-! The calls from each of their statements on. -/

namespace AddMembersReq
variable (req : AddMembersReq)

def reply (toCreate : List String) : Reply := (.none,announceAdded req.conversationId toCreate)

def count (existing : Nat) (toCreate : List String) : ChatM Reply := do
  setMemberCount req.conversationId (UInt32.ofNat (existing+toCreate.length))
  return req.reply toCreate

def insert (existing : Nat) (toCreate : List String) : ChatM Reply := do
  match ← ask (.createMembers (toCreate.map (memberRow req.conversationId))) with
  | .error e => .fail (.dataCreateFail e)
  | .ok _ => req.count existing toCreate

def list : ChatM Reply := do
  match ← ask (.findMembers req.conversationId) with
  | .error e => .fail (.dataQueryFail e)
  | .ok existMembers =>
    insertMembers req.conversationId existMembers.length
      (newUUIDs (existMembers.map (·.userUUID)) req.memberUUIDs)

end AddMembersReq

namespace RemoveMemberReq
variable (req : RemoveMemberReq)

def reply : Reply := (.none,announceRemoved req.conversationId req.removeUUID)

def write (conv : ChatConversation) : ChatM Reply := do
  setMemberCount conv.id (conv.memberCount-1)
  return req.reply

def read : ChatM Reply := do
  match ← ask (.getConversation req.conversationId) with
  | .error _ => pure ()
  | .ok conv => if 0 < conv.memberCount then
    setMemberCount conv.id (conv.memberCount-1) else pure ()
  return req.reply

def delete (mem : ChatConversationMember) : ChatM Reply := do
  match ← ask (.deleteMember mem.id) with
  | .error e => .fail (.dataModifyFail e)
  | .ok _ => req.read

def find : ChatM Reply := do
  let mem ← requireMember req.conversationId req.removeUUID .invalidParam
  req.delete mem

end RemoveMemberReq

inductive MemberStage where
  | caller (call : MemberCall)
  | list (req : AddMembersReq)
  | insert (req : AddMembersReq) (existing : Nat) (toCreate : List String)
  | count (req : AddMembersReq) (existing : Nat) (toCreate : List String)
  | find (req : RemoveMemberReq)
  | delete (req : RemoveMemberReq) (mem : ChatConversationMember)
  | read (req : RemoveMemberReq)
  | write (req : RemoveMemberReq) (conv : ChatConversation)

namespace MemberStage
open CallStage

def afterCaller : MemberCall → MemberStage
  | .add req => .list req
  | .remove req => .find req

def main : MemberStage → ChatM Reply
  | .caller (.add req) => do
    let _ ← requireMember req.conversationId req.uuid .authSession
    req.list
  | .caller (.remove req) => do
    let _ ← requireMember req.conversationId req.uuid .authSession
    req.find
  | .list req => req.list
  | .insert req existing toCreate => req.insert existing toCreate
  | .count req existing toCreate => req.count existing toCreate
  | .find req => req.find
  | .delete req mem => req.delete mem
  | .read req => req.read
  | .write req conv => req.write conv

def inserting (req : AddMembersReq) (existing : Nat) (toCreate : List String) :
    CallStage MemberStage :=
  if toCreate = [] then CallStage.done (req.reply []) else .main (.insert req existing toCreate)

def settling (req : RemoveMemberReq) (conv : ChatConversation) : CallStage MemberStage :=
  if 0 < conv.memberCount then .main (.write req conv) else CallStage.done req.reply

def scene : MemberStage → (q : Stmt) × (q.Answer → CallStage MemberStage)
  | .caller call => ⟨.takeMember call.conversationId call.uuid,fun
    | .ok _ => .main (afterCaller call)
    | .error .recordNotFound => refused .authSession
    | .error e => refused (.dataQueryFail e)⟩
  | .list req => ⟨.findMembers req.conversationId,fun
    | .ok existMembers => inserting req existMembers.length
        (newUUIDs (existMembers.map (·.userUUID)) req.memberUUIDs)
    | .error e => refused (.dataQueryFail e)⟩
  | .insert req existing toCreate =>
    ⟨.createMembers (toCreate.map (memberRow req.conversationId)),fun
    | .ok _ => .main (.count req existing toCreate)
    | .error e => refused (.dataCreateFail e)⟩
  | .count req existing toCreate => ⟨.updateConversation { (default : ChatConversation) with
      id := req.conversationId, memberCount := UInt32.ofNat (existing+toCreate.length) }
      [.memberCount],fun _ => CallStage.done (req.reply toCreate)⟩
  | .find req => ⟨.takeMember req.conversationId req.removeUUID,fun
    | .ok mem => .main (.delete req mem)
    | .error .recordNotFound => refused .invalidParam
    | .error e => refused (.dataQueryFail e)⟩
  | .delete req mem => ⟨.deleteMember mem.id,fun
    | .ok _ => .main (.read req)
    | .error e => refused (.dataModifyFail e)⟩
  | .read req => ⟨.getConversation req.conversationId,fun
    | .ok conv => settling req conv
    | .error _ => CallStage.done req.reply⟩
  | .write req conv => ⟨.updateConversation { (default : ChatConversation) with
      id := conv.id, memberCount := conv.memberCount-1 } [.memberCount],fun _ =>
    CallStage.done req.reply⟩

theorem program_inserting (req : AddMembersReq) (existing : Nat) (toCreate : List String) :
    program main (inserting req existing toCreate) =
      serve (insertMembers req.conversationId existing toCreate) := by
  rw [inserting,insertMembers]
  split
  · rfl
  · refine congrArg (Prog.ask _) (funext fun answer => ?_)
    rcases answer with e | _ <;> rfl

theorem serve_main (st : MemberStage) :
    serve (main st) = .ask (scene st).1 fun r => program main ((scene st).2 r) := by
  cases st with
  | caller call =>
    cases call with
    | add req =>
      refine congrArg (Prog.ask _) (funext fun answer => ?_)
      rcases answer with (_ | _ | _) | mem <;> rfl
    | remove req =>
      refine congrArg (Prog.ask _) (funext fun answer => ?_)
      rcases answer with (_ | _ | _) | mem <;> rfl
  | list req =>
    refine congrArg (Prog.ask _) (funext fun answer => ?_)
    rcases answer with e | members
    · rfl
    · exact (program_inserting req _ _).symm
  | insert req existing toCreate =>
    refine congrArg (Prog.ask _) (funext fun answer => ?_)
    rcases answer with e | _ <;> rfl
  | count req existing toCreate => rfl
  | find req =>
    refine congrArg (Prog.ask _) (funext fun answer => ?_)
    rcases answer with (_ | _ | _) | mem <;> rfl
  | delete req mem =>
    refine congrArg (Prog.ask _) (funext fun answer => ?_)
    rcases answer with e | _ <;> rfl
  | read req =>
    refine congrArg (Prog.ask _) (funext fun answer => ?_)
    rcases answer with e | conv
    · rfl
    · change serve (if 0 < conv.memberCount then
          setMemberCount conv.id (conv.memberCount-1) >>= fun _ => pure req.reply
        else pure req.reply) = program main (settling req conv)
      rw [settling]
      split <;> rfl
  | write req conv => rfl

theorem scene_silent (st : MemberStage) (result : Except ErrCode Response) :
    (scene st).1 ≠ .respond result := by
  cases st <;> exact fun h => by cases h

def first : MemberCall → CallStage MemberStage
  | .add req =>
    if req.uuid = "" ∨ req.conversationId = 0 ∨ req.memberUUIDs = [] then refused .invalidParam
    else .main (.caller (.add req))
  | .remove req =>
    if req.uuid = "" ∨ req.conversationId = 0 ∨ req.removeUUID = "" then refused .invalidParam
    else .main (.caller (.remove req))

theorem serve_call (call : MemberCall) : serve call.main = program main (first call) := by
  cases call with
  | add req =>
    rw [first,MemberCall.main,addMembers]
    split
    · rfl
    · refine congrArg (Prog.ask _) (funext fun answer => ?_)
      rcases answer with (_ | _ | _) | mem
      · rfl
      · rfl
      · rfl
      · refine congrArg (Prog.ask _) (funext fun answer => ?_)
        rcases answer with e | members <;> rfl
  | remove req =>
    rw [first,MemberCall.main,removeMember]
    split
    · rfl
    · refine congrArg (Prog.ask _) (funext fun answer => ?_)
      rcases answer with (_ | _ | _) | mem
      · rfl
      · rfl
      · rfl
      · refine congrArg (Prog.ask _) (funext fun answer => ?_)
        rcases answer with (_ | _ | _) | mem
        · rfl
        · rfl
        · rfl
        · refine congrArg (Prog.ask _) (funext fun answer => ?_)
          rcases answer with e | _
          · rfl
          · refine congrArg (Prog.ask _) (funext fun answer => ?_)
            rcases answer with e | conv <;> rfl

end MemberStage

def Roster.countOf (r : Roster) (c : Nat) : UInt32 :=
  ((r.rooms.find? fun room => room.id = c).map (·.memberCount)).getD 0

theorem Roster.countOf_setCount {r : Roster} {c : Nat} (h : ∃ room ∈ r.rooms, room.id = c)
    (n : UInt32) : (r.setCount c n).countOf c = n := by
  obtain ⟨room,hroom,hid⟩ := h
  have hsame : ((fun room : Room => decide (room.id = c)) ∘ fun room : Room =>
      if room.id = c then { room with memberCount := n } else room) = fun room =>
          decide (room.id = c) := by
    funext room
    simp only [Function.comp_apply]
    split <;> rfl
  rw [Roster.countOf,Roster.setCount,List.find?_map,hsame]
  cases hfind : r.rooms.find? fun room => room.id = c with
  | none => exact (List.find?_eq_none.mp hfind room hroom (by simpa using hid)).elim
  | some room' =>
    have hid' : room'.id = c := by simpa using List.find?_some hfind
    simp [hid']

/-! What each stage does, by the roster that it finds. -/

namespace MemberStage
variable (out : Outer) {db : Database}
open CallStage

theorem leads_caller_sits {call : MemberCall}
    (h : call.uuid ∈ db.roster.sitting call.conversationId) :
    Leads scene out db (.caller call) (.main (afterCaller call)) db.roster := by
  obtain ⟨mem,-,htake⟩ := takeMember_sits out h
  constructor <;> simp only [scene,htake]

theorem leads_caller_lacks {call : MemberCall}
    (h : call.uuid ∉ db.roster.sitting call.conversationId) :
    Leads scene out db (.caller call) (refused .authSession) db.roster := by
  have htake := takeMember_lacks out h
  constructor <;> simp only [scene,htake]

theorem leads_list (db : Database) (req : AddMembersReq) :
    Leads scene out db (.list req) (inserting req (db.roster.sitting req.conversationId).length
      (newUUIDs (db.roster.sitting req.conversationId) req.memberUUIDs)) db.roster := by
  refine ⟨?_,rfl⟩
  rw [sitting_roster,List.length_map]
  rfl

theorem leads_insert_free {req : AddMembersReq} {existing : Nat} {toCreate : List String}
    (h : Seat.Free db.roster.seats req.conversationId toCreate) :
    Leads scene out db (.insert req existing toCreate) (.main (.count req existing toCreate))
      (db.roster.enter req.conversationId toCreate) := by
  obtain ⟨hanswer,hroster⟩ := roster_createMembers_ok out h
  exact ⟨congrArg (scene (.insert req existing toCreate)).2 hanswer,hroster⟩

theorem leads_count (db : Database) (req : AddMembersReq) (existing : Nat)
    (toCreate : List String) :
    Leads scene out db (.count req existing toCreate) (done (req.reply toCreate))
      (db.roster.setCount req.conversationId (UInt32.ofNat (existing+toCreate.length))) :=
  ⟨rfl,roster_updateCount out db _ _⟩

theorem leads_find_sits {req : RemoveMemberReq}
    (h : req.removeUUID ∈ db.roster.sitting req.conversationId) :
    ∃ mem ∈ db.members, mem.conversationID = req.conversationId ∧
      Leads scene out db (.find req) (.main (.delete req mem)) db.roster := by
  obtain ⟨mem,hmem,htake⟩ := takeMember_sits out h
  refine ⟨mem,(live_of_member hmem).1,(mem_live_of_find hmem).2.1,?_⟩
  constructor <;> simp only [scene,htake]

theorem leads_find_lacks {req : RemoveMemberReq}
    (h : req.removeUUID ∉ db.roster.sitting req.conversationId) :
    Leads scene out db (.find req) (refused .invalidParam) db.roster := by
  have htake := takeMember_lacks out h
  constructor <;> simp only [scene,htake]

theorem leads_delete (hkeyed : Keyed db) (req : RemoveMemberReq) {mem m : ChatConversationMember}
    (hm : m ∈ db.live) (hid : m.id = mem.id) :
    m.userUUID ∈ db.roster.sitting m.conversationID ∧
      Leads scene out db (.delete req mem) (.main (.read req))
        (db.roster.leave m.conversationID m.userUUID) := by
  obtain ⟨hin,hlive⟩ := List.mem_filter.mp hm
  have hsits : m.userUUID ∈ db.roster.sitting m.conversationID :=
    mem_sitting_roster.mpr ⟨m,hin,by simpa using hlive,rfl,rfl⟩
  obtain ⟨m',hm',-⟩ := takeMember_sits out hsits
  obtain rfl : m' = m := eq_of_sameKey hkeyed (live_of_member hm').1 hin (mem_live_of_find hm').2
  refine ⟨hsits,rfl,?_⟩
  change (exec out (.deleteMember mem.id) db).2.roster = _
  rw [← hid]
  exact roster_deleteMember out hkeyed hm'

theorem leads_read {req : RemoveMemberReq}
    (h : ∃ conv ∈ db.conversations, conv.id = req.conversationId) :
    ∃ conv, conv.id = req.conversationId ∧ conv.memberCount = db.roster.countOf req.conversationId ∧
      Leads scene out db (.read req) (settling req conv) db.roster := by
  obtain ⟨conv₀,hconv₀,hid₀⟩ := h
  have hrooms : db.roster.rooms.find? (fun room => room.id = req.conversationId) =
      (db.conversations.find? fun conv => conv.id = req.conversationId).map (·.room) :=
    List.find?_map ..
  cases hfind : db.conversations.find? fun conv => conv.id = req.conversationId with
  | none => exact (List.find?_eq_none.mp hfind conv₀ hconv₀ (by simpa using hid₀)).elim
  | some conv =>
    have hget : exec out (.getConversation req.conversationId) db = (.ok conv,db) := by
      change (found (db.conversations.find? fun conv => conv.id = req.conversationId),db) = _
      rw [hfind]
      rfl
    refine ⟨conv,by simpa using List.find?_some hfind,?_,?_⟩
    · rw [Roster.countOf,hrooms,hfind]
      rfl
    · constructor <;> simp only [scene,hget]

theorem leads_write (db : Database) (req : RemoveMemberReq) (conv : ChatConversation) :
    Leads scene out db (.write req conv) (done req.reply)
      (db.roster.setCount conv.id (conv.memberCount-1)) :=
  ⟨rfl,roster_updateCount out db _ _⟩

end MemberStage

end Imy.Chat
