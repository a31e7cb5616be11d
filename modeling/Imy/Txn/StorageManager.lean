import Imy.Index.GlobalIndex
import Imy.Txn.Coordinator
set_option autoImplicit false

/-!
The four operations of `pkg/storage/distributed_storage.go` that run in a
transaction: which participants each of them hands to `ExecuteTransaction`, and
with which timeout. Where the router sends a timeline is a parameter.
-/

namespace Imy.Txn
open Imy.Lib

structure Plan where
  participants : List TransactionParticipant
  timeout : Int

def second : Int := 1000000000

def participant (storeID : String) (operation : TransactionOperation)
    (params : List (String × ParamValue)) : TransactionParticipant where
  storeID := storeID
  operation := operation
  params := fun name => params.lookup name
  status := .pending
  error := ""

def indexFaultText : Index.IndexFault → String
  | .error text => text
  | .nilMap => "assignment to entry in nil map"

def firstStore (index : Index.GlobalIndex) (timelineKey : String) : Except String String :=
  match Index.getTimelineLocation timelineKey index with
  | .error e _ => .error ("failed to get timeline location: " ++ indexFaultText e)
  | .ok location _ =>
    match location.blocks with
    | [] => .error ("timeline not found: " ++ timelineKey)
    | e :: _ => .ok (index.entries e).storeID

section Plans
variable (storeID : String)

def createTimelineWithTransaction (route : String → Except String String)
    (timelineKey timelineType : String) : Except String Plan :=
  match route timelineKey with
  | .error err => .error ("failed to route timeline: " ++ err)
  | .ok targetStoreID => .ok
    { participants :=
        [participant targetStoreID .createTimeline
          [("timeline_key",.string timelineKey),("timeline_type",.string timelineType)],
        participant storeID .updateIndex
          [("index_key",.string timelineKey),("target_store",.string targetStoreID),
            ("operation",.string "add")]]
      timeout := 30*second }

def deleteTimelineWithTransaction (index : Index.GlobalIndex) (timelineKey : String) :
    Except String Plan := do
  let targetStoreID ← firstStore index timelineKey
  return {
    participants :=
      [participant targetStoreID .deleteTimeline [("timeline_key",.string timelineKey)],
      participant storeID .updateIndex
        [("index_key",.string timelineKey),("operation",.string "remove")]]
    timeout := 30*second }

def addMessageWithTransaction (index : Index.GlobalIndex) (timelineKey senderID : String)
    (data : List UInt8) (userIDs : List String) : Except String Plan := do
  let targetStoreID ← firstStore index timelineKey
  return {
    participants :=
      [participant targetStoreID .addMessage
        [("timeline_key",.string timelineKey),("sender_id",.string senderID),("data",.bytes data),
          ("user_ids",.strings userIDs)]]
    timeout := 15*second }

def migrateTimelineWithTransaction (index : Index.GlobalIndex)
    (timelineKey targetStoreID : String) : Except String Plan := do
  let sourceStoreID ← firstStore index timelineKey
  if sourceStoreID = targetStoreID then
    throw ("timeline is already on target store: " ++ targetStoreID)
  return {
    participants :=
      [participant sourceStoreID .migrateTimeline
        [("timeline_key",.string timelineKey),("target_store_id",.string targetStoreID),
          ("operation",.string "export")],
      participant targetStoreID .migrateTimeline
        [("timeline_key",.string timelineKey),("source_store_id",.string sourceStoreID),
          ("operation",.string "import")],
      participant storeID .updateIndex
        [("index_key",.string timelineKey),("old_store_id",.string sourceStoreID),
          ("new_store_id",.string targetStoreID),("operation",.string "migrate")]]
    timeout := 60*second }

inductive ManagerCall where
  | createTimeline (timelineKey timelineType : String)
  | deleteTimeline (timelineKey : String)
  | addMessage (timelineKey senderID : String) (data : List UInt8) (userIDs : List String)
  | migrateTimeline (timelineKey targetStoreID : String)

def ManagerCall.timelineKey : ManagerCall → String
  | .createTimeline timelineKey _ | .deleteTimeline timelineKey | .addMessage timelineKey _ _ _
  | .migrateTimeline timelineKey _ => timelineKey

def ManagerCall.addsMessage : ManagerCall → Bool
  | .addMessage _ _ _ _ => true
  | _ => false

def ManagerCall.plan (route : String → Except String String) (index : Index.GlobalIndex) :
    ManagerCall → Except String Plan
  | .createTimeline timelineKey timelineType =>
    createTimelineWithTransaction storeID route timelineKey timelineType
  | .deleteTimeline timelineKey => deleteTimelineWithTransaction storeID index timelineKey
  | .addMessage timelineKey senderID data userIDs =>
    addMessageWithTransaction index timelineKey senderID data userIDs
  | .migrateTimeline timelineKey targetStoreID =>
    migrateTimelineWithTransaction storeID index timelineKey targetStoreID

/-- The lock that an operation shares with the others of its kind: messages are
added under a lock of their own, the rest meets at the index. -/
def ManagerCall.meetingKey (call : ManagerCall) : String :=
  if call.addsMessage then "timeline:" ++ call.timelineKey ++ ":messages"
  else "index:" ++ call.timelineKey

theorem exists_of_bind_eq_ok {ε α β : Type} {x : Except ε α} {f : α → Except ε β} {b : β}
    (h : x >>= f = .ok b) : ∃ a, x = .ok a ∧ f a = .ok b := by
  cases x with
  | error e => cases h
  | ok a => exact ⟨a,rfl,h⟩

theorem ManagerCall.meetingKey_mem {route : String → Except String String}
    {index : Index.GlobalIndex} {call : ManagerCall} {plan : Plan}
    (h : call.plan storeID route index = .ok plan) :
    call.meetingKey ∈ plan.participants.filterMap lockKey := by
  cases call with
  | createTimeline timelineKey timelineType =>
    simp only [ManagerCall.plan,createTimelineWithTransaction] at h
    split at h
    · cases h
    · cases h
      exact List.mem_filterMap.mpr ⟨_,List.mem_cons_of_mem _ List.mem_cons_self,rfl⟩
  | deleteTimeline timelineKey =>
    obtain ⟨targetStoreID,-,hplan⟩ := exists_of_bind_eq_ok h
    cases hplan
    exact List.mem_filterMap.mpr ⟨_,List.mem_cons_of_mem _ List.mem_cons_self,rfl⟩
  | addMessage timelineKey senderID data userIDs =>
    obtain ⟨targetStoreID,-,hplan⟩ := exists_of_bind_eq_ok h
    cases hplan
    exact List.mem_filterMap.mpr ⟨_,List.mem_cons_self,rfl⟩
  | migrateTimeline timelineKey target =>
    obtain ⟨sourceStoreID,-,hplan⟩ := exists_of_bind_eq_ok h
    dsimp only at hplan
    split at hplan
    · cases hplan
    · cases hplan
      exact List.mem_filterMap.mpr
        ⟨_,List.mem_cons_of_mem _ (List.mem_cons_of_mem _ List.mem_cons_self),rfl⟩

end Plans

end Imy.Txn
