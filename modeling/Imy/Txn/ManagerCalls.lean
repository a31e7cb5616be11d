import Imy.Txn.StorageManager
import Imy.Txn.TypedParams
set_option autoImplicit false

namespace Imy.Txn
open Imy.Lib Imy.Lock

/-- New participants, from the pointer `fresh` on. -/
@[simps -fullyApplied] def Coordinator.place {σ : Type} (c : Coordinator σ) (fresh : Nat)
    (participants : List TransactionParticipant) : Coordinator σ :=
  { c with objects := fun p =>
      if p < fresh then c.objects p else (participants[p-fresh]?).getD (c.objects p) }

/-- A call of the storage manager: look up, make the participants, execute. -/
def ManagerCall.run (clock : Nat → Int) (order : List String → List String) (storeID : String)
    (route : String → Except String String) (index : Index.GlobalIndex) (fresh : Nat)
    (call : ManagerCall) : TxnM World Unit :=
  match call.plan storeID route index with
  | .error text => throw (.error text)
  | .ok plan => do
    modify fun c => c.place fresh plan.participants
    executeTransaction clock order (List.range' fresh plan.participants.length) plan.timeout

section Plans
variable {storeID : String} {route : String → Except String String} {index : Index.GlobalIndex}
  {call : ManagerCall} {plan : Plan}

/-- Every plan passes the assertions of Prepare, and those of Commit unless it adds a message. -/
theorem ManagerCall.plan_typed (h : call.plan storeID route index = .ok plan)
    {o : TransactionParticipant} (ho : o ∈ plan.participants) :
    TypedFor .prepare o ∧ (call.addsMessage = false → TypedFor .commit o) := by
  cases call with
  | createTimeline timelineKey timelineType =>
    simp only [ManagerCall.plan,createTimelineWithTransaction] at h
    split at h
    · cases h
    · cases h
      simp only [List.mem_cons,List.not_mem_nil,or_false] at ho
      rcases ho with rfl | rfl
      · exact ⟨rfl,fun _ => ⟨rfl,rfl⟩⟩
      · exact ⟨trivial,fun _ => ⟨rfl,"add",rfl,fun _ => rfl⟩⟩
  | deleteTimeline timelineKey =>
    obtain ⟨targetStoreID,-,hplan⟩ := exists_of_bind_eq_ok h
    cases hplan
    simp only [List.mem_cons,List.not_mem_nil,or_false] at ho
    rcases ho with rfl | rfl
    · exact ⟨rfl,fun _ => trivial⟩
    · exact ⟨trivial,fun _ => ⟨rfl,"remove",rfl,fun h => absurd h (by decide)⟩⟩
  | addMessage timelineKey senderID data userIDs =>
    obtain ⟨targetStoreID,-,hplan⟩ := exists_of_bind_eq_ok h
    cases hplan
    obtain rfl := List.mem_singleton.mp ho
    exact ⟨rfl,by simp [ManagerCall.addsMessage]⟩
  | migrateTimeline timelineKey target =>
    obtain ⟨sourceStoreID,-,hplan⟩ := exists_of_bind_eq_ok h
    dsimp only at hplan
    split at hplan
    · cases hplan
    · cases hplan
      simp only [List.mem_cons,List.not_mem_nil,or_false] at ho
      rcases ho with rfl | rfl | rfl
      · exact ⟨rfl,fun _ => trivial⟩
      · exact ⟨rfl,fun _ => trivial⟩
      · exact ⟨trivial,fun _ => ⟨rfl,"migrate",rfl,fun h => absurd h (by decide)⟩⟩

theorem addMessage_plan {timelineKey senderID : String} {data : List UInt8}
    {userIDs : List String}
    (h : (ManagerCall.addMessage timelineKey senderID data userIDs).plan storeID route index =
      .ok plan) :
    ∃ o, plan.participants = [o] ∧ plan.timeout = 15*second ∧ ¬ TypedFor .commit o ∧
      lockKey o = some ("timeline:" ++ timelineKey ++ ":messages") ∧
      o.string? "timeline_key" = some timelineKey ∧ o.operation = .addMessage := by
  obtain ⟨targetStoreID,-,hplan⟩ := exists_of_bind_eq_ok h
  cases hplan
  refine ⟨_,rfl,rfl,?_,rfl,rfl,rfl⟩
  rintro ⟨-,hsender,-⟩
  cases hsender

end Plans

section Placed
variable {σ : Type} (c : Coordinator σ) (fresh : Nat) (os : List TransactionParticipant)

theorem place_mem {p : Nat} (hp : p ∈ List.range' fresh os.length) :
    (c.place fresh os).objects p ∈ os := by
  obtain ⟨hle,hlt⟩ := List.mem_range'_1.mp hp
  have hlen : p-fresh < os.length := by omega
  have hnew : ¬ p < fresh := by omega
  simp [hnew,hlen]

end Placed

/-- The lock of the key is not held when the call asks for it: there is none, or it has
expired at the fourth reading of the clock. -/
def FreeFor (clock : Nat → Int) (m : LockManager) (key : String) : Prop :=
  ∀ info, m.locks key = some info → info.expiresAt ≤ clock (m.tick+3)

def checkReading (m : LockManager) (key : String) : Nat :=
  if (m.locks key).isSome then m.tick+7 else m.tick+6

section Single
variable {σ : Type} {clock : Nat → Int} {order : List String → List String} {p : Nat}
  {key : String} {timeout : Int}

theorem generateLockKeys_single (horder : ∀ keys, (order keys).Perm keys)
    {o : TransactionParticipant} (hkey : lockKey o = some key) :
    generateLockKeys order [o] = [key] := by
  have hone : ([o].filterMap lockKey).dedup = [key] := by simp [hkey]
  rw [generateLockKeys,hone]
  exact List.perm_singleton.mp (horder [key])

/-- A transaction with one lock: whether it begins, and what it leaves for the time check. -/
theorem wp_beginTransaction_single (horder : ∀ keys, (order keys).Perm keys) {c : Coordinator σ}
    (hkey : lockKey (c.objects p) = some key) :
    wp (beginTransaction clock order [p] timeout)
      (fun t c' => FreeFor clock c.lockManager key ∧
        c'.lockManager.tick = checkReading c.lockManager key ∧
        (c'.txns t).createdAt = clock (c.lockManager.tick+1))
      (fun _ _ => ¬ FreeFor clock c.lockManager key) c := by
  have hpending : lockKey { c.objects p with status := .pending } = some key := hkey
  simp only [beginTransaction,allocate,wp_bind,wp_now,wp_get,wp_set,List.forM_cons,List.forM_nil,
    wp_setStatus,wp_pure,List.map_cons,List.map_nil]
  rw [generateLockKeys_single horder (by simpa using hpending)]
  simp only [List.forM_cons,List.forM_nil,wp_bind,acquireOne,wp_locking]
  refine wp_mono (wp_acquireLock_readings clock key timeout _) ?_ ?_
  · rintro lock m ⟨hfree,htick⟩
    simp only [wp_modifyTxn,wp_pure,register,wp_modify]
    refine ⟨by simpa [FreeFor] using hfree,?_,by simp⟩
    unfold checkReading
    simpa using htick
  · intro e m hheld
    simp only [wp_get]
    refine wp_mono (wp_releaseLocks clock _ _) ?_ (fun _ _ h => h.elim)
    rintro _ _ ⟨m',rfl⟩
    simpa [FreeFor] using hheld

end Single

/-- What the commit of a message needs: the index of the manager has a block of the timeline,
that of the handler knows it, its lock is free, and Prepare is in time. -/
structure CommitsMessage (clock : Nat → Int) (index : Index.GlobalIndex) (c : Coordinator World)
    (timelineKey : String) : Prop where
  located : ∃ targetStoreID, firstStore index timelineKey = .ok targetStoreID
  known : (c.world.index.timelineIndex timelineKey).isSome
  free : FreeFor clock c.lockManager ("timeline:" ++ timelineKey ++ ":messages")
  timely : clock (checkReading c.lockManager ("timeline:" ++ timelineKey ++ ":messages")) -
    clock (c.lockManager.tick+1) ≤ 15*second

/-- No assertion of a handler fails during the call, and it does not panic. It may wait for
a client. -/
def RunsTyped (x : TxnM World Unit) (c : Coordinator World) : Prop :=
  wp x (fun _ c' => Asserted c c') (fun e c' => e ≠ .lost .panicked ∧ Asserted c c') c

section Call
variable {clock : Nat → Int} {order : List String → List String} {out : Outside}
  {ids : String → Option String} {timeout : Int} {c : Coordinator World} {p : Nat} {key : String}

theorem entersCommit_single_iff (horder : ∀ keys, (order keys).Perm keys)
    (hkey : lockKey (c.objects p) = some key) :
    EntersCommit clock order ids [p] timeout c ↔ FreeFor clock c.lockManager key ∧
      clock (checkReading c.lockManager key)-clock (c.lockManager.tick+1) ≤ timeout ∧
      Passes ids [p] c := by
  have hw := @wp_beginTransaction_single World clock order p key timeout horder c hkey
  cases hb : beginTransaction clock order [p] timeout c with
  | error e c₁ =>
    have hheld := wp_error hw hb
    constructor
    · rintro ⟨t,c₂,hok,-⟩
      rw [hb] at hok
      cases hok
    · rintro ⟨hfree,-⟩
      exact (hheld hfree).elim
  | ok t c₁ =>
    obtain ⟨hfree,htick,hcreated⟩ := wp_ok hw hb
    constructor
    · rintro ⟨t',c₂,hok,htimely,hpass⟩
      rw [hb] at hok
      cases hok
      rw [htick,hcreated] at htimely
      exact ⟨hfree,htimely,hpass⟩
    · rintro ⟨-,htimely,hpass⟩
      exact ⟨t,c₁,hb,by rw [htick,hcreated]; exact htimely,hpass⟩

/-- The handler lets a message pass if its index knows the timeline. -/
theorem passes_message_iff {storeID : String} (hid : ids (c.objects p).storeID = some storeID)
    (hop : (c.objects p).operation = .addMessage)
    (hkey : (c.objects p).string? "timeline_key" = some key) :
    Passes ids [p] c ↔ (c.world.index.timelineIndex key).isSome := by
  have hprepare : defaultPrepare (c.objects p) c.world.index = .ok ↔
      (c.world.index.timelineIndex key).isSome := by
    simp only [defaultPrepare,hop,prepareExisting,hkey,Index.getTimelineLocation]
    cases hi : c.world.index.timelineIndex key <;>
      simp [bind,EStateM.bind,get_apply,hi,pure,EStateM.pure,throw_apply]
  rw [← hprepare]
  simp [Passes,hid]

theorem RunsTyped.of_typing {x : TxnM World Unit}
    (h : wp x (fun _ c' => Typing c c') (fun e c' => e ≠ .lost .panicked ∧ Typing c c') c) :
    RunsTyped x c :=
  wp_mono h (fun _ _ h => h.asserted) fun _ _ h => ⟨h.1,h.2.asserted⟩

/-- A participant that only the commit does not find typed: the call panics if it comes there. -/
theorem runsTyped_iff_not_entered {storeID : String} (hdef : c.handlers = defaultHandlers out ids)
    (hs : c.world.Sound) (hid : ids (c.objects p).storeID = some storeID)
    (hprepare : TypedFor .prepare (c.objects p)) (hun : ¬ TypedFor .commit (c.objects p)) :
    RunsTyped (executeTransaction clock order [p] timeout) c ↔
      ¬ EntersCommit clock order ids [p] timeout c := by
  unfold RunsTyped
  constructor
  · intro h henters
    have hlost := wp_executeTransaction_untyped hdef hid hun henters
    cases hx : executeTransaction clock order [p] timeout c with
    | ok a c' => exact wp_ok hlost hx
    | error e c' =>
      obtain ⟨hne,-⟩ := wp_error h hx
      have he := wp_error hlost hx
      exact hne he
  · intro hno
    refine RunsTyped.of_typing (wp_executeTransaction_typed hdef hs ?_
      fun henters => (hno henters).elim)
    intro q hq
    rw [List.mem_singleton.mp hq]
    exact hprepare

theorem runsTyped_run {call : ManagerCall} {storeID : String}
    {route : String → Except String String} {index : Index.GlobalIndex} {fresh : Nat} {plan : Plan}
    (hplan : call.plan storeID route index = .ok plan) :
    RunsTyped (call.run clock order storeID route index fresh) c ↔
      RunsTyped (executeTransaction clock order (List.range' fresh plan.participants.length)
        plan.timeout) (c.place fresh plan.participants) := by
  simp only [RunsTyped,ManagerCall.run,hplan,wp_bind,wp_modify]
  rfl

end Call

/-- Where every store of the call has a default handler: the assertions hold in every call of
the storage manager, but for a message that comes as far as its commit. -/
theorem parameters_typed_iff (clock : Nat → Int) (order : List String → List String)
    (horder : ∀ keys, (order keys).Perm keys) (storeID : String)
    (route : String → Except String String) (index : Index.GlobalIndex) (fresh : Nat)
    (call : ManagerCall) (out : Outside) (ids : String → Option String) (c : Coordinator World)
    (hdef : c.handlers = defaultHandlers out ids)
    (hids : ∀ plan, call.plan storeID route index = .ok plan →
      ∀ o ∈ plan.participants, (ids o.storeID).isSome)
    (hhost : Storage.Reachable out.env c.world.host)
    (hindex : Index.IndexReachable out.clock c.world.index) :
    RunsTyped (call.run clock order storeID route index fresh) c ↔
      ¬ (call.addsMessage = true ∧ CommitsMessage clock index c call.timelineKey) := by
  cases hplan : call.plan storeID route index with
  | error text =>
    have hrun : RunsTyped (call.run clock order storeID route index fresh) c := by
      simp only [RunsTyped,ManagerCall.run,hplan,wp_throw]
      exact ⟨by simp,[],by simp,by simp⟩
    refine iff_of_true hrun ?_
    rintro ⟨hadds,hcommits⟩
    obtain ⟨targetStoreID,hfirst⟩ := hcommits.located
    cases call with
    | createTimeline | deleteTimeline | migrateTimeline => cases hadds
    | addMessage timelineKey senderID data userIDs =>
      have hfirst : firstStore index timelineKey = .ok targetStoreID := hfirst
      simp only [ManagerCall.plan,addMessageWithTransaction,hfirst] at hplan
      cases hplan
  | ok plan =>
    have hsound : (c.place fresh plan.participants).world.Sound := ⟨hhost.pointed,hindex.wellFormed⟩
    have hplaced : ∀ p ∈ List.range' fresh plan.participants.length,
        (c.place fresh plan.participants).objects p ∈ plan.participants :=
      fun p hp => place_mem c fresh plan.participants hp
    have hdef₀ : (c.place fresh plan.participants).handlers = defaultHandlers out ids := hdef
    rw [runsTyped_run hplan]
    by_cases hadds : call.addsMessage = true
    · cases call with
      | createTimeline | deleteTimeline | migrateTimeline => cases hadds
      | addMessage timelineKey senderID data userIDs =>
        obtain ⟨o,hos,htimeout,hun,hlock,hkey,hop⟩ := addMessage_plan hplan
        obtain ⟨target,hid⟩ := Option.isSome_iff_exists.mp (hids plan hplan o (by simp [hos]))
        have hlocated : ∃ target, firstStore index timelineKey = .ok target := by
          obtain ⟨target,hfirst,-⟩ := exists_of_bind_eq_ok hplan
          exact ⟨target,hfirst⟩
        have hobject : (c.place fresh plan.participants).objects fresh = o := by simp [hos]
        have hrange : List.range' fresh plan.participants.length = [fresh] := by simp [hos]
        have hprepare := (ManagerCall.plan_typed hplan (o := o) (by simp [hos])).1
        rw [← hobject] at hun hlock hkey hop hid hprepare
        have hentered : RunsTyped (executeTransaction clock order [fresh] (15*second))
            (c.place fresh plan.participants) ↔
              ¬ EntersCommit clock order ids [fresh] (15*second)
                  (c.place fresh plan.participants) :=
          runsTyped_iff_not_entered hdef₀ hsound hid hprepare hun
        rw [hrange,htimeout,hentered,entersCommit_single_iff horder hlock,
          passes_message_iff hid hop hkey]
        refine not_congr ⟨fun h => ⟨rfl,hlocated,h.2.2,h.1,h.2.1⟩,fun h => ?_⟩
        exact ⟨h.2.free,h.2.timely,h.2.known⟩
    · refine iff_of_true (.of_typing (wp_executeTransaction_typed hdef hsound
        (fun p hp => (ManagerCall.plan_typed hplan (hplaced p hp)).1)
        fun _ p hp => (ManagerCall.plan_typed hplan (hplaced p hp)).2 (by simpa using hadds)))
        fun h => hadds h.1

/-- An index in which the timeline `conv_k` has one block. -/
def oneBlock : Index.GlobalIndex :=
  final ((Index.IndexOp.addIndex ⟨"conv_k","store_1","b",0,0,0,0⟩).exec fun n => n)
    Index.newGlobalIndex

/-- One store with its default handler, which also stands in for `store_2`. -/
def messageStore : Coordinator World :=
  newCoordinator "store_1" (newLockManager "store_1")
    (defaultHandlers ⟨Storage.Env.steady,fun n => n,newClients⟩ fun _ => some "store_1")
    (creating "store_1") ⟨Storage.Host.steady Storage.smallBlocks,oneBlock,0⟩

theorem parameters_typed_create_delete :
    RunsTyped (ManagerCall.run (fun n => n) id "store_1" (fun _ => .ok "store_1") oneBlock 0
        (.createTimeline "conv_n" "conversation")) messageStore ∧
      RunsTyped (ManagerCall.run (fun n => n) id "store_1" (fun _ => .ok "store_1") oneBlock 0
        (.deleteTimeline "conv_k")) messageStore := by
  have hhost : Storage.Reachable Storage.Env.steady (Storage.Host.steady Storage.smallBlocks) :=
    .opened (Storage.newStore_steady Storage.smallBlocks)
  have hindex : Index.IndexReachable (fun n => n) oneBlock :=
    .exec (.addIndex ⟨"conv_k","store_1","b",0,0,0,0⟩) .new
  have htyped := fun call => parameters_typed_iff (fun n => n) id (fun _ => .refl _) "store_1"
    (fun _ => .ok "store_1") oneBlock 0 call
    ⟨Storage.Env.steady,fun n => n,newClients⟩ (fun _ => some "store_1")
    messageStore rfl (fun _ _ _ _ => rfl) hhost hindex
  rw [htyped,htyped]
  simp [ManagerCall.addsMessage]

/-- The sender is a string where Commit asserts a number. -/
theorem message_call_panics :
    ¬ RunsTyped (ManagerCall.run (fun n => n) id "store_1" (fun _ => .ok "store_1") oneBlock 0
      (.addMessage "conv_k" "7" [1] [])) messageStore := by
  have hpanic := eq_error_of_fault (x := ManagerCall.run (fun n => n) id "store_1"
    (fun _ => .ok "store_1") oneBlock 0 (.addMessage "conv_k" "7" [1] [])) (s := messageStore)
    (e := .lost .panicked) (by decide +kernel)
  generalize final _ messageStore = c' at hpanic
  intro h
  unfold RunsTyped at h
  have hlost := wp_error h hpanic
  exact hlost.1 rfl

end Imy.Txn
