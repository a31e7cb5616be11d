import Mathlib.Logic.Function.Basic
import Imy.Lib.Lists
import Imy.Lib.Transition
set_option autoImplicit false

/-!
`MultiLevelCacheManager` of `pkg/storage/cache_manager.go` and the `BatchManager` of
`cache_components.go`, over three caches that keep what they are given.
-/

namespace Imy.Cache
open Imy.Lib

inductive CacheLevel where
  | l1
  | l2
  | l3
  deriving DecidableEq, Repr

abbrev Caches := CacheLevel → String → Option (List UInt8)

def Caches.put (c : Caches) (level : CacheLevel) (key : String) (value : Option (List UInt8)) :
    Caches :=
  Function.update c level (Function.update (c level) key value)

inductive WritePolicy where
  | writeThrough
  | writeBack
  | writeAround
  deriving DecidableEq, Repr

/-- Only sets are scheduled: `ScheduleDelete` has no caller. -/
structure BatchItem where
  key : String
  value : List UInt8
  deriving DecidableEq, Repr

structure CacheWrite where
  level : CacheLevel
  key : String
  value : List UInt8
  deriving DecidableEq, Repr

inductive GetStage where
  | l1
  | l2
  | l3
  | promoteL2 (value : List UInt8)
  | promoteL1 (value : List UInt8)
  | found (value : List UInt8)
  | missed
  deriving DecidableEq, Repr

structure GetCall where
  key : String
  stage : GetStage
  deriving DecidableEq, Repr

inductive HeldStep where
  | write (level : CacheLevel)
  /-- `go ScheduleWrite` -/
  | spawn
  deriving DecidableEq, Repr

/-- The `Set` or `Delete` that holds the lock, with the value it gives to its key, and what
it has yet to do. -/
structure Held where
  key : String
  value : Option (List UInt8)
  rest : List HeldStep
  deriving DecidableEq, Repr

/-- What a `Get` returned, and what `latest` had for its key then. -/
structure Answer where
  key : String
  value : Option (List UInt8)
  latest : Option (List UInt8)
  deriving DecidableEq, Repr

/-- The manager with its caches and goroutines: the holder of the lock, the `Get`s under
way (they hold the read lock), the goroutines of `go ScheduleWrite` before their `select`
and those that write themselves, the queue, the worker's batch and the writes it has yet
to make. `latest` and `answers` are not in the source: the value of the latest completed
`Set` of a key with no `Delete` after it, and what was returned. -/
structure MultiLevelCacheManager where
  caches : Caches
  policies : CacheLevel → WritePolicy
  held : Option Held
  gets : List GetCall
  goroutines : List BatchItem
  direct : List (List CacheWrite)
  batchQueue : List BatchItem
  batch : List BatchItem
  executing : List CacheWrite
  latest : String → Option (List UInt8)
  answers : List Answer

def newMultiLevelCacheManager : MultiLevelCacheManager where
  caches := fun _ _ => none
  policies
    | .l1 => .writeThrough
    | .l2 => .writeBack
    | .l3 => .writeAround
  held := none
  gets := []
  goroutines := []
  direct := []
  batchQueue := []
  batch := []
  executing := []
  latest := fun _ => none
  answers := []

section Manager
variable {V : Type} (serialize : V → Option (List UInt8))
    (compress : List UInt8 → Option (List UInt8))

def processValue (value : V) : Option (List UInt8) := do
  let data ← serialize value
  if data.length > 1024 then compress data else return data

/-- What `Set` does, told by the write policy of L1. -/
def WritePolicy.steps : WritePolicy → List HeldStep
  | .writeThrough => [.write .l1,.write .l2,.write .l3]
  | .writeBack => [.write .l1,.spawn]
  | .writeAround => [.write .l2,.write .l3]

def deleteSteps : List HeldStep := [.write .l1,.write .l2,.write .l3]

def executeItem (item : BatchItem) : List CacheWrite :=
  [⟨.l2,item.key,item.value⟩,⟨.l3,item.key,item.value⟩]

def executeBatch (batch : List BatchItem) : List CacheWrite := batch.flatMap executeItem

def batchSize : Nat := 100

def batchQueueSize : Nat := 10000

namespace MultiLevelCacheManager
variable (s : MultiLevelCacheManager)

def write (w : CacheWrite) : MultiLevelCacheManager :=
  { s with caches := s.caches.put w.level w.key (some w.value) }

def holdStep (h : Held) : MultiLevelCacheManager :=
  match h.rest with
  | .write level :: rest =>
    { s with caches := s.caches.put level h.key h.value, held := some { h with rest := rest } }
  | .spawn :: rest =>
    { s with goroutines := s.goroutines ++ h.value.toList.map (BatchItem.mk h.key)
             held := some { h with rest := rest } }
  | [] => { s with held := none, latest := Function.update s.latest h.key h.value }

def setGet (i : Nat) (g : GetCall) : MultiLevelCacheManager := { s with gets := s.gets.set i g }

def answer (i : Nat) (key : String) (value : Option (List UInt8)) : MultiLevelCacheManager :=
  { s with gets := s.gets.eraseIdx i, answers := s.answers ++ [⟨key,value,s.latest key⟩] }

def getStep (i : Nat) (g : GetCall) : MultiLevelCacheManager :=
  match g.stage with
  | .l1 =>
    match s.caches .l1 g.key with
    | some value => s.setGet i ⟨g.key,.found value⟩
    | none => s.setGet i ⟨g.key,.l2⟩
  | .l2 =>
    match s.caches .l2 g.key with
    | some value => s.setGet i ⟨g.key,.promoteL1 value⟩
    | none => s.setGet i ⟨g.key,.l3⟩
  | .l3 =>
    match s.caches .l3 g.key with
    | some value => s.setGet i ⟨g.key,.promoteL2 value⟩
    | none => s.setGet i ⟨g.key,.missed⟩
  | .promoteL2 value => (s.write ⟨.l2,g.key,value⟩).setGet i ⟨g.key,.promoteL1 value⟩
  | .promoteL1 value => (s.write ⟨.l1,g.key,value⟩).setGet i ⟨g.key,.found value⟩
  | .found value => s.answer i g.key (some value)
  | .missed => s.answer i g.key none

end MultiLevelCacheManager

end Manager

inductive CacheOp (V : Type) where
  /-- `Set` and `Delete` as far as the first write -/
  | set (key : String) (value : V)
  | delete (key : String)
  /-- the next step of the holder of the lock -/
  | hold
  | updatePolicy (level : CacheLevel) (policy : WritePolicy)
  | beginGet (key : String)
  | get (i : Nat)
  /-- `ScheduleWrite` in a goroutine -/
  | schedule (i : Nat)
  /-- the next write of a goroutine that has found the queue full -/
  | direct (i : Nat)
  /-- the worker's `select`: an item, or a tick -/
  | receive
  | tick
  /-- the worker's next write in `executeBatch` -/
  | work

section Steps
variable {V : Type} (serialize : V → Option (List UInt8))
    (compress : List UInt8 → Option (List UInt8))

/-- `Set` returns an error where the value cannot be processed. -/
def MultiLevelCacheManager.next (s : MultiLevelCacheManager) :
    CacheOp V → Option MultiLevelCacheManager
  | .set key value =>
    if s.held = none ∧ s.gets = [] then
      match processValue serialize compress value with
      | none => some s
      | some processed => some { s with held := some ⟨key,some processed,(s.policies .l1).steps⟩ }
    else none
  | .delete key =>
    if s.held = none ∧ s.gets = [] then
        some { s with held := some ⟨key,none,deleteSteps⟩ } else none
  | .hold => s.held.map s.holdStep
  | .updatePolicy level policy =>
    if s.held = none ∧ s.gets = [] then
      some { s with policies := Function.update s.policies level policy }
    else none
  | .beginGet key => if s.held = none then some { s with gets := s.gets ++ [⟨key,.l1⟩] } else none
  | .get i => s.gets[i]?.map (s.getStep i)
  | .schedule i => s.goroutines[i]?.map fun item =>
    if s.batchQueue.length < batchQueueSize then
      { s with goroutines := s.goroutines.eraseIdx i, batchQueue := s.batchQueue ++ [item] }
    else
      { s with goroutines := s.goroutines.eraseIdx i, direct := s.direct ++ [executeItem item] }
  | .direct i =>
    match s.direct[i]? with
    | some (w :: rest) => some { s.write w with direct := s.direct.set i rest }
    | _ => none
  | .receive =>
    match s.executing, s.batchQueue with
    | [], item :: rest =>
      if (s.batch ++ [item]).length ≥ batchSize then
        some { s with
          executing := executeBatch (s.batch ++ [item]), batch := [], batchQueue := rest }
      else some { s with batch := s.batch ++ [item], batchQueue := rest }
    | _, _ => none
  | .tick =>
    if s.executing = [] ∧ s.batch ≠ [] then
      some { s with executing := executeBatch s.batch, batch := [] }
    else none
  | .work =>
    match s.executing with
    | [] => none
    | w :: rest => some { s.write w with executing := rest }

end Steps

/-- A `Get` returned nothing, or the value of the latest `Set` with no `Delete` after it. -/
def Answer.Fresh (a : Answer) : Prop := ∀ v ∈ a.value, a.latest = some v

def GetStage.sees (c : Caches) (key : String) : GetStage → Option (List UInt8)
  | .l1 => (c .l1 key).or ((c .l2 key).or (c .l3 key))
  | .l2 => (c .l2 key).or (c .l3 key)
  | .l3 => c .l3 key
  | .promoteL2 value | .promoteL1 value | .found value => some value
  | .missed => none

def GetStage.Reaches (c : Caches) (key : String) : GetStage → CacheLevel → Prop
  | .l1, .l1 => True
  | .l1, .l2 => c .l1 key = none
  | .l1, .l3 => c .l1 key = none ∧ c .l2 key = none
  | .l2, .l2 => True
  | .l2, .l3 => c .l2 key = none
  | .l3, .l3 => True
  | _, _ => False

instance (c : Caches) (key : String) : (stage : GetStage) → (level : CacheLevel) →
    Decidable (stage.Reaches c key level)
  | .l1,.l1 | .l2,.l2 | .l3,.l3 => isTrue trivial
  | .l1,.l2 => inferInstanceAs (Decidable (c .l1 key = none))
  | .l1,.l3 => inferInstanceAs (Decidable (c .l1 key = none ∧ c .l2 key = none))
  | .l2,.l3 => inferInstanceAs (Decidable (c .l2 key = none))
  | .l2,.l1 | .l3,.l1 | .l3,.l2 | .promoteL2 _,_ | .promoteL1 _,_ | .found _,_
  | .missed,_ => isFalse id

def MultiLevelCacheManager.settled (s : MultiLevelCacheManager) : MultiLevelCacheManager :=
  match s.held with
  | none => s
  | some h => { s with
      held := none
      caches := fun level key => if key = h.key ∧ .write level ∈ h.rest then h.value
        else s.caches level key
      latest := Function.update s.latest h.key h.value }

def MultiLevelCacheManager.Overwrites (s : MultiLevelCacheManager) (w : CacheWrite) : Prop :=
  ∃ h ∈ s.held, w.key = h.key ∧ .write w.level ∈ h.rest

instance (s : MultiLevelCacheManager) (w : CacheWrite) : Decidable (s.Overwrites w) :=
  inferInstanceAs (Decidable (∃ h ∈ s.held, w.key = h.key ∧ .write w.level ∈ h.rest))

/-- A delayed write is written over before the lock is released, it is of the latest value
of its key, or no `Get` takes what it writes, neither a new one nor one under way. -/
def MultiLevelCacheManager.Harmless (s : MultiLevelCacheManager) (w : CacheWrite) : Prop :=
  s.Overwrites w ∨ s.settled.latest w.key = some w.value ∨
    (¬ GetStage.l1.Reaches s.settled.caches w.key w.level ∧
      ∀ g ∈ s.gets, g.key = w.key → ¬ g.stage.Reaches s.settled.caches w.key w.level)

instance (s : MultiLevelCacheManager) (w : CacheWrite) : Decidable (s.Harmless w) :=
  inferInstanceAs (Decidable (_ ∨ _ ∨ _))

section Safe
variable {V : Type} (serialize : V → Option (List UInt8))
    (compress : List UInt8 → Option (List UInt8))

/-- A `Set` that goes around L1 finds no other value of its key there, and delayed writes
are harmless. -/
def Safe (s : MultiLevelCacheManager) : CacheOp V → Prop
  | .set key value => s.policies .l1 = .writeAround →
    ∀ processed ∈ processValue serialize compress value, ∀ v ∈ s.caches .l1 key, v = processed
  | .direct i => ∀ writes ∈ s.direct[i]?, ∀ w ∈ writes.head?, s.Harmless w
  | .work => ∀ w ∈ s.executing.head?, s.Harmless w
  | _ => True

instance (s : MultiLevelCacheManager) : (op : CacheOp V) → Decidable (Safe serialize compress s op)
  | .set key value => inferInstanceAs (Decidable (s.policies .l1 = .writeAround →
      ∀ processed ∈ processValue serialize compress value, ∀ v ∈ s.caches .l1 key, v = processed))
  | .direct i =>
    inferInstanceAs (Decidable (∀ writes ∈ s.direct[i]?, ∀ w ∈ writes.head?, s.Harmless w))
  | .work => inferInstanceAs (Decidable (∀ w ∈ s.executing.head?, s.Harmless w))
  | .delete _ | .hold | .updatePolicy _ _ | .beginGet _ | .get _ | .schedule _ | .receive | .tick =>
    isTrue trivial

end Safe

section Sees
variable {c : Caches} {level : CacheLevel} {key key' : String} {v : List UInt8} {stage : GetStage}

theorem Caches.put_apply (c : Caches) (level level' : CacheLevel) (key key' : String)
    (value : Option (List UInt8)) :
    c.put level key value level' key' = if level' = level ∧ key' = key then value
      else c level' key' := by
  unfold Caches.put
  by_cases hl : level' = level
  · subst hl
    by_cases hk : key' = key <;> simp [hk]
  · simp [hl]

theorem GetStage.sees_congr {c' : Caches} (h : ∀ level, c' level key = c level key) :
    stage.sees c' key = stage.sees c key := by
  cases stage <;> simp [GetStage.sees,h]

theorem GetStage.sees_put_of_reaches (h : stage.Reaches c key level) :
    stage.sees (c.put level key (some v)) key = some v := by
  cases stage <;> cases level <;> simp_all [GetStage.Reaches,GetStage.sees,Caches.put_apply]

theorem GetStage.sees_put_of_not_reaches (h : ¬ stage.Reaches c key level) :
    stage.sees (c.put level key (some v)) key = stage.sees c key := by
  cases hl1 : c .l1 key <;> cases hl2 : c .l2 key <;> cases stage <;> cases level <;>
    simp_all [GetStage.Reaches,GetStage.sees,Caches.put_apply]

theorem GetStage.sees_put_of_ne (h : key' ≠ key) (value : Option (List UInt8)) :
    stage.sees (c.put level key value) key' = stage.sees c key' :=
  GetStage.sees_congr fun _ => by simp [Caches.put_apply,h]

end Sees

/-- No `Get` has returned an old value, or will if nothing comes in between. -/
structure MultiLevelCacheManager.Fresh (s : MultiLevelCacheManager) : Prop where
  shown : ∀ key v, GetStage.l1.sees s.caches key = some v → s.latest key = some v
  gets : ∀ g ∈ s.gets, ∀ v, g.stage.sees s.caches g.key = some v → s.latest g.key = some v
  answers : ∀ a ∈ s.answers, a.Fresh

structure MultiLevelCacheManager.Alike (s t : MultiLevelCacheManager) : Prop where
  caches : t.caches = s.caches
  latest : t.latest = s.latest
  gets : t.gets = s.gets
  answers : t.answers = s.answers

theorem MultiLevelCacheManager.Alike.trans {s t u : MultiLevelCacheManager} (a : s.Alike t)
    (b : t.Alike u) : s.Alike u :=
  ⟨b.caches.trans a.caches,b.latest.trans a.latest,b.gets.trans a.gets,b.answers.trans a.answers⟩

section Fresh
variable {s t : MultiLevelCacheManager} {w : CacheWrite} {i : Nat} {g g' : GetCall}

theorem MultiLevelCacheManager.Fresh.congr (hs : s.Fresh) (h : s.Alike t) : t.Fresh := by
  refine ⟨?_,?_,?_⟩
  · rw [h.caches,h.latest]
    exact hs.shown
  · rw [h.caches,h.latest,h.gets]
    exact hs.gets
  · rw [h.answers]
    exact hs.answers

/-- A write of the latest value, or one that no `Get` takes. -/
theorem MultiLevelCacheManager.Fresh.write (hs : s.Fresh) (hw : s.latest w.key = some w.value ∨
    (¬ GetStage.l1.Reaches s.caches w.key w.level ∧
      ∀ g ∈ s.gets, g.key = w.key → ¬ g.stage.Reaches s.caches w.key w.level)) :
        (s.write w).Fresh := by
  have hkeep : ∀ (stage : GetStage) key, (∀ v, stage.sees s.caches key = some v →
    s.latest key = some v) →
      (key = w.key → s.latest w.key = some w.value ∨ ¬ stage.Reaches s.caches w.key w.level) →
      ∀ v, stage.sees (s.caches.put w.level w.key (some w.value)) key = some v →
          s.latest key = some v := by
    intro stage key hold hwhy v hv
    by_cases hk : key = w.key
    · subst hk
      by_cases hreach : stage.Reaches s.caches w.key w.level
      · rw [GetStage.sees_put_of_reaches hreach] at hv
        exact ((hwhy rfl).resolve_right (not_not_intro hreach)).trans hv
      · rw [GetStage.sees_put_of_not_reaches hreach] at hv
        exact hold v hv
    · rw [GetStage.sees_put_of_ne hk] at hv
      exact hold v hv
  refine ⟨?_,?_,hs.answers⟩
  · intro key
    exact hkeep .l1 key (hs.shown key) fun _ => hw.imp_right And.left
  · intro g hg
    exact hkeep g.stage g.key (hs.gets g hg) fun hk => hw.imp_right fun h => h.2 g hg hk

/-- A `Get` goes on; it will not see more than before. -/
theorem MultiLevelCacheManager.Fresh.setGet (hs : s.Fresh)
    (hsees : ∀ v, g.stage.sees s.caches g.key = some v → s.latest g.key = some v) :
    (s.setGet i g).Fresh := by
  refine ⟨hs.shown,?_,hs.answers⟩
  intro g' hg'
  rcases List.mem_or_eq_of_mem_set hg' with hold | rfl
  · exact hs.gets g' hold
  · exact hsees

theorem MultiLevelCacheManager.Fresh.answer (hs : s.Fresh) {key : String}
    {value : Option (List UInt8)}
    (hvalue : ∀ v ∈ value, s.latest key = some v) : (s.answer i key value).Fresh := by
  refine ⟨hs.shown,fun g hg => hs.gets g (List.mem_of_mem_eraseIdx hg),?_⟩
  intro a ha
  rcases List.mem_append.mp ha with hold | hnew
  · exact hs.answers a hold
  · obtain rfl := List.mem_singleton.mp hnew
    exact hvalue

theorem MultiLevelCacheManager.Fresh.lookUp (hs : s.Fresh) {key : String} (level : CacheLevel)
    {found : List UInt8 → GetStage} {onward : GetStage}
    (hold : ∀ v, (s.caches level key).or (onward.sees s.caches key) = some v →
      s.latest key = some v)
    (hfound : ∀ value, (found value).sees s.caches key = some value) :
    (match s.caches level key with
      | some value => s.setGet i ⟨key,found value⟩
      | none => s.setGet i ⟨key,onward⟩).Fresh := by
  cases hc : s.caches level key with
  | some value =>
    refine hs.setGet fun v hv => hold v ?_
    rw [hc,Option.some_or,← hfound value]
    exact hv
  | none =>
    refine hs.setGet fun v hv => hold v ?_
    rw [hc,Option.none_or]
    exact hv

theorem MultiLevelCacheManager.Fresh.promote (hs : s.Fresh) {key : String} (level : CacheLevel)
    {value : List UInt8} {onward : GetStage} (hlatest : s.latest key = some value)
    (honward : ∀ c, onward.sees c key = some value) :
    ((s.write ⟨level,key,value⟩).setGet i ⟨key,onward⟩).Fresh := by
  refine (hs.write (Or.inl hlatest)).setGet fun v hv => ?_
  rw [honward] at hv
  exact hlatest.trans hv

/-- What a `Get` sees it sees after its step, or it has returned it. -/
theorem MultiLevelCacheManager.Fresh.getStep (hs : s.Fresh) (hg : s.gets[i]? = some g) :
    (s.getStep i g).Fresh := by
  have hsees := hs.gets g (List.mem_of_getElem? hg)
  unfold MultiLevelCacheManager.getStep
  cases hstage : g.stage with
  | l1 =>
    rw [hstage] at hsees
    exact hs.lookUp .l1 hsees fun _ => rfl
  | l2 =>
    rw [hstage] at hsees
    exact hs.lookUp .l2 hsees fun _ => rfl
  | l3 =>
    rw [hstage] at hsees
    refine hs.lookUp .l3 (fun v hv => hsees v ?_) fun _ => rfl
    simpa [GetStage.sees] using hv
  | promoteL2 value =>
    rw [hstage] at hsees
    exact hs.promote .l2 (hsees value rfl) fun _ => rfl
  | promoteL1 value =>
    rw [hstage] at hsees
    exact hs.promote .l1 (hsees value rfl) fun _ => rfl
  | found value =>
    rw [hstage] at hsees
    refine hs.answer ?_
    rintro _ ⟨⟩
    exact hsees value rfl
  | missed =>
    refine hs.answer ?_
    rintro _ ⟨⟩

end Fresh

section Settled
variable {s t : MultiLevelCacheManager} {w : CacheWrite} {h : Held}

theorem MultiLevelCacheManager.settled_of_none (hh : s.held = none) : s.settled = s := by
  simp [MultiLevelCacheManager.settled,hh]

@[simp] theorem MultiLevelCacheManager.settled_gets (s : MultiLevelCacheManager) :
    s.settled.gets = s.gets := by
  unfold MultiLevelCacheManager.settled
  split <;> rfl

@[simp] theorem MultiLevelCacheManager.settled_answers (s : MultiLevelCacheManager) :
    s.settled.answers = s.answers := by
  unfold MultiLevelCacheManager.settled
  split <;> rfl

theorem MultiLevelCacheManager.settled_alike (ha : s.Alike t) (hheld : t.held = s.held) :
    s.settled.Alike t.settled := by
  refine ⟨?_,?_,by simpa using ha.gets,by simpa using ha.answers⟩
  · unfold MultiLevelCacheManager.settled
    rw [hheld]
    cases s.held with
    | none => exact ha.caches
    | some h => simp only [ha.caches]
  · unfold MultiLevelCacheManager.settled
    rw [hheld]
    cases s.held with
    | none => exact ha.latest
    | some h => simp only [ha.latest]

theorem MultiLevelCacheManager.settled_holdStep (hh : s.held = some h) :
    s.settled.Alike (s.holdStep h).settled := by
  unfold MultiLevelCacheManager.holdStep
  cases hrest : h.rest with
  | nil =>
    refine ⟨?_,?_,by simp,by simp⟩
    · simp [MultiLevelCacheManager.settled,hh,hrest]
    · simp [MultiLevelCacheManager.settled,hh]
  | cons step rest =>
    cases step with
    | spawn =>
      refine ⟨?_,?_,by simp,by simp⟩
      · simp [MultiLevelCacheManager.settled,hh,hrest]
      · simp [MultiLevelCacheManager.settled,hh]
    | write level =>
      refine ⟨?_,?_,by simp,by simp⟩
      · funext level' key
        simp only [MultiLevelCacheManager.settled,hh,hrest,Caches.put_apply,List.mem_cons,
          HeldStep.write.injEq]
        by_cases hk : key = h.key
        · by_cases hl : level' = level <;> simp [hk,hl]
        · simp [hk]
      · simp [MultiLevelCacheManager.settled,hh]

/-- A delayed write is lost under the holder's, or comes on top. -/
theorem MultiLevelCacheManager.settled_write (s : MultiLevelCacheManager) (w : CacheWrite) :
    (s.Overwrites w ∧ s.settled.Alike (s.write w).settled) ∨
      (¬ s.Overwrites w ∧ (s.settled.write w).Alike (s.write w).settled) := by
  unfold MultiLevelCacheManager.Overwrites
  cases hh : s.held with
  | none =>
    refine Or.inr ⟨by simp,?_⟩
    have hh' : (s.write w).held = none := hh
    rw [settled_of_none hh,settled_of_none hh']
    exact ⟨rfl,rfl,rfl,rfl⟩
  | some h =>
    by_cases hover : w.key = h.key ∧ .write w.level ∈ h.rest
    · refine Or.inl ⟨⟨h,rfl,hover⟩,?_,?_,by simp [MultiLevelCacheManager.write],
        by simp [MultiLevelCacheManager.write]⟩
      · funext level key
        simp only [MultiLevelCacheManager.settled,MultiLevelCacheManager.write,hh,Caches.put_apply]
        by_cases hw : level = w.level ∧ key = w.key
        · obtain ⟨rfl,rfl⟩ := hw
          simp [hover]
        · simp [hw]
      · simp [MultiLevelCacheManager.settled,MultiLevelCacheManager.write,hh]
    · refine Or.inr ⟨?_,?_,?_,by simp [MultiLevelCacheManager.write],
        by simp [MultiLevelCacheManager.write]⟩
      · rintro ⟨h',hh',hover'⟩
        cases hh'
        exact hover hover'
      · funext level key
        simp only [MultiLevelCacheManager.settled,MultiLevelCacheManager.write,hh,Caches.put_apply]
        by_cases hw : level = w.level ∧ key = w.key
        · obtain ⟨rfl,rfl⟩ := hw
          simp [hover]
        · simp [hw]
      · simp [MultiLevelCacheManager.settled,MultiLevelCacheManager.write,hh]

end Settled

/-- What a safe run keeps. `Get`s are under way only while nobody holds the lock. -/
structure Guarded (s : MultiLevelCacheManager) : Prop where
  fresh : s.settled.Fresh
  alone : s.held ≠ none → s.gets = []

section Guarded
variable {s t : MultiLevelCacheManager} {w : CacheWrite} {V : Type}
  {serialize : V → Option (List UInt8)} {compress : List UInt8 → Option (List UInt8)}

theorem Guarded.new : Guarded newMultiLevelCacheManager := by
  refine ⟨⟨?_,?_,?_⟩,?_⟩ <;> simp [newMultiLevelCacheManager,
    MultiLevelCacheManager.settled,GetStage.sees]

theorem Guarded.fresh_of_none (hs : Guarded s) (hheld : s.held = none) : s.Fresh := by
  have hfresh := hs.fresh
  rwa [MultiLevelCacheManager.settled_of_none hheld] at hfresh

theorem Guarded.of_none (hheld : s.held = none) (hfresh : s.Fresh) : Guarded s := by
  refine ⟨?_,fun h => absurd hheld h⟩
  rwa [MultiLevelCacheManager.settled_of_none hheld]

theorem Guarded.alike (hs : Guarded s) (ha : s.Alike t) (hheld : t.held = s.held) : Guarded t := by
  refine ⟨hs.fresh.congr (MultiLevelCacheManager.settled_alike ha hheld),?_⟩
  rw [hheld,ha.gets]
  exact hs.alone

theorem Guarded.write (hs : Guarded s) (hw : s.Harmless w) : Guarded (s.write w) := by
  refine ⟨?_,hs.alone⟩
  rcases MultiLevelCacheManager.settled_write s w with ⟨-,ha⟩ | ⟨hnot,ha⟩
  · exact hs.fresh.congr ha
  · refine (hs.fresh.write ?_).congr ha
    simpa using hw.resolve_left hnot

/-- The lock is taken: once it is released the key has the value everywhere it is seen. -/
theorem Guarded.take (hs : Guarded s) (hheld : s.held = none) (hgets : s.gets = []) {h : Held}
    (hseen : ∀ v, GetStage.l1.sees
      (fun level key => if key = h.key ∧ .write level ∈ h.rest then h.value
        else s.caches level key) h.key =
        some v → h.value = some v) : Guarded { s with held := some h } := by
  have hfresh := hs.fresh_of_none hheld
  refine ⟨⟨?_,?_,?_⟩,fun _ => hgets⟩
  · intro key v hv
    simp only [MultiLevelCacheManager.settled] at hv ⊢
    by_cases hk : key = h.key
    · subst hk
      simpa using hseen v hv
    · rw [GetStage.sees_congr (c := s.caches) fun level => by simp [hk]] at hv
      simpa [hk] using hfresh.shown key v hv
  · simp [hgets]
  · simpa using hfresh.answers

/-- After the `Set` no `Get` finds another value, unless it goes around one in L1. -/
theorem Guarded.set (hs : Guarded s) (hheld : s.held = none) (hgets : s.gets = []) {key : String}
    {processed : List UInt8}
    (haround : s.policies .l1 = .writeAround → ∀ v ∈ s.caches .l1 key, v = processed) :
    Guarded { s with held := some ⟨key,some processed,(s.policies .l1).steps⟩ } := by
  refine hs.take hheld hgets ?_
  intro v hv
  cases hpolicy : s.policies .l1 with
  | writeThrough => simpa [GetStage.sees,hpolicy,WritePolicy.steps] using hv
  | writeBack => simpa [GetStage.sees,hpolicy,WritePolicy.steps] using hv
  | writeAround =>
    cases hl1 : s.caches .l1 key with
    | none => simpa [GetStage.sees,hpolicy,WritePolicy.steps,hl1] using hv
    | some old =>
      obtain rfl := haround hpolicy old hl1
      simpa [GetStage.sees,hpolicy,WritePolicy.steps,hl1] using hv

theorem Guarded.beginGet (hs : Guarded s) (hheld : s.held = none) (key : String) :
    Guarded { s with gets := s.gets ++ [⟨key,.l1⟩] } := by
  have hfresh := hs.fresh_of_none hheld
  refine .of_none hheld ⟨hfresh.shown,?_,hfresh.answers⟩
  intro g hg
  rcases List.mem_append.mp hg with hold | hnew
  · exact hfresh.gets g hold
  · obtain rfl := List.mem_singleton.mp hnew
    exact hfresh.shown key

theorem Guarded.get (hs : Guarded s) {i : Nat} {g : GetCall} (hg : s.gets[i]? = some g) :
    Guarded (s.getStep i g) := by
  have hheld : s.held = none := by
    by_contra hne
    simp [hs.alone hne] at hg
  have hheld' : (s.getStep i g).held = none := by
    unfold MultiLevelCacheManager.getStep
    split <;> (try split) <;> exact hheld
  exact .of_none hheld' ((hs.fresh_of_none hheld).getStep hg)

theorem Guarded.next (hs : Guarded s) {op : CacheOp V} (hsafe : Safe serialize compress s op)
    (hstep : s.next serialize compress op = some t) : Guarded t := by
  cases op with
  | set key value =>
    simp only [MultiLevelCacheManager.next,Option.ite_none_right_eq_some] at hstep
    obtain ⟨⟨hheld,hgets⟩,hstep⟩ := hstep
    cases hp : processValue serialize compress value with
    | none =>
      simp only [hp,Option.some.injEq] at hstep
      exact hstep ▸ hs
    | some processed =>
      simp only [hp,Option.some.injEq] at hstep
      subst hstep
      exact hs.set hheld hgets fun hpolicy => hsafe hpolicy processed hp
  | delete key =>
    simp only [MultiLevelCacheManager.next,Option.ite_none_right_eq_some,Option.some.injEq] at hstep
    obtain ⟨⟨hheld,hgets⟩,rfl⟩ := hstep
    refine hs.take hheld hgets ?_
    intro v hv
    simp [GetStage.sees,deleteSteps] at hv
  | hold =>
    simp only [MultiLevelCacheManager.next,Option.map_eq_some_iff] at hstep
    obtain ⟨h,hh,rfl⟩ := hstep
    have hgets := hs.alone (by simp [hh])
    refine ⟨hs.fresh.congr (MultiLevelCacheManager.settled_holdStep hh),fun _ => ?_⟩
    unfold MultiLevelCacheManager.holdStep
    split <;> exact hgets
  | updatePolicy level policy =>
    simp only [MultiLevelCacheManager.next,Option.ite_none_right_eq_some,Option.some.injEq] at hstep
    obtain ⟨-,rfl⟩ := hstep
    exact hs.alike ⟨rfl,rfl,rfl,rfl⟩ rfl
  | beginGet key =>
    simp only [MultiLevelCacheManager.next,Option.ite_none_right_eq_some,Option.some.injEq] at hstep
    obtain ⟨hheld,rfl⟩ := hstep
    exact hs.beginGet hheld key
  | get i =>
    simp only [MultiLevelCacheManager.next,Option.map_eq_some_iff] at hstep
    obtain ⟨g,hg,rfl⟩ := hstep
    exact hs.get hg
  | schedule i =>
    simp only [MultiLevelCacheManager.next,Option.map_eq_some_iff] at hstep
    obtain ⟨item,-,rfl⟩ := hstep
    split
    · exact hs.alike ⟨rfl,rfl,rfl,rfl⟩ rfl
    · exact hs.alike ⟨rfl,rfl,rfl,rfl⟩ rfl
  | direct i =>
    simp only [MultiLevelCacheManager.next] at hstep
    split at hstep
    · rename_i w rest hi
      cases hstep
      refine Guarded.alike (hs.write (hsafe _ hi w rfl)) ⟨rfl,rfl,rfl,rfl⟩ rfl
    · cases hstep
  | receive =>
    simp only [MultiLevelCacheManager.next] at hstep
    split at hstep
    · split at hstep
      · cases hstep
        exact hs.alike ⟨rfl,rfl,rfl,rfl⟩ rfl
      · cases hstep
        exact hs.alike ⟨rfl,rfl,rfl,rfl⟩ rfl
    · cases hstep
  | tick =>
    simp only [MultiLevelCacheManager.next,Option.ite_none_right_eq_some,Option.some.injEq] at hstep
    obtain ⟨-,rfl⟩ := hstep
    exact hs.alike ⟨rfl,rfl,rfl,rfl⟩ rfl
  | work =>
    simp only [MultiLevelCacheManager.next] at hstep
    split at hstep
    · cases hstep
    · rename_i w rest hexec
      cases hstep
      exact Guarded.alike (hs.write (hsafe w (by simp [hexec]))) ⟨rfl,rfl,rfl,rfl⟩ rfl

end Guarded

/-- Nothing but a `Get`, and what the holder of the lock has left to do. -/
def CacheOp.Calm {V : Type} : CacheOp V → Prop
  | .hold | .beginGet _ | .get _ => True
  | _ => False

section Calmly
variable {V : Type} (serialize : V → Option (List UInt8))
    (compress : List UInt8 → Option (List UInt8))

/-- Without anything else the manager can come to a state that meets `P`. -/
def Calmly (P : MultiLevelCacheManager → Prop) (s : MultiLevelCacheManager) : Prop :=
  ∃ ops : List (CacheOp V), (∀ op ∈ ops, op.Calm) ∧
    ∃ u, ops.foldlM (MultiLevelCacheManager.next serialize compress) s = some u ∧ P u

variable {serialize : V → Option (List UInt8)} {compress : List UInt8 → Option (List UInt8)}
  {P Q : MultiLevelCacheManager → Prop} {s t : MultiLevelCacheManager}

theorem Calmly.here (h : P s) : Calmly serialize compress P s := ⟨[],by simp,s,rfl,h⟩

theorem Calmly.step (op : CacheOp V) (hcalm : op.Calm)
    (hstep : s.next serialize compress op = some t)
    (h : Calmly serialize compress P t) : Calmly serialize compress P s := by
  obtain ⟨ops,hops,u,hrun,hu⟩ := h
  refine ⟨op :: ops,by simpa [hcalm] using hops,u,?_,hu⟩
  rw [List.foldlM_cons,hstep]
  exact hrun

theorem Calmly.trans (h : Calmly serialize compress P s) (hnext : ∀ u, P u →
    Calmly serialize compress Q u) :
    Calmly serialize compress Q s := by
  obtain ⟨ops,hops,u,hrun,hu⟩ := h
  obtain ⟨more,hmore,x,hrun',hx⟩ := hnext u hu
  refine ⟨ops ++ more,fun op hop => (List.mem_append.mp hop).elim (hops op) (hmore op),x,?_,hx⟩
  rw [List.foldlM_append,hrun]
  exact hrun'

end Calmly

/-- A `Get` has returned an old value. -/
def MultiLevelCacheManager.Misled (s : MultiLevelCacheManager) : Prop := ∃ a ∈ s.answers, ¬ a.Fresh

def GetStage.left : GetStage → Nat
  | .l1 => 5
  | .l2 => 4
  | .l3 => 3
  | .promoteL2 _ => 2
  | .promoteL1 _ => 1
  | .found _ | .missed => 0

section Lost
variable {V : Type} {serialize : V → Option (List UInt8)}
    {compress : List UInt8 → Option (List UInt8)}
  {s t : MultiLevelCacheManager} {i : Nat} {g : GetCall} {w : CacheWrite}
    {key : String} {v : List UInt8}

/-- A `Get` that is left alone returns what it sees, or comes nearer to that. -/
theorem MultiLevelCacheManager.getStep_onward (hg : s.gets[i]? = some g) :
    (s.getStep i g).answers = s.answers ++ [⟨g.key,g.stage.sees s.caches g.key,s.latest g.key⟩] ∨
    ∃ g', (s.getStep i g).gets[i]? = some g' ∧ g'.key = g.key ∧ g'.stage.left < g.stage.left ∧
      g'.stage.sees (s.getStep i g).caches g.key = g.stage.sees s.caches g.key ∧
      (s.getStep i g).latest = s.latest ∧ (s.getStep i g).answers = s.answers := by
  have hlt : i < s.gets.length := (List.getElem?_eq_some_iff.mp hg).1
  have hset : ∀ g', (s.gets.set i g')[i]? = some g' := fun g' => List.getElem?_set_self hlt
  unfold MultiLevelCacheManager.getStep
  cases hstage : g.stage with
  | l1 =>
    simp only
    cases hc : s.caches .l1 g.key with
    | some value =>
      exact Or.inr ⟨_,hset _,rfl,by simp [GetStage.left],by simp [GetStage.sees,hc],rfl,rfl⟩
    | none => exact Or.inr ⟨_,hset _,rfl,by simp [GetStage.left],
        by simp [GetStage.sees,hc,MultiLevelCacheManager.setGet],rfl,rfl⟩
  | l2 =>
    simp only
    cases hc : s.caches .l2 g.key with
    | some value =>
      exact Or.inr ⟨_,hset _,rfl,by simp [GetStage.left],by simp [GetStage.sees,hc],rfl,rfl⟩
    | none => exact Or.inr ⟨_,hset _,rfl,by simp [GetStage.left],
        by simp [GetStage.sees,hc,MultiLevelCacheManager.setGet],rfl,rfl⟩
  | l3 =>
    simp only
    cases hc : s.caches .l3 g.key with
    | some value =>
      exact Or.inr ⟨_,hset _,rfl,by simp [GetStage.left],by simp [GetStage.sees,hc],rfl,rfl⟩
    | none => exact Or.inr ⟨_,hset _,rfl,by simp [GetStage.left],by simp [GetStage.sees,hc],rfl,rfl⟩
  | promoteL2 value => exact Or.inr ⟨_,hset _,rfl,by simp [GetStage.left],rfl,rfl,rfl⟩
  | promoteL1 value => exact Or.inr ⟨_,hset _,rfl,by simp [GetStage.left],rfl,rfl,rfl⟩
  | found value => exact Or.inl rfl
  | missed => exact Or.inl rfl

theorem get_returns (n : Nat) (hleft : g.stage.left ≤ n) (hg : s.gets[i]? = some g) :
    Calmly serialize compress (fun u => u.answers =
      s.answers ++ [⟨g.key,g.stage.sees s.caches g.key,s.latest g.key⟩]) s := by
  induction n generalizing s g with
  | zero =>
    refine Calmly.step (.get i) trivial (by simp [MultiLevelCacheManager.next,hg]; rfl) (.here ?_)
    rcases MultiLevelCacheManager.getStep_onward hg with hdone | ⟨g',-,-,hless,-⟩
    · exact hdone
    · omega
  | succ n ih =>
    refine Calmly.step (.get i) trivial (by simp [MultiLevelCacheManager.next,hg]; rfl) ?_
    rcases MultiLevelCacheManager.getStep_onward hg with hdone | ⟨g',hg',hkey,hless,
      hsees,hlatest,hanswers⟩
    · exact .here hdone
    · refine (ih (by omega) hg').trans fun u hu => .here ?_
      rw [hu,hanswers,hkey,hsees,hlatest]

theorem lock_released {h : Held} (rest : List HeldStep) (hrest : h.rest = rest)
    (hh : s.held = some h) :
    Calmly serialize compress (fun u => u.held = none ∧ s.settled.Alike u) s := by
  have halike := MultiLevelCacheManager.settled_holdStep hh
  refine Calmly.step .hold trivial (t := s.holdStep h)
    (by simp [MultiLevelCacheManager.next,hh]) ?_
  induction rest generalizing s h with
  | nil =>
    have hheld : (s.holdStep h).held = none := by simp [MultiLevelCacheManager.holdStep,hrest]
    rw [MultiLevelCacheManager.settled_of_none hheld] at halike
    exact .here ⟨hheld,halike⟩
  | cons step rest ih =>
    have hheld : (s.holdStep h).held = some { h with rest := rest } := by
      cases step <;> simp [MultiLevelCacheManager.holdStep,hrest]
    refine Calmly.step .hold trivial (t := (s.holdStep h).holdStep { h with rest := rest })
      (by simp [MultiLevelCacheManager.next,hheld]) ?_
    refine (ih rfl hheld (MultiLevelCacheManager.settled_holdStep hheld)).trans ?_
    exact fun u hu => .here ⟨hu.1,halike.trans hu.2⟩

/-- An old value that a new `Get` or one under way is to see will be returned. -/
theorem lost_of_sees (hold : (∃ key v, GetStage.l1.sees t.settled.caches key = some v ∧
      t.settled.latest key ≠ some v) ∨
    ∃ g ∈ t.gets, ∃ v, g.stage.sees t.settled.caches g.key = some v ∧
      t.settled.latest g.key ≠ some v) :
    Calmly serialize compress MultiLevelCacheManager.Misled t := by
  have hreleased : Calmly serialize compress (fun u => u.held = none ∧ t.settled.Alike u) t := by
    cases hh : t.held with
    | none =>
      refine .here ⟨hh,?_⟩
      rw [MultiLevelCacheManager.settled_of_none hh]
      exact ⟨rfl,rfl,rfl,rfl⟩
    | some h => exact lock_released h.rest rfl hh
  have hreturned : ∀ (x : MultiLevelCacheManager) (g : GetCall) (v : List UInt8), g ∈ x.gets →
      g.stage.sees x.caches g.key = some v → x.latest g.key ≠ some v →
      Calmly serialize compress MultiLevelCacheManager.Misled x := by
    intro x g v hg hv hne
    obtain ⟨i,hi⟩ := List.mem_iff_getElem?.mp hg
    refine (get_returns _ le_rfl hi).trans fun y hanswers => .here ?_
    refine ⟨⟨g.key,g.stage.sees x.caches g.key,x.latest g.key⟩,?_,fun hfresh => hne (hfresh v hv)⟩
    rw [hanswers]
    exact List.mem_append_right _ (List.mem_singleton_self _)
  refine hreleased.trans ?_
  rintro u ⟨hheld,halike⟩
  rcases hold with ⟨key,v,hv,hne⟩ | ⟨g,hg,v,hv,hne⟩
  · refine Calmly.step (.beginGet key) trivial
      (t := { u with gets := u.gets ++ [⟨key,.l1⟩] })
        (by simp [MultiLevelCacheManager.next,hheld]) ?_
    refine hreturned _ ⟨key,.l1⟩ v (by simp) ?_ ?_
    · rw [halike.caches]
      exact hv
    · rw [halike.latest]
      exact hne
  · refine hreturned u g v ?_ ?_ ?_
    · rw [halike.gets]
      simpa using hg
    · rw [halike.caches]
      exact hv
    · rw [halike.latest]
      exact hne

/-- A delayed write that is not harmless: some `Get` takes it. -/
theorem lost_of_write (hnot : ¬ s.Harmless w) (ha : (s.write w).Alike t) (hheld : t.held = s.held) :
    Calmly serialize compress MultiLevelCacheManager.Misled t := by
  simp only [MultiLevelCacheManager.Harmless,not_or,not_and_or,not_not,not_forall] at hnot
  obtain ⟨hover,hlatest,hreach⟩ := hnot
  have hsettled : (s.settled.write w).Alike t.settled := by
    rcases MultiLevelCacheManager.settled_write s w with ⟨hyes,-⟩ | ⟨-,hw⟩
    · exact absurd hyes hover
    · have ht := MultiLevelCacheManager.settled_alike ha hheld
      exact hw.trans ht
  have hne : t.settled.latest w.key ≠ some w.value := by
    rw [hsettled.latest]
    exact hlatest
  have hsees : ∀ stage : GetStage, stage.Reaches s.settled.caches w.key w.level →
      stage.sees t.settled.caches w.key = some w.value := by
    intro stage hstage
    rw [hsettled.caches]
    exact GetStage.sees_put_of_reaches hstage
  refine lost_of_sees ?_
  rcases hreach with hfirst | ⟨g,hg,hkey,hstage⟩
  · exact Or.inl ⟨w.key,w.value,hsees _ hfirst,hne⟩
  · refine Or.inr ⟨g,?_,w.value,hkey ▸ hsees _ hstage,hkey ▸ hne⟩
    rw [ha.gets]
    exact hg

/-- After a step that is not safe a `Get` returns an old value, if it comes first. -/
theorem lost_of_unsafe {op : CacheOp V} (hnot : ¬ Safe serialize compress s op)
    (hstep : s.next serialize compress op = some t) :
    Calmly serialize compress MultiLevelCacheManager.Misled t := by
  cases op with
  | set key value =>
    simp only [Safe,Classical.not_imp,not_forall] at hnot
    obtain ⟨hpolicy,processed,hp,old,hold,hne⟩ := hnot
    simp only [MultiLevelCacheManager.next,Option.ite_none_right_eq_some] at hstep
    obtain ⟨-,hstep⟩ := hstep
    simp only [Option.mem_def] at hp hold
    simp only [hp,Option.some.injEq] at hstep
    subst hstep
    refine lost_of_sees (Or.inl ⟨key,old,?_,?_⟩)
    · simp [MultiLevelCacheManager.settled,GetStage.sees,hpolicy,WritePolicy.steps,hold]
    · simpa [MultiLevelCacheManager.settled] using Ne.symm hne
  | direct i =>
    simp only [Safe,Classical.not_imp,not_forall] at hnot
    obtain ⟨writes,hi,w,hw,hnot⟩ := hnot
    simp only [Option.mem_def] at hi
    cases writes with
    | nil => cases hw
    | cons w' rest =>
      cases hw
      simp only [MultiLevelCacheManager.next,hi,Option.some.injEq] at hstep
      subst hstep
      exact lost_of_write hnot ⟨rfl,rfl,rfl,rfl⟩ rfl
  | work =>
    simp only [Safe,Classical.not_imp,not_forall] at hnot
    obtain ⟨w,hw,hnot⟩ := hnot
    simp only [MultiLevelCacheManager.next] at hstep
    cases hexec : s.executing with
    | nil =>
      rw [hexec] at hw
      cases hw
    | cons w' rest =>
      rw [hexec] at hw hstep
      cases hw
      cases hstep
      exact lost_of_write hnot ⟨rfl,rfl,rfl,rfl⟩ rfl
  | delete | hold | updatePolicy | beginGet | get | schedule | receive
  | tick => exact absurd trivial hnot

end Lost

/-- In every safe run each `Get` returns nothing or the latest value, and a run can turn
out otherwise as soon as a step is not safe. -/
theorem answers_fresh_of_safe {V : Type} (serialize : V → Option (List UInt8))
    (compress : List UInt8 → Option (List UInt8)) (ops : List (CacheOp V))
    (s : MultiLevelCacheManager)
    (hrun : Steps (fun op a b => Safe serialize compress a op ∧
      a.next serialize compress op = some b)
      newMultiLevelCacheManager ops s) :
    (∀ a ∈ s.answers, a.Fresh) ∧
    ∀ op t, s.next serialize compress op = some t → ¬ Safe serialize compress s op →
      Calmly serialize compress MultiLevelCacheManager.Misled t := by
  have hs : Guarded s := hrun.invariant (fun _ _ _ hu h => hu.next h.1 h.2) Guarded.new
  refine ⟨?_,fun op t hstep hnot => lost_of_unsafe hnot hstep⟩
  simpa using hs.fresh.answers

/-- Values of one byte, never compressed. -/
def oneByte (v : UInt8) : Option (List UInt8) := some [v]

/-- What is written back comes to L2 and L3 while L1 has a newer value; then it is deleted. -/
def overtakenWriteBack : List (CacheOp UInt8) :=
  [.updatePolicy .l1 .writeBack,.set "k" 1,.hold,.hold,.hold,.schedule 0,.receive,.tick,.set "k" 2,
    .hold,.work,.work,.hold,.hold,.beginGet "k",.get 0,.get 0,.delete "k",.hold,.hold,.hold,.hold,
    .beginGet "k",.get 0,.get 0,.get 0,.get 0]

theorem answers_fresh_of_safe_overtakenWriteBack :
    ∃ s, Steps (fun op a b => Safe oneByte some a op ∧ a.next oneByte some op = some b)
        newMultiLevelCacheManager overtakenWriteBack s ∧
      s.answers = [⟨"k",some [2],some [2]⟩,⟨"k",none,none⟩] ∧ ∀ a ∈ s.answers, a.Fresh := by
  have hany : (runWhile (fun op a => Safe oneByte some a op) (fun op a => a.next oneByte some op)
      overtakenWriteBack newMultiLevelCacheManager).any
        (fun s => decide (s.answers = [⟨"k",some [2],some [2]⟩,⟨"k",none,none⟩])) = true := by
          decide +kernel
  obtain ⟨s,hs,hanswers⟩ := (Option.any_eq_true _ _).mp hany
  have hsteps := steps_of_runWhile overtakenWriteBack hs
  exact ⟨s,hsteps,of_decide_eq_true hanswers,
    (answers_fresh_of_safe oneByte some overtakenWriteBack s hsteps).1⟩

def deletedBeforeWriteBack : List (CacheOp UInt8) :=
  [.updatePolicy .l1 .writeBack,.set "k" 1,.hold,.hold,.hold,.delete "k",.hold,.hold,.hold,.hold,
    .schedule 0,.receive,.tick,.work,.work,.beginGet "k",.get 0,.get 0,.get 0,.get 0]

/-- The second `Set` goes around L1, which keeps the value of the first one. -/
def setAround : List (CacheOp UInt8) :=
  [.set "k" 1,.hold,.hold,.hold,.hold,.updatePolicy .l1 .writeAround,.set "k" 2,.hold,.hold,.hold,
    .beginGet "k",.get 0,.get 0]

theorem old_values_returned :
    (∃ s, deletedBeforeWriteBack.foldlM (MultiLevelCacheManager.next oneByte some)
        newMultiLevelCacheManager = some s ∧ s.answers = [⟨"k",some [1],none⟩]) ∧
    (∃ s, setAround.foldlM (MultiLevelCacheManager.next oneByte some)
      newMultiLevelCacheManager = some s ∧
      s.answers = [⟨"k",some [1],some [2]⟩]) ∧
    ¬ (⟨"k",some [1],none⟩ : Answer).Fresh ∧ ¬ (⟨"k",some [1],some [2]⟩ : Answer).Fresh := by
  have hdeleted : (deletedBeforeWriteBack.foldlM (MultiLevelCacheManager.next oneByte some)
      newMultiLevelCacheManager).any (fun s =>
          decide (s.answers = [⟨"k",some [1],none⟩])) = true := by
    decide +kernel
  have haround : (setAround.foldlM (MultiLevelCacheManager.next oneByte some)
      newMultiLevelCacheManager).any (fun s =>
          decide (s.answers = [⟨"k",some [1],some [2]⟩])) = true := by
    decide +kernel
  obtain ⟨s,hs,hanswers⟩ := (Option.any_eq_true _ _).mp hdeleted
  obtain ⟨t,ht,hanswers'⟩ := (Option.any_eq_true _ _).mp haround
  refine ⟨⟨s,hs,of_decide_eq_true hanswers⟩,⟨t,ht,of_decide_eq_true hanswers'⟩,?_,?_⟩
  · intro h
    cases h [1] rfl
  · intro h
    cases h [1] rfl

end Imy.Cache
