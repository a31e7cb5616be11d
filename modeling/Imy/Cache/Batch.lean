import Imy.Cache.MultiLevel
import Imy.Lib.SafeRuns
set_option autoImplicit false

/-!
`BatchManager` of `pkg/storage/cache_components.go` with one caller: it schedules writes and
deletes one after another and then stops the manager, while the worker runs.
-/

namespace Imy.Cache.Batch
open Imy.Lib

variable {V : Type}

inductive Op where
  | set
  | delete
  deriving DecidableEq, Repr

/-- A call of `ScheduleWrite` or `ScheduleDelete`. -/
structure Request (V : Type) where
  key : String
  value : Option V
  ttl : Int
  op : Op
  deriving DecidableEq, Repr

structure BatchItem (V : Type) extends Request V where
  no : Nat
  deriving DecidableEq, Repr

inductive Act where
  | start
  | set (level : CacheLevel)
  | delete (level : CacheLevel)
  | finish
  deriving DecidableEq, Repr

structure Event (V : Type) where
  item : BatchItem V
  act : Act
  deriving DecidableEq, Repr

def executeItem (levels : List CacheLevel) (item : BatchItem V) : List (Event V) :=
  ⟨item,.start⟩ :: (match item.op with
    | .set => levels.map fun level => ⟨item,.set level⟩
    | .delete => levels.map fun level => ⟨item,.delete level⟩) ++ [⟨item,.finish⟩]

def executeBatch (levels : List CacheLevel) (batch : List (BatchItem V)) : List (Event V) :=
  batch.flatMap (executeItem levels)

/-- `executing` is what the worker has yet to do of the batch that it executes, `inline`
what the caller has yet to do of an item that found the queue full. `scheduled` and `log`
are not in the source: the items made so far and what has been done. -/
structure BatchManager (V : Type) where
  levels : List CacheLevel
  todo : List (Request V)
  inline : List (Event V)
  stopCh : Bool
  stopReturned : Bool
  batchQueue : List (BatchItem V)
  batch : List (BatchItem V)
  executing : List (Event V)
  stopping : Bool
  workerDone : Bool
  scheduled : List (BatchItem V)
  log : List (Event V)
  deriving DecidableEq, Repr

def newBatchManager (levels : List CacheLevel) (requests : List (Request V)) : BatchManager V where
  levels := levels
  todo := requests
  inline := []
  stopCh := false
  stopReturned := false
  batchQueue := []
  batch := []
  executing := []
  stopping := false
  workerDone := false
  scheduled := []
  log := []

inductive Step where
  /-- the caller's next `ScheduleWrite` or `ScheduleDelete` as far as its `select` -/
  | schedule
  /-- the caller goes on with an item that it executes itself -/
  | inline
  /-- `Stop` closes the channel, and returns when the worker has -/
  | stop
  | stopReturn
  /-- the worker's `select`: the closed channel, an item, or a tick -/
  | takeStop
  | receive
  | tick
  /-- the worker goes on with `executeBatch` -/
  | work
  | workerReturn
  deriving DecidableEq, Repr

namespace BatchManager

def Selecting (s : BatchManager V) : Prop := s.executing = [] ∧ s.stopping = false

instance (s : BatchManager V) : Decidable s.Selecting := instDecidableAnd

def flush (s : BatchManager V) : BatchManager V :=
  { s with executing := executeBatch s.levels s.batch, batch := [] }

def put (s : BatchManager V) (item : BatchItem V) : BatchManager V :=
  if s.batchQueue.length < batchQueueSize then { s with batchQueue := s.batchQueue ++ [item] }
  else { s with inline := executeItem s.levels item }

def next (s : BatchManager V) : Step → Option (BatchManager V)
  | .schedule =>
    match s.todo with
    | [] => none
    | r :: rest =>
      if s.inline = [] then
        let item : BatchItem V := { r with no := s.scheduled.length }
        some ({ s with todo := rest, scheduled := s.scheduled ++ [item] }.put item)
      else none
  | .inline =>
    match s.inline with
    | [] => none
    | e :: rest => some { s with log := s.log ++ [e], inline := rest }
  | .stop =>
    if s.todo = [] ∧ s.inline = [] ∧ s.stopCh = false then some { s with stopCh := true } else none
  | .stopReturn =>
    if s.stopCh ∧ s.workerDone then some { s with stopReturned := true } else none
  | .takeStop => if s.Selecting ∧ s.stopCh then some { s.flush with stopping := true } else none
  | .receive =>
    if s.Selecting then
      match s.batchQueue with
      | [] => none
      | item :: rest =>
        let s := { s with batchQueue := rest, batch := s.batch ++ [item] }
        if s.batch.length ≥ batchSize then some s.flush else some s
    else none
  | .tick => if s.Selecting then some s.flush else none
  | .work =>
    match s.executing with
    | [] => none
    | e :: rest => some { s with log := s.log ++ [e], executing := rest }
  | .workerReturn => if s.executing = [] ∧ s.stopping then
    some { s with workerDone := true } else none

def worker (s : BatchManager V) : List (Event V) :=
  s.executing ++ executeBatch s.levels (s.batch ++ s.batchQueue)

def total (s : BatchManager V) : List (Event V) := s.log ++ s.worker ++ s.inline

def expected (s : BatchManager V) : List (Event V) := executeBatch s.levels s.scheduled

end BatchManager

def forKey (key : String) (es : List (Event V)) : List (Event V) :=
  es.filter fun e => e.item.key = key

/-- For every key the items scheduled for it were executed, each of them once and one after
another in this order. -/
def BatchManager.AppliedInOrder (s : BatchManager V) : Prop :=
  ∀ key, forKey key s.log = executeBatch s.levels (s.scheduled.filter fun item => item.key = key)

/-- The worker sees the stop with nothing in the queue, and the caller executes nothing while
the worker has something to do for the same key. -/
def BatchManager.Calm (s : BatchManager V) : Step → Prop
  | .takeStop => s.batchQueue = []
  | .inline => ∀ e ∈ s.inline.head?, forKey e.item.key s.worker = []
  | _ => True

section Lists

theorem forKey_append (key : String) (es es' : List (Event V)) :
    forKey key (es ++ es') = forKey key es ++ forKey key es' := List.filter_append _ _

theorem executeBatch_append (levels : List CacheLevel) (items items' : List (BatchItem V)) :
    executeBatch levels (items ++ items') =
      executeBatch levels items ++ executeBatch levels items' :=
  List.flatMap_append

theorem executeBatch_singleton (levels : List CacheLevel) (item : BatchItem V) :
    executeBatch levels [item] = executeItem levels item := by simp [executeBatch]

theorem mem_executeItem {levels : List CacheLevel} {item : BatchItem V} {e : Event V}
    (h : e ∈ executeItem levels item) : e.item = item := by
  simp only [executeItem,List.cons_append,List.mem_cons,List.mem_append,
    List.not_mem_nil,or_false] at h
  obtain rfl | h | rfl := h
  · rfl
  · cases hop : item.op <;> simp only [hop,List.mem_map] at h <;> obtain ⟨level,-,rfl⟩ := h <;> rfl
  · rfl

theorem start_mem_executeBatch (levels : List CacheLevel) {items : List (BatchItem V)}
    {item : BatchItem V} (h : item ∈ items) : ⟨item,.start⟩ ∈ executeBatch levels items :=
  List.mem_flatMap.mpr ⟨item,h,by simp [executeItem]⟩

theorem forKey_executeBatch (levels : List CacheLevel) (items : List (BatchItem V)) (key : String) :
    forKey key (executeBatch levels items) =
      executeBatch levels (items.filter fun item => item.key = key) := by
  induction items with
  | nil => rfl
  | cons item items ih =>
    have hitem : forKey key (executeItem levels item) =
        if item.key = key then executeItem levels item else [] := by
      split
      · rename_i hkey
        exact List.filter_eq_self.mpr fun e he => by simp [mem_executeItem he,hkey]
      · rename_i hkey
        exact List.filter_eq_nil_iff.mpr fun e he => by simp [mem_executeItem he,hkey]
    simp only [executeBatch,List.flatMap_cons] at ih ⊢
    rw [forKey_append,hitem,ih,List.filter_cons]
    by_cases hkey : item.key = key <;> simp [hkey]

end Lists

section Steps
variable {s t : BatchManager V} {a : Step} {key : String}

inductive Stepped (s : BatchManager V) : Step → BatchManager V → Prop where
  | schedule {r : Request V} {rest : List (Request V)} {item : BatchItem V}
    (todo : s.todo = r :: rest)
      (idle : s.inline = []) (no : item.no = s.scheduled.length) :
      Stepped s .schedule ({ s with todo := rest, scheduled := s.scheduled ++ [item] }.put item)
  | inline {e : Event V} {rest : List (Event V)} (inline : s.inline = e :: rest) :
      Stepped s .inline { s with log := s.log ++ [e], inline := rest }
  | stop (todo : s.todo = []) (idle : s.inline = []) : Stepped s .stop { s with stopCh := true }
  | stopReturn (stopCh : s.stopCh = true) (done : s.workerDone = true) :
      Stepped s .stopReturn { s with stopReturned := true }
  | takeStop (selecting : s.Selecting) (stopCh : s.stopCh = true) :
      Stepped s .takeStop { s.flush with stopping := true }
  | receive {item : BatchItem V} {rest : List (BatchItem V)} (selecting : s.Selecting)
      (queue : s.batchQueue = item :: rest) :
      Stepped s .receive { s with batchQueue := rest, batch := s.batch ++ [item] }
  | receiveLast {item : BatchItem V} {rest : List (BatchItem V)} (selecting : s.Selecting)
      (queue : s.batchQueue = item :: rest) :
      Stepped s .receive { s with batchQueue := rest, batch := s.batch ++ [item] }.flush
  | tick (selecting : s.Selecting) : Stepped s .tick s.flush
  | work {e : Event V} {rest : List (Event V)} (executing : s.executing = e :: rest) :
      Stepped s .work { s with log := s.log ++ [e], executing := rest }
  | workerReturn (idle : s.executing = []) (stopping : s.stopping = true) :
      Stepped s .workerReturn { s with workerDone := true }

theorem next_stepped (h : s.next a = some t) : Stepped s a t := by
  cases a with
  | schedule =>
    cases htodo : s.todo with
    | nil => simp [BatchManager.next,htodo] at h
    | cons r rest =>
      simp only [BatchManager.next,htodo,Option.ite_none_right_eq_some,Option.some.injEq] at h
      obtain ⟨hidle,rfl⟩ := h
      exact .schedule htodo hidle rfl
  | inline =>
    cases hinline : s.inline with
    | nil => simp [BatchManager.next,hinline] at h
    | cons e rest =>
      simp only [BatchManager.next,hinline,Option.some.injEq] at h
      subst h
      exact .inline hinline
  | stop =>
    simp only [BatchManager.next,Option.ite_none_right_eq_some,Option.some.injEq] at h
    obtain ⟨⟨htodo,hidle,-⟩,rfl⟩ := h
    exact .stop htodo hidle
  | stopReturn =>
    simp only [BatchManager.next,Option.ite_none_right_eq_some,Option.some.injEq] at h
    obtain ⟨⟨hstop,hdone⟩,rfl⟩ := h
    exact .stopReturn hstop hdone
  | takeStop =>
    simp only [BatchManager.next,Option.ite_none_right_eq_some,Option.some.injEq] at h
    obtain ⟨⟨hsel,hstop⟩,rfl⟩ := h
    exact .takeStop hsel hstop
  | receive =>
    cases hqueue : s.batchQueue with
    | nil => simp [BatchManager.next,hqueue] at h
    | cons item rest =>
      simp only [BatchManager.next,hqueue,Option.ite_none_right_eq_some] at h
      obtain ⟨hsel,h⟩ := h
      split at h
      · cases h
        exact .receiveLast hsel hqueue
      · cases h
        exact .receive hsel hqueue
  | tick =>
    simp only [BatchManager.next,Option.ite_none_right_eq_some,Option.some.injEq] at h
    obtain ⟨hsel,rfl⟩ := h
    exact .tick hsel
  | work =>
    cases hexec : s.executing with
    | nil => simp [BatchManager.next,hexec] at h
    | cons e rest =>
      simp only [BatchManager.next,hexec,Option.some.injEq] at h
      subst h
      exact .work hexec
  | workerReturn =>
    simp only [BatchManager.next,Option.ite_none_right_eq_some,Option.some.injEq] at h
    obtain ⟨⟨hidle,hstop⟩,rfl⟩ := h
    exact .workerReturn hidle hstop

/-- An item that is put somewhere changes nothing but the queue and the caller. -/
theorem put_rest (s : BatchManager V) (item : BatchItem V) :
    (s.put item).levels = s.levels ∧ (s.put item).stopCh = s.stopCh ∧
      (s.put item).stopping = s.stopping ∧
    (s.put item).batch = s.batch ∧ (s.put item).workerDone = s.workerDone ∧
    (s.put item).executing = s.executing ∧ (s.put item).stopReturned = s.stopReturned := by
  unfold BatchManager.put
  split <;> exact ⟨rfl,rfl,rfl,rfl,rfl,rfl,rfl⟩

inductive Moved (s t : BatchManager V) : Step → Prop where
  | quiet {a : Step} (log : t.log = s.log) (worker : t.worker = s.worker)
    (inline : t.inline = s.inline)
      (scheduled : t.scheduled = s.scheduled) : Moved s t a
  | work (e : Event V) (log : t.log = s.log ++ [e]) (worker : s.worker = e :: t.worker)
      (inline : t.inline = s.inline) (scheduled : t.scheduled = s.scheduled) : Moved s t .work
  | inline (e : Event V) (log : t.log = s.log ++ [e]) (worker : t.worker = s.worker)
      (inline : s.inline = e :: t.inline) (scheduled : t.scheduled = s.scheduled) :
        Moved s t .inline
  | schedule (item : BatchItem V) (no : item.no = s.scheduled.length) (log : t.log = s.log)
      (inline : s.inline = []) (scheduled : t.scheduled = s.scheduled ++ [item])
      (put : (t.worker = s.worker ++ executeItem s.levels item ∧ t.inline = []) ∨
        (t.worker = s.worker ∧ t.inline = executeItem s.levels item)) : Moved s t .schedule

theorem flush_worker (h : s.executing = []) : s.flush.worker = s.worker := by
  simp [BatchManager.flush,BatchManager.worker,h,executeBatch_append]

theorem next_levels (h : s.next a = some t) : t.levels = s.levels := by
  cases next_stepped h with
  | schedule => exact (put_rest _ _).1
  | _ => rfl

theorem next_moved (h : s.next a = some t) : Moved s t a := by
  cases next_stepped h with
  | @schedule r rest item htodo hidle hno =>
    by_cases hroom : s.batchQueue.length < batchQueueSize
    · refine .schedule item hno ?_ hidle ?_ (.inl ?_)
      all_goals simp [BatchManager.put,hroom,BatchManager.worker,hidle,executeBatch_append,
        executeBatch_singleton]
    · refine .schedule item hno ?_ hidle ?_ (.inr ?_)
      all_goals simp [BatchManager.put,hroom,BatchManager.worker]
  | inline hinline => exact .inline _ rfl rfl hinline rfl
  | work hexec => exact .work _ rfl (by simp [BatchManager.worker,hexec]) rfl rfl
  | receive hsel hqueue => exact .quiet rfl (by simp [BatchManager.worker,hqueue]) rfl rfl
  | @receiveLast item rest hsel hqueue =>
    have hsame : { s with batchQueue := rest, batch := s.batch ++ [item] }.worker = s.worker := by
      simp [BatchManager.worker,hqueue]
    refine .quiet rfl ((flush_worker ?_).trans hsame) rfl rfl
    exact hsel.1
  | takeStop hsel hstop => exact .quiet rfl (flush_worker hsel.1) rfl rfl
  | tick hsel => exact .quiet rfl (flush_worker hsel.1) rfl rfl
  | stop | stopReturn | workerReturn => exact .quiet rfl rfl rfl rfl

structure Control (s : BatchManager V) : Prop where
  caller : s.stopCh = true → s.todo = [] ∧ s.inline = []
  stopping : s.stopping = true → s.stopCh = true ∧ s.batch = []
  workerDone : s.workerDone = true → s.stopping = true ∧ s.executing = []
  returned : s.stopReturned = true → s.stopCh = true ∧ s.workerDone = true

theorem control_new (levels : List CacheLevel) (requests : List (Request V)) :
    Control (newBatchManager levels requests) := by
  constructor <;> simp [newBatchManager]

/-- A worker at its `select` has not returned. -/
theorem Control.running (hc : Control s) (hsel : s.Selecting) : s.workerDone ≠ true :=
    fun hdone => by
  have hstopping := (hc.workerDone hdone).1
  simp [hsel.2] at hstopping

theorem Control.next (hc : Control s) (h : s.next a = some t) : Control t := by
  have hcaller := hc.caller
  have hstopping := hc.stopping
  have hdone := hc.workerDone
  have hreturned := hc.returned
  cases next_stepped h with
  | schedule htodo hidle =>
    obtain ⟨-,hstopCh,hstopping',hbatch,hworkerDone,hexec,hreturned'⟩ := put_rest
      { s with todo := _, scheduled := _ } _
    refine ⟨fun hstop => ?_,?_,?_,?_⟩
    · rw [hstopCh] at hstop
      have hnil := (hcaller hstop).1
      simp [htodo] at hnil
    · rwa [hstopping',hstopCh,hbatch]
    · rwa [hworkerDone,hstopping',hexec]
    · rwa [hreturned',hstopCh,hworkerDone]
  | inline hinline =>
    refine ⟨fun hstop => ?_,hstopping,hdone,hreturned⟩
    have hnil := (hcaller hstop).2
    simp [hinline] at hnil
  | work hexec =>
    refine ⟨hcaller,hstopping,fun hd => ?_,hreturned⟩
    have hnil := (hdone hd).2
    simp [hexec] at hnil
  | receive hsel | receiveLast hsel | tick hsel =>
    have hundone := hc.running hsel
    exact ⟨hcaller,fun hstop => absurd hstop (by simp [BatchManager.flush,hsel.2]),
      fun hd => absurd hd hundone,hreturned⟩
  | takeStop hsel hstop =>
    have hundone := hc.running hsel
    exact ⟨hcaller,fun _ => ⟨hstop,rfl⟩,fun hd => absurd hd hundone,hreturned⟩
  | stop htodo hidle =>
    exact ⟨fun _ => ⟨htodo,hidle⟩,fun hs => ⟨rfl,(hstopping hs).2⟩,hdone,
      fun hr => ⟨rfl,(hreturned hr).2⟩⟩
  | stopReturn hstop hd => exact ⟨hcaller,hstopping,hdone,fun _ => ⟨hstop,hd⟩⟩
  | workerReturn hidle hs =>
    exact ⟨hcaller,hstopping,fun _ => ⟨hs,hidle⟩,fun hr => ⟨(hreturned hr).1,rfl⟩⟩

structure Balanced (s : BatchManager V) : Prop where
  control : Control s
  balance : s.total.Perm s.expected
  earlier : ∀ e ∈ s.inline, ∀ w ∈ s.worker, w.item.no < e.item.no
  bound : ∀ w ∈ s.worker, w.item.no < s.scheduled.length

theorem balanced_new (levels : List CacheLevel) (requests : List (Request V)) :
    Balanced (newBatchManager levels requests) where
  control := control_new levels requests
  balance := .refl _
  earlier := by simp [newBatchManager]
  bound := by simp [newBatchManager,BatchManager.worker,executeBatch]

theorem expected_eq (hlevels : t.levels = s.levels) (hscheduled : t.scheduled = s.scheduled) :
    t.expected = s.expected := by rw [BatchManager.expected,hlevels,hscheduled]; rfl

theorem expected_concat {item : BatchItem V} (hlevels : t.levels = s.levels)
    (hscheduled : t.scheduled = s.scheduled ++ [item]) :
    t.expected = s.expected ++ executeItem s.levels item := by
  rw [BatchManager.expected,hlevels,hscheduled,executeBatch_append,executeBatch_singleton]
  rfl

theorem Balanced.next (hb : Balanced s) (h : s.next a = some t) : Balanced t := by
  have hcontrol := hb.control.next h
  have hlevels := next_levels h
  obtain ⟨-,hbalance,hearlier,hbound⟩ := hb
  cases next_moved h with
  | quiet hlog hworker hinline hscheduled =>
    refine ⟨hcontrol,?_,by rwa [hinline,hworker],by rwa [hworker,hscheduled]⟩
    rwa [BatchManager.total,hlog,hworker,hinline,expected_eq hlevels hscheduled]
  | work e hlog hworker hinline hscheduled =>
    rw [hworker] at hearlier hbound
    refine ⟨hcontrol,?_,?_,?_⟩
    · rw [expected_eq hlevels hscheduled]
      simpa [BatchManager.total,hlog,hworker,hinline] using hbalance
    · rw [hinline]
      exact fun e' he' w hw => hearlier e' he' w (List.mem_cons_of_mem _ hw)
    · rw [hscheduled]
      exact fun w hw => hbound w (List.mem_cons_of_mem _ hw)
  | inline e hlog hworker hinline hscheduled =>
    rw [hinline] at hearlier
    refine ⟨hcontrol,?_,?_,by rwa [hworker,hscheduled]⟩
    · rw [expected_eq hlevels hscheduled]
      refine List.Perm.trans ?_ hbalance
      simp only [BatchManager.total,hlog,hworker,hinline,List.append_assoc,List.singleton_append]
      exact List.Perm.append_left _ List.perm_middle.symm
    · rw [hworker]
      exact fun e' he' => hearlier e' (List.mem_cons_of_mem _ he')
  | schedule item hno hlog hinline hscheduled hput =>
    have hlen : t.scheduled.length = s.scheduled.length+1 := by simp [hscheduled]
    rw [BatchManager.total,hinline,List.append_nil] at hbalance
    obtain ⟨hworker,htinline⟩ | ⟨hworker,htinline⟩ := hput
    · refine ⟨hcontrol,?_,by simp [htinline],fun w hw => ?_⟩
      · rw [expected_concat hlevels hscheduled,BatchManager.total,hlog,hworker,
          htinline,List.append_nil,
          ← List.append_assoc]
        exact hbalance.append_right _
      · rw [hworker] at hw
        obtain hw | hw := List.mem_append.mp hw
        · have hlt := hbound w hw
          omega
        · rw [mem_executeItem hw,hno]
          omega
    · refine ⟨hcontrol,?_,fun e he w hw => ?_,fun w hw => ?_⟩
      · rw [expected_concat hlevels hscheduled,BatchManager.total,hlog,hworker,htinline]
        exact hbalance.append_right _
      · rw [htinline] at he
        rw [hworker] at hw
        rw [mem_executeItem he,hno]
        exact hbound w hw
      · rw [hworker] at hw
        have hlt := hbound w hw
        omega

/-- For every key things are done in the order of the items, and no item is left in the
queue. -/
structure InOrder (s : BatchManager V) : Prop where
  balanced : Balanced s
  order : ∀ key, forKey key s.total = forKey key s.expected
  kept : s.stopping = true → s.batchQueue = []

/-- For some key things have been done in another order, or an item is left in the queue. -/
structure Spoilt (s : BatchManager V) : Prop where
  balanced : Balanced s
  spoilt : (∃ key, ¬ forKey key s.log <+: forKey key s.expected) ∨
    (s.stopping = true ∧ s.batchQueue ≠ [])

theorem next_queue (hc : Control s) (h : s.next a = some t) (hstop : s.stopping = true) :
    t.stopping = true ∧ t.batchQueue = s.batchQueue := by
  cases next_stepped h with
  | schedule htodo =>
    have hnil := (hc.caller (hc.stopping hstop).1).1
    simp [htodo] at hnil
  | receive hsel | receiveLast hsel | takeStop hsel | tick hsel => simp [hsel.2] at hstop
  | inline | work | stop | stopReturn | workerReturn => exact ⟨hstop,rfl⟩

theorem next_stopping (h : s.next a = some t) (hopen : s.stopping = false)
    (hstop : t.stopping = true) :
    a = .takeStop ∧ t.batchQueue = s.batchQueue := by
  cases next_stepped h with
  | schedule htodo =>
    rw [(put_rest _ _).2.2.1] at hstop
    simp [hopen] at hstop
  | takeStop => exact ⟨rfl,rfl⟩
  | _ => simp [BatchManager.flush,hopen] at hstop

theorem inOrder_new (levels : List CacheLevel) (requests : List (Request V)) :
    InOrder (newBatchManager levels requests) where
  balanced := balanced_new levels requests
  order _ := rfl
  kept := by simp [newBatchManager]

theorem InOrder.next (ho : InOrder s) (hcalm : s.Calm a) (h : s.next a = some t) : InOrder t := by
  have hlevels := next_levels h
  refine ⟨ho.balanced.next h,fun key => ?_,fun hstop => ?_⟩
  · have horder := ho.order key
    cases next_moved h with
    | quiet hlog hworker hinline hscheduled =>
      rwa [BatchManager.total,hlog,hworker,hinline,expected_eq hlevels hscheduled]
    | work e hlog hworker hinline hscheduled =>
      rw [expected_eq hlevels hscheduled,← horder]
      simp [BatchManager.total,hlog,hworker,hinline]
    | inline e hlog hworker hinline hscheduled =>
      have hfree : forKey e.item.key s.worker = [] := hcalm e (by simp [hinline])
      rw [expected_eq hlevels hscheduled,← horder]
      simp only [BatchManager.total,hlog,hworker,hinline,forKey_append]
      by_cases hkey : e.item.key = key
      · subst hkey
        rw [hfree]
        simp [forKey]
      · simp [forKey,hkey]
    | schedule item hno hlog hinline hscheduled hput =>
      rw [BatchManager.total,hinline,List.append_nil] at horder
      rw [expected_concat hlevels hscheduled,forKey_append,← horder]
      obtain ⟨hworker,htinline⟩ | ⟨hworker,htinline⟩ := hput <;>
        simp [BatchManager.total,hlog,hworker,htinline,forKey_append]
  · cases hopen : s.stopping with
    | true => rw [(next_queue ho.balanced.control h hopen).2,ho.kept hopen]
    | false =>
      obtain ⟨rfl,hqueue⟩ := next_stopping h hopen hstop
      rw [hqueue]
      exact hcalm

theorem InOrder.spoil (ho : InOrder s) (hcalm : ¬ s.Calm a) (h : s.next a = some t) : Spoilt t := by
  refine ⟨ho.balanced.next h,?_⟩
  cases a with
  | takeStop =>
    cases next_stepped h
    exact .inr ⟨rfl,hcalm⟩
  | inline =>
    have hlevels := next_levels h
    cases next_moved h with
    | quiet hlog hworker hinline hscheduled =>
      -- the log of the caller's step grows
      cases next_stepped h
      simp at hlog
    | inline e hlog hworker hinline hscheduled =>
      have hbusy : forKey e.item.key s.worker ≠ [] := by
        simpa [BatchManager.Calm,hinline] using hcalm
      refine .inl ⟨e.item.key,fun hstart => ?_⟩
      rw [hlog,expected_eq hlevels hscheduled,← ho.order] at hstart
      simp only [BatchManager.total,forKey_append,List.append_assoc,
        List.prefix_append_right_inj] at hstart
      obtain ⟨w,rest,hw⟩ := List.exists_cons_of_ne_nil hbusy
      have hmem : w ∈ s.worker := List.mem_of_mem_filter (hw ▸ List.mem_cons_self)
      have hlt := ho.balanced.earlier e (by simp [hinline]) w hmem
      have hfirst : forKey e.item.key [e] = [e] := by simp [forKey]
      rw [hfirst,hw,List.cons_append,List.cons_prefix_cons] at hstart
      exact absurd hlt (by simp [hstart.1])
  | schedule | stop | stopReturn | receive | tick | work | workerReturn =>
    exact absurd trivial hcalm

theorem next_grows (h : s.next a = some t) : s.log <+: t.log ∧ s.expected <+: t.expected := by
  have hlevels := next_levels h
  cases next_moved h with
  | quiet hlog _ _ hscheduled => exact ⟨by rw [hlog],by rw [expected_eq hlevels hscheduled]⟩
  | work e hlog _ _ hscheduled =>
    exact ⟨by rw [hlog]; exact List.prefix_append _ _,by rw [expected_eq hlevels hscheduled]⟩
  | inline e hlog _ _ hscheduled =>
    exact ⟨by rw [hlog]; exact List.prefix_append _ _,by rw [expected_eq hlevels hscheduled]⟩
  | schedule item _ hlog _ hscheduled _ =>
    exact ⟨by rw [hlog],by rw [expected_concat hlevels hscheduled]; exact List.prefix_append _ _⟩

theorem Balanced.forKey_log_length_le (hb : Balanced s) (key : String) :
    (forKey key s.log).length ≤ (forKey key s.expected).length := by
  have hlen := (hb.balance.filter fun e => e.item.key = key).length_eq
  simp only [BatchManager.total,List.filter_append,List.length_append] at hlen
  simp only [forKey]
  omega

theorem Spoilt.next (hs : Spoilt s) (h : s.next a = some t) : Spoilt t := by
  refine ⟨hs.balanced.next h,?_⟩
  obtain ⟨key,hnot⟩ | ⟨hstop,hqueue⟩ := hs.spoilt
  · refine .inl ⟨key,fun hstart => hnot ?_⟩
    obtain ⟨hlog,hexpected⟩ := next_grows h
    exact List.prefix_of_prefix_length_le ((hlog.filter _).trans hstart) (hexpected.filter _)
      (hs.balanced.forKey_log_length_le key)
  · obtain ⟨htstop,htqueue⟩ := next_queue hs.balanced.control h hstop
    exact .inr ⟨htstop,htqueue ▸ hqueue⟩

/-- When `Stop` has returned only the queue can hold something. -/
theorem Control.worker_eq (hc : Control s) (hreturned : s.stopReturned = true) :
    s.stopping = true ∧ s.inline = [] ∧ s.worker = executeBatch s.levels s.batchQueue := by
  obtain ⟨hstop,hdone⟩ := hc.returned hreturned
  obtain ⟨hstopping,hexec⟩ := hc.workerDone hdone
  refine ⟨hstopping,(hc.caller hstop).2,?_⟩
  simp [BatchManager.worker,hexec,(hc.stopping hstopping).2]

theorem InOrder.applied (ho : InOrder s) (hreturned : s.stopReturned = true) :
    s.AppliedInOrder := by
  obtain ⟨hstop,hinline,hworker⟩ := ho.balanced.control.worker_eq hreturned
  intro key
  have horder := ho.order key
  rw [BatchManager.total,hinline,hworker,ho.kept hstop] at horder
  have hdone : forKey key s.log = forKey key s.expected := by simpa [executeBatch] using horder
  exact hdone.trans (forKey_executeBatch _ _ key)

theorem Spoilt.not_applied (hs : Spoilt s) (hreturned : s.stopReturned = true) :
    ¬ s.AppliedInOrder := by
  obtain ⟨-,hinline,hworker⟩ := hs.balanced.control.worker_eq hreturned
  intro happlied
  have hsame : ∀ key, forKey key s.log = forKey key s.expected := fun key =>
    (happlied key).trans (forKey_executeBatch _ _ _).symm
  obtain ⟨key,hnot⟩ | ⟨-,hqueue⟩ := hs.spoilt
  · exact hnot (by rw [hsame key])
  · obtain ⟨item,rest,hitem⟩ := List.exists_cons_of_ne_nil hqueue
    have hstart : (⟨item,.start⟩ : Event V) ∈ forKey item.key s.worker := by
      rw [hworker]
      exact List.mem_filter.mpr ⟨start_mem_executeBatch _ (by simp [hitem]),by simp⟩
    have hpos := List.length_pos_of_mem hstart
    have hlen := (hs.balanced.balance.filter fun e => e.item.key = item.key).length_eq
    simp only [BatchManager.total,List.filter_append,List.length_append] at hlen
    have hkey := congrArg List.length (hsame item.key)
    simp only [forKey] at hpos hkey
    omega

end Steps

/-- When `Stop` has returned, every item was executed once and the items for a key in order,
exactly if the worker saw the stop with nothing in the queue and the caller executed nothing
while the worker had something to do for the same key. -/
theorem applied_iff_calm (levels : List CacheLevel) (requests : List (Request V))
    {steps : List Step} {s : BatchManager V}
    (run : steps.foldlM BatchManager.next (newBatchManager levels requests) = some s)
    (hreturned : s.stopReturned = true) :
    s.AppliedInOrder ↔ Met BatchManager.next BatchManager.Calm
      (newBatchManager levels requests) steps := by
  obtain ⟨hmet,ho⟩ | ⟨hmet,hs⟩ := met_dichotomy (I := InOrder) (D := Spoilt)
    (inOrder_new levels requests) (fun _ _ _ ho hcalm h => ho.next hcalm h)
    (fun _ _ _ ho hcalm h => ho.spoil hcalm h) (fun _ _ _ hs h => hs.next h) run
  · exact iff_of_true (ho.applied hreturned) hmet
  · exact iff_of_false (hs.not_applied hreturned) hmet

section Instance

/-- One write, and its item. -/
def oneWrite : Request Nat := ⟨"k",some 1,10,.set⟩

def oneItem : BatchItem Nat := { oneWrite with no := 0 }

/-- The worker takes the item before the stop. -/
def unhurried : List Step :=
  [.schedule,.receive,.stop,.takeStop,.work,.work,.work,.work,.workerReturn,.stopReturn]

def hurried : List Step := [.schedule,.stop,.takeStop,.workerReturn,.stopReturn]

theorem applied_unhurried : ∃ s, unhurried.foldlM BatchManager.next
    (newBatchManager [.l2,.l3] [oneWrite]) = some s ∧
    (s.AppliedInOrder ↔
      Met BatchManager.next BatchManager.Calm (newBatchManager [.l2,.l3] [oneWrite]) unhurried) ∧
    s.log = [⟨oneItem,.start⟩,⟨oneItem,.set .l2⟩,⟨oneItem,.set .l3⟩,⟨oneItem,.finish⟩] :=
  ⟨_,rfl,applied_iff_calm [.l2,.l3] [oneWrite] rfl rfl,rfl⟩

/-- When `Stop` has returned nothing was executed of the write that was scheduled. -/
theorem hurried_lost : ∃ s, hurried.foldlM BatchManager.next
    (newBatchManager [.l2,.l3] [oneWrite]) = some s ∧ s.stopReturned = true ∧
    s.scheduled = [oneItem] ∧ s.log = [] ∧ ¬ s.AppliedInOrder := by
  refine ⟨_,rfl,rfl,rfl,rfl,fun happlied => ?_⟩
  exact absurd (happlied "k") (by decide)

end Instance

end Imy.Cache.Batch
