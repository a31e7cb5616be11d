import Imy.Lib.Transition
import Imy.Registry.Registry
set_option autoImplicit false

/-!
The store manager of `pkg/storage/discovery.go`: it watches the registry, loads the stores
that are there and then handles the events one by one, while others use the registry.
-/

namespace Imy.Registry
open Imy.Lib

/-- Where the goroutine that calls `Start` and the one of `handleEvents` after it stand. -/
inductive ManagerStage where
  | created
  /-- the watcher is started -/
  | watching
  /-- in the loop of `loadStores` -/
  | loading (rest : List Nat)
  /-- at the `range` over the events; `Start` has returned -/
  | receiving
  | handling (event : StoreEvent)
  deriving DecidableEq, Repr

structure StoreManager where
  stores : StoreMap
  /-- the number of the channel among those of the registry's watchers -/
  eventCh : Option Nat
  stage : ManagerStage

structure System where
  registry : InMemoryRegistry
  manager : StoreManager

def newSystem (objects : Nat → Router.StoreInfo) : System :=
  ⟨newInMemoryRegistry objects,⟨∅,none,.created⟩⟩

inductive SystemOp where
  | registry (op : RegistryOp)
  | otherWatch
  | otherReceive (channel : Nat)
  | watch
  /-- `ListStores` in `loadStores` -/
  | list (order : List String)
  /-- one round of the loop of `loadStores`, or its end -/
  | load
  | receive
  | handle
  deriving DecidableEq, Repr

def receiveFrom (channel : Nat) (r : InMemoryRegistry) : Option (StoreEvent × InMemoryRegistry) :=
  match r.watchers[channel]? with
  | some (event :: waiting) => some (event,{ r with watchers := r.watchers.set channel waiting })
  | _ => none

def handleEvent (event : StoreEvent) (s : System) : System :=
  let sent := s.registry.objects event.store
  match event.type with
  | .register =>
    { s with manager := { s.manager with stores := s.manager.stores.insert sent.id event.store } }
  | .unregister => { s with manager := { s.manager with stores := s.manager.stores.erase sent.id } }
  | .heartbeat =>
    match s.manager.stores.lookup sent.id with
    | none => s
    | some store =>
      { s with
        registry := s.registry.setObject store
          { s.registry.objects store with lastSeen := sent.lastSeen, status := sent.status } }
  | .unhealthy =>
    match s.manager.stores.lookup sent.id with
    | none => s
    | some store =>
      { s with registry :=
        s.registry.setObject store { s.registry.objects store with status := "unhealthy" } }

def System.at (s : System) (stage : ManagerStage) : System :=
  { s with manager := { s.manager with stage := stage } }

/-- One step, where it is possible. -/
def System.next (s : System) : SystemOp → Option System
  | .registry op => (op.exec s.registry).map fun r => { s with registry := r }
  | .otherWatch => some { s with registry := Registry.watch s.registry }
  | .otherReceive channel =>
    if s.manager.eventCh = some channel then none
    else (receiveFrom channel s.registry).map fun (_,r) => { s with registry := r }
  | .watch =>
    if s.manager.stage = .created then
      some ⟨Registry.watch s.registry,⟨s.manager.stores,some s.registry.watchers.length,.watching⟩⟩
    else none
  | .list order =>
    if s.manager.stage = .watching ∧ order.Perm s.registry.stores.keys then
      some (s.at (.loading (listStores order s.registry)))
    else none
  | .load =>
    match s.manager.stage with
    | .loading [] => some (s.at .receiving)
    | .loading (store :: rest) =>
      some { s with
        manager := { s.manager with
          stores := s.manager.stores.insert (s.registry.objects store).id store
          stage := .loading rest } }
    | _ => none
  | .receive =>
    if s.manager.stage = .receiving then
      match s.manager.eventCh.bind fun channel => receiveFrom channel s.registry with
      | some (event,r) => some (System.at { s with registry := r } (.handling event))
      | none => none
    else none
  | .handle =>
    match s.manager.stage with
    | .handling event => some ((handleEvent event s).at .receiving)
    | _ => none

/-- The events that wait in the manager's channel. -/
def System.waiting (s : System) : Option (List StoreEvent) :=
  s.manager.eventCh.bind fun channel => s.registry.watchers[channel]?

/-- `Start` has returned, the channel is empty and no event is being handled. -/
def Quiet (s : System) : Prop := s.manager.stage = .receiving ∧ s.waiting = some []

def FollowsRegistry (s : System) : Prop := ∀ id, id ∈ s.manager.stores ↔ id ∈ s.registry.stores

/-- The manager's channel exists and has room. -/
def HasRoom (s : System) : Prop := ∃ waiting, s.waiting = some waiting ∧ waiting.length < watchSize

instance (s : System) : Decidable (HasRoom s) :=
  match h : s.waiting with
  | none => isFalse (by rintro ⟨_,hw,-⟩; cases h.symm.trans hw)
  | some waiting =>
    if hlen : waiting.length < watchSize then isTrue ⟨waiting,h,hlen⟩
    else isFalse (by rintro ⟨_,hw,hroom⟩; cases h.symm.trans hw; exact hlen hroom)

/-- What the manager was last told of each ID: whether it is in the registry. -/
abbrev Told := String → Option Bool

def RegistryOp.reports (r : InMemoryRegistry) : RegistryOp → Option (String × Bool)
  | .register info _ => some ((r.objects info).id,true)
  | .unregister storeID => if storeID ∈ r.stores then some (storeID,false) else none
  | _ => none

/-- It is heard if the event finds room; the list of the stores tells the manager of the
IDs of which it has heard nothing else. -/
def hear (s : System) (told : Told) : SystemOp → Told
  | .registry op =>
    match op.reports s.registry with
    | some (id,there) => if HasRoom s then Function.update told id (some there) else told
    | none => told
  | .list _ => fun id => some ((told id).getD (id ∈ s.registry.stores))
  | _ => told

def nextHearing (s : System × Told) (op : SystemOp) : Option (System × Told) :=
  (s.1.next op).map fun s' => (s',hear s.1 s.2 op)

def runSystem (objects : Nat → Router.StoreInfo) (ops : List SystemOp) : Option (System × Told) :=
  ops.foldlM nextHearing (newSystem objects,fun _ => none)

/-- What was last heard is so. -/
def HeardRight (s : System) (told : Told) : Prop :=
  ∀ id, told id = some (decide (id ∈ s.registry.stores))

def Loses (s : System) (op : SystemOp) : Prop :=
  ∃ op', op = .registry op' ∧ (op'.reports s.registry).isSome ∧
    s.manager.eventCh.isSome ∧ ¬ HasRoom s

def NothingLost (objects : Nat → Router.StoreInfo) (ops : List SystemOp) : Prop :=
  ∀ before op after s told, ops = before ++ op :: after →
    runSystem objects before = some (s,told) → ¬ Loses s op

def System.idOf (s : System) (p : Nat) : String := (s.registry.objects p).id

def tells (idOf : Nat → String) (id : String) (known : Option Bool) (event : StoreEvent) :
    Option Bool :=
  match event.type with
  | .register => if idOf event.store = id then some true else known
  | .unregister => if idOf event.store = id then some false else known
  | _ => known

/-- The event that was taken from the channel and is not handled yet. -/
def ManagerStage.pending : ManagerStage → List StoreEvent
  | .handling event => [event]
  | _ => []

def System.known (s : System) (id : String) : Option Bool :=
  match s.manager.stage with
  | .created => none
  | .watching => none
  | .loading rest => some (decide (id ∈ s.manager.stores ∨ id ∈ rest.map s.idOf))
  | _ => some (decide (id ∈ s.manager.stores))

section Events
variable {idOf : Nat → String} {id : String} {known : Option Bool}

theorem tells_silent {event : StoreEvent} (hregister : event.type ≠ .register)
    (hunregister : event.type ≠ .unregister) : tells idOf id known event = known := by
  cases htype : event.type with
  | register => exact (hregister htype).elim
  | unregister => exact (hunregister htype).elim
  | heartbeat => rw [tells,htype]
  | unhealthy => rw [tells,htype]

theorem tells_foldl_offer (event : StoreEvent) (waiting : List StoreEvent) :
    (offer event waiting).foldl (tells idOf id) known =
      if waiting.length < watchSize then tells idOf id (waiting.foldl (tells idOf id) known) event
      else waiting.foldl (tells idOf id) known := by
  unfold offer
  split
  · simp
  · rfl

theorem tells_foldl_offers {events : List StoreEvent} (h : ∀ e ∈ events, e.type ≠ .register ∧
    e.type ≠ .unregister)
    (waiting : List StoreEvent) :
    (events.foldl (fun w e => offer e w) waiting).foldl (tells idOf id) known =
      waiting.foldl (tells idOf id) known := by
  induction events generalizing waiting with
  | nil => rfl
  | cons event events ih =>
    rw [List.foldl_cons,ih (fun e he => h e (List.mem_cons_of_mem _ he)),tells_foldl_offer]
    obtain ⟨hregister,hunregister⟩ := h event (List.mem_cons_self ..)
    rw [tells_silent hregister hunregister,ite_self]

theorem tells_foldl_some (b : Bool) (events : List StoreEvent) :
    events.foldl (tells idOf id) (some (known.getD b)) =
      some ((events.foldl (tells idOf id) known).getD b) := by
  induction events generalizing known with
  | nil => rfl
  | cons event events ih =>
    rw [List.foldl_cons,List.foldl_cons,← ih]
    congr 1
    unfold tells
    split
    · split <;> rfl
    · split <;> rfl
    · rfl

end Events

section Says
variable {r r' : InMemoryRegistry} {op : RegistryOp}

/-- An operation that tells something sends one event, which says the same. -/
theorem exec_reports (hk : Keyed r) (h : op.exec r = some r') :
    (op.reports r = none ∧ r'.stores = r.stores ∧ ∃ events, Changed r r' events ∧
      ∀ e ∈ events, e.type ≠ .register ∧ e.type ≠ .unregister) ∨
    ∃ id there, op.reports r = some (id,there) ∧
      (∀ id', id' ∈ r'.stores ↔ if id' = id then there = true else id' ∈ r.stores) ∧
      ∃ event, Changed r r' [event] ∧ ∀ id' known,
        tells (fun p => (r.objects p).id) id' known event =
        if id' = id then some there else known := by
  obtain ⟨info,now,rfl,hstores,-,hc⟩ | ⟨storeID,store,rfl,hfound,hstores,hc⟩ |
      ⟨events,hsilent,hstores,hc,hregister,hunregister⟩ := exec_cases h
  · refine Or.inr ⟨_,true,rfl,fun id' => ?_,_,hc,fun id' known => ?_⟩
    · rw [hstores,AList.mem_insert]
      split <;> simp_all
    · simp only [tells,eq_comm]
  · have hin : storeID ∈ r.stores := AList.lookup_isSome.mp (by rw [hfound]; rfl)
    refine Or.inr ⟨storeID,false,by rw [RegistryOp.reports,if_pos hin],fun id' => ?_,_,hc,
      fun id' known => ?_⟩
    · rw [hstores,AList.mem_erase]
      split <;> simp_all
    · simp only [tells,hk storeID store hfound,eq_comm]
  · refine Or.inl ⟨?_,hstores,events,hc,hsilent⟩
    cases op with
    | register info now => exact (hregister info now rfl).elim
    | unregister storeID => rw [RegistryOp.reports,if_neg (hunregister storeID rfl)]
    | updateHeartbeat storeID now => rfl
    | checkUnhealthyStores now order => rfl

end Says

section Invariant
variable {s s' : System} {told : Told}

def Awaits (s : System) (told : Told) : Prop :=
  ∃ waiting, s.waiting = some waiting ∧
    ∀ id, told id = (s.manager.stage.pending ++ waiting).foldl (tells s.idOf id) (s.known id)

structure Hears (s : System) (told : Told) : Prop where
  keyed : Keyed s.registry
  created : s.manager.stage = .created → s.manager.eventCh = none ∧ told = fun _ => none
  empty : s.manager.stage = .created ∨ s.manager.stage = .watching → s.manager.stores = ∅
  awaits : s.manager.stage ≠ .created → Awaits s told

theorem hears_new (objects : Nat → Router.StoreInfo) : Hears (newSystem objects) fun _ => none where
  keyed := keyed_new objects
  created _ := ⟨rfl,rfl⟩
  empty _ := rfl
  awaits h := (h rfl).elim

theorem Hears.quiet (h : Hears s told) (hquiet : Quiet s) (id : String) :
    told id = some (decide (id ∈ s.manager.stores)) := by
  obtain ⟨waiting,hwaiting,htold⟩ := h.awaits (by rw [hquiet.1]; simp)
  obtain rfl := Option.some.inj (hquiet.2.symm.trans hwaiting)
  rw [htold,System.known,hquiet.1]
  rfl

theorem Hears.follows_iff (h : Hears s told) (hquiet : Quiet s) :
    FollowsRegistry s ↔ HeardRight s told := by
  unfold FollowsRegistry HeardRight
  refine forall_congr' fun id => ?_
  rw [h.quiet hquiet id,Option.some.injEq,decide_eq_decide]

theorem waiting_changed {r : InMemoryRegistry} {events : List StoreEvent}
    (hc : Changed s.registry r events)
    {waiting : List StoreEvent} (hwaiting : s.waiting = some waiting) :
    System.waiting { s with registry := r } =
      some (events.foldl (fun w e => offer e w) waiting) := by
  obtain ⟨channel,hch,hw⟩ := Option.bind_eq_some_iff.mp hwaiting
  simp only [System.waiting,hch,Option.bind_some,hc.watchers,List.getElem?_map,hw,Option.map_some]

theorem idOf_changed {r : InMemoryRegistry} {events : List StoreEvent}
    (hc : Changed s.registry r events) :
    System.idOf { s with registry := r } = s.idOf := funext hc.id

theorem known_registry {r : InMemoryRegistry}
    (hid : System.idOf { s with registry := r } = s.idOf) :
    System.known { s with registry := r } = s.known := by
  funext id
  simp only [System.known,hid]

theorem hasRoom_iff {waiting : List StoreEvent} (hwaiting : s.waiting = some waiting) :
    HasRoom s ↔ waiting.length < watchSize := by
  constructor
  · rintro ⟨_,hw,hlen⟩
    rwa [Option.some.inj (hwaiting.symm.trans hw)]
  · exact fun hlen => ⟨waiting,hwaiting,hlen⟩

theorem Awaits.exec (h : Awaits s told) (hk : Keyed s.registry) {op : RegistryOp}
    {r : InMemoryRegistry}
    (hexec : op.exec s.registry = some r) :
    Awaits { s with registry := r } (hear s told (.registry op)) := by
  obtain ⟨waiting,hwaiting,htold⟩ := h
  obtain ⟨hreport,-,events,hc,hsilent⟩ | ⟨id,there,hreport,-,event,hc,htells⟩ :=
    exec_reports hk hexec
  · refine ⟨_,waiting_changed hc hwaiting,fun id => ?_⟩
    rw [idOf_changed hc,known_registry (idOf_changed hc),List.foldl_append,
      tells_foldl_offers hsilent,
      ← List.foldl_append,← htold id]
    simp only [hear,hreport]
  · refine ⟨_,waiting_changed hc hwaiting,fun id' => ?_⟩
    rw [idOf_changed hc,known_registry (idOf_changed hc),List.foldl_append,
      List.foldl_cons,List.foldl_nil,
      tells_foldl_offer,← List.foldl_append,← htold id']
    simp only [hear,hreport,hasRoom_iff hwaiting]
    split
    · exact ((htells id' (told id')).trans (by simp only [Function.update_apply])).symm
    · rfl

theorem hear_created (hch : s.manager.eventCh = none) (htold : told = fun _ => none)
    (op : RegistryOp) :
    hear s told (.registry op) = fun _ => none := by
  have hroom : ¬ HasRoom s := by
    rintro ⟨waiting,hwaiting,-⟩
    rw [System.waiting,hch] at hwaiting
    cases hwaiting
  unfold hear
  dsimp only
  split
  · rw [if_neg hroom,htold]
  · exact htold

theorem Awaits.same (h : Awaits s told) {s' : System} (hwaiting : s'.waiting = s.waiting)
    (hpending : s'.manager.stage.pending = s.manager.stage.pending) (hid : s'.idOf = s.idOf)
    (hknown : s'.known = s.known) : Awaits s' told := by
  obtain ⟨waiting,hw,htold⟩ := h
  exact ⟨waiting,hwaiting.trans hw,by rw [hpending,hid,hknown]; exact htold⟩

theorem receiveFrom_cases {channel : Nat} {r r' : InMemoryRegistry} {event : StoreEvent}
    (h : receiveFrom channel r = some (event,r')) :
    ∃ waiting, r.watchers[channel]? = some (event :: waiting) ∧
      r' = { r with watchers := r.watchers.set channel waiting } := by
  unfold receiveFrom at h
  split at h
  · rename_i e waiting hw
    obtain ⟨rfl,rfl⟩ := Prod.mk.inj (Option.some.inj h)
    exact ⟨waiting,hw,rfl⟩
  · cases h

theorem mem_listStores_id (hk : Keyed s.registry) {order : List String}
    (horder : order.Perm s.registry.stores.keys)
    (id : String) : id ∈ (listStores order s.registry).map s.idOf ↔ id ∈ s.registry.stores := by
  rw [List.mem_map]
  constructor
  · rintro ⟨p,hp,rfl⟩
    obtain ⟨id,-,hlookup⟩ := List.mem_filterMap.mp hp
    rw [System.idOf,hk id p hlookup]
    exact AList.lookup_isSome.mp (by rw [hlookup]; rfl)
  · intro hin
    obtain ⟨p,hp⟩ := Option.isSome_iff_exists.mp (AList.lookup_isSome.mpr hin)
    exact ⟨p,List.mem_filterMap.mpr ⟨id,horder.mem_iff.mpr (AList.mem_keys.mp hin),hp⟩,hk id p hp⟩

/-- A heartbeat and the mark of an unhealthy store write to an object at most. -/
theorem handleEvent_mark {event : StoreEvent} (h : event.type = .heartbeat ∨
    event.type = .unhealthy) (s : System) :
    handleEvent event s = s ∨ ∃ p info,
      handleEvent event s = { s with registry := s.registry.setObject p info } ∧
      info.id = (s.registry.objects p).id := by
  unfold handleEvent
  rcases h with h | h
  · rw [h]
    dsimp only
    split
    · exact Or.inl rfl
    · exact Or.inr ⟨_,_,rfl,rfl⟩
  · rw [h]
    dsimp only
    split
    · exact Or.inl rfl
    · exact Or.inr ⟨_,_,rfl,rfl⟩

structure Handled (event : StoreEvent) (s s' : System) : Prop where
  stores : s'.registry.stores = s.registry.stores
  waiting : s'.waiting = s.waiting
  idOf : s'.idOf = s.idOf
  mem : ∀ id, some (decide (id ∈ s'.manager.stores)) =
    tells s.idOf id (some (decide (id ∈ s.manager.stores))) event

theorem handleEvent_handled (event : StoreEvent) (s : System) :
    Handled event s (handleEvent event s) := by
  have hmark : event.type = .heartbeat ∨ event.type = .unhealthy →
      Handled event s (handleEvent event s) := by
    intro htype
    have hsilent : ∀ id known, tells s.idOf id known event = known := by
      intro id known
      rcases htype with htype | htype
      · exact tells_silent (by simp [htype]) (by simp [htype])
      · exact tells_silent (by simp [htype]) (by simp [htype])
    obtain hsame | ⟨p,info,hwrite,hinfo⟩ := handleEvent_mark htype s
    · rw [hsame]
      exact ⟨rfl,rfl,rfl,fun id => (hsilent id _).symm⟩
    · rw [hwrite]
      exact ⟨rfl,rfl,funext fun q => setObject_id hinfo q,fun id => (hsilent id _).symm⟩
  cases htype : event.type with
  | register =>
    have hput : handleEvent event s = { s with
        manager := { s.manager with
          stores := s.manager.stores.insert (s.idOf event.store) event.store } } := by
      rw [handleEvent,htype]
      rfl
    rw [hput]
    refine ⟨rfl,rfl,rfl,fun id => ?_⟩
    by_cases hid : id = s.idOf event.store
    · simp [tells,htype,hid]
    · simp [tells,htype,hid,Ne.symm hid]
  | unregister =>
    have hdrop : handleEvent event s = { s with
        manager := { s.manager with stores := s.manager.stores.erase (s.idOf event.store) } } := by
      rw [handleEvent,htype]
      rfl
    rw [hdrop]
    refine ⟨rfl,rfl,rfl,fun id => ?_⟩
    by_cases hid : id = s.idOf event.store
    · simp [tells,htype,hid]
    · simp [tells,htype,hid,Ne.symm hid]
  | heartbeat => exact hmark (Or.inl htype)
  | unhealthy => exact hmark (Or.inr htype)

inductive Moves (s : System) : SystemOp → System → Prop where
  | registry {op : RegistryOp} {r : InMemoryRegistry} (hexec : op.exec s.registry = some r) :
    Moves s (.registry op) { s with registry := r }
  | otherWatch : Moves s .otherWatch { s with registry := Registry.watch s.registry }
  | otherReceive {channel : Nat} {event : StoreEvent} {waiting : List StoreEvent}
    (hother : s.manager.eventCh ≠ some channel) (hw : s.registry.watchers[channel]? =
      some (event :: waiting)) :
    Moves s (.otherReceive channel)
      { s with registry := { s.registry with watchers := s.registry.watchers.set channel waiting } }
  | watch (hstage : s.manager.stage = .created) :
    Moves s .watch ⟨Registry.watch s.registry,
      ⟨s.manager.stores,some s.registry.watchers.length,.watching⟩⟩
  | list {order : List String} (hstage : s.manager.stage = .watching)
    (horder : order.Perm s.registry.stores.keys) :
    Moves s (.list order) (s.at (.loading (listStores order s.registry)))
  | loadEnd (hstage : s.manager.stage = .loading []) : Moves s .load (s.at .receiving)
  | load {store : Nat} {rest : List Nat} (hstage : s.manager.stage = .loading (store :: rest)) :
    Moves s .load
      { s with
        manager := { s.manager with
          stores := s.manager.stores.insert (s.registry.objects store).id store
          stage := .loading rest } }
  | receive {channel : Nat} {event : StoreEvent} {waiting : List StoreEvent}
    (hstage : s.manager.stage = .receiving)
    (hch : s.manager.eventCh = some channel) (hw : s.registry.watchers[channel]? =
      some (event :: waiting)) :
    Moves s .receive (System.at
      { s with registry := { s.registry with watchers := s.registry.watchers.set channel waiting } }
        (.handling event))
  | handle {event : StoreEvent} (hstage : s.manager.stage = .handling event) :
    Moves s .handle ((handleEvent event s).at .receiving)

theorem next_moves {op : SystemOp} (hnext : s.next op = some s') : Moves s op s' := by
  cases op with
  | registry op =>
    obtain ⟨r,hexec,rfl⟩ := Option.map_eq_some_iff.mp hnext
    exact .registry hexec
  | otherWatch =>
    obtain rfl := Option.some.inj hnext
    exact .otherWatch
  | otherReceive channel =>
    rw [System.next] at hnext
    split at hnext
    · cases hnext
    · rename_i hother
      obtain ⟨⟨event,r⟩,hreceive,rfl⟩ := Option.map_eq_some_iff.mp hnext
      obtain ⟨waiting,hw,rfl⟩ := receiveFrom_cases hreceive
      exact .otherReceive hother hw
  | watch =>
    rw [System.next] at hnext
    split at hnext
    · rename_i hstage
      obtain rfl := Option.some.inj hnext
      exact .watch hstage
    · cases hnext
  | list order =>
    rw [System.next] at hnext
    split at hnext
    · rename_i hwhere
      obtain rfl := Option.some.inj hnext
      exact .list hwhere.1 hwhere.2
    · cases hnext
  | load =>
    rw [System.next] at hnext
    split at hnext
    · rename_i hstage
      obtain rfl := Option.some.inj hnext
      exact .loadEnd hstage
    · rename_i store rest hstage
      obtain rfl := Option.some.inj hnext
      exact .load hstage
    · cases hnext
  | receive =>
    rw [System.next] at hnext
    split at hnext
    · rename_i hstage
      split at hnext
      · rename_i event r hreceive
        obtain rfl := Option.some.inj hnext
        obtain ⟨channel,hch,hreceive⟩ := Option.bind_eq_some_iff.mp hreceive
        obtain ⟨waiting,hw,rfl⟩ := receiveFrom_cases hreceive
        exact .receive hstage hch hw
      · cases hnext
    · cases hnext
  | handle =>
    rw [System.next] at hnext
    split at hnext
    · rename_i event hstage
      obtain rfl := Option.some.inj hnext
      exact .handle hstage
    · cases hnext

theorem waiting_watched {waiting : List StoreEvent} (hwaiting : s.waiting = some waiting) :
    System.waiting { s with registry := Registry.watch s.registry } = s.waiting := by
  obtain ⟨channel,hch,hw⟩ := Option.bind_eq_some_iff.mp hwaiting
  simp only [System.waiting,hch,Option.bind_some,Registry.watch]
  rw [List.getElem?_append_left (List.getElem?_eq_some_iff.mp hw).1]

theorem waiting_received {channel : Nat} {waiting left : List StoreEvent}
    (hwaiting : s.waiting = some waiting) (hother : s.manager.eventCh ≠ some channel) :
    System.waiting { s with registry :=
  { s.registry with watchers := s.registry.watchers.set channel left } } =
      s.waiting := by
  obtain ⟨own,hch,-⟩ := Option.bind_eq_some_iff.mp hwaiting
  have hne : channel ≠ own := by
    rintro rfl
    exact hother hch
  simp only [System.waiting,hch,Option.bind_some,List.getElem?_set_ne hne]

theorem Hears.listed (h : Hears s told) {order : List String} (hstage : s.manager.stage = .watching)
    (horder : order.Perm s.registry.stores.keys) :
    Awaits (s.at (.loading (listStores order s.registry))) (hear s told (.list order)) := by
  obtain ⟨waiting,hwaiting,htold⟩ := h.awaits (by rw [hstage]; simp)
  refine ⟨waiting,hwaiting,fun id => ?_⟩
  have hknown : (s.at (.loading (listStores order s.registry))).known id =
      some (decide (id ∈ s.registry.stores)) := by
    simp only [System.known,System.at,h.empty (Or.inr hstage)]
    rw [Option.some.injEq,decide_eq_decide]
    exact ⟨fun hin =>
      (mem_listStores_id h.keyed horder id).mp (hin.resolve_left (AList.notMem_empty id)),
      fun hin => Or.inr ((mem_listStores_id h.keyed horder id).mpr hin)⟩
  change some ((told id).getD (decide (id ∈ s.registry.stores))) = waiting.foldl (tells s.idOf id) _
  rw [hknown,htold id,hstage,System.known,hstage,← tells_foldl_some]
  rfl

theorem Awaits.received (h : Awaits s told) {channel : Nat} {event : StoreEvent}
    {waiting : List StoreEvent}
    (hstage : s.manager.stage = .receiving) (hch : s.manager.eventCh = some channel)
    (hw : s.registry.watchers[channel]? = some (event :: waiting)) :
    Awaits (System.at { s with registry :=
  { s.registry with watchers := s.registry.watchers.set channel waiting } }
      (.handling event)) told := by
  obtain ⟨waiting',hwaiting,htold⟩ := h
  have hbefore : s.waiting = some (event :: waiting) := by
    rw [System.waiting,hch,Option.bind_some,hw]
  obtain rfl := Option.some.inj (hbefore.symm.trans hwaiting)
  refine ⟨waiting,?_,fun id => ?_⟩
  · simp [System.waiting,System.at,hch,(List.getElem?_eq_some_iff.mp hw).1]
  · rw [htold id,System.known,hstage]
    rfl

theorem Awaits.handled (h : Awaits s told) {event : StoreEvent}
    (hstage : s.manager.stage = .handling event) :
    Awaits ((handleEvent event s).at .receiving) told := by
  obtain ⟨-,hwaiting,hid,hmem⟩ := handleEvent_handled event s
  obtain ⟨waiting,hw,htold⟩ := h
  refine ⟨waiting,hwaiting.trans hw,fun id => ?_⟩
  change told id = waiting.foldl (tells (handleEvent event s).idOf id)
    (some (decide (id ∈ (handleEvent event s).manager.stores)))
  rw [hid,hmem id,htold id,hstage,System.known,hstage]
  rfl

theorem Hears.next (h : Hears s told) {op : SystemOp} (hnext : s.next op = some s') :
    Hears s' (hear s told op) := by
  cases next_moves hnext with
  | registry hexec =>
    refine ⟨h.keyed.exec hexec,fun hstage => ?_,h.empty,fun hstage =>
      (h.awaits hstage).exec h.keyed hexec⟩
    obtain ⟨hch,htold⟩ := h.created hstage
    exact ⟨hch,hear_created hch htold _⟩
  | otherWatch =>
    refine ⟨h.keyed,h.created,h.empty,fun hstage => (h.awaits hstage).same ?_ rfl rfl rfl⟩
    obtain ⟨_,hwaiting,-⟩ := h.awaits hstage
    exact waiting_watched hwaiting
  | otherReceive hother =>
    refine ⟨h.keyed,h.created,h.empty,fun hstage => (h.awaits hstage).same ?_ rfl rfl rfl⟩
    obtain ⟨_,hwaiting,-⟩ := h.awaits hstage
    exact waiting_received hwaiting hother
  | watch hstage =>
    refine ⟨h.keyed,by simp,fun _ => h.empty (Or.inl hstage),fun _ => ⟨[],?_,fun id => ?_⟩⟩
    · simp [System.waiting,Registry.watch]
    · change told id = _
      rw [(h.created hstage).2]
      rfl
  | list hstage horder =>
    exact ⟨h.keyed,by simp [System.at],by simp [System.at],fun _ => h.listed hstage horder⟩
  | loadEnd hstage =>
    refine ⟨h.keyed,by simp [System.at],by simp [System.at],fun _ =>
      (h.awaits (by rw [hstage]; simp)).same rfl (by rw [hstage]; rfl) rfl ?_⟩
    funext id
    simp only [System.known,System.at,hstage]
    exact congrArg some (decide_eq_decide.mpr (by simp))
  | @load store rest hstage =>
    refine ⟨h.keyed,by simp,by simp,fun _ => (h.awaits (by rw [hstage]; simp)).same rfl
      (by rw [hstage]; rfl) rfl ?_⟩
    funext id
    simp only [System.known,hstage,Option.some.injEq,decide_eq_decide,AList.mem_insert,
      List.map_cons,List.mem_cons]
    change (id = s.idOf store ∨ _) ∨ _ ↔ _
    rw [or_assoc,or_left_comm]
    rfl
  | receive hstage hch hw =>
    exact ⟨h.keyed,by simp [System.at],by simp [System.at],fun _ =>
      (h.awaits (by rw [hstage]; simp)).received hstage hch hw⟩
  | @handle event hstage =>
    obtain ⟨hstores,-,hid,-⟩ := handleEvent_handled event s
    refine ⟨fun id p hp => ?_,by simp [System.at],by simp [System.at],fun _ =>
      (h.awaits (by rw [hstage]; simp)).handled hstage⟩
    rw [← h.keyed id p (by rw [← hstores]; exact hp)]
    exact congrFun hid p

def UpToDate (s : System) (told : Told) : Prop :=
  ∀ id b, told id = some b → b = decide (id ∈ s.registry.stores)

theorem Hears.heardRight (h : Hears s told) (hquiet : Quiet s) (hupToDate : UpToDate s told) :
    HeardRight s told := by
  intro id
  rw [h.quiet hquiet id,hupToDate id _ (h.quiet hquiet id)]

theorem UpToDate.exec (h : UpToDate s told) (hears : Hears s told) {op : RegistryOp}
    {r : InMemoryRegistry}
    (hexec : op.exec s.registry = some r) (hkept : ¬ Loses s (.registry op)) :
    UpToDate { s with registry := r } (hear s told (.registry op)) := by
  intro id b hb
  change b = decide (id ∈ r.stores)
  obtain ⟨hreport,hstores,-⟩ | ⟨id',there,hreport,hmem,-⟩ := exec_reports hears.keyed hexec
  · simp only [hear,hreport] at hb
    rw [hstores]
    exact h id b hb
  · simp only [hear,hreport] at hb
    split at hb
    · rw [Function.update_apply] at hb
      split at hb
      · rename_i hid
        simp [hmem,hid,← Option.some.inj hb]
      · rename_i hid
        simp [hmem,hid,h id b hb]
    · -- without room nothing was heard so far: the watcher is not started yet
      rename_i hroom
      by_cases hstage : s.manager.stage = .created
      · rw [(hears.created hstage).2] at hb
        cases hb
      · obtain ⟨waiting,hwaiting,-⟩ := hears.awaits hstage
        obtain ⟨channel,hch,-⟩ := Option.bind_eq_some_iff.mp hwaiting
        exact (hkept ⟨op,rfl,by rw [hreport]; rfl,by rw [hch]; rfl,hroom⟩).elim

theorem UpToDate.next (h : UpToDate s told) (hears : Hears s told) {op : SystemOp}
    (hnext : s.next op = some s') (hkept : ¬ Loses s op) : UpToDate s' (hear s told op) := by
  cases next_moves hnext with
  | registry hexec => exact h.exec hears hexec hkept
  | list hstage horder =>
    intro id b hb
    obtain rfl := Option.some.inj hb
    cases hheard : told id with
    | none => rfl
    | some there => exact h id there hheard
  | @handle event hstage =>
    intro id b hb
    change b = decide (id ∈ (handleEvent event s).registry.stores)
    rw [(handleEvent_handled event s).stores]
    exact h id b hb
  -- the other steps leave the map of the registry and what was heard as they are
  | otherWatch => exact h
  | otherReceive => exact h
  | watch => exact h
  | loadEnd => exact h
  | load => exact h
  | receive => exact h

end Invariant

section Runs
variable {objects : Nat → Router.StoreInfo} {s : System} {told : Told}

theorem hears_run (ops : List SystemOp) (hrun : runSystem objects ops = some (s,told)) :
    Hears s told := by
  refine runs_keep (I := fun u : System × Told => Hears u.1 u.2) (C := fun _ _ => True)
    (hears_new objects) ?_ ops
    (fun _ _ _ _ _ _ => trivial) hrun
  rintro ⟨s,told⟩ op ⟨s',told'⟩ hears - hnext
  obtain ⟨t,ht,heq⟩ := Option.map_eq_some_iff.mp hnext
  obtain ⟨rfl,rfl⟩ := Prod.mk.inj heq
  exact hears.next ht

theorem upToDate_run (ops : List SystemOp) (hlost : NothingLost objects ops)
    (hrun : runSystem objects ops = some (s,told)) : UpToDate s told := by
  refine (runs_keep (I := fun u : System × Told => Hears u.1 u.2 ∧ UpToDate u.1 u.2)
    (C := fun u op => ¬ Loses u.1 op) ⟨hears_new objects,?_⟩ ?_ ops ?_ hrun).2
  · intro id b hb
    cases hb
  · rintro ⟨s,told⟩ op ⟨s',told'⟩ ⟨hears,hupToDate⟩ hkept hnext
    obtain ⟨t,ht,heq⟩ := Option.map_eq_some_iff.mp hnext
    obtain ⟨rfl,rfl⟩ := Prod.mk.inj heq
    exact ⟨hears.next ht,hupToDate.next hears ht hkept⟩
  · rintro before op after hsplit ⟨s,told⟩ hbefore
    exact hlost before op after s told hsplit hbefore

/-- When `Start` has returned and no event waits or is being handled, the manager has the
stores of the registry if and only if what it was last told of each ID is so; and this is
so if no register or unregister event found its channel full. -/
theorem manager_follows_iff_heard_right (objects : Nat → Router.StoreInfo)
    (ops : List SystemOp) (s : System)
    (told : Told) (hrun : runSystem objects ops = some (s,told)) (hquiet : Quiet s) :
    (FollowsRegistry s ↔ HeardRight s told) ∧ (NothingLost objects ops → FollowsRegistry s) := by
  have hears := hears_run ops hrun
  refine ⟨hears.follows_iff hquiet,fun hlost => (hears.follows_iff hquiet).mpr ?_⟩
  exact hears.heardRight hquiet (upToDate_run ops hlost hrun)

end Runs

def twoStores (p : Nat) : Router.StoreInfo :=
  ⟨if p = 0 then "store-a" else "store-b","10.0.0.1:8080","inactive",0⟩

theorem manager_follows_iff_heard_right_one_store : ∃ s told,
    runSystem twoStores [.registry (.register 0 1),.watch,.list ["store-a"],.load,.load] =
      some (s,told) ∧
      Quiet s ∧ FollowsRegistry s := by
  refine ⟨_,_,rfl,⟨rfl,rfl⟩,?_⟩
  exact (manager_follows_iff_heard_right twoStores
    [.registry (.register 0 1),.watch,.list ["store-a"],.load,.load] _ _ rfl ⟨rfl,rfl⟩).1.mpr
      fun _ => rfl

/-- The first store is registered a hundred times, which fills the channel; then the second
one comes, and only then the events are handled. -/
def burst : List SystemOp :=
  [.watch,.list [],.load] ++ List.replicate 100 (.registry (.register 0 1)) ++
    .registry (.register 1 1) :: (List.replicate 100 [SystemOp.receive,.handle]).flatten

theorem burst_drops_a_store : ∃ s told, runSystem twoStores burst = some (s,told) ∧ Quiet s ∧
    ¬ FollowsRegistry s := by
  have hend : (runSystem twoStores burst).map (fun end_ => (end_.1.manager.stage,end_.1.waiting,
      end_.1.manager.stores.keys,end_.1.registry.stores.keys)) =
        some (.receiving,some [],["store-a"],["store-b","store-a"]) := by decide +kernel
  obtain ⟨⟨s,told⟩,hrun,heq⟩ := Option.map_eq_some_iff.mp hend
  obtain ⟨hstage,heq⟩ := Prod.mk.inj heq
  obtain ⟨hwaiting,heq⟩ := Prod.mk.inj heq
  obtain ⟨hmanager,hregistry⟩ := Prod.mk.inj heq
  refine ⟨s,told,hrun,⟨hstage,hwaiting⟩,fun hfollows => ?_⟩
  have hin := (hfollows "store-b").mpr (AList.mem_keys.mpr (by rw [hregistry]; simp))
  rw [AList.mem_keys,hmanager] at hin
  simp at hin

end Imy.Registry
