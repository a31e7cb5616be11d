import Imy.Lib.Since
import Imy.Lib.Transition
import Imy.Registry.Registry
set_option autoImplicit false

/-!
The stores that announce themselves: the clients of `pkg/storage/discovery.go` with the
goroutines of their heartbeats, the registry that they share, and its health check. The
methods of one client are called one after another.
-/

namespace Imy.Registry
open Imy.Lib Imy.Router

structure StoreDiscoveryClient where
  isRegistered : Bool
  /-- `heartbeatCtx`, as whether it is done; none before `Start` -/
  heartbeatCtx : Option Bool
  /-- the goroutines that are in `startHeartbeat` -/
  beating : Nat
  deriving DecidableEq, Repr

def newStoreDiscoveryClient : StoreDiscoveryClient := ⟨false,none,0⟩

/-- The clients, known by `κ`, and their registry. -/
structure Discovery (κ : Type) where
  registry : InMemoryRegistry
  clients : κ → StoreDiscoveryClient

def newDiscovery {κ : Type} (objects : Nat → StoreInfo) : Discovery κ :=
  ⟨newInMemoryRegistry objects,fun _ => newStoreDiscoveryClient⟩

/-- What can happen. A goroutine whose context is done may still take a tick: the `select`
is free to. -/
inductive DiscoveryOp (κ : Type) where
  | start (c : κ) (now : Int)
  | stop (c : κ)
  | updateMetadata (c : κ) (now : Int)
  /-- the context that `Start` was given is done -/
  | cancelled (c : κ)
  | tick (c : κ) (now : Int)
  /-- a goroutine of the heartbeat returns -/
  | leave (c : κ)
  | check (now : Int) (order : List String)
  | watch
  deriving DecidableEq, Repr

section Discovery
variable {κ : Type} [DecidableEq κ] (storeInfo : κ → Nat)

def Discovery.id (s : Discovery κ) (c : κ) : String := (s.registry.objects (storeInfo c)).id

def Discovery.setClient (s : Discovery κ) (c : κ) (client : StoreDiscoveryClient) : Discovery κ :=
  { s with clients := Function.update s.clients c client }

def Discovery.start (c : κ) (now : Int) (s : Discovery κ) : Discovery κ :=
  { s with registry := register (storeInfo c) now s.registry }.setClient c
    ⟨true,some false,(s.clients c).beating+1⟩

def Discovery.stop (c : κ) (s : Discovery κ) : Except String Unit × Discovery κ :=
  let client := { s.clients c with heartbeatCtx := (s.clients c).heartbeatCtx.map fun _ => true }
  if client.isRegistered then
    match unregister (s.id storeInfo c) s.registry with
    | .error err => (.error err,s.setClient c client)
    | .ok r => (.ok (),{ s with registry := r }.setClient c { client with isRegistered := false })
  else (.ok (),s.setClient c client)

def Discovery.sendHeartbeat (c : κ) (now : Int) (s : Discovery κ) : Discovery κ :=
  { s with registry :=
    (updateHeartbeat (s.id storeInfo c) now s.registry).toOption.getD s.registry }

def Discovery.updateMetadata (c : κ) (now : Int) (s : Discovery κ) : Discovery κ :=
  { s with registry := register (storeInfo c) now s.registry }

/-- One step, where it is possible. -/
def Discovery.next (s : Discovery κ) : DiscoveryOp κ → Option (Discovery κ)
  | .start c now => some (s.start storeInfo c now)
  | .stop c => some (s.stop storeInfo c).2
  | .updateMetadata c now => some (s.updateMetadata storeInfo c now)
  | .cancelled c =>
    (s.clients c).heartbeatCtx.map fun _ =>
      s.setClient c { s.clients c with heartbeatCtx := some true }
  | .tick c now => if 0 < (s.clients c).beating then
    some (s.sendHeartbeat storeInfo c now) else none
  | .leave c =>
    if 0 < (s.clients c).beating ∧ (s.clients c).heartbeatCtx = some true then
      some (s.setClient c { s.clients c with beating := (s.clients c).beating-1 })
    else none
  | .check now order =>
    if order.Perm s.registry.stores.keys then
      some { s with registry := checkUnhealthyStores now order s.registry }
    else none
  | .watch => some { s with registry := Registry.watch s.registry }

def runDiscovery (s : Discovery κ) (events : List (DiscoveryOp κ)) : Option (Discovery κ) :=
  events.foldlM (Discovery.next storeInfo) s

end Discovery

section History
variable {κ : Type} {events : List (DiscoveryOp κ)} {op : DiscoveryOp κ} {c : κ}

def Started (c : κ) : List (DiscoveryOp κ) → Prop :=
  Since (fun _ op => op ≠ .stop c) fun _ op => ∃ now, op = .start c now

/-- The store was registered, by `Start` or with its metadata, and no `Stop` of a client that
was started came since. -/
def Listed (c : κ) : List (DiscoveryOp κ) → Prop :=
  Since (fun before op => op = .stop c → ¬ Started c before)
    fun _ op => ∃ now, op = .start c now ∨ op = .updateMetadata c now

theorem started_keeps (hstart : ∀ now, op ≠ .start c now) (hstop : op ≠ .stop c) :
    Started c (events ++ [op]) ↔ Started c events := by
  refine since_snoc_of_keeps ?_ hstop
  rintro ⟨now,hop⟩
  exact hstart now hop

theorem listed_keeps (henter : ∀ now, op ≠ .start c now ∧ op ≠ .updateMetadata c now)
    (hstop : op = .stop c → ¬ Started c events) : Listed c (events ++ [op]) ↔ Listed c events := by
  refine since_snoc_of_keeps ?_ hstop
  rintro ⟨now,hop | hop⟩
  · exact (henter now).1 hop
  · exact (henter now).2 hop

variable [DecidableEq κ]

def DiscoveryOp.beat (c : κ) : DiscoveryOp κ → Option Int
  | .start d now | .updateMetadata d now | .tick d now => if d = c then some now else none
  | _ => none

/-- By `now` more than a minute has gone since the client was last heard. -/
def Late (c : κ) (now : Int) : List (DiscoveryOp κ) → Prop :=
  Since (fun _ op => op.beat c = none) fun _ op => ∃ t, op.beat c = some t ∧ now-t > 60*second

/-- A check came too late after the last that was heard of the client. -/
def Silent (c : κ) : List (DiscoveryOp κ) → Prop :=
  Since (fun _ op => op.beat c = none) fun before op => ∃ now order, op = .check now order ∧
    Late c now before

end History

section Registry
variable {r : InMemoryRegistry}

/-- What a check makes of one store. -/
def checked (now : Int) (info : StoreInfo) : StoreInfo :=
  if now-info.lastSeen > 60*second ∧ info.status = "active" then
      { info with status := "unhealthy" } else info

theorem checked_checked (now : Int) (info : StoreInfo) :
    checked now (checked now info) = checked now info := by
  by_cases h : now-info.lastSeen > 60*second ∧ info.status = "active"
  · have hmarked : checked now info = { info with status := "unhealthy" } := if_pos h
    rw [hmarked]
    exact if_neg fun hboth => by simp at hboth
  · have hsame : checked now info = info := if_neg h
    rw [hsame,hsame]

theorem checked_rest (now : Int) (info : StoreInfo) :
    (checked now info).id = info.id ∧ (checked now info).lastSeen = info.lastSeen := by
  unfold checked
  split <;> exact ⟨rfl,rfl⟩

theorem checkOne_objects (now : Int) (storeID : String) (p : Nat) :
    (checkOne now r storeID).objects p =
      if r.stores.lookup storeID = some p then checked now (r.objects p) else r.objects p := by
  unfold checkOne
  cases hfound : r.stores.lookup storeID with
  | none => simp
  | some store =>
    dsimp only
    by_cases hp : p = store
    · subst hp
      rw [if_pos rfl,checked]
      split
      · simp [notifyWatchers,InMemoryRegistry.setObject]
      · rfl
    · rw [if_neg fun heq => hp (Option.some.inj heq).symm]
      split
      · simp [notifyWatchers,InMemoryRegistry.setObject,hp]
      · rfl

theorem checkUnhealthyStores_objects (now : Int) (order : List String) (p : Nat) :
    (checkUnhealthyStores now order r).objects p =
      if ∃ storeID ∈ order, r.stores.lookup storeID = some p then checked now (r.objects p)
      else r.objects p := by
  induction order generalizing r with
  | nil => exact (if_neg (by simp)).symm
  | cons storeID order ih =>
    have hstores := (checkOne_changed (r := r) now storeID).1
    rw [checkUnhealthyStores,List.foldl_cons]
    refine (ih (r := checkOne now r storeID)).trans ?_
    rw [hstores,checkOne_objects]
    by_cases hfirst : r.stores.lookup storeID = some p <;>
      by_cases hrest : ∃ storeID ∈ order, r.stores.lookup storeID = some p <;>
        simp [hfirst,hrest,checked_checked]

theorem listActiveStores_nodup (hk : Keyed r) {order : List String} (hnodup : order.Nodup) :
    (listActiveStores order r).Nodup := by
  refine List.Nodup.filter _ ?_
  refine hnodup.filterMap fun id id' p hp hp' => ?_
  rw [Option.mem_def] at hp hp'
  rw [← hk id p hp,← hk id' p hp']

end Registry

section Follows
variable {κ : Type} [DecidableEq κ] {events : List (DiscoveryOp κ)} {op : DiscoveryOp κ} {c d : κ}

/-- An event that says nothing about a client. -/
structure DiscoveryOp.Apart (op : DiscoveryOp κ) (c : κ) : Prop where
  beat : op.beat c = none
  stop : op ≠ .stop c
  check : ∀ now order, op ≠ .check now order

theorem DiscoveryOp.Apart.not_start (h : op.Apart c) (now : Int) : op ≠ .start c now := by
  rintro rfl
  have := h.beat
  simp [DiscoveryOp.beat] at this

theorem DiscoveryOp.Apart.not_updateMetadata (h : op.Apart c) (now : Int) :
    op ≠ .updateMetadata c now := by
  rintro rfl
  have := h.beat
  simp [DiscoveryOp.beat] at this

theorem DiscoveryOp.Apart.started (h : op.Apart c) :
    Started c (events ++ [op]) ↔ Started c events :=
  started_keeps h.not_start h.stop

theorem DiscoveryOp.Apart.listed (h : op.Apart c) : Listed c (events ++ [op]) ↔ Listed c events :=
  listed_keeps (fun now => ⟨h.not_start now,h.not_updateMetadata now⟩) fun hop => absurd hop h.stop

theorem late_unheard (h : op.beat c = none) (now : Int) :
    Late c now (events ++ [op]) ↔ Late c now events := by
  refine since_snoc_of_keeps ?_ h
  rintro ⟨t,hop,-⟩
  rw [h] at hop
  cases hop

theorem late_heard {t : Int} (h : op.beat c = some t) (now : Int) :
    Late c now (events ++ [op]) ↔ now-t > 60*second := by
  have hnot : ¬ op.beat c = none := by rw [h]; exact Option.some_ne_none t
  rw [Late,since_snoc,or_iff_left fun hold => hnot hold.1]
  simp [h]

theorem silent_unheard (h : op.beat c = none) (hcheck : ∀ now order, op ≠ .check now order) :
    Silent c (events ++ [op]) ↔ Silent c events := by
  refine since_snoc_of_keeps ?_ h
  rintro ⟨now,order,hop,-⟩
  exact hcheck now order hop

theorem not_silent_heard {t : Int} (h : op.beat c = some t) : ¬ Silent c (events ++ [op]) := by
  have hnot : ¬ op.beat c = none := by rw [h]; exact Option.some_ne_none t
  refine not_since_snoc ?_ hnot
  rintro ⟨now,order,rfl,-⟩
  cases h

theorem silent_check (now : Int) (order : List String) :
    Silent c (events ++ [.check now order]) ↔ Late c now events ∨ Silent c events := by
  have hbeat : (DiscoveryOp.check now order : DiscoveryOp κ).beat c = none := rfl
  rw [Silent,since_snoc,and_iff_right hbeat]
  refine or_congr_left ?_
  constructor
  · rintro ⟨now',order',hop,hlate⟩
    cases hop
    exact hlate
  · exact fun hlate => ⟨now,order,rfl,hlate⟩

variable (storeInfo : κ → Nat) (ids : κ → String)

/-- What the registry and the client itself know of one store is what happened to it. -/
structure Known (c : κ) (events : List (DiscoveryOp κ)) (s : Discovery κ) : Prop where
  started : (s.clients c).isRegistered = true ↔ Started c events
  listed : s.registry.stores.lookup (ids c) = some (storeInfo c) ↔ Listed c events
  stays : Started c events → Listed c events
  active : Listed c events → ¬ Silent c events →
    (s.registry.objects (storeInfo c)).status = "active"
  unhealthy : Listed c events → Silent c events →
    (s.registry.objects (storeInfo c)).status = "unhealthy"
  seen : Listed c events → ∀ now, Late c now events ↔
    now-(s.registry.objects (storeInfo c)).lastSeen > 60*second

structure DiscoverySound (events : List (DiscoveryOp κ)) (s : Discovery κ) : Prop where
  id : ∀ c, s.id storeInfo c = ids c
  only : ∀ id p, s.registry.stores.lookup id = some p → ∃ c, id = ids c ∧ p = storeInfo c
  known : ∀ c, Known storeInfo ids c events s

variable {storeInfo} {ids} {s s' : Discovery κ}

theorem DiscoverySound.keyed (hs : DiscoverySound storeInfo ids events s) : Keyed s.registry := by
  intro id p hp
  obtain ⟨c,rfl,rfl⟩ := hs.only id p hp
  exact hs.id c

theorem DiscoverySound.storeInfo_ne (hs : DiscoverySound storeInfo ids events s)
    (hids : ids.Injective) (hc : c ≠ d) : storeInfo c ≠ storeInfo d := by
  intro heq
  refine hc (hids ?_)
  rw [← hs.id c,← hs.id d,Discovery.id,heq,Discovery.id]

theorem DiscoverySound.lookup (hs : DiscoverySound storeInfo ids events s)
    (hids : ids.Injective) {p : Nat}
    (hp : s.registry.stores.lookup (ids c) = some p) : p = storeInfo c := by
  obtain ⟨d,hd,rfl⟩ := hs.only _ p hp
  rw [hids hd]

theorem discoverySound_new (objects : Nat → StoreInfo) :
    DiscoverySound storeInfo (fun c => (objects (storeInfo c)).id) []
      (newDiscovery (κ := κ) objects) where
  id c := rfl
  only id p hp := by cases hp
  known c := by
    have hlisted : ¬ Listed c ([] : List (DiscoveryOp κ)) := not_since_nil
    refine ⟨?_,?_,fun h => absurd h not_since_nil,fun h => absurd h hlisted,
      fun h => absurd h hlisted,
      fun h => absurd h hlisted⟩
    · exact iff_of_false (by simp [newDiscovery,newStoreDiscoveryClient]) not_since_nil
    · exact iff_of_false (by simp [newDiscovery,newInMemoryRegistry]) hlisted

theorem Known.apart (h : Known storeInfo ids c events s) (hop : op.Apart c)
    (hclient : (s'.clients c).isRegistered = (s.clients c).isRegistered)
    (hlookup : s'.registry.stores.lookup (ids c) = s.registry.stores.lookup (ids c))
    (hobject : s'.registry.objects (storeInfo c) = s.registry.objects (storeInfo c)) :
    Known storeInfo ids c (events ++ [op]) s' where
  started := by rw [hclient,hop.started]; exact h.started
  listed := by rw [hlookup,hop.listed]; exact h.listed
  stays := by rw [hop.started,hop.listed]; exact h.stays
  active := by rw [hop.listed,silent_unheard hop.beat hop.check,hobject]; exact h.active
  unhealthy := by rw [hop.listed,silent_unheard hop.beat hop.check,hobject]; exact h.unhealthy
  seen hl now := by
    rw [late_unheard hop.beat,hobject]
    exact h.seen (hop.listed.mp hl) now

theorem DiscoverySound.register (hs : DiscoverySound storeInfo ids events s) (hids : ids.Injective)
    {now : Int} (henter : op = .start d now ∨ op = .updateMetadata d now)
    (hregistry : s'.registry = Registry.register (storeInfo d) now s.registry)
    (hothers : ∀ c, c ≠ d → (s'.clients c).isRegistered = (s.clients c).isRegistered)
    (hstarted : (s'.clients d).isRegistered = true ↔ Started d (events ++ [op])) :
    DiscoverySound storeInfo ids (events ++ [op]) s' := by
  have hid : (s.registry.objects (storeInfo d)).id = ids d := hs.id d
  have hstores : s'.registry.stores = s.registry.stores.insert (ids d) (storeInfo d) := by
    rw [hregistry,register_stores,hid]
  have hobjects : s'.registry.objects = Function.update s.registry.objects (storeInfo d)
      { s.registry.objects (storeInfo d) with status := "active", lastSeen := now } := by
    rw [hregistry]
    rfl
  have hbeat : op.beat d = some now := by
    rcases henter with rfl | rfl <;> simp [DiscoveryOp.beat]
  refine ⟨fun c => ?_,fun id p hp => ?_,fun c => ?_⟩
  · rw [Discovery.id,hregistry,(register_changed (storeInfo d) now).id]
    exact hs.id c
  · rw [hstores] at hp
    by_cases hdid : id = ids d
    · rw [hdid,AList.lookup_insert] at hp
      exact ⟨d,hdid,(Option.some.inj hp).symm⟩
    · rw [AList.lookup_insert_ne hdid] at hp
      exact hs.only id p hp
  · by_cases hc : c = d
    · subst hc
      have hlisted : Listed c (events ++ [op]) := since_snoc.mpr (.inl ⟨now,henter⟩)
      have hobject := congrFun hobjects (storeInfo c)
      rw [Function.update_self] at hobject
      refine ⟨hstarted,iff_of_true (by rw [hstores,AList.lookup_insert]) hlisted,fun _ => hlisted,
        fun _ _ => by rw [hobject],fun _ hsilent => absurd hsilent (not_silent_heard hbeat),
        fun _ now' => ?_⟩
      rw [late_heard hbeat,hobject]
    · have hapart : op.Apart c := by
        refine ⟨?_,?_,?_⟩ <;> rcases henter with rfl | rfl <;> simp [DiscoveryOp.beat,Ne.symm hc]
      refine (hs.known c).apart hapart (hothers c hc) ?_ ?_
      · rw [hstores,AList.lookup_insert_ne fun heq => hc (hids heq)]
      · rw [hobjects,Function.update_of_ne (hs.storeInfo_ne hids hc)]

/-- Nothing happens to the registry, and nobody is started or stopped. -/
theorem DiscoverySound.rest (hs : DiscoverySound storeInfo ids events s) (hop : ∀ c, op.Apart c)
    (hstores : s'.registry.stores = s.registry.stores)
    (hobjects : s'.registry.objects = s.registry.objects)
    (hclients : ∀ c, (s'.clients c).isRegistered = (s.clients c).isRegistered) :
    DiscoverySound storeInfo ids (events ++ [op]) s' where
  id c := by
    rw [Discovery.id,hobjects]
    exact hs.id c
  only id p hp := by
    rw [hstores] at hp
    exact hs.only id p hp
  known c := (hs.known c).apart (hop c) (hclients c) (by rw [hstores]) (by rw [hobjects])

/-- A heartbeat, which is an error if the store is not in the registry. -/
theorem DiscoverySound.tick (hs : DiscoverySound storeInfo ids events s)
    (hids : ids.Injective) (d : κ) (now : Int) :
    DiscoverySound storeInfo ids (events ++ [.tick d now]) (s.sendHeartbeat storeInfo d now) := by
  have hbeat : (DiscoveryOp.tick d now).beat d = some now := if_pos rfl
  have hstarted : Started d (events ++ [.tick d now]) ↔ Started d events :=
    started_keeps (by simp) (by simp)
  have hlisted : Listed d (events ++ [.tick d now]) ↔ Listed d events :=
    listed_keeps (by simp) (by simp)
  have hapart : ∀ c, c ≠ d → (DiscoveryOp.tick d now).Apart c := by
    intro c hc
    refine ⟨?_,?_,?_⟩ <;> simp [DiscoveryOp.beat,Ne.symm hc]
  have hknown := hs.known d
  cases hfound : s.registry.stores.lookup (ids d) with
  | none =>
    have hsame : s.sendHeartbeat storeInfo d now = s := by
      rw [Discovery.sendHeartbeat,hs.id,updateHeartbeat,hfound]
      rfl
    have hnot : ¬ Listed d events := by
      rw [← hknown.listed,hfound]
      exact Option.some_ne_none _ ∘ Eq.symm
    rw [hsame]
    refine ⟨hs.id,hs.only,fun c => ?_⟩
    by_cases hc : c = d
    · subst hc
      have hnot' := hnot ∘ hlisted.mp
      refine ⟨hknown.started.trans hstarted.symm,hknown.listed.trans hlisted.symm,?_,
        fun h => absurd h hnot',fun h => absurd h hnot',fun h => absurd h hnot'⟩
      exact fun h => absurd (hknown.stays (hstarted.mp h)) hnot
    · exact (hs.known c).apart (hapart c hc) rfl rfl rfl
  | some store =>
    obtain rfl := hs.lookup hids hfound
    have hl : Listed d events := hknown.listed.mp hfound
    obtain ⟨r',hok,hstores,hchanged⟩ := updateHeartbeat_changed now hfound
    have hobjects : r'.objects = Function.update s.registry.objects (storeInfo d)
        { s.registry.objects (storeInfo d) with lastSeen := now, status := "active" } := by
      have hstatus : (if (s.registry.objects (storeInfo d)).status = "unhealthy" then "active"
          else (s.registry.objects (storeInfo d)).status) = "active" := by
        by_cases hsilent : Silent d events
        · exact if_pos (hknown.unhealthy hl hsilent)
        · rw [hknown.active hl hsilent]
          rfl
      simp only [updateHeartbeat,hfound,hstatus] at hok
      cases hok
      rfl
    have hafter : s.sendHeartbeat storeInfo d now = { s with registry := r' } := by
      rw [Discovery.sendHeartbeat,hs.id,hok]
      rfl
    rw [hafter]
    refine ⟨fun c => ?_,fun id p hp => hs.only id p (by rwa [hstores] at hp),fun c => ?_⟩
    · exact (hchanged.id _).trans (hs.id c)
    · by_cases hc : c = d
      · subst hc
        have hobject := congrFun hobjects (storeInfo c)
        rw [Function.update_self] at hobject
        refine ⟨hknown.started.trans hstarted.symm,?_,fun _ => hlisted.mpr hl,
          fun _ _ => by rw [hobject],
          fun _ hsilent => absurd hsilent (not_silent_heard hbeat),fun _ now' => ?_⟩
        · rw [hlisted,hstores]
          exact hknown.listed
        · rw [late_heard hbeat,hobject]
      · refine (hs.known c).apart (hapart c hc) rfl (by rw [hstores]) ?_
        rw [hobjects,Function.update_of_ne (hs.storeInfo_ne hids hc)]

/-- `Stop` finds the store of a client that was started. -/
theorem DiscoverySound.stop_cases (hs : DiscoverySound storeInfo ids events s) (d : κ) :
    (Started d events ∧ ∃ r', s.stop storeInfo d = (.ok (),{ s with registry := r' }.setClient d
        ⟨false,(s.clients d).heartbeatCtx.map fun _ => true,(s.clients d).beating⟩) ∧
      r'.stores = s.registry.stores.erase (ids d) ∧ r'.objects = s.registry.objects) ∨
    (¬ Started d events ∧ s.stop storeInfo d = (.ok (),s.setClient d
        { s.clients d with heartbeatCtx := (s.clients d).heartbeatCtx.map fun _ => true })) := by
  have hknown := hs.known d
  unfold Discovery.stop
  by_cases hreg : (s.clients d).isRegistered = true
  · have hstarted := hknown.started.mp hreg
    have hfound := hknown.listed.mpr (hknown.stays hstarted)
    refine .inl ⟨hstarted,?_⟩
    have hok : unregister (ids d) s.registry = .ok (notifyWatchers
        { s.registry with stores := s.registry.stores.erase (ids d) }
            ⟨.unregister,storeInfo d⟩) := by
      rw [unregister,hfound]
    simp only [hreg,if_true,hs.id,hok]
    exact ⟨_,rfl,rfl,rfl⟩
  · refine .inr ⟨fun hstarted => hreg (hknown.started.mpr hstarted),?_⟩
    simp only [hreg]
    rfl

theorem DiscoverySound.stop (hs : DiscoverySound storeInfo ids events s)
    (hids : ids.Injective) (d : κ) :
    DiscoverySound storeInfo ids (events ++ [.stop d]) (s.stop storeInfo d).2 := by
  have hapart : ∀ c, c ≠ d → (DiscoveryOp.stop d).Apart c := by
    intro c hc
    refine ⟨?_,?_,?_⟩ <;> simp [DiscoveryOp.beat,Ne.symm hc]
  have hbeat : (DiscoveryOp.stop d).beat d = none := rfl
  have hcheck : ∀ now order, DiscoveryOp.stop d ≠ .check now order := by simp
  have hstarted : ¬ Started d (events ++ [.stop d]) := not_since_snoc (by simp) (by simp)
  have hknown := hs.known d
  obtain ⟨hwas,r',hstop,hstores,hobjects⟩ | ⟨hwas,hstop⟩ := hs.stop_cases d
  · have hlisted : ¬ Listed d (events ++ [.stop d]) :=
      not_since_snoc (by simp) fun hkeep => hkeep rfl hwas
    rw [hstop]
    refine ⟨fun c => ?_,fun id p hp => ?_,fun c => ?_⟩
    · rw [Discovery.id]
      exact (congrArg (fun o => (o (storeInfo c)).id) hobjects).trans (hs.id c)
    · change r'.stores.lookup id = some p at hp
      rw [hstores] at hp
      by_cases hid : id = ids d
      · rw [hid,AList.lookup_erase] at hp
        cases hp
      · rw [AList.lookup_erase_ne hid] at hp
        exact hs.only id p hp
    · by_cases hc : c = d
      · subst hc
        refine ⟨iff_of_false (by simp [Discovery.setClient]) hstarted,iff_of_false ?_ hlisted,
          fun h => absurd h hstarted,fun h => absurd h hlisted,fun h => absurd h hlisted,
          fun h => absurd h hlisted⟩
        change r'.stores.lookup (ids c) ≠ _
        rw [hstores,AList.lookup_erase]
        exact Option.some_ne_none _ ∘ Eq.symm
      · refine (hs.known c).apart (hapart c hc) ?_ ?_ (congrFun hobjects _)
        · simp [Discovery.setClient,hc]
        · change r'.stores.lookup (ids c) = _
          rw [hstores,AList.lookup_erase_ne fun heq => hc (hids heq)]
  · have hlisted : Listed d (events ++ [.stop d]) ↔ Listed d events :=
      listed_keeps (by simp) fun _ => hwas
    rw [hstop]
    refine ⟨hs.id,hs.only,fun c => ?_⟩
    by_cases hc : c = d
    · subst hc
      refine ⟨iff_of_false ?_ hstarted,hknown.listed.trans hlisted.symm,fun h =>
        absurd h hstarted,?_,?_,?_⟩
      · simp only [Discovery.setClient,Function.update_self]
        rw [hknown.started]
        exact hwas
      · rw [hlisted,silent_unheard hbeat hcheck]
        exact hknown.active
      · rw [hlisted,silent_unheard hbeat hcheck]
        exact hknown.unhealthy
      · intro hl now
        rw [late_unheard hbeat]
        exact hknown.seen (hlisted.mp hl) now
    · refine (hs.known c).apart (hapart c hc) ?_ rfl rfl
      simp [Discovery.setClient,hc]

theorem DiscoverySound.check (hs : DiscoverySound storeInfo ids events s) (now : Int)
    {order : List String} (horder : order.Perm s.registry.stores.keys) :
    DiscoverySound storeInfo ids (events ++ [.check now order])
      { s with registry := checkUnhealthyStores now order s.registry } := by
  have hstores := (checkUnhealthyStores_changed (r := s.registry) now order).1
  obtain ⟨events',hchanged,-⟩ := (checkUnhealthyStores_changed (r := s.registry) now order).2
  refine ⟨fun c => (hchanged.id _).trans (hs.id c),fun id p hp =>
    hs.only id p (by rwa [hstores] at hp),
    fun c => ?_⟩
  have hknown := hs.known c
  have hbeat : (DiscoveryOp.check now order : DiscoveryOp κ).beat c = none := rfl
  have hstarted : Started c (events ++ [.check now order]) ↔ Started c events :=
    started_keeps (by simp) (by simp)
  have hlisted : Listed c (events ++ [.check now order]) ↔ Listed c events :=
    listed_keeps (by simp) (by simp)
  have hobject :
    Listed c events → (checkUnhealthyStores now order s.registry).objects (storeInfo c) =
      checked now (s.registry.objects (storeInfo c)) := by
    intro hl
    have hfound := hknown.listed.mpr hl
    rw [checkUnhealthyStores_objects]
    refine if_pos ⟨ids c,?_,hfound⟩
    rw [horder.mem_iff,← AList.mem_keys,← AList.lookup_isSome,hfound]
    rfl
  refine ⟨hknown.started.trans hstarted.symm,?_,?_,fun hl hsilent => ?_,
    fun hl hsilent => ?_,fun hl now' => ?_⟩
  · rw [hlisted,hstores]
    exact hknown.listed
  · rw [hstarted,hlisted]
    exact hknown.stays
  · rw [hlisted] at hl
    rw [silent_check,not_or] at hsilent
    rw [hobject hl,checked,if_neg fun hboth => hsilent.1 ((hknown.seen hl now).mpr hboth.1)]
    exact hknown.active hl hsilent.2
  · rw [hlisted] at hl
    rw [hobject hl]
    by_cases hbefore : Silent c events
    · have hstatus := hknown.unhealthy hl hbefore
      rw [checked,if_neg fun hboth => by simp [hstatus] at hboth]
      exact hstatus
    · have hlate := (silent_check now order).mp hsilent
      rw [checked,if_pos ⟨(hknown.seen hl now).mp (hlate.resolve_right hbefore),
        hknown.active hl hbefore⟩]
  · rw [hlisted] at hl
    rw [late_unheard hbeat,hobject hl,(checked_rest now _).2]
    exact hknown.seen hl now'

theorem DiscoverySound.next (hs : DiscoverySound storeInfo ids events s) (hids : ids.Injective)
    (hstep : s.next storeInfo op = some s') : DiscoverySound storeInfo ids (events ++ [op]) s' := by
  cases op with
  | start d now =>
    cases hstep
    refine hs.register hids (.inl rfl) rfl
      (fun c hc => by simp [Discovery.start,Discovery.setClient,hc]) ?_
    refine iff_of_true (by simp [Discovery.start,Discovery.setClient]) ?_
    exact since_snoc.mpr (.inl ⟨now,rfl⟩)
  | updateMetadata d now =>
    cases hstep
    refine hs.register hids (.inr rfl) rfl (fun c _ => rfl) ?_
    exact (hs.known d).started.trans (started_keeps (by simp) (by simp)).symm
  | stop d =>
    cases hstep
    exact hs.stop hids d
  | tick d now =>
    simp only [Discovery.next,Option.ite_none_right_eq_some,Option.some.injEq] at hstep
    obtain ⟨-,rfl⟩ := hstep
    exact hs.tick hids d now
  | check now order =>
    simp only [Discovery.next,Option.ite_none_right_eq_some,Option.some.injEq] at hstep
    obtain ⟨horder,rfl⟩ := hstep
    exact hs.check now horder
  | cancelled d =>
    simp only [Discovery.next,Option.map_eq_some_iff] at hstep
    obtain ⟨-,-,rfl⟩ := hstep
    refine hs.rest (fun c => ⟨rfl,by simp,by simp⟩) rfl rfl fun c => ?_
    by_cases hc : c = d
    · subst hc
      simp [Discovery.setClient]
    · simp [Discovery.setClient,hc]
  | leave d =>
    simp only [Discovery.next,Option.ite_none_right_eq_some,Option.some.injEq] at hstep
    obtain ⟨-,rfl⟩ := hstep
    refine hs.rest (fun c => ⟨rfl,by simp,by simp⟩) rfl rfl fun c => ?_
    by_cases hc : c = d
    · subst hc
      simp [Discovery.setClient]
    · simp [Discovery.setClient,hc]
  | watch =>
    cases hstep
    exact hs.rest (fun c => ⟨rfl,by simp,by simp⟩) rfl rfl fun c => rfl

theorem discoverySound_run (objects : Nat → StoreInfo)
    (hids : Function.Injective fun c => (objects (storeInfo c)).id) (events : List (DiscoveryOp κ))
    (hrun : runDiscovery storeInfo (newDiscovery objects) events = some s) :
    DiscoverySound storeInfo (fun c => (objects (storeInfo c)).id) events s := by
  induction events using List.reverseRecOn generalizing s with
  | nil =>
    cases hrun
    exact discoverySound_new objects
  | append_singleton events op ih =>
    rw [runDiscovery,runs_concat,Option.bind_eq_some_iff] at hrun
    obtain ⟨t,hbefore,hstep⟩ := hrun
    exact (ih hbefore).next hids hstep

theorem DiscoverySound.mem_listActiveStores (hs : DiscoverySound storeInfo ids events s)
    {order : List String} (horder : order.Perm s.registry.stores.keys) (p : Nat) :
    p ∈ listActiveStores order s.registry ↔
      ∃ c, p = storeInfo c ∧ Listed c events ∧ ¬ Silent c events := by
  simp only [listActiveStores,listStores,List.mem_filter,List.mem_filterMap,decide_eq_true_eq]
  constructor
  · rintro ⟨⟨id,-,hfound⟩,hstatus⟩
    obtain ⟨c,rfl,rfl⟩ := hs.only id p hfound
    have hl := (hs.known c).listed.mp hfound
    refine ⟨c,rfl,hl,fun hsilent => ?_⟩
    rw [(hs.known c).unhealthy hl hsilent] at hstatus
    simp at hstatus
  · rintro ⟨c,rfl,hl,hsilent⟩
    have hfound := (hs.known c).listed.mpr hl
    refine ⟨⟨ids c,?_,hfound⟩,(hs.known c).active hl hsilent⟩
    rw [horder.mem_iff,← AList.mem_keys,← AList.lookup_isSome,hfound]
    rfl

theorem DiscoverySound.mem_stores (hs : DiscoverySound storeInfo ids events s)
    (hids : ids.Injective) (c : κ) :
    ids c ∈ s.registry.stores ↔ Listed c events := by
  rw [← (hs.known c).listed,← AList.lookup_isSome]
  constructor
  · intro hsome
    obtain ⟨p,hp⟩ := Option.isSome_iff_exists.mp hsome
    rw [hp,hs.lookup hids hp]
  · intro hfound
    rw [hfound]
    rfl

theorem DiscoverySound.stop_ok (hs : DiscoverySound storeInfo ids events s) (c : κ) :
    (s.stop storeInfo c).1 = .ok () := by
  obtain ⟨-,r',hstop,-⟩ | ⟨-,hstop⟩ := hs.stop_cases c <;> rw [hstop]

end Follows

section Results
variable {κ : Type} [DecidableEq κ]

/-- In every run of clients whose stores have different IDs, with heartbeats, checks, starts
and stops in any order: the active stores are those that were registered and not taken out
since, and of which no check since their last sign of life came more than a minute after it. -/
theorem active_stores_heard (storeInfo : κ → Nat) (objects : Nat → StoreInfo)
    (hids : Function.Injective fun c => (objects (storeInfo c)).id) (events : List (DiscoveryOp κ))
    {s : Discovery κ} (hrun : runDiscovery storeInfo (newDiscovery objects) events = some s)
    (order : List String) (horder : order.Perm s.registry.stores.keys) :
    (listActiveStores order s.registry).Nodup ∧
      ∀ p, p ∈ listActiveStores order s.registry ↔
        ∃ c, p = storeInfo c ∧ Listed c events ∧ ¬ Silent c events := by
  have hs := discoverySound_run objects hids events hrun
  exact ⟨listActiveStores_nodup hs.keyed (horder.nodup_iff.mpr s.registry.stores.nodupKeys),
    hs.mem_listActiveStores horder⟩

/-- In the same runs a `Stop` never fails, and a store is in the registry exactly if it was
registered and no `Stop` of its started client came since: a heartbeat that comes late does
not bring it back. -/
theorem stop_takes_out (storeInfo : κ → Nat) (objects : Nat → StoreInfo)
    (hids : Function.Injective fun c => (objects (storeInfo c)).id) (events : List (DiscoveryOp κ))
    {s : Discovery κ} (hrun : runDiscovery storeInfo (newDiscovery objects) events =
      some s) (c : κ) :
    (s.stop storeInfo c).1 = .ok () ∧
      ((objects (storeInfo c)).id ∈ s.registry.stores ↔ Listed c events) := by
  have hs := discoverySound_run objects hids events hrun
  exact ⟨hs.stop_ok c,hs.mem_stores hids c⟩

end Results

/-- Two stores, of which the second is not heard of again, and stopped in the end. -/
def twoObjects (p : Nat) : StoreInfo := ⟨if p = 0 then "a" else "b","","inactive",0⟩

def heardOnce : List (DiscoveryOp Bool) :=
  [.start false 0,.start true 0,.tick false (50*second),.check (70*second) ["a","b"]]

theorem twoObjects_ids : Function.Injective fun c : Bool => (twoObjects c.toNat).id := by
  intro c d h
  cases c <;> cases d <;> simp [twoObjects] at h ⊢

theorem active_stores_heard_once :
    ∃ s, runDiscovery Bool.toNat (newDiscovery twoObjects) heardOnce = some s ∧
      listActiveStores ["a","b"] s.registry = [0] ∧ Listed false heardOnce ∧
        ¬ Silent false heardOnce := by
  have hrun : (runDiscovery Bool.toNat (newDiscovery twoObjects) heardOnce).map (fun s =>
      (listActiveStores ["a","b"] s.registry,s.registry.stores.keys)) = some ([0],["b","a"]) := by
    decide +kernel
  rw [Option.map_eq_some_iff] at hrun
  obtain ⟨s,hs,hlists⟩ := hrun
  rw [Prod.mk.injEq] at hlists
  have hperm : ["a","b"].Perm s.registry.stores.keys := by
    rw [hlists.2]
    exact List.Perm.swap _ _ _
  obtain ⟨c,hc,hl⟩ := ((active_stores_heard Bool.toNat twoObjects twoObjects_ids heardOnce hs
    ["a","b"] hperm).2 0).mp (by rw [hlists.1]; exact List.mem_singleton_self 0)
  cases c with
  | false => exact ⟨s,hs,hlists.1,hl⟩
  | true => cases hc

/-- A heartbeat after the end. -/
def heardAfterStop : List (DiscoveryOp Bool) := heardOnce ++ [.stop true,.tick true (80*second)]

theorem stop_takes_out_after_stop :
    ∃ s, runDiscovery Bool.toNat (newDiscovery twoObjects) heardAfterStop = some s ∧
      (s.clients true).beating = 1 ∧ ¬ Listed true heardAfterStop ∧
        (s.stop Bool.toNat true).1 = .ok () := by
  have hrun : (runDiscovery Bool.toNat (newDiscovery twoObjects) heardAfterStop).map (fun s =>
      ((s.clients true).beating,s.registry.stores.keys)) = some (1,["a"]) := by
    decide +kernel
  rw [Option.map_eq_some_iff] at hrun
  obtain ⟨s,hs,hfound⟩ := hrun
  rw [Prod.mk.injEq] at hfound
  obtain ⟨hok,hmem⟩ := stop_takes_out Bool.toNat twoObjects twoObjects_ids heardAfterStop hs true
  refine ⟨s,hs,hfound.1,fun hl => ?_,hok⟩
  have hin := hmem.mpr hl
  rw [AList.mem_keys,hfound.2] at hin
  simp [twoObjects] at hin

end Imy.Registry
