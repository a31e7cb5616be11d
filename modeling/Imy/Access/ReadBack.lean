import Imy.Access.CreateDelete
set_option autoImplicit false

namespace Imy.Access
open Imy.Lib Imy.Storage

theorem commit_onStore {out : Txn.Outside} {storeID : String} {o : Txn.TransactionParticipant}
    {x : StoreM TimelineRef} (h : ∀ w, Txn.defaultCommit out storeID o w = Txn.onStore x w) :
    commit out storeID o = onStore (do let _ ← x) := by
  funext g
  simp only [commit,h,Txn.onStore,onStore,onPart,bind,EStateM.bind]
  cases hx : x g.host with
  | ok a host => rfl
  | error e host => rfl

inductive Creator where
  | accessor | handler
  deriving DecidableEq, Repr

def Creator.create (around : Around) (clients : Txn.Clients) (k : String) (type : TimelineType) :
    Creator → AccessM Unit
  | .accessor => createTimeline around k type.text
  | .handler => do
    let g ← get
    let storeID := g.host.store.storeID
    let out : Txn.Outside := ⟨around.env,around.clock,clients⟩
    commit out storeID (Txn.participant storeID .createTimeline
      [("timeline_key",.string k),("timeline_type",.string type.text)])
    commit out storeID (Txn.participant storeID .updateIndex
      [("index_key",.string k),("target_store",.string storeID),("operation",.string "add")])

/-- The creation puts this timeline into the store, whatever it holds already. -/
def Creator.Puts (c : Creator) (k : String) (type : TimelineType) (r : TimelineRef) : Prop :=
  ∀ (around : Around) (clients : Txn.Clients) (g t : Accessor), g.Sound →
    c.create around clients k type g = .ok () t → (t.host.store.find r).isSome

/-- After a creation that returned nil, the accessor reads the timeline of this type and
key, and it is one that the creation has put there. -/
def ReadBack (around : Around) (clients : Txn.Clients) (c : Creator) (k : String)
    (type : TimelineType) (g : Accessor) : Prop :=
  wp (c.create around clients k type)
    (fun _ t => wp (getTimeline around k) (fun r _ => r = ⟨type,k⟩ ∧ c.Puts k type r)
      (fun _ _ => False) t)
    (fun _ _ => True) g

def Creator.made (type : TimelineType) : Creator → TimelineType
  | .accessor => type
  | .handler => .user

section Creation
variable {around : Around} {clients : Txn.Clients} {k : String} {type : TimelineType} {g : Accessor}

structure Made (around : Around) (c : Creator) (k : String) (type : TimelineType) (g t : Accessor) :
    Prop where
  ready : Ready around.env ⟨c.made type,k⟩ g.host t.host
  primary : t.index.primaryStore k = some ((g.index.primaryStore k).getD g.host.store.storeID)
  timelineCache : t.timelineCache = g.timelineCache

theorem Created.ready {env : Env} {h t : Host} (hc : Created env k type.text h t) :
    Ready env ⟨type,k⟩ h t := by
  cases type with
  | conv =>
    rcases hc with ⟨-,hready⟩ | ⟨htext,-⟩ | ⟨htext,-⟩
    · exact hready
    · exact absurd htext (by decide)
    · exact absurd rfl htext
  | user =>
    rcases hc with ⟨htext,-⟩ | ⟨-,hready⟩ | ⟨-,htext,-⟩
    · exact absurd htext (by decide)
    · exact hready
    · exact absurd rfl htext

theorem wp_create (around : Around) (clients : Txn.Clients) (k : String) (type : TimelineType)
    (hs : g.Sound) (c : Creator) :
    wp (c.create around clients k type) (fun _ t => Made around c k type g t)
      (fun _ _ => c = .accessor ∧ around.routeTimeline k ≠ .ok g.host.store.storeID) g := by
  cases c with
  | accessor =>
    refine wp_mono (wp_createTimeline around k type.text g) ?_ (fun _ _ h => ⟨rfl,h.2⟩)
    intro _ t hc
    obtain ⟨createdAt,updatedAt,ha⟩ := hc.added
    exact ⟨hc.created.ready,ha.primaryStore hs.wellFormed,by rw [hc.state]; rfl⟩
  | handler =>
    simp only [Creator.create,wp_bind,wp_get]
    rw [commit_onStore (x := getOrCreateUserTimeline around.env k),
      commit_onIndex (x := Txn.addFirstBlock around.clock k g.host.store.storeID)]
    · simp only [onStore,onIndex,wp_onPart,wp_bind,wp_pure,getOrCreateUserTimeline]
      refine wp_mono (wp_getOrCreateTimeline around.env ⟨.user,k⟩ g.host) ?_ (fun _ _ h => h.elim)
      intro _ h hready
      refine wp_mono (Txn.wp_addFirstBlock around.clock k g.host.store.storeID g.index) ?_
        (fun _ _ h => h.elim)
      rintro _ index ⟨createdAt,updatedAt,ha⟩
      exact ⟨hready,ha.primaryStore hs.wellFormed,rfl⟩
    · exact fun _ => rfl
    · -- neither text of a type is the one that the handler takes for a conversation
      intro w
      have htext : type.text ≠ "conversation" := by cases type <;> decide
      have hcommit : Txn.defaultCommit ⟨around.env,around.clock,clients⟩ g.host.store.storeID
          (Txn.participant g.host.store.storeID .createTimeline
            [("timeline_key",.string k),("timeline_type",.string type.text)]) w =
          if g.host.store.storeID = g.host.store.storeID then
            if type.text = "conversation" then Txn.onStore (getOrCreateConvTimeline around.env k) w
            else Txn.onStore (getOrCreateUserTimeline around.env k) w
          else Txn.onRemote ⟨around.env,around.clock,clients⟩ g.host.store.storeID
            "remote timeline creation not implemented" w := rfl
      rw [hcommit,if_pos rfl,if_neg htext]

theorem puts_iff (c : Creator) {r : TimelineRef} : c.Puts k type r ↔ r = ⟨c.made type,k⟩ := by
  constructor
  · intro hputs
    have hs : (newAccessor (Host.steady smallBlocks) Index.newGlobalIndex).Sound :=
      sound_new (Reachable.opened (newStore_steady smallBlocks)).pointed
    obtain ⟨_,t,hrun,hmade⟩ :=
      eq_ok_of_wp (wp_mono
        (wp_create ⟨Env.steady,fun _ => 0,fun _ => .ok "store_1"⟩ Txn.newClients k type hs c)
        (fun _ _ h => h) (fun _ _ h => h.2 rfl))
    have hfound := hputs _ _ _ t hs hrun
    by_contra hne
    -- an empty store gets one timeline
    rw [hmade.ready.loadFrame.others r hne] at hfound
    obtain ⟨_ | _,_⟩ := r <;> cases hfound
  · rintro rfl around clients g t hs hrun
    exact (wp_ok (wp_create _ _ _ _ hs c) hrun).ready.found

theorem wp_getTimeline_conv (around : Around) (k : String) (g : Accessor)
    (hcached : ∀ r, g.timelineCache k = some r → r = ⟨.conv,k⟩) :
    wp (getTimeline around k) (fun r _ => r = ⟨.conv,k⟩ ∧
      ((g.timelineCache k).isSome ∨ g.Readable k))
      (fun _ _ => ¬ ((g.timelineCache k).isSome ∨ g.Readable k)) g := by
  refine wp_mono (wp_getTimeline around k g) ?_ ?_
  · rintro r t (⟨hsome,-⟩ | ⟨-,hreadable,rfl,-⟩)
    · exact ⟨hcached r hsome,Or.inl (by rw [hsome]; rfl)⟩
    · exact ⟨rfl,Or.inr hreadable⟩
  · rintro _ t ⟨-,hnone,hnot⟩
    simpa [hnone] using hnot

/-- The timeline is cached, or its first block is local if it has one. -/
def Accessor.StaysLocal (g : Accessor) (k : String) : Prop :=
  (g.timelineCache k).isSome ∨ ∀ s, g.index.primaryStore k = some s → s = g.host.store.storeID

theorem Made.readable_iff {c : Creator} {t : Accessor} (hm : Made around c k type g t) :
    (t.timelineCache k).isSome ∨ t.Readable k ↔ g.StaysLocal k := by
  obtain ⟨location,hlocation⟩ := Index.GlobalIndex.located_of_primary hm.primary
  rw [Accessor.StaysLocal,Accessor.Readable,hm.timelineCache,hm.primary,hlocation,
    hm.ready.loadFrame.storeID]
  refine or_congr_right ?_
  cases g.index.primaryStore k <;> simp

end Creation

/-- What was created is read back exactly if the accessor created a conversation that is
cached or whose first block, if the key had one, is local; and the two ways create the
same timeline exactly for the type of a user. -/
theorem read_back_iff_conversation {env : Env} {clock : Nat → Int} {g : Accessor}
    (hr : Reached env clock g)
    (route : String → Except String String) (clients : Txn.Clients) (k : String)
    (type : TimelineType) :
    (∀ c, (c = .accessor → route k = .ok g.host.store.storeID) →
      (ReadBack ⟨env,clock,route⟩ clients c k type g ↔
        c = .accessor ∧ type = .conv ∧ g.StaysLocal k)) ∧
    ((∀ r, Creator.accessor.Puts k type r ↔ Creator.handler.Puts k type r) ↔ type = .user) := by
  have hs := hr.sound
  constructor
  · intro c hlocal
    obtain ⟨_,t,hrun,hmade⟩ :=
      eq_ok_of_wp (wp_mono (wp_create ⟨env,clock,route⟩ clients k type hs c) (fun _ _ h => h)
      (fun _ _ h => h.2 (hlocal h.1)))
    have hget := wp_getTimeline_conv ⟨env,clock,route⟩ k t fun r hsome =>
      (hs.cached k r (hmade.timelineCache ▸ hsome)).1
    rw [ReadBack,wp,hrun,← hmade.readable_iff]
    constructor
    · intro hback
      obtain ⟨r,u,hread,rfl,hputs⟩ := eq_ok_of_wp hback
      have hread' := wp_ok hget hread
      obtain ⟨hconv,hreadable⟩ := hread'
      obtain rfl := (TimelineRef.mk.inj hconv).1
      have hmadeConv := (TimelineRef.mk.inj ((puts_iff c).mp hputs)).1
      cases c with
      | accessor => exact ⟨rfl,rfl,hreadable⟩
      | handler => cases hmadeConv
    · rintro ⟨rfl,rfl,hreadable⟩
      refine wp_mono hget ?_ (fun _ _ hnot => hnot hreadable)
      rintro r u ⟨rfl,-⟩
      exact ⟨rfl,(puts_iff _).mpr rfl⟩
  · simp only [puts_iff,Creator.made]
    constructor
    · intro hsame
      have huser := (hsame ⟨type,k⟩).mp rfl
      exact (TimelineRef.mk.inj huser).1
    · rintro rfl r
      exact Iff.rfl

theorem read_back_iff_conversation_new_store :
    Reached Env.steady (fun _ => 0) (newAccessor (Host.steady smallBlocks) Index.newGlobalIndex) ∧
      ReadBack ⟨Env.steady,fun _ => 0,fun _ => .ok "store_1"⟩ Txn.newClients .accessor "c" .conv
        (newAccessor (Host.steady smallBlocks) Index.newGlobalIndex) := by
  have hr : Reached Env.steady (fun _ => 0)
      (newAccessor (Host.steady smallBlocks) Index.newGlobalIndex) :=
    .opened (Reachable.opened (newStore_steady smallBlocks)).pointed
  refine ⟨hr,((read_back_iff_conversation hr
    (fun _ => .ok "store_1") Txn.newClients "c" .conv).1 .accessor
    fun _ => rfl).mpr ⟨rfl,rfl,Or.inr fun s hs => ?_⟩⟩
  cases hs

/-- The timeline of a user is created and a conversation is read. -/
theorem user_timeline_not_read_back : ¬ ∀ (env : Env) (clock : Nat → Int) (g : Accessor)
    (route : String → Except String String) (clients : Txn.Clients) (k : String)
    (type : TimelineType),
    Reached env clock g → (∀ c, ReadBack ⟨env,clock,route⟩ clients c k type g) ∧
      ∀ r, Creator.accessor.Puts k type r ↔ Creator.handler.Puts k type r := by
  intro hall
  have hpointed := (Reachable.opened (newStore_steady smallBlocks)).pointed
  have hback := (hall Env.steady (fun _ => 0)
    (newAccessor (Host.steady smallBlocks) Index.newGlobalIndex)
    (fun _ => .ok "store_1") Txn.newClients "u" .user (.opened hpointed)).1 .accessor
  obtain ⟨_,t,hrun,hmade⟩ :=
    eq_ok_of_wp (wp_mono
      (wp_create ⟨Env.steady,fun _ => 0,fun _ => .ok "store_1"⟩ Txn.newClients "u" .user
        (sound_new hpointed) .accessor)
      (fun _ _ h => h) (fun _ _ h => h.2 rfl))
  rw [ReadBack,wp,hrun] at hback
  obtain ⟨r,u,hread,rfl,-⟩ := eq_ok_of_wp hback
  have hget := wp_getTimeline_conv ⟨Env.steady,fun _ => 0,fun _ => .ok "store_1"⟩ "u" t
    fun r hsome => by rw [hmade.timelineCache] at hsome; cases hsome
  have hread' := wp_ok hget hread
  cases hread'.1

end Imy.Access
