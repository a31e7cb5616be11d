import Imy.Access.Accessor
import Imy.Index.StoreLoads
import Imy.Storage.Growth
set_option autoImplicit false

namespace Imy.Index

def GlobalIndex.primaryStore (g : GlobalIndex) (timelineKey : String) : Option String :=
  (g.blocksOf timelineKey).head?.map fun e => (g.entries e).storeID

theorem GlobalIndex.primaryStore_of_located {g : GlobalIndex} {k : String}
    {location : TimelineLocation} (hk : g.timelineIndex k = some location) :
    g.primaryStore k = location.blocks.head?.map fun e => (g.entries e).storeID := by
  simp only [GlobalIndex.primaryStore,GlobalIndex.blocksOf,hk]

theorem GlobalIndex.located_of_primary {g : GlobalIndex} {k s : String}
    (hs : g.primaryStore k = some s) :
    ∃ location, g.timelineIndex k = some location := by
  cases hk : g.timelineIndex k with
  | some location => exact ⟨location,rfl⟩
  | none => simp [GlobalIndex.primaryStore,GlobalIndex.blocksOf,hk] at hs

theorem Added.primaryStore {g g' : GlobalIndex} {index : GlobalStoreIndex} (ha : Added g index g')
    (hw : g.WellFormed) :
    g'.primaryStore index.timelineKey =
      some ((g.primaryStore index.timelineKey).getD index.storeID) := by
  obtain ⟨updatedAt,hentry⟩ := ha.entry
  rw [GlobalIndex.primaryStore,ha.blocksOf_self,GlobalIndex.primaryStore]
  cases hblocks : g.blocksOf index.timelineKey with
  | nil => simp [hentry]
  | cons e es =>
    have he : e < g.allocated := by
      cases hk : g.timelineIndex index.timelineKey with
      | none => simp [GlobalIndex.blocksOf,hk] at hblocks
      | some location =>
        simp only [GlobalIndex.blocksOf,hk] at hblocks
        exact hw.pointers _ location hk e (by simp [hblocks])
    simp [ha.entries e (Nat.ne_of_lt he)]

end Imy.Index

namespace Imy.Access
open Imy.Lib Imy.Storage

/-- The timeline is on the local store by its first block. -/
def Accessor.Holds (g : Accessor) (timelineKey : String) : Prop :=
  g.index.primaryStore timelineKey = some g.host.store.storeID

section Specs
variable {around : Around} {k : String} {g : Accessor}

theorem wp_primaryStoreID {Q : Option String → Accessor → Prop} {E : AccessFault → Accessor → Prop}
    (hfound : ∀ location, g.index.timelineIndex k = some location → Q (g.index.primaryStore k) g)
    (hnot : g.index.timelineIndex k = none → ∀ e, E e g) : wp (primaryStoreID k) Q E g := by
  simp only [primaryStoreID,wp_bind,onIndex,wp_onPart,Index.getTimelineLocation,wp_get]
  cases hk : g.index.timelineIndex k with
  | none => exact hnot hk _
  | some location =>
    have hq := hfound location hk
    rw [Index.GlobalIndex.primaryStore_of_located hk] at hq
    exact hq

theorem wp_primaryOrFail {Q : String → Accessor → Prop} {E : AccessFault → Accessor → Prop}
    (hfound : ∀ s, g.index.primaryStore k = some s → Q s g)
    (hnot : g.index.primaryStore k = none → ∀ e, E e g) : wp (primaryOrFail k) Q E g := by
  rw [primaryOrFail,wp_bind]
  refine wp_primaryStoreID (fun location _ => ?_) (fun hnone => hnot ?_)
  · cases hs : g.index.primaryStore k with
    | some s => exact hfound s hs
    | none => exact hnot hs _
  · simp [Index.GlobalIndex.primaryStore,Index.GlobalIndex.blocksOf,hnone]

structure Fetched (env : Env) (k : String) (g t : Accessor) : Prop where
  ready : Ready env ⟨.conv,k⟩ g.host t.host
  state : t = (g.setHost t.host).cacheTimeline k (some ⟨.conv,k⟩)

theorem wp_getLocalTimeline (around : Around) (k : String) (g : Accessor) :
    wp (getLocalTimeline around k) (fun r t => r = ⟨.conv,k⟩ ∧ Fetched around.env k g t)
      (fun _ _ => False) g := by
  simp only [getLocalTimeline,wp_bind,onStore,wp_onPart,getOrCreateConvTimeline,wp_pure,wp_modify]
  refine wp_mono (wp_getOrCreateTimeline around.env ⟨.conv,k⟩ g.host) ?_ (fun _ _ h => h)
  exact fun _ h hready => ⟨trivial,hready,rfl⟩

def Accessor.Readable (g : Accessor) (k : String) : Prop :=
  (g.index.timelineIndex k).isSome ∧ ∀ s, g.index.primaryStore k = some s → s = g.host.store.storeID

theorem Accessor.Holds.readable (h : g.Holds k) : g.Readable k := by
  obtain ⟨location,hlocation⟩ := Index.GlobalIndex.located_of_primary h
  refine ⟨by rw [hlocation]; rfl,fun s hs => ?_⟩
  rw [h] at hs
  exact (Option.some.inj hs).symm

theorem wp_getTimeline (around : Around) (k : String) (g : Accessor) :
    wp (getTimeline around k)
      (fun r t => g.timelineCache k = some r ∧ t = g ∨
        g.timelineCache k = none ∧ g.Readable k ∧ r = ⟨.conv,k⟩ ∧ Fetched around.env k g t)
      (fun _ t => t = g ∧ g.timelineCache k = none ∧ ¬ g.Readable k) g := by
  simp only [getTimeline,wp_bind,wp_get]
  cases hc : g.timelineCache k with
  | some r => exact Or.inl ⟨rfl,rfl⟩
  | none =>
    simp only [wp_bind]
    refine wp_primaryStoreID (fun location hlocation => ?_)
      (fun hnone e => ⟨rfl,trivial,fun hread => by simpa [hnone] using hread.1⟩)
    have hread : (∀ s, g.index.primaryStore k = some s → s = g.host.store.storeID) →
        wp (getLocalTimeline around k) (fun r t => none = some r ∧ t = g ∨
          True ∧ g.Readable k ∧ r = ⟨.conv,k⟩ ∧ Fetched around.env k g t)
          (fun _ t => t = g ∧ True ∧ ¬ g.Readable k) g := by
      intro hlocal
      refine wp_mono (wp_getLocalTimeline around k g) ?_ (fun _ _ h => h.elim)
      rintro r t ⟨hr,hfetched⟩
      exact Or.inr ⟨trivial,⟨by rw [hlocation]; rfl,hlocal⟩,hr,hfetched⟩
    cases hs : g.index.primaryStore k with
    | none => exact hread (by simp [hs])
    | some s =>
      simp only [wp_ite]
      split
      · rename_i heq
        simpa using hread fun s' hs' => by
          rw [hs] at hs'
          exact (Option.some.inj hs').symm.trans heq
      · rename_i hne
        exact ⟨rfl,trivial,fun hr => hne (hr.2 s hs)⟩

def Created (env : Env) (k timelineType : String) (h t : Host) : Prop :=
  timelineType = "conv" ∧ Ready env ⟨.conv,k⟩ h t ∨ timelineType = "user" ∧
    Ready env ⟨.user,k⟩ h t ∨
    timelineType ≠ "conv" ∧ timelineType ≠ "user" ∧ t = h

theorem wp_createLocalTimeline (env : Env) (k timelineType : String) (h : Host) :
    wp (createLocalTimeline env k timelineType) (fun _ t => Created env k timelineType h t)
      (fun _ _ => False) h := by
  rw [createLocalTimeline,wp_ite]
  split
  · rename_i hconv
    simp only [wp_bind,getOrCreateConvTimeline,wp_pure]
    exact wp_mono (wp_getOrCreateTimeline env ⟨.conv,k⟩ h) (fun _ _ hready =>
      Or.inl ⟨hconv,hready⟩) fun _ _ h => h
  · rename_i hconv
    rw [wp_ite]
    split
    · rename_i huser
      simp only [wp_bind,getOrCreateUserTimeline,wp_pure]
      exact wp_mono (wp_getOrCreateTimeline env ⟨.user,k⟩ h)
        (fun _ _ hready => Or.inr (Or.inl ⟨huser,hready⟩)) fun _ _ h => h
    · rename_i huser
      exact Or.inr (Or.inr ⟨hconv,huser,rfl⟩)

structure CreatedHere (around : Around) (k timelineType : String) (g t : Accessor) : Prop where
  routed : around.routeTimeline k = .ok g.host.store.storeID
  created : Created around.env k timelineType g.host t.host
  state : t = (g.setHost t.host).setIndex
    (final (addCreated around.clock k g.host.store.storeID) g.index)

theorem wp_addCreated (clock : Nat → Int) (k s : String) (g : Index.GlobalIndex) :
    wp (addCreated clock k s) (fun _ t => ∃ createdAt updatedAt,
      Index.Added g ⟨k,s,"",0,0,createdAt,updatedAt⟩ t) (fun _ _ => False) g := by
  simp only [addCreated,wp_bind,Index.wp_readTime]
  refine wp_mono (Index.wp_addIndex_added clock _ _) ?_ (fun _ _ h => h)
  exact fun _ t ha =>
    ⟨_,_,ha.allocated,ha.entry,ha.entries,ha.location,ha.locations,ha.store,ha.load,ha.stores⟩

theorem wp_createTimeline (around : Around) (k timelineType : String) (g : Accessor) :
    wp (createTimeline around k timelineType) (fun _ t => CreatedHere around k timelineType g t)
      (fun _ t => t = g ∧ around.routeTimeline k ≠ .ok g.host.store.storeID) g := by
  rw [createTimeline]
  cases hroute : around.routeTimeline k with
  | error text => exact ⟨rfl,by simp⟩
  | ok s =>
    simp only [wp_bind,wp_get,wp_ite]
    split
    · rename_i heq
      simp only [onStore,wp_onPart,onIndex]
      refine wp_mono (wp_createLocalTimeline around.env k timelineType g.host) ?_
        (fun _ _ h => h.elim)
      intro _ h hcreated
      refine wp_mono (wp_and (wp_addCreated around.clock k s g.index) (wp_final _ _)) ?_
        (fun _ _ h => h.1.elim)
      rintro _ index ⟨-,rfl⟩
      rw [heq] at hroute
      exact ⟨hroute,hcreated,by rw [heq]; rfl⟩
    · rename_i hne
      exact ⟨rfl,fun h => hne (Except.ok.inj h)⟩

theorem CreatedHere.added {timelineType : String} {t : Accessor}
    (hc : CreatedHere around k timelineType g t) :
    ∃ createdAt updatedAt, Index.Added g.index
      ⟨k,g.host.store.storeID,"",0,0,createdAt,updatedAt⟩ t.index := by
  rw [hc.state]
  exact final_of_wp (wp_mono (wp_addCreated around.clock k _ g.index) (fun _ _ h => h)
    (fun _ _ h => h.elim))

structure Deleted (around : Around) (k : String) (g t : Accessor) : Prop where
  held : g.Holds k
  removed : ∃ e, Index.Removed g.index k g.host.store.storeID e t.index
  state : t = (g.setIndex (final (Index.removeIndex around.clock k g.host.store.storeID)
    g.index)).cacheTimeline k none

theorem wp_deleteTimeline (around : Around) (k : String) (g : Accessor) :
    wp (deleteTimeline around k) (fun _ t => Deleted around k g t)
      (fun _ t => t = g ∧ ¬ (g.Holds k ∧
        ∃ e ∈ g.index.blocksOf k, (g.index.entries e).blockID = g.host.store.storeID)) g := by
  rw [deleteTimeline,wp_bind]
  refine wp_primaryOrFail (fun s hs => ?_) (fun hnone _ =>
    ⟨rfl,fun h => by simp [Accessor.Holds,hnone] at h⟩)
  simp only [wp_bind,wp_get,wp_ite]
  split
  · rename_i heq
    subst heq
    simp only [onIndex,wp_onPart,wp_modify]
    refine wp_mono (wp_and (Index.wp_removeIndex_removed around.clock k _ g.index)
      (wp_final _ _)) ?_ ?_
    · rintro _ index ⟨hremoved,rfl⟩
      exact ⟨hs,hremoved,rfl⟩
    · rintro _ index ⟨⟨rfl,hnone⟩,-⟩
      refine ⟨rfl,?_⟩
      rintro ⟨-,e,he,hid⟩
      exact hnone e he hid
  · rename_i hne
    refine ⟨rfl,fun h => hne ?_⟩
    have hheld := h.1
    rw [Accessor.Holds,hs] at hheld
    exact Option.some.inj hheld

theorem wp_addMessage {senderID : UInt32} {data : List UInt8} {userIDs : List String}
    {Q : Unit → Accessor → Prop} {E : AccessFault → Accessor → Prop}
    (hheld : g.Holds k → wp (Store.addMessage around.env k senderID data userIDs)
      (fun a h => Q a (g.setHost h)) (fun e h => E (ofStore e) (g.setHost h)) g.host)
    (hnot : ¬ g.Holds k → ∀ e, E e g) : wp (addMessage around k senderID data userIDs) Q E g := by
  rw [addMessage,wp_bind]
  refine wp_primaryOrFail (fun s hs => ?_)
    (fun hnone => hnot fun hheld => by simp [Accessor.Holds,hnone] at hheld)
  simp only [wp_bind,wp_get,wp_ite]
  split
  · rename_i heq
    subst heq
    simp only [onStore,wp_onPart]
    exact hheld hs
  · rename_i hne
    refine hnot (fun hheld => hne ?_) _
    rw [Accessor.Holds,hs] at hheld
    exact Option.some.inj hheld

def Accessor.keep (g : Accessor) (q : Query) (messages : List Message) : Accessor :=
  if messages ≠ [] then g.cacheMessages q.cacheKey messages else g

section Keep
variable (g : Accessor) (q : Query) (messages : List Message)

@[simp] theorem Accessor.keep_host : (g.keep q messages).host = g.host := by
  rw [Accessor.keep]
  split <;> rfl

@[simp] theorem Accessor.keep_index : (g.keep q messages).index = g.index := by
  rw [Accessor.keep]
  split <;> rfl

@[simp] theorem Accessor.keep_timelineCache :
    (g.keep q messages).timelineCache = g.timelineCache := by
  rw [Accessor.keep]
  split <;> rfl

theorem Accessor.keep_messageCache : (g.keep q messages).messageCache =
    if messages ≠ [] then Function.update g.messageCache q.cacheKey (some messages)
      else g.messageCache := by
  rw [Accessor.keep]
  split <;> rfl

end Keep

/-- What `GetMessages` does when the answer is cached and when it is not. -/
theorem wp_getMessages (around : Around) (q : Query) (g : Accessor) :
    wp (getMessages around q)
      (fun messages t => g.messageCache q.cacheKey = some messages ∧ t = g ∨
        g.messageCache q.cacheKey = none ∧ g.Holds q.timelineKey ∧
          ∃ r u, getTimeline around q.timelineKey g = .ok r u ∧
            messages = collectBlocks q (u.host.timeline r).blocks [] ∧ t = u.keep q messages)
      (fun _ t => t = g ∧ g.messageCache q.cacheKey = none ∧ ¬ g.Holds q.timelineKey) g := by
  simp only [getMessages,wp_bind,wp_get]
  cases hcached : g.messageCache q.cacheKey with
  | some messages => exact Or.inl ⟨rfl,rfl⟩
  | none =>
    simp only [wp_bind]
    refine wp_primaryOrFail (fun s hs => ?_)
      (fun hnone _ => ⟨rfl,trivial,fun hheld => by simp [Accessor.Holds,hnone] at hheld⟩)
    simp only [wp_ite]
    split
    · rename_i heq
      have hheld : g.Holds q.timelineKey := hs.trans (congrArg some heq)
      cases hget : getTimeline around q.timelineKey g with
      | error e t =>
        have hfail := wp_error (wp_getTimeline around q.timelineKey g) hget
        exact (hfail.2.2 hheld.readable).elim
      | ok r u =>
        simp only [wp_bind]
        refine wp_of_eq_ok hget ?_
        simp only [wp_get,wp_pure,wp_ite]
        split
        · rename_i hne
          exact Or.inr ⟨trivial,hheld,r,u,rfl,rfl,(if_pos hne).symm⟩
        · rename_i hne
          exact Or.inr ⟨trivial,hheld,r,u,rfl,rfl,(if_neg hne).symm⟩
    · rename_i hne
      refine ⟨rfl,trivial,fun hheld => hne ?_⟩
      rw [Accessor.Holds,hs] at hheld
      exact Option.some.inj hheld

theorem wp_migrateTimeline (around : Around) (k targetStoreID : String) (g : Accessor) :
    wp (migrateTimeline around k targetStoreID)
      (fun _ t => t = g ∧ g.index.primaryStore k = some targetStoreID)
      (fun _ t => t = g ∧ g.index.primaryStore k ≠ some targetStoreID) g := by
  rw [migrateTimeline,wp_bind]
  refine wp_primaryOrFail (fun s hs => ?_) (fun hnone _ => ⟨rfl,by simp [hnone]⟩)
  rw [wp_ite]
  split
  · rename_i heq
    exact ⟨rfl,heq ▸ hs⟩
  · rename_i hne
    exact ⟨rfl,fun h => hne (Option.some.inj (hs.symm.trans h))⟩

end Specs

section Sound

/-- What holds of the parts in every state: a cached timeline is the conversation of its
key, in memory, and the index is in order. -/
structure Accessor.Sound (g : Accessor) : Prop where
  pointed : g.host.Pointed
  cached : ∀ k r, g.timelineCache k = some r → r = ⟨.conv,k⟩ ∧ (g.host.store.find r).isSome
  wellFormed : g.index.WellFormed
  loads : Index.LoadsBut ∅ g.index

variable {g t : Accessor}

theorem Accessor.Sound.onHost (hs : g.Sound) {h : Host} (hon : g.host.Onward h) (hp : h.Pointed) :
    (g.setHost h).Sound :=
  ⟨hp,fun k r hr => ⟨(hs.cached k r hr).1,(hon r (hs.cached k r hr).2).1⟩,hs.wellFormed,hs.loads⟩

theorem Accessor.Sound.onIndex (hs : g.Sound) {index : Index.GlobalIndex} (hw : index.WellFormed)
    (hl : Index.LoadsBut ∅ index) : (g.setIndex index).Sound :=
  ⟨hs.pointed,hs.cached,hw,hl⟩

theorem Accessor.Sound.exec (hs : g.Sound) (clock : Nat → Int) (op : Index.IndexOp) :
    (g.setIndex (final (op.exec clock) g.index)).Sound :=
  hs.onIndex (final_of_wp (Index.wp_exec_wellFormed clock op hs.wellFormed))
    (final_of_wp (Index.wp_exec_loads clock op hs.wellFormed hs.loads))

theorem Accessor.Sound.uncache (hs : g.Sound) (k : String) : (g.cacheTimeline k none).Sound := by
  refine ⟨hs.pointed,fun k' r hr => ?_,hs.wellFormed,hs.loads⟩
  by_cases hk : k' = k
  · subst hk
    simp at hr
  · rw [Accessor.cacheTimeline_timelineCache,Function.update_of_ne hk] at hr
    exact hs.cached k' r hr

theorem Accessor.Sound.keep (hs : g.Sound) (q : Query) (messages : List Message) :
    (g.keep q messages).Sound where
  pointed := by simpa using hs.pointed
  cached := by simpa using hs.cached
  wellFormed := by simpa using hs.wellFormed
  loads := by simpa using hs.loads

theorem Fetched.sound {env : Env} {k : String} (hf : Fetched env k g t) (hs : g.Sound) :
    t.Sound := by
  have hhost := hs.onHost hf.ready.onward (hf.ready.pointed hs.pointed)
  rw [hf.state]
  refine ⟨hhost.pointed,fun k' r hr => ?_,hhost.wellFormed,hhost.loads⟩
  by_cases hk : k' = k
  · subst hk
    rw [Accessor.cacheTimeline_timelineCache,Function.update_self] at hr
    obtain rfl := Option.some.inj hr
    exact ⟨rfl,hf.ready.found⟩
  · rw [Accessor.cacheTimeline_timelineCache,Function.update_of_ne hk] at hr
    exact hhost.cached k' r hr

inductive AccessOp where
  | getTimeline (timelineKey : String)
  | createTimeline (timelineKey timelineType : String)
  | deleteTimeline (timelineKey : String)
  | addMessage (timelineKey : String) (senderID : UInt32) (data : List UInt8)
    (userIDs : List String)
  | getMessages (q : Query)
  | migrateTimeline (timelineKey targetStoreID : String)

def AccessOp.exec (around : Around) : AccessOp → AccessM Unit
  | .getTimeline k => do let _ ← Access.getTimeline around k
  | .createTimeline k timelineType => Access.createTimeline around k timelineType
  | .deleteTimeline k => Access.deleteTimeline around k
  | .addMessage k senderID data userIDs => Access.addMessage around k senderID data userIDs
  | .getMessages q => do let _ ← Access.getMessages around q
  | .migrateTimeline k targetStoreID => Access.migrateTimeline around k targetStoreID

variable {around : Around}

theorem wp_getTimeline_sound (hs : g.Sound) (k : String) :
    wp (getTimeline around k) (fun _ t => t.Sound) (fun _ t => t.Sound) g := by
  refine wp_mono (wp_getTimeline around k g) ?_ ?_
  · rintro r t (⟨-,rfl⟩ | ⟨-,-,-,hf⟩)
    · exact hs
    · exact hf.sound hs
  · rintro _ t ⟨rfl,-⟩
    exact hs

theorem Created.onward {env : Env} {k timelineType : String} {h h' : Host}
    (hc : Created env k timelineType h h') (hp : h.Pointed) : h.Onward h' ∧ h'.Pointed := by
  rcases hc with ⟨-,hready⟩ | ⟨-,hready⟩ | ⟨-,-,rfl⟩
  · exact ⟨hready.onward,hready.pointed hp⟩
  · exact ⟨hready.onward,hready.pointed hp⟩
  · exact ⟨(Host.Idle.refl h').onward,hp⟩

theorem wp_addCreated_sound (clock : Nat → Int) {index : Index.GlobalIndex} (hw : index.WellFormed)
    (hl : Index.LoadsBut ∅ index) (k s : String) :
    wp (addCreated clock k s) (fun _ t => t.WellFormed ∧ Index.LoadsBut ∅ t)
      (fun _ _ => False) index := by
  simp only [addCreated,wp_bind,Index.wp_readTime]
  have hw' : index.advance.advance.WellFormed := ⟨hw.counted,hw.pointers⟩
  exact wp_mono (wp_and (Index.wp_addIndex clock _ hw')
    (Index.wp_addIndex_loads clock hl.advance.advance _))
    (fun _ _ h => ⟨h.1.1,h.2⟩) (fun _ _ h => h.1)

theorem CreatedHere.sound {k timelineType : String} (hc : CreatedHere around k timelineType g t)
    (hs : g.Sound) :
    t.Sound := by
  obtain ⟨hon,hp⟩ := hc.created.onward hs.pointed
  have hindex := final_of_wp (wp_mono (wp_addCreated_sound around.clock hs.wellFormed hs.loads k
    g.host.store.storeID) (fun _ _ h => h) (fun _ _ h => h.elim))
  rw [hc.state]
  exact (hs.onHost hon hp).onIndex hindex.1 hindex.2

theorem Deleted.sound {k : String} (hd : Deleted around k g t) (hs : g.Sound) : t.Sound := by
  rw [hd.state]
  exact (hs.exec around.clock (.removeIndex k g.host.store.storeID)).uncache k

theorem wp_send_sound (env : Env) (hs : g.Sound) (k : String) (senderID : UInt32)
    (data : List UInt8) (userIDs : List String) :
    wp (Store.addMessage env k senderID data userIDs) (fun _ h => (g.setHost h).Sound)
      (fun _ h => (g.setHost h).Sound) g.host := by
  have hgrown := send_growth env ⟨k,senderID,data,userIDs⟩ hs.pointed
  exact wp_of_final (hs.onHost hgrown.1 hgrown.2.1)

theorem wp_exec_sound (around : Around) (op : AccessOp) (hs : g.Sound) :
    wp (op.exec around) (fun _ t => t.Sound) (fun _ t => t.Sound) g := by
  cases op with
  | getTimeline k =>
    simp only [AccessOp.exec,wp_bind,wp_pure]
    exact wp_getTimeline_sound hs k
  | createTimeline k timelineType =>
    refine wp_mono (wp_createTimeline around k timelineType g) (fun _ t hc => hc.sound hs) ?_
    rintro _ t ⟨rfl,-⟩
    exact hs
  | deleteTimeline k =>
    refine wp_mono (wp_deleteTimeline around k g) (fun _ t hd => hd.sound hs) ?_
    rintro _ t ⟨rfl,-⟩
    exact hs
  | addMessage k senderID data userIDs =>
    exact wp_addMessage (fun _ => wp_send_sound around.env hs k senderID data userIDs) fun _ _ => hs
  | getMessages q =>
    simp only [AccessOp.exec,wp_bind,wp_pure]
    refine wp_mono (wp_getMessages around q g) ?_ ?_
    · rintro messages t (⟨-,rfl⟩ | ⟨-,-,r,u,hget,-,rfl⟩)
      · exact hs
      · exact (wp_ok (wp_getTimeline_sound hs q.timelineKey) hget).keep q messages
    · rintro _ t ⟨rfl,-⟩
      exact hs
  | migrateTimeline k targetStoreID =>
    refine wp_mono (wp_migrateTimeline around k targetStoreID g) ?_ ?_
    · rintro _ t ⟨rfl,-⟩
      exact hs
    · rintro _ t ⟨rfl,-⟩
      exact hs

/-- The states of an accessor over any store: after its operations, whatever the router
says, and after those of others on the same store and the same index. -/
inductive Reached (env : Env) (clock : Nat → Int) : Accessor → Prop where
  | opened {h : Host} (hp : h.Pointed) : Reached env clock (newAccessor h Index.newGlobalIndex)
  | access {g : Accessor} (route : String → Except String String) (op : AccessOp)
    (hr : Reached env clock g) :
      Reached env clock (final (op.exec ⟨env,clock,route⟩) g)
  | store {g : Accessor} (op : StoreOp) (hr : Reached env clock g) :
      Reached env clock (g.setHost (final (op.exec env) g.host))
  | timeline {g : Accessor} (r : TimelineRef) (hr : Reached env clock g) :
      Reached env clock (g.setHost (final (getOrCreateTimeline env r) g.host))
  | index {g : Accessor} (op : Index.IndexOp) (hr : Reached env clock g) :
      Reached env clock (g.setIndex (final (op.exec clock) g.index))
  | time {g : Accessor} (hr : Reached env clock g) : Reached env clock (g.setIndex g.index.advance)

theorem sound_new {h : Host} (hp : h.Pointed) : (newAccessor h Index.newGlobalIndex).Sound where
  pointed := hp
  cached _ _ hr := by cases hr
  wellFormed := Index.wellFormed_new
  loads := Index.loads_new

theorem Reached.sound {env : Env} {clock : Nat → Int} (hr : Reached env clock g) : g.Sound := by
  induction hr with
  | opened hp => exact sound_new hp
  | access route op _ ih => exact final_of_wp (wp_exec_sound _ op ih)
  | store op _ ih =>
    exact ih.onHost (exec_onward env op ih.pointed)
      (final_of_wp (wp_exec_pointed env op ih.pointed))
  | timeline r _ ih =>
    have hgrown :=
      final_of_wp (wp_mono (touch_growth env r ih.pointed) (fun _ _ h => h) (fun _ _ h => h.elim))
    exact ih.onHost hgrown.1 hgrown.2.1
  | index op _ ih => exact ih.exec clock op
  | time _ ih => exact ih.onIndex ⟨ih.wellFormed.counted,ih.wellFormed.pointers⟩ ih.loads.advance

end Sound

end Imy.Access
