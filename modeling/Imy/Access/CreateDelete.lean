import Imy.Access.Reached
import Imy.Txn.DefaultHandler
import Imy.Txn.StorageManager
set_option autoImplicit false

namespace Imy.Index
open Imy.Lib

def LoadKept (clock : Nat → Int) (s : String) (g g' : GlobalIndex) : Prop :=
  wp (getStoreLoad clock s) (fun load _ =>
    wp (getStoreLoad clock s) (fun load' _ => load' = { load with lastUpdate := load'.lastUpdate })
      (fun _ _ => False) g') (fun _ _ => False) g

section LoadKept
variable {clock : Nat → Int} {g g' u : GlobalIndex} {s : String}

theorem loadKept_iff (h : LoadCurrent g s) (h' : LoadCurrent g' s) :
    LoadKept clock s g g' ↔ ∀ t, loadOf g' s t = loadOf g s t := by
  obtain ⟨_,_,hrun,t,rfl⟩ := eq_ok_of_wp (wp_getStoreLoad clock h)
  obtain ⟨_,_,hrun',t',rfl⟩ := eq_ok_of_wp (wp_getStoreLoad clock h')
  simp only [LoadKept,wp,hrun,hrun']
  constructor
  · intro heq t₀
    simp only [loadOf,StoreLoadInfo.mk.injEq,and_true] at heq ⊢
    exact heq
  · intro hall
    rw [hall]
    rfl

/-- What is found under a timeline that had none and was given one block. -/
theorem Added.first {index : GlobalStoreIndex} (ha : Added g index g')
    (hnew : g.timelineIndex index.timelineKey = none) :
    ∃ location, g'.timelineIndex index.timelineKey = some location ∧
      location.blocks = [g.allocated] ∧ location.blockCount = 1 ∧
      (g'.entries g.allocated).blockID = index.blockID ∧
        (g'.entries g.allocated).storeID = index.storeID := by
  obtain ⟨location,t,hafter,hbefore | ⟨-,t',rfl⟩⟩ := ha.location
  · rw [hnew] at hbefore
    cases hbefore
  · obtain ⟨updatedAt,hentry⟩ := ha.entry
    exact ⟨_,hafter,rfl,rfl,by rw [hentry],by rw [hentry]⟩

theorem Removed.only {index : GlobalStoreIndex} {blockID : String} {e : Nat}
    (hr : Removed g' index.timelineKey blockID e u) (ha : Added g index g')
    (hnew : g.timelineIndex index.timelineKey = none) :
    e = g.allocated ∧ blockID = index.blockID := by
  obtain ⟨location,hlocation,hblocks,-,hid,-⟩ := ha.first hnew
  obtain ⟨location',t,hbefore,hfind,-⟩ := hr.location
  obtain rfl := Option.some.inj (hbefore.symm.trans hlocation)
  have hmem := List.mem_of_find?_eq_some hfind
  rw [hblocks,List.mem_singleton] at hmem
  subst hmem
  refine ⟨rfl,?_⟩
  have hfound := List.find?_some hfind
  rw [decide_eq_true_iff,hid] at hfound
  exact hfound.symm

theorem delete_assign (key : String) (e : Nat) (blocks : List (String × Nat)) :
    delete key (assign key e blocks) = delete key blocks := by
  simp [delete,assign]

/-- The timeline is gone again, and of the store's index whatever had that name. -/
theorem Removed.undone {index : GlobalStoreIndex}
    (hr : Removed g' index.timelineKey index.blockID g.allocated u) (ha : Added g index g')
    (hnew : g.timelineIndex index.timelineKey = none) : u.timelineIndex index.timelineKey = none ∧
      u.storeOf index.storeID = delete (index.timelineKey ++ ":" ++ index.blockID)
        (g.storeOf index.storeID) := by
  obtain ⟨location,hlocation,-,hcount,-,hstoreID⟩ := ha.first hnew
  obtain ⟨location',t,hbefore,-,hafter⟩ := hr.location
  obtain rfl := Option.some.inj (hbefore.symm.trans hlocation)
  refine ⟨?_,?_⟩
  · rw [hafter,if_pos]
    simp [TimelineLocation.remove,hcount]
  · have hstore := hr.store
    rw [hstoreID,ha.store,delete_assign] at hstore
    exact hstore

theorem load_without_iff (hl : LoadsBut ∅ g) (name : String)
    (hstore : u.storeOf s = delete name (g.storeOf s))
    (hentries : ∀ e < g.allocated, u.entries e = g.entries e) :
    (∀ t, loadOf u s t = loadOf g s t) ↔ ∀ e, (name,e) ∉ g.storeOf s := by
  constructor
  · intro hall e he
    have hcount := congrArg StoreLoadInfo.blockCount (hall 0)
    simp only [loadOf,hstore,Nat.cast_inj] at hcount
    have hlt : (delete name (g.storeOf s)).length < (g.storeOf s).length :=
      List.length_filter_lt_length_iff_exists.mpr ⟨_,he,by simp⟩
    omega
  · intro hnone t
    have hsame : u.storeOf s = g.storeOf s := by
      rw [hstore,delete,List.filter_eq_self]
      rintro ⟨key,e⟩ hmem
      rw [decide_eq_true_iff]
      rintro rfl
      exact hnone e hmem
    exact loadOf_congr hsame (fun b hb => by rw [hentries b.2 (hl.pointers s b hb)]) t

end LoadKept

end Imy.Index

namespace Imy.Txn
open Imy.Lib

theorem wp_addFirstBlock (clock : Nat → Int) (k targetStore : String) (g : Index.GlobalIndex) :
    wp (addFirstBlock clock k targetStore) (fun _ t => ∃ createdAt updatedAt,
      Index.Added g ⟨k,targetStore,k ++ "_block_1",0,0,createdAt,updatedAt⟩ t)
        (fun _ _ => False) g := by
  simp only [addFirstBlock,wp_bind,Index.wp_readTime]
  refine wp_mono (Index.wp_addIndex_added clock _ _) ?_ (fun _ _ h => h)
  exact fun _ t ha =>
    ⟨_,_,ha.allocated,ha.entry,ha.entries,ha.location,ha.locations,ha.store,ha.load,ha.stores⟩

end Imy.Txn

namespace Imy.Access
open Imy.Lib

/-- `Commit` of the handler, on the store and the index of the accessor. The participants
below are those of its own store, so that no client is waited for. -/
def commit (out : Txn.Outside) (storeID : String) (o : Txn.TransactionParticipant) : AccessM Unit :=
    fun g =>
  let (reply,w) := Txn.defaultCommit out storeID o ⟨g.host,g.index,0⟩
  let t := (g.setHost w.host).setIndex w.index
  match reply with
  | .ok => .ok () t
  | .error text => .error (.error text) t
  | .lost _ => .error .panic t

/-- The two ways to create a timeline and to delete it. The handler is that of `storeID`,
and its participants are those of the storage manager. -/
inductive CreationPath where
  | accessor (timelineType : String)
  | handler (storeID targetStore : String)

section Paths
variable (around : Around) (clients : Txn.Clients) (k : String)

def CreationPath.create : CreationPath → AccessM Unit
  | .accessor timelineType => createTimeline around k timelineType
  | .handler storeID targetStore => commit ⟨around.env,around.clock,clients⟩ storeID
      (Txn.participant storeID .updateIndex
        [("index_key",.string k),("target_store",.string targetStore),("operation",.string "add")])

def CreationPath.delete : CreationPath → AccessM Unit
  | .accessor _ => deleteTimeline around k
  | .handler storeID _ => commit ⟨around.env,around.clock,clients⟩ storeID
      (Txn.participant storeID .updateIndex
        [("index_key",.string k),("operation",.string "remove")])

/-- The store that the index entry is for. -/
def CreationPath.store (g : Accessor) : CreationPath → String
  | .accessor _ => g.host.store.storeID
  | .handler _ targetStore => targetStore

/-- If the creation returns nil then so does the deletion; the timeline is not found
afterwards and the load of the store is what it was. -/
def DeleteUndoesCreate (p : CreationPath) (g : Accessor) : Prop :=
  wp (p.create around clients k)
    (fun _ t => wp (p.delete around clients k)
      (fun _ u => wp (Index.getTimelineLocation k) (fun _ _ => False)
          (fun e _ => e = .error ("timeline " ++ k ++ " not found")) u.index ∧
        Index.LoadKept around.clock (p.store g) g.index u.index)
      (fun _ _ => False) t)
    (fun _ _ => True) g

end Paths

section Undo
variable {around : Around} {clients : Txn.Clients} {k : String} {g : Accessor}

theorem Created.storeID {env : Storage.Env} {timelineType : String} {h t : Storage.Host}
    (hc : Created env k timelineType h t) : t.store.storeID = h.store.storeID := by
  rcases hc with ⟨-,hready⟩ | ⟨-,hready⟩ | ⟨-,-,rfl⟩
  · exact hready.loadFrame.storeID
  · exact hready.loadFrame.storeID
  · rfl

theorem not_located {index : Index.GlobalIndex} (h : index.timelineIndex k = none) :
    wp (Index.getTimelineLocation k) (fun _ _ => False)
      (fun e _ => e = .error ("timeline " ++ k ++ " not found")) index := by
  simp only [Index.getTimelineLocation,wp_bind,wp_get,h]
  exact rfl

/-- A deletion after the creation has found the block by the store's ID. -/
theorem CreatedHere.deleted {timelineType : String} {t u : Accessor}
    (hc : CreatedHere around k timelineType g t)
    (hd : Deleted around k t u) (hs : g.Sound) (hnew : g.index.timelineIndex k = none) :
    g.host.store.storeID = "" ∧ u.index.timelineIndex k = none ∧
      (Index.LoadKept around.clock g.host.store.storeID g.index u.index ↔
        ∀ e, (k ++ ":",e) ∉ g.index.storeOf "") := by
  obtain ⟨createdAt,updatedAt,ha⟩ := hc.added
  obtain ⟨e,hremoved⟩ := hd.removed
  obtain ⟨rfl,hempty⟩ := hremoved.only ha hnew
  rw [hempty] at hremoved
  rw [hc.created.storeID] at hempty
  obtain ⟨hgone,hstore⟩ := hremoved.undone ha hnew
  refine ⟨hempty,hgone,?_⟩
  have hu := hd.sound (hc.sound hs)
  rw [Index.loadKept_iff (hs.loads.current _ (Set.notMem_empty _))
    (hu.loads.current _ (Set.notMem_empty _)),
    Index.load_without_iff hs.loads _ hstore fun e he => ?_]
  · rw [hempty,String.append_empty]
  · rw [hremoved.entries,ha.entries e (Nat.ne_of_lt he)]

theorem CreatedHere.deletable {timelineType : String} {t : Accessor}
    (hc : CreatedHere around k timelineType g t)
    (hnew : g.index.timelineIndex k = none) (hempty : g.host.store.storeID = "") :
    t.Holds k ∧ ∃ e ∈ t.index.blocksOf k, (t.index.entries e).blockID = t.host.store.storeID := by
  obtain ⟨createdAt,updatedAt,ha⟩ := hc.added
  obtain ⟨location,hlocation,hblocks,-,hid,hentry⟩ := ha.first hnew
  refine ⟨?_,g.index.allocated,?_,?_⟩
  · rw [Accessor.Holds,Index.GlobalIndex.primaryStore_of_located hlocation,
      hblocks,hc.created.storeID]
    simp [hentry]
  · simp [Index.GlobalIndex.blocksOf,hlocation,hblocks]
  · rw [hid,hc.created.storeID,hempty]

theorem accessor_undoes_iff (hs : g.Sound) (timelineType : String)
    (hnew : g.index.timelineIndex k = none)
    (hlocal : around.routeTimeline k = .ok g.host.store.storeID) :
    DeleteUndoesCreate around clients k (.accessor timelineType) g ↔
      g.host.store.storeID = "" ∧ ∀ e, (k ++ ":",e) ∉ g.index.storeOf "" := by
  obtain ⟨_,t,hrun,hc⟩ :=
    eq_ok_of_wp (wp_mono (wp_createTimeline around k timelineType g) (fun _ _ h => h)
    (fun _ _ h => h.2 hlocal))
  simp only [DeleteUndoesCreate,CreationPath.create,CreationPath.delete,CreationPath.store]
  rw [wp,hrun]
  constructor
  · intro hundone
    obtain ⟨_,u,hdelete,-,hload⟩ := eq_ok_of_wp hundone
    have hd := wp_ok (wp_deleteTimeline around k t) hdelete
    obtain ⟨hempty,-,hkept⟩ := hc.deleted hd hs hnew
    exact ⟨hempty,hkept.mp hload⟩
  · rintro ⟨hempty,hnone⟩
    refine wp_mono (wp_deleteTimeline around k t) ?_ ?_
    · intro _ u hd
      obtain ⟨-,hgone,hkept⟩ := hc.deleted hd hs hnew
      exact ⟨not_located hgone,hkept.mpr hnone⟩
    · rintro _ u ⟨-,hnot⟩
      exact hnot (hc.deletable hnew hempty)

theorem commit_onIndex {out : Txn.Outside} {storeID : String} {o : Txn.TransactionParticipant}
    {x : Index.IndexM Unit} (h : ∀ w, Txn.defaultCommit out storeID o w = Txn.onIndex x w) :
    commit out storeID o = onIndex "" x := by
  funext g
  simp only [commit,h,Txn.onIndex,onIndex,onPart]
  cases hx : x g.index with
  | ok a index => rfl
  | error e index =>
    cases e with
    | error text => rfl
    | nilMap => rfl

theorem handler_never_undoes (storeID targetStore : String)
    (hnew : g.index.timelineIndex k = none) :
    ¬ DeleteUndoesCreate around clients k (.handler storeID targetStore) g := by
  intro hundone
  simp only [DeleteUndoesCreate,CreationPath.create,CreationPath.delete] at hundone
  rw [commit_onIndex (x := Txn.addFirstBlock around.clock k targetStore) fun _ => rfl,
    commit_onIndex (x := Index.removeIndex around.clock k "") fun _ => rfl] at hundone
  simp only [onIndex,wp_onPart] at hundone
  obtain ⟨_,index,hrun,createdAt,updatedAt,ha⟩ :=
    eq_ok_of_wp (Txn.wp_addFirstBlock around.clock k targetStore g.index)
  rw [wp,hrun] at hundone
  obtain ⟨_,u,hremove,-⟩ := eq_ok_of_wp hundone
  have hremoved := wp_ok (Index.wp_removeIndex_removed around.clock k "" index) hremove
  obtain ⟨e,hr⟩ := hremoved
  have hid := (hr.only ha hnew).2
  have hlength := congrArg String.length hid
  have hsuffix : "_block_1".length = 8 := rfl
  simp only [String.length_empty,String.length_append,hsuffix] at hlength
  omega

end Undo

/-- Deleting undoes creating exactly on the accessor's path, for a store whose ID is the
empty string that both halves use as the block ID, if no other timeline's entry has the
name of that block. -/
theorem delete_undoes_create_iff_empty_ids {env : Storage.Env} {clock : Nat → Int} {g : Accessor}
    (hr : Reached env clock g) (route : String → Except String String) (clients : Txn.Clients)
    (p : CreationPath) (k : String) (hnew : g.index.timelineIndex k = none)
    (hlocal : ∀ timelineType, p = .accessor timelineType → route k = .ok g.host.store.storeID) :
    DeleteUndoesCreate ⟨env,clock,route⟩ clients k p g ↔
      (∃ timelineType, p = .accessor timelineType) ∧
      g.host.store.storeID = "" ∧ ∀ e, (k ++ ":",e) ∉ g.index.storeOf "" := by
  cases p with
  | accessor timelineType =>
    rw [accessor_undoes_iff hr.sound timelineType hnew (hlocal timelineType rfl)]
    simp
  | handler storeID targetStore =>
    refine iff_of_false (handler_never_undoes storeID targetStore hnew) ?_
    rintro ⟨⟨_,h⟩,-⟩
    cases h

/-- A store as a process might have it after it has set the ID to an empty string. -/
def unnamedStore : Storage.Host :=
  { Storage.Host.steady Storage.smallBlocks with
    store := { (Storage.Host.steady Storage.smallBlocks).store with storeID := "" } }

theorem delete_undoes_create_iff_empty_ids_unnamed :
    Reached Storage.Env.steady (fun _ => 0) (newAccessor unnamedStore Index.newGlobalIndex) ∧
      DeleteUndoesCreate ⟨Storage.Env.steady,fun _ => 0,fun _ => .ok ""⟩ Txn.newClients "user:1001"
        (.accessor "conv")
        (newAccessor unnamedStore Index.newGlobalIndex) := by
  have hr : Reached Storage.Env.steady (fun _ => 0)
      (newAccessor unnamedStore Index.newGlobalIndex) :=
    .opened fun r => by obtain ⟨_ | _,_⟩ := r <;> exact Storage.Timeline.pointed_fresh
  refine ⟨hr,(delete_undoes_create_iff_empty_ids hr _ Txn.newClients
    (.accessor "conv") "user:1001" rfl
    fun _ _ => rfl).mpr ⟨⟨_,rfl⟩,rfl,fun e he => ?_⟩⟩
  cases he

/-- On a store as it is opened, the deletion looks for a block with the store's ID. -/
theorem deletion_misses_created_block : ¬ ∀ (env : Storage.Env) (clock : Nat → Int) (g : Accessor)
    (route : String → Except String String) (clients : Txn.Clients) (p : CreationPath) (k : String),
    Reached env clock g → g.index.timelineIndex k = none →
      (∀ timelineType, p = .accessor timelineType → route k = .ok g.host.store.storeID) →
      DeleteUndoesCreate ⟨env,clock,route⟩ clients k p g := by
  intro hall
  have hpointed := (Storage.Reachable.opened (Storage.newStore_steady Storage.smallBlocks)).pointed
  have hundone := hall Storage.Env.steady (fun _ => 0)
    (newAccessor (Storage.Host.steady Storage.smallBlocks) Index.newGlobalIndex)
    (fun _ => .ok "store_1") Txn.newClients
    (.accessor "conv") "user:1001" (.opened hpointed) rfl fun _ _ => rfl
  have hempty := ((accessor_undoes_iff (sound_new hpointed) "conv" rfl rfl).mp hundone).1
  exact absurd hempty (by decide)

end Imy.Access
