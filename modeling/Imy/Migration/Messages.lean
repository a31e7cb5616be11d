import Imy.Access.MessageCache
import Imy.Migration.Task
import Imy.Txn.StorageManager
set_option autoImplicit false

/-!
The migration over the accessor and the index. The messages are copied to wherever the
router sends the timeline, which can only be the local store, and the index moves to the
target store.
-/

namespace Imy.Index
open Imy.Lib

section Leaving
variable {clock : Nat → Int} {g : GlobalIndex} {fromStoreID toStoreID : String}

/-- An entry that is moved is no longer on the store, and none gets there. -/
theorem wp_migrateOne_leaves (hne : fromStoreID ≠ toStoreID) (k : String) (e : Nat) :
    wp (migrateOne clock k fromStoreID toStoreID e)
      (fun _ g' => g'.timelineIndex = g.timelineIndex ∧
      ∀ e', e' = e ∨ (g.entries e').storeID ≠ fromStoreID → (g'.entries e').storeID ≠ fromStoreID)
      (fun _ _ => False) g := by
  simp only [migrateOne,wp_bind,wp_get,wp_ite,wp_pure]
  split
  · refine wp_mono (wp_deleteStoreIndex _ _ _) ?_ (fun _ _ h => h)
    intro _ g₁ h₁
    simp only [wp_readTime,wp_modify]
    refine wp_mono (wp_putStoreIndex _ _ _ _) ?_ (fun _ _ h => h)
    intro _ g₂ h₂
    refine ⟨h₂.timelineIndex.trans h₁.timelineIndex,fun e' he' => ?_⟩
    rw [h₂.entries]
    by_cases heq : e' = e
    · subst heq
      simpa using hne.symm
    · rw [GlobalIndex.setEntry_entries,Function.update_of_ne heq,
        GlobalIndex.advance_entries,h₁.entries]
      exact he'.resolve_left heq
  · rename_i hother
    exact ⟨trivial,fun e' he' => he'.elim (fun heq => heq ▸ hother) id⟩

theorem wp_migrateTimeline_leaves (hne : fromStoreID ≠ toStoreID) (k : String) :
    wp (migrateTimeline clock k fromStoreID toStoreID) (fun _ g' => g'.blocksOf k = g.blocksOf k ∧
      ∀ e ∈ g.blocksOf k, (g'.entries e).storeID ≠ fromStoreID) (fun _ g' => g' = g) g := by
  simp only [migrateTimeline,wp_bind,wp_get]
  cases hk : g.timelineIndex k with
  | none => exact rfl
  | some location =>
    simp only [wp_bind]
    refine wp_mono (wp_forM (I := fun done (g' : GlobalIndex) =>
      ∀ e ∈ done, (g'.entries e).storeID ≠ fromStoreID)
      (E := fun _ _ => False) location.blocks (by simp) ?_) ?_ (fun _ _ h => h.elim)
    · intro done e rest g₁ hsplit h₁
      refine wp_mono (wp_migrateOne_leaves hne k e) ?_ (fun _ _ h => h)
      rintro _ g₂ ⟨-,h₂⟩ e' he'
      rw [List.mem_append,List.mem_singleton] at he'
      exact h₂ e' (he'.symm.imp id (h₁ e'))
    · intro _ g₁ h₁
      simp only [wp_readTime,wp_modify]
      refine wp_mono (wp_updateStoreLoad clock _ _) ?_ (fun _ _ h => h.elim)
      intro _ g₂ h₂
      refine wp_mono (wp_updateStoreLoad clock _ _) ?_ (fun _ _ h => h.elim)
      intro _ g₃ h₃
      have hboth := h₂.trans h₃
      simp only [GlobalIndex.blocksOf,hboth.timelineIndex,hboth.entries,hk]
      refine ⟨by simp,h₁⟩

end Leaving

end Imy.Index

namespace Imy.Migration
open Imy.Lib Imy.Storage

/-- What the goroutine asks of others than the accessor and the index; `n` counts it. -/
structure Elsewhere where
  now : Nat → Int
  parentErr : Nat → Option String
  acquireLock : Nat → Except String Lock.DistributedLock
  releaseLock : Nat → Option String

def faultText : Access.AccessFault → String
  | .error text => text
  | .panic => "assignment to entry in nil map"

section Calls
variable {α : Type}

def called (x : Access.AccessM α) (g : Access.Accessor) : Except String α × Access.Accessor :=
  match x g with
  | .ok a t => (.ok a,t)
  | .error e t => (.error (faultText e),t)

def calledForNil (x : Access.AccessM Unit) (g : Access.Accessor) :
    Option String × Access.Accessor :=
  match x g with
  | .ok _ t => (none,t)
  | .error e t => (some (faultText e),t)

end Calls

def accessServices (around : Access.Around) (elsewhere : Elsewhere) :
    Services (Access.Accessor × Nat)
  | .now, (g,n) => (elsewhere.now n,g,n+1)
  | .parentErr, (g,n) => (elsewhere.parentErr n,g,n+1)
  | .acquireLock _ _, (g,n) => (elsewhere.acquireLock n,g,n+1)
  | .releaseLock _, (g,n) => (elsewhere.releaseLock n,g,n+1)
  | .getTimeline k, (g,n) =>
    let (answer,g) := called (Access.getTimeline around k) g
    (answer,g,n)
  | .createTimeline k timelineType, (g,n) =>
    let (answer,g) := calledForNil (Access.createTimeline around k timelineType) g
    (answer,g,n)
  | .getMessages k startTime endTime limit, (g,n) =>
    let (answer,g) := called (Access.getMessages around ⟨k,startTime,endTime,limit⟩) g
    (answer,g,n)
  | .addMessage k senderID data userIDs, (g,n) =>
    let (answer,g) := calledForNil (Access.addMessage around k senderID data userIDs) g
    (answer,g,n)
  | .migrateTimeline k fromStoreID toStoreID, (g,n) =>
    let (answer,g) := calledForNil
      (Access.onIndex "" (Index.migrateTimeline around.clock k fromStoreID toStoreID)) g
    (answer,g,n)
  | .deleteTimeline k, (g,n) =>
    let (answer,g) := calledForNil (Access.deleteTimeline around k) g
    (answer,g,n)

/-- The task that `StartMigration` makes; `nano` and `createdAt` are its readings of the clock. -/
def startMigration (timelineKey targetStoreID : String) (nano createdAt : Int)
    (index : Index.GlobalIndex) :
    Except String Job :=
  match Index.getTimelineLocation timelineKey index with
  | .error e _ => .error ("failed to get timeline location: " ++ Txn.indexFaultText e)
  | .ok location _ =>
    match location.blocks with
    | [] => .error ("timeline has no blocks: " ++ timelineKey)
    | e :: _ =>
      if (index.entries e).storeID = targetStoreID then .error "timeline is already on target store"
      else .ok
        { id := "migration_" ++ timelineKey ++ "_" ++ decimal nano
          timelineKey := timelineKey
          sourceStore := (index.entries e).storeID
          targetStore := targetStoreID
          createdAt := createdAt }

section Steps
variable {around : Access.Around} {elsewhere : Elsewhere} {s : TaskState}
    {g : Access.Accessor} {n : Nat}

/-- A program of the task alone, over the accessor. -/
def alone {α : Type} (around : Access.Around) (elsewhere : Elsewhere) (p : MigrationM α) :
    EStateM String (TaskState × Access.Accessor × Nat) α :=
  p.run (exec (accessServices around elsewhere))

theorem wp_alone_bind {α β : Type} (p : MigrationM α) (f : α → MigrationM β)
    (Q : β → TaskState × Access.Accessor × Nat → Prop)
    (E : String → TaskState × Access.Accessor × Nat → Prop)
    (o : TaskState × Access.Accessor × Nat) : wp (alone around elsewhere (p >>= f)) Q E o =
      wp (alone around elsewhere p) (fun a t => wp (alone around elsewhere (f a)) Q E t) E o :=
  Prog.wp_run_bind _ p f Q E o

theorem wp_status {status : MigrationStatus} {progress : Float} {message : String}
    {Q : Unit → TaskState × Access.Accessor × Nat → Prop}
    {E : String → TaskState × Access.Accessor × Nat → Prop} (h : ∀ s', Q () (s',g,n+1)) :
    wp (alone around elsewhere (updateTaskStatus status progress message)) Q E (s,g,n) := h _

variable {E : String → TaskState × Access.Accessor × Nat → Prop}

theorem wp_called {α : Type} {x : Access.AccessM α} {Q : Except String α × Access.Accessor → Prop}
    (h : wp x (fun a t => Q (.ok a,t)) (fun e t => Q (.error (faultText e),t)) g) :
    Q (called x g) := by
  unfold called
  unfold wp at h
  cases hx : x g <;> simpa only [hx] using h

theorem wp_calledForNil {x : Access.AccessM Unit} {Q : Option String × Access.Accessor → Prop}
    (h : wp x (fun _ t => Q (none,t)) (fun e t => Q (some (faultText e),t)) g) :
    Q (calledForNil x g) := by
  unfold calledForNil
  unfold wp at h
  cases hx : x g <;> simpa only [hx] using h

structure Copied (g t : Access.Accessor) : Prop where
  onward : Access.Onward g t
  sound : t.Sound
  cache : t.messageCache = g.messageCache

theorem wp_nilOrFail {tried : String} {o : TaskState × Access.Accessor × Nat}
    {Q : Unit → TaskState × Access.Accessor × Nat → Prop} (h : Q () o) :
    wp (alone around elsewhere (nilOrFail tried none)) Q E o := h

theorem wp_orFail {α : Type} {tried : String} {a : α} {o : TaskState × Access.Accessor × Nat}
    {Q : α → TaskState × Access.Accessor × Nat → Prop} (h : Q a o) :
    wp (alone around elsewhere (orFail tried (.ok a))) Q E o := h

theorem wp_ctxErr {Q : Option String → TaskState × Access.Accessor × Nat → Prop}
    (h : ∀ answer n', Q answer (s,g,n')) :
    wp (alone around elsewhere (ask .ctxErr)) Q E (s,g,n) := by
  change Q (exec (accessServices around elsewhere) .ctxErr (s,g,n)).1
    (exec (accessServices around elsewhere) .ctxErr (s,g,n)).2
  rw [exec]
  split
  · exact h _ _
  · exact h _ _

theorem wp_ask_addMessage (hs : g.Sound) (k : String) (senderID : UInt32) (data : List UInt8)
    {Q : Option String → TaskState × Access.Accessor × Nat → Prop}
    (h : ∀ answer t, Copied g t → Q answer (s,t,n)) :
    wp (alone around elsewhere (ask (.call (.addMessage k senderID data [])))) Q E (s,g,n) := by
  have hcopied : Copied g (final (Access.addMessage around k senderID data []) g) :=
    ⟨Access.exec_onward around (.addMessage k senderID data []) hs,
      final_of_wp (Access.wp_exec_sound around (.addMessage k senderID data []) hs),
        Access.final_add_cached⟩
  exact wp_calledForNil (Q := fun r => Q r.1 (s,r.2,n)) (wp_mono (wp_final _ g)
    (fun _ t ht => h none t (ht ▸ hcopied)) fun e t ht => h (some (faultText e)) t (ht ▸ hcopied))

theorem Copied.trans {t u : Access.Accessor} (a : Copied g t) (b : Copied t u) : Copied g u :=
  ⟨a.onward.trans b.onward,b.sound,b.cache.trans a.cache⟩

theorem wp_copyMessages (k : String) (total : Nat) (messages : List Message)
    (i : Nat) (hs : g.Sound) :
    wp (alone around elsewhere (copyMessages k total i messages)) (fun _ t => Copied g t.2.1)
      (fun _ _ => True) (s,g,n) := by
  induction messages generalizing i s g n with
  | nil => exact ⟨Access.Onward.refl g,hs,rfl⟩
  | cons msg rest ih =>
    rw [copyMessages,wp_alone_bind]
    refine wp_ctxErr fun answer n' => ?_
    cases answer with
    | some text => exact trivial
    | none =>
      rw [wp_alone_bind]
      refine wp_ask_addMessage hs k msg.senderID msg.data fun err t ht => ?_
      cases err with
      | some text => exact trivial
      | none =>
        rw [wp_alone_bind]
        refine wp_nilOrFail ?_
        rw [wp_alone_bind]
        refine wp_status fun s' => ?_
        exact wp_mono (ih (i+1) ht.sound) (fun _ u hu => ht.trans hu) fun _ _ _ => trivial

/-- What a reader of the timeline sees of an answer. -/
def seen (around : Access.Around) (q : Access.Query) (g : Access.Accessor) :
    Option (List (UInt32 × List UInt8)) :=
  (answer (Access.getMessages around q) g).map fun messages => messages.map fun msg =>
    (msg.senderID,msg.data)

/-- The question that the migration itself asks, when it has read the clock five times. -/
def ownQuery (elsewhere : Elsewhere) (k : String) (n : Nat) : Access.Query :=
  ⟨k,0,elsewhere.now (n+5)/second,10000⟩

theorem wp_ask_getTimeline {k : String} {Q : Except String TimelineRef →
    TaskState × Access.Accessor × Nat → Prop}
    (h : wp (Access.getTimeline around k) (fun r t => Q (.ok r) (s,t,n))
      (fun e t => Q (.error (faultText e)) (s,t,n)) g) :
    wp (alone around elsewhere (ask (.call (.getTimeline k)))) Q E (s,g,n) :=
  wp_called (Q := fun r => Q r.1 (s,r.2,n)) h

theorem wp_ask_createTimeline {k timelineType : String} {Q : Option String →
    TaskState × Access.Accessor × Nat → Prop}
    (h : wp (Access.createTimeline around k timelineType) (fun _ t => Q none (s,t,n))
      (fun e t => Q (some (faultText e)) (s,t,n)) g) :
    wp (alone around elsewhere (ask (.call (.createTimeline k timelineType)))) Q E (s,g,n) :=
  wp_calledForNil (Q := fun r => Q r.1 (s,r.2,n)) h

theorem wp_ask_now {Q : Int → TaskState × Access.Accessor × Nat → Prop}
    (h : Q (elsewhere.now n) (s,g,n+1)) :
    wp (alone around elsewhere (ask (.call .now))) Q E (s,g,n) := h

theorem wp_ask_getMessages {q : Access.Query} {Q : Except String (List Message) →
    TaskState × Access.Accessor × Nat → Prop}
    (h : wp (Access.getMessages around q) (fun messages t => Q (.ok messages) (s,t,n))
      (fun e t => Q (.error (faultText e)) (s,t,n)) g) :
    wp (alone around elsewhere (ask (.call
      (.getMessages q.timelineKey q.startTime q.endTime q.limit)))) Q E (s,g,n) :=
  wp_called (Q := fun r => Q r.1 (s,r.2,n)) h

theorem wp_ask_migrateTimeline {k fromStoreID toStoreID : String}
    {Q : Option String → TaskState × Access.Accessor × Nat → Prop}
    (h : wp (Access.onIndex "" (Index.migrateTimeline around.clock k fromStoreID toStoreID))
      (fun _ t => Q none (s,t,n))
      (fun e t => Q (some (faultText e)) (s,t,n)) g) :
    wp (alone around elsewhere (ask (.call (.migrateTimeline k fromStoreID toStoreID)))) Q E
      (s,g,n) :=
  wp_calledForNil (Q := fun r => Q r.1 (s,r.2,n)) h

theorem wp_ask_deleteTimeline {k : String} {Q : Option String →
    TaskState × Access.Accessor × Nat → Prop}
    (h : wp (Access.deleteTimeline around k) (fun _ t => Q none (s,t,n))
      (fun e t => Q (some (faultText e)) (s,t,n)) g) :
    wp (alone around elsewhere (ask (.call (.deleteTimeline k)))) Q E (s,g,n) :=
  wp_calledForNil (Q := fun r => Q r.1 (s,r.2,n)) h

/-- What the target gets is created and read where the source is. -/
structure ReadHere (around : Access.Around) (q : Access.Query) (g t : Access.Accessor) : Prop where
  sound : t.Sound
  held : t.Holds q.timelineKey
  storeID : t.host.store.storeID = g.host.store.storeID
  cache : t.messageCache = (final (Access.getMessages around q) g).messageCache

theorem created_again {k : String} {t u : Access.Accessor}
    (hc : Access.CreatedHere around k "conv" t u)
    (hfound : (t.host.store.find ⟨.conv,k⟩).isSome) :
    u.host = t.host ∧ u.messageCache = t.messageCache ∧
      u.timelineCache = t.timelineCache := by
  refine ⟨?_,?_,?_⟩
  · rcases hc.created with ⟨-,⟨-,hsame⟩ | ⟨hnone,-⟩⟩ | ⟨htext,-⟩ | ⟨htext,-⟩
    · exact hsame
    · rw [hnone] at hfound
      cases hfound
    · exact absurd htext (by decide)
    · exact absurd rfl htext
  · rw [hc.state]
    rfl
  · rw [hc.state]
    rfl

theorem ReadHere.of_run {q : Access.Query} {t u : Access.Accessor}
    {messages answer : List Message} (hu : u.Sound)
    (hheld : u.Holds q.timelineKey) (hstoreID : u.host.store.storeID = g.host.store.storeID)
    (hcache : u.messageCache = t.messageCache)
    (hrun : Access.getMessages around q g = .ok answer (t.keep q messages)) :
    ReadHere around q g (u.keep q messages) where
  sound := hu.keep q messages
  held := by
    rw [Access.Accessor.Holds,Access.Accessor.keep_index,Access.Accessor.keep_host]
    exact hheld
  storeID := by rw [Access.Accessor.keep_host,hstoreID]
  cache := by rw [final,hrun,Access.Accessor.keep_messageCache,
    Access.Accessor.keep_messageCache,hcache]

theorem read_after_created (hs : g.Sound) {q : Access.Query} (hheld : g.Holds q.timelineKey)
    {t u : Access.Accessor}
    (hget : Access.getTimeline around q.timelineKey g = .ok ⟨.conv,q.timelineKey⟩ t)
    (hc : Access.CreatedHere around q.timelineKey "conv" t u) :
    wp (Access.getMessages around q) (fun _ v => ReadHere around q g v) (fun _ _ => True) u := by
  obtain ⟨t',hget',honward,hcache,htimeline,hfound⟩ := Access.getTimeline_held around hs hheld
  rw [hget] at hget'
  cases hget'
  have ht : t.Sound := wp_ok (Access.wp_getTimeline_sound hs q.timelineKey) hget
  have hu := hc.sound ht
  obtain ⟨hhost,hucache,hutimeline⟩ := created_again hc hfound
  have hgetu : Access.getTimeline around q.timelineKey u = .ok ⟨.conv,q.timelineKey⟩ u :=
    Access.getTimeline_of_cached (by rw [hutimeline,htimeline])
  have hstoreID : u.host.store.storeID = g.host.store.storeID := by rw [hhost,honward.storeID]
  have huheld : u.Holds q.timelineKey := by
    obtain ⟨createdAt,updatedAt,ha⟩ := hc.added
    have hprimary := ha.primaryStore ht.wellFormed
    rw [honward.index,hheld,Option.getD_some] at hprimary
    rw [Access.Accessor.Holds,hprimary,hstoreID]
  have hsame : u.messageCache = g.messageCache := hucache.trans hcache
  cases hnone : g.messageCache q.cacheKey with
  | some messages =>
    have hrun : Access.getMessages around q g = .ok messages g := Access.getMessages_of_cached hnone
    refine wp_of_eq_ok (Access.getMessages_of_cached (by rw [hsame,hnone])) ⟨hu,huheld,hstoreID,?_⟩
    rw [final,hrun,hsame]
  | none =>
    obtain ⟨messages,hmessages,hrun⟩ := Access.getMessages_held hheld hnone hget
    obtain ⟨messages',hmessages',hrun'⟩ :=
      Access.getMessages_held huheld (by rw [hsame,hnone]) hgetu
    rw [hhost,← hmessages] at hmessages'
    subst hmessages'
    exact wp_of_eq_ok hrun' (.of_run hu huheld hstoreID hucache hrun)

/-- When the migration returns nil the timeline is no longer held here, and the cache has
what the migration's own question would have left there before. -/
structure MovedAway (around : Access.Around) (q : Access.Query) (g t : Access.Accessor) : Prop where
  away : ¬ t.Holds q.timelineKey
  cache : t.messageCache = (final (Access.getMessages around q) g).messageCache

theorem entries_moved {q : Access.Query} {t u : Access.Accessor} {toStoreID : String}
    (hread : ReadHere around q g t) (hcopied : Copied t u)
    (htarget : g.host.store.storeID ≠ toStoreID) :
    wp (Access.onIndex "" (Index.migrateTimeline around.clock q.timelineKey
      g.host.store.storeID toStoreID))
      (fun _ v => MovedAway around q g v) (fun _ _ => True) u := by
  rw [Access.onIndex,wp_onPart]
  refine wp_mono (Index.wp_migrateTimeline_leaves htarget q.timelineKey) ?_ (fun _ _ _ => trivial)
  rintro _ index ⟨hblocks,haway⟩
  refine ⟨fun hheld => ?_,hcopied.cache.trans hread.cache⟩
  have hstoreID : u.host.store.storeID = g.host.store.storeID :=
    hcopied.onward.storeID.trans hread.storeID
  change index.primaryStore q.timelineKey = some u.host.store.storeID at hheld
  rw [Index.GlobalIndex.primaryStore,hblocks,hstoreID] at hheld
  obtain ⟨e,he,hstore⟩ := Option.map_eq_some_iff.mp hheld
  exact haway e (List.mem_of_head? he) hstore

theorem wp_deleteTimeline_away {q : Access.Query} {t : Access.Accessor}
    (hmoved : MovedAway around q g t) :
    wp (Access.deleteTimeline around q.timelineKey) (fun _ u => MovedAway around q g u)
      (fun _ u => MovedAway around q g u) t := by
  refine wp_mono (Access.wp_deleteTimeline around q.timelineKey t) ?_ ?_
  · exact fun _ _ hd => (hmoved.away hd.held).elim
  · rintro _ u ⟨rfl,-⟩
    exact hmoved

theorem wp_performMigration (hs : g.Sound) {job : Job} (hheld : g.Holds job.timelineKey)
    (hsource : job.sourceStore = g.host.store.storeID)
    (htarget : job.sourceStore ≠ job.targetStore) :
    wp (alone around elsewhere (performMigration job))
      (fun _ t => MovedAway around (ownQuery elsewhere job.timelineKey n) g t.2.1)
        (fun _ _ => True) (s,g,n) := by
  obtain ⟨t,hget,-⟩ := Access.getTimeline_held around hs hheld
  unfold performMigration
  rw [wp_alone_bind]
  refine wp_status fun s => ?_
  rw [wp_alone_bind]
  refine wp_ask_getTimeline (wp_of_eq_ok hget ?_)
  rw [wp_alone_bind]
  refine wp_orFail ?_
  rw [wp_alone_bind]
  refine wp_status fun s => ?_
  rw [wp_alone_bind]
  refine wp_status fun s => ?_
  rw [wp_alone_bind]
  refine wp_ask_createTimeline (wp_mono (Access.wp_createTimeline around _ _ t) (fun _ u hc => ?_)
    fun _ _ _ => trivial)
  rw [wp_alone_bind]
  refine wp_nilOrFail ?_
  rw [wp_alone_bind]
  refine wp_status fun s => ?_
  rw [wp_alone_bind]
  refine wp_status fun s => ?_
  rw [wp_alone_bind]
  refine wp_ask_now ?_
  rw [wp_alone_bind]
  refine wp_ask_getMessages (q := ownQuery elsewhere job.timelineKey n) (wp_mono (read_after_created
    (q := ownQuery elsewhere job.timelineKey n) hs hheld hget hc) (fun messages v hread => ?_)
      fun _ _ _ => trivial)
  rw [wp_alone_bind]
  refine wp_orFail ?_
  rw [wp_alone_bind]
  refine wp_mono (wp_copyMessages job.timelineKey messages.length messages 0 hread.sound) ?_
    (fun _ _ h => h)
  rintro _ ⟨s,w,n'⟩ hcopied
  rw [wp_alone_bind]
  refine wp_status fun s => ?_
  rw [wp_alone_bind]
  refine wp_status fun s => ?_
  rw [wp_alone_bind]
  rw [hsource] at htarget ⊢
  refine wp_ask_migrateTimeline (wp_mono (entries_moved hread hcopied htarget)
    (fun _ x hmoved => ?_)
    fun _ _ _ => trivial)
  rw [wp_alone_bind]
  refine wp_nilOrFail ?_
  rw [wp_alone_bind]
  refine wp_status fun s => ?_
  rw [wp_alone_bind]
  refine wp_status fun s => ?_
  rw [wp_alone_bind]
  have haway := wp_deleteTimeline_away hmoved
  exact wp_ask_deleteTimeline (wp_mono haway (fun _ y hy => wp_status fun _ => hy)
    fun _ y hy => wp_status fun _ => hy)

theorem seen_away {q own : Access.Query} {t : Access.Accessor}
    (hown : own.timelineKey = q.timelineKey) (hmoved : MovedAway around own g t) : seen around q t =
      ((final (Access.getMessages around own) g).messageCache q.cacheKey).map
        fun messages => messages.map fun msg => (msg.senderID,msg.data) := by
  rw [← hmoved.cache,seen]
  cases hcached : t.messageCache q.cacheKey with
  | some messages =>
    rw [answer,Access.getMessages_of_cached hcached]
  | none =>
    cases hrun : Access.getMessages around q t with
    | ok messages u =>
      have hread := wp_ok (Access.wp_getMessages around q t) hrun
      rcases hread with ⟨hsome,-⟩ | ⟨-,hheld,-⟩
      · rw [hcached] at hsome
        cases hsome
      · exact (hmoved.away (hown ▸ hheld)).elim
    | error e u => rw [answer,hrun]

/-- The answer is remembered: it was in the cache before, or the migration asked the same
and the timeline has messages in that range. -/
def Remembered (around : Access.Around) (own q : Access.Query) (g : Access.Accessor) : Prop :=
  (g.messageCache q.cacheKey).isSome ∨
    q = own ∧ own.matching (final (Access.getTimeline around own.timelineKey) g) ≠ []

theorem final_getMessages_onward (hs : g.Sound) (q : Access.Query) :
    Access.Onward g (final (Access.getMessages around q) g) := by
  have honward := Access.exec_onward around (.getMessages q) hs
  rwa [show final ((Access.MessageOp.getMessages q).op.exec around) g =
    final (Access.getMessages around q) g from
    final_bind_pure _ _ _] at honward

theorem matching_ne_nil_iff {q : Access.Query} (hlimit : 1 ≤ q.limit) (t : Access.Accessor) :
    q.selected t ≠ [] ↔ q.matching t ≠ [] := by
  rw [Access.Query.selected,Ne,Ne,List.take_eq_nil_iff,not_or]
  exact and_iff_right (by omega)

theorem seen_away_iff (hs : g.Sound) {q own : Access.Query} (hlimit : 1 ≤ own.limit)
    {t : Access.Accessor}
    (hown : own.timelineKey = q.timelineKey) (hheld : g.Holds q.timelineKey)
    (hmoved : MovedAway around own g t) :
    seen around q t = seen around q g ↔ Remembered around own q g := by
  rw [seen_away hown hmoved]
  cases hcached : g.messageCache q.cacheKey with
  | some messages =>
    rw [(final_getMessages_onward hs own).cached _ _ hcached,seen,answer,
      Access.getMessages_of_cached hcached]
    exact iff_of_true rfl (Or.inl (by rw [hcached]; rfl))
  | none =>
    obtain ⟨u,hget,-,hcache,-,-⟩ := Access.getTimeline_held around hs hheld
    obtain ⟨messages,hmessages,hrun⟩ := Access.getMessages_held hheld hcached hget
    by_cases hq : q = own
    · subst hq
      rw [Access.collected_eq_selected q hlimit] at hmessages
      rw [Remembered,hcached,final,final,hget,hrun,seen,answer,hrun,Access.Accessor.keep]
      simp only [Option.isSome_none,Bool.false_eq_true,false_or,true_and,
        ← matching_ne_nil_iff hlimit,← hmessages]
      split
      · rename_i hne
        simp [hne]
      · rename_i hnil
        simp [hcache,hcached,not_not.mp hnil]
    · have hnone : (final (Access.getMessages around own) g).messageCache q.cacheKey = none := by
        cases hsome : (final (Access.getMessages around own) g).messageCache q.cacheKey with
        | none => rfl
        | some kept =>
          rcases Access.final_get_cached hs hsome with hold | ⟨heq,-⟩
          · rw [hcached] at hold
            cases hold
          · exact (hq heq.symm).elim
      rw [hnone,seen,answer,hrun,Remembered,hcached]
      simp [hq]

end Steps

theorem startMigration_ok {g : Access.Accessor} {k targetStoreID : String}
    {nano createdAt : Int} {job : Job}
    (hheld : g.Holds k) (hstart : startMigration k targetStoreID nano createdAt g.index = .ok job) :
    job.timelineKey = k ∧ job.sourceStore = g.host.store.storeID ∧
      job.sourceStore ≠ job.targetStore := by
  obtain ⟨location,hlocation⟩ := Index.GlobalIndex.located_of_primary hheld
  rw [Access.Accessor.Holds,Index.GlobalIndex.primaryStore_of_located hlocation] at hheld
  have hfound : Index.getTimelineLocation k g.index = .ok location g.index := by
    refine eq_ok_of_wp_eq ?_
    simp only [Index.getTimelineLocation,wp_bind,wp_get,hlocation,wp_pure,and_self]
  simp only [startMigration,hfound] at hstart
  cases hblocks : location.blocks with
  | nil =>
    rw [hblocks] at hheld
    cases hheld
  | cons e es =>
    rw [hblocks,List.head?_cons,Option.map_some,Option.some.injEq] at hheld
    rw [hblocks] at hstart
    simp only at hstart
    split at hstart
    · cases hstart
    · rename_i hne
      cases hstart
      exact ⟨rfl,hheld,hne⟩

/-- Once the migration has returned nil, the messages that the accessor gives are those it
gave before if and only if it still remembers its answer. -/
theorem messages_kept_iff_remembered (around : Access.Around) {g : Access.Accessor}
    (hr : Access.Reached around.env around.clock g) (elsewhere : Elsewhere)
    {k targetStoreID : String} {nano createdAt : Int} {job : Job} (hheld : g.Holds k)
    (hstart : startMigration k targetStoreID nano createdAt g.index = .ok job)
    {s : TaskState} {n : Nat} {t : TaskState × Access.Accessor × Nat}
    (hrun : alone around elsewhere (performMigration job) (s,g,n) = .ok () t) {q : Access.Query}
    (hq : q.timelineKey = k) :
    seen around q t.2.1 = seen around q g ↔ Remembered around (ownQuery elsewhere k n) q g := by
  obtain ⟨rfl,hsource,htarget⟩ := startMigration_ok hheld hstart
  have hmoved := wp_ok (wp_performMigration hr.sound hheld hsource htarget) hrun
  exact seen_away_iff hr.sound (show (1 : Int) ≤ 10000 by decide) hq.symm (hq ▸ hheld) hmoved

def calm : Elsewhere := ⟨fun _ => 0,fun _ => none,fun _ => .error "no lock",fun _ => none⟩

/-- A conversation with one message. -/
def sentHere : Access.Accessor :=
  final (Access.addMessage Access.steady "c" 1 [7] []) Access.heldHere

theorem sentHere_reached : Access.Reached Access.steady.env Access.steady.clock sentHere :=
  .access Access.steady.routeTimeline (.addMessage "c" 1 [7] []) Access.heldHere_reached

def toOtherStore : Job := ⟨"migration_c_0","c","store_1","store-b",0⟩

theorem sentHere_held : sentHere.Holds "c" := by
  have honward : Access.Onward Access.heldHere sentHere :=
    Access.exec_onward Access.steady (.addMessage "c" 1 [7] []) Access.heldHere_reached.sound
  exact honward.holds rfl

theorem toOtherStore_started :
    startMigration "c" "store-b" 0 0 sentHere.index = .ok toOtherStore := by
  have honward : Access.Onward Access.heldHere sentHere :=
    Access.exec_onward Access.steady (.addMessage "c" 1 [7] []) Access.heldHere_reached.sound
  rw [honward.index]
  decide +kernel

theorem toOtherStore_succeeds :
    succeeds (alone Access.steady calm (performMigration toOtherStore))
      (newTask 0,sentHere,0) = true := by
  decide +kernel

theorem toOtherStore_ok :
    ∃ t, alone Access.steady calm (performMigration toOtherStore)
      (newTask 0,sentHere,0) = .ok () t ∧
      seen Access.steady Access.wholeConversation t.2.1 = none :=
  ⟨_,eq_ok_of_succeeds toOtherStore_succeeds,by decide +kernel⟩

theorem messages_kept_iff_remembered_own_question :
    ∃ t, alone Access.steady calm (performMigration toOtherStore)
      (newTask 0,sentHere,0) = .ok () t ∧
      (seen Access.steady (ownQuery calm "c" 0) t.2.1 =
        seen Access.steady (ownQuery calm "c" 0) sentHere ↔
        Remembered Access.steady (ownQuery calm "c" 0) (ownQuery calm "c" 0) sentHere) := by
  obtain ⟨t,hrun,-⟩ := toOtherStore_ok
  exact ⟨t,hrun,messages_kept_iff_remembered Access.steady sentHere_reached calm sentHere_held
    toOtherStore_started hrun rfl⟩

/-- The reader of the whole conversation gets an error afterwards. -/
theorem messages_out_of_reach :
    ¬ ∀ (around : Access.Around) (g : Access.Accessor) (elsewhere : Elsewhere)
    (k targetStoreID : String) (nano createdAt : Int) (job : Job) (s : TaskState) (n : Nat)
    (t : TaskState × Access.Accessor × Nat) (q : Access.Query),
      Access.Reached around.env around.clock g →
      g.Holds k → startMigration k targetStoreID nano createdAt g.index = .ok job →
        q.timelineKey = k →
        (g.host.messages ⟨.conv,k⟩).length ≤ 10000 →
          ((g.host.messages ⟨.conv,k⟩).length : Int) ≤ q.limit →
          (∀ msg ∈ g.host.messages ⟨.conv,k⟩, q.InRange msg) →
            alone around elsewhere (performMigration job) (s,g,n) = .ok () t →
              seen around q t.2.1 = seen around q g := by
  intro hall
  obtain ⟨t,hrun,hgone⟩ := toOtherStore_ok
  have hkept := hall Access.steady sentHere calm "c" "store-b" 0 0 toOtherStore
    (newTask 0) 0 t Access.wholeConversation
    sentHere_reached sentHere_held toOtherStore_started rfl (by decide +kernel) (by decide +kernel)
      (by decide +kernel) hrun
  have hbefore : seen Access.steady Access.wholeConversation sentHere = some [(1,[7])] := by
    decide +kernel
  rw [hgone,hbefore] at hkept
  cases hkept

end Imy.Migration
