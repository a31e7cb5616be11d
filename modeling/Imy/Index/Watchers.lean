import Imy.Index.Listing
import Imy.Index.Update
import Imy.Lib.Channels
import Imy.Lib.SafeRuns
import Imy.Lib.Transition
set_option autoImplicit false

/-!
The watchers of the global index. An operation that succeeds sends one event to the
watchers of its timeline while it still holds the mutex; they read when they like. A
panic is not recovered from, so that it ends the run.
-/

namespace Imy.Index
open Imy.Lib

inductive IndexEventType where
  | add | remove | update | migrate
  deriving DecidableEq, Repr

structure IndexEvent where
  type : IndexEventType
  timelineKey : String
  index : Option Nat
  oldStoreID : String
  deriving DecidableEq, Repr

def IndexOp.event (g : GlobalIndex) : IndexOp → IndexEvent
  | .addIndex index => ⟨.add,index.timelineKey,some g.allocated,""⟩
  | .removeIndex timelineKey blockID => ⟨.remove,timelineKey,g.blockWith timelineKey blockID,""⟩
  | .updateIndex index => ⟨.update,index.timelineKey,some g.allocated,""⟩
  | .migrateTimeline timelineKey fromStoreID _ => ⟨.migrate,timelineKey,none,fromStoreID⟩

/-- The size of a watcher's channel. -/
def watchCapacity : Nat := 100

structure WatchedIndex where
  index : GlobalIndex
  watchers : Channels String IndexEvent

def newWatchedIndex : WatchedIndex := ⟨newGlobalIndex,noChannels String IndexEvent⟩

inductive WatchEvent where
  | exec (op : IndexOp)
  | watch (timelineKey : String)
  /-- The goroutine of the channel sees that its context is done. -/
  | done (w : Nat)
  /-- Somebody reads from the channel. -/
  | receive (w : Nat)
  deriving DecidableEq, Repr

inductive WatchPanic where
  | nilMap
  | channel (fault : ChannelFault)
  deriving DecidableEq, Repr

def WatchedIndex.notifyWatchers (s : WatchedIndex) (event : IndexEvent) :
    Except WatchPanic WatchedIndex :=
  match s.watchers.publish watchCapacity event.timelineKey event with
  | .ok watchers => .ok { s with watchers := watchers }
  | .error fault => .error (.channel fault)

def WatchedIndex.next (clock : Nat → Int) (s : WatchedIndex) :
    WatchEvent → Except WatchPanic WatchedIndex
  | .exec op =>
    match op.exec clock s.index with
    | .ok _ g => WatchedIndex.notifyWatchers ⟨g,s.watchers⟩ (op.event s.index)
    | .error (.error _) g => .ok { s with index := g }
    | .error .nilMap _ => .error .nilMap
  | .watch timelineKey => .ok { s with watchers := s.watchers.subscribe timelineKey }
  | .done w =>
    match s.watchers.unsubscribe w with
    | .ok watchers => .ok { s with watchers := watchers }
    | .error fault => .error (.channel fault)
  | .receive w => .ok { s with watchers := s.watchers.take w }

/-- As far as there is no panic. -/
def WatchedIndex.goOn (clock : Nat → Int) (s : WatchedIndex) (e : WatchEvent) :
    Option WatchedIndex :=
  (s.next clock e).toOption

/-- What a reader makes of an event that keeps its own list of a timeline's blocks. -/
def applyEvent (g : GlobalIndex) (blocks : List Nat) (event : IndexEvent) : List Nat :=
  match event.type,event.index with
  | .add,some e => blocks ++ [e]
  | .remove,some e => blocks.eraseP fun e' => (g.entries e').blockID = (g.entries e).blockID
  | .update,some e => replaceFirst g (g.entries e).blockID e blocks
  | _,_ => blocks

section Effects
variable {clock : Nat → Int} {g g' : GlobalIndex}

structure SameBlockIDs (g g' : GlobalIndex) : Prop where
  allocated : g.allocated ≤ g'.allocated
  blockID : ∀ e < g.allocated, (g'.entries e).blockID = (g.entries e).blockID

theorem SameBlockIDs.refl (g : GlobalIndex) : SameBlockIDs g g := ⟨Nat.le_refl _,fun _ _ => rfl⟩

theorem SameBlockIDs.trans {g₁ g₂ g₃ : GlobalIndex} (h : SameBlockIDs g₁ g₂)
    (h' : SameBlockIDs g₂ g₃) :
    SameBlockIDs g₁ g₃ where
  allocated := Nat.le_trans h.allocated h'.allocated
  blockID := fun e he => (h'.blockID e (Nat.lt_of_lt_of_le he h.allocated)).trans (h.blockID e he)

theorem SameTimelines.sameBlockIDs (h : SameTimelines g g') : SameBlockIDs g g' :=
  ⟨Nat.le_of_eq h.allocated.symm,fun e _ => by rw [h.entries]⟩

theorem SameBlockIDs.alloc (g : GlobalIndex) (index : GlobalStoreIndex) :
    SameBlockIDs g (g.alloc index) where
  allocated := Nat.le_succ _
  blockID := fun e he => by rw [GlobalIndex.alloc_entries,Function.update_of_ne (Nat.ne_of_lt he)]

structure Follows (g : GlobalIndex) (event : IndexEvent) (g' : GlobalIndex) : Prop where
  ids : SameBlockIDs g g'
  pointer : ∀ e ∈ event.index, e < g'.allocated
  blocks : g'.blocksOf event.timelineKey = applyEvent g' (g.blocksOf event.timelineKey) event
  others : ∀ k, k ≠ event.timelineKey → g'.blocksOf k = g.blocksOf k

structure SameBlocks (g g' : GlobalIndex) : Prop where
  ids : SameBlockIDs g g'
  blocks : ∀ k, g'.blocksOf k = g.blocksOf k

theorem replaceFirst_ids {blockID : String} {new : Nat} {blocks : List Nat}
    (h : ∀ e ∈ blocks, (g'.entries e).blockID = (g.entries e).blockID) :
    replaceFirst g' blockID new blocks = replaceFirst g blockID new blocks := by
  induction blocks with
  | nil => rfl
  | cons e es ih =>
    rw [replaceFirst,replaceFirst,h e List.mem_cons_self,
      ih fun e' he' => h e' (List.mem_cons_of_mem e he')]

theorem eraseP_congr {blocks : List Nat} {p q : Nat → Bool} (h : ∀ e ∈ blocks, p e = q e) :
    blocks.eraseP p = blocks.eraseP q := by
  induction blocks with
  | nil => rfl
  | cons e es ih =>
    rw [List.eraseP_cons,List.eraseP_cons,h e List.mem_cons_self,
      ih fun e' he' => h e' (List.mem_cons_of_mem e he')]

theorem applyEvent_ids (hids : SameBlockIDs g g') {blocks : List Nat} {event : IndexEvent}
    (hblocks : ∀ e ∈ blocks, e < g.allocated) (hpointer : ∀ e ∈ event.index, e < g.allocated) :
    applyEvent g' blocks event = applyEvent g blocks event := by
  have hsame : ∀ e ∈ blocks, (g'.entries e).blockID = (g.entries e).blockID :=
    fun e he => hids.blockID e (hblocks e he)
  obtain ⟨type,timelineKey,index,oldStoreID⟩ := event
  cases index with
  | none => cases type <;> rfl
  | some e =>
    have he := hids.blockID e (hpointer e rfl)
    cases type with
    | add => rfl
    | migrate => rfl
    | remove =>
      simp only [applyEvent,he]
      exact eraseP_congr fun e' he' => by rw [hsame e' he']
    | update =>
      simp only [applyEvent,he]
      exact replaceFirst_ids hsame

theorem mem_applyEvent {blocks : List Nat} {event : IndexEvent} {e : Nat}
    (h : e ∈ applyEvent g blocks event) :
    e ∈ blocks ∨ e ∈ event.index := by
  obtain ⟨type,timelineKey,index,oldStoreID⟩ := event
  cases index with
  | none => cases type <;> exact Or.inl h
  | some new =>
    cases type with
    | add =>
      rcases List.mem_append.mp h with h | h
      · exact Or.inl h
      · exact Or.inr (congrArg some (List.mem_singleton.mp h).symm)
    | migrate => exact Or.inl h
    | remove => exact Or.inl (List.mem_of_mem_eraseP h)
    | update => exact (mem_replaceFirst h).elim (fun heq => Or.inr (congrArg some heq.symm)) Or.inl

theorem foldl_applyEvent_ids (hids : SameBlockIDs g g') {events : List IndexEvent}
    {blocks : List Nat} (hblocks : ∀ e ∈ blocks, e < g.allocated)
    (hpointers : ∀ event ∈ events, ∀ e ∈ event.index, e < g.allocated) :
    events.foldl (applyEvent g') blocks = events.foldl (applyEvent g) blocks := by
  induction events generalizing blocks with
  | nil => rfl
  | cons event events ih =>
    have hpointer := hpointers event List.mem_cons_self
    rw [List.foldl_cons,List.foldl_cons,applyEvent_ids hids hblocks hpointer]
    refine ih (fun e he => ?_) fun event' hevent' =>
      hpointers event' (List.mem_cons_of_mem _ hevent')
    exact (mem_applyEvent he).elim (hblocks e) (hpointer e)

theorem Added.follows {index : GlobalStoreIndex} (ha : Added g index g') :
    Follows g ((IndexOp.addIndex index).event g) g' where
  ids := ⟨by rw [ha.allocated]; exact Nat.le_succ _,
    fun e he => by rw [ha.entries e (Nat.ne_of_lt he)]⟩
  pointer := by
    rintro e ⟨⟩
    rw [ha.allocated]
    exact Nat.lt_succ_self _
  blocks := ha.blocksOf_self
  others := fun k hk => ha.blocksOf_other hk

theorem Removed.follows {k blockID : String} {e : Nat} (hr : Removed g k blockID e g')
    (hw : g.WellFormed) :
    Follows g ((IndexOp.removeIndex k blockID).event g) g' := by
  obtain ⟨hfind,hblocks⟩ := hr.blocksOf_self hw
  have hid : (g.entries e).blockID = blockID := by simpa using List.find?_some hfind
  have hin : e ∈ g.blocksOf k := List.mem_of_find?_eq_some hfind
  refine ⟨⟨Nat.le_of_eq hr.allocated.symm,fun e _ => by rw [hr.entries]⟩,fun e' he' => ?_,?_,
    fun k' hk' => hr.blocksOf_other hk'⟩
  · have heq : e = e' := Option.some.inj (hfind.symm.trans he')
    rw [hr.allocated,← heq]
    exact hw.lt hin
  · simp only [IndexOp.event,hfind,applyEvent,hr.entries,hid]
    rw [hblocks]
    exact (eraseP_eq_erase hfind).symm

theorem wp_updateIndex_follows (clock : Nat → Int) (index : GlobalStoreIndex) (hw : g.WellFormed) :
    wp (updateIndex clock index) (fun _ g' => Follows g ((IndexOp.updateIndex index).event g) g')
      (fun fault g' => ((∃ text, fault = .error text) ∧ SameBlocks g g') ∨
        (fault = .nilMap ∧ g.storeIndex index.storeID = none ∧
          (g.blockWith index.timelineKey index.blockID).isSome)) g := by
  simp only [updateIndex,wp_bind,wp_readTime,wp_newEntry,wp_get]
  generalize hg₁ : g.advance.alloc { index with updatedAt := clock g.tick } = g₁
  have hids : SameBlockIDs g g₁ := by
    rw [← hg₁]
    have hread : SameBlockIDs g g.advance := ⟨Nat.le_refl _,fun _ _ => rfl⟩
    exact hread.trans (SameBlockIDs.alloc g.advance _)
  have hsame : SameBlocks g g₁ := ⟨hids,by subst hg₁; exact fun _ => rfl⟩
  have htimelines : g₁.timelineIndex = g.timelineIndex := by
    rw [← hg₁]
    rfl
  have hstores : g₁.storeIndex = g.storeIndex := by
    rw [← hg₁]
    rfl
  have hallocated : g₁.allocated = g.allocated+1 := by
    rw [← hg₁]
    rfl
  have hnew : (g₁.entries g.allocated).blockID = index.blockID := by
    rw [← hg₁]
    simp
  rw [htimelines,hstores]
  cases hk : g.timelineIndex index.timelineKey with
  | none => exact Or.inl ⟨⟨_,rfl⟩,hsame⟩
  | some location =>
    have hblocks : g.blocksOf index.timelineKey = location.blocks := by
      simp only [GlobalIndex.blocksOf,hk]
    have hthere : ∀ e ∈ location.blocks, (g₁.entries e).blockID = (g.entries e).blockID :=
      fun e he => hids.blockID e (hw.pointers _ _ hk e he)
    simp only
    cases hfind : location.blocks.find? fun e => (g₁.entries e).blockID = index.blockID with
    | none => exact Or.inl ⟨⟨_,rfl⟩,hsame⟩
    | some e =>
      simp only [wp_bind,wp_readTime,wp_modify,wp_ite,wp_throw]
      cases hstore : g.storeIndex index.storeID with
      | none =>
        refine Or.inr ⟨trivial,rfl,?_⟩
        rw [GlobalIndex.blockWith,hblocks,List.find?_isSome]
        have hmem := List.mem_of_find?_eq_some hfind
        refine ⟨e,hmem,?_⟩
        rw [decide_eq_true_eq,← hthere e hmem]
        simpa using List.find?_some hfind
      | some blocks =>
        simp only [Option.isNone_some,Bool.false_eq_true,if_false]
        refine wp_mono (wp_putStoreIndex _ _ _ _) ?_ (fun _ _ h => h.elim)
        intro _ g₃ h₃
        refine wp_mono (wp_updateStoreLoad clock _ _) ?_ (fun _ _ h => h.elim)
        intro _ g₄ h₄
        have hfin := h₃.trans h₄
        have hentries : g₄.entries = g₁.entries := hfin.entries
        have hgrown : g₄.allocated = g.allocated+1 := hfin.allocated.trans hallocated
        refine ⟨⟨?_,fun e he => ?_⟩,?_,?_,fun k hne => ?_⟩
        · rw [hgrown]
          exact Nat.le_succ _
        · rw [hentries]
          exact hids.blockID e he
        · rintro e ⟨⟩
          rw [hgrown]
          exact Nat.lt_succ_self _
        · simp only [IndexOp.event,applyEvent,hentries,hnew,hblocks]
          rw [replaceFirst_ids (g := g₁) fun e _ => by rw [hentries]]
          simp [GlobalIndex.blocksOf,hfin.timelineIndex]
        · simp only [IndexOp.event] at hne
          simp [GlobalIndex.blocksOf,hfin.timelineIndex,hne,htimelines]

theorem wp_migrateOne_ids (clock : Nat → Int) (key fromStoreID toStoreID : String)
    (e : Nat) (g : GlobalIndex) :
    wp (migrateOne clock key fromStoreID toStoreID e)
      (fun _ g' => g'.timelineIndex = g.timelineIndex ∧ SameBlockIDs g g')
        (fun _ _ => False) g := by
  simp only [migrateOne,wp_bind,wp_get,wp_ite,wp_pure]
  split
  · refine wp_mono (wp_deleteStoreIndex _ _ _) ?_ (fun _ _ h => h)
    intro _ g₁ h₁
    simp only [wp_readTime,wp_modify]
    refine wp_mono (wp_putStoreIndex _ _ _ _) ?_ (fun _ _ h => h)
    intro _ g₂ h₂
    refine ⟨h₂.timelineIndex.trans h₁.timelineIndex,h₁.sameBlockIDs.trans
      (SameBlockIDs.trans ?_ h₂.sameBlockIDs)⟩
    refine ⟨Nat.le_refl _,fun e' _ => ?_⟩
    by_cases he : e' = e
    · subst he
      simp
    · simp [he]
  · exact ⟨trivial,SameBlockIDs.refl g⟩

theorem wp_migrateTimeline_follows (clock : Nat → Int) (key fromStoreID toStoreID : String)
    (g : GlobalIndex) :
    wp (migrateTimeline clock key fromStoreID toStoreID)
      (fun _ g' => Follows g ((IndexOp.migrateTimeline key fromStoreID toStoreID).event g) g')
      (fun fault g' => (∃ text, fault = .error text) ∧ SameBlocks g g') g := by
  simp only [migrateTimeline,wp_bind,wp_get]
  cases hk : g.timelineIndex key with
  | none => exact ⟨⟨_,rfl⟩,SameBlockIDs.refl g,fun _ => rfl⟩
  | some location =>
    simp only [wp_bind]
    refine wp_mono (wp_forM (I := fun _ g' => g'.timelineIndex = g.timelineIndex ∧
      SameBlockIDs g g')
      (E := fun _ _ => False) _ ⟨rfl,SameBlockIDs.refl g⟩ ?_) ?_ (fun _ _ h => h.elim)
    · rintro done e rest g₁ - ⟨htimelines,hids⟩
      exact wp_mono (wp_migrateOne_ids clock key fromStoreID toStoreID e g₁)
        (fun _ g₂ h => ⟨h.1.trans htimelines,hids.trans h.2⟩) (fun _ _ h => h)
    · rintro _ g₁ ⟨htimelines,hids⟩
      simp only [wp_readTime,wp_modify]
      refine wp_mono (wp_updateStoreLoad clock _ _) ?_ (fun _ _ h => h.elim)
      intro _ g₂ h₂
      refine wp_mono (wp_updateStoreLoad clock _ _) ?_ (fun _ _ h => h.elim)
      intro _ g₃ h₃
      have hfin := h₂.trans h₃
      have hfin' : SameBlockIDs g₁ g₃ :=
        ⟨hfin.sameBlockIDs.allocated,fun e he => hfin.sameBlockIDs.blockID e he⟩
      refine ⟨hids.trans hfin',fun e he => ?_,?_,fun k hne => ?_⟩
      · cases he
      · simp [IndexOp.event,applyEvent,GlobalIndex.blocksOf,hfin.timelineIndex,hk]
      · simp only [IndexOp.event] at hne
        simp [GlobalIndex.blocksOf,hfin.timelineIndex,hne,htimelines]

/-- Every operation either succeeds and does what its event says, or fails and leaves the
blocks, or panics over a store that has no map yet. -/
theorem wp_exec_follows (clock : Nat → Int) (op : IndexOp) (hw : g.WellFormed) :
    wp (op.exec clock) (fun _ g' => Follows g (op.event g) g')
      (fun fault g' => ((∃ text, fault = .error text) ∧ SameBlocks g g') ∨
        (fault = .nilMap ∧ ∃ index, op = .updateIndex index ∧ g.storeIndex index.storeID = none ∧
          (g.blockWith index.timelineKey index.blockID).isSome)) g := by
  cases op with
  | addIndex index =>
    exact wp_mono (wp_addIndex_added clock index g) (fun _ _ h => h.follows) (fun _ _ h => h.elim)
  | removeIndex k blockID =>
    refine wp_mono (wp_and (wp_removeIndex_removed clock k blockID g)
      (wp_removeIndex clock k blockID hw))
      ?_ ?_
    · rintro _ g' ⟨⟨e,hr⟩,-⟩
      exact hr.follows hw
    · rintro fault g' ⟨⟨rfl,-⟩,htext,-⟩
      exact Or.inl ⟨htext,SameBlockIDs.refl g',fun _ => rfl⟩
  | updateIndex index =>
    refine wp_mono (wp_updateIndex_follows clock index hw) (fun _ _ h => h) ?_
    rintro fault g' (h | ⟨hfault,hstore,hfound⟩)
    · exact Or.inl h
    · exact Or.inr ⟨hfault,index,rfl,hstore,hfound⟩
  | migrateTimeline k fromStoreID toStoreID =>
    exact wp_mono (wp_migrateTimeline_follows clock k fromStoreID toStoreID g) (fun _ _ h => h)
      (fun _ _ h => Or.inl h)

end Effects
section News
variable (clock : Nat → Int) (k : String)

/-- What a step sends to the watchers of a timeline. -/
def WatchedIndex.news (s : WatchedIndex) : WatchEvent → List IndexEvent
  | .exec op =>
    match op.exec clock s.index with
    | .ok _ _ => if (op.event s.index).timelineKey = k then [op.event s.index] else []
    | .error _ _ => []
  | _ => []

def WatchedIndex.emitted : WatchedIndex → List WatchEvent → List IndexEvent
  | _,[] => []
  | s,e :: es => s.news clock k e ++
    match s.goOn clock e with
    | none => []
    | some t => t.emitted es

/-- When there is news for a channel, it is not full. -/
def HasRoom (w : Nat) (s : WatchedIndex) (e : WatchEvent) : Prop :=
  ∀ ch, s.watchers.channels[w]? = some ch → s.news clock ch.topic e ≠ [] →
    ch.buffer.length < watchCapacity

end News

section Steps
variable {clock : Nat → Int} {s s' : WatchedIndex} {e : WatchEvent} {k : String}

structure WatchedIndex.Sound (s : WatchedIndex) : Prop where
  index : s.index.WellFormed
  watchers : s.watchers.Sound watchCapacity

structure Carried (news : List IndexEvent) (ch ch' : Channel String IndexEvent) : Prop where
  topic : ch'.topic = ch.topic
  closed : ch.closed = true → ch'.closed = true ∧ ch'.sent = ch.sent
  opened : ch.closed = false → ch'.sent = if ch.buffer.length < watchCapacity then
    ch.sent ++ news else ch.sent

structure Stepped (clock : Nat → Int) (s : WatchedIndex) (e : WatchEvent) (s' : WatchedIndex) :
    Prop where
  sound : s'.Sound
  ids : SameBlockIDs s.index s'.index
  pointers : ∀ k, ∀ event ∈ s.news clock k e, ∀ p ∈ event.index, p < s'.index.allocated
  blocks : ∀ k, s'.index.blocksOf k = (s.news clock k e).foldl (applyEvent s'.index)
    (s.index.blocksOf k)
  channel : ∀ (w : Nat) ch, s.watchers.channels[w]? = some ch →
    ∃ ch', s'.watchers.channels[w]? = some ch' ∧ Carried (s.news clock ch.topic e) ch ch'

theorem Carried.refl (ch : Channel String IndexEvent) : Carried [] ch ch :=
  ⟨rfl,fun h => ⟨h,rfl⟩,fun _ => by rw [List.append_nil,ite_self]⟩

theorem Carried.offered {event : IndexEvent} (ch : Channel String IndexEvent)
    (hopen : ch.closed = false) :
    Carried [event] ch (ch.offer watchCapacity event) :=
  ⟨ch.offer_topic event,fun h => absurd hopen (by rw [h]; exact Bool.noConfusion),
    fun _ => ch.sent_offer event⟩

/-- A step that sends nothing leaves the blocks and does nothing more than close or read. -/
theorem Stepped.silent (h : s'.Sound) (hnews : ∀ k, s.news clock k e = [])
    (hsame : SameBlocks s.index s'.index)
    (hchannel : ∀ (w : Nat) ch, s.watchers.channels[w]? = some ch →
      ∃ ch', s'.watchers.channels[w]? = some ch' ∧
      ch'.topic = ch.topic ∧ (ch.closed = true → ch'.closed = true) ∧ ch'.sent = ch.sent) :
    Stepped clock s e s' where
  sound := h
  ids := hsame.ids
  pointers := fun k event hevent => by simp [hnews k] at hevent
  blocks := fun k => by rw [hnews k,List.foldl_nil,hsame.blocks k]
  channel := fun w ch hch => by
    obtain ⟨ch',hch',htopic,hclosed,hsent⟩ := hchannel w ch hch
    refine ⟨ch',hch',htopic,fun h => ⟨hclosed h,hsent⟩,fun _ => ?_⟩
    rw [hnews,List.append_nil,ite_self,hsent]

theorem SameBlocks.refl (g : GlobalIndex) : SameBlocks g g := ⟨SameBlockIDs.refl g,fun _ => rfl⟩

theorem stepped_sent {op : IndexOp} {g : GlobalIndex} (h : s.Sound)
    (hx : op.exec clock s.index = .ok () g)
    (hf : Follows s.index (op.event s.index) g) (hw : g.WellFormed) :
    ∃ s', s.next clock (.exec op) = .ok s' ∧ Stepped clock s (.exec op) s' := by
  have hnews : ∀ k, s.news clock k (.exec op) =
      if (op.event s.index).timelineKey = k then [op.event s.index] else [] := by
    intro k
    simp only [WatchedIndex.news,hx]
  obtain ⟨watchers,hpublish,hlisted,ho,hsound⟩ :=
    h.watchers.publish (op.event s.index).timelineKey (op.event s.index)
  refine ⟨⟨g,watchers⟩,by simp only [WatchedIndex.next,hx,WatchedIndex.notifyWatchers,hpublish],
    ⟨hw,hsound⟩,hf.ids,fun k event hevent => ?_,fun k => ?_,fun w ch hch => ?_⟩
  · rw [hnews] at hevent
    split at hevent
    · rw [List.mem_singleton.mp hevent]
      exact hf.pointer
    · cases hevent
  · rw [hnews]
    split
    · rename_i hk
      subst hk
      exact hf.blocks
    · rename_i hk
      exact hf.others k (Ne.symm hk)
  · rw [hnews]
    by_cases hw : w ∈ s.watchers.listed (op.event s.index).timelineKey
    · obtain ⟨ch₀,hch₀,htopic,hopen⟩ := h.watchers.opened _ w hw
      rw [hch] at hch₀
      cases hch₀
      refine ⟨ch.offer watchCapacity (op.event s.index),by rw [ho.at_place w hw,hch]; rfl,?_⟩
      rw [if_pos htopic.symm]
      exact .offered ch hopen
    · refine ⟨ch,(ho.elsewhere w hw).trans hch,?_⟩
      split
      · -- it has the topic and is not listed, so it is closed
        rename_i htopic
        refine ⟨rfl,fun hclosed => ⟨hclosed,rfl⟩,fun hopen => ?_⟩
        exact (hw (htopic ▸ h.watchers.listed w ch hch hopen)).elim
      · exact .refl ch

theorem WatchedIndex.Sound.next (clock : Nat → Int) (h : s.Sound) (e : WatchEvent) :
    (∃ s', s.next clock e = .ok s' ∧ Stepped clock s e s') ∨
      (s.next clock e = .error .nilMap ∧ ∃ index, e = .exec (.updateIndex index) ∧
        s.index.storeIndex index.storeID = none ∧
        (s.index.blockWith index.timelineKey index.blockID).isSome) := by
  cases e with
  | exec op =>
    have hspec := wp_and (wp_exec_follows clock op h.index) (wp_exec_wellFormed clock op h.index)
    cases hx : op.exec clock s.index with
    | ok u g =>
      obtain ⟨hf,hw⟩ := wp_ok hspec hx
      exact Or.inl (stepped_sent h hx hf hw)
    | error fault g =>
      obtain ⟨⟨⟨text,rfl⟩,hsame⟩ | ⟨rfl,index,rfl,hstore,hfound⟩,hw⟩ := wp_error hspec hx
      · refine Or.inl ⟨⟨g,s.watchers⟩,by simp only [WatchedIndex.next,hx],?_⟩
        refine Stepped.silent ⟨hw,h.watchers⟩
          (fun k => by simp only [WatchedIndex.news,hx]) hsame ?_
        exact fun w ch hch => ⟨ch,hch,rfl,id,rfl⟩
      · exact Or.inr ⟨by simp only [WatchedIndex.next,hx],index,rfl,hstore,hfound⟩
  | watch timelineKey =>
    refine Or.inl ⟨_,rfl,Stepped.silent ⟨h.index,h.watchers.subscribe timelineKey⟩
      (fun _ => rfl) (.refl _) ?_⟩
    intro w ch hch
    refine ⟨ch,?_,rfl,id,rfl⟩
    exact (List.getElem?_append_left (List.getElem?_eq_some_iff.mp hch).1).trans hch
  | done w =>
    obtain ⟨watchers,hx,hsound,hother,hself⟩ := h.watchers.unsubscribe w
    refine Or.inl ⟨⟨s.index,watchers⟩,by simp only [WatchedIndex.next,hx],
      Stepped.silent ⟨h.index,hsound⟩ (fun _ => rfl) (.refl _) ?_⟩
    intro w' ch hch
    by_cases hw : w' = w
    · subst hw
      exact ⟨{ ch with closed := true },by rw [hself,hch]; rfl,rfl,fun _ => rfl,rfl⟩
    · exact ⟨ch,(hother w' hw).trans hch,rfl,id,rfl⟩
  | receive w =>
    refine Or.inl ⟨_,rfl,Stepped.silent ⟨h.index,h.watchers.take w⟩ (fun _ => rfl) (.refl _) ?_⟩
    intro w' ch hch
    by_cases hw : w' = w
    · subst hw
      refine ⟨ch.take,by rw [Channels.take_self,hch]; rfl,ch.take_topic,fun h => ?_,ch.sent_take⟩
      rw [ch.take_closed,h]
    · exact ⟨ch,(Channels.take_elsewhere _ hw).trans hch,rfl,id,rfl⟩

theorem WatchedIndex.Sound.goOn (h : s.Sound) (hx : s.goOn clock e = some s') :
    Stepped clock s e s' := by
  unfold WatchedIndex.goOn at hx
  obtain ⟨t,ht,hstep⟩ | ⟨hpanic,-⟩ := h.next clock e
  · rw [ht] at hx
    cases hx
    exact hstep
  · rw [hpanic] at hx
    cases hx

theorem sound_new : newWatchedIndex.Sound := ⟨wellFormed_new,Channels.sound_none⟩

end Steps

section Runs
variable {clock : Nat → Int} {s : WatchedIndex} {events : List WatchEvent}

theorem sound_run (hrun : events.foldlM (WatchedIndex.goOn clock) newWatchedIndex = some s) :
    s.Sound :=
  runs_keep (C := fun _ _ => True) sound_new (fun _ _ _ h _ hx => (h.goOn hx).sound) events
    (fun _ _ _ _ _ _ => trivial) hrun

/-- Nothing is ever sent on a channel that was closed, none is closed twice, and no buffer
grows over its size: the only panic is that of an update which moves a block to a store that
the index does not know. The channels that are open are those that an event still reaches. -/
theorem watchers_never_panic (clock : Nat → Int) (events : List WatchEvent) (s : WatchedIndex)
    (hrun : events.foldlM (WatchedIndex.goOn clock) newWatchedIndex = some s) :
    (∀ e panic, s.next clock e = .error panic → panic = .nilMap ∧ ∃ index,
      e = .exec (.updateIndex index) ∧
        s.index.storeIndex index.storeID = none ∧
        (s.index.blockWith index.timelineKey index.blockID).isSome) ∧
      ∀ (w : Nat) ch, s.watchers.channels[w]? = some ch →
        (ch.closed = false ↔ w ∈ s.watchers.listed ch.topic) ∧
          ch.buffer.length ≤ watchCapacity := by
  have h := sound_run hrun
  refine ⟨fun e panic hx => ?_,fun w ch hch => ⟨⟨h.watchers.listed w ch hch,fun hw => ?_⟩,
    h.watchers.bounded w ch hch⟩⟩
  · obtain ⟨t,ht,-⟩ | ⟨hpanic,hindex⟩ := h.next clock e
    · rw [ht] at hx
      cases hx
    · rw [hpanic] at hx
      cases hx
      exact ⟨rfl,hindex⟩
  · obtain ⟨ch',hch',-,hopen⟩ := h.watchers.opened _ w hw
    rw [hch] at hch'
    cases hch'
    exact hopen

theorem emitted_cons {e : WatchEvent} {t : WatchedIndex}
    (hx : s.goOn clock e = some t) (k : String) :
    s.emitted clock k (e :: events) = s.news clock k e ++ t.emitted clock k events := by
  rw [WatchedIndex.emitted,hx]

theorem blocksOf_run (h : s.Sound) {t : WatchedIndex}
    (hrun : events.foldlM (WatchedIndex.goOn clock) s = some t)
    (k : String) : SameBlockIDs s.index t.index ∧
      (s.emitted clock k events).foldl (applyEvent t.index) (s.index.blocksOf k) =
        t.index.blocksOf k := by
  induction events generalizing s with
  | nil =>
    cases hrun
    exact ⟨SameBlockIDs.refl _,rfl⟩
  | cons e events ih =>
    rw [List.foldlM_cons,Option.bind_eq_bind,Option.bind_eq_some_iff] at hrun
    obtain ⟨u,hx,hrest⟩ := hrun
    have hstep := h.goOn hx
    obtain ⟨hids,hblocks⟩ := ih hstep.sound hrest
    refine ⟨hstep.ids.trans hids,?_⟩
    rw [emitted_cons hx,List.foldl_append,foldl_applyEvent_ids hids ?_ (hstep.pointers k),
      ← hstep.blocks k]
    · exact hblocks
    · exact fun e he => Nat.lt_of_lt_of_le (h.index.lt he) hstep.ids.allocated

/-- A channel is sent some of the events of its timeline, in their order, and all of them
exactly if it had room whenever there was one. -/
theorem channel_run (h : s.Sound) {t : WatchedIndex}
    (hrun : events.foldlM (WatchedIndex.goOn clock) s = some t)
    {w : Nat} {ch : Channel String IndexEvent} (hch : s.watchers.channels[w]? = some ch) :
    ∃ ch' sent, t.watchers.channels[w]? = some ch' ∧ ch'.sent = ch.sent ++ sent ∧
      sent.Sublist (s.emitted clock ch.topic events) ∧
      (ch'.closed = false → ch.closed = false ∧ (sent = s.emitted clock ch.topic events ↔
        Met (WatchedIndex.goOn clock) (HasRoom clock w) s events)) := by
  induction events generalizing s ch with
  | nil =>
    cases hrun
    exact ⟨ch,[],hch,(List.append_nil _).symm,List.Sublist.refl _,fun hopen =>
      ⟨hopen,iff_of_true rfl met_nil⟩⟩
  | cons e events ih =>
    rw [List.foldlM_cons,Option.bind_eq_bind,Option.bind_eq_some_iff] at hrun
    obtain ⟨u,hx,hrest⟩ := hrun
    have hstep := h.goOn hx
    obtain ⟨ch₁,hch₁,hcarried⟩ := hstep.channel w ch hch
    obtain ⟨ch',sent,hch',hsent,hsub,hall⟩ := ih hstep.sound hrest hch₁
    rw [hcarried.topic] at hsub hall
    rw [met_cons hx,emitted_cons hx]
    have hroom : HasRoom clock w s e ↔
        (s.news clock ch.topic e ≠ [] → ch.buffer.length < watchCapacity) := by
      simp only [HasRoom,hch,Option.some.injEq,forall_eq']
    rw [hroom]
    cases hopen : ch.closed with
    | true =>
      obtain ⟨hclosed,hsame⟩ := hcarried.closed hopen
      refine ⟨ch',sent,hch',by rw [hsent,hsame],hsub.trans (List.sublist_append_right ..),
        fun hopen' => ?_⟩
      rw [hclosed] at hall
      cases (hall hopen').1
    | false =>
      have hcarry := hcarried.opened hopen
      by_cases hlt : ch.buffer.length < watchCapacity
      · rw [if_pos hlt] at hcarry
        refine ⟨ch',s.news clock ch.topic e ++ sent,hch',by rw [hsent,hcarry,List.append_assoc],
          hsub.append_left _,fun hopen' => ⟨rfl,?_⟩⟩
        rw [List.append_cancel_left_eq,(hall hopen').2]
        exact (and_iff_right fun _ => hlt).symm
      · rw [if_neg hlt] at hcarry
        refine ⟨ch',sent,hch',by rw [hsent,hcarry],hsub.trans (List.sublist_append_right ..),
          fun hopen' => ⟨rfl,?_⟩⟩
        cases hnews : s.news clock ch.topic e with
        | nil =>
          rw [List.nil_append,(hall hopen').2]
          exact (and_iff_right fun hne => (hne rfl).elim).symm
        | cons event rest =>
          -- what was passed over is missing
          refine iff_of_false (fun heq => ?_) fun hmet => hlt (hmet.1 (List.cons_ne_nil _ _))
          have hlength := hsub.length_le
          rw [heq,List.length_append,List.length_cons] at hlength
          omega

/-- A block comes, is read about, and goes after the watcher has left. -/
def watchedBlock : List WatchEvent :=
  [.exec (.addIndex firstBlock),.receive 0,.done 0,.exec (.removeIndex "user:1001" "block-1")]

theorem watchers_never_panic_block : ∃ s,
    (.watch "user:1001" :: watchedBlock).foldlM
      (WatchedIndex.goOn fun _ => 0) newWatchedIndex = some s ∧
    ∀ e fault, s.next (fun _ => 0) e ≠ .error (.channel fault) := by
  have hrun : ((.watch "user:1001" :: watchedBlock).foldlM (WatchedIndex.goOn fun _ => 0)
      newWatchedIndex).isSome = true := by decide +kernel
  obtain ⟨s,hs⟩ := Option.isSome_iff_exists.mp hrun
  refine ⟨s,hs,fun e fault hx => ?_⟩
  cases ((watchers_never_panic (fun _ => 0) _ s hs).1 e _ hx).1

/-- A watcher is sent the events of its timeline in their order, none of them twice, and all
of them exactly if its channel was never full when one came. As long as it was not, a reader
that started from the blocks of the timeline has them still, whoever else watches or works
on the index. -/
theorem watcher_follows_timeline (clock : Nat → Int) (before during : List WatchEvent) (k : String)
    (u s : WatchedIndex) (hbefore : before.foldlM
      (WatchedIndex.goOn clock) newWatchedIndex = some u)
    (hduring : (.watch k :: during).foldlM (WatchedIndex.goOn clock) u = some s) :
    ∃ ch, s.watchers.channels[u.watchers.channels.length]? = some ch ∧
      ch.sent.Sublist (u.emitted clock k (.watch k :: during)) ∧
      (ch.closed = false → (ch.sent = u.emitted clock k (.watch k :: during) ↔
        Met (WatchedIndex.goOn clock) (HasRoom clock u.watchers.channels.length) u
          (.watch k :: during))) ∧
      (ch.closed = false →
        Met (WatchedIndex.goOn clock) (HasRoom clock u.watchers.channels.length) u
          (.watch k :: during) →
        ch.sent.foldl (applyEvent s.index) (u.index.blocksOf k) = s.index.blocksOf k) := by
  have hu := sound_run hbefore
  have hx : u.goOn clock (.watch k) = some ⟨u.index,u.watchers.subscribe k⟩ := rfl
  have hrest : during.foldlM (WatchedIndex.goOn clock)
      ⟨u.index,u.watchers.subscribe k⟩ = some s := by
    rwa [List.foldlM_cons,hx] at hduring
  have hnew : (u.watchers.subscribe k).channels[u.watchers.channels.length]? =
      some ⟨k,[],[],false⟩ := by
    simp [Channels.subscribe]
  obtain ⟨ch,sent,hch,hsent,hsub,hall⟩ := channel_run (hu.goOn hx).sound hrest hnew
  obtain ⟨-,hblocks⟩ := blocksOf_run hu hduring k
  have hemitted : u.emitted clock k (.watch k :: during) =
      WatchedIndex.emitted clock k ⟨u.index,u.watchers.subscribe k⟩ during := by
    rw [emitted_cons hx]
    rfl
  have hfirst : HasRoom clock u.watchers.channels.length u (.watch k) :=
    fun ch _ hne => (hne rfl).elim
  have hsent' : ch.sent = sent := hsent.trans (List.nil_append _)
  rw [met_cons hx,and_iff_right hfirst]
  rw [hemitted] at hblocks ⊢
  refine ⟨ch,hch,hsent' ▸ hsub,fun hopen => hsent' ▸ (hall hopen).2,fun hopen hmet => ?_⟩
  rw [hsent',(hall hopen).2.mpr hmet]
  exact hblocks

/-- A block comes, another one goes unheard, and the first one goes. -/
def heardAndUnheard : List WatchEvent :=
  [.exec (.addIndex firstBlock),.exec (.addIndex { firstBlock with timelineKey := "user:1002" }),
    .exec (.removeIndex "user:1001" "block-1")]

theorem watcher_follows_timeline_twice : ∃ s ch,
    (.watch "user:1001" :: heardAndUnheard).foldlM
      (WatchedIndex.goOn fun _ => 0) newWatchedIndex = some s ∧
    s.watchers.channels[0]? = some ch ∧ ch.sent.length = 2 ∧
    ch.sent.foldl (applyEvent s.index) (newWatchedIndex.index.blocksOf "user:1001") =
      s.index.blocksOf "user:1001" := by
  have hseen : ((.watch "user:1001" :: heardAndUnheard).foldlM
    (WatchedIndex.goOn fun _ => 0) newWatchedIndex).map
      (fun s => s.watchers.channels[0]?.map fun ch => (ch.sent,ch.sent.length,ch.closed)) =
      some (some (newWatchedIndex.emitted (fun _ => 0) "user:1001"
          (.watch "user:1001" :: heardAndUnheard),2,false)) := by
    decide +kernel
  obtain ⟨s,hs,hlast⟩ := Option.map_eq_some_iff.mp hseen
  obtain ⟨ch,hch,-,hexact,hfollows⟩ :=
    watcher_follows_timeline (fun _ => 0) [] heardAndUnheard "user:1001" newWatchedIndex s rfl hs
  have hch : s.watchers.channels[0]? = some ch := hch
  rw [hch,Option.map_some,Option.some.injEq,Prod.mk.injEq,Prod.mk.injEq] at hlast
  obtain ⟨hsent,htwo,hopen⟩ := hlast
  exact ⟨s,ch,hs,hch,htwo,hfollows hopen ((hexact hopen).mp hsent)⟩

end Runs
end Imy.Index
