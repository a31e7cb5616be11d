import Imy.Storage.Timeline
set_option autoImplicit false

namespace Imy.Storage
open Imy.Lib

theorem Store.find_put (s : Store) (r r' : TimelineRef) (tl : Timeline) :
    (s.put r tl).find r' = if r' = r then some tl else s.find r' := by
  obtain ⟨ty,id⟩ := r
  obtain ⟨ty',id'⟩ := r'
  cases ty <;> cases ty' <;> simp [Store.find,Store.put,Function.update_apply]

@[simp] theorem Store.find_put_self (s : Store) (r : TimelineRef) (tl : Timeline) :
    (s.put r tl).find r = some tl := by simp [Store.find_put]

theorem Store.find_put_of_ne (s : Store) {r r' : TimelineRef} (tl : Timeline) (h : r' ≠ r) :
    (s.put r tl).find r' = s.find r' := by simp [Store.find_put,h]

section PutFields
variable (s : Store) (r : TimelineRef) (tl : Timeline)

@[simp] theorem Store.put_config : (s.put r tl).config = s.config := by
  unfold Store.put; split <;> rfl

@[simp] theorem Store.put_storeID : (s.put r tl).storeID = s.storeID := by
  unfold Store.put; split <;> rfl

@[simp] theorem Store.put_currentCapacity : (s.put r tl).currentCapacity = s.currentCapacity := by
  unfold Store.put; split <;> rfl

@[simp] theorem Store.put_userCheckpoints : (s.put r tl).userCheckpoints = s.userCheckpoints := by
  unfold Store.put; split <;> rfl

@[simp] theorem Store.put_seqGenerator : (s.put r tl).seqGenerator = s.seqGenerator := by
  unfold Store.put; split <;> rfl

end PutFields

@[simp] theorem Store.find_cacheBlock (s : Store) (id : String) (b : BlockRef) (r : TimelineRef) :
    (s.cacheBlock id b).find r = s.find r := by
  unfold Store.find; split <;> rfl

@[simp] theorem Store.find_addIndex (s : Store) (key : String) (i : StoreIndex) (r : TimelineRef) :
    (s.addIndex key i).find r = s.find r := by
  unfold Store.find; split <;> rfl

@[simp] theorem Store.find_raiseSeq (s : Store) (n : Int) (r : TimelineRef) :
    (s.raiseSeq n).find r = s.find r := by
  unfold Store.find; split <;> rfl

structure Frame (r : TimelineRef) (h t : Host) : Prop where
  config : t.store.config = h.store.config
  storeID : t.store.storeID = h.store.storeID
  checkpoints : t.store.userCheckpoints = h.store.userCheckpoints
  others : ∀ r', r' ≠ r → t.store.find r' = h.store.find r'

theorem Frame.refl (r : TimelineRef) (h : Host) : Frame r h h := ⟨rfl,rfl,rfl,fun _ _ => rfl⟩

theorem Frame.trans {r : TimelineRef} {h t u : Host} (a : Frame r h t) (b : Frame r t u) :
    Frame r h u :=
  ⟨b.config.trans a.config,b.storeID.trans a.storeID,b.checkpoints.trans a.checkpoints,
    fun r' hr => (b.others r' hr).trans (a.others r' hr)⟩

theorem Frame.timeline {r r' : TimelineRef} {h t : Host} (f : Frame r h t) (hr : r' ≠ r) :
    t.timeline r' = h.timeline r' := by
  simp only [Host.timeline,f.others r' hr]

structure LoadFrame (r : TimelineRef) (h t : Host) : Prop extends Frame r h t where
  disk : t.disk = h.disk
  births : t.births = h.births
  capacity : t.store.currentCapacity = h.store.currentCapacity
  seq : h.store.seqGenerator ≤ t.store.seqGenerator

theorem LoadFrame.refl (r : TimelineRef) (h : Host) : LoadFrame r h h :=
  ⟨Frame.refl r h,rfl,rfl,rfl,Int.le_refl _⟩

theorem LoadFrame.trans {r : TimelineRef} {h t u : Host} (a : LoadFrame r h t)
    (b : LoadFrame r t u) : LoadFrame r h u :=
  ⟨a.toFrame.trans b.toFrame,b.disk.trans a.disk,b.births.trans a.births,
    b.capacity.trans a.capacity,Int.le_trans a.seq b.seq⟩

theorem LoadFrame.advance (r : TimelineRef) (h : Host) : LoadFrame r h h.advance :=
  ⟨⟨rfl,rfl,rfl,fun _ _ => rfl⟩,rfl,rfl,rfl,Int.le_refl _⟩

def savedBlock (c : StoreConfig) (storeID : String) (disk : Path → Option FileData)
    (blockID : String) : Option TimelineBlock :=
  match disk (getTimelineBlockFilePath c blockID) with
  | some (.gob messages false) => some
    { blockID := blockID, storeID := storeID, offset := 0, size := messages.length,
      messages := messages, isFull := true, nextBlock := none }
  | _ => none

theorem savedBlock_some {c : StoreConfig} {storeID : String} {disk : Path → Option FileData}
    {blockID : String} {b : TimelineBlock} (h : savedBlock c storeID disk blockID = some b) :
    b.blockID = blockID ∧ b.isFull = true ∧ b.size = b.messages.length ∧
      disk (getTimelineBlockFilePath c blockID) = some (.gob b.messages false) := by
  unfold savedBlock at h
  split at h
  · rename_i hd
    cases h
    exact ⟨rfl,rfl,rfl,hd⟩
  · cases h

def savedMetadata (c : StoreConfig) (disk : Path → Option FileData) (r : TimelineRef) :
    Option Metadata :=
  match disk (getTimelineMetaFilePath c r) with
  | some (.json metadata) => some metadata
  | _ => none

def savedIDs (c : StoreConfig) (disk : Path → Option FileData) (r : TimelineRef) : List String :=
  match savedMetadata c disk r with
  | some metadata => metadata.blockIDs
  | none => []

def LegibleBlock (c : StoreConfig) (disk : Path → Option FileData) (blockID : String) : Prop :=
  ∀ d, disk (getTimelineBlockFilePath c blockID) = some d → ∃ messages, d = .gob messages false

def LegibleMetadata (c : StoreConfig) (disk : Path → Option FileData) (r : TimelineRef) : Prop :=
  ∀ d, disk (getTimelineMetaFilePath c r) = some d → ∃ metadata, d = .json metadata

structure Legible (env : Env) (c : StoreConfig) (disk : Path → Option FileData)
    (r : TimelineRef) : Prop where
  reads : ∀ n, env.readFault n = false
  metadata : LegibleMetadata c disk r
  blocks : ∀ id ∈ savedIDs c disk r, LegibleBlock c disk id

@[simp] theorem Host.timeline_putTimeline_self (h : Host) (r : TimelineRef) (tl : Timeline) :
    (h.putTimeline r tl).timeline r = tl := by simp [Host.timeline,Host.putTimeline]

theorem Frame.putTimeline (h : Host) (r : TimelineRef) (tl : Timeline) :
    Frame r h (h.putTimeline r tl) :=
  ⟨by simp [Host.putTimeline],by simp [Host.putTimeline],by simp [Host.putTimeline],
    fun r' hr => by simp [Host.putTimeline,Store.find_put_of_ne _ _ hr]⟩

theorem LoadFrame.putTimeline (h : Host) (r : TimelineRef) (tl : Timeline) :
    LoadFrame r h (h.putTimeline r tl) :=
  ⟨Frame.putTimeline h r tl,rfl,rfl,by simp [Host.putTimeline],by simp [Host.putTimeline]⟩

theorem wp_readFile (env : Env) (p : Path) (Q : Option FileData → Host → Prop)
    (E : StoreError → Host → Prop) (h : Host) :
    wp (readFile env p) Q E h =
      if env.readFault h.tick then E .io h.advance else Q (h.disk p) h.advance := by
  unfold wp readFile
  cases env.readFault h.tick <;> rfl

theorem not_legibleBlock {c : StoreConfig} {disk : Path → Option FileData} {id : String}
    {d : FileData} (hd : disk (getTimelineBlockFilePath c id) = some d)
    (hn : ∀ messages, d ≠ .gob messages false) : ¬ LegibleBlock c disk id := by
  intro hl
  obtain ⟨messages,hm⟩ := hl d hd
  exact hn messages hm

theorem wp_loadTimelineBlock (env : Env) (id : String) (h : Host) :
    wp (loadTimelineBlock env id)
      (fun b t => t = h.advance ∧ b = savedBlock h.store.config h.store.storeID h.disk id)
      (fun _ t => t = h.advance ∧
        ((∃ n, env.readFault n = true) ∨ ¬ LegibleBlock h.store.config h.disk id)) h := by
  simp only [loadTimelineBlock,wp_bind,wp_get,wp_readFile]
  split
  · rename_i hf
    exact ⟨trivial,Or.inl ⟨_,hf⟩⟩
  · unfold savedBlock
    cases hd : h.disk (getTimelineBlockFilePath h.store.config id) with
    | none => exact ⟨rfl,rfl⟩
    | some d =>
      cases d with
      | gob messages torn =>
        cases torn with
        | false => exact ⟨rfl,rfl⟩
        | true => exact ⟨rfl,Or.inr (not_legibleBlock hd (by simp))⟩
      | json metadata => exact ⟨rfl,Or.inr (not_legibleBlock hd (by simp))⟩
      | tornJson => exact ⟨rfl,Or.inr (not_legibleBlock hd (by simp))⟩

/-- What one round, or any number of rounds, of the load loop does to the host
when the blocks `bs` were found. -/
structure Extended (r : TimelineRef) (bs : List TimelineBlock) (h t : Host) : Prop
    extends LoadFrame r h t where
  blocks : (t.timeline r).blocks = (h.timeline r).blocks ++ bs
  current : (t.timeline r).currentBlock = (h.timeline r).currentBlock
  lastSeqID : (t.timeline r).lastSeqID = (h.timeline r).lastSeqID
  generator : t.store.seqGenerator = h.store.seqGenerator
  found : (h.store.find r).isSome → (t.store.find r).isSome

theorem Extended.advance (r : TimelineRef) (h : Host) : Extended r [] h h.advance :=
  ⟨LoadFrame.advance r h,by simp [Host.timeline],rfl,rfl,rfl,id⟩

theorem Extended.refl (r : TimelineRef) (h : Host) : Extended r [] h h :=
  ⟨LoadFrame.refl r h,by simp,rfl,rfl,rfl,id⟩

theorem Extended.trans {r : TimelineRef} {as bs : List TimelineBlock} {h t u : Host}
    (a : Extended r as h t) (b : Extended r bs t u) : Extended r (as ++ bs) h u :=
  ⟨a.toLoadFrame.trans b.toLoadFrame,by rw [b.blocks,a.blocks,List.append_assoc],
    b.current.trans a.current,b.lastSeqID.trans a.lastSeqID,b.generator.trans a.generator,
    fun hs => b.found (a.found hs)⟩

theorem Extended.addLoaded (r : TimelineRef) (h : Host) {b : TimelineBlock} (hb : b.isFull = true) :
    Extended r [b] h { h with
      store := (h.store.put r ((h.timeline r).addLoaded b)).cacheBlock b.blockID
        ⟨r,(h.timeline r).blocks.length⟩ } := by
  refine ⟨⟨⟨?_,?_,?_,?_⟩,rfl,rfl,?_,?_⟩,?_,?_,?_,?_,?_⟩
  case refine_4 => intro r' hr; simp [Store.find_put_of_ne _ _ hr]
  all_goals simp [Host.timeline,Timeline.addLoaded,hb]

theorem wp_loadOneBlock (env : Env) (r : TimelineRef) (id : String) (h : Host) :
    wp (loadOneBlock env r id)
      (fun _ t => Extended r (savedBlock h.store.config h.store.storeID h.disk id).toList h t)
      (fun _ t => Extended r [] h t ∧
        ((∃ n, env.readFault n = true) ∨ ¬ LegibleBlock h.store.config h.disk id)) h := by
  simp only [loadOneBlock,wp_bind]
  refine wp_mono (wp_loadTimelineBlock env id h) ?_ ?_
  · rintro b t ⟨rfl,hb⟩
    cases b with
    | none =>
      rw [← hb]
      exact Extended.advance r h
    | some b =>
      obtain ⟨hid,hfull,-,-⟩ := savedBlock_some hb.symm
      subst hid
      rw [← hb,wp_modify]
      exact (Extended.advance r h).trans (Extended.addLoaded r h.advance hfull)
  · rintro e t ⟨rfl,hbad⟩
    exact ⟨Extended.advance r h,hbad⟩

/-- The load loop finds the saved blocks in the order of the list; if it stops
early it has found those of a prefix. -/
theorem wp_loadBlocks (env : Env) (r : TimelineRef) (ids : List String) (h : Host) :
    wp (forM ids (loadOneBlock env r))
      (fun _ t => Extended r (ids.filterMap (savedBlock h.store.config h.store.storeID h.disk)) h t)
      (fun _ t => ∃ done, done <+: ids ∧
        Extended r (done.filterMap (savedBlock h.store.config h.store.storeID h.disk)) h t ∧
        ((∃ n, env.readFault n = true) ∨
          ¬ ∀ id ∈ ids, LegibleBlock h.store.config h.disk id)) h := by
  refine wp_forM ids (I := fun done t =>
    Extended r (done.filterMap (savedBlock h.store.config h.store.storeID h.disk)) h t)
    (Extended.refl r h) ?_
  intro done id rest t hids hI
  refine wp_mono (wp_loadOneBlock env r id t) ?_ ?_
  · intro _ u hu
    rw [hI.config,hI.storeID,hI.disk] at hu
    have ht := hI.trans hu
    rw [List.filterMap_append]
    cases hs : savedBlock h.store.config h.store.storeID h.disk id <;>
      simpa [hs] using ht
  · rintro e u ⟨hu,hbad⟩
    rw [hI.config,hI.disk] at hbad
    refine ⟨done,⟨id :: rest,hids.symm⟩,by simpa using hI.trans hu,?_⟩
    rcases hbad with hf | hl
    · exact Or.inl hf
    · exact Or.inr fun hall => hl (hall id (by simp [hids]))

theorem wp_readMetadata (env : Env) (r : TimelineRef) (h : Host) :
    wp (readMetadata env r)
      (fun m t => t = h.advance ∧ m = savedMetadata h.store.config h.disk r)
      (fun _ t => t = h.advance ∧
        ((∃ n, env.readFault n = true) ∨ ¬ LegibleMetadata h.store.config h.disk r)) h := by
  have illegible : ∀ d, h.disk (getTimelineMetaFilePath h.store.config r) = some d →
      (∀ m, d ≠ .json m) → ¬ LegibleMetadata h.store.config h.disk r := by
    intro d hd hn hl
    obtain ⟨m,hm⟩ := hl d hd
    exact hn m hm
  simp only [readMetadata,wp_bind,wp_get,wp_readFile]
  split
  · rename_i hf
    exact ⟨trivial,Or.inl ⟨_,hf⟩⟩
  · unfold savedMetadata
    cases hd : h.disk (getTimelineMetaFilePath h.store.config r) with
    | none => exact ⟨rfl,rfl⟩
    | some d =>
      cases d with
      | json metadata => exact ⟨rfl,rfl⟩
      | gob messages torn => exact ⟨rfl,Or.inr (illegible _ hd (by simp))⟩
      | tornJson => exact ⟨rfl,Or.inr (illegible _ hd (by simp))⟩

structure Seeded (r : TimelineRef) (h t : Host) : Prop extends LoadFrame r h t where
  blocks : (t.timeline r).blocks = (h.timeline r).blocks
  current : (t.timeline r).currentBlock = (h.timeline r).currentBlock
  found : (h.store.find r).isSome → (t.store.find r).isSome
  generator : t.store.seqGenerator = h.store.seqGenerator ∨
    ∃ m, savedMetadata h.store.config h.disk r = some m ∧
      h.store.seqGenerator < m.lastSeqID ∧ t.store.seqGenerator = m.lastSeqID

theorem Seeded.advance (r : TimelineRef) (h : Host) : Seeded r h h.advance :=
  ⟨LoadFrame.advance r h,rfl,rfl,id,Or.inl rfl⟩

theorem wp_loadTimelineMetadata (env : Env) (r : TimelineRef) (h : Host) :
    wp (loadTimelineMetadata env r)
      (fun _ t => Seeded r h t)
      (fun _ t => Seeded r h t ∧
        ((∃ n, env.readFault n = true) ∨ ¬ LegibleMetadata h.store.config h.disk r)) h := by
  simp only [loadTimelineMetadata,wp_bind]
  refine wp_mono (wp_readMetadata env r h) ?_ ?_
  · rintro m t ⟨rfl,hm⟩
    cases m with
    | none => exact Seeded.advance r h
    | some m =>
      simp only [wp_bind,wp_modify]
      refine ⟨⟨⟨?_,?_,?_,?_⟩,rfl,rfl,?_,?_⟩,?_,?_,?_,?_⟩
      case refine_4 => intro r' hr; simp [Store.find_put_of_ne _ _ hr]
      case refine_6 => simp; split <;> omega
      case refine_10 =>
        simp only [Store.raiseSeq_seqGenerator,Host.putTimeline_store,Store.put_seqGenerator,
          Host.advance_store]
        split
        · rename_i hlt
          exact Or.inr ⟨m,hm.symm,hlt,rfl⟩
        · exact Or.inl rfl
      all_goals simp [Host.timeline,Timeline.setLastSeqID]
  · rintro e t ⟨rfl,hbad⟩
    exact ⟨Seeded.advance r h,hbad⟩

/-- What loading a timeline does: `ids` is the part of the saved list that was
gone through, all of it when nothing went wrong. -/
structure Loaded (env : Env) (r : TimelineRef) (h t : Host) : Prop extends LoadFrame r h t where
  found : (t.store.find r).isSome
  current : (t.timeline r).currentBlock = none
  blocks : ∃ ids, ids <+: savedIDs h.store.config h.disk r ∧
    (t.timeline r).blocks = ids.filterMap (savedBlock h.store.config h.store.storeID h.disk) ∧
    (Legible env h.store.config h.disk r → ids = savedIDs h.store.config h.disk r)
  generator : t.store.seqGenerator = h.store.seqGenerator ∨
    ∃ m, savedMetadata h.store.config h.disk r = some m ∧
      h.store.seqGenerator < m.lastSeqID ∧ t.store.seqGenerator = m.lastSeqID

theorem Loaded.of_seeded_extended {env : Env} {r : TimelineRef} {h h' t u : Host}
    (hput : h' = h.putTimeline r .fresh) (a : Seeded r h' t) {ids : List String}
    (hids : ids <+: savedIDs h.store.config h.disk r)
    (b : Extended r (ids.filterMap (savedBlock h.store.config h.store.storeID h.disk)) t u)
    (hall : Legible env h.store.config h.disk r → ids = savedIDs h.store.config h.disk r) :
    Loaded env r h u := by
  subst hput
  refine ⟨(LoadFrame.putTimeline h r .fresh).trans (a.toLoadFrame.trans b.toLoadFrame),?_,?_,?_,?_⟩
  · exact b.found (a.found (by simp))
  · rw [b.current,a.current,Host.timeline_putTimeline_self]
    rfl
  · refine ⟨ids,hids,?_,hall⟩
    rw [b.blocks,a.blocks,Host.timeline_putTimeline_self]
    rfl
  · rw [b.generator]
    simpa using a.generator

theorem wp_loadTimelineBlocks (env : Env) (r : TimelineRef) (h : Host) :
    wp (loadTimelineBlocks env r)
      (fun _ t => Extended r ((savedIDs h.store.config h.disk r).filterMap
        (savedBlock h.store.config h.store.storeID h.disk)) h t)
      (fun _ t => ∃ ids, ids <+: savedIDs h.store.config h.disk r ∧
        Extended r (ids.filterMap (savedBlock h.store.config h.store.storeID h.disk)) h t ∧
        ¬ Legible env h.store.config h.disk r) h := by
  simp only [loadTimelineBlocks,wp_bind]
  refine wp_mono (wp_readMetadata env r h) ?_ ?_
  · rintro m t ⟨rfl,hm⟩
    cases m with
    | none => simpa [savedIDs,← hm] using Extended.advance r h
    | some m =>
      have hids : savedIDs h.store.config h.disk r = m.blockIDs := by simp [savedIDs,← hm]
      rw [hids]
      refine wp_mono (wp_loadBlocks env r m.blockIDs h.advance) ?_ ?_
      · intro _ t ht
        exact (Extended.advance r h).trans ht
      · rintro e t ⟨ids,hpre,ht,hbad⟩
        refine ⟨ids,hpre,(Extended.advance r h).trans ht,fun hl => ?_⟩
        rcases hbad with ⟨n,hn⟩ | hbad
        · rw [hl.reads n] at hn
          exact Bool.false_ne_true hn
        · exact hbad (hids ▸ hl.blocks)
  · rintro e t ⟨rfl,hbad⟩
    refine ⟨[], List.nil_prefix,Extended.advance r h,fun hl => ?_⟩
    rcases hbad with ⟨n,hn⟩ | hbad
    · rw [hl.reads n] at hn
      exact Bool.false_ne_true hn
    · exact hbad hl.metadata

/-- One spec for both get-or-create functions: a known timeline is left alone,
an unknown one is loaded. Neither reports an error. -/
theorem wp_getOrCreateTimeline (env : Env) (r : TimelineRef) (h : Host) :
    wp (getOrCreateTimeline env r)
      (fun _ t => ((h.store.find r).isSome ∧ t = h) ∨ (h.store.find r = none ∧ Loaded env r h t))
      (fun _ _ => False) h := by
  simp only [getOrCreateTimeline,wp_bind,wp_get]
  cases hf : h.store.find r with
  | some tl => exact Or.inl ⟨rfl,rfl⟩
  | none =>
    simp only [wp_bind,wp_set,wp_ignoreError,loadTimeline]
    refine wp_mono (wp_loadTimelineMetadata env r (h.putTimeline r .fresh)) ?_ ?_
    · intro _ t ht
      have hb := wp_loadTimelineBlocks env r t
      rw [ht.config,ht.disk,ht.storeID] at hb
      simp only [Host.putTimeline_store,Store.put_config,Store.put_storeID,
        Host.putTimeline_disk] at hb
      refine wp_mono hb ?_ ?_
      · intro _ u hu
        exact Or.inr ⟨trivial,Loaded.of_seeded_extended rfl ht List.prefix_rfl hu (fun _ => rfl)⟩
      · rintro e u ⟨ids,hpre,hu,hbad⟩
        exact Or.inr ⟨trivial,Loaded.of_seeded_extended rfl ht hpre hu (fun hl => (hbad hl).elim)⟩
    · rintro e t ⟨ht,hbad⟩
      -- a failed metadata read skips the blocks, so nothing of the list was gone through
      have hnone : [] <+: savedIDs h.store.config h.disk r := List.nil_prefix
      refine Or.inr ⟨trivial,Loaded.of_seeded_extended rfl ht hnone
        (Extended.refl r t) fun hl => ?_⟩
      exfalso
      rcases hbad with ⟨n,hn⟩ | hbad
      · rw [hl.reads n] at hn
        exact Bool.false_ne_true hn
      · simp only [Host.putTimeline_store,Store.put_config,Host.putTimeline_disk] at hbad
        exact hbad hl.metadata

end Imy.Storage
