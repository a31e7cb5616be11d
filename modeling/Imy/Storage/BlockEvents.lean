import Mathlib.Logic.Relation
import Imy.Lib.Ghost
import Imy.Storage.CrashImage
set_option autoImplicit false

namespace Imy.Storage
open Imy.Lib

inductive BlockEvent where
  | created (b : BlockRef)
  | loaded (b : BlockRef) (size : Int)
  | saved (b : BlockRef)
  deriving DecidableEq, Repr

abbrev RecordM := EStateM StoreError (Host × List BlockEvent)

def loadedBlocks (h : Host) (r : TimelineRef) : List BlockEvent :=
  (h.timeline r).blocks.zipIdx.map fun p => .loaded ⟨r,p.2⟩ p.1.size

def recordOpen (env : Env) (r : TimelineRef) : RecordM Unit := do
  let before ← get
  beside (getOrCreateTimeline env r)
  let after ← get
  note fun events => events ++
    if (before.1.store.find r).isSome then [] else loadedBlocks after.1 r

def recordAdd (env : Env) (r : TimelineRef) (msg : Message) : RecordM Unit := do
  let before ← get
  let blockToSave ← beside (Timeline.append env r msg)
  note fun events => events ++
    if (before.1.timeline r).needsBlock then
      [BlockEvent.created ⟨r,(before.1.timeline r).blocks.length⟩]
    else []
  beside (Timeline.finish env r msg blockToSave)
  note fun events => events ++ blockToSave.toList.map .saved

def recordDeliver (env : Env) (msg : Message) (r : TimelineRef) : RecordM Unit := do
  recordOpen env r
  recordAdd env r msg

def recordSaveOne (env : Env) (r : TimelineRef) : RecordM Unit := do
  recordOpen env r
  beside (saveTimelineMetadata env r)

def SendCall.record (env : Env) (s : SendCall) : RecordM Unit := do
  let seqID ← beside nextSeqID
  let createTime ← beside (now env)
  let msg : Message := ⟨seqID,s.convID,s.senderID,createTime,s.data⟩
  forM s.targets (recordDeliver env msg)
  beside (saveTimelineMetadata env s.conv)
  forM s.users (recordSaveOne env)

/-- Calls one after the other, whether they return nil or not. -/
def sendAll (env : Env) (calls : List SendCall) (h : Host) : Host :=
  calls.foldl (fun h s => final (s.run env) h) h

def recordAll (env : Env) (calls : List SendCall) (s : Host × List BlockEvent) :
    Host × List BlockEvent :=
  calls.foldl (fun s c => final (c.record env) s) s

section Erasure
variable (env : Env) (msg : Message) (r : TimelineRef)

theorem erases_recordOpen : Erases (recordOpen env r) (getOrCreateTimeline env r) :=
  Erases.get fun _ => (Erases.beside _).after (Silent.get fun _ => silent_note _)

theorem erases_recordAdd : Erases (recordAdd env r msg) (Timeline.addMessage env r msg) := by
  refine Erases.get fun before => ?_
  refine (Erases.beside _).bind fun blockToSave => Erases.before (silent_note _) ?_
  exact (Erases.beside _).after (silent_note _)

theorem erases_recordDeliver : Erases (recordDeliver env msg r) (deliver env msg r) :=
  (erases_recordOpen env r).bind fun _ => erases_recordAdd env msg r

theorem erases_recordSaveOne : Erases (recordSaveOne env r) (saveOne env r) :=
  (erases_recordOpen env r).bind fun _ => Erases.beside _

end Erasure

theorem SendCall.run_eq (env : Env) (s : SendCall) : s.run env = (do
    let seqID ← nextSeqID
    let createTime ← now env
    let msg : Message := ⟨seqID,s.convID,s.senderID,createTime,s.data⟩
    forM s.targets (deliver env msg)
    saveTimelineMetadata env s.conv
    forM s.users (saveOne env)) := by
  simp only [SendCall.run,Store.addMessage,SendCall.targets,List.forM_cons,bind_assoc]
  rfl

theorem erases_record (env : Env) (s : SendCall) : Erases (s.record env) (s.run env) := by
  rw [SendCall.run_eq]
  refine (Erases.beside _).bind fun seqID => (Erases.beside _).bind fun createTime => ?_
  refine (Erases.forM (fun r => erases_recordDeliver env _ r) _).bind fun _ => ?_
  exact (Erases.beside _).bind fun _ => Erases.forM (fun r => erases_recordSaveOne env r) _

theorem recordAll_host (env : Env) (calls : List SendCall) (s : Host × List BlockEvent) :
    (recordAll env calls s).1 = sendAll env calls s.1 := by
  induction calls generalizing s with
  | nil => rfl
  | cons c calls ih =>
    rw [recordAll,List.foldl_cons,sendAll,List.foldl_cons,← (erases_record env c).final]
    exact ih _

/-- The timeline with the message in its current block, a new one if need be. -/
def Timeline.take (k : Int) (newBlock : TimelineBlock) (msg : Message) (tl : Timeline) : Timeline :=
  if tl.needsBlock then (tl.openBlock newBlock).push k msg else tl.push k msg

def opening (h : Host) (r : TimelineRef) : List BlockEvent :=
  if (h.timeline r).needsBlock then [BlockEvent.created ⟨r,(h.timeline r).blocks.length⟩] else []

/-- What `Timeline.AddMessage` has done by the time it saves a block, if it has to. -/
structure Taken (r : TimelineRef) (msg : Message) (nano : Int) (h t : Host) : Prop
    extends Frame r h t where
  timeline : t.timeline r =
    (h.timeline r).take h.store.config.timelineMaxSize (h.newBlock r nano) msg
  found : (t.store.find r).isSome
  capacity : t.store.currentCapacity = h.store.currentCapacity
  cached : t.store.timelineBlocks =
    if (h.timeline r).needsBlock then
      Function.update h.store.timelineBlocks (r.blockID nano)
        (some ⟨r,(h.timeline r).blocks.length⟩)
    else h.store.timelineBlocks
  births : t.births = h.births ++ if (h.timeline r).needsBlock then [(r,nano)] else []

/-- What it leaves in memory; `saved` is the block whose save succeeded. -/
structure Filed (r : TimelineRef) (msg : Message) (nano : Int) (saved : Option BlockRef)
    (h t : Host) : Prop extends Frame r h t where
  timeline : ∃ n, t.timeline r = ((h.timeline r).take h.store.config.timelineMaxSize
    (h.newBlock r nano) msg).setLastSeqID n
  found : (t.store.find r).isSome
  saves : ∀ b ∈ saved, (t.timeline r).blockToSave h.store.config.timelineMaxSize r = some b
  capacity : t.store.currentCapacity =
    h.store.currentCapacity + (saved.toList.map fun b => ((t.timeline r).block b.pos).size).sum
  cached : t.store.timelineBlocks =
    if (h.timeline r).needsBlock then
      Function.update h.store.timelineBlocks (r.blockID nano)
        (some ⟨r,(h.timeline r).blocks.length⟩)
    else h.store.timelineBlocks
  births : t.births = h.births ++ if (h.timeline r).needsBlock then [(r,nano)] else []

section Specs
variable (env : Env) (r : TimelineRef) (msg : Message)

@[simp] theorem Store.put_timelineBlocks (s : Store) (r : TimelineRef) (tl : Timeline) :
    (s.put r tl).timelineBlocks = s.timelineBlocks := by
  unfold Store.put; split <;> rfl

theorem wp_append_taken (h : Host) :
    wp (Timeline.append env r msg)
      (fun save t => ∃ nano, Taken r msg nano h t ∧
        save = (t.timeline r).blockToSave h.store.config.timelineMaxSize r)
      (fun _ t => t = h.advance) h := by
  simp only [Timeline.append,wp_bind,wp_get,wp_ite]
  cases hn : (h.timeline r).needsBlock with
  | false =>
    simp only [Bool.false_eq_true,if_false,wp_pure,wp_set]
    refine ⟨0,⟨Frame.putTimeline ..,?_,?_,?_,?_,?_⟩,?_⟩
    · simp [Timeline.take,hn]
    all_goals simp [hn]
  | true =>
    simp only [if_true,createNewBlock,wp_bind,wp_now,wp_get,wp_ite,wp_throw,wp_modify]
    split
    · trivial
    · simp only [wp_set,wp_pure]
      have hn' : ((h.store.find r).getD Timeline.fresh).needsBlock = true := hn
      refine ⟨env.clock h.tick,⟨⟨?_,?_,?_,?_⟩,?_,?_,?_,?_,?_⟩,?_⟩
      case refine_4 => intro r' hr; simp [Store.find_put_of_ne _ _ hr]
      case refine_5 => simp [Timeline.take,hn',Host.timeline,Host.newBlock]
      all_goals simp [hn',Host.timeline]

theorem Taken.filed {r : TimelineRef} {msg : Message} {nano : Int} {h t u : Host}
    (ht : Taken r msg nano h t) (hq : u.store = t.store) (hb : u.births = t.births) :
    Filed r msg nano none h u := by
  have htl : u.timeline r = t.timeline r := by simp only [Host.timeline,hq]
  refine ⟨⟨?_,?_,?_,?_⟩,⟨(t.timeline r).lastSeqID,?_⟩,?_,by simp,?_,?_,?_⟩
  · rw [hq]; exact ht.config
  · rw [hq]; exact ht.storeID
  · rw [hq]; exact ht.checkpoints
  · rw [hq]; exact ht.others
  · rw [htl,← ht.timeline]; rfl
  · rw [hq]; exact ht.found
  · simp [hq,ht.capacity]
  · rw [hq]; exact ht.cached
  · rw [hb]; exact ht.births

theorem Timeline.blockToSave_timeline {tl : Timeline} {k : Int} {r : TimelineRef} {b : BlockRef}
    (h : tl.blockToSave k r = some b) : b.timeline = r := by
  unfold Timeline.blockToSave at h
  split at h
  · cases h
  · split at h <;> cases h
    rfl

theorem Taken.stamped {r : TimelineRef} {msg : Message} {nano n : Int} {saved : Option BlockRef}
    {h t u : Host} (ht : Taken r msg nano h t)
    (hsaved : ∀ b ∈ saved, (t.timeline r).blockToSave h.store.config.timelineMaxSize r = some b)
    (hq : u.store = { t.store with currentCapacity := t.store.currentCapacity +
      (saved.toList.map fun b => ((t.timeline r).block b.pos).size).sum })
        (hb : u.births = t.births) :
    Filed r msg nano saved h (u.putTimeline r ((u.timeline r).setLastSeqID n)) := by
  have hfind : u.store.find = t.store.find := by
    rw [hq]
    funext r'
    unfold Store.find
    split <;> rfl
  have htl : u.timeline r = t.timeline r := by simp only [Host.timeline,hfind]
  have hframe := Frame.putTimeline u r ((u.timeline r).setLastSeqID n)
  refine ⟨⟨?_,?_,?_,?_⟩,⟨n,?_⟩,by simp,?_,?_,?_,?_⟩
  · rw [hframe.config,hq]; exact ht.config
  · rw [hframe.storeID,hq]; exact ht.storeID
  · rw [hframe.checkpoints,hq]; exact ht.checkpoints
  · intro r' hr'
    rw [hframe.others r' hr',hfind]
    exact ht.others r' hr'
  · rw [Host.timeline_putTimeline_self,htl,ht.timeline]
  · intro b hb'
    rw [Host.timeline_putTimeline_self,htl]
    exact hsaved b hb'
  · simp only [Host.timeline_putTimeline_self,Host.putTimeline_store,Store.put_currentCapacity,hq,
      ht.capacity,htl]
    rfl
  · simp only [Host.putTimeline_store,Store.put_timelineBlocks,hq]
    exact ht.cached
  · simp only [Host.putTimeline_births,hb]
    exact ht.births

/-- Everything one round of the delivery loop does once the timeline is open. -/
theorem wp_recordAdd (s : Host × List BlockEvent) :
    wp (recordAdd env r msg)
      (fun _ t => ∃ nano saved, Filed r msg nano saved s.1 t.1 ∧
        t.2 = s.2 ++ opening s.1 r ++ saved.toList.map .saved)
      (fun e t => t = (s.1.advance,s.2) ∨
        (e = .io ∧ ∃ nano, Filed r msg nano none s.1 t.1 ∧ t.2 = s.2 ++ opening s.1 r)) s := by
  simp only [recordAdd,wp_bind,wp_get,wp_beside,wp_note]
  refine wp_mono (wp_append_taken env r msg s.1) ?_ (fun _ t ht => Or.inl (by rw [ht]))
  rintro save t ⟨nano,ht,rfl⟩
  simp only [Timeline.finish]
  cases hsave : (t.timeline r).blockToSave s.1.store.config.timelineMaxSize r with
  | none =>
    simp only [wp_modify]
    exact ⟨nano,none,ht.stamped (by simp) (by simp) rfl,by simp [opening]⟩
  | some b =>
    have hr := Timeline.blockToSave_timeline hsave
    simp only [wp_bind,saveTimelineBlock,wp_get]
    refine wp_mono (wp_writeFile env _ _ _ t) ?_ ?_
    · rintro _ u rfl
      simp only [wp_modify]
      refine ⟨nano,some b,ht.stamped (by simpa using hsave) ?_ rfl,by simp [opening]⟩
      simp [hr]
    · rintro e u ⟨rfl,hu⟩
      have hstore : u.store = t.store ∧ u.births = t.births := by
        rcases hu with rfl | ⟨n,torn,rfl⟩ <;> exact ⟨rfl,rfl⟩
      exact Or.inr ⟨rfl,nano,ht.filed hstore.1 hstore.2,by simp [opening]⟩

end Specs

structure Cached (r : TimelineRef) (h t : Host) : Prop where
  cached : ∀ id, t.store.timelineBlocks id = h.store.timelineBlocks id ∨
    ∃ b ∈ (t.timeline r).blocks, b.blockID = id
  kept : ∀ b ∈ (h.timeline r).blocks, b ∈ (t.timeline r).blocks

section Cached
variable {r : TimelineRef} {h t u : Host}

theorem Cached.of_eq (hcache : t.store.timelineBlocks = h.store.timelineBlocks)
    (hblocks : (t.timeline r).blocks = (h.timeline r).blocks) : Cached r h t :=
  ⟨fun id => Or.inl (by rw [hcache]),by rw [hblocks]; exact fun _ hb => hb⟩

theorem Cached.trans (a : Cached r h t) (b : Cached r t u) : Cached r h u := by
  refine ⟨fun id => ?_,fun x hx => b.kept x (a.kept x hx)⟩
  rcases b.cached id with hb | hb
  · rw [hb]
    exact (a.cached id).imp_right fun ⟨x,hx,hid⟩ => ⟨x,b.kept x hx,hid⟩
  · exact Or.inr hb

theorem wp_loadOneBlock_cached (env : Env) (r : TimelineRef) (id : String) (h : Host) :
    wp (loadOneBlock env r id) (fun _ t => Cached r h t) (fun _ t => Cached r h t) h := by
  simp only [loadOneBlock,wp_bind]
  refine wp_mono (wp_loadTimelineBlock env id h) ?_ ?_
  · rintro b t ⟨rfl,hb⟩
    cases b with
    | none => exact Cached.of_eq rfl rfl
    | some b =>
      obtain ⟨hid,-⟩ := savedBlock_some hb.symm
      simp only [wp_modify]
      refine ⟨fun id' => ?_,?_⟩
      · by_cases he : id' = id
        · exact Or.inr ⟨b,by simp [Host.timeline,Timeline.addLoaded],hid.trans he.symm⟩
        · exact Or.inl (by simp [he])
      · intro x hx
        simp only [Host.timeline,Store.find_cacheBlock,Store.find_put_self,Option.getD_some,
          Timeline.addLoaded]
        exact List.mem_append_left _ hx
  · rintro e t ⟨rfl,-⟩
    exact Cached.of_eq rfl rfl

theorem wp_loadTimelineBlocks_cached (env : Env) (r : TimelineRef) (h : Host) :
    wp (loadTimelineBlocks env r) (fun _ t => Cached r h t) (fun _ t => Cached r h t) h := by
  simp only [loadTimelineBlocks,wp_bind]
  refine wp_mono (wp_readMetadata env r h) ?_ ?_
  · rintro m t ⟨rfl,-⟩
    have ht : Cached r h h.advance := Cached.of_eq rfl rfl
    cases m with
    | none => exact ht
    | some metadata =>
      refine wp_forM metadata.blockIDs (I := fun _ v => Cached r h v) ht ?_
      intro _ id _ v _ hv
      exact wp_mono (wp_loadOneBlock_cached env r id v) (fun _ _ hw => hv.trans hw)
        (fun _ _ hw => hv.trans hw)
  · rintro e t ⟨rfl,-⟩
    exact Cached.of_eq rfl rfl

theorem wp_loadTimelineMetadata_cached (env : Env) (r : TimelineRef) (h : Host) :
    wp (loadTimelineMetadata env r) (fun _ t => Cached r h t) (fun _ t => Cached r h t) h := by
  simp only [loadTimelineMetadata,wp_bind]
  refine wp_mono (wp_readMetadata env r h) ?_ ?_
  · rintro m t ⟨rfl,-⟩
    cases m with
    | none => exact Cached.of_eq rfl rfl
    | some metadata =>
      simp only [wp_bind,wp_modify]
      exact Cached.of_eq (by simp) (by simp [Host.timeline,Timeline.setLastSeqID])
  · rintro e t ⟨rfl,-⟩
    exact Cached.of_eq rfl rfl

theorem wp_loadTimeline_cached (env : Env) (r : TimelineRef) (h : Host) :
    wp (loadTimeline env r) (fun _ t => Cached r h t) (fun _ t => Cached r h t) h := by
  simp only [loadTimeline,wp_bind]
  refine wp_mono (wp_loadTimelineMetadata_cached env r h) ?_ (fun _ _ ht => ht)
  intro _ t ht
  exact wp_mono (wp_loadTimelineBlocks_cached env r t) (fun _ _ hu => ht.trans hu)
    (fun _ _ hu => ht.trans hu)

theorem wp_getOrCreate_cached (env : Env) (r : TimelineRef) (h : Host) :
    wp (getOrCreateTimeline env r) (fun _ t => Cached r h t) (fun _ _ => False) h := by
  simp only [getOrCreateTimeline,wp_bind,wp_get]
  cases hf : h.store.find r with
  | some tl => exact Cached.of_eq rfl rfl
  | none =>
    simp only [wp_bind,wp_set,wp_ignoreError]
    have hput : Cached r h (h.putTimeline r .fresh) :=
      Cached.of_eq (by simp) (by simp [Host.timeline,hf])
    exact wp_mono (wp_loadTimeline_cached env r _) (fun _ _ ht => hput.trans ht)
      (fun _ _ ht => hput.trans ht)

end Cached

section Take
variable {k : Int} {nb b : TimelineBlock} {msg : Message} {tl : Timeline} {p : Nat}

theorem Timeline.needsBlock_eq_false (h : tl.needsBlock = false) :
    ∃ i b, tl.currentBlock = some i ∧ tl.blocks[i]? = some b ∧ b.isFull = false := by
  unfold Timeline.needsBlock Timeline.current at h
  cases hc : tl.currentBlock with
  | none => simp [hc] at h
  | some i =>
    cases hb : tl.blocks[i]? with
    | none => simp [hc,hb] at h
    | some b => exact ⟨i,b,rfl,hb,by simpa [hc,hb] using h⟩

theorem Timeline.take_of_needsBlock (h : tl.needsBlock = true) : tl.take k nb msg =
    { tl with
      blocks := tl.linkCurrent ++ [nb.push k msg], currentBlock := some tl.blocks.length } := by
  rw [Timeline.take,if_pos h,Timeline.push_openBlock]
  rfl

theorem Timeline.take_of_room {i : Nat} (h : tl.needsBlock = false)
    (hc : tl.currentBlock = some i) :
    tl.take k nb msg = { tl with blocks := tl.blocks.modify i (TimelineBlock.push k msg) } := by
  simp [Timeline.take,h,Timeline.push,hc]

theorem Timeline.take_length : (tl.take k nb msg).blocks.length =
    tl.blocks.length + if tl.needsBlock then 1 else 0 := by
  cases h : tl.needsBlock with
  | true => simp [Timeline.take_of_needsBlock h,Timeline.linkCurrent_length]
  | false =>
    obtain ⟨i,b,hc,-⟩ := Timeline.needsBlock_eq_false h
    simp [Timeline.take_of_room h hc]

theorem Timeline.take_currentBlock : (tl.take k nb msg).currentBlock =
    if tl.needsBlock then some tl.blocks.length else tl.currentBlock := by
  cases h : tl.needsBlock with
  | true => simp [Timeline.take_of_needsBlock h]
  | false =>
    obtain ⟨i,b,hc,-⟩ := Timeline.needsBlock_eq_false h
    simp [Timeline.take_of_room h hc]

theorem Timeline.take_new (h : tl.needsBlock = true) :
    (tl.take k nb msg).blocks[tl.blocks.length]? = some (nb.push k msg) := by
  rw [Timeline.take_of_needsBlock h,← tl.linkCurrent_length]
  simp

theorem Timeline.linkCurrent_getElem? (tl : Timeline) (p : Nat) : tl.linkCurrent[p]? =
    (tl.blocks[p]?).map fun b =>
      if tl.currentBlock = some p then { b with nextBlock := some tl.blocks.length } else b := by
  unfold Timeline.linkCurrent
  cases hc : tl.currentBlock with
  | none => simp
  | some i =>
    simp only [List.getElem?_modify,Option.some.injEq]
    rfl

/-- A block that was there before has its link changed or, if it was current and
had room, one message more. -/
theorem Timeline.take_old (k : Int) (nb : TimelineBlock) (msg : Message)
    (hb : tl.blocks[p]? = some b) :
    ∃ b', (tl.take k nb msg).blocks[p]? = some b' ∧ b'.offset = b.offset ∧ (b'.view = b.view ∨
      (tl.currentBlock = some p ∧ tl.needsBlock = false ∧ b' = b.push k msg ∧
        b.isFull = false)) := by
  have hlt := (List.getElem?_eq_some_iff.mp hb).1
  cases h : tl.needsBlock with
  | true =>
    refine ⟨if tl.currentBlock = some p then { b with nextBlock := some tl.blocks.length } else b,
      ?_,?_⟩
    · rw [Timeline.take_of_needsBlock h,List.getElem?_append_left (by rwa [tl.linkCurrent_length]),
        tl.linkCurrent_getElem?,hb]
      rfl
    · split
      · exact ⟨rfl,Or.inl rfl⟩
      · exact ⟨rfl,Or.inl rfl⟩
  | false =>
    obtain ⟨i,b',hc,hb',hfull⟩ := Timeline.needsBlock_eq_false h
    rw [Timeline.take_of_room h hc]
    by_cases hp : i = p
    · subst hp
      cases hb.symm.trans hb'
      exact ⟨b.push k msg,by simp [hb],rfl,Or.inr ⟨hc,rfl,rfl,hfull⟩⟩
    · exact ⟨b,by simp [hp,hb],rfl,Or.inl rfl⟩

theorem Timeline.take_cases {b' : TimelineBlock} (hb : (tl.take k nb msg).blocks[p]? = some b') :
    (∃ b, tl.blocks[p]? = some b ∧ b'.offset = b.offset ∧ (b'.view = b.view ∨
      (tl.currentBlock = some p ∧ tl.needsBlock = false ∧ b' = b.push k msg ∧ b.isFull = false))) ∨
    (tl.needsBlock = true ∧ p = tl.blocks.length ∧ b' = nb.push k msg) := by
  by_cases hp : p < tl.blocks.length
  · have hold := List.getElem?_eq_getElem hp
    obtain ⟨b₁,hb₁,h₁⟩ := Timeline.take_old k nb msg hold
    cases hb.symm.trans hb₁
    exact Or.inl ⟨_,hold,h₁⟩
  · have hlt := (List.getElem?_eq_some_iff.mp hb).1
    rw [Timeline.take_length] at hlt
    split at hlt
    · rename_i hneeds
      obtain rfl : p = tl.blocks.length := by omega
      rw [Timeline.take_new hneeds] at hb
      exact Or.inr ⟨hneeds,rfl,(Option.some.inj hb).symm⟩
    · omega

theorem Timeline.block_of_getElem? (hb : tl.blocks[p]? = some b) : tl.block p = b := by
  simp [Timeline.block,hb]

theorem Timeline.blockToSave_eq_some {r : TimelineRef} {br : BlockRef}
    (h : tl.blockToSave k r = some br) :
    tl.currentBlock = some br.pos ∧ br.timeline = r ∧ k ≤ (tl.block br.pos).size := by
  unfold Timeline.blockToSave at h
  cases hc : tl.currentBlock with
  | none => simp [hc] at h
  | some i =>
    simp only [hc] at h
    split at h
    · cases h
      exact ⟨rfl,rfl,by assumption⟩
    · cases h

end Take

/-- The timelines of a host and the history of their blocks, step by step. The
steps work on timelines of `S`. -/
inductive BlockStep (env : Env) (S : TimelineRef → Prop) :
    Host × List BlockEvent → Host × List BlockEvent → Prop where
  | drawn (h : Host) (ev : List BlockEvent) : BlockStep env S (h,ev) (h.drawn,ev)
  | advance (h : Host) (ev : List BlockEvent) : BlockStep env S (h,ev) (h.advance,ev)
  | recorded {h : Host} {ev : List BlockEvent} {r : TimelineRef} (d : FileData)
      (hfound : (h.store.find r).isSome) :
      BlockStep env S (h,ev) (h.withFile (getTimelineMetaFilePath h.store.config r) d,ev)
  | opened {h t : Host} {ev : List BlockEvent} {r : TimelineRef} (hr : S r)
    (hready : Ready env r h t)
      (hcached : Cached r h t) :
      BlockStep env S (h,ev) (t,ev ++ if (h.store.find r).isSome then [] else loadedBlocks t r)
  | filed {h t : Host} {ev : List BlockEvent} {r : TimelineRef} {msg : Message} {nano : Int}
      {saved : Option BlockRef} (hr : S r) (hfiled : Filed r msg nano saved h t)
      {init : List BlockView} {b : BlockView}
      (hgrown : Grown h.store.config.timelineMaxSize r msg init b h t)
      (hdisk : ∀ p, p ≠ getTimelineBlockFilePath h.store.config b.id → t.disk p = h.disk p) :
      BlockStep env S (h,ev) (t,ev ++ opening h r ++ saved.toList.map .saved)

/-- The blocks whose save succeeded. -/
def savedIn (events : List BlockEvent) : List BlockRef :=
  events.filterMap fun
    | .saved b => some b
    | _ => none

theorem savedIn_filed (h : Host) (r : TimelineRef) (events : List BlockEvent)
    (saved : Option BlockRef) :
    savedIn (events ++ opening h r ++ saved.toList.map .saved) =
      savedIn events ++ saved.toList := by
  unfold opening
  split <;> cases saved <;> simp [savedIn]

abbrev Walk (env : Env) (S : TimelineRef → Prop) :=
  Relation.ReflTransGen (BlockStep env S)

theorem wp_nextSeqID (Q : Int → Host → Prop) (E : StoreError → Host → Prop) (h : Host) :
    wp nextSeqID Q E h = Q (h.store.seqGenerator+1)
      { h with store := { h.store with seqGenerator := h.store.seqGenerator+1 } } := rfl

section Walks
variable {env : Env} {S : TimelineRef → Prop} {s t : Host × List BlockEvent} {r : TimelineRef}

theorem BlockStep.pointed (hstep : BlockStep env S s t) (hp : s.1.Pointed) : t.1.Pointed := by
  cases hstep with
  | drawn => exact hp
  | advance => exact hp
  | recorded => exact hp
  | opened _ hready _ => exact hready.pointed hp
  | filed _ _ hgrown _ => exact hgrown.allPointed hp

theorem Walk.pointed (hw : Walk env S s t) (hp : s.1.Pointed) : t.1.Pointed := by
  induction hw with
  | refl => exact hp
  | tail _ hstep ih => exact hstep.pointed ih

theorem Walk.invariant {I : Host × List BlockEvent → Prop} (hw : Walk env S s t)
    (keep : ∀ s t, I s → BlockStep env S s t → I t) (start : I s) : I t := by
  induction hw with
  | refl => exact start
  | tail _ hstep ih => exact keep _ _ ih hstep

theorem wp_recordOpen_walk (hr : S r) (s : Host × List BlockEvent) :
    wp (recordOpen env r) (fun _ t => Walk env S s t ∧ (t.1.store.find r).isSome)
      (fun _ t => Walk env S s t) s := by
  simp only [recordOpen,wp_bind,wp_get,wp_beside,wp_note]
  refine wp_mono (wp_and (wp_getOrCreateTimeline env r s.1) (wp_getOrCreate_cached env r s.1)) ?_
    (fun _ _ he => he.1.elim)
  rintro _ t ⟨ht,hcached⟩
  have hready : Ready env r s.1 t := ht
  exact ⟨.single (.opened hr hready hcached),hready.found⟩

theorem wp_recordAdd_walk (hr : S r) (msg : Message) (hp : s.1.Pointed) :
    wp (recordAdd env r msg) (fun _ t => Walk env S s t) (fun _ t => Walk env S s t) s := by
  refine wp_mono (wp_and (wp_recordAdd env r msg s)
    ((erases_recordAdd env msg r).wp (wp_timelineAddMessage env r msg (hp r)))) ?_ ?_
  · rintro _ ⟨t,ev⟩ ⟨⟨nano,saved,hfiled,rfl⟩,init,b,hadded⟩
    exact .single (.filed hr hfiled hadded.toGrown
      fun p hne => by rw [hadded.disk,diskAfter_of_ne hne])
  · rintro e ⟨t,ev⟩ ⟨heq | ⟨rfl,nano,hfiled,rfl⟩,hwhy⟩
    · cases heq
      exact .single (.advance _ _)
    · rcases hwhy with ⟨hno,-⟩ | ⟨-,init,b,hhalted⟩
      · cases hno
      · have hstep : BlockStep env S (s.1,s.2) (t,s.2 ++ opening s.1 r ++ _) :=
          .filed hr hfiled hhalted.toGrown fun p hne => hhalted.disk_of_ne hne
        simpa using Relation.ReflTransGen.single hstep

theorem wp_recordDeliver_walk (hr : S r) (msg : Message) (hp : s.1.Pointed) :
    wp (recordDeliver env msg r) (fun _ t => Walk env S s t ∧ (t.1.store.find r).isSome)
      (fun _ t => Walk env S s t) s := by
  simp only [recordDeliver,wp_bind]
  refine wp_mono (wp_recordOpen_walk hr s) ?_ (fun _ _ h => h)
  rintro _ t ⟨hw,hfound⟩
  refine wp_mono (wp_and (wp_recordAdd_walk hr msg (hw.pointed hp)) (wp_recordAdd env r msg t)) ?_
    (fun _ _ h => hw.trans h.1)
  rintro _ u ⟨hwu,nano,saved,hfiled,-⟩
  exact ⟨hw.trans hwu,hfiled.found⟩

theorem BlockStep.found (hstep : BlockStep env S s t) (hf : (s.1.store.find r).isSome) :
    (t.1.store.find r).isSome := by
  cases hstep with
  | drawn => exact hf
  | advance => exact hf
  | recorded => exact hf
  | opened _ hready _ => exact hready.found_of hf
  | @filed h t ev r' msg nano saved _ hfiled =>
    by_cases he : r = r'
    · exact he ▸ hfiled.found
    · rw [hfiled.others r he]
      exact hf

theorem Walk.found (hw : Walk env S s t) (hf : (s.1.store.find r).isSome) :
    (t.1.store.find r).isSome := by
  induction hw with
  | refl => exact hf
  | tail _ hstep ih => exact hstep.found ih

theorem wp_saveMetadata_walk (hf : (s.1.store.find r).isSome) :
    wp (saveTimelineMetadata env r) (fun _ t => Walk env S s (t,s.2))
      (fun _ t => Walk env S s (t,s.2)) s.1 := by
  refine wp_mono (wp_saveTimelineMetadata env r s.1) ?_ ?_
  · rintro _ t rfl
    exact .single (.recorded _ hf)
  · rintro e t ⟨-,rfl | rfl⟩
    · exact .single (.advance _ _)
    · exact .single (.recorded _ hf)

theorem wp_recordSaveOne_walk (hr : S r) (s : Host × List BlockEvent) :
    wp (recordSaveOne env r) (fun _ t => Walk env S s t) (fun _ t => Walk env S s t) s := by
  simp only [recordSaveOne,wp_bind,wp_beside]
  refine wp_mono (wp_recordOpen_walk hr s) ?_ (fun _ _ h => h)
  rintro _ t ⟨hw,hfound⟩
  exact wp_mono (wp_saveMetadata_walk hfound) (fun _ _ h => hw.trans h) (fun _ _ h => hw.trans h)

theorem wp_forM_walk {f : TimelineRef → RecordM PUnit} (rs : List TimelineRef) (hp : s.1.Pointed)
    (next : ∀ r ∈ rs, ∀ t : Host × List BlockEvent, t.1.Pointed →
      wp (f r) (fun _ u => Walk env S t u) (fun _ u => Walk env S t u) t) :
    wp (forM rs f) (fun _ t => Walk env S s t) (fun _ t => Walk env S s t) s := by
  refine wp_forM rs (I := fun _ t => Walk env S s t) .refl ?_
  intro done r rest t hrs hw
  exact wp_mono (next r (by simp [hrs]) t (hw.pointed hp)) (fun _ _ h => hw.trans h)
    (fun _ _ h => hw.trans h)

theorem wp_record_walk (c : SendCall) (hc : ∀ r ∈ c.targets, S r) (hp : s.1.Pointed) :
    wp (c.record env) (fun _ t => Walk env S s t) (fun _ t => Walk env S s t) s := by
  have hdrawn : Walk env S s (s.1.drawn,s.2) := .single (.drawn _ _)
  have hpd : s.1.drawn.Pointed := hdrawn.pointed hp
  simp only [SendCall.record,SendCall.targets,List.forM_cons,wp_bind,wp_beside,wp_nextSeqID,wp_now]
  have hdeliver : ∀ msg, wp (recordDeliver env msg c.conv)
      (fun _ t => Walk env S (s.1.drawn,s.2) t ∧ (t.1.store.find c.conv).isSome)
      (fun _ t => Walk env S (s.1.drawn,s.2) t) (s.1.drawn,s.2) := fun msg =>
    wp_recordDeliver_walk (hc c.conv List.mem_cons_self) msg hpd
  refine wp_mono (hdeliver _) ?_ (fun _ _ h => hdrawn.trans h)
  rintro _ t ⟨hwt,hfound⟩
  have hst : Walk env S s t := hdrawn.trans hwt
  refine wp_mono (wp_forM_walk c.users (hst.pointed hp) ?_) ?_ (fun _ _ h => hst.trans h)
  · intro r hr u hpu
    exact wp_mono (wp_recordDeliver_walk (hc r (List.mem_cons_of_mem _ hr)) _ hpu)
      (fun _ _ h => h.1) (fun _ _ h => h)
  · intro _ u hwu
    have hsu : Walk env S s u := hst.trans hwu
    refine wp_mono (wp_saveMetadata_walk (hwu.found hfound)) ?_ (fun _ _ h => hsu.trans h)
    intro _ v hwv
    have hsv : Walk env S s (v,u.2) := hsu.trans hwv
    refine wp_mono (wp_forM_walk c.users (hsv.pointed hp) ?_) (fun _ _ h => hsv.trans h)
      (fun _ _ h => hsv.trans h)
    intro r hr w _
    exact wp_recordSaveOne_walk (hc r (List.mem_cons_of_mem _ hr)) w

theorem recordAll_walk (calls : List SendCall) (hc : ∀ c ∈ calls, ∀ r ∈ c.targets, S r)
    (hp : s.1.Pointed) : Walk env S s (recordAll env calls s) := by
  induction calls generalizing s with
  | nil => exact .refl
  | cons c calls ih =>
    have hfirst : Walk env S s (final (c.record env) s) :=
      final_of_wp (wp_record_walk c (hc c List.mem_cons_self) hp)
    exact hfirst.trans (ih (fun c' hc' => hc c' (List.mem_cons_of_mem _ hc')) (hfirst.pointed hp))

end Walks

end Imy.Storage
