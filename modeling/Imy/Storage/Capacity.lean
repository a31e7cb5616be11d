import Imy.Storage.BlockEvents
set_option autoImplicit false

namespace Imy.Storage
open Imy.Lib

/-- A message is about to be added to the timeline. -/
structure Arrival where
  host : Host
  timeline : TimelineRef

abbrev WatchM := EStateM StoreError (Host × List Arrival)

def watchDeliver (env : Env) (msg : Message) (r : TimelineRef) : WatchM Unit := do
  beside (getOrCreateTimeline env r)
  let s ← get
  note fun seen => seen ++ [⟨s.1,r⟩]
  beside (Timeline.addMessage env r msg)

def SendCall.watch (env : Env) (s : SendCall) : WatchM Unit := do
  let seqID ← beside nextSeqID
  let createTime ← beside (now env)
  let msg : Message := ⟨seqID,s.convID,s.senderID,createTime,s.data⟩
  forM s.targets (watchDeliver env msg)
  beside (saveTimelineMetadata env s.conv)
  forM s.users fun r => beside (saveOne env r)

def watchAll (env : Env) (calls : List SendCall) (s : Host × List Arrival) : Host × List Arrival :=
  calls.foldl (fun s c => final (c.watch env) s) s

theorem erases_watchDeliver (env : Env) (msg : Message) (r : TimelineRef) :
    Erases (watchDeliver env msg r) (deliver env msg r) :=
  (Erases.beside _).bind fun _ => Erases.get fun _ =>
    Erases.before (silent_note _) (Erases.beside _)

theorem erases_watch (env : Env) (s : SendCall) : Erases (s.watch env) (s.run env) := by
  rw [SendCall.run_eq]
  refine (Erases.beside _).bind fun seqID => (Erases.beside _).bind fun createTime => ?_
  refine (Erases.forM (fun r => erases_watchDeliver env _ r) _).bind fun _ => ?_
  exact (Erases.beside _).bind fun _ => Erases.forM (fun r => Erases.beside _) _

theorem watchAll_host (env : Env) (calls : List SendCall) (s : Host × List Arrival) :
    (watchAll env calls s).1 = sendAll env calls s.1 := by
  induction calls generalizing s with
  | nil => rfl
  | cons c calls ih =>
    rw [watchAll,List.foldl_cons,sendAll,List.foldl_cons,← (erases_watch env c).final]
    exact ih _

def Timeline.inUse (tl : Timeline) : Int :=
  match tl.current with
  | none => 0
  | some b => if b.isFull then 0 else b.size

def Arrival.fills (a : Arrival) : Bool :=
  a.host.store.config.timelineMaxSize ≤ (a.host.timeline a.timeline).inUse+1

/-- The message fills a block that is there or is not refused, and the disk takes the block. -/
def Arrival.saves (env : Env) (a : Arrival) : Bool :=
  let needsBlock := (a.host.timeline a.timeline).needsBlock
  a.fills && (!needsBlock || a.host.store.currentCapacity < a.host.store.config.maxCapacity) &&
    (env.writeFault (a.host.tick+if needsBlock then 2 else 0)).isNone

section Message
variable {k : Int} {nb : TimelineBlock} {msg : Message} {tl : Timeline}

/-- The block with the message in it. -/
structure Holds (k : Int) (tl tl' : Timeline) (i : Nat) (b : TimelineBlock) : Prop where
  current : tl'.currentBlock = some i
  block : tl'.blocks[i]? = some b
  size : b.size = tl.inUse+1
  isFull : b.isFull = decide (k ≤ tl.inUse+1)

theorem Timeline.take_holds (k : Int) (msg : Message) (tl : Timeline) (hsize : nb.size = 0)
    (hroom : nb.isFull = false) :
    ∃ i b, Holds k tl (tl.take k nb msg) i b := by
  cases hn : tl.needsBlock with
  | true =>
    have hnone : tl.inUse = 0 := by
      unfold Timeline.inUse
      cases hc : tl.current with
      | none => rfl
      | some b =>
        have hfull : b.isFull = true := by simpa [Timeline.needsBlock,hc] using hn
        simp [hfull]
    refine ⟨tl.blocks.length,nb.push k msg,?_,Timeline.take_new hn,?_,?_⟩
    · simp [Timeline.take_currentBlock,hn]
    · simp [TimelineBlock.push,hsize,hnone]
    · simp [TimelineBlock.push,hsize,hroom,hnone]
  | false =>
    obtain ⟨i,b,hc,hb,hopen⟩ := Timeline.needsBlock_eq_false hn
    have hsome : tl.inUse = b.size := by simp [Timeline.inUse,Timeline.current,hc,hb,hopen]
    refine ⟨i,b.push k msg,?_,?_,?_,?_⟩
    · simp [Timeline.take_currentBlock,hn,hc]
    · simp [Timeline.take_of_room hn hc,hb]
    · simp [TimelineBlock.push,hsome]
    · simp [TimelineBlock.push,hopen,hsome]

theorem Holds.blockToSave {tl' : Timeline} {i : Nat} {b : TimelineBlock} (hh : Holds k tl tl' i b)
    (r : TimelineRef) :
    tl'.blockToSave k r = if k ≤ tl.inUse+1 then some ⟨r,i⟩ else none := by
  simp only [Timeline.blockToSave,hh.current,Timeline.block_of_getElem? hh.block,hh.size]

theorem Holds.inUse {tl' : Timeline} {i : Nat} {b : TimelineBlock} (hh : Holds k tl tl' i b) :
    tl'.inUse = if k ≤ tl.inUse+1 then 0 else tl.inUse+1 := by
  have hc : tl'.current = some b := by simp [Timeline.current,hh.current,hh.block]
  conv_lhs => rw [Timeline.inUse,hc]
  simp only [hh.isFull,hh.size,decide_eq_true_eq]

end Message

/-- What the arrival of a message leaves: capacity grows by what was saved, and the block in
use is empty or has the message. -/
structure Received (env : Env) (r : TimelineRef) (h t : Host) : Prop where
  config : t.store.config = h.store.config
  others : ∀ r', r' ≠ r → t.timeline r' = h.timeline r'
  inUse : (t.timeline r).inUse = (h.timeline r).inUse ∨
    (t.timeline r).inUse =
      if h.store.config.timelineMaxSize ≤ (h.timeline r).inUse+1 then 0 else (h.timeline r).inUse+1
  capacity : t.store.currentCapacity = h.store.currentCapacity +
    if (Arrival.mk h r).saves env then (h.timeline r).inUse+1 else 0

section Arrivals
variable (env : Env) (r : TimelineRef) (msg : Message)

theorem wp_append_tick (h : Host) : wp (Timeline.append env r msg)
    (fun _ t => t.tick = h.tick+(if (h.timeline r).needsBlock then 2 else 0) ∧
      ((h.timeline r).needsBlock = true → h.store.currentCapacity < h.store.config.maxCapacity))
    (fun _ _ => (h.timeline r).needsBlock = true ∧
      h.store.config.maxCapacity ≤ h.store.currentCapacity) h := by
  simp only [Timeline.append,wp_bind,wp_get,wp_ite]
  cases hn : (h.timeline r).needsBlock with
  | false => simp
  | true =>
    simp only [if_true,createNewBlock,wp_bind,wp_now,wp_get,wp_ite,wp_throw,wp_modify]
    split
    · rename_i hmax
      exact ⟨trivial,hmax⟩
    · rename_i hmax
      simp only [wp_set,wp_pure,Host.putTimeline_tick,Host.advance_tick]
      exact ⟨by trivial,fun _ => Int.not_le.mp hmax⟩

theorem wp_writeFile_ok {h : Host} (hok : env.writeFault h.tick = none)
    (p : Path) (whole : FileData) (part : Nat → Bool → FileData) :
    wp (writeFile env p whole part) (fun _ t => t = h.withFile p whole) (fun _ _ => False) h := by
  simp only [wp,writeFile,hok]

theorem wp_writeFile_fails {h : Host} {fault : WriteFault} (hfault : env.writeFault h.tick =
    some fault) (p : Path)
    (whole : FileData) (part : Nat → Bool → FileData) :
    wp (writeFile env p whole part) (fun _ _ => False) (fun _ t => t.store = h.store) h := by
  cases fault <;> simp [wp,writeFile,hfault]

@[simp] theorem Timeline.setLastSeqID_inUse (tl : Timeline) (n : Int) :
    (tl.setLastSeqID n).inUse = tl.inUse := rfl

variable {env r msg} in
theorem Taken.received {nano : Int} {h t u : Host} (ht : Taken r msg nano h t)
    {i : Nat} {b : TimelineBlock}
    (hh : Holds h.store.config.timelineMaxSize (h.timeline r) (t.timeline r) i b)
    (hconfig : u.store.config = t.store.config) (hothers : ∀ r', r' ≠ r →
      u.timeline r' = t.timeline r')
    (hinUse : (u.timeline r).inUse = (t.timeline r).inUse)
    (hcapacity : u.store.currentCapacity = t.store.currentCapacity+
      if (Arrival.mk h r).saves env then (h.timeline r).inUse+1 else 0) : Received env r h u where
  config := hconfig.trans ht.config
  others r' hr' := (hothers r' hr').trans (ht.toFrame.timeline hr')
  inUse := Or.inr (hinUse.trans hh.inUse)
  capacity := by rw [hcapacity,ht.capacity]

theorem wp_addMessage_received (h : Host) :
    wp (Timeline.addMessage env r msg) (fun _ t => Received env r h t)
      (fun _ t => Received env r h t) h := by
  simp only [Timeline.addMessage,wp_bind]
  refine wp_mono (wp_and (wp_append_taken env r msg h) (wp_append_tick env r msg h)) ?_ ?_
  · rintro save t ⟨⟨nano,ht,rfl⟩,htick,hroom⟩
    have hsize : (h.newBlock r nano).size = 0 := rfl
    obtain ⟨i,b,hh⟩ :=
      Timeline.take_holds h.store.config.timelineMaxSize msg (h.timeline r) hsize rfl
    rw [← ht.timeline] at hh
    simp only [Timeline.finish,hh.blockToSave r]
    by_cases hfull : h.store.config.timelineMaxSize ≤ (h.timeline r).inUse+1
    · have hsaves : (Arrival.mk h r).saves env = (env.writeFault t.tick).isNone := by
        have hallowed :
          (!(h.timeline r).needsBlock || decide
          (h.store.currentCapacity < h.store.config.maxCapacity)) =
            true := by
          cases hn : (h.timeline r).needsBlock with
          | false => rfl
          | true => simpa using hroom hn
        simp only [Arrival.saves,Arrival.fills,hfull,decide_true,hallowed,Bool.and_self,
          Bool.true_and,htick]
      simp only [if_pos hfull,wp_bind,saveTimelineBlock,wp_get]
      cases hfault : env.writeFault t.tick with
      | none =>
        rw [hfault,Option.isNone_none] at hsaves
        refine wp_mono (wp_writeFile_ok env hfault _ _ _) ?_ (fun _ _ h => h.elim)
        rintro _ u rfl
        simp only [wp_modify]
        generalize hg : Host.mk _ _ _ _ = g
        have hgrown : g.store.config = t.store.config ∧ (∀ r', g.timeline r' = t.timeline r') ∧
            g.store.currentCapacity = t.store.currentCapacity+((t.timeline r).block i).size := by
          rw [← hg]
          exact ⟨rfl,fun r' => by cases r' with | mk type id => cases type <;> rfl,rfl⟩
        have hframe := Frame.putTimeline g r ((g.timeline r).setLastSeqID msg.seqID)
        refine ht.received hh (hframe.config.trans hgrown.1) (fun r' hr' => ?_) ?_ ?_
        · rw [hframe.timeline hr',hgrown.2.1]
        · simp [hgrown.2.1]
        · rw [Host.putTimeline_store,Store.put_currentCapacity,hgrown.2.2]
          simp [hsaves,Timeline.block_of_getElem? hh.block,hh.size]
      | some fault =>
        rw [hfault,Option.isNone_some] at hsaves
        refine wp_mono (wp_writeFile_fails env hfault _ _ _) (fun _ _ h => h.elim) ?_
        intro e u hu
        exact ht.received hh (by rw [hu]) (fun r' _ => by simp only [Host.timeline,hu])
          (by simp only [Host.timeline,hu]) (by simp [hu,hsaves])
    · have hno : (Arrival.mk h r).saves env = false := by simp [Arrival.saves,Arrival.fills,hfull]
      simp only [if_neg hfull,wp_modify]
      have hframe := Frame.putTimeline t r ((t.timeline r).setLastSeqID msg.seqID)
      exact ht.received hh hframe.config (fun r' hr' => hframe.timeline hr')
        (by simp) (by simp [hno])
  · rintro e t ⟨rfl,hn,hmax⟩
    have hno : (Arrival.mk h r).saves env = false := by
      simp [Arrival.saves,hn]
      omega
    exact ⟨rfl,fun _ _ => rfl,Or.inl rfl,by simp [hno]⟩

end Arrivals

structure Metered (env : Env) (c : StoreConfig) (s : Host × List Arrival) : Prop where
  config : s.1.store.config = c
  inUse : ∀ r, 0 ≤ (s.1.timeline r).inUse ∧ (s.1.timeline r).inUse < c.timelineMaxSize
  within : s.1.store.currentCapacity ≤ c.maxCapacity ↔ ∀ a ∈ s.2, a.saves env = true →
    a.host.store.currentCapacity ≤ c.maxCapacity-c.timelineMaxSize

def Meters (env : Env) (c : StoreConfig) (s t : Host × List Arrival) : Prop :=
  Metered env c s → Metered env c t ∧ s.1.store.currentCapacity ≤ t.1.store.currentCapacity

section Runs
variable {env : Env} {c : StoreConfig} {s t u : Host × List Arrival} {r : TimelineRef}

theorem Meters.refl (s : Host × List Arrival) : Meters env c s s := fun hs => ⟨hs,Int.le_refl _⟩

theorem Meters.trans (a : Meters env c s t) (b : Meters env c t u) : Meters env c s u := fun hs =>
  ⟨(b (a hs).1).1,(a hs).2.trans (b (a hs).1).2⟩

theorem Meters.quiet {h t : Host} {seen : List Arrival} (hconfig : t.store.config = h.store.config)
    (hinUse : ∀ r, (t.timeline r).inUse = (h.timeline r).inUse ∨ (t.timeline r).inUse = 0)
    (hcapacity : t.store.currentCapacity = h.store.currentCapacity) :
    Meters env c (h,seen) (t,seen) := by
  intro hs
  refine ⟨⟨hconfig.trans hs.config,fun r => ?_,by rw [hcapacity]; exact hs.within⟩,
    by simp [hcapacity]⟩
  have := hs.inUse r
  rcases hinUse r with h | h
  · rw [h]
    exact this
  · rw [h]
    exact ⟨Int.le_refl 0,by omega⟩

theorem Meters.arrival {h t : Host} {seen : List Arrival} (hr : Received env r h t) :
    Meters env c (h,seen) (t,seen ++ [⟨h,r⟩]) := by
  intro hs
  have hconfig : h.store.config = c := hs.config
  have hsaved : t.store.currentCapacity = h.store.currentCapacity+
      if (Arrival.mk h r).saves env then c.timelineMaxSize else 0 := by
    rw [hr.capacity]
    split
    · -- a block that is full has the number of messages it may have
      rename_i hsaves
      have hfull : c.timelineMaxSize ≤ (h.timeline r).inUse+1 := by
        simp only [Arrival.saves,Arrival.fills,Bool.and_eq_true,decide_eq_true_eq] at hsaves
        exact hconfig ▸ hsaves.1.1
      have := (hs.inUse r).2
      simp only at this
      omega
    · rfl
  have hpos : 0 < c.timelineMaxSize := by
    have := hs.inUse r
    omega
  refine ⟨⟨hr.config.trans hs.config,fun r' => ?_,?_⟩,?_⟩
  · by_cases he : r' = r
    · subst he
      have := hs.inUse r'
      simp only at this
      rcases hr.inUse with h' | h' <;> rw [h']
      · exact this
      · rw [hconfig]
        split
        · omega
        · omega
    · rw [hr.others r' he]
      exact hs.inUse r'
  · rw [List.forall_mem_append,← hs.within,List.forall_mem_singleton]
    simp only [hsaved]
    split
    · rename_i hsaves
      simp only [hsaves,forall_const]
      omega
    · rename_i hsaves
      simp [hsaves]
  · simp only [hsaved]
    split <;> omega

theorem wp_open_meters (r : TimelineRef) (h : Host) (seen : List Arrival) :
    wp (getOrCreateTimeline env r)
    (fun _ t => Meters env c (h,seen) (t,seen)) (fun _ _ => False) h := by
  refine wp_mono (wp_getOrCreateTimeline env r h) ?_ (fun _ _ h => h)
  rintro _ t hready
  have hframe := Ready.loadFrame hready
  refine Meters.quiet hframe.config (fun r' => ?_) hframe.capacity
  rcases hready with ⟨-,rfl⟩ | ⟨-,hl⟩
  · exact Or.inl rfl
  · by_cases he : r' = r
    · subst he
      exact Or.inr (by simp [Timeline.inUse,Timeline.current,hl.current])
    · exact Or.inl (by rw [hframe.toFrame.timeline he])

theorem wp_saveMetadata_meters (r : TimelineRef) (h : Host) (seen : List Arrival) :
    wp (saveTimelineMetadata env r)
    (fun _ t => Meters env c (h,seen) (t,seen)) (fun _ t => Meters env c (h,seen) (t,seen)) h := by
  refine wp_mono (wp_saveTimelineMetadata env r h) ?_ ?_
  · rintro _ t rfl
    exact .quiet rfl (fun _ => Or.inl rfl) rfl
  · rintro e t ⟨-,rfl | rfl⟩
    · exact .quiet rfl (fun _ => Or.inl rfl) rfl
    · exact .quiet rfl (fun _ => Or.inl rfl) rfl

theorem wp_watchDeliver_meters (msg : Message) (r : TimelineRef) (s : Host × List Arrival) :
    wp (watchDeliver env msg r) (fun _ t => Meters env c s t) (fun _ t => Meters env c s t) s := by
  simp only [watchDeliver,wp_bind,wp_beside,wp_get,wp_note]
  refine wp_mono (wp_open_meters (c := c) r s.1 s.2) ?_ (fun _ _ h => h.elim)
  intro _ t ht
  exact wp_mono (wp_addMessage_received env r msg t) (fun _ _ hu => ht.trans (.arrival hu))
    (fun _ _ hu => ht.trans (.arrival hu))

theorem wp_forM_meters {f : TimelineRef → WatchM PUnit} (rs : List TimelineRef)
    (s : Host × List Arrival)
    (next : ∀ r t, wp (f r) (fun _ u => Meters env c t u) (fun _ u => Meters env c t u) t) :
    wp (forM rs f) (fun _ t => Meters env c s t) (fun _ t => Meters env c s t) s := by
  refine wp_forM rs (I := fun _ t => Meters env c s t) (.refl s) ?_
  intro done r rest t _ ht
  exact wp_mono (next r t) (fun _ _ h => ht.trans h) (fun _ _ h => ht.trans h)

theorem wp_watch_meters (call : SendCall) (s : Host × List Arrival) :
    wp (call.watch env) (fun _ t => Meters env c s t) (fun _ t => Meters env c s t) s := by
  simp only [SendCall.watch,wp_bind,wp_beside,wp_nextSeqID,wp_now]
  have hdrawn : Meters env c s (s.1.drawn,s.2) := .quiet rfl (fun _ => Or.inl rfl) rfl
  refine wp_mono (wp_forM_meters call.targets (s.1.drawn,s.2) fun r t =>
    wp_watchDeliver_meters _ r t) ?_
    (fun _ _ h => hdrawn.trans h)
  intro _ t ht
  refine wp_mono (wp_saveMetadata_meters call.conv t.1 t.2) ?_
    (fun _ _ h => hdrawn.trans (ht.trans h))
  intro _ u hu
  refine wp_mono (wp_forM_meters call.users (u,t.2) fun r v => ?_)
    (fun _ _ h => hdrawn.trans (ht.trans (hu.trans h)))
    (fun _ _ h => hdrawn.trans (ht.trans (hu.trans h)))
  simp only [wp_beside,saveOne,wp_bind]
  refine wp_mono (wp_open_meters (c := c) r v.1 v.2) ?_ (fun _ _ h => h.elim)
  intro _ w hw
  exact wp_mono (wp_saveMetadata_meters r w v.2) (fun _ _ h => hw.trans h) (fun _ _ h => hw.trans h)

theorem watchAll_meters (calls : List SendCall) (s : Host × List Arrival) :
    Meters env c s (watchAll env calls s) := by
  induction calls generalizing s with
  | nil => exact .refl s
  | cons call calls ih => exact (final_of_wp (wp_watch_meters call s)).trans (ih _)

theorem Metered.newStore {disk : Path → Option FileData} {tick : Nat}
    {births : List (TimelineRef × Int)} {h : Host}
    (hmax : 0 ≤ c.maxCapacity) (hsize : 1 ≤ c.timelineMaxSize)
    (hopen : newStore env c disk tick births = .ok h) :
    Metered env c (h,[]) := by
  obtain ⟨hconfig,hf,-,-,-,-,hcap⟩ := newStore_ok hopen
  refine ⟨hconfig,fun r => ?_,by simpa [hcap] using hmax⟩
  have hfresh : (h.timeline r).inUse = 0 := by
    rw [Host.timeline,hf r]
    rfl
  rw [hfresh]
  exact ⟨Int.le_refl 0,by omega⟩

end Runs

/-- The limit is kept in every run in which a message that fills a block comes only while there
is room for a block, and in no other. -/
theorem capacity_within_iff (env : Env) (c : StoreConfig) (hmax : 0 ≤ c.maxCapacity)
    (hsize : 1 ≤ c.timelineMaxSize)
    (disk : Path → Option FileData) (tick : Nat) (births : List (TimelineRef × Int)) (h : Host)
    (hopen : newStore env c disk tick births = .ok h) (calls : List SendCall) (seen : List Arrival)
    (hseen : seen = (watchAll env calls (h,[])).2) :
    (∀ before after, calls = before ++ after →
      (sendAll env before h).store.currentCapacity ≤ c.maxCapacity) ↔
    ∀ a ∈ seen, a.saves env = true → a.host.store.currentCapacity ≤
      c.maxCapacity-c.timelineMaxSize := by
  have hstart := Metered.newStore hmax hsize hopen
  rw [hseen,← (watchAll_meters calls (h,[]) hstart).1.within,watchAll_host]
  constructor
  · intro hall
    exact hall calls [] (by simp)
  · rintro hfinal before after rfl
    have hmiddle := (watchAll_meters before (h,[]) hstart).1
    have hrest := (watchAll_meters after _ hmiddle).2
    simp only [watchAll_host] at hrest
    have hsplit : sendAll env (before ++ after) h = sendAll env after (sendAll env before h) :=
      List.foldl_append
    exact hrest.trans (hsplit ▸ hfinal)

/-- Room for one message, but two to a block. -/
def oneByTwo : StoreConfig := ⟨1,2,"data"⟩

theorem capacity_exceeded :
    newStore Env.steady oneByTwo (fun _ => none) 0 [] = .ok (Host.steady oneByTwo) ∧
    (sendAll Env.steady [⟨"c",1,[7],[]⟩,⟨"c",1,[8],[]⟩]
      (Host.steady oneByTwo)).store.currentCapacity = 2 ∧
    ¬ (sendAll Env.steady [⟨"c",1,[7],[]⟩,⟨"c",1,[8],[]⟩]
      (Host.steady oneByTwo)).store.currentCapacity ≤
      oneByTwo.maxCapacity := by
  exact ⟨newStore_steady _,by decide +kernel,by decide +kernel⟩

/-- Two messages fit where the limit is two. -/
theorem capacity_within_two :
    (sendAll Env.steady [⟨"c",1,[7],[]⟩,⟨"c",1,[8],[]⟩]
      (Host.steady ⟨2,2,"data"⟩)).store.currentCapacity ≤ 2 := by
  have hroom : ∀ a ∈ (watchAll Env.steady [⟨"c",1,[7],[]⟩,⟨"c",1,[8],[]⟩]
    (Host.steady ⟨2,2,"data"⟩,[])).2,
      a.saves Env.steady = true → a.host.store.currentCapacity ≤ (2 : Int)-2 := by decide +kernel
  exact (capacity_within_iff Env.steady ⟨2,2,"data"⟩ (by decide) (by decide) (fun _ => none) 0 [] _
    (newStore_steady _)
    [⟨"c",1,[7],[]⟩,⟨"c",1,[8],[]⟩] _ rfl).mpr hroom _ [] (by simp)

end Imy.Storage
