import Imy.Lib.Lists
import Imy.Storage.TimelineLoad
set_option autoImplicit false

namespace Imy.Storage
open Imy.Lib

structure BlockView where
  id : String
  messages : List Message
  size : Int
  full : Bool
  deriving DecidableEq, Repr

def TimelineBlock.view (b : TimelineBlock) : BlockView := ⟨b.blockID,b.messages,b.size,b.isFull⟩

def BlockView.push (k : Int) (msg : Message) (b : BlockView) : BlockView :=
  ⟨b.id,b.messages ++ [msg],b.size+1,b.full || decide (k ≤ b.size+1)⟩

def Host.views (h : Host) (r : TimelineRef) : List BlockView :=
  (h.timeline r).blocks.map TimelineBlock.view

def Host.messages (h : Host) (r : TimelineRef) : List Message := (h.timeline r).messages

theorem Host.messages_eq_views (h : Host) (r : TimelineRef) :
    h.messages r = (h.views r).flatMap (·.messages) := by
  simp [Host.messages,Timeline.messages,Host.views,List.flatMap_map,TimelineBlock.view]

def Timeline.Pointed (tl : Timeline) : Prop :=
  ∀ i, tl.currentBlock = some i → i+1 = tl.blocks.length

def Host.Pointed (h : Host) : Prop := ∀ r, (h.timeline r).Pointed

theorem Timeline.pointed_fresh : Timeline.fresh.Pointed := by
  intro i hi
  simp [Timeline.fresh] at hi

theorem TimelineBlock.view_push (k : Int) (msg : Message) (b : TimelineBlock) :
    (b.push k msg).view = b.view.push k msg := rfl

theorem Timeline.linkCurrent_views (tl : Timeline) :
    tl.linkCurrent.map TimelineBlock.view = tl.blocks.map TimelineBlock.view := by
  unfold Timeline.linkCurrent
  split
  · rfl
  · exact map_modify_of_eq _ _ _ _ fun _ => rfl

theorem Timeline.linkCurrent_length (tl : Timeline) : tl.linkCurrent.length = tl.blocks.length := by
  unfold Timeline.linkCurrent
  split <;> simp

theorem Timeline.push_openBlock (k : Int) (msg : Message) (tl : Timeline) (b : TimelineBlock) :
    (tl.openBlock b).push k msg =
      { tl.openBlock b with blocks := tl.linkCurrent ++ [b.push k msg] } := by
  simp only [Timeline.push,Timeline.openBlock]
  rw [← tl.linkCurrent_length,modify_concat]

/-- With room in the current block, the block is the last one and takes the message. -/
theorem Timeline.push_current (k : Int) (msg : Message) {tl : Timeline} (hp : tl.Pointed)
    (hn : tl.needsBlock = false) :
    ∃ init b, tl.blocks = init ++ [b] ∧ b.isFull = false ∧ tl.currentBlock = some init.length ∧
      tl.push k msg = { tl with blocks := init ++ [b.push k msg] } := by
  unfold Timeline.needsBlock Timeline.current at hn
  cases hc : tl.currentBlock with
  | none => simp [hc] at hn
  | some i =>
    have hlen := hp i hc
    cases hb : tl.blocks[i]? with
    | none => simp [hc,hb] at hn
    | some b =>
      have hi : i < tl.blocks.length := by omega
      have hbi : tl.blocks[i] = b := by
        rw [List.getElem?_eq_getElem hi] at hb
        exact Option.some.inj hb
      have hsplit : tl.blocks = tl.blocks.take i ++ [b] := by
        rw [← hbi,List.take_concat_get',hlen,List.take_length]
      have hlt : (tl.blocks.take i).length = i := by
        rw [List.length_take]
        omega
      refine ⟨tl.blocks.take i,b,hsplit,by simpa [hc,hb] using hn,by rw [hlt],?_⟩
      simp only [Timeline.push,hc]
      congr 1
      calc tl.blocks.modify i (TimelineBlock.push k msg)
          = (tl.blocks.take i ++ [b]).modify (tl.blocks.take i).length
              (TimelineBlock.push k msg) := by
            rw [← hsplit,hlt]
        _ = tl.blocks.take i ++ [b.push k msg] := modify_concat _ _ _

theorem wp_now (env : Env) (Q : Int → Host → Prop) (E : StoreError → Host → Prop) (h : Host) :
    wp (now env) Q E h = Q (env.clock h.tick) h.advance := rfl

/-- What `Timeline.append` does when it does not run out of capacity: the last
block, an old one with room or a new one, takes the message. -/
structure Grown (k : Int) (r : TimelineRef) (msg : Message) (init : List BlockView) (b : BlockView)
    (h t : Host) : Prop extends Frame r h t where
  origin : (∃ nano, (h.timeline r).needsBlock = true ∧ h.views r = init ∧
      b = ⟨r.blockID nano,[],0,false⟩ ∧ t.births = h.births ++ [(r,nano)]) ∨
    (h.views r = init ++ [b] ∧ b.full = false ∧ t.births = h.births)
  views : t.views r = init ++ [b.push k msg]
  current : (t.timeline r).currentBlock = some init.length
  found : (t.store.find r).isSome
  generator : t.store.seqGenerator = h.store.seqGenerator

theorem Grown.messages {k : Int} {r : TimelineRef} {msg : Message} {init : List BlockView}
    {b : BlockView} {h t : Host} (g : Grown k r msg init b h t) :
    t.messages r = h.messages r ++ [msg] := by
  rw [Host.messages_eq_views,Host.messages_eq_views,g.views]
  rcases g.origin with ⟨nano,-,ho,hb,-⟩ | ⟨ho,-,-⟩
  · simp [ho,hb,BlockView.push]
  · simp [ho,BlockView.push]

theorem Grown.pointed {k : Int} {r : TimelineRef} {msg : Message} {init : List BlockView}
    {b : BlockView} {h t : Host} (g : Grown k r msg init b h t) : (t.timeline r).Pointed := by
  intro i hi
  have hlen := congrArg List.length g.views
  rw [g.current] at hi
  simp only [Host.views,List.length_map,List.length_append,List.length_singleton] at hlen
  rw [hlen,← Option.some.inj hi]

theorem Grown.needsBlock {k : Int} {r : TimelineRef} {msg : Message} {init : List BlockView}
    {b : BlockView} {h t : Host} (g : Grown k r msg init b h t) :
    (t.timeline r).needsBlock = (b.push k msg).full := by
  have hv := congrArg (fun l => l[init.length]?) g.views
  simp only [Host.views,List.getElem?_map,List.getElem?_concat_length,Option.map_eq_some_iff] at hv
  obtain ⟨c,hc,hcv⟩ := hv
  simp [Timeline.needsBlock,Timeline.current,g.current,hc,← hcv,TimelineBlock.view]

theorem Grown.births_grow {k : Int} {r : TimelineRef} {msg : Message} {init : List BlockView}
    {b : BlockView} {h t : Host} (g : Grown k r msg init b h t) : h.births <+: t.births := by
  rcases g.origin with ⟨nano,-,-,-,hb⟩ | ⟨-,-,hb⟩
  · rw [hb]
    exact List.prefix_append _ _
  · rw [hb]

theorem Grown.step {k : Int} {r : TimelineRef} {msg : Message} {init : List BlockView}
    {b : BlockView} {h t u : Host} (g : Grown k r msg init b h t) (f : Frame r t u)
    (hv : u.views r = t.views r)
    (hc : (u.timeline r).currentBlock = (t.timeline r).currentBlock)
    (hf : (t.store.find r).isSome → (u.store.find r).isSome) (hb : u.births = t.births)
    (hs : u.store.seqGenerator = t.store.seqGenerator) : Grown k r msg init b h u := by
  refine ⟨g.toFrame.trans f,?_,hv.trans g.views,hc.trans g.current,hf g.found,
    hs.trans g.generator⟩
  rw [hb]
  exact g.origin

/-- What `createNewBlock` does when there is capacity left. -/
structure Opened (r : TimelineRef) (nano : Int) (h t : Host) : Prop extends Frame r h t where
  timeline : t.timeline r = (h.timeline r).openBlock (h.newBlock r nano)
  births : t.births = h.births ++ [(r,nano)]
  disk : t.disk = h.disk
  capacity : t.store.currentCapacity = h.store.currentCapacity
  generator : t.store.seqGenerator = h.store.seqGenerator

theorem wp_createNewBlock (env : Env) (r : TimelineRef) (h : Host) :
    wp (createNewBlock env r) (fun _ t => Opened r (env.clock h.tick) h t)
      (fun e t => e = .capacityExceeded ∧ t = h.advance ∧
        h.store.config.maxCapacity ≤ h.store.currentCapacity) h := by
  simp only [createNewBlock,wp_bind,wp_now,wp_get,wp_ite,wp_throw,wp_modify]
  split
  · rename_i hcap
    exact ⟨trivial,trivial,hcap⟩
  · refine ⟨⟨?_,?_,?_,?_⟩,?_,rfl,rfl,?_,?_⟩
    case refine_4 => intro r' hr; simp [Store.find_put_of_ne _ _ hr]
    case refine_5 => simp [Host.timeline,Host.newBlock]
    all_goals simp

def Host.Refuses (h : Host) (r : TimelineRef) : Prop :=
  (h.timeline r).needsBlock = true ∧ h.store.config.maxCapacity ≤ h.store.currentCapacity

instance (h : Host) (r : TimelineRef) : Decidable (h.Refuses r) :=
  inferInstanceAs (Decidable (_ ∧ _))

theorem wp_append (env : Env) (r : TimelineRef) (msg : Message) {h : Host}
    (hp : (h.timeline r).Pointed) :
    wp (Timeline.append env r msg)
      (fun save t => ∃ init b, Grown h.store.config.timelineMaxSize r msg init b h t ∧
        t.disk = h.disk ∧ t.store.currentCapacity = h.store.currentCapacity ∧
        save = if h.store.config.timelineMaxSize ≤ b.size+1 then some ⟨r,init.length⟩ else none)
      (fun e t => e = .capacityExceeded ∧ t = h.advance ∧ h.Refuses r) h := by
  simp only [Timeline.append,wp_bind,wp_get,wp_ite]
  cases hn : (h.timeline r).needsBlock with
  | false =>
    obtain ⟨init,b,hblocks,hfull,hcur,hpush⟩ :=
      Timeline.push_current h.store.config.timelineMaxSize msg hp hn
    have hv : h.views r = init.map TimelineBlock.view ++ [b.view] := by simp [Host.views,hblocks]
    simp only [Bool.false_eq_true,if_false,wp_pure,wp_set]
    refine ⟨init.map TimelineBlock.view,b.view,⟨Frame.putTimeline ..,Or.inr ⟨hv,hfull,rfl⟩,
      ?_,?_,?_,?_⟩,rfl,?_,?_⟩
    · simp [Host.views,hpush,TimelineBlock.view_push]
    · simp [hpush,hcur]
    · simp
    · simp
    · simp
    · simp [hpush,Timeline.blockToSave,hcur,Timeline.block,TimelineBlock.push,TimelineBlock.view]
  | true =>
    simp only [if_true]
    refine wp_mono (wp_createNewBlock env r h) ?_ (fun _ _ he => ⟨he.1,he.2.1,hn,he.2.2⟩)
    intro _ t o
    have hpush := Timeline.push_openBlock h.store.config.timelineMaxSize msg (h.timeline r)
      (h.newBlock r (env.clock h.tick))
    have hlen := (h.timeline r).linkCurrent_length
    simp only [wp_set,wp_pure,o.config,o.timeline,hpush]
    refine ⟨h.views r,⟨r.blockID (env.clock h.tick),[],0,false⟩,⟨o.toFrame.trans
      (Frame.putTimeline ..),Or.inl ⟨_,hn,rfl,rfl,o.births⟩,?_,?_,?_,?_⟩,o.disk,?_,?_⟩
    · simp [Host.views,Timeline.linkCurrent_views,TimelineBlock.view,TimelineBlock.push,
        Host.newBlock,BlockView.push]
    · simp [Timeline.openBlock,Host.views]
    · simp
    · simpa using o.generator
    · simpa using o.capacity
    · simp [Timeline.blockToSave,Timeline.openBlock,Timeline.block,TimelineBlock.push,
        Host.newBlock,Host.views,← hlen]

theorem wp_writeFile (env : Env) (p : Path) (whole : FileData) (part : Nat → Bool → FileData)
    (h : Host) :
    wp (writeFile env p whole part)
      (fun _ t => t = h.withFile p whole)
      (fun e t => e = .io ∧ (t = h.advance ∨ ∃ n torn, t = h.withFile p (part n torn))) h := by
  unfold wp writeFile
  cases env.writeFault h.tick with
  | none => rfl
  | some f =>
    cases f with
    | notOpened => exact ⟨rfl,Or.inl rfl⟩
    | cutAfter n torn => exact ⟨rfl,Or.inr ⟨n,torn,rfl⟩⟩

/-- The disk once the block that took `msg` has been saved, if it had to be. -/
def diskAfter (c : StoreConfig) (msg : Message) (b : BlockView) (disk : Path → Option FileData) :
    Path → Option FileData :=
  if c.timelineMaxSize ≤ b.size+1 then
    Function.update disk (getTimelineBlockFilePath c b.id) (some (.gob (b.messages ++ [msg]) false))
  else disk

structure Added (r : TimelineRef) (msg : Message) (init : List BlockView) (b : BlockView)
    (h t : Host) : Prop extends Grown h.store.config.timelineMaxSize r msg init b h t where
  disk : t.disk = diskAfter h.store.config msg b h.disk
  capacity : t.store.currentCapacity = h.store.currentCapacity +
    if h.store.config.timelineMaxSize ≤ b.size+1 then b.size+1 else 0
  lastSeqID : (t.timeline r).lastSeqID = msg.seqID

/-- `Timeline.AddMessage` failed at the save: the message is in its block all the same. -/
structure Halted (r : TimelineRef) (msg : Message) (init : List BlockView) (b : BlockView)
    (h t : Host) : Prop extends Grown h.store.config.timelineMaxSize r msg init b h t where
  full : h.store.config.timelineMaxSize ≤ b.size+1
  disk : t.disk = h.disk ∨ ∃ n torn, t.disk = Function.update h.disk
    (getTimelineBlockFilePath h.store.config b.id) (some (.gob ((b.messages ++ [msg]).take n) torn))
  capacity : t.store.currentCapacity = h.store.currentCapacity

theorem Grown.block_view {k : Int} {r : TimelineRef} {msg : Message} {init : List BlockView}
    {b : BlockView} {h t : Host} (g : Grown k r msg init b h t) :
    ((t.timeline r).block init.length).view = b.push k msg := by
  have hv := congrArg (fun l => l[init.length]?) g.views
  simp only [Host.views,List.getElem?_map,List.getElem?_concat_length] at hv
  unfold Timeline.block
  cases hb : (t.timeline r).blocks[init.length]? with
  | none => simp [hb] at hv
  | some c => simpa [hb] using hv

theorem Host.views_putTimeline_setLastSeqID (h : Host) (r : TimelineRef) (n : Int) :
    (h.putTimeline r ((h.timeline r).setLastSeqID n)).views r = h.views r := by
  simp [Host.views,Timeline.setLastSeqID]

theorem wp_finish (env : Env) (r : TimelineRef) (msg : Message) {init : List BlockView}
    {b : BlockView} {h t : Host} (g : Grown h.store.config.timelineMaxSize r msg init b h t)
    (hd : t.disk = h.disk) (hcap : t.store.currentCapacity = h.store.currentCapacity) :
    wp (Timeline.finish env r msg
        (if h.store.config.timelineMaxSize ≤ b.size+1 then some ⟨r,init.length⟩ else none))
      (fun _ u => Added r msg init b h u)
      (fun e u => e = .io ∧ Halted r msg init b h u) t := by
  have stamp : ∀ v : Host, Grown h.store.config.timelineMaxSize r msg init b h v →
      Grown h.store.config.timelineMaxSize r msg init b h
        (v.putTimeline r ((v.timeline r).setLastSeqID msg.seqID)) := fun v gv =>
    gv.step (Frame.putTimeline ..) (v.views_putTimeline_setLastSeqID r _)
      (by simp [Timeline.setLastSeqID]) (by simp) rfl (by simp)
  simp only [Timeline.finish]
  by_cases hfull : h.store.config.timelineMaxSize ≤ b.size+1
  · have hbv := g.block_view
    have hid : ((t.timeline r).block init.length).blockID = b.id := congrArg BlockView.id hbv
    have hms : ((t.timeline r).block init.length).messages = b.messages ++ [msg] :=
      congrArg BlockView.messages hbv
    have hsz : ((t.timeline r).block init.length).size = b.size+1 := congrArg BlockView.size hbv
    simp only [hfull,if_true,saveTimelineBlock,wp_bind,wp_get,hid,hms,hsz,g.config,wp_modify]
    refine wp_mono (wp_writeFile env _ _ _ t) ?_ ?_
    · rintro _ u rfl
      refine ⟨stamp _ (g.step ⟨rfl,rfl,rfl,fun _ _ => rfl⟩ rfl rfl id rfl rfl),?_,?_,?_⟩
      · simp [diskAfter,hfull,hd]
      · simp [hfull,hcap]
      · simp [Timeline.setLastSeqID]
    · rintro e u ⟨rfl,rfl | ⟨n,torn,rfl⟩⟩
      · exact ⟨rfl,g.step ⟨rfl,rfl,rfl,fun _ _ => rfl⟩ rfl rfl id rfl rfl,hfull,Or.inl hd,hcap⟩
      · refine ⟨rfl,g.step ⟨rfl,rfl,rfl,fun _ _ => rfl⟩ rfl rfl id rfl rfl,hfull,
          Or.inr ⟨n,torn,?_⟩,hcap⟩
        rw [Host.withFile_disk,hd]
  · simp only [hfull,if_false,wp_modify]
    refine ⟨stamp t g,?_,?_,?_⟩
    · simp [diskAfter,hfull,hd]
    · simp [hfull,hcap]
    · simp [Timeline.setLastSeqID]

/-- Everything `Timeline.AddMessage` can do. -/
theorem wp_timelineAddMessage (env : Env) (r : TimelineRef) (msg : Message) {h : Host}
    (hp : (h.timeline r).Pointed) :
    wp (Timeline.addMessage env r msg)
      (fun _ t => ∃ init b, Added r msg init b h t)
      (fun e t => (e = .capacityExceeded ∧ t = h.advance ∧ h.Refuses r) ∨
        (e = .io ∧ ∃ init b, Halted r msg init b h t)) h := by
  simp only [Timeline.addMessage,wp_bind]
  refine wp_mono (wp_append env r msg hp) ?_ (fun _ _ he => Or.inl he)
  rintro save t ⟨init,b,g,hd,hcap,rfl⟩
  exact wp_mono (wp_finish env r msg g hd hcap) (fun _ u hu => ⟨init,b,hu⟩)
    (fun e u hu => Or.inr ⟨hu.1,init,b,hu.2⟩)

def Ready (env : Env) (r : TimelineRef) (h t : Host) : Prop :=
  ((h.store.find r).isSome ∧ t = h) ∨ (h.store.find r = none ∧ Loaded env r h t)

theorem Ready.loadFrame {env : Env} {r : TimelineRef} {h t : Host} (hr : Ready env r h t) :
    LoadFrame r h t := by
  rcases hr with ⟨-,rfl⟩ | ⟨-,hl⟩
  · exact LoadFrame.refl r t
  · exact hl.toLoadFrame

theorem Ready.found {env : Env} {r : TimelineRef} {h t : Host} (hr : Ready env r h t) :
    (t.store.find r).isSome := by
  rcases hr with ⟨hf,rfl⟩ | ⟨-,hl⟩
  · exact hf
  · exact hl.found

theorem Ready.pointed {env : Env} {r : TimelineRef} {h t : Host} (hr : Ready env r h t)
    (hp : h.Pointed) : t.Pointed := by
  rcases hr with ⟨-,rfl⟩ | ⟨-,hl⟩
  · exact hp
  · intro r'
    by_cases he : r' = r
    · subst he
      intro i hi
      rw [hl.current] at hi
      cases hi
    · rw [hl.toFrame.timeline he]
      exact hp r'

theorem Grown.allPointed {k : Int} {r : TimelineRef} {msg : Message} {init : List BlockView}
    {b : BlockView} {h t : Host} (g : Grown k r msg init b h t) (hp : h.Pointed) : t.Pointed := by
  intro r'
  by_cases he : r' = r
  · subst he
    exact g.pointed
  · rw [g.toFrame.timeline he]
    exact hp r'

/-- Everything one round of the delivery loop can do. -/
theorem wp_deliver (env : Env) (msg : Message) (r : TimelineRef) {h : Host} (hp : h.Pointed) :
    wp (deliver env msg r)
      (fun _ t => ∃ m, Ready env r h m ∧ ∃ init b, Added r msg init b m t)
      (fun e t => ∃ m, Ready env r h m ∧
        ((e = .capacityExceeded ∧ t = m.advance ∧ m.Refuses r) ∨
          (e = .io ∧ ∃ init b, Halted r msg init b m t))) h := by
  simp only [deliver,wp_bind]
  refine wp_mono (wp_getOrCreateTimeline env r h) ?_ (fun _ _ he => he.elim)
  intro _ m hm
  have hr : Ready env r h m := hm
  exact wp_mono (wp_timelineAddMessage env r msg (hr.pointed hp r)) (fun _ t ht => ⟨m,hr,ht⟩)
    (fun _ t ht => ⟨m,hr,ht⟩)

/-- Saving the metadata of a timeline touches one file and nothing in memory. -/
theorem wp_saveTimelineMetadata (env : Env) (r : TimelineRef) (h : Host) :
    wp (saveTimelineMetadata env r)
      (fun _ t => t = h.withFile (getTimelineMetaFilePath h.store.config r)
        (.json ⟨r.id,r.type,(h.timeline r).lastSeqID,(h.timeline r).blocks.map (·.blockID)⟩))
      (fun e t => e = .io ∧ (t = h.advance ∨
        t = h.withFile (getTimelineMetaFilePath h.store.config r) .tornJson)) h := by
  simp only [saveTimelineMetadata,wp_bind,wp_get]
  refine wp_mono (wp_writeFile env _ _ _ h) (fun _ _ ht => ht) ?_
  rintro e t ⟨rfl,rfl | ⟨n,torn,rfl⟩⟩
  · exact ⟨rfl,Or.inl rfl⟩
  · exact ⟨rfl,Or.inr rfl⟩

end Imy.Storage
