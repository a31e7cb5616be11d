import Mathlib.Data.List.Nodup
import Imy.Storage.BlockStructure
import Imy.Storage.SequenceRestart
set_option autoImplicit false

namespace Imy.Storage
open Imy.Lib

def creationsFrom : Nat → List BlockEvent → List (BlockRef × Nat)
  | _, [] => []
  | n, .created b :: events => (b,n) :: creationsFrom n events
  | n, .saved _ :: events => creationsFrom (n+1) events
  | n, .loaded _ _ :: events => creationsFrom n events

def creations (events : List BlockEvent) : List (BlockRef × Nat) := creationsFrom 0 events

/-- A save has succeeded between any two creations, and no block with messages in
it was read from a file. -/
structure Spaced (events : List BlockEvent) : Prop where
  saves : ((creations events).map Prod.snd).Nodup
  loads : ∀ b n, .loaded b n ∈ events → n = 0

def TimelineBlock.Covers (b : TimelineBlock) (x : Int) : Prop := b.offset ≤ x ∧ x < b.offset+b.size

/-- No offset lies in two blocks. -/
def OffsetsApart (h : Host) : Prop :=
  ∀ (br br' : BlockRef) b b', br ≠ br' →
    (h.timeline br.timeline).blocks[br.pos]? = some b →
    (h.timeline br'.timeline).blocks[br'.pos]? = some b' → ∀ x, b.Covers x → ¬ b'.Covers x

section Creations
variable {events : List BlockEvent} {h : Host} {r : TimelineRef} {saved : Option BlockRef}

theorem creationsFrom_append (n : Nat) (events events' : List BlockEvent) :
    creationsFrom n (events ++ events') =
      creationsFrom n events ++ creationsFrom (n+(savedIn events).length) events' := by
  induction events generalizing n with
  | nil => rfl
  | cons e events ih =>
    cases e with
    | created b => simp [creationsFrom,savedIn,ih]
    | loaded b m => simp [creationsFrom,savedIn,ih]
    | saved b => simp [creationsFrom,savedIn,ih,Nat.add_assoc,Nat.add_comm 1]

theorem creations_filed : creations (events ++ opening h r ++ saved.toList.map .saved) =
    creations events ++ if (h.timeline r).needsBlock then
      [(⟨r,(h.timeline r).blocks.length⟩,(savedIn events).length)] else [] := by
  have hsaved : ∀ n, creationsFrom n (saved.toList.map .saved) = [] := by
    intro n
    cases saved <;> rfl
  rw [creations,creationsFrom_append,creationsFrom_append,hsaved,List.append_nil,Nat.zero_add]
  unfold opening
  split <;> rfl

theorem creationsFrom_loaded (n : Nat) (h : Host) (r : TimelineRef) :
    creationsFrom n (loadedBlocks h r) = [] := by
  unfold loadedBlocks
  generalize (h.timeline r).blocks.zipIdx = bs
  induction bs generalizing n with
  | nil => rfl
  | cons p bs ih => exact ih n

theorem savedIn_loaded (events : List BlockEvent) (h : Host) (r : TimelineRef) :
    savedIn (events ++ loadedBlocks h r) = savedIn events := by
  simp [savedIn,loadedBlocks,List.filterMap_append,List.filterMap_map]

theorem creations_loaded (events : List BlockEvent) (h : Host) (r : TimelineRef) :
    creations (events ++ loadedBlocks h r) = creations events := by
  rw [creations,creationsFrom_append,creationsFrom_loaded,List.append_nil]
  rfl

end Creations

def fullSize (c : StoreConfig) : Int := max c.timelineMaxSize 1

structure TimelineBlock.LaidAt (c : StoreConfig) (n : Nat) (b : TimelineBlock) : Prop where
  offset : b.offset = fullSize c*n
  pos : 1 ≤ b.size
  size : b.size ≤ fullSize c
  room : b.isFull = false → b.size < c.timelineMaxSize

structure Laid (c : StoreConfig) (s : Host × List BlockEvent) : Prop where
  config : s.1.store.config = c
  capacity : s.1.store.currentCapacity = fullSize c*(savedIn s.2).length
  placed : ∀ p ∈ creations s.2, ∃ b,
    (s.1.timeline p.1.timeline).blocks[p.1.pos]? = some b ∧ b.LaidAt c p.2
  known : ∀ r (i : Nat) b, (s.1.timeline r).blocks[i]? = some b →
    (∃ n, (⟨r,i⟩,n) ∈ creations s.2) ∨ .loaded ⟨r,i⟩ b.size ∈ s.2
  once : ((creations s.2).map Prod.fst).Nodup
  current : ∀ r i, (s.1.timeline r).currentBlock = some i → ∃ n, (⟨r,i⟩,n) ∈ creations s.2

section Laid
variable {c : StoreConfig} {env : Env} {S : TimelineRef → Prop} {h t : Host} {ev : List BlockEvent}
  {r : TimelineRef}

theorem Laid.quiet (hs : Laid c (h,ev)) (hconfig : t.store.config = h.store.config)
    (htl : ∀ r, t.timeline r = h.timeline r)
    (hcap : t.store.currentCapacity = h.store.currentCapacity) : Laid c (t,ev) := by
  refine ⟨hconfig.trans hs.config,hcap.trans hs.capacity,?_,?_,hs.once,?_⟩
  · simpa only [htl] using hs.placed
  · simpa only [htl] using hs.known
  · simpa only [htl] using hs.current

theorem Laid.opened (hs : Laid c (h,ev)) (hm : Ready env r h t) :
    Laid c (t,ev ++ if (h.store.find r).isSome then [] else loadedBlocks t r) := by
  have hframe := hm.loadFrame
  rcases hm with ⟨hsome,rfl⟩ | ⟨hnone,hl⟩
  · simpa [hsome] using hs
  · have hfresh : h.timeline r = .fresh := by simp [Host.timeline,hnone]
    simp only [hnone,Option.isSome_none,Bool.false_eq_true,if_false]
    refine ⟨hframe.config.trans hs.config,?_,?_,?_,?_,?_⟩
    · simp only [savedIn_loaded]
      exact hframe.capacity.trans hs.capacity
    · simp only [creations_loaded]
      intro p hp
      obtain ⟨b,hb,hlaid⟩ := hs.placed p hp
      have he : p.1.timeline ≠ r := by
        intro he
        simp [he,hfresh,Timeline.fresh] at hb
      exact ⟨b,by rw [hframe.toFrame.timeline he]; exact hb,hlaid⟩
    · simp only [creations_loaded]
      intro r' i b hb
      by_cases he : r' = r
      · subst he
        refine Or.inr (List.mem_append_right _ ?_)
        refine List.mem_map.mpr ⟨(b,i),?_,rfl⟩
        exact List.mem_zipIdx_iff_getElem?.mpr hb
      · rw [hframe.toFrame.timeline he] at hb
        exact (hs.known r' i b hb).imp_right fun hmem => List.mem_append_left _ hmem
    · simpa only [creations_loaded] using hs.once
    · simp only [creations_loaded]
      intro r' i hi
      by_cases he : r' = r
      · subst he
        rw [hl.current] at hi
        cases hi
      · rw [hframe.toFrame.timeline he] at hi
        exact hs.current r' i hi

theorem TimelineBlock.LaidAt.push {b : TimelineBlock} {n : Nat} (hb : b.LaidAt c n)
    (hroom : b.isFull = false) (msg : Message) : (b.push c.timelineMaxSize msg).LaidAt c n := by
  have hlt := hb.room hroom
  have hpos := hb.pos
  refine ⟨hb.offset,?_,?_,?_⟩
  · simp only [TimelineBlock.push]
    omega
  · simp only [TimelineBlock.push,fullSize]
    omega
  · simp only [TimelineBlock.push,hroom,Bool.false_or,decide_eq_false_iff_not]
    omega

theorem TimelineBlock.LaidAt.new {n : Nat} (hcap : h.store.currentCapacity = fullSize c*n)
    (r : TimelineRef) (nano : Int) (msg : Message) :
    ((h.newBlock r nano).push c.timelineMaxSize msg).LaidAt c n := by
  refine ⟨hcap,?_,?_,?_⟩
  · simp [TimelineBlock.push,Host.newBlock]
  · simp only [TimelineBlock.push,Host.newBlock,fullSize]
    omega
  · simp only [TimelineBlock.push,Host.newBlock,Bool.false_or]
    intro hroom
    exact not_le.mp (of_decide_eq_false hroom)

theorem TimelineBlock.LaidAt.full {b : TimelineBlock} {n : Nat} (hb : b.LaidAt c n)
    (hfull : c.timelineMaxSize ≤ b.size) (hsmall : b.size ≤ fullSize c) : b.size = fullSize c := by
  have := hb.pos
  simp only [fullSize] at hsmall ⊢
  omega

theorem TimelineBlock.LaidAt.of_view {b b' : TimelineBlock} {n : Nat} (hb : b.LaidAt c n)
    (hoffset : b'.offset = b.offset) (hview : b'.view = b.view) : b'.LaidAt c n := by
  have hsize : b'.size = b.size := congrArg BlockView.size hview
  have hfull : b'.isFull = b.isFull := congrArg BlockView.full hview
  refine ⟨hoffset.trans hb.offset,?_,?_,?_⟩
  · rw [hsize]; exact hb.pos
  · rw [hsize]; exact hb.size
  · rw [hsize,hfull]; exact hb.room

section Filed
variable {msg : Message} {nano : Int} {saved : Option BlockRef}

theorem Laid.filed_blocks (hs : Laid c (h,ev)) (hf : Filed r msg nano saved h t) :
    (t.timeline r).blocks = ((h.timeline r).take c.timelineMaxSize (h.newBlock r nano) msg).blocks ∧
    (t.timeline r).currentBlock =
      ((h.timeline r).take c.timelineMaxSize (h.newBlock r nano) msg).currentBlock := by
  obtain ⟨m,htl⟩ := hf.timeline
  rw [htl,hs.config]
  exact ⟨rfl,rfl⟩

theorem Laid.filed_placed (hs : Laid c (h,ev)) (hf : Filed r msg nano saved h t) :
    ∀ p ∈ creations (ev ++ opening h r ++ saved.toList.map .saved), ∃ b,
      (t.timeline p.1.timeline).blocks[p.1.pos]? = some b ∧ b.LaidAt c p.2 := by
  intro p hp
  rw [creations_filed,List.mem_append] at hp
  rcases hp with hp | hp
  · obtain ⟨b,hb,hlaid⟩ := hs.placed p hp
    by_cases he : p.1.timeline = r
    · rw [he] at hb
      rw [he,(hs.filed_blocks hf).1]
      obtain ⟨b',hb',hoffset,hview | ⟨-,-,rfl,hroom⟩⟩ := Timeline.take_old c.timelineMaxSize
        (h.newBlock r nano) msg hb
      · exact ⟨b',hb',hlaid.of_view hoffset hview⟩
      · exact ⟨_,hb',hlaid.push hroom msg⟩
    · exact ⟨b,by rw [hf.toFrame.timeline he]; exact hb,hlaid⟩
  · split at hp
    · rename_i hneeds
      obtain rfl := List.mem_singleton.mp hp
      refine ⟨_,?_,TimelineBlock.LaidAt.new hs.capacity r nano msg⟩
      rw [(hs.filed_blocks hf).1]
      exact Timeline.take_new hneeds
    · simp at hp

theorem Laid.filed_current (hs : Laid c (h,ev)) (hf : Filed r msg nano saved h t) :
    ∀ r' i, (t.timeline r').currentBlock = some i →
      ∃ n, (⟨r',i⟩,n) ∈ creations (ev ++ opening h r ++ saved.toList.map .saved) := by
  intro r' i hi
  rw [creations_filed]
  by_cases he : r' = r
  · subst he
    rw [(hs.filed_blocks hf).2,Timeline.take_currentBlock] at hi
    split at hi
    · rename_i hneeds
      cases hi
      exact ⟨(savedIn ev).length,List.mem_append_right _ (by simp [hneeds])⟩
    · obtain ⟨n,hn⟩ := hs.current r' i hi
      exact ⟨n,List.mem_append_left _ hn⟩
  · rw [hf.toFrame.timeline he] at hi
    obtain ⟨n,hn⟩ := hs.current r' i hi
    exact ⟨n,List.mem_append_left _ hn⟩

theorem Laid.filed_known (hs : Laid c (h,ev)) (hf : Filed r msg nano saved h t) :
    ∀ r' (i : Nat) b, (t.timeline r').blocks[i]? = some b →
      (∃ n, (⟨r',i⟩,n) ∈ creations (ev ++ opening h r ++ saved.toList.map .saved)) ∨
      BlockEvent.loaded ⟨r',i⟩ b.size ∈ ev ++ opening h r ++ saved.toList.map .saved := by
  intro r' i b hb
  rw [creations_filed]
  have hold : ∀ b₀, (h.timeline r').blocks[i]? = some b₀ → b.size = b₀.size →
      (∃ n, (⟨r',i⟩,n) ∈ creations ev ++ if (h.timeline r).needsBlock then
        [(⟨r,(h.timeline r).blocks.length⟩,(savedIn ev).length)] else []) ∨
      BlockEvent.loaded ⟨r',i⟩ b.size ∈ ev ++ opening h r ++ saved.toList.map .saved := by
    intro b₀ hb₀ hsize
    rcases hs.known r' i b₀ hb₀ with ⟨n,hn⟩ | hload
    · exact Or.inl ⟨n,List.mem_append_left _ hn⟩
    · rw [hsize]
      exact Or.inr (List.mem_append_left _ (List.mem_append_left _ hload))
  by_cases he : r' = r
  · subst he
    rw [(hs.filed_blocks hf).1] at hb
    rcases Timeline.take_cases hb with ⟨b₀,hb₀,-,hview | ⟨hcur,-,-,-⟩⟩ | ⟨hneeds,rfl,-⟩
    · exact hold b₀ hb₀ (congrArg BlockView.size hview)
    · obtain ⟨n,hn⟩ := hs.current r' i hcur
      exact Or.inl ⟨n,List.mem_append_left _ hn⟩
    · exact Or.inl ⟨(savedIn ev).length,List.mem_append_right _ (by simp [hneeds])⟩
  · rw [hf.toFrame.timeline he] at hb
    exact hold b hb rfl

theorem Laid.filed_once (hs : Laid c (h,ev)) :
    ((creations (ev ++ opening h r ++ saved.toList.map .saved)).map Prod.fst).Nodup := by
  rw [creations_filed,List.map_append,List.nodup_append]
  refine ⟨hs.once,by split <;> simp,?_⟩
  rintro br hold br' hnew rfl
  split at hnew
  · simp only [List.map_cons,List.map_nil,List.mem_singleton] at hnew
    obtain ⟨p,hp,heq⟩ := List.mem_map.mp hold
    obtain ⟨b,hb,-⟩ := hs.placed p hp
    rw [heq,hnew] at hb
    simp at hb
  · simp at hnew

theorem Laid.filed_capacity (hs : Laid c (h,ev)) (hf : Filed r msg nano saved h t) :
    t.store.currentCapacity =
      fullSize c*(savedIn (ev ++ opening h r ++ saved.toList.map .saved)).length := by
  rw [hf.capacity,savedIn_filed,hs.capacity]
  cases saved with
  | none => simp
  | some br =>
    obtain ⟨hcur,-,hsize⟩ := Timeline.blockToSave_eq_some (hf.saves br rfl)
    obtain ⟨n,hn⟩ := hs.filed_current hf r br.pos hcur
    obtain ⟨b,hb,hlaid⟩ := hs.filed_placed hf _ hn
    rw [Timeline.block_of_getElem? hb,hs.config] at hsize
    have hfull := hlaid.full hsize hlaid.size
    simp only [Option.toList_some,List.map_cons,List.map_nil,List.sum_cons,List.sum_nil,add_zero,
      List.length_append,List.length_singleton,Timeline.block_of_getElem? hb,hfull]
    push_cast
    ring

theorem Laid.filed (hs : Laid c (h,ev)) (hf : Filed r msg nano saved h t) :
    Laid c (t,ev ++ opening h r ++ saved.toList.map .saved) :=
  ⟨hf.config.trans hs.config,hs.filed_capacity hf,hs.filed_placed hf,hs.filed_known hf,
    hs.filed_once,hs.filed_current hf⟩

end Filed

theorem Laid.step {s s' : Host × List BlockEvent} (hs : Laid c s) (hstep : BlockStep env S s s') :
    Laid c s' := by
  cases hstep with
  | drawn h ev => exact hs.quiet rfl (fun _ => rfl) rfl
  | advance h ev => exact hs.quiet rfl (fun _ => rfl) rfl
  | recorded d hfound => exact hs.quiet rfl (fun _ => rfl) rfl
  | opened _ hready _ => exact hs.opened hready
  | filed _ hfiled _ _ => exact hs.filed hfiled

theorem Laid.newStore {disk : Path → Option FileData} {tick : Nat}
    {births : List (TimelineRef × Int)}
    (hopen : newStore env c disk tick births = .ok h) : Laid c (h,[]) := by
  obtain ⟨hconfig,hf,-,-,-,-,hcap⟩ := newStore_ok hopen
  have hfresh : ∀ r, h.timeline r = .fresh := fun r => by rw [Host.timeline,hf r]; rfl
  refine ⟨hconfig,by simp [savedIn,hcap],by simp [creations,creationsFrom],?_,
    by simp [creations,creationsFrom],?_⟩
  · intro r i b hb
    simp [hfresh r,Timeline.fresh] at hb
  · intro r i hi
    simp [hfresh r,Timeline.fresh] at hi

theorem Laid.apart (hs : Laid c (h,ev)) (hspaced : Spaced ev) : OffsetsApart h := by
  have hmade : ∀ (br : BlockRef) b, (h.timeline br.timeline).blocks[br.pos]? = some b →
      ∀ x, b.Covers x → ∃ n, (br,n) ∈ creations ev ∧ b.LaidAt c n := by
    rintro br b hb x ⟨hlow,hhigh⟩
    rcases hs.known br.timeline br.pos b hb with ⟨n,hn⟩ | hload
    · obtain ⟨b₀,hb₀,hlaid⟩ := hs.placed _ hn
      cases hb.symm.trans hb₀
      exact ⟨n,hn,hlaid⟩
    · have := hspaced.loads _ _ hload
      omega
  intro br br' b b' hne hb hb' x hx hx'
  obtain ⟨n,hn,hlaid⟩ := hmade br b hb x hx
  obtain ⟨n',hn',hlaid'⟩ := hmade br' b' hb' x hx'
  have hdiff : n ≠ n' := by
    rintro rfl
    exact hne (congrArg Prod.fst (List.inj_on_of_nodup_map hspaced.saves hn hn' rfl))
  obtain ⟨hlow,hhigh⟩ := hx
  obtain ⟨hlow',hhigh'⟩ := hx'
  rw [hlaid.offset] at hlow hhigh
  rw [hlaid'.offset] at hlow' hhigh'
  have hsize := hlaid.size
  have hsize' := hlaid'.size
  have hgap : ∀ m m' : Nat, m < m' → fullSize c*m+fullSize c ≤ fullSize c*m' := by
    intro m m' hlt
    have hle : ((m+1 : Nat) : Int) ≤ m' := by exact_mod_cast hlt
    have hfull : 0 ≤ fullSize c := by simp only [fullSize]; omega
    calc fullSize c*m+fullSize c = fullSize c*(m+1 : Nat) := by push_cast; ring
      _ ≤ fullSize c*m' := Int.mul_le_mul_of_nonneg_left hle hfull
  rcases Nat.lt_or_gt_of_ne hdiff with hlt | hlt
  · have := hgap n n' hlt
    omega
  · have := hgap n' n hlt
    omega

/-- Blocks that lie apart were created at different counts of saves. -/
theorem Laid.saves_nodup (hs : Laid c (h,ev)) (hapart : OffsetsApart h) :
    ((creations ev).map Prod.snd).Nodup := by
  refine List.Nodup.map_on ?_ (List.Nodup.of_map Prod.fst hs.once)
  rintro ⟨br,n⟩ hp ⟨br',n'⟩ hp' heq
  obtain rfl : n = n' := heq
  obtain ⟨b,hb,hlaid⟩ := hs.placed _ hp
  obtain ⟨b',hb',hlaid'⟩ := hs.placed _ hp'
  by_contra hne
  have hcov : ∀ b : TimelineBlock, b.LaidAt c n → b.Covers (fullSize c*n) := by
    intro b hlaid
    have hoffset := hlaid.offset
    have hpos := hlaid.pos
    exact ⟨by omega,by omega⟩
  refine hapart br br' b b' ?_ hb hb' _ (hcov b hlaid) (hcov b' hlaid')
  rintro rfl
  exact hne rfl

end Laid

structure Unread (c : StoreConfig) (s : Host × List BlockEvent) : Prop where
  tidy : Tidy c s.1
  loads : ∀ b n, .loaded b n ∉ s.2

theorem Unread.step {c : StoreConfig} {env : Env} {s s' : Host × List BlockEvent} (hs : Unread c s)
    (hstep : BlockStep env TimelineRef.Plain s s') : Unread c s' := by
  cases hstep with
  | drawn h ev => exact ⟨hs.tidy.drawn,hs.loads⟩
  | advance h ev => exact ⟨hs.tidy.advance,hs.loads⟩
  | recorded d hfound =>
    refine ⟨?_,hs.loads⟩
    rw [hs.tidy.config]
    exact hs.tidy.withMeta hfound d
  | @opened h t ev r hr hready _ =>
    refine ⟨hs.tidy.ready hr hready,fun b n hmem => ?_⟩
    rcases List.mem_append.mp hmem with hold | hnew
    · exact hs.loads b n hold
    · cases hf : h.store.find r with
      | some tl => simp [hf] at hnew
      | none =>
        have hblocks := (hs.tidy.opened_empty hr hready hf).1
        simp [hf,loadedBlocks,hblocks] at hnew
  | @filed h t ev r msg nano saved hr hfiled init b hgrown hdisk =>
    rw [hs.tidy.config] at hdisk
    refine ⟨hs.tidy.grown hr hgrown hdisk,fun b n hmem => ?_⟩
    rcases List.mem_append.mp hmem with hmem | hmem
    · rcases List.mem_append.mp hmem with hold | hnew
      · exact hs.loads b n hold
      · unfold opening at hnew
        split at hnew <;> simp at hnew
    · cases saved <;> simp at hmem

/-- Whether the offsets of a run tell its blocks apart depends on when it saves
blocks: between any two that it creates it has to. -/
theorem offsets_apart_of_spaced (env : Env) (c : StoreConfig) (disk : Path → Option FileData)
    (tick : Nat) (births : List (TimelineRef × Int)) (h : Host)
    (hopen : newStore env c disk tick births = .ok h) (calls : List SendCall) (t : Host)
    (events : List BlockEvent) (hrun : recordAll env calls (h,[]) = (t,events)) :
    t = sendAll env calls h ∧ (Spaced events → OffsetsApart t) ∧
    (EmptyDir c disk → (∀ s ∈ calls, s.Plain) → OffsetsApart t → Spaced events) := by
  have hlaid := Laid.newStore hopen
  have hpointed : h.Pointed := by
    intro r i hi
    rw [Host.timeline,(newStore_ok hopen).2.1 r] at hi
    cases hi
  have hwalk : Walk env (fun _ => True) (h,[]) (t,events) :=
    hrun ▸ recordAll_walk calls (fun _ _ _ _ => trivial) hpointed
  have hs : Laid c (t,events) := hwalk.invariant (fun _ _ hu hstep => hu.step hstep) hlaid
  refine ⟨?_,hs.apart,fun hempty hplain hapart => ⟨hs.saves_nodup hapart,fun b n hmem => ?_⟩⟩
  · have hhost := recordAll_host env calls (h,[])
    rwa [hrun] at hhost
  · have hplainWalk : Walk env TimelineRef.Plain (h,[]) (t,events) :=
      hrun ▸ recordAll_walk calls hplain hpointed
    have hfirst : Unread c (h,[]) := ⟨Tidy.newStore hopen hempty,by simp⟩
    have hu := hplainWalk.invariant (fun _ _ hu hstep => Unread.step hu hstep) hfirst
    exact absurd hmem (hu.loads b n)

def spacedOutcomes : Host × List BlockEvent :=
  recordAll Env.steady [⟨"c",1,[7],["u","v"]⟩,⟨"c",2,[8],["u"]⟩] (Host.steady singleBlocks,[])

/-- Every block is saved before the next one is created. -/
theorem offsets_apart_of_spaced_two_calls :
    creations spacedOutcomes.2 = [(⟨⟨.conv,"c"⟩,0⟩,0),(⟨⟨.user,"u"⟩,0⟩,1),(⟨⟨.user,"v"⟩,0⟩,2),
      (⟨⟨.conv,"c"⟩,1⟩,3),(⟨⟨.user,"u"⟩,1⟩,4)] ∧
    OffsetsApart spacedOutcomes.1 := by
  have hcreated : creations spacedOutcomes.2 = [(⟨⟨.conv,"c"⟩,0⟩,0),(⟨⟨.user,"u"⟩,0⟩,1),
      (⟨⟨.user,"v"⟩,0⟩,2),(⟨⟨.conv,"c"⟩,1⟩,3),(⟨⟨.user,"u"⟩,1⟩,4)] := by decide +kernel
  have hread : ∀ e ∈ spacedOutcomes.2, ¬ ∃ b n, e = .loaded b n := by
    have hnone : spacedOutcomes.2.all fun e =>
        match e with | .loaded _ _ => false | _ => true := by
      decide +kernel
    rintro _ hmem ⟨b,n,rfl⟩
    exact Bool.noConfusion (List.all_eq_true.mp hnone _ hmem)
  have h := offsets_apart_of_spaced Env.steady singleBlocks (fun _ => none) 0 [] _
    (newStore_steady singleBlocks) _ spacedOutcomes.1 spacedOutcomes.2 Prod.mk.eta.symm
  exact ⟨hcreated,h.2.1 ⟨by rw [hcreated]; decide,fun b n hmem => (hread _ hmem ⟨b,n,rfl⟩).elim⟩⟩

def oneDelivery : Host := sendAll Env.steady [⟨"c",1,[7],["u"]⟩] (Host.steady smallBlocks)

/-- One message makes two blocks with one offset: that of the conversation and
that of the user. -/
theorem two_blocks_at_one_offset :
    newStore Env.steady smallBlocks (fun _ => none) 0 [] = .ok (Host.steady smallBlocks) ∧
    (oneDelivery.timeline ⟨.conv,"c"⟩).blocks.map (fun b => (b.offset,b.size)) = [(0,1)] ∧
    (oneDelivery.timeline ⟨.user,"u"⟩).blocks.map (fun b => (b.offset,b.size)) = [(0,1)] ∧
    ¬ OffsetsApart oneDelivery := by
  have hconv : (oneDelivery.timeline ⟨.conv,"c"⟩).blocks.map
      (fun b => (b.offset,b.size)) = [(0,1)] := by
    decide +kernel
  have huser : (oneDelivery.timeline ⟨.user,"u"⟩).blocks.map
      (fun b => (b.offset,b.size)) = [(0,1)] := by
    decide +kernel
  refine ⟨newStore_steady _,hconv,huser,fun hapart => ?_⟩
  obtain ⟨b,hb,hconv'⟩ := List.map_eq_singleton_iff.mp hconv
  obtain ⟨b',hb',huser'⟩ := List.map_eq_singleton_iff.mp huser
  simp only [Prod.mk.injEq] at hconv' huser'
  refine hapart ⟨⟨.conv,"c"⟩,0⟩ ⟨⟨.user,"u"⟩,0⟩ b b' (by decide) (by simp [hb]) (by simp [hb']) 0
    ⟨by omega,by omega⟩ ⟨by omega,by omega⟩

end Imy.Storage
