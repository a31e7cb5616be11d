import Imy.Storage.BlockEvents
set_option autoImplicit false

namespace Imy.Storage
open Imy.Lib

structure TimelineBlock.Placed (k : Int) (n i : Nat) (b : TimelineBlock) : Prop where
  size : b.size = b.messages.length
  isFull : b.isFull = true ↔ k ≤ b.size
  full : i+1 < n → (b.messages.length : Int) = k ∧ b.isFull = true
  last : i+1 = n → 1 ≤ b.messages.length ∧ (b.messages.length : Int) ≤ k
  nextBlock : b.nextBlock = if i+1 < n then some (i+1) else none

structure Timeline.Structured (k : Int) (tl : Timeline) : Prop where
  placed : ∀ (i : Nat) b, tl.blocks[i]? = some b → b.Placed k tl.blocks.length i
  current : tl.currentBlock = if tl.blocks.length = 0 then none else some (tl.blocks.length-1)

/-- The blocks met from position `start` on along `NextBlock`. -/
def Timeline.chain (tl : Timeline) : Nat → Option Nat → List TimelineBlock
  | 0, _ => []
  | _, none => []
  | fuel+1, some i =>
    match tl.blocks[i]? with
    | none => []
    | some b => b :: tl.chain fuel b.nextBlock

section Timelines
variable {k : Int} {tl : Timeline} {msg : Message}

theorem Timeline.Structured.chain_from (hs : tl.Structured k) (fuel i : Nat)
    (hfuel : tl.blocks.length ≤ fuel+i) :
    tl.chain fuel (if i < tl.blocks.length then some i else none) = tl.blocks.drop i := by
  induction fuel generalizing i with
  | zero =>
    rw [List.drop_eq_nil_of_le (by omega)]
    rfl
  | succ fuel ih =>
    by_cases hi : i < tl.blocks.length
    · have hb := List.getElem?_eq_getElem hi
      rw [if_pos hi,Timeline.chain,hb]
      simp only
      rw [(hs.placed i _ hb).nextBlock,ih (i+1) (by omega),List.drop_eq_getElem_cons hi]
    · rw [if_neg hi,List.drop_eq_nil_of_le (by omega)]
      rfl

/-- The links lead through all blocks in order and end at the last one. -/
theorem Timeline.Structured.chain_eq (hs : tl.Structured k) {fuel : Nat}
    (hfuel : tl.blocks.length ≤ fuel) : tl.chain fuel (some 0) = tl.blocks := by
  have h := hs.chain_from fuel 0 (by omega)
  by_cases hne : 0 < tl.blocks.length
  · rwa [if_pos hne,List.drop_zero] at h
  · have hnil : tl.blocks = [] := List.length_eq_zero_iff.mp (by omega)
    cases fuel <;> simp [Timeline.chain,hnil]

theorem Timeline.Structured.empty (hblocks : tl.blocks = []) (hcurrent : tl.currentBlock = none) :
    tl.Structured k := by
  refine ⟨?_,by simp [hblocks,hcurrent]⟩
  intro i b hb
  simp [hblocks] at hb

theorem Timeline.Structured.pointed (hs : tl.Structured k) : tl.Pointed := by
  intro i hi
  rw [hs.current] at hi
  split at hi
  · cases hi
  · rw [← Option.some.inj hi]
    omega

theorem Timeline.Structured.setLastSeqID (hs : tl.Structured k) (n : Int) :
    (tl.setLastSeqID n).Structured k := ⟨hs.placed,hs.current⟩

theorem Timeline.Structured.push_room {nb : TimelineBlock} (hs : tl.Structured k)
    (hroom : tl.needsBlock = false) : (tl.take k nb msg).Structured k := by
  obtain ⟨init,b,hblocks,hfull,hcur,hpush⟩ := Timeline.push_current k msg hs.pointed hroom
  have hlen : tl.blocks.length = init.length+1 := by simp [hblocks]
  have htake : tl.take k nb msg = { tl with blocks := init ++ [b.push k msg] } := by
    rw [Timeline.take,if_neg (by simp [hroom]),hpush]
  have hb : tl.blocks[init.length]? = some b := by simp [hblocks]
  have hold := hs.placed _ b hb
  have hlt : b.size < k := by
    by_contra hge
    rw [hold.isFull.mpr (not_lt.mp hge)] at hfull
    cases hfull
  refine ⟨?_,?_⟩
  · intro i b' hb'
    rw [htake] at hb' ⊢
    simp only [List.length_append,List.length_singleton,← hlen] at hb' ⊢
    rcases getElem?_concat_some hb' with hb' | ⟨rfl,rfl⟩
    · refine hs.placed i b' ?_
      rw [hblocks,List.getElem?_append_left (List.getElem?_eq_some_iff.mp hb').1]
      exact hb'
    · refine ⟨?_,?_,by omega,?_,?_⟩
      · simp [TimelineBlock.push,hold.size]
      · simp [TimelineBlock.push,hfull]
      · intro _
        have := hold.size
        simp only [TimelineBlock.push,List.length_append,List.length_singleton]
        omega
      · rw [TimelineBlock.push,hold.nextBlock]
  · rw [htake]
    simpa [hlen] using hcur

theorem Timeline.Structured.push_new {h : Host} {r : TimelineRef} {nano : Int} (hk : 1 ≤ k)
    (hs : tl.Structured k) (hneeds : tl.needsBlock = true) :
    (tl.take k (h.newBlock r nano) msg).Structured k := by
  rw [Timeline.take_of_needsBlock hneeds]
  have hlen := tl.linkCurrent_length
  refine ⟨?_,by simp [hlen]⟩
  intro i b hb
  simp only [List.length_append,List.length_singleton,hlen]
  rcases getElem?_concat_some hb with hb | ⟨hi,rfl⟩
  · rw [tl.linkCurrent_getElem?,Option.map_eq_some_iff] at hb
    obtain ⟨old,hold,rfl⟩ := hb
    have hi := (List.getElem?_eq_some_iff.mp hold).1
    have hp := hs.placed i old hold
    by_cases hlast : i+1 = tl.blocks.length
    · -- the block that was current is full, or there would be room in it
      have hcur : tl.currentBlock = some i := by
        rw [hs.current,if_neg (by omega)]
        congr 1
        omega
      have hfull : old.isFull = true := by
        simpa [Timeline.needsBlock,Timeline.current,hcur,hold] using hneeds
      have hsize := hp.isFull.mp hfull
      have hle := (hp.last hlast).2
      have hmess := hp.size
      rw [if_pos hcur]
      refine ⟨hp.size,hp.isFull,fun _ => ⟨?_,hfull⟩,by omega,?_⟩
      · simp only
        omega
      · rw [if_pos (by omega),hlast]
    · have hcur : tl.currentBlock ≠ some i := by
        rw [hs.current]
        split
        · simp
        · simp only [ne_eq,Option.some.injEq]
          omega
      rw [if_neg hcur]
      refine ⟨hp.size,hp.isFull,fun _ => hp.full (by omega),by omega,?_⟩
      rw [hp.nextBlock,if_pos (by omega),if_pos (by omega)]
  · rw [hlen] at hi
    subst hi
    refine ⟨?_,?_,by omega,?_,?_⟩
    · simp [TimelineBlock.push,Host.newBlock]
    · simp [TimelineBlock.push,Host.newBlock]
    · intro _
      simp only [TimelineBlock.push,Host.newBlock,List.nil_append,List.length_singleton]
      omega
    · simp [TimelineBlock.push,Host.newBlock]

theorem Timeline.Structured.take {h : Host} {r : TimelineRef} {nano : Int} (hk : 1 ≤ k)
    (hs : tl.Structured k) : (tl.take k (h.newBlock r nano) msg).Structured k := by
  cases hneeds : tl.needsBlock with
  | true => exact hs.push_new hk hneeds
  | false => exact hs.push_room hneeds

end Timelines

structure Formed (c : StoreConfig) (s : Host × List BlockEvent) : Prop where
  tidy : Tidy c s.1
  structured : ∀ r, (s.1.timeline r).Structured c.timelineMaxSize
  born : ∀ r, ∀ b ∈ (s.1.timeline r).blocks, ∃ nano, (r,nano) ∈ s.1.births ∧
    b.blockID = r.blockID nano
  cached : s.1.births.Nodup → ∀ r (i : Nat) b, (s.1.timeline r).blocks[i]? = some b →
    s.1.store.timelineBlocks b.blockID = some ⟨r,i⟩
  savedOnce : (savedIn s.2).Nodup
  savedFull : ∀ br ∈ savedIn s.2, ∃ b, (s.1.timeline br.timeline).blocks[br.pos]? = some b ∧
    b.isFull = true
  capacity : s.1.store.currentCapacity =
    ((savedIn s.2).map fun br => ((s.1.timeline br.timeline).block br.pos).size).sum

section Formed
variable {c : StoreConfig} {env : Env} {h t : Host} {ev : List BlockEvent} {r : TimelineRef}

theorem Formed.quiet (hs : Formed c (h,ev)) (ht : Tidy c t) (htl : ∀ r, t.timeline r = h.timeline r)
    (hcache : t.store.timelineBlocks = h.store.timelineBlocks) (hbirths : t.births = h.births)
    (hcap : t.store.currentCapacity = h.store.currentCapacity) : Formed c (t,ev) := by
  refine ⟨ht,?_,?_,?_,hs.savedOnce,?_,?_⟩
  · simpa only [htl] using hs.structured
  · simpa only [htl,hbirths] using hs.born
  · simpa only [htl,hbirths,hcache] using hs.cached
  · simpa only [htl] using hs.savedFull
  · simpa only [htl,hcap] using hs.capacity

/-- A timeline of a tidy store that has to be loaded has nothing to load. -/
theorem Tidy.opened_empty (ht : Tidy c h) (hr : r.Plain) (hm : Ready env r h t)
    (hf : h.store.find r = none) :
    (t.timeline r).blocks = [] ∧ (t.timeline r).currentBlock = none := by
  have hviews := ht.ready_views hr hm r
  rw [Host.views_of_find_none hf] at hviews
  refine ⟨List.map_eq_nil_iff.mp hviews,?_⟩
  rcases hm with ⟨hsome,-⟩ | ⟨-,hl⟩
  · simp [hf] at hsome
  · exact hl.current

theorem Formed.opened (hs : Formed c (h,ev)) (hr : r.Plain) (hm : Ready env r h t)
    (hcached : Cached r h t) :
    Formed c (t,ev ++ if (h.store.find r).isSome then [] else loadedBlocks t r) := by
  have ht := hs.tidy.ready hr hm
  have hframe := hm.loadFrame
  cases hf : h.store.find r with
  | some tl =>
    have heq : t = h := by
      rcases hm with ⟨-,rfl⟩ | ⟨hnone,-⟩
      · rfl
      · simp [hf] at hnone
    subst heq
    simpa using hs
  | none =>
    obtain ⟨hblocks,hcurrent⟩ := hs.tidy.opened_empty hr hm hf
    have hold : (h.timeline r).blocks = [] := by simp [Host.timeline,hf,Timeline.fresh]
    have hnothing : loadedBlocks t r = [] := by simp [loadedBlocks,hblocks]
    have hcache : t.store.timelineBlocks = h.store.timelineBlocks := by
      funext id
      rcases hcached.cached id with heq | ⟨b,hb,-⟩
      · exact heq
      · simp [hblocks] at hb
    have hall : ∀ r', (t.timeline r').blocks = (h.timeline r').blocks := by
      intro r'
      by_cases he : r' = r
      · rw [he,hblocks,hold]
      · rw [hframe.toFrame.timeline he]
    simp only [Option.isSome_none,Bool.false_eq_true,if_false,hnothing,List.append_nil]
    refine ⟨ht,?_,?_,?_,hs.savedOnce,?_,?_⟩
    · intro r'
      by_cases he : r' = r
      · exact he ▸ Timeline.Structured.empty hblocks hcurrent
      · rw [hframe.toFrame.timeline he]
        exact hs.structured r'
    · simpa only [hall,hframe.births] using hs.born
    · simpa only [hall,hframe.births,hcache] using hs.cached
    · simpa only [hall] using hs.savedFull
    · simpa only [Timeline.block,hall,hframe.capacity] using hs.capacity

/-- The current block of a timeline with room was never saved, nor was a block
that has just been opened. -/
theorem Formed.unsaved (hs : Formed c (h,ev)) {k : Int} {nb : TimelineBlock}
    {msg : Message} {n : Int} {br : BlockRef}
    (hsave : (((h.timeline r).take k nb msg).setLastSeqID n).blockToSave k r = some br) :
    br ∉ savedIn ev := by
  intro hmem
  obtain ⟨b,hb,hfull⟩ := hs.savedFull br hmem
  obtain ⟨hcur,hr,-⟩ := Timeline.blockToSave_eq_some hsave
  rw [hr] at hb
  have hcur' : ((h.timeline r).take k nb msg).currentBlock = some br.pos := hcur
  rw [Timeline.take_currentBlock] at hcur'
  cases hneeds : (h.timeline r).needsBlock with
  | true =>
    simp only [hneeds,if_true,Option.some.injEq] at hcur'
    have hlt : br.pos < (h.timeline r).blocks.length := (List.getElem?_eq_some_iff.mp hb).1
    omega
  | false =>
    simp only [hneeds,Bool.false_eq_true,if_false] at hcur'
    obtain ⟨i,b',hi,hb',hroom⟩ := Timeline.needsBlock_eq_false hneeds
    cases hi.symm.trans hcur'
    cases hb.symm.trans hb'
    rw [hfull] at hroom
    cases hroom

theorem Filed.full_block {msg : Message} {nano : Int} {saved : Option BlockRef}
    (hf : Filed r msg nano saved h t) {br : BlockRef} {b : TimelineBlock}
    (hb : (h.timeline br.timeline).blocks[br.pos]? = some b) (hfull : b.isFull = true) :
    ∃ b', (t.timeline br.timeline).blocks[br.pos]? = some b' ∧ b'.isFull = true ∧
      b'.size = b.size := by
  by_cases he : br.timeline = r
  · obtain ⟨n,htl⟩ := hf.timeline
    rw [he] at hb ⊢
    rw [htl]
    obtain ⟨b',hb',-,hview | ⟨-,-,-,hroom⟩⟩ := Timeline.take_old h.store.config.timelineMaxSize
      (h.newBlock r nano) msg hb
    · have hfull' : b'.isFull = b.isFull := congrArg BlockView.full hview
      have hsize : b'.size = b.size := congrArg BlockView.size hview
      exact ⟨b',hb',hfull'.trans hfull,hsize⟩
    · rw [hfull] at hroom
      cases hroom
  · rw [hf.toFrame.timeline he]
    exact ⟨b,hb,hfull,rfl⟩

/-- Every block has the ID of an old block at its place, or is the new one. -/
theorem Filed.block_cases {msg : Message} {nano : Int} {saved : Option BlockRef}
    (hf : Filed r msg nano saved h t) {r' : TimelineRef} {i : Nat} {b : TimelineBlock}
    (hb : (t.timeline r').blocks[i]? = some b) :
    (∃ b₀, (h.timeline r').blocks[i]? = some b₀ ∧ b.blockID = b₀.blockID) ∨
      ((h.timeline r).needsBlock = true ∧ r' = r ∧ i = (h.timeline r).blocks.length ∧
        b.blockID = r.blockID nano) := by
  by_cases he : r' = r
  · subst he
    obtain ⟨n,htl⟩ := hf.timeline
    rw [htl] at hb
    rcases Timeline.take_cases hb with ⟨b₀,hb₀,-,hview | ⟨-,-,rfl,-⟩⟩ | ⟨hneeds,rfl,rfl⟩
    · exact Or.inl ⟨b₀,hb₀,congrArg BlockView.id hview⟩
    · exact Or.inl ⟨b₀,hb₀,rfl⟩
    · exact Or.inr ⟨hneeds,rfl,rfl,rfl⟩
  · rw [hf.toFrame.timeline he] at hb
    exact Or.inl ⟨b,hb,rfl⟩

/-- The new block does not take the ID of an old one in `TimelineBlocks`. -/
theorem Formed.filed_cached {msg : Message} {nano : Int} {saved : Option BlockRef}
    (hs : Formed c (h,ev)) (hf : Filed r msg nano saved h t) (hnodup : t.births.Nodup)
    {r' : TimelineRef} {i : Nat} {b : TimelineBlock} (hb : (t.timeline r').blocks[i]? = some b) :
    t.store.timelineBlocks b.blockID = some ⟨r',i⟩ := by
  rw [hf.births] at hnodup
  have hold : h.births.Nodup := (List.nodup_append.mp hnodup).1
  rw [hf.cached]
  rcases hf.block_cases hb with ⟨b₀,hb₀,hid⟩ | ⟨hneeds,rfl,rfl,hid⟩
  · have hcache := hs.cached hold r' i b₀ hb₀
    rw [hid]
    split
    · rename_i hneeds
      rw [Function.update_of_ne]
      · exact hcache
      · intro heq
        obtain ⟨nano',hborn,hid'⟩ := hs.born r' b₀ (List.mem_of_getElem? hb₀)
        obtain ⟨rfl,rfl⟩ := TimelineRef.blockID_injective (hid'.symm.trans heq)
        rw [if_pos hneeds] at hnodup
        exact (List.nodup_append.mp hnodup).2.2 _ hborn _ (List.mem_singleton_self _) rfl
    · exact hcache
  · rw [if_pos hneeds,hid,Function.update_self]

theorem Formed.filed_capacity {msg : Message} {nano : Int} {saved : Option BlockRef}
    (hs : Formed c (h,ev)) (hf : Filed r msg nano saved h t) :
    t.store.currentCapacity = ((savedIn (ev ++ opening h r ++ saved.toList.map .saved)).map
      fun br => ((t.timeline br.timeline).block br.pos).size).sum := by
  have hsame : (savedIn ev).map (fun br => ((t.timeline br.timeline).block br.pos).size) =
      (savedIn ev).map fun br => ((h.timeline br.timeline).block br.pos).size := by
    refine List.map_congr_left fun br hmem => ?_
    obtain ⟨b,hb,hfull⟩ := hs.savedFull br hmem
    obtain ⟨b',hb',-,hsize⟩ := hf.full_block hb hfull
    rw [Timeline.block_of_getElem? hb,Timeline.block_of_getElem? hb',hsize]
  have hnew : saved.toList.map (fun br => ((t.timeline br.timeline).block br.pos).size) =
      saved.toList.map fun br => ((t.timeline r).block br.pos).size := by
    refine List.map_congr_left fun br hmem => ?_
    rw [(Timeline.blockToSave_eq_some (hf.saves br (by simpa using hmem))).2.1]
  rw [savedIn_filed,List.map_append,List.sum_append,hsame,hnew,hf.capacity,hs.capacity]

theorem Formed.filed {msg : Message} {nano : Int} {saved : Option BlockRef}
    (hk : 1 ≤ c.timelineMaxSize)
    (hs : Formed c (h,ev)) (ht : Tidy c t) (hf : Filed r msg nano saved h t) :
    Formed c (t,ev ++ opening h r ++ saved.toList.map .saved) := by
  have hconfig := hs.tidy.config
  obtain ⟨n,htl⟩ := hf.timeline
  rw [hconfig] at htl
  have hstructured : ∀ r', (t.timeline r').Structured c.timelineMaxSize := by
    intro r'
    by_cases he : r' = r
    · rw [he,htl]
      exact ((hs.structured r).take hk).setLastSeqID n
    · rw [hf.toFrame.timeline he]
      exact hs.structured r'
  refine ⟨ht,hstructured,?_,fun hnodup r' i b hb => hs.filed_cached hf hnodup hb,?_,
    ?_,hs.filed_capacity hf⟩
  · intro r' b hb
    obtain ⟨i,hi⟩ := List.mem_iff_getElem?.mp hb
    rcases hf.block_cases hi with ⟨b₀,hb₀,hid⟩ | ⟨hneeds,rfl,-,hid⟩
    · obtain ⟨nano',hborn,hid'⟩ := hs.born r' b₀ (List.mem_of_getElem? hb₀)
      exact ⟨nano',by rw [hf.births]; exact List.mem_append_left _ hborn,hid.trans hid'⟩
    · exact ⟨nano,by rw [hf.births,if_pos hneeds]; simp,hid⟩
  · rw [savedIn_filed,List.nodup_append]
    refine ⟨hs.savedOnce,by cases saved <;> simp,?_⟩
    rintro br hold br' hnew rfl
    have hsave := hf.saves br (by simpa using hnew)
    rw [htl,hconfig] at hsave
    exact hs.unsaved hsave hold
  · intro br hmem
    rw [savedIn_filed,List.mem_append] at hmem
    rcases hmem with hold | hnew
    · obtain ⟨b,hb,hfull⟩ := hs.savedFull br hold
      obtain ⟨b',hb',hfull',-⟩ := hf.full_block hb hfull
      exact ⟨b',hb',hfull'⟩
    · obtain ⟨hcur,hr,hsize⟩ := Timeline.blockToSave_eq_some (hf.saves br (by simpa using hnew))
      have hpointed := (hstructured r).pointed br.pos hcur
      have hb := List.getElem?_eq_getElem (l := (t.timeline r).blocks) (i := br.pos) (by omega)
      rw [Timeline.block_of_getElem? hb,hconfig] at hsize
      exact ⟨_,hr ▸ hb,((hstructured r).placed _ _ hb).isFull.mpr hsize⟩

theorem Formed.step {s s' : Host × List BlockEvent} (hk : 1 ≤ c.timelineMaxSize) (hs : Formed c s)
    (hstep : BlockStep env TimelineRef.Plain s s') : Formed c s' := by
  cases hstep with
  | drawn h ev => exact hs.quiet hs.tidy.drawn (fun _ => rfl) rfl rfl rfl
  | advance h ev => exact hs.quiet hs.tidy.advance (fun _ => rfl) rfl rfl rfl
  | recorded d hfound =>
    refine hs.quiet ?_ (fun _ => rfl) rfl rfl rfl
    rw [hs.tidy.config]
    exact hs.tidy.withMeta hfound d
  | opened hr hready hcached => exact hs.opened hr hready hcached
  | filed hr hfiled hgrown hdisk =>
    rw [hs.tidy.config] at hdisk
    exact hs.filed hk (hs.tidy.grown hr hgrown hdisk) hfiled

theorem Formed.newStore {disk : Path → Option FileData} {tick : Nat}
    {births : List (TimelineRef × Int)} (hopen : newStore env c disk tick births = .ok h)
    (hempty : EmptyDir c disk) : Formed c (h,[]) := by
  obtain ⟨-,hf,-,-,-,-,hcap⟩ := newStore_ok hopen
  have hfresh : ∀ r, h.timeline r = .fresh := fun r => by rw [Host.timeline,hf r]; rfl
  refine ⟨Tidy.newStore hopen hempty,?_,?_,?_,by simp [savedIn],by simp [savedIn],
    by simp [savedIn,hcap]⟩
  · intro r
    rw [hfresh r]
    exact Timeline.Structured.empty rfl rfl
  · intro r b hb
    simp [hfresh r,Timeline.fresh] at hb
  · intro _ r i b hb
    simp [hfresh r,Timeline.fresh] at hb

end Formed

/-- The form of the timelines of any run, and what the capacity in use adds up to. -/
theorem block_structure (env : Env) (c : StoreConfig) (hk : 1 ≤ c.timelineMaxSize)
    (disk : Path → Option FileData) (tick : Nat) (births : List (TimelineRef × Int)) (h : Host)
    (hopen : newStore env c disk tick births = .ok h) (hempty : EmptyDir c disk)
    (calls : List SendCall) (hplain : ∀ s ∈ calls, s.Plain) (t : Host) (events : List BlockEvent)
    (hrun : recordAll env calls (h,[]) = (t,events)) (hbirths : t.births.Nodup) :
    t = sendAll env calls h ∧
    (∀ r, (t.timeline r).Structured c.timelineMaxSize ∧
      (∀ fuel, (t.timeline r).blocks.length ≤ fuel →
        (t.timeline r).chain fuel (some 0) = (t.timeline r).blocks) ∧
      ∀ (i : Nat) b, (t.timeline r).blocks[i]? = some b →
        t.store.timelineBlocks b.blockID = some ⟨r,i⟩) ∧
    (savedIn events).Nodup ∧
    (∀ br ∈ savedIn events, br.pos < (t.timeline br.timeline).blocks.length) ∧
    t.store.currentCapacity =
      ((savedIn events).map fun br => ((t.timeline br.timeline).block br.pos).size).sum := by
  have hfirst := Formed.newStore hopen hempty
  have hwalk : Walk env TimelineRef.Plain (h,[]) (t,events) :=
    hrun ▸ recordAll_walk calls hplain hfirst.tidy.pointed
  have hs : Formed c (t,events) := hwalk.invariant (fun _ _ hu hstep => hu.step hk hstep) hfirst
  refine ⟨?_,fun r => ⟨hs.structured r,fun fuel hfuel => (hs.structured r).chain_eq hfuel,
    hs.cached hbirths r⟩,hs.savedOnce,?_,hs.capacity⟩
  · have hhost := recordAll_host env calls (h,[])
    rwa [hrun] at hhost
  · intro br hmem
    obtain ⟨b,hb,-⟩ := hs.savedFull br hmem
    exact (List.getElem?_eq_some_iff.mp hb).1

def Env.firstSaveFails : Env :=
  ⟨fun n => n,fun n => if n = 14 then some .notOpened else none,fun _ => false⟩

def threeCalls : List SendCall := [⟨"c",1,[7],["u"]⟩,⟨"c",2,[8],["u"]⟩,⟨"c",3,[9],["u"]⟩]

theorem newStore_firstSaveFails (c : StoreConfig) :
    newStore Env.firstSaveFails c (fun _ => none) 0 [] = .ok (Host.steady c) := by
  have hid : decimal 1 = "1" := by decide
  simp [newStore,Env.firstSaveFails,Host.steady,hid]

def threeOutcomes : Host × List BlockEvent :=
  recordAll Env.firstSaveFails threeCalls (Host.steady smallBlocks,[])

/-- Of the two full blocks one was saved. -/
theorem block_structure_three_calls :
    savedIn threeOutcomes.2 = [⟨⟨.user,"u"⟩,0⟩] ∧
    (threeOutcomes.1.timeline ⟨.conv,"c"⟩).blocks.length = 2 ∧
    (threeOutcomes.1.timeline ⟨.conv,"c"⟩).Structured 2 := by
  have hplain : ∀ s ∈ threeCalls, s.Plain := by decide
  have hbirths : threeOutcomes.1.births.Nodup := by decide +kernel
  have h := block_structure Env.firstSaveFails smallBlocks (by decide) (fun _ => none) 0 [] _
    (newStore_firstSaveFails smallBlocks) (fun _ _ => rfl) threeCalls hplain threeOutcomes.1
    threeOutcomes.2 Prod.mk.eta.symm hbirths
  exact ⟨by decide +kernel,by decide +kernel,(h.2.1 ⟨.conv,"c"⟩).1⟩

end Imy.Storage
