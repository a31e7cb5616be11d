import Imy.Storage.AppendLog
set_option autoImplicit false

namespace Imy.Storage
open Imy.Lib

def savedView (c : StoreConfig) (disk : Path → Option FileData) (blockID : String) :
    Option BlockView :=
  match disk (getTimelineBlockFilePath c blockID) with
  | some (.gob messages false) => some ⟨blockID,messages,messages.length,true⟩
  | _ => none

theorem savedBlock_view (c : StoreConfig) (storeID : String) (disk : Path → Option FileData)
    (blockID : String) :
    (savedBlock c storeID disk blockID).map TimelineBlock.view = savedView c disk blockID := by
  unfold savedBlock savedView
  generalize disk (getTimelineBlockFilePath c blockID) = file
  rcases file with _ | ⟨ms,torn⟩ | md | _
  · rfl
  · cases torn <;> rfl
  · rfl
  · rfl

theorem savedView_of_file {c : StoreConfig} {disk : Path → Option FileData} {blockID : String}
    {messages : List Message}
    (hd : disk (getTimelineBlockFilePath c blockID) = some (.gob messages false)) :
    savedView c disk blockID = some ⟨blockID,messages,messages.length,true⟩ := by
  simp [savedView,hd]

theorem savedView_of_none {c : StoreConfig} {disk : Path → Option FileData} {blockID : String}
    (hd : disk (getTimelineBlockFilePath c blockID) = none) : savedView c disk blockID = none := by
  simp [savedView,hd]

theorem savedView_some {c : StoreConfig} {disk : Path → Option FileData} {blockID : String}
    {v : BlockView} (h : savedView c disk blockID = some v) :
    v.id = blockID ∧ v.full = true ∧
      disk (getTimelineBlockFilePath c blockID) = some (.gob v.messages false) := by
  unfold savedView at h
  split at h
  · rename_i hd
    cases h
    exact ⟨rfl,rfl,hd⟩
  · cases h

def Host.image (h : Host) (r : TimelineRef) : List BlockView :=
  (savedIDs h.store.config h.disk r).filterMap (savedView h.store.config h.disk)

theorem Host.image_eq (h : Host) (r : TimelineRef) (storeID : String) :
    ((savedIDs h.store.config h.disk r).filterMap
      (savedBlock h.store.config storeID h.disk)).map TimelineBlock.view = h.image r := by
  rw [List.map_filterMap]
  exact List.filterMap_congr fun id _ => savedBlock_view _ _ _ id

def Named (r : TimelineRef) (h : Host) (blockID : String) : Prop :=
  ∃ nano, blockID = r.blockID nano ∧ (r,nano) ∈ h.births

structure ClosedBlock (k : Nat) (r : TimelineRef) (h : Host) (v : BlockView) : Prop where
  full : v.full = true
  length : v.messages.length = k
  named : Named r h v.id
  file : h.disk (getTimelineBlockFilePath h.store.config v.id) = some (.gob v.messages false)

structure OpenBlock (k : Nat) (r : TimelineRef) (h : Host) (v : BlockView) : Prop where
  full : v.full = false
  size : v.size = v.messages.length
  room : v.messages.length < k
  named : Named r h v.id
  file : h.disk (getTimelineBlockFilePath h.store.config v.id) = none

/-- The blocks of a timeline in memory: those with the messages of earlier
epochs, the full ones of this epoch, and at most one that still has room. -/
structure Cut (k : Nat) (r : TimelineRef) (past cur : List Message) (h : Host)
    (old new rest : List BlockView) : Prop where
  views : h.views r = old ++ new ++ rest
  closed : ∀ v ∈ old ++ new, ClosedBlock k r h v
  past : old.flatMap (·.messages) = past
  cur : new.flatMap (·.messages) ++ rest.flatMap (·.messages) = cur
  rest : rest = [] ∨ ∃ b, rest = [b] ∧ OpenBlock k r h b ∧ (h.timeline r).needsBlock = false

structure OnDisk (k : Nat) (r : TimelineRef) (past : List Message) (h : Host) : Prop where
  metadata : LegibleMetadata h.store.config h.disk r
  ids : ∀ id ∈ savedIDs h.store.config h.disk r,
    Named r h id ∧ LegibleBlock h.store.config h.disk id
  length : ∀ v ∈ h.image r, v.messages.length = k
  past : (h.image r).flatMap (·.messages) = past

/-- The metadata file lists the blocks in memory. -/
def Listed (r : TimelineRef) (h : Host) : Prop :=
  ∃ metadata, h.disk (getTimelineMetaFilePath h.store.config r) = some (.json metadata) ∧
    metadata.blockIDs = (h.views r).map (·.id)

theorem OnDisk.closed {k : Nat} {r : TimelineRef} {past : List Message} {h : Host}
    (hd : OnDisk k r past h) {v : BlockView} (hv : v ∈ h.image r) : ClosedBlock k r h v := by
  obtain ⟨id,hid,hs⟩ := List.mem_filterMap.mp hv
  obtain ⟨rfl,hfull,hfile⟩ := savedView_some hs
  exact ⟨hfull,hd.length v hv,(hd.ids _ hid).1,hfile⟩

theorem filterMap_closed {k : Nat} {r : TimelineRef} {h : Host} {vs : List BlockView}
    (hc : ∀ v ∈ vs, ClosedBlock k r h v) :
    (vs.map (·.id)).filterMap (savedView h.store.config h.disk) =
      vs.map fun v => ⟨v.id,v.messages,v.messages.length,true⟩ := by
  rw [List.filterMap_map,List.filterMap_eq_map_iff_forall_eq_some]
  intro v hv
  exact savedView_of_file (hc v hv).file

/-- A restart keeps what the closed blocks hold and drops the open one. -/
theorem Cut.onDisk {k : Nat} {r : TimelineRef} {past cur : List Message} {h : Host}
    {old new rest : List BlockView} (hcut : Cut k r past cur h old new rest) (hk : 1 ≤ k)
    (hl : Listed r h) : OnDisk k r (past ++ fullPrefix k cur) h := by
  obtain ⟨md,hmd,hids⟩ := hl
  have hsaved : savedIDs h.store.config h.disk r = (h.views r).map (·.id) := by
    simp [savedIDs,savedMetadata,hmd,hids]
  have himage : h.image r = (old ++ new).map fun v => ⟨v.id,v.messages,v.messages.length,true⟩ := by
    have hrest : (rest.map (·.id)).filterMap (savedView h.store.config h.disk) = [] := by
      rcases hcut.rest with rfl | ⟨b,rfl,hb,-⟩
      · rfl
      · simp [savedView_of_none hb.file]
    rw [Host.image,hsaved,hcut.views,List.map_append,List.filterMap_append,hrest,List.append_nil,
      filterMap_closed hcut.closed]
  have hfull : fullPrefix k cur = new.flatMap (·.messages) := by
    rw [← hcut.cur,List.flatMap_def]
    refine fullPrefix_chunks ?_ ?_
    · intro ms hms
      obtain ⟨v,hv,rfl⟩ := List.mem_map.mp hms
      exact (hcut.closed v (by simp [hv])).length
    · rcases hcut.rest with rfl | ⟨b,rfl,hb,-⟩
      · simpa using Nat.lt_of_lt_of_le Nat.zero_lt_one hk
      · simpa using hb.room
  refine ⟨?_,?_,?_,?_⟩
  · intro d hd
    rw [hmd] at hd
    exact ⟨md,(Option.some.inj hd).symm⟩
  · intro id hid
    rw [hsaved,hcut.views] at hid
    obtain ⟨v,hv,rfl⟩ := List.mem_map.mp hid
    rcases List.mem_append.mp hv with hv | hv
    · have hc := hcut.closed v hv
      refine ⟨hc.named,fun d hd => ?_⟩
      rw [hc.file] at hd
      exact ⟨_,(Option.some.inj hd).symm⟩
    · rcases hcut.rest with rfl | ⟨b,rfl,hb,-⟩
      · cases hv
      · rw [List.mem_singleton] at hv
        subst hv
        refine ⟨hb.named,fun d hd => ?_⟩
        rw [hb.file] at hd
        cases hd
  · intro v hv
    rw [himage] at hv
    obtain ⟨w,hw,rfl⟩ := List.mem_map.mp hv
    exact (hcut.closed w hw).length
  · rw [himage,hfull,← hcut.past,List.flatMap_map,← List.flatMap_append]

structure KeepsBlocks (r : TimelineRef) (h t : Host) : Prop where
  config : t.store.config = h.store.config
  births : h.births <+: t.births
  find : t.store.find r = h.store.find r
  blockFile : ∀ nano, t.disk (getTimelineBlockFilePath h.store.config (r.blockID nano)) =
    h.disk (getTimelineBlockFilePath h.store.config (r.blockID nano))

structure Keeps (r : TimelineRef) (h t : Host) : Prop extends KeepsBlocks r h t where
  metaFile : t.disk (getTimelineMetaFilePath h.store.config r) =
    h.disk (getTimelineMetaFilePath h.store.config r)

section Keeps
variable {k : Nat} {r : TimelineRef} {h t : Host} {past cur : List Message}

theorem KeepsBlocks.timeline (hk : KeepsBlocks r h t) : t.timeline r = h.timeline r := by
  simp only [Host.timeline,hk.find]

theorem KeepsBlocks.views (hk : KeepsBlocks r h t) : t.views r = h.views r := by
  simp only [Host.views,hk.timeline]

theorem KeepsBlocks.named (hk : KeepsBlocks r h t) {id : String} (hn : Named r h id) :
    Named r t id := by
  obtain ⟨nano,rfl,hb⟩ := hn
  exact ⟨nano,rfl,hk.births.subset hb⟩

theorem KeepsBlocks.namedFile (hk : KeepsBlocks r h t) {id : String} (hn : Named r h id) :
    t.disk (getTimelineBlockFilePath t.store.config id) =
      h.disk (getTimelineBlockFilePath h.store.config id) := by
  obtain ⟨nano,rfl,-⟩ := hn
  rw [hk.config,hk.blockFile nano]

theorem KeepsBlocks.closed (hk : KeepsBlocks r h t) {v : BlockView} (hc : ClosedBlock k r h v) :
    ClosedBlock k r t v :=
  ⟨hc.full,hc.length,hk.named hc.named,(hk.namedFile hc.named).trans hc.file⟩

theorem KeepsBlocks.open (hk : KeepsBlocks r h t) {v : BlockView} (ho : OpenBlock k r h v) :
    OpenBlock k r t v :=
  ⟨ho.full,ho.size,ho.room,hk.named ho.named,(hk.namedFile ho.named).trans ho.file⟩

theorem KeepsBlocks.cut (hk : KeepsBlocks r h t) {old new rest : List BlockView}
    (hc : Cut k r past cur h old new rest) : Cut k r past cur t old new rest := by
  refine ⟨hk.views.trans hc.views,fun v hv => hk.closed (hc.closed v hv),hc.past,hc.cur,?_⟩
  rcases hc.rest with hr | ⟨b,hr,hb,hn⟩
  · exact Or.inl hr
  · exact Or.inr ⟨b,hr,hk.open hb,by rw [hk.timeline,hn]⟩

theorem Keeps.savedIDs (hk : Keeps r h t) :
    savedIDs t.store.config t.disk r = savedIDs h.store.config h.disk r := by
  simp only [Storage.savedIDs,savedMetadata,hk.config,hk.metaFile]

theorem Keeps.onDisk (hk : Keeps r h t) (hd : OnDisk k r past h) : OnDisk k r past t := by
  have himage : t.image r = h.image r := by
    unfold Host.image
    rw [hk.savedIDs]
    refine List.filterMap_congr fun id hid => ?_
    simp only [savedView,hk.namedFile (hd.ids id hid).1]
  refine ⟨?_,?_,by rw [himage]; exact hd.length,by rw [himage]; exact hd.past⟩
  · intro d hf
    rw [hk.config,hk.metaFile] at hf
    exact hd.metadata d hf
  · intro id hid
    rw [hk.savedIDs] at hid
    obtain ⟨hn,hl⟩ := hd.ids id hid
    refine ⟨hk.named hn,fun d hf => ?_⟩
    rw [hk.namedFile hn] at hf
    exact hl d hf

theorem Keeps.listed (hk : Keeps r h t) (hl : Listed r h) : Listed r t := by
  obtain ⟨md,hmd,hids⟩ := hl
  exact ⟨md,by rw [hk.config,hk.metaFile,hmd],by rw [hk.views,hids]⟩

theorem KeepsBlocks.withMeta {r' : TimelineRef} (hr : r.Plain) (hr' : r'.Plain) (d : FileData) :
    KeepsBlocks r' h (h.withFile (getTimelineMetaFilePath h.store.config r) d) :=
  ⟨rfl,List.prefix_rfl,rfl,fun _ =>
    Function.update_of_ne (metaFilePath_ne_blockFilePath hr hr').symm _ _⟩

theorem Keeps.withMeta {r' : TimelineRef} (hr : r.Plain) (hr' : r'.Plain) (he : r' ≠ r)
    (d : FileData) : Keeps r' h (h.withFile (getTimelineMetaFilePath h.store.config r) d) :=
  ⟨KeepsBlocks.withMeta hr hr' d,
    Function.update_of_ne (fun heq => he (metaFilePath_injective hr' hr heq)) _ _⟩

end Keeps

/-- The whole store between two steps of a call. `past` and `cur` are what each
timeline has from earlier epochs and from this one; a `stale` timeline has
changed since its metadata was saved. -/
structure Shelved (k : Nat) (past cur : TimelineRef → List Message) (stale : TimelineRef → Prop)
    (h : Host) : Prop where
  size : h.store.config.timelineMaxSize = k
  unborn : ∀ r nano, r.Plain → (r,nano) ∉ h.births →
    h.disk (getTimelineBlockFilePath h.store.config (r.blockID nano)) = none
  absent : ∀ r, r.Plain → h.store.find r = none → cur r = [] ∧ OnDisk k r (past r) h
  present : ∀ r, r.Plain → (h.store.find r).isSome →
    (∃ old new rest, Cut k r (past r) (cur r) h old new rest) ∧ (¬ stale r → Listed r h)

section Shelved
variable {k : Nat} {past cur cur' : TimelineRef → List Message} {stale stale' : TimelineRef → Prop}
variable {h t : Host} {r : TimelineRef} {env : Env} {msg : Message} {dir : String}

theorem Shelved.focus (hs : Shelved k past cur stale h)
    (keep : ∀ r', r' ≠ r → r'.Plain → Keeps r' h t)
    (size : t.store.config.timelineMaxSize = k)
    (unborn : ∀ r' nano, r'.Plain → (r',nano) ∉ t.births →
      t.disk (getTimelineBlockFilePath t.store.config (r'.blockID nano)) = none)
    (same : ∀ r', r' ≠ r → cur' r' = cur r') (fewer : ∀ r', r' ≠ r → ¬ stale' r' → ¬ stale r')
    (found : (t.store.find r).isSome)
    (cut : ∃ old new rest, Cut k r (past r) (cur' r) t old new rest)
    (listed : ¬ stale' r → Listed r t) : Shelved k past cur' stale' t := by
  refine ⟨size,unborn,?_,?_⟩
  · intro r' hp hn
    by_cases he : r' = r
    · subst he
      simp [hn] at found
    · have hk := keep r' he hp
      obtain ⟨hcur,hd⟩ := hs.absent r' hp (hk.find ▸ hn)
      exact ⟨(same r' he).trans hcur,hk.onDisk hd⟩
  · intro r' hp hf
    by_cases he : r' = r
    · subst he
      exact ⟨cut,listed⟩
    · have hk := keep r' he hp
      obtain ⟨⟨old,new,rest,hc⟩,hl⟩ := hs.present r' hp (hk.find ▸ hf)
      rw [same r' he]
      exact ⟨⟨old,new,rest,hk.cut hc⟩,fun hns => hk.listed (hl (fewer r' he hns))⟩

theorem OnDisk.loaded {past : List Message} (hd : OnDisk k r past h)
    (hreads : ∀ n, env.readFault n = false) (hl : Loaded env r h t) :
    t.views r = h.image r ∧ Cut k r past [] t (h.image r) [] [] := by
  have hlegible : Legible env h.store.config h.disk r :=
    ⟨hreads,hd.metadata,fun id hid => (hd.ids id hid).2⟩
  obtain ⟨ids,-,hb,hall⟩ := hl.blocks
  have hviews : t.views r = h.image r := by
    rw [Host.views,hb,hall hlegible,Host.image_eq]
  refine ⟨hviews,by simpa using hviews,?_,hd.past,rfl,Or.inl rfl⟩
  intro v hv
  have hc := hd.closed (by simpa using hv)
  obtain ⟨nano,hid,hbirth⟩ := hc.named
  exact ⟨hc.full,hc.length,⟨nano,hid,by rw [hl.births]; exact hbirth⟩,
    by rw [hl.config,hl.disk]; exact hc.file⟩

theorem LoadFrame.keeps {r' : TimelineRef} (hf : LoadFrame r h t) (he : r' ≠ r) : Keeps r' h t :=
  ⟨⟨hf.config,by rw [hf.births],hf.others r' he,fun _ => by rw [hf.disk]⟩,by rw [hf.disk]⟩

theorem Shelved.ready (hs : Shelved k past cur stale h) (hr : r.Plain)
    (hreads : ∀ n, env.readFault n = false) (hm : Ready env r h t) :
    Shelved k past cur (fun r' => stale r' ∨ r' = r) t := by
  have hf := hm.loadFrame
  refine hs.focus (fun r' he _ => hf.keeps he) (by rw [hf.config]; exact hs.size) ?_
    (fun _ _ => rfl) (fun r' _ hns hst => hns (Or.inl hst)) hm.found ?_
      (fun hns => (hns (Or.inr rfl)).elim)
  · intro r' nano hp hb
    rw [hf.births] at hb
    rw [hf.config,hf.disk]
    exact hs.unborn r' nano hp hb
  · rcases hm with ⟨hfound,rfl⟩ | ⟨hn,hl⟩
    · exact (hs.present r hr hfound).1
    · obtain ⟨hcur,hd⟩ := hs.absent r hr hn
      rw [hcur]
      exact ⟨_,_,_,(hd.loaded hreads hl).2⟩

theorem Grown.named {init : List BlockView} {b : BlockView} {n : Int} (g : Grown n r msg init b h t)
    (hn : ∀ v ∈ h.views r, Named r h v.id) : Named r t b.id := by
  rcases g.origin with ⟨nano,-,-,rfl,hb⟩ | ⟨hv,-,hb⟩
  · exact ⟨nano,rfl,by simp [hb]⟩
  · obtain ⟨nano,hid,hbirth⟩ := hn b (by simp [hv])
    exact ⟨nano,hid,by rw [hb]; exact hbirth⟩

theorem Cut.named {old new rest : List BlockView} {past cur : List Message}
    (hc : Cut k r past cur h old new rest) {v : BlockView} (hv : v ∈ h.views r) :
    Named r h v.id := by
  rw [hc.views] at hv
  rcases List.mem_append.mp hv with hv | hv
  · exact (hc.closed v hv).named
  · rcases hc.rest with rfl | ⟨b,rfl,hb,-⟩
    · cases hv
    · rw [List.mem_singleton] at hv
      exact hv ▸ hb.named

/-- The block that takes the next message: the open one, or a new one when there
is none. Its file is not there yet. -/
theorem Cut.target {old new rest init : List BlockView} {past cur : List Message} {b : BlockView}
    {n : Int} (hc : Cut k r past cur h old new rest) (g : Grown n r msg init b h t) (hk : 1 ≤ k)
    (unborn : ∀ nano, (r,nano) ∉ h.births →
      h.disk (getTimelineBlockFilePath h.store.config (r.blockID nano)) = none)
    (hnodup : t.births.Nodup) :
    init = old ++ new ∧ rest.flatMap (·.messages) = b.messages ∧ b.full = false ∧
      b.size = b.messages.length ∧ b.messages.length < k ∧
      h.disk (getTimelineBlockFilePath h.store.config b.id) = none := by
  rcases g.origin with ⟨nano,hneeds,hinit,rfl,hb⟩ | ⟨hviews,hfull,-⟩
  · rcases hc.rest with rfl | ⟨b',-,-,hn⟩
    · rw [hb,List.nodup_append] at hnodup
      have hfresh : (r,nano) ∉ h.births := fun hmem => hnodup.2.2 _ hmem _ (by simp) rfl
      refine ⟨?_,rfl,rfl,rfl,hk,unborn nano hfresh⟩
      rw [← hinit,hc.views,List.append_nil]
    · rw [hneeds] at hn
      cases hn
  · rcases hc.rest with rfl | ⟨b',rfl,hb',-⟩
    · -- a last block that is full would not have been used
      have hmem : b ∈ old ++ new := by
        have hv := hc.views
        rw [List.append_nil] at hv
        rw [← hv,hviews]
        simp
      rw [(hc.closed b hmem).full] at hfull
      cases hfull
    · obtain ⟨hinit,hbb⟩ := List.append_inj' (hviews.symm.trans hc.views) rfl
      cases hbb
      exact ⟨hinit,by simp,hb'.full,hb'.size,hb'.room,hb'.file⟩

/-- The message goes into the open block; if that fills it, it is closed. -/
theorem Cut.added {old new rest init : List BlockView} {past cur : List Message} {b : BlockView}
    (hc : Cut k r past cur h old new rest) (ha : Added r msg init b h t) (hk : 1 ≤ k)
    (hsize : h.store.config.timelineMaxSize = k)
    (unborn : ∀ nano, (r,nano) ∉ h.births →
      h.disk (getTimelineBlockFilePath h.store.config (r.blockID nano)) = none)
    (hnodup : t.births.Nodup) :
    ∃ new' rest', Cut k r past (cur ++ [msg]) t old new' rest' := by
  have g := ha.toGrown
  obtain ⟨rfl,hrest,hbfull,hbsize,hroom,hfile⟩ := hc.target g hk unborn hnodup
  have hbnamed : Named r t b.id := g.named fun v hv => hc.named hv
  have hcur : cur = new.flatMap (·.messages) ++ b.messages := by rw [← hc.cur,hrest]
  have hclosed : ∀ v ∈ old ++ new, ClosedBlock k r t v := by
    intro v hv
    have hcv := hc.closed v hv
    obtain ⟨nano,hid,hbirth⟩ := hcv.named
    have hne : getTimelineBlockFilePath h.store.config v.id ≠
        getTimelineBlockFilePath h.store.config b.id := by
      intro heq
      rw [← heq,hcv.file] at hfile
      cases hfile
    exact ⟨hcv.full,hcv.length,⟨nano,hid,g.births_grow.subset hbirth⟩,
      by rw [g.config,ha.disk,diskAfter_of_ne hne,hcv.file]⟩
  have hpush := g.views
  rw [hsize] at hpush
  by_cases hfill : k ≤ b.messages.length+1
  · refine ⟨new ++ [b.push k msg],[],by rw [hpush]; simp,?_,hc.past,?_,Or.inl rfl⟩
    · intro v hv
      rw [← List.append_assoc,List.mem_append,List.mem_singleton] at hv
      rcases hv with hv | rfl
      · exact hclosed v hv
      · refine ⟨?_,?_,hbnamed,?_⟩
        · simp only [BlockView.push,Bool.or_eq_true,decide_eq_true_eq]
          omega
        · simp only [BlockView.push,List.length_append,List.length_singleton]
          omega
        · have hle : h.store.config.timelineMaxSize ≤ b.size+1 := by omega
          rw [g.config,ha.disk,diskAfter,if_pos hle]
          exact Function.update_self ..
    · simp [hcur,BlockView.push]
  · have hnot : (b.push k msg).full = false := by
      simp only [BlockView.push,hbfull,Bool.false_or,decide_eq_false_iff_not]
      omega
    refine ⟨new,[b.push k msg],hpush,hclosed,hc.past,by simp [hcur,BlockView.push],
      Or.inr ⟨_,rfl,⟨hnot,?_,?_,hbnamed,?_⟩,?_⟩⟩
    · simp [BlockView.push,hbsize]
    · simp only [BlockView.push,List.length_append,List.length_singleton]
      omega
    · have hle : ¬ h.store.config.timelineMaxSize ≤ b.size+1 := by omega
      rw [g.config,ha.disk,diskAfter,if_neg hle]
      exact hfile
    · rw [g.needsBlock,hsize]
      exact hnot

/-- Only the file of the block that took the message can have changed. -/
theorem Added.disk_of_ne {init : List BlockView} {b : BlockView} (ha : Added r msg init b h t)
    {p : Path} (hp : p ≠ getTimelineBlockFilePath h.store.config b.id) : t.disk p = h.disk p := by
  rw [ha.disk,diskAfter_of_ne hp]

theorem Shelved.named (hs : Shelved k past cur stale h) (hr : r.Plain)
    (hf : (h.store.find r).isSome) {v : BlockView} (hv : v ∈ h.views r) : Named r h v.id := by
  obtain ⟨old,new,rest,hc⟩ := (hs.present r hr hf).1
  exact hc.named hv

theorem Shelved.added {init : List BlockView} {b : BlockView} (hs : Shelved k past cur stale h)
    (hk : 1 ≤ k) (hr : r.Plain) (hf : (h.store.find r).isSome) (hstale : stale r)
    (ha : Added r msg init b h t) (hnodup : t.births.Nodup) :
    Shelved k past (Function.update cur r (cur r ++ [msg])) stale t := by
  have g := ha.toGrown
  obtain ⟨nano,hid,hbirth⟩ := g.named fun v hv => hs.named hr hf hv
  obtain ⟨⟨old,new,rest,hc⟩,-⟩ := hs.present r hr hf
  refine hs.focus ?_ (by rw [g.config]; exact hs.size) ?_
    (fun r' he => Function.update_of_ne he _ _)
    (fun _ _ hns => hns) g.found ?_ (fun hns => (hns hstale).elim)
  · intro r' he hp
    refine ⟨⟨g.config,g.births_grow,g.others r' he,fun n => ?_⟩,?_⟩
    · exact ha.disk_of_ne fun heq => he (blockFilePath_injective hp hr (hid ▸ heq)).1
    · exact ha.disk_of_ne (hid ▸ metaFilePath_ne_blockFilePath hp hr)
  · intro r' n hp hb
    rw [g.config,ha.disk_of_ne]
    · exact hs.unborn r' n hp fun hmem => hb (g.births_grow.subset hmem)
    · intro heq
      obtain ⟨rfl,rfl⟩ := blockFilePath_injective hp hr (hid ▸ heq)
      exact hb hbirth
  · rw [Function.update_self]
    exact ⟨old,hc.added ha hk hs.size (fun n => hs.unborn r n hr) hnodup⟩

/-- A saved metadata file brings its timeline up to date. -/
theorem Shelved.withMeta (hs : Shelved k past cur stale h) (hr : r.Plain)
    (hf : (h.store.find r).isSome) :
    Shelved k past cur (fun r' => stale r' ∧ r' ≠ r)
      (h.withFile (getTimelineMetaFilePath h.store.config r)
        (.json ⟨r.id,r.type,(h.timeline r).lastSeqID,(h.timeline r).blocks.map (·.blockID)⟩)) := by
  refine hs.focus (fun r' he hp => Keeps.withMeta hr hp he _) hs.size ?_ (fun _ _ => rfl)
    (fun r' he hns hst => hns ⟨hst,he⟩) hf ?_ ?_
  · intro r' nano hp hb
    exact ((KeepsBlocks.withMeta hr hp _).blockFile nano).trans (hs.unborn r' nano hp hb)
  · obtain ⟨⟨old,new,rest,hc⟩,-⟩ := hs.present r hr hf
    exact ⟨old,new,rest,(KeepsBlocks.withMeta hr hr _).cut hc⟩
  · intro _
    refine ⟨_,Function.update_self ..,?_⟩
    simp [Host.views,Host.timeline,TimelineBlock.view]

theorem Shelved.mono (hs : Shelved k past cur stale h) (hcur : ∀ r, cur' r = cur r)
    (hstale : ∀ r, stale r → stale' r) : Shelved k past cur' stale' h := by
  have he : cur' = cur := funext hcur
  subst he
  refine ⟨hs.size,hs.unborn,hs.absent,fun r hp hf => ?_⟩
  obtain ⟨hc,hl⟩ := hs.present r hp hf
  exact ⟨hc,fun hns => hl fun hst => hns (hstale r hst)⟩

/-- The call has handled the timelines `known`. That no two blocks were born
alike is only known at the end, so it is a premise here. -/
structure Underway (dir : String) (k : Nat) (past cur : TimelineRef → List Message)
    (stale : TimelineRef → Prop) (known : List TimelineRef) (t : Host) : Prop where
  dir : t.store.config.dataDir = dir
  pointed : t.Pointed
  seq : 0 ≤ t.store.seqGenerator
  found : ∀ r ∈ known, (t.store.find r).isSome
  shelved : t.births.Nodup → Shelved k past cur stale t

theorem Ready.found_of {m : Host} (hm : Ready env r h m) {r' : TimelineRef}
    (hf : (h.store.find r').isSome) : (m.store.find r').isSome := by
  by_cases he : r' = r
  · exact he ▸ hm.found
  · rw [hm.loadFrame.others r' he]
    exact hf

theorem Underway.delivered {done : List TimelineRef} {m : Host}
    {init : List BlockView} {b : BlockView}
    (hu : Underway dir k past (fun r => cur r ++ List.replicate (done.count r) msg)
      (· ∈ done) done h)
    (hk : 1 ≤ k) (hr : r.Plain) (hreads : ∀ n, env.readFault n = false) (hm : Ready env r h m)
    (ha : Added r msg init b m t) :
    Underway dir k past (fun r' => cur r' ++ List.replicate ((done ++ [r]).count r') msg)
      (· ∈ done ++ [r]) (done ++ [r]) t := by
  have g := ha.toGrown
  refine ⟨?_,g.allPointed (hm.pointed hu.pointed),?_,?_,?_⟩
  · rw [g.config,hm.loadFrame.config]
    exact hu.dir
  · rw [g.generator]
    exact Int.le_trans hu.seq hm.loadFrame.seq
  · intro r' hr'
    by_cases he : r' = r
    · exact he ▸ g.found
    · rw [g.others r' he]
      exact hm.found_of (hu.found r' (by simpa [he] using hr'))
  · intro hnodup
    have hmb : m.births.Nodup := hnodup.sublist g.births_grow.sublist
    have hsm := (hu.shelved (hm.loadFrame.births ▸ hmb)).ready hr hreads hm
    refine (hsm.added hk hr hm.found (Or.inr rfl) ha hnodup).mono ?_ (fun r' => by simp)
    intro r'
    by_cases he : r' = r
    · subst he
      simp [List.replicate_add,List.append_assoc]
    · rw [Function.update_of_ne he,count_concat_of_ne he]

theorem wp_deliverAll_underway (env : Env) (msg : Message) (ts : List TimelineRef) (hk : 1 ≤ k)
    (hp : ∀ r ∈ ts, r.Plain) (hreads : ∀ n, env.readFault n = false)
    (hdir : h.store.config.dataDir = dir) (hpt : h.Pointed) (hseq : 0 ≤ h.store.seqGenerator)
    (hs : h.births.Nodup → Shelved k past cur (fun _ => False) h) :
    wp (forM ts (deliver env msg))
      (fun _ t => Underway dir k past (fun r => cur r ++ List.replicate (ts.count r) msg)
        (· ∈ ts) ts t)
      (fun _ _ => True) h := by
  refine wp_forM ts (I := fun done t => Underway dir k past
    (fun r => cur r ++ List.replicate (done.count r) msg) (· ∈ done) done t)
    ⟨hdir,hpt,hseq,by simp,fun hn => (hs hn).mono (by simp) (by simp)⟩ ?_
  intro done r rest t hts hu
  refine wp_mono (wp_deliver env msg r hu.pointed) ?_ (fun _ _ _ => trivial)
  rintro _ u ⟨m,hm,init,b,ha⟩
  exact hu.delivered hk (hp r (by simp [hts])) hreads hm ha

theorem wp_saveMetadata_underway (env : Env) {known : List TimelineRef}
    (hu : Underway dir k past cur stale known h) (hr : r.Plain) (hf : r ∈ known) :
    wp (saveTimelineMetadata env r)
      (fun _ t => Underway dir k past cur (fun r' => stale r' ∧ r' ≠ r) known t)
      (fun _ _ => True) h := by
  refine wp_mono (wp_saveTimelineMetadata env r h) ?_ (fun _ _ _ => trivial)
  rintro _ t rfl
  exact ⟨hu.dir,hu.pointed,hu.seq,hu.found,fun hn => (hu.shelved hn).withMeta hr (hu.found r hf)⟩

theorem wp_saveAll_underway (env : Env) {known : List TimelineRef}
    (hu : Underway dir k past cur stale known h) (ts : List TimelineRef) (hp : ∀ r ∈ ts, r.Plain)
    (hts : ∀ r ∈ ts, r ∈ known) :
    wp (forM ts (saveOne env))
      (fun _ t => Underway dir k past cur (fun r => stale r ∧ r ∉ ts) known t)
        (fun _ _ => True) h := by
  refine wp_forM ts (I := fun done t =>
    Underway dir k past cur (fun r => stale r ∧ r ∉ done) known t)
    ⟨hu.dir,hu.pointed,hu.seq,hu.found,fun hn => (hu.shelved hn).mono (fun _ => rfl) (by simp)⟩ ?_
  intro done r rest t hsplit ht
  have hmem : r ∈ ts := by simp [hsplit]
  have hf := ht.found r (hts r hmem)
  simp only [saveOne,wp_bind]
  refine wp_mono (wp_getOrCreateTimeline env r t) ?_ (fun _ _ _ => trivial)
  rintro _ m (⟨-,rfl⟩ | ⟨hn,-⟩)
  · refine wp_mono (wp_saveMetadata_underway env ht (hp r hmem) (hts r hmem)) ?_ (fun _ _ he => he)
    rintro _ u hu'
    exact ⟨hu'.dir,hu'.pointed,hu'.seq,hu'.found,fun hn => (hu'.shelved hn).mono (fun _ => rfl)
      (fun r' => by rintro ⟨⟨hs,hd⟩,hne⟩; simp [hs,hd,hne])⟩
  · simp [hn] at hf

theorem Shelved.drawn (hs : Shelved k past cur stale h) : Shelved k past cur stale h.drawn := by
  have keep : ∀ r, Keeps r h h.drawn := fun r => ⟨⟨rfl,List.prefix_rfl,rfl,fun _ => rfl⟩,rfl⟩
  refine ⟨hs.size,hs.unborn,?_,?_⟩
  · intro r hp hn
    obtain ⟨hcur,hd⟩ := hs.absent r hp hn
    exact ⟨hcur,(keep r).onDisk hd⟩
  · intro r hp hf
    obtain ⟨⟨old,new,rest,hc⟩,hl⟩ := hs.present r hp hf
    exact ⟨⟨old,new,rest,(keep r).cut hc⟩,fun hns => (keep r).listed (hl hns)⟩

theorem wp_send_shelved (env : Env) (s : SendCall) (hk : 1 ≤ k) (hp : s.Plain)
    (hreads : ∀ n, env.readFault n = false)
    (hu : Underway dir k past cur (fun _ => False) [] h) :
    wp (s.run env)
      (fun _ t => Underway dir k past
        (fun r => cur r ++ List.replicate (s.targets.count r) (s.message env h))
          (fun _ => False) [] t)
      (fun _ _ => True) h := by
  rw [wp_send]
  have hseq' : 0 ≤ h.drawn.store.seqGenerator := by
    have := hu.seq
    rw [Host.drawn_store_seqGenerator]
    omega
  refine wp_mono (wp_deliverAll_underway env _ s.targets hk hp hreads hu.dir hu.pointed hseq'
    fun hn => (hu.shelved hn).drawn) ?_ (fun _ _ he => he)
  intro _ t ht
  have hconv : s.conv ∈ s.targets := by simp [SendCall.targets]
  refine wp_mono (wp_saveMetadata_underway env ht (hp _ hconv) hconv) ?_ (fun _ _ he => he)
  intro _ u hu
  have husers : ∀ r ∈ s.users, r ∈ s.targets := fun r hr => by simp [SendCall.targets,hr]
  refine wp_mono (wp_saveAll_underway env hu s.users (fun r hr => hp r (husers r hr)) husers) ?_
    (fun _ _ he => he)
  intro _ v hv
  refine ⟨hv.dir,hv.pointed,hv.seq,by simp,fun hn => (hv.shelved hn).mono (fun _ => rfl) ?_⟩
  rintro r ⟨⟨hmem,hne⟩,hnot⟩
  rcases List.mem_cons.mp hmem with hc | hc
  · exact hne hc
  · exact hnot hc

theorem metaFilePath_congr {c c' : StoreConfig} (h : c'.dataDir = c.dataDir) :
    getTimelineMetaFilePath c' = getTimelineMetaFilePath c := by
  funext r
  simp only [getTimelineMetaFilePath,h]

theorem blockFilePath_congr {c c' : StoreConfig} (h : c'.dataDir = c.dataDir) :
    getTimelineBlockFilePath c' = getTimelineBlockFilePath c := by
  funext id
  simp only [getTimelineBlockFilePath,h]

theorem OnDisk.reopen {past : List Message} (hd : OnDisk k r past h) (hdisk : t.disk = h.disk)
    (hbirths : t.births = h.births)
    (hdir : t.store.config.dataDir = h.store.config.dataDir) : OnDisk k r past t := by
  have hmeta := metaFilePath_congr hdir
  have hblock := blockFilePath_congr hdir
  have hids : savedIDs t.store.config t.disk r = savedIDs h.store.config h.disk r := by
    simp only [savedIDs,savedMetadata,hmeta,hdisk]
  have himage : t.image r = h.image r := by
    unfold Host.image
    rw [hids]
    refine List.filterMap_congr fun id _ => ?_
    simp only [savedView,hblock,hdisk]
  refine ⟨?_,?_,by rw [himage]; exact hd.length,by rw [himage]; exact hd.past⟩
  · simpa only [LegibleMetadata,hmeta,hdisk] using hd.metadata
  · rw [hids]
    simpa only [Named,hbirths,LegibleBlock,hblock,hdisk] using hd.ids

theorem Shelved.onDisk (hs : Shelved k past cur (fun _ => False) h) (hk : 1 ≤ k) (hr : r.Plain) :
    OnDisk k r (past r ++ fullPrefix k (cur r)) h := by
  cases hf : h.store.find r with
  | none =>
    obtain ⟨hcur,hd⟩ := hs.absent r hr hf
    simpa [hcur] using hd
  | some tl =>
    obtain ⟨⟨old,new,rest,hc⟩,hl⟩ := hs.present r hr (by simp [hf])
    exact hc.onDisk hk (hl id)

theorem Shelved.restart (hs : Shelved k past cur (fun _ => False) h) (hk : 1 ≤ k)
    {c : StoreConfig} (ho : newStore env c h.disk h.tick h.births = .ok t)
    (hdir : c.dataDir = h.store.config.dataDir) (hsize : c.timelineMaxSize = k) :
    Shelved k (fun r => past r ++ fullPrefix k (cur r)) (fun _ => []) (fun _ => False) t := by
  obtain ⟨hc,hf,hd,hb,-⟩ := newStore_ok ho
  have hdir' : t.store.config.dataDir = h.store.config.dataDir := by rw [hc,hdir]
  refine ⟨by rw [hc,hsize],?_,?_,?_⟩
  · intro r nano hp hn
    rw [hd,blockFilePath_congr hdir']
    exact hs.unborn r nano hp (hb ▸ hn)
  · intro r hp _
    exact ⟨rfl,(hs.onDisk hk hp).reopen hd hb hdir'⟩
  · intro r _ hfound
    rw [hf r] at hfound
    cases hfound

theorem Shelved.newStore {c : StoreConfig} {disk : Path → Option FileData} {tick : Nat}
    (ho : newStore env c disk tick [] = .ok h) (he : EmptyDir c disk)
    (hsize : c.timelineMaxSize = k) :
    Shelved k (fun _ => []) (fun _ => []) (fun _ => False) h := by
  obtain ⟨hc,hf,hd,hb,-⟩ := newStore_ok ho
  refine ⟨by rw [hc,hsize],?_,?_,?_⟩
  · intro r nano hp _
    rw [hd,hc,getTimelineBlockFilePath_eq]
    exact he _ (blockName_plain hp nano)
  · intro r hp _
    have hnone : h.disk (getTimelineMetaFilePath h.store.config r) = none := by
      rw [hd,hc,getTimelineMetaFilePath_eq]
      exact he _ (metaName_plain hp)
    have hids : savedIDs h.store.config h.disk r = [] := by simp [savedIDs,savedMetadata,hnone]
    refine ⟨rfl,?_,by simp [hids],by simp [Host.image,hids],by simp [Host.image,hids]⟩
    intro d hdisk
    rw [hnone] at hdisk
    cases hdisk
  · intro r _ hfound
    rw [hf r] at hfound
    cases hfound

end Shelved

end Imy.Storage
