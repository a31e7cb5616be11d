import Imy.Lib.TopicLog
import Imy.Storage.FileNames
import Imy.Storage.TimelineAppend
set_option autoImplicit false

namespace Imy.Storage
open Imy.Lib

/-- The arguments of one `AddMessage`. -/
structure SendCall where
  convID : String
  senderID : UInt32
  data : List UInt8
  userIDs : List String
  deriving DecidableEq, Repr

def SendCall.run (env : Env) (c : SendCall) : StoreM Unit :=
  Store.addMessage env c.convID c.senderID c.data c.userIDs

def SendCall.conv (c : SendCall) : TimelineRef := ⟨.conv,c.convID⟩

def SendCall.users (c : SendCall) : List TimelineRef := c.userIDs.map (TimelineRef.mk .user)

/-- The timelines a call appends to, in the order it does. -/
def SendCall.targets (c : SendCall) : List TimelineRef := c.conv :: c.users

def SendCall.Plain (c : SendCall) : Prop := ∀ r ∈ c.targets, r.Plain

instance (c : SendCall) : Decidable c.Plain :=
  inferInstanceAs (Decidable (∀ r ∈ c.targets, r.Plain))

/-- The message a call builds from the state it starts in. -/
def SendCall.message (env : Env) (c : SendCall) (h : Host) : Message :=
  ⟨h.store.seqGenerator+1,c.convID,c.senderID,env.clock h.tick,c.data⟩

@[simps -fullyApplied] def Host.drawn (h : Host) : Host :=
  { h with store := { h.store with seqGenerator := h.store.seqGenerator+1 }, tick := h.tick+1 }

@[simp] theorem Host.drawn_find (h : Host) (r : TimelineRef) :
    h.drawn.store.find r = h.store.find r := rfl

@[simp] theorem Host.drawn_views (h : Host) (r : TimelineRef) : h.drawn.views r = h.views r := by
  simp only [Host.views,Host.timeline,Host.drawn_find]

@[simp] theorem Host.drawn_messages (h : Host) (r : TimelineRef) :
    h.drawn.messages r = h.messages r := by
  simp only [Host.messages_eq_views,Host.drawn_views]

/-- A call in its parts: the number is drawn, the message goes to the targets in
order, then the metadata is saved for the same ones. -/
theorem wp_send (env : Env) (c : SendCall) (Q : Unit → Host → Prop)
    (E : StoreError → Host → Prop) (h : Host) :
    wp (c.run env) Q E h =
      wp (forM c.targets (deliver env (c.message env h)))
        (fun _ t => wp (saveTimelineMetadata env c.conv)
          (fun _ u => wp (forM c.users (saveOne env)) Q E u) E t) E h.drawn := by
  rw [SendCall.targets,List.forM_cons]
  simp only [SendCall.run,Store.addMessage,wp_bind]
  rfl

theorem SendCall.count_conv (c : SendCall) (convID : String) :
    c.targets.count ⟨.conv,convID⟩ = if c.convID = convID then 1 else 0 := by
  have hu : c.users.count ⟨.conv,convID⟩ = 0 := by
    simp [SendCall.users,List.count_eq_zero]
  rw [SendCall.targets,List.count_cons,hu]
  by_cases h : c.convID = convID <;> simp [SendCall.conv,h]

theorem SendCall.count_user (c : SendCall) (userID : String) :
    c.targets.count ⟨.user,userID⟩ = c.userIDs.count userID := by
  have hi : Function.Injective (TimelineRef.mk .user) := by
    intro a b h
    simpa using h
  rw [SendCall.targets,List.count_cons,SendCall.users,List.count_map_of_injective _ _ hi]
  simp [SendCall.conv]

/-- A store that was opened on an empty directory and only ever saw plain IDs:
no metadata file can be there for a timeline it has not created yet. -/
structure Tidy (c : StoreConfig) (h : Host) : Prop where
  config : h.store.config = c
  pointed : h.Pointed
  named : ∀ r, ∀ v ∈ h.views r, ∃ nano, v.id = r.blockID nano
  known : ∀ r, (h.store.find r).isSome → r.Plain
  unseen : ∀ r, r.Plain → h.store.find r = none → h.disk (getTimelineMetaFilePath c r) = none

theorem Host.views_of_find_none {h : Host} {r : TimelineRef} (hf : h.store.find r = none) :
    h.views r = [] := by simp [Host.views,Host.timeline,hf,Timeline.fresh]

/-- Nothing is on disk for a new timeline, so it starts empty. -/
theorem Tidy.ready_views {c : StoreConfig} {h m : Host} {env : Env} {r : TimelineRef}
    (ht : Tidy c h) (hr : r.Plain) (hm : Ready env r h m) (r' : TimelineRef) :
    m.views r' = h.views r' := by
  rcases hm with ⟨-,rfl⟩ | ⟨hf,hl⟩
  · rfl
  · by_cases he : r' = r
    · subst he
      have hd : savedIDs h.store.config h.disk r' = [] := by
        simp [savedIDs,savedMetadata,ht.config,ht.unseen r' hr hf]
      obtain ⟨ids,hpre,hb,-⟩ := hl.blocks
      rw [hd,List.prefix_nil] at hpre
      rw [Host.views_of_find_none hf]
      simp [Host.views,hb,hpre]
    · simp only [Host.views,hl.toFrame.timeline he]

theorem Tidy.ready_generator {c : StoreConfig} {h m : Host} {env : Env} {r : TimelineRef}
    (ht : Tidy c h) (hr : r.Plain) (hm : Ready env r h m) :
    m.store.seqGenerator = h.store.seqGenerator := by
  rcases hm with ⟨-,rfl⟩ | ⟨hf,hl⟩
  · rfl
  · rcases hl.generator with hg | ⟨md,hmd,-,-⟩
    · exact hg
    · simp [savedMetadata,ht.config,ht.unseen r hr hf] at hmd

theorem Tidy.ready {c : StoreConfig} {h m : Host} {env : Env} {r : TimelineRef}
    (ht : Tidy c h) (hr : r.Plain) (hm : Ready env r h m) : Tidy c m := by
  have hf := hm.loadFrame
  refine ⟨hf.config.trans ht.config,hm.pointed ht.pointed,?_,?_,?_⟩
  · intro r' v hv
    rw [ht.ready_views hr hm r'] at hv
    exact ht.named r' v hv
  · intro r' hk
    by_cases he : r' = r
    · exact he ▸ hr
    · exact ht.known r' (hf.others r' he ▸ hk)
  · intro r' hp hn
    rw [hf.disk]
    by_cases he : r' = r
    · subst he
      have := hm.found
      simp [hn] at this
    · exact ht.unseen r' hp (hf.others r' he ▸ hn)

/-- The block that takes the message is named after its timeline. -/
theorem Tidy.grown_name {c : StoreConfig} {k : Int} {r : TimelineRef} {msg : Message}
    {init : List BlockView} {b : BlockView} {h t : Host} (ht : Tidy c h)
    (g : Grown k r msg init b h t) : ∃ nano, b.id = r.blockID nano := by
  rcases g.origin with ⟨nano,-,-,hb,-⟩ | ⟨hv,-,-⟩
  · exact ⟨nano,by rw [hb]⟩
  · exact ht.named r b (by simp [hv])

theorem Tidy.grown {c : StoreConfig} {k : Int} {r : TimelineRef} {msg : Message}
    {init : List BlockView} {b : BlockView} {h t : Host} (ht : Tidy c h) (hr : r.Plain)
    (g : Grown k r msg init b h t)
    (hd : ∀ p, p ≠ getTimelineBlockFilePath c b.id → t.disk p = h.disk p) : Tidy c t := by
  obtain ⟨nano,hb⟩ := ht.grown_name g
  refine ⟨g.config.trans ht.config,g.allPointed ht.pointed,?_,?_,?_⟩
  · intro r' v hv
    by_cases he : r' = r
    · subst he
      rw [g.views,List.mem_append,List.mem_singleton] at hv
      rcases hv with hv | rfl
      · rcases g.origin with ⟨-,-,ho,-,-⟩ | ⟨ho,-,-⟩
        · exact ht.named r' v (by simpa [ho] using hv)
        · exact ht.named r' v (by simp [ho,hv])
      · exact ⟨nano,hb⟩
    · simp only [Host.views,g.toFrame.timeline he] at hv
      exact ht.named r' v hv
  · intro r' hk
    by_cases he : r' = r
    · exact he ▸ hr
    · exact ht.known r' (g.others r' he ▸ hk)
  · intro r' hp hn
    by_cases he : r' = r
    · subst he
      have := g.found
      simp [hn] at this
    · rw [hd _ (hb ▸ metaFilePath_ne_blockFilePath hp hr)]
      exact ht.unseen r' hp (g.others r' he ▸ hn)

theorem diskAfter_of_ne {c : StoreConfig} {msg : Message} {b : BlockView}
    {disk : Path → Option FileData} {p : Path} (hp : p ≠ getTimelineBlockFilePath c b.id) :
    diskAfter c msg b disk p = disk p := by
  unfold diskAfter
  split
  · rw [Function.update_of_ne hp]
  · rfl

theorem Halted.disk_of_ne {r : TimelineRef} {msg : Message} {init : List BlockView} {b : BlockView}
    {h t : Host} (hh : Halted r msg init b h t) {p : Path}
    (hp : p ≠ getTimelineBlockFilePath h.store.config b.id) : t.disk p = h.disk p := by
  rcases hh.disk with hd | ⟨n,torn,hd⟩
  · rw [hd]
  · rw [hd,Function.update_of_ne hp]

theorem Tidy.withMeta {c : StoreConfig} {h : Host} (ht : Tidy c h) {r : TimelineRef}
    (hf : (h.store.find r).isSome) (d : FileData) :
    Tidy c (h.withFile (getTimelineMetaFilePath c r) d) := by
  refine ⟨ht.config,ht.pointed,ht.named,ht.known,?_⟩
  intro r' hp hn
  have he : r' ≠ r := by
    rintro rfl
    simp only [Host.withFile_store] at hn
    simp [hn] at hf
  rw [Host.withFile_disk,Function.update_of_ne]
  · exact ht.unseen r' hp hn
  · exact fun heq => he (metaFilePath_injective hp (ht.known r hf) heq)

theorem Tidy.advance {c : StoreConfig} {h : Host} (ht : Tidy c h) : Tidy c h.advance :=
  ⟨ht.config,ht.pointed,ht.named,ht.known,ht.unseen⟩

theorem Tidy.drawn {c : StoreConfig} {h : Host} (ht : Tidy c h) : Tidy c h.drawn :=
  ⟨ht.config,ht.pointed,ht.named,ht.known,ht.unseen⟩

/-- The message has gone to the timelines `done`, once for every mention. -/
structure Delivered (c : StoreConfig) (msg : Message) (done : List TimelineRef) (h t : Host) :
    Prop where
  tidy : Tidy c t
  messages : ∀ r, t.messages r = h.messages r ++ List.replicate (done.count r) msg
  generator : t.store.seqGenerator = h.store.seqGenerator
  checkpoints : t.store.userCheckpoints = h.store.userCheckpoints
  found : ∀ r ∈ done, (t.store.find r).isSome

theorem Delivered.refl {c : StoreConfig} {h : Host} (ht : Tidy c h) (msg : Message) :
    Delivered c msg [] h h :=
  ⟨ht,fun _ => by simp,rfl,rfl,by simp⟩

/-- A timeline that was only made ready changes nothing that is recorded. -/
theorem Delivered.ready {c : StoreConfig} {msg : Message} {done : List TimelineRef} {h t m : Host}
    {env : Env} {r : TimelineRef} (hd : Delivered c msg done h t) (hr : r.Plain)
    (hm : Ready env r t m) : Delivered c msg done h m := by
  have hf := hm.loadFrame
  refine ⟨hd.tidy.ready hr hm,?_,?_,hf.checkpoints.trans hd.checkpoints,?_⟩
  · intro r'
    rw [Host.messages_eq_views,hd.tidy.ready_views hr hm r',← Host.messages_eq_views]
    exact hd.messages r'
  · rw [hd.tidy.ready_generator hr hm]
    exact hd.generator
  · intro r' hr'
    by_cases he : r' = r
    · exact he ▸ hm.found
    · rw [hf.others r' he]
      exact hd.found r' hr'

theorem Delivered.grown {c : StoreConfig} {k : Int} {msg : Message} {done : List TimelineRef}
    {h m t : Host} {r : TimelineRef} {init : List BlockView} {b : BlockView}
    (hd : Delivered c msg done h m) (hr : r.Plain) (g : Grown k r msg init b m t)
    (hdisk : ∀ p, p ≠ getTimelineBlockFilePath c b.id → t.disk p = m.disk p) :
    Delivered c msg (done ++ [r]) h t := by
  refine ⟨hd.tidy.grown hr g hdisk,?_,g.generator.trans hd.generator,
    g.checkpoints.trans hd.checkpoints,?_⟩
  · intro r'
    by_cases he : r' = r
    · subst he
      rw [g.messages,hd.messages r',List.append_assoc]
      simp [List.replicate_add]
    · rw [count_concat_of_ne he,← hd.messages r']
      simp only [Host.messages,g.toFrame.timeline he]
  · intro r' hr'
    by_cases he : r' = r
    · exact he ▸ g.found
    · rw [g.others r' he]
      exact hd.found r' (by simpa [he] using hr')

/-- The delivery loop, finished or stopped at some target. -/
theorem wp_deliverAll (env : Env) (msg : Message) (ts : List TimelineRef)
    {c : StoreConfig} {h : Host} (ht : Tidy c h) (hp : ∀ r ∈ ts, r.Plain) :
    wp (forM ts (deliver env msg)) (fun _ t => Delivered c msg ts h t)
      (fun _ t => ∃ done, done <+: ts ∧ Delivered c msg done h t) h := by
  refine wp_forM ts (I := fun done t => Delivered c msg done h t) (Delivered.refl ht msg) ?_
  intro done r rest t hts hd
  have hr := hp r (by simp [hts])
  refine wp_mono (wp_deliver env msg r hd.tidy.pointed) ?_ ?_
  · rintro _ u ⟨m,hm,init,b,ha⟩
    have hdm := hd.ready hr hm
    refine hdm.grown hr ha.toGrown fun p hpne => ?_
    rw [ha.disk,hdm.tidy.config,diskAfter_of_ne hpne]
  · rintro e u ⟨m,hm,⟨-,rfl,-⟩ | ⟨-,init,b,hh⟩⟩
    · -- refused: the targets before this one have the message
      have hdm := hd.ready hr hm
      exact ⟨done,⟨r :: rest,hts.symm⟩,hdm.tidy.advance,hdm.messages,hdm.generator,
        hdm.checkpoints,hdm.found⟩
    · -- the save failed: this target has it too
      have hdm := hd.ready hr hm
      refine ⟨done ++ [r],⟨rest,by simp [hts]⟩,hdm.grown hr hh.toGrown fun p hpne => ?_⟩
      exact hh.disk_of_ne (by rw [hdm.tidy.config]; exact hpne)

/-- Saving metadata, finished or not, leaves what is in memory. -/
theorem Delivered.withMeta {c : StoreConfig} {msg : Message} {done : List TimelineRef} {h t : Host}
    (hd : Delivered c msg done h t) {r : TimelineRef}
    (hf : (t.store.find r).isSome) (d : FileData) :
    Delivered c msg done h (t.withFile (getTimelineMetaFilePath c r) d) :=
  ⟨hd.tidy.withMeta hf d,hd.messages,hd.generator,hd.checkpoints,hd.found⟩

theorem Delivered.advance {c : StoreConfig} {msg : Message} {done : List TimelineRef} {h t : Host}
    (hd : Delivered c msg done h t) : Delivered c msg done h t.advance :=
  ⟨hd.tidy.advance,hd.messages,hd.generator,hd.checkpoints,hd.found⟩

theorem wp_saveMetadata_delivered (env : Env) {c : StoreConfig} {msg : Message}
    {done : List TimelineRef} {h t : Host} (hd : Delivered c msg done h t) {r : TimelineRef}
    (hf : (t.store.find r).isSome) :
    wp (saveTimelineMetadata env r) (fun _ u => Delivered c msg done h u)
      (fun _ u => Delivered c msg done h u) t := by
  refine wp_mono (wp_saveTimelineMetadata env r t) ?_ ?_
  · rintro _ u rfl
    rw [hd.tidy.config]
    exact hd.withMeta hf _
  · rintro e u ⟨-,rfl | rfl⟩
    · exact hd.advance
    · rw [hd.tidy.config]
      exact hd.withMeta hf _

theorem wp_saveAll (env : Env) {c : StoreConfig} {msg : Message} {done : List TimelineRef}
    {h t : Host} (hd : Delivered c msg done h t) (ts : List TimelineRef)
    (hts : ∀ r ∈ ts, r ∈ done) :
    wp (forM ts (saveOne env)) (fun _ u => Delivered c msg done h u)
      (fun _ u => Delivered c msg done h u) t := by
  refine wp_forM ts (I := fun _ u => Delivered c msg done h u) hd ?_
  intro _ r rest u hsplit hu
  have hf := hu.found r (hts r (by simp [hsplit]))
  simp only [saveOne,wp_bind]
  refine wp_mono (wp_getOrCreateTimeline env r u) ?_ (fun _ _ he => he.elim)
  rintro _ m (⟨-,rfl⟩ | ⟨hn,-⟩)
  · exact wp_saveMetadata_delivered env hu hf
  · simp [hn] at hf

/-- One call on a tidy store: all targets get the message or, if it fails, the
first few of them. -/
theorem wp_send_tidy (env : Env) (s : SendCall) {c : StoreConfig} {h : Host} (ht : Tidy c h)
    (hp : s.Plain) :
    wp (s.run env) (fun _ t => Delivered c (s.message env h) s.targets h.drawn t)
      (fun _ t => ∃ done, done <+: s.targets ∧ Delivered c (s.message env h) done h.drawn t) h := by
  rw [wp_send]
  refine wp_mono (wp_deliverAll env _ s.targets ht.drawn hp) ?_ (fun _ _ he => he)
  intro _ t hd
  refine wp_mono (wp_saveMetadata_delivered env hd
    (hd.found s.conv (by simp [SendCall.targets]))) ?_
    (fun _ u hu => ⟨s.targets,List.prefix_rfl,hu⟩)
  intro _ u hu
  exact wp_mono (wp_saveAll env hu s.users 
    fun r hr => by simp [SendCall.targets,hr])
    (fun _ _ hv => hv) (fun _ v hv => ⟨s.targets,List.prefix_rfl,hv⟩)

inductive StoreOp where
  | addMessage (s : SendCall)
  | updateUserCheckpoint (userID : String) (seqID : Int)
  | getConvMessages (convID : String) (limit beforeSeqID : Int)
  | getMessagesAfterCheckpoint (userID : String)
  deriving DecidableEq, Repr

/-- An operation for its effect. Only `AddMessage` can fail. -/
def StoreOp.exec (env : Env) : StoreOp → StoreM Unit
  | .addMessage s => s.run env
  | .updateUserCheckpoint u n => Storage.updateUserCheckpoint u n
  | .getConvMessages c limit before => do
    let _ ← Storage.getConvMessages env c limit before
    pure ()
  | .getMessagesAfterCheckpoint u => do
    let _ ← Storage.getMessagesAfterCheckpoint env u
    pure ()

def StoreOp.Plain : StoreOp → Prop
  | .addMessage s => s.Plain
  | .updateUserCheckpoint _ _ => True
  | .getConvMessages c _ _ => (TimelineRef.mk .conv c).Plain
  | .getMessagesAfterCheckpoint u => (TimelineRef.mk .user u).Plain

instance : DecidablePred StoreOp.Plain
  | .addMessage s => inferInstanceAs (Decidable s.Plain)
  | .updateUserCheckpoint _ _ => inferInstanceAs (Decidable True)
  | .getConvMessages c _ _ => inferInstanceAs (Decidable (TimelineRef.mk .conv c).Plain)
  | .getMessagesAfterCheckpoint u => inferInstanceAs (Decidable (TimelineRef.mk .user u).Plain)

/-- A run in which every call returns nil; it stops at the first that does not. -/
def runOps (env : Env) (ops : List StoreOp) : StoreM Unit := forM ops (StoreOp.exec env)

/-- The `AddMessage` calls of a run, in order. -/
def sends : List StoreOp → List SendCall
  | [] => []
  | .addMessage s :: ops => s :: sends ops
  | _ :: ops => sends ops

theorem sends_append (ops more : List StoreOp) : sends (ops ++ more) = sends ops ++ sends more := by
  induction ops with
  | nil => rfl
  | cons op ops ih => cases op <;> simp [sends,ih]

/-- The checkpoint last set for a user, 0 if none was. -/
def lastCheckpoint (userID : String) (ops : List StoreOp) : Int :=
  ops.foldl (fun last op =>
    match op with
    | .updateUserCheckpoint u n => if u = userID then n else last
    | _ => last) 0

def numbered (calls : List SendCall) (times : List Int) : List Message :=
  (calls.zip times).zipIdx.map fun p => ⟨p.2+1,p.1.1.convID,p.1.1.senderID,p.1.2,p.1.1.data⟩

theorem numbered_concat {calls : List SendCall} {times : List Int}
    (hl : times.length = calls.length) (s : SendCall) (t : Int) :
    numbered (calls ++ [s]) (times ++ [t]) =
      numbered calls times ++ [⟨calls.length+1,s.convID,s.senderID,t,s.data⟩] := by
  simp [numbered,List.zip_append hl.symm,List.zipIdx_append,hl]

theorem numbered_length {calls : List SendCall} {times : List Int}
    (hl : times.length = calls.length) : (numbered calls times).length = calls.length := by
  simp [numbered,hl]

def logOf (calls : List SendCall) (msgs : List Message) : List (Entry TimelineRef Message) :=
  (calls.zip msgs).map fun p => ⟨p.2,p.1.targets⟩

theorem logOf_concat {calls : List SendCall} {msgs : List Message}
    (hl : msgs.length = calls.length) (s : SendCall) (m : Message) :
    logOf (calls ++ [s]) (msgs ++ [m]) = logOf calls msgs ++ [⟨m,s.targets⟩] := by
  simp [logOf,List.zip_append hl.symm]

structure Tracks (c : StoreConfig) (h : Host) (log : List (Entry TimelineRef Message))
    (checkpoint : String → Int) : Prop where
  tidy : Tidy c h
  messages : ∀ r, h.messages r = topicLog log r
  generator : h.store.seqGenerator = log.length
  checkpoints : ∀ u, (h.store.userCheckpoints u).getD 0 = checkpoint u

theorem Tracks.ready {c : StoreConfig} {h m : Host} {log : List (Entry TimelineRef Message)}
    {checkpoint : String → Int} {env : Env} {r : TimelineRef} (ht : Tracks c h log checkpoint)
    (hr : r.Plain) (hm : Ready env r h m) : Tracks c m log checkpoint := by
  refine ⟨ht.tidy.ready hr hm,?_,?_,?_⟩
  · intro r'
    rw [Host.messages_eq_views,ht.tidy.ready_views hr hm r',← Host.messages_eq_views]
    exact ht.messages r'
  · rw [ht.tidy.ready_generator hr hm]
    exact ht.generator
  · rw [hm.loadFrame.checkpoints]
    exact ht.checkpoints

theorem Tracks.delivered {c : StoreConfig} {h t : Host} {log : List (Entry TimelineRef Message)}
    {checkpoint : String → Int} {msg : Message} {ts : List TimelineRef}
    (ht : Tracks c h log checkpoint) (hd : Delivered c msg ts h.drawn t) :
    Tracks c t (log ++ [⟨msg,ts⟩]) checkpoint := by
  refine ⟨hd.tidy,?_,?_,?_⟩
  · intro r
    rw [hd.messages r,Host.drawn_messages,ht.messages r,topicLog_append,topicLog_singleton]
  · rw [hd.generator,Host.drawn_store_seqGenerator,ht.generator]
    simp
  · rw [hd.checkpoints]
    exact ht.checkpoints

/-- Reading the user's timeline gives what is past the checkpoint. -/
theorem wp_getMessagesAfterCheckpoint (env : Env) (u : String) {c : StoreConfig} {h : Host}
    {log : List (Entry TimelineRef Message)} {checkpoint : String → Int}
    (ht : Tracks c h log checkpoint) (hu : (TimelineRef.mk .user u).Plain) :
    wp (getMessagesAfterCheckpoint env u)
      (fun ms t => Tracks c t log checkpoint ∧
        ms = (topicLog log ⟨.user,u⟩).filter fun m => checkpoint u < m.seqID)
      (fun _ _ => False) h := by
  simp only [getMessagesAfterCheckpoint,getUserCheckpoint,getOrCreateUserTimeline,wp_bind,wp_get,
    wp_pure]
  refine wp_mono (wp_getOrCreateTimeline env ⟨.user,u⟩ h) ?_ (fun _ _ he => he)
  intro _ m hm
  have htm := ht.ready hu hm
  refine ⟨htm,?_⟩
  rw [ht.checkpoints u,← htm.messages]
  rfl

theorem wp_getConvMessages (env : Env) (cv : String) (limit before : Int)
    {c : StoreConfig} {h : Host}
    {log : List (Entry TimelineRef Message)} {checkpoint : String → Int}
    (ht : Tracks c h log checkpoint) (hc : (TimelineRef.mk .conv cv).Plain) :
    wp (getConvMessages env cv limit before)
      (fun ms t => Tracks c t log checkpoint ∧
        ms = collectBack limit before (topicLog log ⟨.conv,cv⟩).reverse 0 [])
      (fun _ _ => False) h := by
  simp only [getConvMessages,getOrCreateConvTimeline,wp_bind,wp_get,wp_pure]
  refine wp_mono (wp_getOrCreateTimeline env ⟨.conv,cv⟩ h) ?_ (fun _ _ he => he)
  intro _ m hm
  have htm := ht.ready hc hm
  refine ⟨htm,?_⟩
  rw [← htm.messages]
  rfl

theorem wp_exec (env : Env) (op : StoreOp) {c : StoreConfig} {h : Host} {ops : List StoreOp}
    {times : List Int} (hl : times.length = (sends ops).length) (hp : op.Plain)
    (ht : Tracks c h (logOf (sends ops) (numbered (sends ops) times))
      (fun u => lastCheckpoint u ops)) :
    wp (op.exec env)
      (fun _ t => ∃ times', times'.length = (sends (ops ++ [op])).length ∧
        Tracks c t (logOf (sends (ops ++ [op])) (numbered (sends (ops ++ [op])) times'))
          (fun u => lastCheckpoint u (ops ++ [op])))
      (fun _ _ => True) h := by
  have hn := numbered_length hl
  cases op with
  | addMessage s =>
    refine wp_mono (wp_send_tidy env s ht.tidy hp) ?_ (fun _ _ _ => trivial)
    intro _ t hd
    refine ⟨times ++ [env.clock h.tick],by simp [sends_append,sends,hl],?_⟩
    rw [sends_append,sends,sends,numbered_concat hl,logOf_concat hn]
    have htd := ht.delivered hd
    have hseq : h.store.seqGenerator = (sends ops).length := by
      rw [ht.generator]
      simp [logOf,hn]
    simpa [SendCall.message,hseq,lastCheckpoint] using htd
  | updateUserCheckpoint u n =>
    refine ⟨times,by simpa [sends_append,sends] using hl,?_⟩
    simp only [sends_append,sends,List.append_nil]
    refine ⟨⟨ht.tidy.config,ht.tidy.pointed,ht.tidy.named,ht.tidy.known,ht.tidy.unseen⟩,
      ht.messages,ht.generator,?_⟩
    intro v
    by_cases hv : v = u
    · simp [hv,lastCheckpoint]
    · have := ht.checkpoints v
      simpa [hv,Ne.symm hv,lastCheckpoint] using this
  | getConvMessages cv limit before =>
    simp only [StoreOp.exec,wp_bind,wp_pure]
    refine wp_mono (wp_getConvMessages env cv limit before ht hp) ?_ (fun _ _ _ => trivial)
    rintro _ t ⟨htt,-⟩
    exact ⟨times,by simpa [sends_append,sends] using hl,by
      simpa [sends_append,sends,lastCheckpoint] using htt⟩
  | getMessagesAfterCheckpoint u =>
    simp only [StoreOp.exec,wp_bind,wp_pure]
    refine wp_mono (wp_getMessagesAfterCheckpoint env u ht hp) ?_ (fun _ _ _ => trivial)
    rintro _ t ⟨htt,-⟩
    exact ⟨times,by simpa [sends_append,sends] using hl,by
      simpa [sends_append,sends,lastCheckpoint] using htt⟩

/-- No entry of the data directory exists yet. -/
def EmptyDir (c : StoreConfig) (disk : Path → Option FileData) : Prop :=
  ∀ n, PlainName n → disk (join c.dataDir.toList n) = none

theorem newStore_ok {env : Env} {c : StoreConfig} {disk : Path → Option FileData} {tick : Nat}
    {births : List (TimelineRef × Int)} {h : Host} (ho : newStore env c disk tick births = .ok h) :
    h.store.config = c ∧ (∀ r, h.store.find r = none) ∧ h.disk = disk ∧ h.births = births ∧
      h.store.seqGenerator = 0 ∧ (∀ u, h.store.userCheckpoints u = none) ∧
      h.store.currentCapacity = 0 := by
  unfold newStore at ho
  split at ho
  · cases ho
  · cases ho
    refine ⟨rfl,?_,rfl,rfl,rfl,fun _ => rfl,rfl⟩
    intro r
    unfold Store.find
    split <;> rfl

theorem Tidy.newStore {env : Env} {c : StoreConfig} {disk : Path → Option FileData} {tick : Nat}
    {births : List (TimelineRef × Int)} {h : Host} (ho : newStore env c disk tick births = .ok h)
    (he : EmptyDir c disk) : Tidy c h := by
  obtain ⟨hc,hf,hd,-⟩ := newStore_ok ho
  refine ⟨hc,?_,?_,?_,?_⟩
  · intro r
    rw [Host.timeline,hf r]
    exact Timeline.pointed_fresh
  · intro r v hv
    rw [Host.views_of_find_none (hf r)] at hv
    cases hv
  · intro r hk
    rw [hf r] at hk
    cases hk
  · intro r hr _
    rw [hd,getTimelineMetaFilePath_eq]
    exact he _ (metaName_plain hr)

theorem Tracks.newStore {env : Env} {c : StoreConfig} {disk : Path → Option FileData} {tick : Nat}
    {births : List (TimelineRef × Int)} {h : Host} (ho : newStore env c disk tick births = .ok h)
    (he : EmptyDir c disk) : Tracks c h [] (fun _ => 0) := by
  obtain ⟨-,hf,-,-,hs,hu,-⟩ := newStore_ok ho
  refine ⟨Tidy.newStore ho he,?_,by simp [hs],fun u => by simp [hu u]⟩
  intro r
  rw [Host.messages_eq_views,Host.views_of_find_none (hf r)]
  rfl

theorem tracks_run (env : Env) {c : StoreConfig} {h t : Host} (ops : List StoreOp)
    (hp : ∀ op ∈ ops, op.Plain) (ht : Tracks c h [] (fun _ => 0))
    (hrun : runOps env ops h = .ok () t) :
    ∃ times, times.length = (sends ops).length ∧
      Tracks c t (logOf (sends ops) (numbered (sends ops) times))
        (fun u => lastCheckpoint u ops) := by
  have hw : wp (runOps env ops) (fun _ t => ∃ times, times.length = (sends ops).length ∧
      Tracks c t (logOf (sends ops) (numbered (sends ops) times)) (fun u => lastCheckpoint u ops))
      (fun _ _ => True) h := by
    refine wp_forM ops (I := fun done t => ∃ times, times.length = (sends done).length ∧
      Tracks c t (logOf (sends done) (numbered (sends done) times))
        (fun u => lastCheckpoint u done)) ⟨[],rfl,ht⟩ ?_
    rintro done op rest u hops ⟨times,hl,hu⟩
    exact wp_exec env op hl (hp op (by simp [hops])) hu
  exact wp_ok hw hrun

theorem topicLog_conv {calls : List SendCall} {msgs : List Message}
    (hc : msgs.map (·.convID) = calls.map (·.convID)) (cv : String) :
    topicLog (logOf calls msgs) ⟨.conv,cv⟩ = msgs.filter fun m => m.convID = cv := by
  induction calls generalizing msgs with
  | nil => cases msgs <;> simp_all [logOf]
  | cons s calls ih =>
    cases msgs with
    | nil => simp at hc
    | cons m msgs =>
      simp only [List.map_cons,List.cons.injEq] at hc
      have ih' := ih hc.2
      simp only [logOf,topicLog,List.zip_cons_cons,List.map_cons,List.flatMap_cons,
        SendCall.count_conv,← hc.1] at ih' ⊢
      rw [ih']
      by_cases hm : m.convID = cv <;> simp [hm]

theorem topicLog_user (calls : List SendCall) (msgs : List Message) (u : String) :
    topicLog (logOf calls msgs) ⟨.user,u⟩ =
      (calls.zip msgs).flatMap fun p => List.replicate (p.1.userIDs.count u) p.2 := by
  simp [topicLog,logOf,List.flatMap_map,SendCall.count_user]

theorem numbered_getElem? {calls : List SendCall} {times : List Int} {i : Nat} {m : Message}
    (hm : (numbered calls times)[i]? = some m) :
    ∃ s t, calls[i]? = some s ∧ times[i]? = some t ∧ m = ⟨i+1,s.convID,s.senderID,t,s.data⟩ := by
  simp only [numbered,List.getElem?_map,List.getElem?_zipIdx,Option.map_eq_some_iff,
    Nat.zero_add] at hm
  obtain ⟨p,⟨⟨s,t⟩,hz,rfl⟩,rfl⟩ := hm
  obtain ⟨hs,ht⟩ := List.getElem?_zip_eq_some.mp hz
  exact ⟨s,t,hs,ht,rfl⟩

theorem numbered_convIDs {calls : List SendCall} {times : List Int}
    (hl : times.length = calls.length) :
    (numbered calls times).map (·.convID) = calls.map (·.convID) := by
  apply List.ext_getElem?
  intro i
  rw [List.getElem?_map,List.getElem?_map]
  cases hm : (numbered calls times)[i]? with
  | none =>
    rw [List.getElem?_eq_none_iff,numbered_length hl,← List.getElem?_eq_none_iff] at hm
    simp [hm]
  | some m =>
    obtain ⟨s,t,hs,-,rfl⟩ := numbered_getElem? hm
    simp [hs]

/-- Every run of calls that all return nil is a run of the log: the `i`-th
`AddMessage` is the message with number `i`, a conversation holds its own
messages, a user holds a message once for every mention, and a sync returns
what lies past the checkpoint set last. -/
theorem blockStore_refines_log (env : Env) (c : StoreConfig) (disk : Path → Option FileData)
    (tick : Nat) (births : List (TimelineRef × Int)) (h t : Host) (ops : List StoreOp)
    (hopen : newStore env c disk tick births = .ok h) (hempty : EmptyDir c disk)
    (hplain : ∀ op ∈ ops, op.Plain) (hrun : runOps env ops h = .ok () t) :
    ∃ msgs : List Message, msgs.length = (sends ops).length ∧
      (∀ (i : Nat) s m, (sends ops)[i]? = some s → msgs[i]? = some m →
        m.seqID = (i : Int)+1 ∧ m.convID = s.convID ∧ m.senderID = s.senderID ∧ m.data = s.data) ∧
      (∀ convID, t.messages ⟨.conv,convID⟩ = msgs.filter fun m => m.convID = convID) ∧
      (∀ userID, t.messages ⟨.user,userID⟩ =
        ((sends ops).zip msgs).flatMap fun p => List.replicate (p.1.userIDs.count userID) p.2) ∧
      ∀ userID, (TimelineRef.mk .user userID).Plain →
        ∃ t', getMessagesAfterCheckpoint env userID t = .ok ((t.messages ⟨.user,userID⟩).filter
          fun m => lastCheckpoint userID ops < m.seqID) t' := by
  obtain ⟨times,hl,ht⟩ := tracks_run env ops hplain (Tracks.newStore hopen hempty) hrun
  refine ⟨numbered (sends ops) times,numbered_length hl,?_,?_,?_,?_⟩
  · intro i s m hs hm
    obtain ⟨s',-,hs',-,rfl⟩ := numbered_getElem? hm
    cases hs.symm.trans hs'
    exact ⟨rfl,rfl,rfl,rfl⟩
  · intro convID
    rw [ht.messages,topicLog_conv (numbered_convIDs hl)]
  · intro userID
    rw [ht.messages,topicLog_user]
  · intro userID hu
    obtain ⟨_,t',ht',-,rfl⟩ := eq_ok_of_wp (wp_getMessagesAfterCheckpoint env userID ht hu)
    exact ⟨t',by rw [ht.messages,ht']⟩

/-- A machine on which nothing fails. Its clock counts the questions asked. -/
def Env.steady : Env := ⟨fun n => n,fun _ => none,fun _ => false⟩

/-- A new store on an empty directory of such a machine. -/
def Host.steady (c : StoreConfig) : Host :=
  { store :=
      { config := c, storeID := "store_1", currentCapacity := 0
        convTimelines := fun _ => none, userTimelines := fun _ => none
        userCheckpoints := fun _ => none, storeIndex := fun _ => []
        timelineBlocks := fun _ => none, seqGenerator := 0 }
    disk := fun _ => none
    tick := 2
    births := [] }

theorem newStore_steady (c : StoreConfig) :
    newStore Env.steady c (fun _ => none) 0 [] = .ok (Host.steady c) := by
  have hid : decimal 1 = "1" := by decide
  simp [newStore,Env.steady,Host.steady,hid]

/-- Two messages to a block. -/
def smallBlocks : StoreConfig := ⟨100,2,"data"⟩

def threeSends : List StoreOp :=
  [.addMessage ⟨"c",1,[7],["u","v","u"]⟩,.addMessage ⟨"d",2,[8],["u"]⟩,
    .updateUserCheckpoint "u" 1,.addMessage ⟨"c",3,[9],["u"]⟩]

theorem blockStore_refines_log_threeSends :
    ∃ t, runOps Env.steady threeSends (Host.steady smallBlocks) = .ok () t ∧
      ∃ msgs : List Message, msgs.length = 3 ∧
        (∀ convID, t.messages ⟨.conv,convID⟩ = msgs.filter fun m => m.convID = convID) ∧
        ∃ t', getMessagesAfterCheckpoint Env.steady "u" t =
          .ok ((t.messages ⟨.user,"u"⟩).filter fun m => 1 < m.seqID) t' := by
  have hrun : succeeds (runOps Env.steady threeSends) (Host.steady smallBlocks) = true := by
    decide +kernel
  have hplain : ∀ op ∈ threeSends, op.Plain := by decide
  obtain ⟨msgs,hlen,-,hconv,-,hsync⟩ :=
    blockStore_refines_log _ _ _ _ _ _ _ _ (newStore_steady smallBlocks)
    (fun _ _ => rfl) hplain (eq_ok_of_succeeds hrun)
  exact ⟨_,eq_ok_of_succeeds hrun,msgs,hlen,hconv,hsync "u" (by decide)⟩

end Imy.Storage
