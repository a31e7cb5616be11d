import Imy.Lib.Transition
import Imy.Storage.FailedSend
set_option autoImplicit false

namespace Imy.Storage
open Imy.Lib

inductive Stage where
  | opening (todo : List TimelineRef)
  | appending (r : TimelineRef) (todo : List TimelineRef)
  | finishing (r : TimelineRef) (blockToSave : Option BlockRef) (todo : List TimelineRef)
  | saving (todo : List TimelineRef)
  | ended
  deriving DecidableEq, Repr

structure Flight where
  call : SendCall
  msg : Message
  stage : Stage
  deriving DecidableEq, Repr

def Flight.to (f : Flight) (stage : Stage) : Flight := { f with stage := stage }

def saveFor (env : Env) (r : TimelineRef) : StoreM Unit :=
  match r.type with
  | .conv => saveTimelineMetadata env r
  | .user => saveOne env r

def Flight.step (env : Env) (f : Flight) (h : Host) : Flight × Host :=
  match f.stage with
  | .opening [] => (f.to (.saving f.call.targets),h)
  | .opening (r :: todo) => (f.to (.appending r todo),final (getOrCreateTimeline env r) h)
  | .appending r todo =>
    match Timeline.append env r f.msg h with
    | .ok blockToSave t => (f.to (.finishing r blockToSave todo),t)
    | .error _ t => (f.to .ended,t)
  | .finishing r blockToSave todo =>
    match Timeline.finish env r f.msg blockToSave h with
    | .ok _ t => (f.to (.opening todo),t)
    | .error _ t => (f.to .ended,t)
  | .saving [] => (f.to .ended,h)
  | .saving (r :: todo) =>
    match saveFor env r h with
    | .ok _ t => (f.to (.saving todo),t)
    | .error _ t => (f.to .ended,t)
  | .ended => (f,h)

/-- Senders and the one client of a user. `unacked` is the number of the last
message of a read that has not been followed by its update yet. `seen` is not in
the source: the positions of the user's timeline that some read has returned. -/
structure Sync where
  host : Host
  flights : List Flight
  unacked : Option Int
  seen : List Nat

inductive SyncOp where
  | draw (s : SendCall)
  | advance (flight : Nat)
  | read
  | ack
  deriving DecidableEq, Repr

def Sync.checkpoint (s : Sync) (userID : String) : Int :=
  (s.host.store.userCheckpoints userID).getD 0

def positionsAfter (checkpoint : Int) (ms : List Message) : List Nat :=
  (List.range ms.length).filter fun i => (ms[i]?).any fun m => decide (checkpoint < m.seqID)

/-- The read is one step: the checkpoint it starts from is set by this client only. -/
def Sync.next (env : Env) (userID : String) : SyncOp → Sync → Option Sync
  | .draw s, st => some { st with
      host := st.host.drawn
      flights := st.flights ++ [⟨s,s.message env st.host,.opening s.targets⟩] }
  | .advance i, st =>
    match st.flights[i]? with
    | none => none
    | some f => some { st with
        host := (f.step env st.host).2
        flights := st.flights.set i (f.step env st.host).1 }
  | .read, st =>
    match st.unacked,getMessagesAfterCheckpoint env userID st.host with
    | none,.ok ms t => some { st with
        host := t
        unacked := ms.getLast?.map (·.seqID)
        seen := st.seen ++
          positionsAfter (st.checkpoint userID) (t.messages ⟨.user,userID⟩) }
    | _,_ => none
  | .ack, st =>
    match st.unacked with
    | none => none
    | some last => some { st with
        host := final (updateUserCheckpoint userID last) st.host
        unacked := none }

def Sync.run (env : Env) (userID : String) : List SyncOp → Sync → Option Sync
  | [], s => some s
  | op :: ops, s => (s.next env userID op).bind (Sync.run env userID ops)

/-- Every message of the user was returned before or lies past the checkpoint. -/
def NoSkip (userID : String) (s : Sync) : Prop :=
  ∀ (i : Nat) m, (s.host.messages ⟨.user,userID⟩)[i]? = some m →
    i ∈ s.seen ∨ s.checkpoint userID < m.seqID

structure Positive (h : Host) : Prop where
  memory : ∀ r, ∀ m ∈ h.messages r, 0 < m.seqID
  disk : ∀ p ms torn, h.disk p = some (.gob ms torn) → ∀ m ∈ ms, 0 < m.seqID
  generator : 0 ≤ h.store.seqGenerator

/-- What a step that appends nothing to `r` can do. -/
structure Effect (r : TimelineRef) (h t : Host) : Prop where
  pointed : h.Pointed → t.Pointed
  positive : Positive h → Positive t
  checkpoints : t.store.userCheckpoints = h.store.userCheckpoints
  found : t.store.find r = none → h.store.find r = none
  messages : t.messages r = h.messages r ∨ h.store.find r = none

section Effect
variable {r : TimelineRef} {h t u : Host} {env : Env} {msg : Message}

theorem Effect.refl (r : TimelineRef) (h : Host) : Effect r h h :=
  ⟨id,id,rfl,id,Or.inl rfl⟩

theorem Effect.trans (a : Effect r h t) (b : Effect r t u) : Effect r h u := by
  refine ⟨fun hp => b.pointed (a.pointed hp),fun hp => b.positive (a.positive hp),
    b.checkpoints.trans a.checkpoints,fun hn => a.found (b.found hn),?_⟩
  rcases b.messages with hb | hb
  · rcases a.messages with ha | ha
    · exact Or.inl (hb.trans ha)
    · exact Or.inr ha
  · exact Or.inr (a.found hb)

/-- Loading reads positive numbers if the files hold no others. -/
theorem Positive.ready {r' : TimelineRef} (hp : Positive h) (hm : Ready env r' h t) :
    Positive t := by
  have hf := hm.loadFrame
  refine ⟨?_,by rw [hf.disk]; exact hp.disk,Int.le_trans hp.generator hf.seq⟩
  rcases hm with ⟨-,rfl⟩ | ⟨-,hl⟩
  · exact hp.memory
  · intro r m hmem
    by_cases he : r = r'
    · subst he
      obtain ⟨ids,-,hold⟩ := ReadFrom.of_loaded hl
      rw [hold,List.mem_flatMap] at hmem
      obtain ⟨v,hv,hmv⟩ := hmem
      obtain ⟨id,-,hs⟩ := List.mem_filterMap.mp hv
      exact hp.disk _ _ _ (savedView_some hs).2.2 m hmv
    · simp only [Host.messages,hl.toFrame.timeline he] at hmem
      exact hp.memory r m hmem

theorem Effect.ready {r' : TimelineRef} (r : TimelineRef) (hm : Ready env r' h t) :
    Effect r h t := by
  refine ⟨hm.pointed,fun hp => hp.ready hm,hm.loadFrame.checkpoints,?_,?_⟩
  · intro hn
    by_contra hs
    have hf := hm.found_of (Option.isSome_iff_ne_none.mpr hs)
    simp [hn] at hf
  · rcases hm with ⟨-,rfl⟩ | ⟨hnone,hl⟩
    · exact Or.inl rfl
    · by_cases he : r = r'
      · exact Or.inr (he ▸ hnone)
      · exact Or.inl (by simp only [Host.messages,hl.toFrame.timeline he])

/-- A file is written that holds some of the messages in memory, or none at all. -/
theorem Positive.withFile (hp : Positive h) {p : Path} {d : FileData}
    (hd : ∀ ms torn, d = .gob ms torn → ∀ m ∈ ms, 0 < m.seqID) : Positive (h.withFile p d) := by
  refine ⟨hp.memory,?_,hp.generator⟩
  intro p' ms torn hfile
  rw [Host.withFile_disk] at hfile
  by_cases he : p' = p
  · subst he
    rw [Function.update_self] at hfile
    exact hd ms torn (Option.some.inj hfile)
  · rw [Function.update_of_ne he] at hfile
    exact hp.disk p' ms torn hfile

theorem Effect.withFile (r : TimelineRef) (h : Host) (p : Path) {d : FileData}
    (hd : Positive h → ∀ ms torn, d = .gob ms torn → ∀ m ∈ ms, 0 < m.seqID) :
    Effect r h (h.withFile p d) :=
  ⟨id,fun hp => hp.withFile (hd hp),rfl,id,Or.inl rfl⟩

theorem Effect.advance (r : TimelineRef) (h : Host) : Effect r h h.advance :=
  ⟨id,fun hp => ⟨hp.memory,hp.disk,hp.generator⟩,rfl,id,Or.inl rfl⟩

theorem block_messages_positive (hp : Positive h) (b : BlockRef) :
    ∀ m ∈ ((h.timeline b.timeline).block b.pos).messages, 0 < m.seqID := by
  intro m hm
  unfold Timeline.block at hm
  cases hb : (h.timeline b.timeline).blocks[b.pos]? with
  | none => simp [hb] at hm
  | some block =>
    refine hp.memory b.timeline m ?_
    rw [hb,Option.getD_some] at hm
    exact List.mem_flatMap.mpr ⟨block,List.mem_of_getElem? hb,hm⟩

theorem Effect.capacity (r : TimelineRef) (h : Host) (cap : Int) :
    Effect r h { h with store := { h.store with currentCapacity := cap } } :=
  ⟨id,fun hp => ⟨hp.memory,hp.disk,hp.generator⟩,rfl,id,Or.inl rfl⟩

theorem Effect.setLastSeqID (r : TimelineRef) (h : Host) (r' : TimelineRef) (n : Int) :
    Effect r h (h.putTimeline r' ((h.timeline r').setLastSeqID n)) := by
  have hframe := Frame.putTimeline h r' ((h.timeline r').setLastSeqID n)
  have hmess : ∀ r₀, (h.putTimeline r' ((h.timeline r').setLastSeqID n)).messages r₀ =
      h.messages r₀ := by
    intro r₀
    by_cases he : r₀ = r'
    · subst he
      simp [Host.messages,Timeline.messages,Timeline.setLastSeqID]
    · simp only [Host.messages,hframe.timeline he]
  refine ⟨?_,?_,by simp,?_,Or.inl (hmess r)⟩
  · intro hp r₀
    by_cases he : r₀ = r'
    · subst he
      rw [Host.timeline_putTimeline_self]
      exact hp r₀
    · rw [hframe.timeline he]
      exact hp r₀
  · intro hp
    exact ⟨fun r₀ m hm => hp.memory r₀ m (hmess r₀ ▸ hm),hp.disk,by simpa using hp.generator⟩
  · intro hn
    by_cases he : r = r'
    · subst he
      simp at hn
    · rwa [hframe.others r he] at hn

theorem wp_finish_effect (env : Env) (r r' : TimelineRef) (msg : Message) (b : Option BlockRef)
    (h : Host) :
    wp (Timeline.finish env r' msg b) (fun _ t => Effect r h t) (fun _ t => Effect r h t) h := by
  cases b with
  | none => exact Effect.setLastSeqID r h r' _
  | some b =>
    simp only [Timeline.finish,saveTimelineBlock,wp_bind,wp_get,wp_modify]
    refine wp_mono (wp_writeFile env _ _ _ h) ?_ ?_
    · rintro _ t rfl
      have hw : Effect r h (h.withFile _ _) := Effect.withFile r h
        (getTimelineBlockFilePath h.store.config ((h.timeline b.timeline).block b.pos).blockID)
        (d := .gob ((h.timeline b.timeline).block b.pos).messages false) fun hp ms torn hd => by
          cases hd
          exact block_messages_positive hp b
      exact (hw.trans (Effect.capacity r _ _)).trans (Effect.setLastSeqID r _ r' _)
    · rintro e t ⟨-,rfl | ⟨n,torn,rfl⟩⟩
      · exact Effect.advance r h
      · refine Effect.withFile r h _ fun hp ms torn' hd m hm => ?_
        cases hd
        exact block_messages_positive hp b m (List.mem_of_mem_take hm)

theorem wp_saveMetadata_effect (env : Env) (r r' : TimelineRef) (h : Host) :
    wp (saveTimelineMetadata env r') (fun _ t => Effect r h t) (fun _ t => Effect r h t) h := by
  refine wp_mono (wp_saveTimelineMetadata env r' h) ?_ ?_
  · rintro _ t rfl
    exact Effect.withFile r h _ fun _ ms torn hd => by cases hd
  · rintro e t ⟨-,rfl | rfl⟩
    · exact Effect.advance r h
    · exact Effect.withFile r h _ fun _ ms torn hd => by cases hd

theorem wp_getOrCreate_effect (env : Env) (r r' : TimelineRef) (h : Host) :
    wp (getOrCreateTimeline env r') (fun _ t => Effect r h t) (fun _ t => Effect r h t) h := by
  refine wp_mono (wp_getOrCreateTimeline env r' h) ?_ (fun _ _ he => he.elim)
  intro _ t ht
  have hready : Ready env r' h t := ht
  exact Effect.ready r hready

theorem wp_saveFor_effect (env : Env) (r r' : TimelineRef) (h : Host) :
    wp (saveFor env r') (fun _ t => Effect r h t) (fun _ t => Effect r h t) h := by
  unfold saveFor
  cases r'.type with
  | conv => exact wp_saveMetadata_effect env r r' h
  | user =>
    simp only [saveOne,wp_bind]
    refine wp_mono (wp_getOrCreate_effect env r r' h) ?_ (fun _ _ he => he)
    intro _ t ht
    exact wp_mono (wp_saveMetadata_effect env r r' t) (fun _ _ hu => ht.trans hu)
      (fun _ _ hu => ht.trans hu)

theorem Positive.grown {k : Int} {r' : TimelineRef} {init : List BlockView} {b : BlockView}
    (hp : Positive h) (hm : 0 < msg.seqID) (g : Grown k r' msg init b h t) (hd : t.disk = h.disk) :
    Positive t := by
  refine ⟨?_,by rw [hd]; exact hp.disk,by rw [g.generator]; exact hp.generator⟩
  intro r m hmem
  by_cases he : r = r'
  · subst he
    rw [g.messages,List.mem_append,List.mem_singleton] at hmem
    rcases hmem with hmem | rfl
    · exact hp.memory r m hmem
    · exact hm
  · simp only [Host.messages,g.toFrame.timeline he] at hmem
    exact hp.memory r m hmem

/-- One step of a call, as far as timeline `r` is concerned. -/
structure Advanced (r : TimelineRef) (f : Flight) (h t : Host) : Prop where
  pointed : t.Pointed
  positive : Positive t
  checkpoints : t.store.userCheckpoints = h.store.userCheckpoints
  found : t.store.find r = none → h.store.find r = none
  messages : t.messages r = h.messages r ∨ h.store.find r = none ∨
    ∃ todo, f.stage = .appending r todo ∧ t.messages r = h.messages r ++ [f.msg]

theorem Effect.advanced {f : Flight} (he : Effect r h t) (hpt : h.Pointed) (hpos : Positive h) :
    Advanced r f h t :=
  ⟨he.pointed hpt,he.positive hpos,he.checkpoints,he.found,
    he.messages.imp id fun hn => Or.inl hn⟩

theorem wp_append_advanced (env : Env) (r : TimelineRef) {f : Flight} {r' : TimelineRef}
    {todo : List TimelineRef} (hstage : f.stage = .appending r' todo) (hpt : h.Pointed)
    (hpos : Positive h) (hm : 0 < f.msg.seqID) :
    wp (Timeline.append env r' f.msg) (fun _ t => Advanced r f h t)
      (fun _ t => Advanced r f h t) h := by
  refine wp_mono (wp_append env r' f.msg (hpt r')) ?_ ?_
  · rintro save t ⟨init,b,g,hd,-,-⟩
    refine ⟨g.allPointed hpt,hpos.grown hm g hd,g.checkpoints,?_,?_⟩
    · intro hn
      by_cases he : r = r'
      · subst he
        have := g.found
        simp [hn] at this
      · rwa [g.others r he] at hn
    · by_cases he : r = r'
      · subst he
        exact Or.inr (Or.inr ⟨todo,hstage,g.messages⟩)
      · exact Or.inl (by simp only [Host.messages,g.toFrame.timeline he])
  · rintro e t ⟨-,rfl,-⟩
    exact (Effect.advance r h).advanced hpt hpos

theorem Flight.step_advanced (env : Env) (r : TimelineRef) (f : Flight) (hpt : h.Pointed)
    (hpos : Positive h) (hm : 0 < f.msg.seqID) :
    Advanced r f h (f.step env h).2 ∧ (f.step env h).1.msg = f.msg := by
  have still : Advanced r f h h := (Effect.refl r h).advanced hpt hpos
  unfold Flight.step
  cases hs : f.stage with
  | opening todo =>
    cases todo with
    | nil => exact ⟨still,rfl⟩
    | cons r' todo =>
      have he := final_of_wp (wp_getOrCreate_effect env r r' h)
      exact ⟨he.advanced hpt hpos,rfl⟩
  | appending r' todo =>
    have hw := wp_append_advanced env r hs hpt hpos hm
    cases hx : Timeline.append env r' f.msg h with
    | ok save t =>
      have ha := wp_ok hw hx
      simp only [hx]
      exact ⟨ha,rfl⟩
    | error e t =>
      have ha := wp_error hw hx
      simp only [hx]
      exact ⟨ha,rfl⟩
  | finishing r' b todo =>
    have hw := wp_finish_effect env r r' f.msg b h
    cases hx : Timeline.finish env r' f.msg b h with
    | ok a t =>
      simp only [hx]
      exact ⟨(wp_ok hw hx).advanced hpt hpos,rfl⟩
    | error e t =>
      simp only [hx]
      exact ⟨(wp_error hw hx).advanced hpt hpos,rfl⟩
  | saving todo =>
    cases todo with
    | nil => exact ⟨still,rfl⟩
    | cons r' todo =>
      have hw := wp_saveFor_effect env r r' h
      cases hx : saveFor env r' h with
      | ok a t =>
        simp only [hx]
        exact ⟨(wp_ok hw hx).advanced hpt hpos,rfl⟩
      | error e t =>
        simp only [hx]
        exact ⟨(wp_error hw hx).advanced hpt hpos,rfl⟩
  | ended => exact ⟨still,rfl⟩

end Effect

def Sync.arriving (s : Sync) (userID : String) : SyncOp → Option Flight
  | .advance i =>
    match s.flights[i]? with
    | none => none
    | some f =>
      match f.stage with
      | .appending r _ => if r = ⟨.user,userID⟩ then some f else none
      | _ => none
  | _ => none

/-- The messages come to the user's timeline in order as far as the client can
tell: none with a number at or below the checkpoint, or at or below the last one
of a read that is about to become the checkpoint. -/
def InOrder (userID : String) (op : SyncOp) (s : Sync) : Prop :=
  ∀ f ∈ s.arriving userID op, s.checkpoint userID < f.msg.seqID ∧
    ∀ last ∈ s.unacked, last < f.msg.seqID

instance (userID : String) (op : SyncOp) (s : Sync) : Decidable (InOrder userID op s) :=
  inferInstanceAs (Decidable (∀ f ∈ s.arriving userID op, s.checkpoint userID < f.msg.seqID ∧
    ∀ last ∈ s.unacked, last < f.msg.seqID))

structure Unskipped (userID : String) (s : Sync) : Prop where
  pointed : s.host.Pointed
  positive : Positive s.host
  flights : ∀ f ∈ s.flights, 0 < f.msg.seqID
  unread : s.host.store.find ⟨.user,userID⟩ = none → s.checkpoint userID = 0 ∧ s.unacked = none
  ahead : ∀ (i : Nat) m, (s.host.messages ⟨.user,userID⟩)[i]? = some m → i ∈ s.seen ∨
    (s.checkpoint userID < m.seqID ∧ ∀ last ∈ s.unacked, last < m.seqID)

theorem Unskipped.noSkip {userID : String} {s : Sync} (hs : Unskipped userID s) :
    NoSkip userID s := by
  intro i m hm
  exact (hs.ahead i m hm).imp id And.left

section Unskipped
variable {env : Env} {userID : String} {s t : Sync}

theorem Unskipped.draw {c : SendCall} (hs : Unskipped userID s)
    (hn : s.next env userID (.draw c) = some t) : Unskipped userID t := by
  cases hn
  have hgen := hs.positive.generator
  refine ⟨hs.pointed,⟨?_,hs.positive.disk,?_⟩,?_,hs.unread,?_⟩
  · intro r m hm
    exact hs.positive.memory r m hm
  · simp only [Host.drawn_store_seqGenerator]
    omega
  · intro f hf
    rcases List.mem_append.mp hf with hf | hf
    · exact hs.flights f hf
    · rw [List.mem_singleton] at hf
      subst hf
      simp only [SendCall.message]
      omega
  · intro i m hm
    exact hs.ahead i m hm

theorem Unskipped.advance {i : Nat} (hs : Unskipped userID s) (ho : InOrder userID (.advance i) s)
    (hn : s.next env userID (.advance i) = some t) : Unskipped userID t := by
  simp only [Sync.next] at hn
  split at hn
  · cases hn
  · rename_i f hf
    cases hn
    have hm := hs.flights f (List.mem_of_getElem? hf)
    obtain ⟨ha,hmsg⟩ := f.step_advanced env ⟨.user,userID⟩ hs.pointed hs.positive hm
    have hcp : ((f.step env s.host).2.store.userCheckpoints userID).getD 0 =
        s.checkpoint userID := by
      rw [ha.checkpoints]
      rfl
    refine ⟨ha.pointed,ha.positive,?_,?_,?_⟩
    · intro g hg
      rcases List.mem_or_eq_of_mem_set hg with hg | rfl
      · exact hs.flights g hg
      · rw [hmsg]
        exact hm
    · intro hnone
      simp only [Sync.checkpoint,hcp]
      exact hs.unread (ha.found hnone)
    · intro j m hj
      simp only [Sync.checkpoint,hcp]
      rcases ha.messages with heq | hnone | ⟨todo,hstage,heq⟩
      · simp only [heq] at hj
        exact hs.ahead j m hj
      · -- the timeline was loaded just now, before any read
        obtain ⟨hzero,hun⟩ := hs.unread hnone
        have hlt : s.checkpoint userID < m.seqID := by
          rw [hzero]
          exact ha.positive.memory _ m (List.mem_of_getElem? hj)
        exact Or.inr ⟨hlt,by simp [hun]⟩
      · simp only [heq] at hj
        rcases getElem?_concat_some hj with hj | ⟨-,rfl⟩
        · exact hs.ahead j m hj
        · exact Or.inr (ho f (by simp [Sync.arriving,hf,hstage]))

theorem mem_positionsAfter {checkpoint : Int} {ms : List Message} {i : Nat} {m : Message}
    (hi : ms[i]? = some m) (hlt : checkpoint < m.seqID) : i ∈ positionsAfter checkpoint ms := by
  rw [positionsAfter,List.mem_filter,List.mem_range]
  exact ⟨(List.getElem?_eq_some_iff.mp hi).1,by simp [hi,hlt]⟩

theorem wp_read_effect (env : Env) (userID : String) (h : Host) :
    wp (getMessagesAfterCheckpoint env userID)
      (fun _ t => Effect ⟨.user,userID⟩ h t ∧ (t.store.find ⟨.user,userID⟩).isSome)
      (fun _ _ => False) h := by
  simp only [getMessagesAfterCheckpoint,getUserCheckpoint,getOrCreateUserTimeline,wp_bind,wp_get,
    wp_pure]
  refine wp_mono (wp_getOrCreateTimeline env ⟨.user,userID⟩ h) ?_ (fun _ _ he => he)
  intro _ t ht
  have hready : Ready env ⟨.user,userID⟩ h t := ht
  exact ⟨Effect.ready _ hready,hready.found⟩

/-- After a read every position of the timeline has been returned. -/
theorem Unskipped.read (hs : Unskipped userID s) (hn : s.next env userID .read = some t) :
    Unskipped userID t := by
  simp only [Sync.next] at hn
  split at hn
  · rename_i ms u hun hx
    cases hn
    obtain ⟨he,hfound⟩ := wp_ok (wp_read_effect env userID s.host) hx
    have hcp : (u.store.userCheckpoints userID).getD 0 = s.checkpoint userID := by
      rw [he.checkpoints]
      rfl
    refine ⟨he.pointed hs.pointed,he.positive hs.positive,hs.flights,?_,?_⟩
    · intro hnone
      simp only [hnone] at hfound
      cases hfound
    · intro i m hi
      refine Or.inl (List.mem_append.mpr ?_)
      rcases he.messages with heq | hnone
      · rcases hs.ahead i m (heq ▸ hi) with hseen | ⟨hlt,-⟩
        · exact Or.inl hseen
        · exact Or.inr (mem_positionsAfter hi hlt)
      · have hpos := (he.positive hs.positive).memory _ m (List.mem_of_getElem? hi)
        refine Or.inr (mem_positionsAfter hi ?_)
        rw [(hs.unread hnone).1]
        exact hpos
  · cases hn

theorem Unskipped.ack (hs : Unskipped userID s) (hn : s.next env userID .ack = some t) :
    Unskipped userID t := by
  simp only [Sync.next] at hn
  split at hn
  · cases hn
  · rename_i last hun
    cases hn
    refine ⟨hs.pointed,⟨hs.positive.memory,hs.positive.disk,hs.positive.generator⟩,hs.flights,?_,?_⟩
    · intro hnone
      have := (hs.unread hnone).2
      simp [hun] at this
    · intro i m hi
      rcases hs.ahead i m hi with hseen | ⟨-,hlt⟩
      · exact Or.inl hseen
      · refine Or.inr ⟨?_,by simp⟩
        have hcp : Sync.checkpoint { s with
            host := final (updateUserCheckpoint userID last) s.host,
                unacked := none } userID = last := by
          show (Function.update s.host.store.userCheckpoints userID
            (some last) userID).getD 0 = last
          simp
        rw [hcp]
        exact hlt last hun

theorem Unskipped.next {op : SyncOp} (hs : Unskipped userID s) (ho : InOrder userID op s)
    (hn : s.next env userID op = some t) : Unskipped userID t := by
  cases op with
  | draw c => exact hs.draw hn
  | advance i => exact hs.advance ho hn
  | read => exact hs.read hn
  | ack => exact hs.ack hn

theorem Unskipped.opened {c : StoreConfig} {disk : Path → Option FileData} {tick : Nat}
    {births : List (TimelineRef × Int)} {h : Host} (hopen : newStore env c disk tick births = .ok h)
    (hpos : ∀ p ms torn, disk p = some (.gob ms torn) → ∀ m ∈ ms, 0 < m.seqID) :
    Unskipped userID ⟨h,[],none,[]⟩ := by
  obtain ⟨-,hf,hd,-,hgen,hcp,-⟩ := newStore_ok hopen
  have hempty : ∀ r, h.messages r = [] := by
    intro r
    rw [Host.messages_eq_views,Host.views_of_find_none (hf r)]
    rfl
  refine ⟨?_,⟨?_,by rw [hd]; exact hpos,by rw [hgen]⟩,by simp,?_,?_⟩
  · intro r
    rw [Host.timeline,hf r]
    exact Timeline.pointed_fresh
  · intro r m hm
    rw [hempty r] at hm
    cases hm
  · intro _
    simp [Sync.checkpoint,hcp]
  · intro i m hm
    rw [hempty] at hm
    cases hm

end Unskipped

/-- In every run in which messages reach the user's timeline in order, nothing is
ever skipped. The store may be opened on any directory that holds positive
numbers, as every store writes them. -/
theorem no_skip_of_in_order (env : Env) (userID : String) (c : StoreConfig)
    (disk : Path → Option FileData) (tick : Nat) (births : List (TimelineRef × Int)) (h : Host)
    (ops : List SyncOp) (s : Sync) (hopen : newStore env c disk tick births = .ok h)
    (hpos : ∀ p ms torn, disk p = some (.gob ms torn) → ∀ m ∈ ms, 0 < m.seqID)
    (hrun : Steps (fun op a b => InOrder userID op a ∧ a.next env userID op = some b)
      ⟨h,[],none,[]⟩ ops s) : NoSkip userID s :=
  (hrun.invariant (fun _ _ _ hs hstep => hs.next hstep.1 hstep.2)
    (Unskipped.opened hopen hpos)).noSkip

/-- Two calls for one user, the later one faster at first, and two reads. -/
def twoSenders : List SyncOp :=
  [.draw ⟨"c",1,[1],["u"]⟩,.draw ⟨"d",2,[2],["u"]⟩,.advance 1,.advance 1,.advance 1,
    .advance 0,.advance 0,.advance 0,.advance 0,.advance 0,.read,.ack,.advance 1,.advance 1,
    .advance 1,.advance 1,.read,.ack,.advance 0]

theorem no_skip_of_in_order_twoSenders :
    ∃ s, runWhile (InOrder "u") (fun op s => Sync.next Env.steady "u" op s) twoSenders
      ⟨Host.steady smallBlocks,[],none,[]⟩ = some s ∧ NoSkip "u" s := by
  have hsome : (runWhile (InOrder "u") (fun op s => Sync.next Env.steady "u" op s) twoSenders
      ⟨Host.steady smallBlocks,[],none,[]⟩).isSome = true := by decide +kernel
  obtain ⟨s,hs⟩ := Option.isSome_iff_exists.mp hsome
  exact ⟨s,hs,no_skip_of_in_order Env.steady "u" smallBlocks (fun _ => none) 0 [] _ twoSenders s
    (newStore_steady smallBlocks) (by simp) (steps_of_runWhile twoSenders hs)⟩

/-- The first call draws 1 and stops; the second draws 2, is read and
acknowledged; then the first reaches the user's timeline. -/
def overtaken : List SyncOp :=
  [.draw ⟨"c",1,[1],["u"]⟩,.draw ⟨"d",2,[2],["u"]⟩,.advance 1,.advance 1,.advance 1,.advance 1,
    .advance 1,.read,.ack,.advance 0,.advance 0,.advance 0,.advance 0,.advance 0]

theorem overtaken_message_skipped :
    ∃ s, Sync.run Env.steady "u" overtaken ⟨Host.steady smallBlocks,[],none,[]⟩ = some s ∧
      (s.host.messages ⟨.user,"u"⟩).map (·.seqID) = [2,1] ∧ s.checkpoint "u" = 2 ∧
      s.seen = [0] ∧ ¬ NoSkip "u" s := by
  have hany : (Sync.run Env.steady "u" overtaken ⟨Host.steady smallBlocks,[],none,[]⟩).any
      (fun s => decide ((s.host.messages ⟨.user,"u"⟩).map (·.seqID) = [2,1] ∧
        s.checkpoint "u" = 2 ∧ s.seen = [0])) = true := by decide +kernel
  obtain ⟨s,hs,hp⟩ := (Option.any_eq_true _ _).mp hany
  obtain ⟨hmess,hcp,hseen⟩ := of_decide_eq_true hp
  refine ⟨s,hs,hmess,hcp,hseen,fun hno => ?_⟩
  obtain ⟨a,rest,hcons,-,hrest⟩ := List.map_eq_cons_iff.mp hmess
  obtain ⟨b,tail,rfl,hb,-⟩ := List.map_eq_cons_iff.mp hrest
  have hsecond := hno 1 b (by rw [hcons]; rfl)
  rw [hseen,hcp,hb] at hsecond
  simp at hsecond

end Imy.Storage
