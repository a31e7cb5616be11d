import Imy.Storage.LastSeqID
set_option autoImplicit false

/-!
What concurrent calls of `AddMessage` leave in the timelines of a store that was opened on
an empty directory, section by section and with any pattern of failing saves and refused
blocks: every message is in each of its targets as often as it was put there, and nothing
else is.
-/

namespace Imy.Storage
open Imy.Lib

/-- What a section leaves: each timeline has grown by `new`. -/
structure Moved (c : StoreConfig) (new : TimelineRef → List Message) (h t : Host) : Prop where
  tidy : Tidy c t
  generator : t.store.seqGenerator = h.store.seqGenerator
  found : ∀ r, (h.store.find r).isSome → (t.store.find r).isSome
  blocks : ∀ r, (h.views r).length ≤ (t.views r).length
  messages : ∀ r, t.messages r = h.messages r ++ new r

def landing (r : TimelineRef) (msg : Message) (r' : TimelineRef) : List Message :=
  if r' = r then [msg] else []

section Sections
variable {c : StoreConfig} {h t : Host} {r : TimelineRef} {env : Env} {msg : Message}

theorem Moved.of_views (ht : Tidy c t) (hgenerator : t.store.seqGenerator = h.store.seqGenerator)
    (hfound : ∀ r, (h.store.find r).isSome → (t.store.find r).isSome)
    (hviews : ∀ r, t.views r = h.views r) : Moved c (fun _ => []) h t where
  tidy := ht
  generator := hgenerator
  found := hfound
  blocks := fun r => Nat.le_of_eq (by rw [hviews r])
  messages := fun r => by rw [Host.messages_eq_views,Host.messages_eq_views,
    hviews r,List.append_nil]

theorem Moved.refl (ht : Tidy c h) : Moved c (fun _ => []) h h :=
  .of_views ht rfl (fun _ h => h) fun _ => rfl

theorem Moved.ready (ht : Tidy c h) (hr : r.Plain) (hm : Ready env r h t) :
    Moved c (fun _ => []) h t := by
  refine .of_views (ht.ready hr hm) (ht.ready_generator hr hm) (fun r' hf => ?_)
    (ht.ready_views hr hm)
  by_cases he : r' = r
  · exact he ▸ hm.found
  · rwa [hm.loadFrame.others r' he]

theorem Moved.grown {k : Int} {init : List BlockView} {b : BlockView} (ht : Tidy c h) (hr : r.Plain)
    (g : Grown k r msg init b h t) (hdisk : t.disk = h.disk) : Moved c (landing r msg) h t := by
  refine ⟨ht.grown hr g fun p _ => congrFun hdisk p,g.generator,fun r' hf => ?_,
    fun r' => ?_,fun r' => ?_⟩
  · by_cases he : r' = r
    · exact he ▸ g.found
    · rwa [g.others r' he]
  · by_cases he : r' = r
    · subst he
      rw [g.views]
      rcases g.origin with ⟨-,-,ho,-,-⟩ | ⟨ho,-,-⟩
      · simp [ho]
      · simp [ho]
    · simp only [Host.views,g.toFrame.timeline he]
      exact Nat.le_refl _
  · by_cases he : r' = r
    · subst he
      rw [g.messages,landing,if_pos rfl]
    · rw [landing,if_neg he,List.append_nil]
      simp only [Host.messages,g.toFrame.timeline he]

theorem Moved.stamp (ht : Tidy c h) (hf : (h.store.find r).isSome) :
    Moved c (fun _ => []) h (Storage.stamp r msg h) := by
  have hframe := Frame.putTimeline h r ((h.timeline r).setLastSeqID msg.seqID)
  have hfind : ∀ r', (Storage.stamp r msg h).store.find r' = none ↔ h.store.find r' = none := by
    intro r'
    by_cases he : r' = r
    · subst he
      have hsome : (Storage.stamp r' msg h).store.find r' ≠ none := by simp [Storage.stamp]
      have hsome' : h.store.find r' ≠ none := by
        rintro hnone
        simp [hnone] at hf
      exact iff_of_false hsome hsome'
    · rw [Storage.stamp,hframe.others r' he]
  have hviews : ∀ r', (Storage.stamp r msg h).views r' = h.views r' := by
    intro r'
    by_cases he : r' = r
    · subst he
      exact Host.views_putTimeline_setLastSeqID h r' msg.seqID
    · simp only [Host.views,Storage.stamp,hframe.timeline he]
  have hsome : ∀ r', ((Storage.stamp r msg h).store.find r').isSome ↔ (h.store.find r').isSome := by
    intro r'
    rw [Option.isSome_iff_ne_none,Option.isSome_iff_ne_none]
    exact (hfind r').not
  refine .of_views ⟨hframe.config.trans ht.config,?_,fun r' v hv => ht.named r' v (hviews r' ▸ hv),
    fun r' hk => ht.known r' ((hsome r').mp hk),fun r' hp hn => ?_⟩ ?_
      (fun r' hk => (hsome r').mpr hk) hviews
  · exact (Section.of_stamp ht.pointed).pointed
  · exact ht.unseen r' hp ((hfind r').mp hn)
  · simp [Storage.stamp]

theorem Tidy.withBlock (ht : Tidy c h) (hr : r.Plain) (nano : Int) (d : FileData) :
    Tidy c (h.withFile (getTimelineBlockFilePath c (r.blockID nano)) d) := by
  refine ⟨ht.config,ht.pointed,ht.named,ht.known,fun r' hp hn => ?_⟩
  rw [Host.withFile_disk,Function.update_of_ne (metaFilePath_ne_blockFilePath hp hr)]
  exact ht.unseen r' hp hn

theorem block_named (ht : Tidy c h) {b : BlockRef} (hb : b.pos < (h.views b.timeline).length) :
    ∃ nano, ((h.timeline b.timeline).block b.pos).blockID = b.timeline.blockID nano := by
  simp only [Host.views,List.length_map] at hb
  have hblock : (h.timeline b.timeline).block b.pos = (h.timeline b.timeline).blocks[b.pos] := by
    simp [Timeline.block,hb]
  rw [hblock]
  exact ht.named b.timeline _ (List.mem_map_of_mem (List.getElem_mem hb))

theorem wp_saveTimelineBlock_moved (env : Env) {b : BlockRef} (ht : Tidy c h)
    (hr : b.timeline.Plain) (hb : b.pos < (h.views b.timeline).length) :
    wp (saveTimelineBlock env b) (fun _ t => Moved c (fun _ => []) h t)
      (fun _ t => Moved c (fun _ => []) h t) h := by
  obtain ⟨nano,hname⟩ := block_named ht hb
  have hwritten :
      ∀ d, Moved c (fun _ => []) h (h.withFile
      (getTimelineBlockFilePath c (b.timeline.blockID nano)) d) :=
    fun d => .of_views (ht.withBlock hr nano d) rfl (fun _ hf => hf) fun _ => rfl
  simp only [saveTimelineBlock,wp_bind,wp_get,wp_modify,hname,ht.config]
  refine wp_mono (wp_writeFile env _ _ _ h) ?_ ?_
  · rintro _ t rfl
    have hm := hwritten (.gob ((h.timeline b.timeline).block b.pos).messages false)
    exact .of_views ⟨hm.tidy.config,hm.tidy.pointed,hm.tidy.named,hm.tidy.known,hm.tidy.unseen⟩ rfl
      (fun _ hf => hf) fun _ => rfl
  · rintro e t ⟨-,rfl | ⟨n,torn,rfl⟩⟩
    · exact .of_views ht.advance rfl (fun _ hf => hf) fun _ => rfl
    · exact hwritten _

theorem wp_saveFor_moved (env : Env) (ht : Tidy c h) (hf : (h.store.find r).isSome) :
    wp (saveFor env r) (fun _ t => Moved c (fun _ => []) h t)
      (fun _ t => Moved c (fun _ => []) h t) h := by
  have hsave : wp (saveTimelineMetadata env r) (fun _ t => Moved c (fun _ => []) h t)
      (fun _ t => Moved c (fun _ => []) h t) h := by
    refine wp_mono (wp_saveTimelineMetadata env r h) ?_ ?_
    · rintro _ t rfl
      rw [ht.config]
      exact .of_views (ht.withMeta hf _) rfl (fun _ hf => hf) fun _ => rfl
    · rintro e t ⟨-,rfl | rfl⟩
      · exact .of_views ht.advance rfl (fun _ hf => hf) fun _ => rfl
      · rw [ht.config]
        exact .of_views (ht.withMeta hf _) rfl (fun _ hf => hf) fun _ => rfl
  unfold saveFor
  cases r.type with
  | conv => exact hsave
  | user =>
    simp only [saveOne,wp_bind]
    refine wp_mono (wp_getOrCreateTimeline env r h) ?_ (fun _ _ he => he.elim)
    rintro _ t (⟨-,rfl⟩ | ⟨hnone,-⟩)
    · exact hsave
    · simp [hnone] at hf

end Sections

/-- How far a call has come: `done` are the targets that have the message. -/
def Sender.Served (f : Sender) (done : List TimelineRef) : Prop :=
  match f.stage with
  | .opening todo => done ++ todo = f.call.targets
  | .appending r todo => done ++ r :: todo = f.call.targets
  | .writing r _ todo => r ∈ done ∧ done ++ todo = f.call.targets
  | .stamping r todo => r ∈ done ∧ done ++ todo = f.call.targets
  | .recording todo => done = f.call.targets ∧ ∀ r ∈ todo, r ∈ done
  | .returned => done = f.call.targets
  | .failed => done <+: f.call.targets

/-- What holds of a call and its message. -/
structure Sender.Fair (f : Sender) (h : Host) (done : List TimelineRef) : Prop where
  served : f.Served done
  found : ∀ r ∈ done, (h.store.find r).isSome
  block : ∀ r b todo, f.stage = .writing r b todo →
    b.timeline = r ∧ b.pos < (h.views b.timeline).length
  counted : ∀ r, (h.messages r).count f.msg = done.count r

/-- The `i`-th call has the number `i+1`. -/
structure InSequence (st : Senders) : Prop where
  numbered : ∀ (i : Nat) f, st.calls[i]? = some f → f.msg.seqID = (i : Int)+1 ∧
    f.msg.convID = f.call.convID ∧ f.msg.senderID = f.call.senderID ∧ f.msg.data = f.call.data
  generator : st.host.store.seqGenerator = st.calls.length

structure Exact (c : StoreConfig) (st : Senders) : Prop extends InSequence st where
  tidy : Tidy c st.host
  plain : ∀ f ∈ st.calls, f.call.Plain
  fair : ∀ f ∈ st.calls, ∃ done, f.Fair st.host done
  origin : ∀ r, ∀ m ∈ st.host.messages r, ∃ f ∈ st.calls, f.msg = m

section Calls
variable {c : StoreConfig} {env : Env} {st st' : Senders} {i : Nat} {f : Sender} {h t : Host}
  {done : List TimelineRef}

theorem Sender.Served.targets (hs : f.Served done) : done <+: f.call.targets := by
  unfold Sender.Served at hs
  split at hs
  · exact ⟨_,hs⟩
  · exact ⟨_,hs⟩
  · exact ⟨_,hs.2⟩
  · exact ⟨_,hs.2⟩
  · exact hs.1 ▸ List.prefix_refl _
  · exact hs ▸ List.prefix_refl _
  · exact hs

/-- Another call's section adds messages with other numbers only. -/
theorem Sender.Fair.elsewhere (hf : f.Fair h done) {new : TimelineRef → List Message}
    (hm : Moved c new h t) (hother : ∀ r, f.msg ∉ new r) : f.Fair t done where
  served := hf.served
  found := fun r hr => hm.found r (hf.found r hr)
  block := fun r b todo hstage => (hf.block r b todo hstage).imp id fun hlt =>
    Nat.lt_of_lt_of_le hlt (hm.blocks b.timeline)
  counted := fun r => by
    rw [hm.messages r,List.count_append,hf.counted r,List.count_eq_zero_of_not_mem
      (hother r),Nat.add_zero]

theorem InSequence.eq_of_msg (ho : InSequence st) {j : Nat} {g : Sender}
    (hf : st.calls[i]? = some f) (hg : st.calls[j]? = some g) (hmsg : f.msg = g.msg) : i = j := by
  have hi := (ho.numbered i f hf).1
  have hj := (ho.numbered j g hg).1
  rw [hmsg] at hi
  omega

/-- A section of call `i`, which may have put the message into one more timeline. -/
theorem Exact.moved (he : Exact c st) (hf : st.calls[i]? = some f) {stage : SendStage}
    {new : TimelineRef → List Message} (hm : Moved c new st.host t)
    (hnew : ∀ r, ∀ m ∈ new r, m = f.msg)
    (hfair : ∃ done, (f.to stage).Fair t done) : Exact c ⟨t,st.calls.set i (f.to stage)⟩ := by
  have hmem := List.mem_of_getElem? hf
  have hlt := (List.getElem?_eq_some_iff.mp hf).1
  refine ⟨⟨fun j g hg => ?_,?_⟩,hm.tidy,fun g hg => ?_,fun g hg => ?_,fun r m hr => ?_⟩
  · by_cases hji : j = i
    · subst hji
      rw [List.getElem?_set_self hlt] at hg
      cases hg
      exact he.numbered j f hf
    · rw [List.getElem?_set_ne (Ne.symm hji)] at hg
      exact he.numbered j g hg
  · rw [List.length_set,hm.generator]
    exact he.generator
  · rcases List.mem_or_eq_of_mem_set hg with hg | rfl
    · exact he.plain g hg
    · exact he.plain f hmem
  · obtain ⟨j,hj⟩ := List.mem_iff_getElem?.mp hg
    by_cases hji : j = i
    · subst hji
      rw [List.getElem?_set_self hlt] at hj
      cases hj
      exact hfair
    · rw [List.getElem?_set_ne (Ne.symm hji)] at hj
      obtain ⟨done,hdone⟩ := he.fair g (List.mem_of_getElem? hj)
      refine ⟨done,hdone.elsewhere hm fun r hin => hji ?_⟩
      exact he.eq_of_msg hj hf (hnew r _ hin)
  · rw [hm.messages r] at hr
    rcases List.mem_append.mp hr with hr | hr
    · obtain ⟨g,hg,rfl⟩ := he.origin r m hr
      obtain ⟨j,hj⟩ := List.mem_iff_getElem?.mp hg
      by_cases hji : j = i
      · subst hji
        rw [hf] at hj
        cases hj
        exact ⟨f.to stage,List.mem_set hlt _,rfl⟩
      · exact ⟨g,List.mem_of_getElem? (by rw [List.getElem?_set_ne (Ne.symm hji)]; exact hj),rfl⟩
    · exact ⟨f.to stage,List.mem_set hlt _,(hnew r m hr).symm⟩

theorem Sender.Fair.onward (hf : f.Fair h done) (hm : Moved c (fun _ => []) h t) {stage : SendStage}
    (hserved : (f.to stage).Served done) (hblock : ∀ r b todo, stage = .writing r b todo →
      b.timeline = r ∧ b.pos < (t.views b.timeline).length) : (f.to stage).Fair t done where
  served := hserved
  found := fun r hr => hm.found r (hf.found r hr)
  block := hblock
  counted := fun r => by
    rw [hm.messages r,List.append_nil]
    exact hf.counted r

theorem Exact.quiet (he : Exact c st) (hf : st.calls[i]? = some f) {stage : SendStage}
    (hdone : f.Fair st.host done)
    (hm : Moved c (fun _ => []) st.host t) (hserved : (f.to stage).Served done)
    (hstage : ∀ r b todo, stage ≠ .writing r b todo) : Exact c ⟨t,st.calls.set i (f.to stage)⟩ :=
  he.moved hf hm (fun _ _ hin => absurd hin List.not_mem_nil)
    ⟨done,hdone.onward hm hserved fun r b todo hwriting => absurd hwriting (hstage r b todo)⟩

theorem Moved.andThen {new : TimelineRef → List Message} {u : Host} (hm : Moved c new h t)
    (hm' : Moved c (fun _ => []) t u) : Moved c new h u where
  tidy := hm'.tidy
  generator := hm'.generator.trans hm.generator
  found := fun r hf => hm'.found r (hm.found r hf)
  blocks := fun r => Nat.le_trans (hm.blocks r) (hm'.blocks r)
  messages := fun r => by rw [hm'.messages r,List.append_nil,hm.messages r]

theorem landing_eq {r r' : TimelineRef} {msg m : Message} (hm : m ∈ landing r msg r') :
    m = msg := by
  unfold landing at hm
  split at hm
  · exact List.mem_singleton.mp hm
  · cases hm

theorem Sender.Fair.landed (hf : f.Fair h done) {r : TimelineRef}
    (hm : Moved c (landing r f.msg) h t)
    (hfound : (t.store.find r).isSome) {stage : SendStage}
    (hserved : (f.to stage).Served (done ++ [r]))
    (hblock : ∀ r b todo, stage = .writing r b todo →
      b.timeline = r ∧ b.pos < (t.views b.timeline).length) :
    (f.to stage).Fair t (done ++ [r]) where
  served := hserved
  found := fun r' hr' => by
    rcases List.mem_append.mp hr' with hr' | hr'
    · exact hm.found r' (hf.found r' hr')
    · exact List.mem_singleton.mp hr' ▸ hfound
  block := hblock
  counted := fun r' => by
    change (t.messages r').count f.msg = _
    rw [hm.messages r',List.count_append,hf.counted r']
    by_cases he : r' = r
    · subst he
      simp [landing]
    · rw [landing,if_neg he,List.count_nil,count_concat_of_ne he,Nat.add_zero]

theorem Exact.appending (he : Exact c st) (hf : st.calls[i]? = some f) {r : TimelineRef}
    {todo : List TimelineRef} (hstage : f.stage = .appending r todo) :
    Exact c ⟨(f.step env st.host).2,st.calls.set i (f.step env st.host).1⟩ := by
  have hmem := List.mem_of_getElem? hf
  obtain ⟨done,hdone⟩ := he.fair f hmem
  have hserved := hdone.served
  simp only [Sender.Served,hstage] at hserved
  have hr : r.Plain := he.plain f hmem r (hserved ▸ List.mem_append_right _ List.mem_cons_self)
  have hnext : done ++ [r] ++ todo = f.call.targets := by
    rw [List.append_assoc,List.singleton_append]
    exact hserved
  simp only [Sender.step,hstage]
  cases hx : Timeline.append env r f.msg st.host with
  | error e t =>
    obtain ⟨-,rfl,-⟩ := wp_error (wp_append env r f.msg (he.tidy.pointed r)) hx
    exact he.quiet hf hdone (.of_views he.tidy.advance rfl (fun _ hf => hf) fun _ => rfl)
      ⟨_,hserved⟩ (by simp)
  | ok save t =>
    obtain ⟨init,b,g,hdisk,-,hsave⟩ := wp_ok (wp_append env r f.msg (he.tidy.pointed r)) hx
    have hm := Moved.grown he.tidy hr g hdisk
    cases save with
    | none =>
      have hstamp : Moved c (fun _ => []) t (stamp r f.msg t) := Moved.stamp hm.tidy g.found
      have hm' := hm.andThen hstamp
      have hfound : ((stamp r f.msg t).store.find r).isSome := by simp [stamp]
      exact he.moved hf hm' (fun _ _ => landing_eq) ⟨_,hdone.landed hm' hfound hnext (by simp)⟩
    | some blockToSave =>
      have hblock : blockToSave = ⟨r,init.length⟩ := by
        split at hsave
        · exact Option.some.inj hsave
        · cases hsave
      refine he.moved hf hm (fun _ _ => landing_eq) ⟨_,hdone.landed hm g.found ⟨?_,hnext⟩ ?_⟩
      · exact List.mem_append_right _ List.mem_cons_self
      · rintro r' b' todo' ⟨⟩
        rw [hblock]
        refine ⟨rfl,?_⟩
        simp [g.views]

theorem Exact.writing (he : Exact c st) (hf : st.calls[i]? = some f)
    {r : TimelineRef} {b : BlockRef}
    {todo : List TimelineRef} (hstage : f.stage = .writing r b todo) :
    Exact c ⟨(f.step env st.host).2,st.calls.set i (f.step env st.host).1⟩ := by
  have hmem := List.mem_of_getElem? hf
  obtain ⟨done,hdone⟩ := he.fair f hmem
  have hserved := hdone.served
  simp only [Sender.Served,hstage] at hserved
  obtain ⟨hin,htodo⟩ := hserved
  obtain ⟨hb,hlt⟩ := hdone.block r b todo hstage
  have hr : b.timeline.Plain := hb ▸ he.plain f hmem r (htodo ▸ List.mem_append_left _ hin)
  have hw := wp_saveTimelineBlock_moved env he.tidy hr hlt
  simp only [Sender.step,hstage]
  cases hx : saveTimelineBlock env b st.host with
  | ok a t =>
    have hm := wp_ok hw hx
    exact he.quiet hf hdone hm ⟨hin,htodo⟩ (by simp)
  | error e t =>
    have hm := wp_error hw hx
    exact he.quiet hf hdone hm ⟨_,htodo⟩ (by simp)

theorem Exact.recording (he : Exact c st) (hf : st.calls[i]? = some f) {r : TimelineRef}
    {todo : List TimelineRef} (hstage : f.stage = .recording (r :: todo)) :
    Exact c ⟨(f.step env st.host).2,st.calls.set i (f.step env st.host).1⟩ := by
  obtain ⟨done,hdone⟩ := he.fair f (List.mem_of_getElem? hf)
  have hserved := hdone.served
  simp only [Sender.Served,hstage] at hserved
  obtain ⟨hall,htodo⟩ := hserved
  have hw := wp_saveFor_moved env he.tidy (hdone.found r (htodo r List.mem_cons_self))
  simp only [Sender.step,hstage]
  cases hx : saveFor env r st.host with
  | ok a t =>
    have hm := wp_ok hw hx
    exact he.quiet hf hdone hm ⟨hall,fun r' hr' => htodo r' (List.mem_cons_of_mem _ hr')⟩ (by simp)
  | error e t =>
    have hm := wp_error hw hx
    exact he.quiet hf hdone hm (hall ▸ List.prefix_refl _) (by simp)

theorem Exact.advance (he : Exact c st) (hn : st.next env (.advance i) = some st') :
    Exact c st' := by
  simp only [Senders.next] at hn
  split at hn
  · cases hn
  rename_i f hf
  cases hn
  have hmem := List.mem_of_getElem? hf
  obtain ⟨done,hdone⟩ := he.fair f hmem
  have hserved := hdone.served
  cases hstage : f.stage with
  | opening todo =>
    simp only [Sender.Served,hstage] at hserved
    cases todo with
    | nil =>
      rw [List.append_nil] at hserved
      simp only [Sender.step,hstage]
      exact he.quiet hf hdone (.refl he.tidy) ⟨hserved,fun r hr => hserved ▸ hr⟩ (by simp)
    | cons r todo =>
      have hr : r.Plain := he.plain f hmem r (hserved ▸ List.mem_append_right _ List.mem_cons_self)
      have hready : Ready env r st.host (final (getOrCreateTimeline env r) st.host) :=
        final_of_wp (wp_mono (wp_getOrCreateTimeline env r st.host) (fun _ _ h => h)
          fun _ _ he => he.elim)
      simp only [Sender.step,hstage]
      exact he.quiet hf hdone (.ready he.tidy hr hready) hserved (by simp)
  | appending r todo => exact he.appending hf hstage
  | writing r b todo => exact he.writing hf hstage
  | stamping r todo =>
    simp only [Sender.Served,hstage] at hserved
    simp only [Sender.step,hstage]
    exact he.quiet hf hdone (.stamp he.tidy (hdone.found r hserved.1)) hserved.2 (by simp)
  | recording todo =>
    cases todo with
    | nil =>
      simp only [Sender.Served,hstage] at hserved
      simp only [Sender.step,hstage]
      exact he.quiet hf hdone (.refl he.tidy) hserved.1 (by simp)
    | cons r todo => exact he.recording hf hstage
  | returned =>
    have hsame : f.to .returned = f := by rw [← hstage]; rfl
    simp only [Sender.step,hstage]
    rw [← hsame]
    exact he.quiet hf hdone (.refl he.tidy) (hsame.symm ▸ hserved) (by simp)
  | failed =>
    have hsame : f.to .failed = f := by rw [← hstage]; rfl
    simp only [Sender.step,hstage]
    rw [← hsame]
    exact he.quiet hf hdone (.refl he.tidy) (hsame.symm ▸ hserved) (by simp)

theorem Exact.draw {call : SendCall} (he : Exact c st) (hplain : call.Plain)
    (hn : st.next env (.draw call) = some st') : Exact c st' := by
  cases hn
  have hlater : ∀ (j : Nat) g, st.calls[j]? = some g → g.msg.seqID ≤ st.calls.length := by
    intro j g hg
    have hlt := (List.getElem?_eq_some_iff.mp hg).1
    rw [(he.numbered j g hg).1]
    omega
  have hnew : ∀ r, call.message env st.host ∉ st.host.messages r := by
    intro r hin
    obtain ⟨g,hg,hmsg⟩ := he.origin r _ hin
    obtain ⟨j,hj⟩ := List.mem_iff_getElem?.mp hg
    have hle := hlater j g hj
    rw [hmsg,SendCall.message,he.generator] at hle
    dsimp only at hle
    omega
  refine ⟨⟨fun j g hg => ?_,?_⟩,he.tidy.drawn,fun g hg => ?_,fun g hg => ?_,fun r m hr => ?_⟩
  · by_cases hlt : j < st.calls.length
    · rw [List.getElem?_append_left hlt] at hg
      exact he.numbered j g hg
    · have hle := (List.getElem?_eq_some_iff.mp hg).1
      rw [List.length_append,List.length_singleton] at hle
      have heq : j = st.calls.length := by omega
      subst heq
      rw [List.getElem?_concat_length] at hg
      cases hg
      exact ⟨by rw [SendCall.message,he.generator],rfl,rfl,rfl⟩
  · simp [he.generator]
  · rcases List.mem_append.mp hg with hg | hg
    · exact he.plain g hg
    · rw [List.mem_singleton.mp hg]
      exact hplain
  · rcases List.mem_append.mp hg with hg | hg
    · obtain ⟨done,hdone⟩ := he.fair g hg
      exact ⟨done,hdone.served,hdone.found,by simpa using hdone.block,by simpa using hdone.counted⟩
    · rw [List.mem_singleton.mp hg]
      refine ⟨[],rfl,fun r hr => absurd hr List.not_mem_nil,by simp,fun r => ?_⟩
      rw [Host.drawn_messages,List.count_nil,List.count_eq_zero]
      exact hnew r
  · obtain ⟨g,hg,hmsg⟩ := he.origin r m (by simpa using hr)
    exact ⟨g,List.mem_append_left _ hg,hmsg⟩

theorem Exact.opened {disk : Path → Option FileData} {tick : Nat}
    {births : List (TimelineRef × Int)}
    (hopen : newStore env c disk tick births = .ok h) (hempty : EmptyDir c disk) :
    Exact c ⟨h,[]⟩ := by
  obtain ⟨-,hf,-,-,hgenerator,-⟩ := newStore_ok hopen
  refine ⟨⟨by simp,by simp [hgenerator]⟩,Tidy.newStore hopen hempty,by simp,by simp,
    fun r m hm => ?_⟩
  simp [Host.messages_eq_views,Host.views_of_find_none (hf r)] at hm

end Calls

def SenderOp.Plain : SenderOp → Prop
  | .draw call => call.Plain
  | .advance _ => True

instance (op : SenderOp) : Decidable op.Plain :=
  match op with
  | .draw call => inferInstanceAs (Decidable call.Plain)
  | .advance _ => inferInstanceAs (Decidable True)

/-- However concurrent calls overlap and whatever fails, the `i`-th call has the number `i+1`,
its message is in each timeline once for every time that a first part of its targets, for a
call that returned nil all of them, names it, and no timeline holds any other message. -/
theorem delivered_exactly_once (env : Env) (c : StoreConfig) (disk : Path →
    Option FileData) (tick : Nat)
    (births : List (TimelineRef × Int)) (h : Host) (hopen : newStore env c disk tick births = .ok h)
    (hempty : EmptyDir c disk) (ops : List SenderOp) (st : Senders)
    (hrun : Steps (fun op a b => op.Plain ∧ a.next env op = some b) ⟨h,[]⟩ ops st) :
    (∀ (i : Nat) f, st.calls[i]? = some f →
      (f.msg.seqID = (i : Int)+1 ∧ f.msg.convID = f.call.convID ∧
        f.msg.senderID = f.call.senderID ∧ f.msg.data = f.call.data) ∧
      ∃ done, done <+: f.call.targets ∧ (f.stage = .returned → done = f.call.targets) ∧
        ∀ r, (st.host.messages r).count f.msg = done.count r) ∧
      ∀ r, ∀ m ∈ st.host.messages r, ∃ f ∈ st.calls, f.msg = m := by
  have he : Exact c st := by
    refine hrun.invariant (fun op a b hinv hstep => ?_) (.opened hopen hempty)
    cases op with
    | draw call => exact hinv.draw hstep.1 hstep.2
    | advance i => exact hinv.advance hstep.2
  refine ⟨fun i f hf => ⟨he.numbered i f hf,?_⟩,he.origin⟩
  obtain ⟨done,hdone⟩ := he.fair f (List.mem_of_getElem? hf)
  refine ⟨done,hdone.served.targets,fun hreturned => ?_,hdone.counted⟩
  have hserved := hdone.served
  rwa [Sender.Served,hreturned] at hserved

/-- Two calls that mention one user, the one of them twice, section by section in turn. -/
def mentioned : List SenderOp :=
  [.draw ⟨"c",1,[1],["u","u"]⟩,.draw ⟨"c",2,[2],["u"]⟩] ++
    (List.range 36).map fun i => .advance (i%2)

theorem delivered_exactly_once_mentioned :
    ∃ st f, runWhile (fun op _ => op.Plain) (Senders.next Env.steady)
      mentioned ⟨Host.steady smallBlocks,[]⟩ = some st ∧ st.calls[0]? = some f ∧
        f.stage = .returned ∧
    (st.host.messages ⟨.user,"u"⟩).count f.msg = 2 := by
  have hany : (runWhile (fun op _ => op.Plain) (Senders.next Env.steady) mentioned
      ⟨Host.steady smallBlocks,[]⟩).map (fun st => (st.calls[0]?).map fun f => (f.call,f.stage)) =
        some (some (⟨"c",1,[1],["u","u"]⟩,.returned)) := by decide +kernel
  obtain ⟨st,hst,hfirst⟩ := Option.map_eq_some_iff.mp hany
  obtain ⟨f,hf,hpair⟩ := Option.map_eq_some_iff.mp hfirst
  obtain ⟨hcall,hreturned⟩ := Prod.mk.inj hpair
  obtain ⟨-,done,-,hall,hcount⟩ :=
    (delivered_exactly_once Env.steady smallBlocks (fun _ => none) 0 [] _
    (newStore_steady smallBlocks) (fun _ _ => rfl) mentioned st
      (steps_of_runWhile mentioned hst)).1 0 f hf
  refine ⟨st,f,hst,hf,hreturned,?_⟩
  rw [hcount,hall hreturned,hcall]
  decide

end Imy.Storage
