import Imy.Storage.CrashImage
set_option autoImplicit false

namespace Imy.Storage
open Imy.Lib

/-- Messages that a load could have read: the blocks of a first part of the saved
list, as far as their files are there. -/
def ReadFrom (c : StoreConfig) (disk : Path → Option FileData) (r : TimelineRef)
    (old : List Message) : Prop :=
  ∃ ids, ids <+: savedIDs c disk r ∧ old = (ids.filterMap (savedView c disk)).flatMap (·.messages)

/-- Only block files differ. -/
def OnlyBlocks (c : StoreConfig) (disk disk' : Path → Option FileData) : Prop :=
  ∀ p, disk' p ≠ disk p → ∃ id, p = getTimelineBlockFilePath c id

/-- The targets `done` have the message, once for every mention. A timeline that
had to be loaded for that starts with what was read. -/
structure Sent (msg : Message) (done : List TimelineRef) (h t : Host) : Prop where
  pointed : t.Pointed
  config : t.store.config = h.store.config
  found : ∀ r, (h.store.find r).isSome ∨ r ∈ done → (t.store.find r).isSome
  known : ∀ r, (h.store.find r).isSome →
    t.messages r = h.messages r ++ List.replicate (done.count r) msg
  loaded : ∀ r, h.store.find r = none → (t.store.find r).isSome →
    ∃ disk old, OnlyBlocks h.store.config h.disk disk ∧ ReadFrom h.store.config disk r old ∧
      t.messages r = old ++ List.replicate (done.count r) msg

section Sent
variable {msg : Message} {done : List TimelineRef} {h t m : Host} {r : TimelineRef} {env : Env}

theorem Sent.refl (hp : h.Pointed) (msg : Message) : Sent msg [] h h :=
  ⟨hp,rfl,fun r hr => by simpa using hr,fun r _ => by simp,
    fun r hn hf => by simp [hn] at hf⟩

theorem ReadFrom.of_loaded (hl : Loaded env r h t) :
    ReadFrom h.store.config h.disk r (t.messages r) := by
  obtain ⟨ids,hpre,hb,-⟩ := hl.blocks
  refine ⟨ids,hpre,?_⟩
  rw [Host.messages_eq_views,Host.views,hb,List.map_filterMap]
  congr 1
  exact List.filterMap_congr fun id _ => savedBlock_view _ _ _ id

theorem Sent.ready (hs : Sent msg done h t) (hd : OnlyBlocks h.store.config h.disk t.disk)
    (hm : Ready env r t m) : Sent msg done h m := by
  have hf := hm.loadFrame
  refine ⟨hm.pointed hs.pointed,hf.config.trans hs.config,
    fun r' hr' => hm.found_of (hs.found r' hr'),?_,?_⟩
  · intro r' hr'
    rw [← hs.known r' hr']
    rcases hm with ⟨-,rfl⟩ | ⟨hn,hl⟩
    · rfl
    · have he : r' ≠ r := by
        rintro rfl
        have := hs.found r' (Or.inl hr')
        simp [hn] at this
      simp only [Host.messages,hl.toFrame.timeline he]
  · intro r' hn hfound
    rcases hm with ⟨-,rfl⟩ | ⟨hnt,hl⟩
    · exact hs.loaded r' hn hfound
    · by_cases he : r' = r
      · -- just loaded, so it is not among those already served
        subst he
        have hnot : r' ∉ done := by
          intro hmem
          have := hs.found r' (Or.inr hmem)
          simp [hnt] at this
        have hread := ReadFrom.of_loaded hl
        rw [hs.config] at hread
        exact ⟨t.disk,m.messages r',hd,hread,by simp [List.count_eq_zero.mpr hnot]⟩
      · rw [hl.others r' he] at hfound
        obtain ⟨disk,old,hdisk,hread,hmess⟩ := hs.loaded r' hn hfound
        refine ⟨disk,old,hdisk,hread,?_⟩
        simpa only [Host.messages,hl.toFrame.timeline he] using hmess

theorem Sent.grown {k : Int} {init : List BlockView} {b : BlockView} (hs : Sent msg done h m)
    (hr : (m.store.find r).isSome) (g : Grown k r msg init b m t) : Sent msg (done ++ [r]) h t := by
  have hmess : ∀ r' old, m.messages r' = old ++ List.replicate (done.count r') msg →
      t.messages r' = old ++ List.replicate ((done ++ [r]).count r') msg := by
    intro r' old hold
    by_cases he : r' = r
    · subst he
      rw [g.messages,hold,List.append_assoc]
      simp [List.replicate_add]
    · rw [count_concat_of_ne he,← hold]
      simp only [Host.messages,g.toFrame.timeline he]
  refine ⟨g.allPointed hs.pointed,g.config.trans hs.config,?_,fun r' hr' =>
    hmess r' _ (hs.known r' hr'),?_⟩
  · intro r' hr'
    by_cases he : r' = r
    · exact he ▸ g.found
    · rw [g.others r' he]
      exact hs.found r' (hr'.imp id fun hmem => by simpa [he] using hmem)
  · intro r' hn hfound
    have hfm : (m.store.find r').isSome := by
      by_cases he : r' = r
      · exact he ▸ hr
      · rwa [g.others r' he] at hfound
    obtain ⟨disk,old,hdisk,hread,hold⟩ := hs.loaded r' hn hfm
    exact ⟨disk,old,hdisk,hread,hmess r' old hold⟩

theorem Sent.withFile (hs : Sent msg done h t) (p : Path) (d : FileData) :
    Sent msg done h (t.withFile p d) :=
  ⟨hs.pointed,hs.config,hs.found,hs.known,hs.loaded⟩

theorem Sent.advance (hs : Sent msg done h t) : Sent msg done h t.advance :=
  ⟨hs.pointed,hs.config,hs.found,hs.known,hs.loaded⟩

theorem OnlyBlocks.trans {c : StoreConfig} {d d' d'' : Path → Option FileData}
    (h₁ : OnlyBlocks c d d') (h₂ : OnlyBlocks c d' d'') : OnlyBlocks c d d'' := by
  intro p hp
  by_cases he : d' p = d p
  · exact h₂ p (he ▸ hp)
  · exact h₁ p he

theorem Added.onlyBlocks {init : List BlockView} {b : BlockView} (ha : Added r msg init b m t) :
    OnlyBlocks m.store.config m.disk t.disk := by
  intro p hp
  by_contra hno
  exact hp (ha.disk_of_ne fun he => hno ⟨b.id,he⟩)

def Broken (ts done : List TimelineRef) (e : StoreError) (h : Host) : Prop :=
  done <+: ts ∧
    ((e = .capacityExceeded ∧ done.length < ts.length ∧
        (done = [] → h.store.config.maxCapacity ≤ h.store.currentCapacity ∧
          ∀ r ∈ ts.head?, (h.store.find r).isSome → h.Refuses r)) ∨
      (e = .io ∧ done ≠ []))

theorem wp_deliverAll_sent (env : Env) (msg : Message) (ts : List TimelineRef) (hp : h.Pointed) :
    wp (forM ts (deliver env msg)) (fun _ t => Sent msg ts h t)
      (fun e t => ∃ done, Broken ts done e h ∧ Sent msg done h t ∧
        ∀ r ∈ ts.head?, (t.store.find r).isSome) h := by
  have hw : wp (forM ts (deliver env msg))
      (fun _ t => Sent msg ts h t ∧ OnlyBlocks h.store.config h.disk t.disk ∧
        (ts = [] → t = h))
      (fun e t => ∃ done, Broken ts done e h ∧ Sent msg done h t ∧
        ∀ r ∈ ts.head?, (t.store.find r).isSome) h := by
    refine wp_forM ts (I := fun done t => Sent msg done h t ∧
      OnlyBlocks h.store.config h.disk t.disk ∧ (done = [] → t = h))
      ⟨Sent.refl hp msg,fun p hne => (hne rfl).elim,fun _ => rfl⟩ ?_
    rintro done r rest t hts ⟨hs,hd,hfirst⟩
    refine wp_mono (wp_deliver env msg r hs.pointed) ?_ ?_
    · rintro _ u ⟨m,hm,init,b,ha⟩
      refine ⟨(hs.ready hd hm).grown hm.found ha.toGrown,?_,by simp⟩
      have hb := ha.onlyBlocks
      rw [hm.loadFrame.config,hs.config,hm.loadFrame.disk] at hb
      exact hd.trans hb
    · rintro e u ⟨m,hm,⟨he,rfl,hneeds,hcap⟩ | ⟨he,init,b,hh⟩⟩
      · refine ⟨done,⟨⟨r :: rest,hts.symm⟩,Or.inl ⟨he,by simp [hts],fun hnil => ?_⟩⟩,
          (hs.ready hd hm).advance,?_⟩
        · obtain rfl := hfirst hnil
          rw [hm.loadFrame.config,hm.loadFrame.capacity] at hcap
          refine ⟨hcap,fun r' hr' hf => ?_⟩
          simp only [hts,hnil,List.nil_append,List.head?_cons,Option.mem_def,
            Option.some.injEq] at hr'
          subst hr'
          rcases hm with ⟨-,rfl⟩ | ⟨hn,-⟩
          · exact ⟨hneeds,hcap⟩
          · simp [hn] at hf
        · intro r' hr'
          cases done with
          | nil =>
            simp only [hts,List.nil_append,List.head?_cons,Option.mem_def,Option.some.injEq] at hr'
            exact hr' ▸ hm.found
          | cons r₀ done =>
            simp only [hts,List.cons_append,List.head?_cons,Option.mem_def,Option.some.injEq] at hr'
            exact hm.found_of (hs.found r' (Or.inr (by simp [hr'])))
      · have hsent := (hs.ready hd hm).grown hm.found hh.toGrown
        refine ⟨done ++ [r],⟨⟨rest,by simp [hts]⟩,Or.inr ⟨he,by simp⟩⟩,hsent,fun r' hr' => ?_⟩
        refine hsent.found r' (Or.inr ?_)
        cases done with
        | nil =>
          simp only [hts,List.nil_append,List.head?_cons,Option.mem_def,Option.some.injEq] at hr'
          simp [hr']
        | cons r₀ done =>
          simp only [hts,List.cons_append,List.head?_cons,Option.mem_def,Option.some.injEq] at hr'
          simp [hr']
  exact wp_mono hw (fun _ _ ht => ht.1) (fun _ _ he => he)

theorem wp_saveMetadata_sent (env : Env) (hs : Sent msg done h t) (r : TimelineRef) :
    wp (saveTimelineMetadata env r) (fun _ u => Sent msg done h u)
      (fun e u => e = .io ∧ Sent msg done h u) t := by
  refine wp_mono (wp_saveTimelineMetadata env r t) ?_ ?_
  · rintro _ u rfl
    exact hs.withFile _ _
  · rintro e u ⟨he,rfl | rfl⟩
    · exact ⟨he,hs.advance⟩
    · exact ⟨he,hs.withFile _ _⟩

theorem wp_saveAll_sent (env : Env) (hs : Sent msg done h t) (ts : List TimelineRef)
    (hts : ∀ r ∈ ts, r ∈ done) :
    wp (forM ts (saveOne env)) (fun _ u => Sent msg done h u)
      (fun e u => e = .io ∧ Sent msg done h u) t := by
  refine wp_forM ts (I := fun _ u => Sent msg done h u) hs ?_
  intro _ r rest u hsplit hu
  have hf := hu.found r (Or.inr (hts r (by simp [hsplit])))
  simp only [saveOne,wp_bind]
  refine wp_mono (wp_getOrCreateTimeline env r u) ?_ (fun _ _ he => he.elim)
  rintro _ m (⟨-,rfl⟩ | ⟨hn,-⟩)
  · exact wp_saveMetadata_sent env hu r
  · simp [hn] at hf

theorem Sent.of_drawn (hs : Sent msg done h.drawn t) : Sent msg done h t :=
  ⟨hs.pointed,hs.config,hs.found,fun r hr => by rw [hs.known r hr,Host.drawn_messages],hs.loaded⟩

/-- Everything a call can do to the timelines, from any state. -/
theorem wp_send_sent (env : Env) (s : SendCall) (hp : h.Pointed) :
    wp (s.run env) (fun _ t => Sent (s.message env h) s.targets h t)
      (fun e t => ∃ done, Broken s.targets done e h ∧ Sent (s.message env h) done h t ∧
        (t.store.find s.conv).isSome) h := by
  rw [wp_send]
  have hall : ∀ {e : StoreError}, e = .io → Broken s.targets s.targets e h := fun he =>
    ⟨List.prefix_rfl,Or.inr ⟨he,by simp [SendCall.targets]⟩⟩
  have hpd : h.drawn.Pointed := hp
  have hconv : ∀ {u : Host}, Sent (s.message env h) s.targets h u → (u.store.find s.conv).isSome :=
    fun hu => hu.found s.conv (Or.inr List.mem_cons_self)
  refine wp_mono (wp_deliverAll_sent env _ s.targets hpd) ?_ ?_
  · intro _ t ht
    refine wp_mono (wp_saveMetadata_sent env ht.of_drawn s.conv) ?_
      (fun e u hu => ⟨s.targets,hall hu.1,hu.2,hconv hu.2⟩)
    intro _ u hu
    exact wp_mono (wp_saveAll_sent env hu s.users fun r hr => by simp [SendCall.targets,hr])
      (fun _ _ hv => hv) (fun e v hv => ⟨s.targets,hall hv.1,hv.2,hconv hv.2⟩)
  · intro e t hbroken
    obtain ⟨done,hb,hs,hf⟩ := hbroken
    exact ⟨done,hb,hs.of_drawn,hf s.conv rfl⟩

end Sent

/-- The states of a store on any disk, after any operations, failed ones included. -/
inductive Reachable (env : Env) : Host → Prop where
  | opened {c : StoreConfig} {disk : Path → Option FileData} {tick : Nat}
      {births : List (TimelineRef × Int)} {h : Host}
      (ho : newStore env c disk tick births = .ok h) : Reachable env h
  | exec {h : Host} (op : StoreOp) (hr : Reachable env h) : Reachable env (final (op.exec env) h)

theorem wp_exec_pointed (env : Env) (op : StoreOp) {h : Host} (hp : h.Pointed) :
    wp (op.exec env) (fun _ t => t.Pointed) (fun _ t => t.Pointed) h := by
  have touched : ∀ r, wp (getOrCreateTimeline env r) (fun _ t => t.Pointed)
      (fun _ t => t.Pointed) h := by
    intro r
    refine wp_mono (wp_getOrCreateTimeline env r h) ?_ (fun _ _ he => he.elim)
    intro _ m hm
    have hready : Ready env r h m := hm
    exact hready.pointed hp
  cases op with
  | addMessage s =>
    exact wp_mono (wp_send_sent env s hp) (fun _ _ ht => ht.pointed)
      (fun _ _ ⟨_,_,ht,_⟩ => ht.pointed)
  | updateUserCheckpoint u n => exact hp
  | getConvMessages c limit before =>
    simp only [StoreOp.exec,getConvMessages,getOrCreateConvTimeline,wp_bind,wp_get,wp_pure]
    exact touched ⟨.conv,c⟩
  | getMessagesAfterCheckpoint u =>
    simp only [StoreOp.exec,getMessagesAfterCheckpoint,getUserCheckpoint,getOrCreateUserTimeline,
      wp_bind,wp_get,wp_pure]
    exact touched ⟨.user,u⟩

theorem Reachable.pointed {env : Env} {h : Host} (hr : Reachable env h) : h.Pointed := by
  induction hr with
  | opened ho =>
    intro r
    rw [Host.timeline,(newStore_ok ho).2.1 r]
    exact Timeline.pointed_fresh
  | exec op _ ih => exact final_of_wp (wp_exec_pointed env op ih)

/-- A call that fails has served a first part of its targets, in their order: not
all of them if a block was refused, at least one if a save failed. Those keep
the message, once for every mention; apart from that every list is as it was, or
as it was read from disk if the call loaded the timeline. -/
theorem failed_send_keeps_first_part (env : Env) (s : SendCall) (h t : Host) (e : StoreError)
    (hr : Reachable env h) (hfail : s.run env h = .error e t) :
    ∃ done, done <+: s.targets ∧
      (e = .capacityExceeded → done.length < s.targets.length) ∧ (e = .io → done ≠ []) ∧
      (∀ r, (h.store.find r).isSome →
        t.messages r = h.messages r ++ List.replicate (done.count r) (s.message env h)) ∧
      (∀ r, h.store.find r = none → (t.store.find r).isSome →
        ∃ disk old, OnlyBlocks h.store.config h.disk disk ∧ ReadFrom h.store.config disk r old ∧
          t.messages r = old ++ List.replicate (done.count r) (s.message env h)) := by
  obtain ⟨done,⟨hpre,hwhy⟩,hs,-⟩ := wp_error (wp_send_sent env s hr.pointed) hfail
  refine ⟨done,hpre,?_,?_,hs.known,hs.loaded⟩
  · rcases hwhy with ⟨-,hlen,-⟩ | ⟨rfl,-⟩
    · exact fun _ => hlen
    · exact fun he => by cases he
  · rcases hwhy with ⟨rfl,-,-⟩ | ⟨-,hne⟩
    · exact fun he => by cases he
    · exact fun _ => hne

/-- Room for one block of one message: the conversation takes it. -/
def fullAfterOne : StoreConfig := ⟨1,1,"data"⟩

theorem failed_send_keeps_first_part_full_store :
    ∃ t e done, (SendCall.mk "c" 1 [7] ["u"]).run Env.steady (Host.steady fullAfterOne) =
        .error e t ∧
      done <+: (SendCall.mk "c" 1 [7] ["u"]).targets ∧
        (e = .capacityExceeded → done.length < 2) := by
  obtain ⟨e,hfail⟩ := eq_error_of_fails
    (x := (SendCall.mk "c" 1 [7] ["u"]).run Env.steady) (s := Host.steady fullAfterOne)
    (by decide +kernel)
  obtain ⟨done,hpre,hcap,-⟩ := failed_send_keeps_first_part Env.steady _ _ _ e
    (.opened (newStore_steady fullAfterOne)) hfail
  exact ⟨_,e,done,hfail,hpre,hcap⟩

/-- The user's block is refused and the conversation keeps the message. -/
theorem failed_send_leaves_message :
    ¬ ∀ (env : Env) (s : SendCall) (h t : Host) (e : StoreError), Reachable env h →
      s.run env h = .error e t → ∀ r, s.message env h ∉ t.messages r := by
  intro hclaim
  obtain ⟨e,hfail⟩ := eq_error_of_fails
    (x := (SendCall.mk "c" 1 [7] ["u"]).run Env.steady) (s := Host.steady fullAfterOne)
    (by decide +kernel)
  refine hclaim Env.steady _ _ _ e (.opened (newStore_steady fullAfterOne)) hfail ⟨.conv,"c"⟩ ?_
  decide +kernel

end Imy.Storage
