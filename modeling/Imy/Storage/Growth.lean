import Imy.Storage.FailedSend
set_option autoImplicit false

namespace Imy.Storage
open Imy.Lib

def Host.Onward (h t : Host) : Prop :=
  ∀ r, (h.store.find r).isSome → (t.store.find r).isSome ∧
    (h.messages r).length ≤ (t.messages r).length

def Host.Ahead (h t : Host) : Prop :=
  ∃ r, (t.store.find r).isSome ∧
    (h.store.find r = none ∨ (h.messages r).length < (t.messages r).length)

structure Host.Idle (h t : Host) : Prop where
  find : t.store.find = h.store.find
  config : t.store.config = h.store.config
  capacity : t.store.currentCapacity = h.store.currentCapacity

section Growth
variable {h t u : Host}

theorem Host.Idle.refl (h : Host) : h.Idle h := ⟨rfl,rfl,rfl⟩

theorem Host.Idle.trans (a : h.Idle t) (b : t.Idle u) : h.Idle u :=
  ⟨b.find.trans a.find,b.config.trans a.config,b.capacity.trans a.capacity⟩

theorem Host.Idle.timeline (hi : h.Idle t) : t.timeline = h.timeline := by
  funext r
  simp only [Host.timeline,hi.find]

theorem Host.Idle.onward (hi : h.Idle t) : h.Onward t := by
  intro r hr
  rw [hi.find]
  exact ⟨hr,by simp [Host.messages,hi.timeline]⟩

theorem Host.Idle.pointed (hi : h.Idle t) (hp : h.Pointed) : t.Pointed := by
  intro r
  rw [hi.timeline]
  exact hp r

theorem Host.Ahead.onward (ha : h.Ahead t) (ho : t.Onward u) : h.Ahead u := by
  obtain ⟨r,hr,hwhy⟩ := ha
  obtain ⟨hu,hle⟩ := ho r hr
  exact ⟨r,hu,hwhy.imp id fun hlt => Nat.lt_of_lt_of_le hlt hle⟩

theorem Host.Ahead.find_ne (ha : h.Ahead t) : t.store.find ≠ h.store.find := by
  intro heq
  obtain ⟨r,hr,hnone | hlt⟩ := ha
  · rw [heq,hnone] at hr
    cases hr
  · simp [Host.messages,Host.timeline,heq] at hlt

theorem Host.Ahead.of_idle (hi : h.Idle t) (ha : t.Ahead u) : h.Ahead u := by
  obtain ⟨r,hr,hwhy⟩ := ha
  rw [hi.find] at hwhy
  refine ⟨r,hr,hwhy.imp id fun hlt => ?_⟩
  simpa [Host.messages,hi.timeline] using hlt

end Growth

theorem Ready.onward {env : Env} {r : TimelineRef} {h t : Host} (hr : Ready env r h t) :
    h.Onward t := by
  rcases hr with ⟨-,rfl⟩ | ⟨hn,hl⟩
  · exact (Host.Idle.refl t).onward
  · intro r' hr'
    have hne : r' ≠ r := by
      rintro rfl
      simp [hn] at hr'
    rw [hl.others r' hne]
    exact ⟨hr',by simp [Host.messages,hl.toFrame.timeline hne]⟩

/-- Bringing a timeline into memory changes something unless it is there. -/
theorem touch_growth (env : Env) (r : TimelineRef) {h : Host} (hp : h.Pointed) :
    wp (getOrCreateTimeline env r)
      (fun _ t => h.Onward t ∧ t.Pointed ∧
        if (h.store.find r).isNone then h.Ahead t else h.Idle t) (fun _ _ => False) h := by
  refine wp_mono (wp_getOrCreateTimeline env r h) ?_ (fun _ _ he => he)
  intro _ t ht
  have hready : Ready env r h t := ht
  refine ⟨hready.onward,hready.pointed hp,?_⟩
  rcases ht with ⟨hf,rfl⟩ | ⟨hn,hl⟩
  · obtain ⟨tl,htl⟩ := Option.isSome_iff_exists.mp hf
    simpa [htl] using Host.Idle.refl t
  · simp only [hn,Option.isNone_none,if_true]
    exact ⟨r,hl.found,Or.inl hn⟩

/-- A call whose conversation is in memory and gets no block does nothing but
draw a number. -/
theorem wp_send_refused (env : Env) (s : SendCall) {h : Host} (hf : (h.store.find s.conv).isSome)
    (hr : h.Refuses s.conv) :
    wp (s.run env) (fun _ _ => False) (fun _ t => t = h.drawn.advance) h := by
  obtain ⟨tl,htl⟩ := Option.isSome_iff_exists.mp hf
  have hneeds : (h.drawn.timeline s.conv).needsBlock = true := hr.1
  have hcap : h.drawn.store.config.maxCapacity ≤ h.drawn.store.currentCapacity := hr.2
  rw [wp_send,SendCall.targets,List.forM_cons]
  simp only [wp_bind,deliver,getOrCreateTimeline,wp_get,Host.drawn_find,htl,wp_pure,
    Timeline.addMessage,Timeline.append,hneeds,if_true,createNewBlock,wp_now,wp_ite,
    Host.advance_store,hcap,wp_throw]

theorem Sent.onward {msg : Message} {done : List TimelineRef} {h t : Host}
    (hs : Sent msg done h t) :
    h.Onward t := by
  intro r hr
  refine ⟨hs.found r (Or.inl hr),?_⟩
  simp [hs.known r hr]

/-- A send adds to its conversation unless the block is refused. -/
theorem send_growth (env : Env) (s : SendCall) {h : Host} (hp : h.Pointed) :
    let t := final (s.run env) h
    h.Onward t ∧ t.Pointed ∧
      if (h.store.find s.conv).isSome ∧ h.Refuses s.conv then h.Idle t else h.Ahead t := by
  by_cases hr : (h.store.find s.conv).isSome ∧ h.Refuses s.conv
  · have hi : h.Idle (final (s.run env) h) := by
      refine final_of_wp (wp_mono (wp_send_refused env s hr.1 hr.2) (fun _ _ he => he.elim) ?_)
      rintro _ t rfl
      exact ⟨rfl,rfl,rfl⟩
    simp only [if_pos hr]
    exact ⟨hi.onward,hi.pointed hp,hi⟩
  · simp only [if_neg hr]
    -- a conversation that was in memory is among those served
    have ahead : ∀ {t : Host} {done : List TimelineRef}, Sent (s.message env h) done h t →
        (t.store.find s.conv).isSome → ((h.store.find s.conv).isSome → s.conv ∈ done) →
            h.Ahead t := by
      intro t done hs hf hdone
      refine ⟨s.conv,hf,?_⟩
      cases hfind : h.store.find s.conv with
      | none => exact Or.inl rfl
      | some tl =>
        have hin : (h.store.find s.conv).isSome := by simp [hfind]
        have hpos := List.count_pos_iff.mpr (hdone hin)
        refine Or.inr ?_
        rw [hs.known s.conv hin]
        simpa using hpos
    refine final_of_wp (P := fun t => h.Onward t ∧ t.Pointed ∧ h.Ahead t)
      (wp_mono (wp_send_sent env s hp) ?_ ?_)
    · intro _ t hs
      exact ⟨hs.onward,hs.pointed,ahead hs (hs.found _ (Or.inr List.mem_cons_self))
        (fun _ => List.mem_cons_self)⟩
    · rintro e t ⟨done,⟨hpre,hwhy⟩,hs,hf⟩
      refine ⟨hs.onward,hs.pointed,ahead hs hf fun hin => ?_⟩
      cases done with
      | nil =>
        rcases hwhy with ⟨-,-,hrefused⟩ | ⟨-,hne⟩
        · exact (hr ⟨hin,(hrefused rfl).2 s.conv rfl hin⟩).elim
        · exact (hne rfl).elim
      | cons r rest =>
        obtain ⟨tail,htail⟩ := hpre
        simp only [SendCall.targets,List.cons_append,List.cons.injEq] at htail
        rw [← htail.1]
        exact List.mem_cons_self

theorem wp_send_storeID (env : Env) (s : SendCall) {h : Host} (hp : h.Pointed) :
    wp (s.run env) (fun _ t => t.store.storeID = h.store.storeID) (fun _ t => t.store.storeID =
      h.store.storeID) h := by
  rw [wp_send]
  have hpd : h.drawn.Pointed := hp
  have hsave : ∀ r u, u.store.storeID = h.store.storeID → wp (saveTimelineMetadata env r)
      (fun _ v => v.store.storeID = h.store.storeID) (fun _ v => v.store.storeID =
          h.store.storeID) u := by
    intro r u hu
    refine wp_mono (wp_saveTimelineMetadata env r u) ?_ ?_
    · rintro _ v rfl
      exact hu
    · rintro e v ⟨-,rfl | rfl⟩ <;> exact hu
  have hall : wp (forM s.targets (deliver env (s.message env h)))
      (fun _ t => t.Pointed ∧ t.store.storeID = h.store.storeID)
      (fun _ t => t.store.storeID = h.store.storeID) h.drawn := by
    refine wp_forM s.targets (I := fun _ (t : Host) => t.Pointed ∧
      t.store.storeID = h.store.storeID) ⟨hpd,rfl⟩ ?_
    rintro done r rest t - ⟨htp,ht⟩
    refine wp_mono (wp_deliver env _ r htp) ?_ ?_
    · rintro _ u ⟨m,hm,init,b,ha⟩
      exact ⟨ha.toGrown.allPointed (hm.pointed htp),ha.storeID.trans
        (hm.loadFrame.storeID.trans ht)⟩
    · rintro e u ⟨m,hm,⟨-,rfl,-⟩ | ⟨-,init,b,hh⟩⟩
      · exact hm.loadFrame.storeID.trans ht
      · exact hh.storeID.trans (hm.loadFrame.storeID.trans ht)
  refine wp_mono hall (fun _ t ht => ?_) (fun _ _ ht => ht)
  refine wp_mono (hsave s.conv t ht.2) (fun _ u hu => ?_) (fun _ _ hu => hu)
  refine wp_forM s.users (I := fun _ (v : Host) => v.store.storeID = h.store.storeID) hu ?_
  rintro done r rest v - hv
  simp only [saveOne,wp_bind]
  refine wp_mono (wp_getOrCreateTimeline env r v) ?_ (fun _ _ he => he.elim)
  intro _ m hm
  have hready : Ready env r v m := hm
  exact hsave r m (hready.loadFrame.storeID.trans hv)

theorem exec_onward (env : Env) (op : StoreOp) {h : Host} (hp : h.Pointed) :
    h.Onward (final (op.exec env) h) := by
  have touched : ∀ r, wp (getOrCreateTimeline env r) (fun _ t => h.Onward t)
      (fun _ t => h.Onward t) h := fun r =>
    wp_mono (touch_growth env r hp) (fun _ _ ht => ht.1) (fun _ _ he => he.elim)
  cases op with
  | addMessage s => exact (send_growth env s hp).1
  | updateUserCheckpoint u n => exact Host.Idle.onward ⟨rfl,rfl,rfl⟩
  | getConvMessages c limit before =>
    refine final_of_wp ?_
    simp only [StoreOp.exec,getConvMessages,getOrCreateConvTimeline,wp_bind,wp_get,wp_pure]
    exact touched ⟨.conv,c⟩
  | getMessagesAfterCheckpoint u =>
    refine final_of_wp ?_
    simp only [StoreOp.exec,getMessagesAfterCheckpoint,getUserCheckpoint,getOrCreateUserTimeline,
      wp_bind,wp_get,wp_pure]
    exact touched ⟨.user,u⟩

end Imy.Storage
