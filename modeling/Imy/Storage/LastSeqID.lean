import Imy.Storage.CheckpointSync
set_option autoImplicit false

/-!
Concurrent calls of `AddMessage`, section by section. `tl.mu` is given up in the
middle of `Timeline.AddMessage` when a block has to be saved, and the sequence
number is drawn before the lock is taken, so a timeline's `LastSeqID` can be set by
a call whose number is not the largest.
-/

namespace Imy.Storage
open Imy.Lib

inductive SendStage where
  | opening (todo : List TimelineRef)
  | appending (r : TimelineRef) (todo : List TimelineRef)
  | writing (r : TimelineRef) (blockToSave : BlockRef) (todo : List TimelineRef)
  | stamping (r : TimelineRef) (todo : List TimelineRef)
  | recording (todo : List TimelineRef)
  | returned
  | failed
  deriving DecidableEq, Repr

structure Sender where
  call : SendCall
  msg : Message
  stage : SendStage
  deriving DecidableEq, Repr

def Sender.to (f : Sender) (stage : SendStage) : Sender := { f with stage := stage }

/-- `tl.LastSeqID = msg.SeqID`. -/
def stamp (r : TimelineRef) (msg : Message) (h : Host) : Host :=
  h.putTimeline r ((h.timeline r).setLastSeqID msg.seqID)

/-- A block that does not fill up is not saved, and then `tl.mu` is held from the
append to the new `LastSeqID`. -/
def Sender.step (env : Env) (f : Sender) (h : Host) : Sender × Host :=
  match f.stage with
  | .opening [] => (f.to (.recording f.call.targets),h)
  | .opening (r :: todo) => (f.to (.appending r todo),final (getOrCreateTimeline env r) h)
  | .appending r todo =>
    match Timeline.append env r f.msg h with
    | .ok none t => (f.to (.opening todo),stamp r f.msg t)
    | .ok (some blockToSave) t => (f.to (.writing r blockToSave todo),t)
    | .error _ t => (f.to .failed,t)
  | .writing r blockToSave todo =>
    match saveTimelineBlock env blockToSave h with
    | .ok _ t => (f.to (.stamping r todo),t)
    | .error _ t => (f.to .failed,t)
  | .stamping r todo => (f.to (.opening todo),stamp r f.msg h)
  | .recording [] => (f.to .returned,h)
  | .recording (r :: todo) =>
    match saveFor env r h with
    | .ok _ t => (f.to (.recording todo),t)
    | .error _ t => (f.to .failed,t)
  | .returned => (f,h)
  | .failed => (f,h)

structure Senders where
  host : Host
  calls : List Sender

inductive SenderOp where
  | draw (c : SendCall)
  | advance (i : Nat)
  deriving DecidableEq, Repr

def Senders.next (env : Env) : SenderOp → Senders → Option Senders
  | .draw c, st => some
    ⟨st.host.drawn,st.calls ++ [⟨c,c.message env st.host,.opening c.targets⟩]⟩
  | .advance i, st =>
    match st.calls[i]? with
    | none => none
    | some f => some ⟨(f.step env st.host).2,st.calls.set i (f.step env st.host).1⟩

def Sender.stamps (env : Env) (f : Sender) (h : Host) : Option TimelineRef :=
  match f.stage with
  | .appending r _ =>
    match Timeline.append env r f.msg h with
    | .ok none _ => some r
    | _ => none
  | .stamping r _ => some r
  | _ => none

def Sender.unstamped (f : Sender) : Option TimelineRef :=
  match f.stage with
  | .writing r _ _ => some r
  | .stamping r _ => some r
  | _ => none

def Senders.taking (st : Senders) : SenderOp → Option Sender
  | .draw _ => none
  | .advance i => st.calls[i]?

/-- A section that sets `LastSeqID` finds no larger number in the timeline, apart
from those of calls that have yet to set it. -/
def InTurn (env : Env) (op : SenderOp) (st : Senders) : Prop :=
  ∀ f ∈ st.taking op, ∀ r ∈ f.stamps env st.host, ∀ m ∈ st.host.messages r,
    f.msg.seqID < m.seqID → ∃ g ∈ st.calls, g.unstamped = some r ∧ g.msg = m

instance (env : Env) (op : SenderOp) (st : Senders) : Decidable (InTurn env op st) :=
  inferInstanceAs (Decidable (∀ f ∈ st.taking op, ∀ r ∈ f.stamps env st.host,
    ∀ m ∈ st.host.messages r, f.msg.seqID < m.seqID →
      ∃ g ∈ st.calls, g.unstamped = some r ∧ g.msg = m))

/-- `LastSeqID` is the largest number of the timeline. -/
structure LastLargest (h : Host) (r : TimelineRef) : Prop where
  reached : ∃ m ∈ h.messages r, m.seqID = (h.timeline r).lastSeqID
  bound : ∀ m ∈ h.messages r, m.seqID ≤ (h.timeline r).lastSeqID

def AllReturned (st : Senders) : Prop := ∀ f ∈ st.calls, f.stage = .returned

def Sender.holding (f : Sender) : Option TimelineRef :=
  match f.stage with
  | .appending r _ => some r
  | .writing r _ _ => some r
  | .stamping r _ => some r
  | _ => none

/-- The timelines a call has yet to open. -/
def Sender.ahead (f : Sender) : List TimelineRef :=
  match f.stage with
  | .opening todo => todo
  | .appending _ todo => todo
  | .writing _ _ todo => todo
  | .stamping _ todo => todo
  | _ => []

theorem Sender.holding_of_unstamped {f : Sender} {r : TimelineRef} (h : f.unstamped = some r) :
    f.holding = some r := by
  unfold Sender.unstamped at h
  unfold Sender.holding
  split at h <;> simp_all

/-- What holds of a call that has not failed. -/
structure Sender.Sound (f : Sender) (h : Host) : Prop where
  found : ∀ r ∈ f.call.targets, r ∈ f.ahead ∨ (h.store.find r).isSome
  recording : ∀ todo, f.stage = .recording todo → ∀ r ∈ todo, r ∈ f.call.targets
  arrived : ∀ r, f.unstamped = some r → f.msg ∈ h.messages r

structure Section (r : TimelineRef) (h t : Host) : Prop where
  pointed : t.Pointed
  others : ∀ r', r' ≠ r → t.store.find r' = h.store.find r'
  found : (h.store.find r).isSome → (t.store.find r).isSome
  kept : ∀ m ∈ h.messages r, m ∈ t.messages r

section Sections
variable {r : TimelineRef} {h t : Host} {env : Env} {msg : Message}

theorem Section.found_of (hs : Section r h t) {r' : TimelineRef} (hf : (h.store.find r').isSome) :
    (t.store.find r').isSome := by
  by_cases he : r' = r
  · exact he ▸ hs.found (he ▸ hf)
  · rwa [hs.others r' he]

theorem Section.timeline (hs : Section r h t) {r' : TimelineRef} (he : r' ≠ r) :
    t.timeline r' = h.timeline r' := by
  simp only [Host.timeline,hs.others r' he]

theorem Section.kept_of (hs : Section r h t) (r' : TimelineRef) :
    ∀ m ∈ h.messages r', m ∈ t.messages r' := by
  by_cases he : r' = r
  · exact he ▸ hs.kept
  · intro m hm
    simpa only [Host.messages,hs.timeline he] using hm

theorem Section.of_find (hp : h.Pointed) (hf : ∀ r, t.store.find r = h.store.find r) :
    Section r h t := by
  have htl : ∀ r', t.timeline r' = h.timeline r' := fun r' => by simp only [Host.timeline,hf r']
  refine ⟨fun r' => by rw [htl]; exact hp r',fun r' _ => hf r',by rw [hf]; exact id,?_⟩
  simp [Host.messages,htl]

theorem Section.of_ready (hp : h.Pointed) (hm : Ready env r h t) : Section r h t := by
  refine ⟨hm.pointed hp,hm.loadFrame.others,fun _ => hm.found,?_⟩
  rcases hm with ⟨-,rfl⟩ | ⟨hnone,-⟩
  · exact fun _ hm => hm
  · simp [Host.messages,Host.timeline,hnone,Timeline.fresh,Timeline.messages]

theorem Section.of_grown {k : Int} {init : List BlockView} {b : BlockView} (hp : h.Pointed)
    (g : Grown k r msg init b h t) : Section r h t := by
  refine ⟨g.allPointed hp,g.others,fun _ => g.found,?_⟩
  rw [g.messages]
  exact fun m hm => List.mem_append_left _ hm

@[simp] theorem stamp_messages (r : TimelineRef) (msg : Message) (h : Host) :
    (stamp r msg h).messages r = h.messages r := by
  simp [stamp,Host.messages,Timeline.messages,Timeline.setLastSeqID]

@[simp] theorem stamp_lastSeqID (r : TimelineRef) (msg : Message) (h : Host) :
    ((stamp r msg h).timeline r).lastSeqID = msg.seqID := by
  simp [stamp,Timeline.setLastSeqID]

theorem Section.of_stamp (hp : h.Pointed) : Section r h (stamp r msg h) := by
  have hframe := Frame.putTimeline h r ((h.timeline r).setLastSeqID msg.seqID)
  refine ⟨?_,hframe.others,fun _ => by simp [stamp],by simp⟩
  intro r'
  by_cases he : r' = r
  · subst he
    rw [stamp,Host.timeline_putTimeline_self]
    exact hp r'
  · rw [stamp,hframe.timeline he]
    exact hp r'

theorem Section.trans {u : Host} (a : Section r h t) (b : Section r t u) : Section r h u :=
  ⟨b.pointed,fun r' he => (b.others r' he).trans (a.others r' he),fun hf => b.found (a.found hf),
    fun m hm => b.kept m (a.kept m hm)⟩

theorem wp_saveTimelineBlock_find (env : Env) (b : BlockRef) (h : Host) :
    wp (saveTimelineBlock env b) (fun _ t => ∀ r, t.store.find r = h.store.find r)
      (fun _ t => ∀ r, t.store.find r = h.store.find r) h := by
  simp only [saveTimelineBlock,wp_bind,wp_get,wp_modify]
  refine wp_mono (wp_writeFile env _ _ _ h) ?_ ?_
  · rintro _ t rfl r
    rfl
  · rintro e t ⟨-,rfl | ⟨n,torn,rfl⟩⟩ r <;> rfl

theorem wp_saveFor_find (env : Env) {r : TimelineRef} {h : Host} (hf : (h.store.find r).isSome) :
    wp (saveFor env r) (fun _ t => ∀ r, t.store.find r = h.store.find r)
      (fun _ t => ∀ r, t.store.find r = h.store.find r) h := by
  have hsave : wp (saveTimelineMetadata env r) (fun _ t => ∀ r, t.store.find r = h.store.find r)
      (fun _ t => ∀ r, t.store.find r = h.store.find r) h := by
    refine wp_mono (wp_saveTimelineMetadata env r h) ?_ ?_
    · rintro _ t rfl r'
      rfl
    · rintro e t ⟨-,rfl | rfl⟩ r' <;> rfl
  unfold saveFor
  cases r.type with
  | conv => exact hsave
  | user =>
    simp only [saveOne,wp_bind]
    refine wp_mono (wp_getOrCreateTimeline env r h) ?_ (fun _ _ he => he.elim)
    rintro _ t (⟨-,rfl⟩ | ⟨hnone,-⟩)
    · exact hsave
    · simp [hnone] at hf

end Sections

/-- What holds in the states of a run in which no call has failed. The timelines
nobody holds have the largest number as their `LastSeqID`. -/
structure Settled (st : Senders) : Prop where
  pointed : st.host.Pointed
  sound : ∀ f ∈ st.calls, f.Sound st.host
  largest : ∀ r, st.host.messages r = [] ∨ (∃ f ∈ st.calls, f.holding = some r) ∨
    LastLargest st.host r

/-- What call `i` leaves of the timeline `r` its section works on. -/
def Closed (st : Senders) (i : Nat) (r : TimelineRef) (f' : Sender) (t : Host) : Prop :=
  t.messages r = [] ∨ f'.holding = some r ∨
    (∃ (j : Nat) (g : Sender), j ≠ i ∧ st.calls[j]? = some g ∧ g.holding = some r) ∨ LastLargest t r

theorem exists_mem_set {α : Type} {xs : List α} {i : Nat} {x : α} {P : α → Prop}
    (h : ∃ (j : Nat) (y : α), j ≠ i ∧ xs[j]? = some y ∧ P y) : ∃ y ∈ xs.set i x, P y := by
  obtain ⟨j,y,hne,hy,hp⟩ := h
  exact ⟨y,List.mem_of_getElem? (by rw [List.getElem?_set_ne hne.symm]; exact hy),hp⟩

theorem Settled.section {st : Senders} (hs : Settled st) {i : Nat} {f f' : Sender} {t : Host}
    {r : TimelineRef} (hf : st.calls[i]? = some f) (hsec : Section r st.host t)
    (hsound : f'.Sound t) (hheld : ∀ r', f.holding = some r' → r' = r)
    (hclosed : Closed st i r f' t) : Settled ⟨t,st.calls.set i f'⟩ := by
  refine ⟨hsec.pointed,?_,?_⟩
  · intro g hg
    rcases List.mem_or_eq_of_mem_set hg with hg | rfl
    · have hold := hs.sound g hg
      exact ⟨fun r' hr' => (hold.found r' hr').imp id hsec.found_of,hold.recording,
        fun r' hr' => hsec.kept_of r' _ (hold.arrived r' hr')⟩
    · exact hsound
  · intro r'
    by_cases he : r' = r
    · subst he
      rcases hclosed with hnil | hheld | hother | hlast
      · exact Or.inl hnil
      · have hlt := (List.getElem?_eq_some_iff.mp hf).1
        exact Or.inr (Or.inl ⟨f',List.mem_set hlt f',hheld⟩)
      · exact Or.inr (Or.inl (exists_mem_set hother))
      · exact Or.inr (Or.inr hlast)
    · have htl := hsec.timeline he
      rcases hs.largest r' with hnil | ⟨g,hg,hheldg⟩ | hlast
      · exact Or.inl (by simpa only [Host.messages,htl] using hnil)
      · obtain ⟨j,hj⟩ := List.mem_iff_getElem?.mp hg
        have hne : j ≠ i := by
          rintro rfl
          cases hf.symm.trans hj
          exact he (hheld r' hheldg)
        exact Or.inr (Or.inl (exists_mem_set ⟨j,g,hne,hj,hheldg⟩))
      · refine Or.inr (Or.inr ⟨?_,?_⟩)
        · simpa only [Host.messages,htl] using hlast.reached
        · simpa only [Host.messages,htl] using hlast.bound

/-- A section that leaves the timelines alone and holds none before or after it. -/
theorem Settled.idle {st : Senders} (hs : Settled st) {i : Nat} {f : Sender} {stage : SendStage}
    {t : Host} (hf : st.calls[i]? = some f) (hfind : ∀ r, t.store.find r = st.host.store.find r)
    (hold : f.holding = none) (hsound : (f.to stage).Sound t) :
    Settled ⟨t,st.calls.set i (f.to stage)⟩ := by
  refine hs.section (r := f.call.conv) hf (Section.of_find hs.pointed hfind) hsound
    (by simp [hold]) ?_
  have htl : ∀ r, t.timeline r = st.host.timeline r := fun r => by simp only [Host.timeline,hfind r]
  rcases hs.largest f.call.conv with hnil | ⟨g,hg,hheld⟩ | hlast
  · exact Or.inl (by simpa only [Host.messages,htl] using hnil)
  · obtain ⟨j,hj⟩ := List.mem_iff_getElem?.mp hg
    have hne : j ≠ i := by
      rintro rfl
      cases hf.symm.trans hj
      simp [hold] at hheld
    exact Or.inr (Or.inr (Or.inl ⟨j,g,hne,hj,hheld⟩))
  · refine Or.inr (Or.inr (Or.inr ⟨?_,?_⟩))
    · simpa only [Host.messages,htl] using hlast.reached
    · simpa only [Host.messages,htl] using hlast.bound

/-- After the number is set, whoever has a larger one still holds the timeline. -/
theorem closed_of_stamp {st : Senders} {i : Nat} {f f' : Sender} {r : TimelineRef} {t : Host}
    (hf : st.calls[i]? = some f)
    (hturn : ∀ m ∈ st.host.messages r, f.msg.seqID < m.seqID →
      ∃ g ∈ st.calls, g.unstamped = some r ∧ g.msg = m)
    (hmess : ∀ m ∈ t.messages r, m ∈ st.host.messages r ∨ m = f.msg) (hmem : f.msg ∈ t.messages r)
    (hlast : (t.timeline r).lastSeqID = f.msg.seqID) : Closed st i r f' t := by
  by_cases hother : ∃ (j : Nat) (g : Sender), j ≠ i ∧ st.calls[j]? = some g ∧ g.holding = some r
  · exact Or.inr (Or.inr (Or.inl hother))
  · refine Or.inr (Or.inr (Or.inr ⟨⟨f.msg,hmem,hlast.symm⟩,?_⟩))
    intro m hm
    rw [hlast]
    rcases hmess m hm with hold | rfl
    · by_contra hlt
      obtain ⟨g,hg,hun,hgm⟩ := hturn m hold (by omega)
      obtain ⟨j,hj⟩ := List.mem_iff_getElem?.mp hg
      have hne : j ≠ i := by
        rintro rfl
        cases hf.symm.trans hj
        rw [hgm] at hlt
        exact hlt (Int.le_refl _)
      exact hother ⟨j,g,hne,hj,Sender.holding_of_unstamped hun⟩
    · exact Int.le_refl _

def SomeFailed (st : Senders) : Prop := ∃ f ∈ st.calls, f.stage = .failed

section Runs
variable {env : Env} {st st' : Senders} {i : Nat} {f : Sender}

theorem someFailed_set {t : Host} (hf : st.calls[i]? = some f) {f' : Sender}
    (hfail : f'.stage = .failed) :
    SomeFailed ⟨t,st.calls.set i f'⟩ :=
  ⟨f',List.mem_set (List.getElem?_eq_some_iff.mp hf).1 f',hfail⟩

theorem Settled.opening {r : TimelineRef} {todo : List TimelineRef} (hs : Settled st)
    (hf : st.calls[i]? = some f) (hstage : f.stage = .opening (r :: todo)) :
    Settled ⟨final (getOrCreateTimeline env r) st.host,
      st.calls.set i (f.to (.appending r todo))⟩ := by
  have hready : Ready env r st.host (final (getOrCreateTimeline env r) st.host) :=
    final_of_wp (wp_mono (wp_getOrCreateTimeline env r st.host) (fun _ _ h => h)
      fun _ _ he => he.elim)
  have hsec := Section.of_ready hs.pointed hready
  have hold := hs.sound f (List.mem_of_getElem? hf)
  refine hs.section hf hsec ⟨?_,by simp [Sender.to],by simp [Sender.to,Sender.unstamped]⟩
    (by simp [Sender.holding,hstage]) (Or.inr (Or.inl rfl))
  intro r' hr'
  rcases hold.found r' hr' with hahead | hfound
  · rw [Sender.ahead,hstage,List.mem_cons] at hahead
    rcases hahead with rfl | hahead
    · exact Or.inr hready.found
    · exact Or.inl hahead
  · exact Or.inr (hsec.found_of hfound)

/-- A call between two timelines with nothing left behind. -/
theorem Sender.Sound.onward {h t : Host} {r : TimelineRef} {todo : List TimelineRef}
    (hold : f.Sound h) (hsec : Section r h t) (hahead : f.ahead = todo) :
    (f.to (.opening todo)).Sound t :=
  ⟨fun r' hr' => (hold.found r' hr').imp (fun h => hahead ▸ h) hsec.found_of,by simp [Sender.to],
    by simp [Sender.to,Sender.unstamped]⟩

theorem Settled.appending {r : TimelineRef} {todo : List TimelineRef} (hs : Settled st)
    (hf : st.calls[i]? = some f) (hstage : f.stage = .appending r todo)
    (hturn : ∀ r ∈ f.stamps env st.host, ∀ m ∈ st.host.messages r,
      f.msg.seqID < m.seqID → ∃ g ∈ st.calls, g.unstamped = some r ∧ g.msg = m) :
    let next : Senders := ⟨(f.step env st.host).2,st.calls.set i (f.step env st.host).1⟩
    SomeFailed next ∨ Settled next := by
  have hold := hs.sound f (List.mem_of_getElem? hf)
  have hw := wp_append env r f.msg (hs.pointed r)
  have hheld : ∀ r', f.holding = some r' → r' = r := by simp [Sender.holding,hstage]
  simp only [Sender.step,hstage]
  cases hx : Timeline.append env r f.msg st.host with
  | error e t => exact Or.inl (someFailed_set hf rfl)
  | ok save t =>
    obtain ⟨init,b,g,-,-,-⟩ := wp_ok hw hx
    have hsec := Section.of_grown hs.pointed g
    have hmem : f.msg ∈ t.messages r := by simp [g.messages]
    cases save with
    | none =>
      have hstamp : Section r t (stamp r f.msg t) := Section.of_stamp hsec.pointed
      have hsec' := hsec.trans hstamp
      have hstamps : f.stamps env st.host = some r := by simp [Sender.stamps,hstage,hx]
      refine Or.inr (hs.section hf hsec'
        (hold.onward hsec' (by simp [Sender.ahead,hstage])) hheld ?_)
      refine closed_of_stamp hf (hturn r (by simp [hstamps])) ?_ (by simpa using hmem) (by simp)
      intro m hm
      simpa [g.messages] using hm
    | some blockToSave =>
      refine Or.inr (hs.section hf hsec ⟨?_,by simp [Sender.to],?_⟩ hheld (Or.inr (Or.inl rfl)))
      · intro r' hr'
        refine (hold.found r' hr').imp (fun h => ?_) hsec.found_of
        simpa [Sender.ahead,Sender.to,hstage] using h
      · intro r' hr'
        cases hr'
        exact hmem

theorem Settled.writing {r : TimelineRef} {b : BlockRef} {todo : List TimelineRef} (hs : Settled st)
    (hf : st.calls[i]? = some f) (hstage : f.stage = .writing r b todo) :
    let next : Senders := ⟨(f.step env st.host).2,st.calls.set i (f.step env st.host).1⟩
    SomeFailed next ∨ Settled next := by
  have hold := hs.sound f (List.mem_of_getElem? hf)
  have hw := wp_saveTimelineBlock_find env b st.host
  simp only [Sender.step,hstage]
  cases hx : saveTimelineBlock env b st.host with
  | error e t => exact Or.inl (someFailed_set hf rfl)
  | ok a t =>
    have hsec : Section r st.host t := Section.of_find hs.pointed (wp_ok hw hx)
    refine Or.inr (hs.section hf hsec ⟨?_,by simp [Sender.to],?_⟩ (by simp [Sender.holding,hstage])
      (Or.inr (Or.inl rfl)))
    · intro r' hr'
      refine (hold.found r' hr').imp (fun h => ?_) hsec.found_of
      simpa [Sender.ahead,Sender.to,hstage] using h
    · intro r' hr'
      cases hr'
      exact hsec.kept _ (hold.arrived r (by simp [Sender.unstamped,hstage]))

theorem Settled.stamping {r : TimelineRef} {todo : List TimelineRef} (hs : Settled st)
    (hf : st.calls[i]? = some f) (hstage : f.stage = .stamping r todo)
    (hturn : ∀ r ∈ f.stamps env st.host, ∀ m ∈ st.host.messages r,
      f.msg.seqID < m.seqID → ∃ g ∈ st.calls, g.unstamped = some r ∧ g.msg = m) :
    Settled ⟨stamp r f.msg st.host,st.calls.set i (f.to (.opening todo))⟩ := by
  have hold := hs.sound f (List.mem_of_getElem? hf)
  have hsec : Section r st.host (stamp r f.msg st.host) := Section.of_stamp hs.pointed
  have harrived := hold.arrived r (by simp [Sender.unstamped,hstage])
  refine hs.section hf hsec (hold.onward hsec (by simp [Sender.ahead,hstage]))
    (by simp [Sender.holding,hstage]) ?_
  refine closed_of_stamp hf (hturn r (by simp [Sender.stamps,hstage])) ?_ (by simpa using harrived)
    (by simp)
  intro m hm
  exact Or.inl (by simpa using hm)

/-- While metadata is saved all timelines of the call are in memory. -/
theorem Sender.Sound.all_found {h : Host} {todo : List TimelineRef} (hold : f.Sound h)
    (hstage : f.stage = .recording todo) {r : TimelineRef} (hr : r ∈ todo) :
    (h.store.find r).isSome := by
  have hfound := hold.found r (hold.recording todo hstage r hr)
  simpa [Sender.ahead,hstage] using hfound

theorem Settled.recording {r : TimelineRef} {todo : List TimelineRef} (hs : Settled st)
    (hf : st.calls[i]? = some f) (hstage : f.stage = .recording (r :: todo)) :
    let next : Senders := ⟨(f.step env st.host).2,st.calls.set i (f.step env st.host).1⟩
    SomeFailed next ∨ Settled next := by
  have hold := hs.sound f (List.mem_of_getElem? hf)
  have hw := wp_saveFor_find env (hold.all_found hstage List.mem_cons_self)
  simp only [Sender.step,hstage]
  cases hx : saveFor env r st.host with
  | error e t => exact Or.inl (someFailed_set hf rfl)
  | ok a t =>
    have hfind := wp_ok hw hx
    refine Or.inr (hs.idle hf hfind (by simp [Sender.holding,hstage]) ⟨?_,?_,?_⟩)
    · intro r' hr'
      rw [hfind r']
      have hfound := hold.found r' hr'
      rw [Sender.ahead,hstage] at hfound
      exact Or.inr (hfound.resolve_left List.not_mem_nil)
    · intro todo' htodo r' hr'
      cases htodo
      exact hold.recording _ hstage r' (List.mem_cons_of_mem _ hr')
    · simp [Sender.to,Sender.unstamped]

theorem Settled.advance (hs : Settled st) (hturn : InTurn env (.advance i) st)
    (hn : st.next env (.advance i) = some st') : SomeFailed st' ∨ Settled st' := by
  simp only [Senders.next] at hn
  split at hn
  · cases hn
  · rename_i f hf
    cases hn
    have hold := hs.sound f (List.mem_of_getElem? hf)
    have hturn' := hturn f (by simp [Senders.taking,hf])
    cases hstage : f.stage with
    | opening todo =>
      cases todo with
      | nil =>
        simp only [Sender.step,hstage]
        refine Or.inr (hs.idle hf (fun _ => rfl) (by simp [Sender.holding,hstage]) ⟨?_,?_,?_⟩)
        · simpa [Sender.ahead,hstage,Sender.to] using hold.found
        · intro todo htodo r hr
          cases htodo
          exact hr
        · simp [Sender.to,Sender.unstamped]
      | cons r todo =>
        simp only [Sender.step,hstage]
        exact Or.inr (hs.opening hf hstage)
    | appending r todo => exact hs.appending hf hstage hturn'
    | writing r b todo => exact hs.writing hf hstage
    | stamping r todo =>
      simp only [Sender.step,hstage]
      exact Or.inr (hs.stamping hf hstage hturn')
    | recording todo =>
      cases todo with
      | nil =>
        simp only [Sender.step,hstage]
        refine Or.inr (hs.idle hf (fun _ => rfl) (by simp [Sender.holding,hstage]) ⟨?_,?_,?_⟩)
        · simpa [Sender.ahead,hstage,Sender.to] using hold.found
        · simp [Sender.to]
        · simp [Sender.to,Sender.unstamped]
      | cons r todo => exact hs.recording hf hstage
    | returned =>
      have hsame : f.to .returned = f := by rw [← hstage]; rfl
      simp only [Sender.step,hstage]
      rw [← hsame]
      exact Or.inr (hs.idle hf (fun _ => rfl) (by simp [Sender.holding,hstage]) (hsame.symm ▸ hold))
    | failed =>
      simp only [Sender.step,hstage]
      exact Or.inl (someFailed_set hf hstage)

theorem Settled.draw {c : SendCall} (hs : Settled st) (hn : st.next env (.draw c) = some st') :
    Settled st' := by
  cases hn
  refine ⟨hs.pointed,?_,?_⟩
  · intro g hg
    rcases List.mem_append.mp hg with hg | hg
    · have hold := hs.sound g hg
      exact ⟨hold.found,hold.recording,fun r hr => by simpa using hold.arrived r hr⟩
    · rw [List.mem_singleton.mp hg]
      exact ⟨fun r hr => Or.inl hr,by simp,by simp [Sender.unstamped]⟩
  · intro r
    rcases hs.largest r with hnil | ⟨g,hg,hheld⟩ | hlast
    · exact Or.inl (by simpa using hnil)
    · exact Or.inr (Or.inl ⟨g,List.mem_append_left _ hg,hheld⟩)
    · exact Or.inr (Or.inr ⟨hlast.reached,hlast.bound⟩)

theorem SomeFailed.next {op : SenderOp} (hs : SomeFailed st) (hn : st.next env op = some st') :
    SomeFailed st' := by
  obtain ⟨g,hg,hfail⟩ := hs
  cases op with
  | draw c =>
    cases hn
    exact ⟨g,List.mem_append_left _ hg,hfail⟩
  | advance i =>
    simp only [Senders.next] at hn
    split at hn
    · cases hn
    · rename_i f hf
      cases hn
      obtain ⟨j,hj⟩ := List.mem_iff_getElem?.mp hg
      by_cases hij : j = i
      · subst hij
        cases hf.symm.trans hj
        exact someFailed_set hf (by simp [Sender.step,hfail])
      · exact exists_mem_set ⟨j,g,hij,hj,hfail⟩

theorem Settled.opened {c : StoreConfig} {disk : Path → Option FileData} {tick : Nat}
    {births : List (TimelineRef × Int)} {h : Host}
    (hopen : newStore env c disk tick births = .ok h) : Settled ⟨h,[]⟩ := by
  obtain ⟨-,hf,-⟩ := newStore_ok hopen
  refine ⟨?_,by simp,?_⟩
  · intro r
    rw [Host.timeline,hf r]
    exact Timeline.pointed_fresh
  · intro r
    exact Or.inl (by simp [Host.messages,Host.timeline,hf r,Timeline.fresh,Timeline.messages])

end Runs

/-- In every run in which the sections that set a timeline's `LastSeqID` do so in
turn, it is the largest number of the timeline once all calls have returned nil. -/
theorem lastSeqID_largest_of_in_turn (env : Env) (c : StoreConfig) (disk : Path → Option FileData)
    (tick : Nat) (births : List (TimelineRef × Int)) (h : Host) (ops : List SenderOp) (st : Senders)
    (hopen : newStore env c disk tick births = .ok h)
    (hrun : Steps (fun op a b => InTurn env op a ∧ a.next env op = some b) ⟨h,[]⟩ ops st)
    (hreturned : AllReturned st) :
    ∀ r, st.host.messages r ≠ [] → LastLargest st.host r := by
  have hinv : SomeFailed st ∨ Settled st := by
    refine hrun.invariant (I := fun st => SomeFailed st ∨ Settled st) ?_
      (Or.inr (Settled.opened hopen))
    rintro op a b (hfailed | hsettled) ⟨hturn,hn⟩
    · exact Or.inl (hfailed.next hn)
    · cases op with
      | draw c => exact Or.inr (hsettled.draw hn)
      | advance i => exact hsettled.advance hturn hn
  intro r hne
  rcases hinv with ⟨f,hf,hfail⟩ | hs
  · rw [hreturned f hf] at hfail
    cases hfail
  · rcases hs.largest r with hnil | ⟨f,hf,hheld⟩ | hlast
    · exact absurd hnil hne
    · simp [Sender.holding,hreturned f hf] at hheld
    · exact hlast

def bothReturned (st : Senders) : Bool := st.calls.all fun f => decide (f.stage = .returned)

theorem allReturned_of {st : Senders} (h : bothReturned st = true) : AllReturned st := by
  intro f hf
  simpa using List.all_eq_true.mp h f hf

/-- Two messages to one conversation; the second fills the block. -/
def inTurnRun : List SenderOp :=
  [.draw ⟨"c",1,[1],[]⟩,.draw ⟨"c",2,[2],[]⟩,.advance 0,.advance 1,.advance 0,.advance 1,
    .advance 0,.advance 1,.advance 0,.advance 1,.advance 0,.advance 1,.advance 1,.advance 1]

theorem lastSeqID_largest_of_in_turn_two_calls :
    ∃ st, runWhile (InTurn Env.steady) (Senders.next Env.steady) inTurnRun
      ⟨Host.steady smallBlocks,[]⟩ = some st ∧ AllReturned st ∧
      (st.host.messages ⟨.conv,"c"⟩).length = 2 ∧ LastLargest st.host ⟨.conv,"c"⟩ := by
  have hany : (runWhile (InTurn Env.steady) (Senders.next Env.steady) inTurnRun
      ⟨Host.steady smallBlocks,[]⟩).any (fun st => bothReturned st &&
        decide ((st.host.messages ⟨.conv,"c"⟩).length = 2)) = true := by decide +kernel
  obtain ⟨st,hst,hp⟩ := (Option.any_eq_true _ _).mp hany
  obtain ⟨hboth,hlen⟩ := Bool.and_eq_true_iff.mp hp
  have htwo : (st.host.messages ⟨.conv,"c"⟩).length = 2 := of_decide_eq_true hlen
  have hlast := lastSeqID_largest_of_in_turn Env.steady smallBlocks
    (fun _ => none) 0 [] _ inTurnRun st
    (newStore_steady smallBlocks) (steps_of_runWhile inTurnRun hst)
    (allReturned_of hboth) ⟨.conv,"c"⟩
    (by rintro hnil; simp [hnil] at htwo)
  exact ⟨st,hst,allReturned_of hboth,htwo,hlast⟩

/-- The second call appends and returns first; the first one then sets its own
number, and so the generator would be put back to 1 after a restart. -/
def outOfTurn : List SenderOp :=
  [.draw ⟨"c",1,[1],[]⟩,.draw ⟨"c",2,[2],[]⟩,.advance 1,.advance 1,.advance 1,.advance 1,.advance 1,
    .advance 0,.advance 0,.advance 0,.advance 0,.advance 0,.advance 0,.advance 0]

theorem lastSeqID_below_largest :
    ∃ st, Steps (fun op a b => Senders.next Env.steady op a = some b) ⟨Host.steady smallBlocks,[]⟩
        outOfTurn st ∧ AllReturned st ∧
      (st.host.messages ⟨.conv,"c"⟩).map (·.seqID) = [2,1] ∧
      (st.host.timeline ⟨.conv,"c"⟩).lastSeqID = 1 ∧
      ¬ ∀ r, st.host.messages r ≠ [] → LastLargest st.host r := by
  have hany : (runWhile (fun _ _ => True) (Senders.next Env.steady) outOfTurn
      ⟨Host.steady smallBlocks,[]⟩).any (fun st => bothReturned st &&
        decide ((st.host.messages ⟨.conv,"c"⟩).map (·.seqID) = [2,1] ∧
          (st.host.timeline ⟨.conv,"c"⟩).lastSeqID = 1)) = true := by decide +kernel
  obtain ⟨st,hst,hp⟩ := (Option.any_eq_true _ _).mp hany
  obtain ⟨hboth,hvals⟩ := Bool.and_eq_true_iff.mp hp
  obtain ⟨hmess,hlast⟩ := of_decide_eq_true hvals
  refine ⟨st,(steps_of_runWhile outOfTurn hst).imp fun _ _ _ h => h.2,allReturned_of hboth,hmess,
    hlast,fun hall => ?_⟩
  have hne : st.host.messages ⟨.conv,"c"⟩ ≠ [] := by
    rintro hnil
    simp [hnil] at hmess
  obtain ⟨a,rest,hcons,ha,-⟩ := List.map_eq_cons_iff.mp hmess
  have hbound := (hall ⟨.conv,"c"⟩ hne).bound a (by simp [hcons])
  rw [ha,hlast] at hbound
  exact absurd hbound (by decide)

end Imy.Storage
