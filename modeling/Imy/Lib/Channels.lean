import Mathlib.Data.List.Nodup
import Mathlib.Logic.Function.Basic
set_option autoImplicit false

/-!
Channels of a fixed capacity, listed under topics. What is published goes to every
channel of the topic that has room for it; a full one is passed over. To send on a closed
channel or to close it again is a fault.
-/

namespace Imy.Lib

variable {κ β : Type} {capacity : Nat}

structure Channel (κ β : Type) where
  topic : κ
  buffer : List β
  /-- What its reader has taken out. -/
  received : List β
  closed : Bool
  deriving DecidableEq, Repr

/-- All that was ever sent, in order. -/
def Channel.sent (ch : Channel κ β) : List β := ch.received ++ ch.buffer

inductive ChannelFault where
  | sendOnClosed | closeOfClosed
  deriving DecidableEq, Repr

def Channel.offer (capacity : Nat) (b : β) (ch : Channel κ β) : Channel κ β :=
  if ch.buffer.length < capacity then { ch with buffer := ch.buffer ++ [b] } else ch

/-- The reader takes the oldest one out, if there is any. -/
def Channel.take (ch : Channel κ β) : Channel κ β :=
  match ch.buffer with
  | [] => ch
  | b :: rest => { ch with buffer := rest, received := ch.received ++ [b] }

structure Channels (κ β : Type) where
  channels : List (Channel κ β)
  listed : κ → List Nat

def noChannels (κ β : Type) : Channels κ β := ⟨[],fun _ => []⟩

def offerTo (capacity : Nat) (b : β) (channels : List (Channel κ β)) (w : Nat) :
    Except ChannelFault (List (Channel κ β)) :=
  match channels[w]? with
  | none => .ok channels
  | some ch => if ch.closed then .error .sendOnClosed
    else .ok (channels.set w (ch.offer capacity b))

namespace Channels
variable [DecidableEq κ] (s : Channels κ β)

def publish (capacity : Nat) (topic : κ) (b : β) : Except ChannelFault (Channels κ β) :=
  ((s.listed topic).foldlM (offerTo capacity b) s.channels).map fun channels =>
    { s with channels := channels }

def subscribe (topic : κ) : Channels κ β where
  channels := s.channels ++ [⟨topic,[],[],false⟩]
  listed := Function.update s.listed topic (s.listed topic ++ [s.channels.length])

def unsubscribe (w : Nat) : Except ChannelFault (Channels κ β) :=
  match s.channels[w]? with
  | none => .ok s
  | some ch =>
    if w ∈ s.listed ch.topic then
      if ch.closed then .error .closeOfClosed
      else .ok
        { channels := s.channels.set w { ch with closed := true }
          listed := Function.update s.listed ch.topic ((s.listed ch.topic).erase w) }
    else .ok s

def take (w : Nat) : Channels κ β :=
  match s.channels[w]? with
  | none => s
  | some ch => { s with channels := s.channels.set w ch.take }

end Channels

theorem Channel.sent_offer (b : β) (ch : Channel κ β) : (ch.offer capacity b).sent =
    if ch.buffer.length < capacity then ch.sent ++ [b] else ch.sent := by
  unfold Channel.offer Channel.sent
  split
  · exact (List.append_assoc ..).symm
  · rfl

@[simp] theorem Channel.sent_take (ch : Channel κ β) : ch.take.sent = ch.sent := by
  unfold Channel.take Channel.sent
  split
  · rfl
  · rename_i b rest hbuffer
    simp [hbuffer]

@[simp] theorem Channel.offer_topic (b : β) (ch : Channel κ β) :
    (ch.offer capacity b).topic = ch.topic := by
  unfold Channel.offer
  split <;> rfl

@[simp] theorem Channel.offer_closed (b : β) (ch : Channel κ β) :
    (ch.offer capacity b).closed = ch.closed := by
  unfold Channel.offer
  split <;> rfl

@[simp] theorem Channel.take_topic (ch : Channel κ β) : ch.take.topic = ch.topic := by
  unfold Channel.take
  split <;> rfl

@[simp] theorem Channel.take_closed (ch : Channel κ β) : ch.take.closed = ch.closed := by
  unfold Channel.take
  split <;> rfl

theorem Channel.length_offer_le (b : β) {ch : Channel κ β} (h : ch.buffer.length ≤ capacity) :
    (ch.offer capacity b).buffer.length ≤ capacity := by
  unfold Channel.offer
  split
  · rw [List.length_append]
    exact ‹ch.buffer.length < capacity›
  · exact h

theorem Channel.length_take_le (ch : Channel κ β) : ch.take.buffer.length ≤ ch.buffer.length := by
  unfold Channel.take
  split
  · exact Nat.le_refl _
  · rename_i b rest hbuffer
    simp [hbuffer]

namespace Channels
variable {s s' : Channels κ β} {topic : κ} {b : β} {w : Nat}

/-- The channels that are listed are the open ones, each once and under its own topic. -/
structure Sound (capacity : Nat) (s : Channels κ β) : Prop where
  once : ∀ topic, (s.listed topic).Nodup
  opened : ∀ topic, ∀ w ∈ s.listed topic, ∃ ch, s.channels[w]? = some ch ∧
    ch.topic = topic ∧ ch.closed = false
  listed : ∀ (w : Nat) ch, s.channels[w]? = some ch → ch.closed = false → w ∈ s.listed ch.topic
  bounded : ∀ (w : Nat) ch, s.channels[w]? = some ch → ch.buffer.length ≤ capacity

theorem sound_none : Sound capacity (noChannels κ β) where
  once := fun _ => List.nodup_nil
  opened := fun _ w hw => by cases hw
  listed := fun w ch hch => by simp [noChannels] at hch
  bounded := fun w ch hch => by simp [noChannels] at hch

structure Offered (capacity : Nat) (b : β) (places : List Nat)
    (channels channels' : List (Channel κ β)) :
    Prop where
  length : channels'.length = channels.length
  at_place : ∀ w ∈ places, channels'[w]? = channels[w]?.map (Channel.offer capacity b)
  elsewhere : ∀ w, w ∉ places → channels'[w]? = channels[w]?

theorem foldlM_offerTo {places : List Nat} (once : places.Nodup) {channels : List (Channel κ β)}
    (opened : ∀ w ∈ places, ∃ ch, channels[w]? = some ch ∧ ch.closed = false) :
    ∃ channels', places.foldlM (offerTo capacity b) channels = .ok channels' ∧
      Offered capacity b places channels channels' := by
  induction places generalizing channels with
  | nil =>
    refine ⟨channels,rfl,⟨rfl,fun w hw => ?_,fun _ _ => rfl⟩⟩
    cases hw
  | cons w places ih =>
    obtain ⟨hnot,honce⟩ := List.nodup_cons.mp once
    obtain ⟨ch,hch,hopen⟩ := opened w List.mem_cons_self
    have hlt := (List.getElem?_eq_some_iff.mp hch).1
    have hset : ∀ w', w' ≠ w → (channels.set w (ch.offer capacity b))[w']? = channels[w']? :=
      fun w' hw' => List.getElem?_set_ne hw'.symm
    have hopened : ∀ w' ∈ places,
        ∃ ch', (channels.set w (ch.offer capacity b))[w']? = some ch' ∧ ch'.closed = false := by
      intro w' hw'
      rw [hset w' fun heq => hnot (heq ▸ hw')]
      exact opened w' (List.mem_cons_of_mem w hw')
    obtain ⟨channels',hrun,ho⟩ := ih honce hopened
    refine ⟨channels',?_,ho.length.trans (List.length_set ..),fun w' hw' => ?_,fun w' hw' => ?_⟩
    · have hstep : offerTo capacity b channels w = .ok (channels.set w (ch.offer capacity b)) := by
        simp only [offerTo,hch,hopen]
        rfl
      rw [List.foldlM_cons,hstep]
      exact hrun
    · rcases List.mem_cons.mp hw' with rfl | hw'
      · rw [ho.elsewhere _ hnot,hch,List.getElem?_set_self hlt]
        rfl
      · rw [ho.at_place w' hw',hset w' fun heq => hnot (heq ▸ hw')]
    · rw [List.mem_cons,not_or] at hw'
      rw [ho.elsewhere w' hw'.2,hset w' hw'.1]

theorem Sound.publish (h : Sound capacity s) (topic : κ) (b : β) :
    ∃ s', s.publish capacity topic b = .ok s' ∧
    s'.listed = s.listed ∧ Offered capacity b (s.listed topic) s.channels s'.channels ∧
      Sound capacity s' := by
  obtain ⟨channels,hrun,ho⟩ :
    ∃ channels', (s.listed topic).foldlM (offerTo capacity b) s.channels = .ok channels' ∧
      Offered capacity b (s.listed topic) s.channels channels' := by
    refine foldlM_offerTo (h.once topic) fun w hw => ?_
    obtain ⟨ch,hch,-,hopen⟩ := h.opened topic w hw
    exact ⟨ch,hch,hopen⟩
  have hback : ∀ (w : Nat) (ch' : Channel κ β), channels[w]? = some ch' →
      ∃ ch : Channel κ β, s.channels[w]? = some ch ∧ ch'.topic = ch.topic ∧
      ch'.closed = ch.closed ∧ (ch.buffer.length ≤ capacity → ch'.buffer.length ≤ capacity) := by
    intro w ch' hch'
    by_cases hw : w ∈ s.listed topic
    · rw [ho.at_place w hw] at hch'
      obtain ⟨ch,hch,rfl⟩ := Option.map_eq_some_iff.mp hch'
      exact ⟨ch,hch,ch.offer_topic b,ch.offer_closed b,Channel.length_offer_le b⟩
    · rw [ho.elsewhere w hw] at hch'
      exact ⟨ch',hch',rfl,rfl,id⟩
  refine ⟨⟨channels,s.listed⟩,by simp [Channels.publish,hrun,Except.map],rfl,ho,h.once,
    fun t w hw => ?_,
    fun w ch' hch' hopen => ?_,fun w ch' hch' => ?_⟩
  · obtain ⟨ch,hch,htopic,hopen⟩ := h.opened t w hw
    by_cases hwt : w ∈ s.listed topic
    · refine ⟨ch.offer capacity b,?_,(ch.offer_topic b).trans htopic,
        (ch.offer_closed b).trans hopen⟩
      rw [ho.at_place w hwt,hch]
      rfl
    · exact ⟨ch,(ho.elsewhere w hwt).trans hch,htopic,hopen⟩
  · obtain ⟨ch,hch,htopic,hclosed,-⟩ := hback w ch' hch'
    exact htopic ▸ h.listed w ch hch (hclosed ▸ hopen)
  · obtain ⟨ch,hch,-,-,hlength⟩ := hback w ch' hch'
    exact hlength (h.bounded w ch hch)

theorem Sound.subscribe [DecidableEq κ] (h : Sound capacity s) (topic : κ) :
    Sound capacity (s.subscribe topic) := by
  have hlt : ∀ t, ∀ w ∈ s.listed t, w < s.channels.length := by
    intro t w hw
    obtain ⟨ch,hch,-⟩ := h.opened t w hw
    exact (List.getElem?_eq_some_iff.mp hch).1
  have hold : ∀ w, w < s.channels.length → (s.subscribe topic).channels[w]? = s.channels[w]? :=
    fun w hw => List.getElem?_append_left hw
  have hlast : (s.subscribe topic).channels[s.channels.length]? = some ⟨topic,[],[],false⟩ := by
    simp [Channels.subscribe]
  have hlisted : ∀ t w, w ∈ (s.subscribe topic).listed t ↔
      w ∈ s.listed t ∨ t = topic ∧ w = s.channels.length := by
    intro t w
    by_cases ht : t = topic
    · subst ht
      simp [Channels.subscribe]
    · simp [Channels.subscribe,ht]
  have hcases : ∀ w ch, (s.subscribe topic).channels[w]? = some ch →
      s.channels[w]? = some ch ∨ w = s.channels.length ∧ ch = ⟨topic,[],[],false⟩ := by
    intro w ch hch
    by_cases hw : w < s.channels.length
    · rw [hold w hw] at hch
      exact Or.inl hch
    · have hle := (List.getElem?_eq_some_iff.mp hch).1
      have heq : w = s.channels.length := by
        simp only [Channels.subscribe,List.length_append,List.length_singleton] at hle
        omega
      rw [heq,hlast] at hch
      cases hch
      exact Or.inr ⟨heq,rfl⟩
  refine ⟨fun t => ?_,fun t w hw => ?_,fun w ch hch hopen => ?_,fun w ch hch => ?_⟩
  · by_cases ht : t = topic
    · subst ht
      simp only [Channels.subscribe,Function.update_self]
      refine List.Nodup.append (h.once t) (List.nodup_singleton _) fun w hw hw' => ?_
      rw [List.mem_singleton] at hw'
      exact Nat.ne_of_lt (hlt t w hw) hw'
    · simp only [Channels.subscribe,Function.update_of_ne ht]
      exact h.once t
  · rcases (hlisted t w).mp hw with hw | ⟨rfl,rfl⟩
    · rw [hold w (hlt t w hw)]
      exact h.opened t w hw
    · exact ⟨_,hlast,rfl,rfl⟩
  · rcases hcases w ch hch with hch | ⟨rfl,rfl⟩
    · exact (hlisted _ w).mpr (Or.inl (h.listed w ch hch hopen))
    · exact (hlisted _ _).mpr (Or.inr ⟨rfl,rfl⟩)
  · rcases hcases w ch hch with hch | ⟨rfl,rfl⟩
    · exact h.bounded w ch hch
    · exact Nat.zero_le _

theorem getElem?_set_cases {channels : List (Channel κ β)} {ch ch' new : Channel κ β} {w' : Nat}
    (hch : channels[w]? = some ch) (h : (channels.set w new)[w']? = some ch') :
    w' = w ∧ ch' = new ∨ w' ≠ w ∧ channels[w']? = some ch' := by
  by_cases hw : w' = w
  · subst hw
    rw [List.getElem?_set_self (List.getElem?_eq_some_iff.mp hch).1] at h
    exact Or.inl ⟨rfl,(Option.some.inj h).symm⟩
  · rw [List.getElem?_set_ne (Ne.symm hw)] at h
    exact Or.inr ⟨hw,h⟩

theorem Sound.unsubscribe [DecidableEq κ] (h : Sound capacity s) (w : Nat) :
    ∃ s', s.unsubscribe w = .ok s' ∧ Sound capacity s' ∧
      (∀ w', w' ≠ w → s'.channels[w']? = s.channels[w']?) ∧
      s'.channels[w]? = s.channels[w]?.map fun ch => { ch with closed := true } := by
  unfold Channels.unsubscribe
  cases hch : s.channels[w]? with
  | none => exact ⟨s,rfl,h,fun _ _ => rfl,by simp [hch]⟩
  | some ch =>
    dsimp only
    by_cases hin : w ∈ s.listed ch.topic
    · obtain ⟨ch₀,hch₀,-,hopen⟩ := h.opened _ w hin
      rw [hch] at hch₀
      cases hch₀
      have hlt := (List.getElem?_eq_some_iff.mp hch).1
      simp only [if_pos hin,hopen]
      have hlisted :
        ∀ t w', w' ∈ (Function.update s.listed ch.topic ((s.listed ch.topic).erase w)) t ↔
          w' ∈ s.listed t ∧ w' ≠ w := by
        intro t w'
        by_cases ht : t = ch.topic
        · subst ht
          rw [Function.update_self,(h.once _).mem_erase_iff]
          exact and_comm
        · rw [Function.update_of_ne ht,iff_self_and]
          rintro hw' rfl
          obtain ⟨ch',hch',htopic,-⟩ := h.opened t w' hw'
          rw [hch] at hch'
          cases hch'
          exact ht htopic.symm
      refine ⟨_,rfl,⟨fun t => ?_,fun t w' hw' => ?_,fun w' ch' hch' hopen' => ?_,
        fun w' ch' hch' => ?_⟩,
        fun w' hw' => List.getElem?_set_ne hw'.symm,?_⟩
      · by_cases ht : t = ch.topic
        · subst ht
          simpa using (h.once _).erase w
        · simpa [ht] using h.once t
      · obtain ⟨hw',hne⟩ := (hlisted t w').mp hw'
        dsimp only
        rw [List.getElem?_set_ne hne.symm]
        exact h.opened t w' hw'
      · rcases getElem?_set_cases hch hch' with ⟨rfl,rfl⟩ | ⟨hne,hch'⟩
        · cases hopen'
        · exact (hlisted _ w').mpr ⟨h.listed w' ch' hch' hopen',hne⟩
      · rcases getElem?_set_cases hch hch' with ⟨rfl,rfl⟩ | ⟨hne,hch'⟩
        · exact h.bounded w' ch hch
        · exact h.bounded w' ch' hch'
      · exact List.getElem?_set_self hlt
    · have hclosed : ch.closed = true := by
        by_contra hopen
        exact hin (h.listed w ch hch (by simpa using hopen))
      rw [if_neg hin]
      refine ⟨s,rfl,h,fun _ _ => rfl,?_⟩
      rw [hch,Option.map_some,← hclosed]

theorem take_elsewhere (s : Channels κ β) {w' : Nat} (hw : w' ≠ w) :
    (s.take w).channels[w']? = s.channels[w']? := by
  unfold Channels.take
  split
  · rfl
  · exact List.getElem?_set_ne hw.symm

theorem take_self (s : Channels κ β) (w : Nat) :
    (s.take w).channels[w]? = s.channels[w]?.map Channel.take := by
  unfold Channels.take
  split
  · rename_i hch
    simp [hch]
  · rename_i ch hch
    rw [List.getElem?_set_self (List.getElem?_eq_some_iff.mp hch).1]
    simp [hch]

theorem take_listed (s : Channels κ β) (w : Nat) : (s.take w).listed = s.listed := by
  unfold Channels.take
  split <;> rfl

theorem Sound.take (h : Sound capacity s) (w : Nat) : Sound capacity (s.take w) := by
  have hback : ∀ (w' : Nat) (ch' : Channel κ β), (s.take w).channels[w']? = some ch' →
    ∃ ch : Channel κ β, s.channels[w']? = some ch ∧
      ch'.topic = ch.topic ∧ ch'.closed = ch.closed ∧ ch'.buffer.length ≤ ch.buffer.length := by
    intro w' ch' hch'
    by_cases hw : w' = w
    · subst hw
      rw [take_self] at hch'
      obtain ⟨ch,hch,rfl⟩ := Option.map_eq_some_iff.mp hch'
      exact ⟨ch,hch,ch.take_topic,ch.take_closed,ch.length_take_le⟩
    · rw [take_elsewhere s hw] at hch'
      exact ⟨ch',hch',rfl,rfl,Nat.le_refl _⟩
  refine ⟨fun t => take_listed s w ▸ h.once t,fun t w' hw' => ?_,fun w' ch' hch' hopen => ?_,
    fun w' ch' hch' => ?_⟩
  · rw [take_listed] at hw'
    obtain ⟨ch,hch,htopic,hopen⟩ := h.opened t w' hw'
    by_cases hw : w' = w
    · subst hw
      exact ⟨ch.take,by rw [take_self,hch]; rfl,ch.take_topic.trans htopic,
        ch.take_closed.trans hopen⟩
    · exact ⟨ch,(take_elsewhere s hw).trans hch,htopic,hopen⟩
  · obtain ⟨ch,hch,htopic,hclosed,-⟩ := hback w' ch' hch'
    rw [take_listed]
    exact htopic ▸ h.listed w' ch hch (hclosed ▸ hopen)
  · obtain ⟨ch,hch,-,-,hle⟩ := hback w' ch' hch'
    exact Nat.le_trans hle (h.bounded w' ch hch)

end Channels
end Imy.Lib
