import Imy.Lib.Lines
import Imy.Websocket.HubInvariant
import Imy.Websocket.Pumps
set_option autoImplicit false

namespace Imy.Websocket
open Imy.Lib

section Channel

/-- The messages in the text frames, for a peer that splits each at its newlines. -/
def Pump.messages (p : Pump) : List Payload := lines newline p.frames

/-- The writer has been given these messages, one a line; if a write failed the peer does not
get what it has. -/
structure Writer.Holds (w : Writer) (held : List Payload) : Prop where
  nonempty : held ≠ []
  content : w.failed = false → w.content = [newline].intercalate held

/-- The messages that `writePump` has taken from the channel and not written yet. -/
def PumpStage.Holds (ch : Channel) (held : List Payload) : PumpStage → Prop
  | .selecting => held = []
  | .counting w => w.Holds held
  | .adding w n => w.Holds held ∧ n ≤ ch.buffer.length
  | .stopped => True
  | .finished => held = [] ∧ ch.buffer = [] ∧ ch.closed = true

/-- What was sent is in the frames, in the hands of `writePump`, or on the channel. -/
structure Framed (sent : List Payload) (ch : Channel) (p : Pump) : Prop where
  clean : ∀ m ∈ sent, newline ∉ m
  accounted : ∃ held, sent = p.messages ++ held ++ ch.buffer ∧ p.stage.Holds ch held

variable {sent : List Payload} {ch ch' : Channel} {p p' : Pump} {w : Writer} {held : List Payload}

theorem framed_new : Framed [] ⟨[],false⟩ newPump := ⟨nofun,[],rfl,rfl⟩

theorem Writer.write_failed {bytes : Payload} {ok : Bool} (h : (w.write bytes ok).failed = false) :
    w.failed = false ∧ (w.write bytes ok).content = w.content ++ bytes := by
  unfold Writer.write at h ⊢
  split at h
  · rename_i hok
    exact ⟨hok.1,by rw [if_pos hok]⟩
  · cases h

theorem Writer.holds_first (message : Payload) (ok : Bool) :
    (Writer.write ⟨[],false⟩ message ok).Holds [message] where
  nonempty := List.cons_ne_nil _ _
  content h := by
    rw [(Writer.write_failed h).2,List.intercalate_singleton]
    rfl

theorem Writer.Holds.add (h : w.Holds held) (message : Payload) (wroteNewline wrote : Bool) :
    ((w.write [newline] wroteNewline).write message wrote).Holds (held ++ [message]) where
  nonempty := by simp
  content hboth := by
    obtain ⟨hline,hcontent⟩ := Writer.write_failed hboth
    obtain ⟨hbefore,hline'⟩ := Writer.write_failed hline
    rw [hcontent,hline',h.content hbefore,intercalate_concat _ h.nonempty]

theorem Framed.send (h : Framed sent ch p) (hopen : ch.closed = false) {message : Payload}
    (hline : newline ∉ message) : Framed (sent ++ [message]) ⟨ch.buffer ++ [message],false⟩ p where
  clean m hm := by
    rcases List.mem_append.mp hm with hm | hm
    · exact h.clean m hm
    · rwa [List.mem_singleton.mp hm]
  accounted := by
    obtain ⟨held,hsent,hholds⟩ := h.accounted
    refine ⟨held,by simp [hsent],?_⟩
    cases hstage : p.stage with
    | selecting => simpa [hstage,PumpStage.Holds] using hholds
    | counting w => simpa [hstage,PumpStage.Holds] using hholds
    | adding w n =>
      rw [hstage] at hholds
      obtain ⟨hw,hn⟩ := hholds
      refine ⟨hw,?_⟩
      simp only [List.length_append]
      omega
    | stopped => trivial
    | finished =>
      rw [hstage] at hholds
      simp [hopen,PumpStage.Holds] at hholds

theorem Framed.close (h : Framed sent ch p) : Framed sent ⟨ch.buffer,true⟩ p where
  clean := h.clean
  accounted := by
    obtain ⟨held,hsent,hholds⟩ := h.accounted
    refine ⟨held,hsent,?_⟩
    cases hstage : p.stage with
    | finished =>
      rw [hstage] at hholds
      exact ⟨hholds.1,hholds.2.1,rfl⟩
    | stopped => trivial
    | _ => simpa [hstage,PumpStage.Holds] using hholds

theorem framed_stopped {sent : List Payload} {ch : Channel} {frames held : List Payload}
    (hclean : ∀ m ∈ sent, newline ∉ m) (hsent : sent = lines newline frames ++ held ++ ch.buffer) :
    Framed sent ch ⟨.stopped,frames⟩ := ⟨hclean,held,hsent,trivial⟩

theorem Framed.take {frames : List Payload} (h : Framed sent ch ⟨.selecting,frames⟩)
    {opened wrote : Bool} (hstep : pumpNext ⟨.selecting,frames⟩ ch (.take opened wrote) =
      some (p',ch')) :
    Framed sent ch' p' := by
  obtain ⟨held,hsent,rfl⟩ := h.accounted
  simp only [pumpNext] at hstep
  cases hreceive : ch.receive with
  | none => simp [hreceive] at hstep
  | some received =>
    obtain ⟨message,ok,rest⟩ := received
    rw [hreceive] at hstep
    rcases Channel.receive_cases hreceive with ⟨rfl,hch⟩ | ⟨rfl,hbuffer,hclosed,rfl⟩
    · -- the message is now in the hands of the goroutine
      have htaken : sent = lines newline frames ++ [message] ++ rest.buffer := by
        simp [hsent,Pump.messages,hch]
      cases opened with
      | true =>
        cases hstep
        exact ⟨h.clean,[message],htaken,Writer.holds_first message wrote⟩
      | false =>
        cases hstep
        exact framed_stopped h.clean htaken
    · cases hstep
      exact ⟨h.clean,[],hsent,rfl,hbuffer,hclosed⟩

theorem Framed.add {frames : List Payload} {n : Nat} (h : Framed sent ch ⟨.adding w n,frames⟩)
    {wroteNewline wrote : Bool}
    (hstep : pumpNext ⟨.adding w n,frames⟩ ch (.add wroteNewline wrote) = some (p',ch')) :
    Framed sent ch' p' := by
  obtain ⟨held,hsent,hw,hn⟩ := h.accounted
  cases n with
  | zero => simp [pumpNext] at hstep
  | succ n =>
    simp only [pumpNext] at hstep
    cases hreceive : ch.receive with
    | none => simp [hreceive] at hstep
    | some received =>
      obtain ⟨message,ok,rest⟩ := received
      rw [hreceive] at hstep
      cases hstep
      rcases Channel.receive_cases hreceive with ⟨rfl,hch⟩ | ⟨rfl,hbuffer,-,rfl⟩
      · refine ⟨h.clean,held ++ [message],?_,hw.add message wroteNewline wrote,?_⟩
        · simp [hsent,Pump.messages,hch]
        · rw [hch,List.length_cons] at hn
          exact Nat.le_of_succ_le_succ hn
      · -- as many messages as are still to be added are on the channel
        simp [hbuffer] at hn

theorem Framed.close_frame {frames : List Payload} {n : Nat}
    (h : Framed sent ch ⟨.adding w n,frames⟩)
    {ok : Bool} (hstep : pumpNext ⟨.adding w n,frames⟩ ch (.close ok) = some (p',ch')) :
    Framed sent ch' p' := by
  obtain ⟨held,hsent,hw,-⟩ := h.accounted
  cases n with
  | succ n => simp [pumpNext] at hstep
  | zero =>
    simp only [pumpNext] at hstep
    split at hstep
    · rename_i hok
      cases hstep
      have hheld : ∀ m ∈ held, newline ∉ m := fun m hm => h.clean m (by simp [hsent,hm])
      refine ⟨h.clean,[],?_,rfl⟩
      simp only [Pump.messages] at hsent ⊢
      rw [hw.content hok.1,lines_concat newline frames hw.nonempty hheld,List.append_nil]
      exact hsent
    · cases hstep
      exact framed_stopped h.clean hsent

theorem Framed.pumpNext (h : Framed sent ch p) {e : PumpEvent}
    (hstep : pumpNext p ch e = some (p',ch')) : Framed sent ch' p' := by
  obtain ⟨stage,frames⟩ := p
  obtain ⟨held,hsent,hholds⟩ := h.accounted
  cases e with
  | take opened wrote =>
    cases stage with
    | selecting => exact h.take hstep
    | _ => simp [Websocket.pumpNext] at hstep
  | count =>
    cases stage with
    | counting w =>
      cases hstep
      exact ⟨h.clean,held,hsent,hholds,Nat.le_refl _⟩
    | _ => cases hstep
  | add wroteNewline wrote =>
    cases stage with
    | adding w n => exact h.add hstep
    | _ => simp [Websocket.pumpNext] at hstep
  | close ok =>
    cases stage with
    | adding w n => exact h.close_frame hstep
    | _ => cases hstep
  | ping ok =>
    cases stage with
    | selecting =>
      cases ok with
      | true =>
        cases hstep
        exact h
      | false =>
        cases hstep
        exact framed_stopped h.clean hsent
    | _ => cases hstep

theorem Framed.lossless (h : Framed sent ch p) :
    p.messages <+: sent ∧ (p.stage = .finished → p.messages = sent) := by
  obtain ⟨held,hsent,hholds⟩ := h.accounted
  constructor
  · rw [hsent,List.append_assoc]
    exact List.prefix_append _ _
  · intro hstage
    rw [hstage] at hholds
    obtain ⟨rfl,hbuffer,-⟩ := hholds
    rw [hsent,hbuffer,List.append_nil,List.append_nil]

end Channel

section Hub
variable {κ : Type} [DecidableEq κ] {userID : κ → UInt32} {h h' : Hub κ} {c d : κ}

def sentTo (c : κ) (log : List (κ × ChannelOp)) : List Payload :=
  log.filterMap fun
    | (d,.sent message) => if d = c then some message else none
    | (_,.closed) => none

def Hub.sent (h : Hub κ) (c : κ) : List Payload := sentTo c h.log

theorem sentTo_concat (c d : κ) (log : List (κ × ChannelOp)) (message : Payload) :
    sentTo c (log ++ [(d,.sent message)]) = sentTo c log ++ if d = c then [message] else [] := by
  unfold sentTo
  rw [List.filterMap_append]
  by_cases hd : d = c <;> simp [hd]

theorem sentTo_closed (c d : κ) (log : List (κ × ChannelOp)) :
    sentTo c (log ++ [(d,.closed)]) = sentTo c log := by
  simp [sentTo,List.filterMap_append]

/-- The message that the hub is sending. -/
def HubStage.message : HubStage κ → Option Payload
  | .sending message _ => some message
  | .waiting _ message _ => some message
  | _ => none

def HubEvent.message : HubEvent κ → Option Payload
  | .broadcast message _ => some message
  | .direct _ message _ => message
  | _ => none

inductive ChannelStep (h h' : Hub κ) (c : κ) : Prop where
  | same (channel : h'.send c = h.send c) (sent : h'.sent c = h.sent c)
  | send (message : Payload) (sending : h.stage.message = some message)
      (isOpen : (h.send c).closed = false)
      (channel : h'.send c = ⟨(h.send c).buffer ++ [message],false⟩)
      (sent : h'.sent c = h.sent c ++ [message])
  | close (channel : h'.send c = ⟨(h.send c).buffer,true⟩) (sent : h'.sent c = h.sent c)

theorem ChannelStep.congr {h'' : Hub κ} (hstep : ChannelStep h h' c) (hsend : h''.send = h'.send)
    (hlog : h''.log = h'.log) : ChannelStep h h'' c := by
  have hsent : h''.sent c = h'.sent c := by rw [Hub.sent,hlog,Hub.sent]
  cases hstep with
  | same channel sent => exact .same (by rw [hsend,channel]) (by rw [hsent,sent])
  | send message sending isOpen channel sent =>
    exact .send message sending isOpen (by rw [hsend,channel]) (by rw [hsent,sent])
  | close channel sent => exact .close (by rw [hsend,channel]) (by rw [hsent,sent])

theorem ChannelStep.of_rest (hsend : h'.send = h.send) (hlog : h'.log = h.log) (c : κ) :
    ChannelStep h h' c := by
  have hself : ChannelStep h h c := .same rfl rfl
  exact hself.congr hsend hlog

theorem closeSend_channel (h : Hub κ) (d c : κ) : ChannelStep h (closeSend h d) c := by
  unfold closeSend
  split
  · exact .same rfl rfl
  · have hsent : sentTo c (h.log ++ [(d,.closed)]) = h.sent c := sentTo_closed c d h.log
    by_cases hc : c = d
    · subst hc
      exact .close (Function.update_self _ _ _) hsent
    · exact .same (Function.update_of_ne hc _ _) hsent

theorem offer_channel {message : Payload} {rest : List κ}
    (hstage : h.stage = .sending message (d :: rest))
    (c : κ) : ChannelStep h (offer h d message rest) c := by
  unfold offer
  split
  · exact .same rfl rfl
  · rename_i hopen
    split
    · have hsent := sentTo_concat c d h.log message
      by_cases hc : c = d
      · subst hc
        rw [if_pos rfl] at hsent
        exact .send message (by rw [hstage]; rfl) (by simpa using hopen)
          (Function.update_self _ _ _) hsent
      · rw [if_neg (Ne.symm hc),List.append_nil] at hsent
        exact .same (Function.update_of_ne hc _ _) hsent
    · exact .same rfl rfl

theorem unregisterClient_channel (userID : κ → UInt32) (h : Hub κ) (d c : κ) :
    ChannelStep h (unregisterClient userID h d) c := by
  unfold unregisterClient
  split
  · obtain ⟨-,hsend,-,hlog⟩ := dropUserClient_rest userID
      (closeSend { h with clients := h.clients.erase d } d) d
    have hclose := closeSend_channel { h with clients := h.clients.erase d } d c
    have hstep : ChannelStep h (closeSend { h with clients := h.clients.erase d } d) c := by
      cases hclose with
      | same channel sent => exact .same channel sent
      | send message sending isOpen channel sent => exact .send message sending isOpen channel sent
      | close channel sent => exact .close channel sent
    exact hstep.congr hsend hlog
  · exact .same rfl rfl

/-- Receives apart, which are steps of `writePump`. -/
theorem HubStep.channel {e : HubEvent κ} (hstep : HubStep userID h e h')
    (hreceive : ∀ d, e ≠ .receive d) (c : κ) : ChannelStep h h' c := by
  cases hstep with
  | @register d =>
    obtain ⟨-,hsend,-,hlog⟩ := registerClient_rest userID h d
    exact .of_rest hsend hlog c
  | @unregister d => exact unregisterClient_channel userID h d c
  | broadcast | direct | dropped => exact .same rfl rfl
  | deliver hstage => exact offer_channel hstage c
  | @receive d => exact absurd rfl (hreceive d)
  | @receiveNone d => exact absurd rfl (hreceive d)

theorem unregisterClient_stage (userID : κ → UInt32) (h : Hub κ) (d : κ) :
    (unregisterClient userID h d).stage = h.stage ∨
      (unregisterClient userID h d).stage = .panicked := by
  unfold unregisterClient
  split
  · rw [(dropUserClient_rest userID _ d).2.2.1,closeSend]
    split
    · exact .inr rfl
    · exact .inl rfl
  · exact .inl rfl

theorem loop_message {ι : Type} {message m : Payload} {rest : List ι}
    (h : (if rest = [] then HubStage.selecting else .sending message rest).message = some m) :
    message = m := by
  split at h
  · cases h
  · exact Option.some.inj h

theorem offer_message {message m : Payload} {rest : List κ} (h : Hub κ)
    (hm : (offer h d message rest).stage.message = some m) : message = m := by
  unfold offer at hm
  split at hm
  · cases hm
  · split at hm
    · exact loop_message hm
    · exact Option.some.inj hm

theorem HubStep.message {e : HubEvent κ} (hstep : HubStep userID h e h') {message : Payload}
    (hmessage : h'.stage.message = some message) :
    h.stage.message = some message ∨ e.message = some message := by
  cases hstep with
  | @register d =>
    rw [(registerClient_rest userID h d).2.2.1] at hmessage
    exact .inl hmessage
  | @unregister d =>
    rcases unregisterClient_stage userID h d with hstage | hstage
    · exact .inl (by rwa [hstage] at hmessage)
    · rw [hstage] at hmessage
      cases hmessage
  | broadcast | direct =>
    obtain rfl := loop_message hmessage
    exact .inr rfl
  | deliver hstage =>
    obtain rfl := offer_message h hmessage
    exact .inl (by rw [hstage]; rfl)
  | dropped | receive | receiveNone => exact .inl hmessage

end Hub

section Producers
variable {κ δ : Type} {marshal : Message δ → Option Payload}

/-- What `json.Marshal` returns has no newline in it. -/
def MarshalsToLine (marshal : Message δ → Option Payload) : Prop :=
  ∀ m bytes, marshal m = some bytes → newline ∉ bytes

theorem toHub_message (hmarshal : MarshalsToLine marshal) {e : ServerEvent κ δ} {he : HubEvent κ}
    (hhub : toHub marshal e = some he) {m : Payload} (hm : he.message = some m) : newline ∉ m := by
  cases e with
  | read message order =>
    cases hhub
    cases hm
    exact newline_notMem_cleaned message
  | broadcast data timestamp order =>
    simp only [toHub] at hhub
    split at hhub
    · cases hhub
    · rename_i bytes hbytes
      cases hhub
      cases hm
      exact hmarshal _ _ hbytes
  | sendToUser to_ data timestamp order =>
    cases hhub
    exact hmarshal _ _ hm
  | sendToUserFrom from_ to_ data timestamp order =>
    cases hhub
    exact hmarshal _ _ hm
  | register _ | unregister _ | deliver =>
    cases hhub
    cases hm
  | pump _ _ => cases hhub

theorem toHub_receive {e : ServerEvent κ δ} {he : HubEvent κ} (hhub : toHub marshal e = some he)
    (d : κ) : he ≠ .receive d := by
  rintro rfl
  cases e with
  | broadcast data timestamp order =>
    simp only [toHub] at hhub
    split at hhub <;> cases hhub
  | _ => cases hhub

end Producers

section Server
variable {κ δ : Type} [DecidableEq κ] {userID : κ → UInt32} {marshal : Message δ → Option Payload}
variable {s s' : Server κ}

structure ServerFramed (s : Server κ) : Prop where
  message : ∀ m, s.hub.stage.message = some m → newline ∉ m
  channels : ∀ c, Framed (s.hub.sent c) (s.hub.send c) (s.pumps c)

theorem serverFramed_new : ServerFramed (newServer (κ := κ)) := ⟨nofun,fun _ => framed_new⟩

theorem Framed.channelStep {h h' : Hub κ} {c : κ} {p : Pump} (hf : Framed (h.sent c) (h.send c) p)
    (hclean : ∀ m, h.stage.message = some m → newline ∉ m) (hstep : ChannelStep h h' c) :
    Framed (h'.sent c) (h'.send c) p := by
  cases hstep with
  | same channel sent => rwa [channel,sent]
  | send message sending isOpen channel sent =>
    rw [channel,sent]
    exact hf.send isOpen (hclean message sending)
  | close channel sent =>
    rw [channel,sent]
    exact hf.close

theorem ServerFramed.hubStep (hs : ServerFramed s) (hmarshal : MarshalsToLine marshal)
    {e : ServerEvent κ δ} (hstep : hubStep userID marshal s e = some s') : ServerFramed s' := by
  unfold Websocket.hubStep at hstep
  cases hhub : toHub marshal e with
  | none =>
    rw [hhub] at hstep
    cases hstep
    exact hs
  | some he =>
    simp only [hhub,Option.map_eq_some_iff] at hstep
    obtain ⟨h,hnext,rfl⟩ := hstep
    have hhubStep := hubStep_of_next userID hnext
    have hreceive := toHub_receive hhub
    refine ⟨fun m hm => ?_,fun c =>
      (hs.channels c).channelStep hs.message (hhubStep.channel hreceive c)⟩
    rcases hhubStep.message hm with hbefore | hreceived
    · exact hs.message m hbefore
    · exact toHub_message hmarshal hhub hreceived

theorem ServerFramed.pump (hs : ServerFramed s) {c : κ} {e : PumpEvent} {p : Pump} {ch : Channel}
    (hstep : pumpNext (s.pumps c) (s.hub.send c) e = some (p,ch)) :
    ServerFramed ⟨{ s.hub with send := Function.update s.hub.send c ch },
      Function.update s.pumps c p⟩ where
  message := hs.message
  channels d := by
    by_cases hd : d = c
    · subst hd
      simp only [Function.update_self]
      exact (hs.channels d).pumpNext hstep
    · simp only [Function.update_of_ne hd]
      exact hs.channels d

theorem ServerFramed.next (hs : ServerFramed s) (hmarshal : MarshalsToLine marshal)
    {e : ServerEvent κ δ} (hstep : serverNext userID marshal s e = some s') : ServerFramed s' := by
  cases e with
  | pump c e =>
    simp only [serverNext,Option.map_eq_some_iff] at hstep
    obtain ⟨⟨p,ch⟩,hpump,rfl⟩ := hstep
    exact hs.pump hpump
  | read message order =>
    simp only [serverNext,Option.ite_none_right_eq_some] at hstep
    exact hs.hubStep hmarshal hstep.2
  | _ =>
    simp only [serverNext] at hstep
    exact hs.hubStep hmarshal hstep

theorem ServerFramed.run (hs : ServerFramed s) (hmarshal : MarshalsToLine marshal)
    (events : List (ServerEvent κ δ)) (hrun : runServer userID marshal s events = some s') :
    ServerFramed s' := by
  induction events generalizing s with
  | nil =>
    cases hrun
    exact hs
  | cons e events ih =>
    simp only [runServer,List.foldlM_cons,Option.bind_eq_bind,Option.bind_eq_some_iff] at hrun
    obtain ⟨t,hstep,hrest⟩ := hrun
    exact ih (hs.next hmarshal hstep) hrest

/-- In every run, what the text frames of a client hold, line by line, is the start of what the
hub put on its channel, and all of it once the channel was found closed. -/
theorem framing_lossless (userID : κ → UInt32) {marshal : Message δ → Option Payload}
    (hmarshal : MarshalsToLine marshal) (events : List (ServerEvent κ δ)) {s : Server κ}
    (hrun : runServer userID marshal newServer events = some s) (c : κ) :
    (s.pumps c).messages <+: s.hub.sent c ∧
      ((s.pumps c).stage = .finished → (s.pumps c).messages = s.hub.sent c) :=
  ((serverFramed_new.run hmarshal events hrun).channels c).lossless

end Server

/-- A message without data as JSON. -/
def nullLine : Payload :=
  "\x7b\"type\":\"broadcast\",\"data\":null,\"timestamp\":7\x7d".toList.map fun c =>
    UInt8.ofNat c.toNat

def marshalNull (m : Message Unit) : Option Payload :=
  if m = ⟨"broadcast",0,0,(),7⟩ then some nullLine else none

theorem marshalNull_line : MarshalsToLine marshalNull := by
  intro m bytes hm
  simp only [marshalNull,Option.ite_none_right_eq_some,Option.some.injEq] at hm
  rw [← hm.2]
  decide

/-- Two lines in one frame, the second empty, and one more when the channel is closed. -/
def threeLines : List (ServerEvent Nat Unit) :=
  [.register 1,.read [104,105] [1],.deliver,.read [10] [1],.pump 1 (.take true true),.deliver,
    .broadcast () 7 [1],.pump 1 .count,.deliver,.unregister 1,.pump 1 (.add true true),
    .pump 1 (.close true),.pump 1 (.take true true),.pump 1 .count,.pump 1 (.close true),
    .pump 1 (.take true true)]

theorem framing_lossless_three_lines :
    ∃ s, runServer (fun _ => 0) marshalNull newServer threeLines = some s ∧
      (s.pumps 1).frames = [[104,105,10],nullLine] ∧ (s.pumps 1).messages = s.hub.sent 1 := by
  have hrun : ((runServer (fun _ => 0) marshalNull newServer threeLines).map fun s =>
      ((s.pumps 1).frames,(s.pumps 1).stage)) = some ([[104,105,10],nullLine],.finished) := by
        decide
  rw [Option.map_eq_some_iff] at hrun
  obtain ⟨s,hs,hpump⟩ := hrun
  rw [Prod.mk.injEq] at hpump
  exact ⟨s,hs,hpump.1,(framing_lossless (fun _ => 0) marshalNull_line threeLines hs 1).2 hpump.2⟩

end Imy.Websocket
