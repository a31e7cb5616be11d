import Imy.Websocket.Framing
set_option autoImplicit false

namespace Imy.Websocket
open Imy.Lib

structure Heard where
  registered : Bool
  messages : List Payload
  deriving DecidableEq, Repr

def HubEvent.goesTo {κ : Type} (u : UInt32) : HubEvent κ → Bool
  | .broadcast _ _ => true
  | .direct to_ _ _ => to_ ≠ 0 && to_ = u
  | _ => false

theorem addressed_loop {ι : Type} (message : Payload) (rest : List ι) :
    (if rest = [] then HubStage.selecting else .sending message rest).addressed = rest := by
  by_cases hrest : rest = []
  · subst hrest
    rfl
  · rw [if_neg hrest]
    rfl

section Heard
variable {κ : Type} [DecidableEq κ] (userID : κ → UInt32)

def hear (c : κ) (a : Heard) : HubEvent κ → Heard
  | .register d => if d = c then { a with registered := true } else a
  | .unregister d => if d = c then { a with registered := false } else a
  | e =>
    if a.registered && e.goesTo (userID c) then
        { a with messages := a.messages ++ e.message.toList }
    else a

def heard (c : κ) (events : List (HubEvent κ)) : Heard := events.foldl (hear userID c) ⟨false,[]⟩

/-- The message of the loop, for a client that has not had its turn. -/
def HubStage.pending (stage : HubStage κ) (c : κ) : List Payload :=
  if c ∈ stage.addressed then stage.message.toList else []

/-- The hub has sent, or is going to send, what each client is to hear. -/
structure Told (a : κ → Heard) (h : Hub κ) : Prop where
  registered : ∀ c, (a c).registered = true ↔ c ∈ h.clients
  messages : ∀ c, (a c).messages = h.sent c ++ h.stage.pending c
  once : h.stage.addressed.Nodup

variable {userID} {a : κ → Heard} {h h' : Hub κ} {registered : List κ} {c d : κ}

theorem heard_concat (c : κ) (events : List (HubEvent κ)) (e : HubEvent κ) :
    heard userID c (events ++ [e]) = hear userID c (heard userID c events) e := by
  rw [heard,List.foldl_append]
  rfl

theorem pending_selecting (c : κ) : (HubStage.selecting : HubStage κ).pending c = [] := rfl

theorem pending_loop (message : Payload) (rest : List κ) (c : κ) :
    (if rest = [] then HubStage.selecting else .sending message rest).pending c =
      if c ∈ rest then [message] else [] := by
  by_cases hrest : rest = []
  · subst hrest
    rfl
  · rw [if_neg hrest]
    rfl

theorem told_new : Told (fun c => heard userID c []) (newHub (κ := κ)) where
  registered c := by simp [heard,newHub]
  messages c := rfl
  once := List.nodup_nil

theorem Told.clients (ht : Told a h) (hstage : h.stage = .selecting) {a' : κ → Heard}
    (hreg : ∀ c, (a' c).registered = true ↔ c ∈ h'.clients)
    (hmessages : ∀ c, (a' c).messages = (a c).messages)
    (hsent : ∀ c, h'.sent c = h.sent c) (hstage' : h'.stage = .selecting) : Told a' h' where
  registered := hreg
  messages c := by rw [hmessages,ht.messages,hsent,hstage',hstage]
  once := by
    rw [hstage']
    exact List.nodup_nil

theorem Told.register (ht : Told a h) (hstage : h.stage = .selecting) (d : κ) :
    Told (fun c => hear userID c (a c) (.register d)) (registerClient userID h d) := by
  obtain ⟨hclients,-,hst,hlog⟩ := registerClient_rest userID h d
  refine ht.clients hstage (fun c => ?_) (fun c => ?_) (fun c => ?_) (hst.trans hstage)
  · rw [hclients,List.mem_insert_iff,← ht.registered c]
    by_cases hc : d = c
    · simp [hear,hc]
    · simp [hear,hc,Ne.symm hc]
  · by_cases hc : d = c <;> simp [hear,hc]
  · rw [Hub.sent,hlog,Hub.sent]

theorem unregisterClient_sent (userID : κ → UInt32) (hstage : h.stage = .selecting) (d c : κ) :
    (unregisterClient userID h d).sent c = h.sent c := by
  cases unregisterClient_channel userID h d c with
  | same _ sent => exact sent
  | close _ sent => exact sent
  | send message sending =>
    rw [hstage] at sending
    cases sending

theorem unregisterClient_clients (userID : κ → UInt32) (h : Hub κ) (d : κ) :
    (unregisterClient userID h d).clients = h.clients.erase d := by
  unfold unregisterClient
  split
  · rw [(dropUserClient_rest userID _ d).1,closeSend]
    split <;> rfl
  · rename_i hd
    exact (List.erase_of_not_mem hd).symm

theorem Told.unregister (ht : Told a h) (hs : HubSound userID registered h)
    (hstage : h.stage = .selecting)
    (d : κ) : Told (fun c => hear userID c (a c) (.unregister d))
      (unregisterClient userID h d) := by
  have hst : (unregisterClient userID h d).stage = .selecting := by
    rcases unregisterClient_stage userID h d with hst | hst
    · exact hst.trans hstage
    · exact absurd hst (hs.unregister hstage d).alive
  refine ht.clients hstage (fun c => ?_) (fun c => ?_)
    (fun c => unregisterClient_sent userID hstage d c) hst
  · rw [unregisterClient_clients,hs.nodup.mem_erase_iff,← ht.registered c]
    by_cases hc : d = c
    · simp [hear,hc]
    · simp [hear,hc,Ne.symm hc]
  · by_cases hc : d = c <;> simp [hear,hc]

theorem Told.startSending (ht : Told a h) (hstage : h.stage = .selecting) {e : HubEvent κ}
    {message : Payload} {order : List κ} (hhear : ∀ c, hear userID c (a c) e =
      if (a c).registered && e.goesTo (userID c) then
        { a c with messages := (a c).messages ++ [message] }
      else a c)
    (hnodup : order.Nodup) (horder : ∀ c, c ∈ order ↔ c ∈ h.clients ∧ e.goesTo (userID c) = true) :
    Told (fun c => hear userID c (a c) e) (startSending h message order) where
  registered c := by
    rw [hhear]
    have hreg : (a c).registered = true ↔ c ∈ (Websocket.startSending h message order).clients :=
      ht.registered c
    split <;> exact hreg
  messages c := by
    have hbefore := ht.messages c
    rw [hstage,pending_selecting,List.append_nil] at hbefore
    have hsent : (Websocket.startSending h message order).sent c = h.sent c := rfl
    rw [hhear,hsent,Websocket.startSending,pending_loop]
    by_cases hc : c ∈ order
    · have hto := (horder c).mp hc
      rw [if_pos hc,if_pos (by rw [(ht.registered c).mpr hto.1,hto.2]; rfl),hbefore]
    · have hnot : ((a c).registered && e.goesTo (userID c)) = false := by
        rw [Bool.and_eq_false_iff]
        by_contra hboth
        simp only [not_or,Bool.not_eq_false] at hboth
        exact hc ((horder c).mpr ⟨(ht.registered c).mp hboth.1,hboth.2⟩)
      rw [if_neg hc,hnot,List.append_nil]
      exact hbefore
  once := by
    rw [Websocket.startSending,addressed_loop]
    exact hnodup

/-- A round of the loop: the message is on the channel and not pending any more, or it waits. -/
theorem Told.offer (ht : Told a h) (hs : HubSound userID registered h)
    {message : Payload} {rest : List κ}
    (hstage : h.stage = .sending message (d :: rest)) : Told a (offer h d message rest) := by
  have honce : (d :: rest).Nodup := by
    have := ht.once
    rwa [hstage] at this
  have hpending : ∀ c, h.stage.pending c = if c ∈ d :: rest then [message] else [] := by
    intro c
    rw [hstage]
    rfl
  have hopen := hs.open_of_mem (hs.addressed d (by rw [hstage]; exact List.mem_cons_self))
  unfold Websocket.offer
  rw [if_neg (by simp [hopen])]
  split
  · refine ⟨ht.registered,fun c => ?_,?_⟩
    · have hsent : sentTo c (h.log ++ [(d,.sent message)]) = h.sent c ++ if d = c then
          [message] else [] :=
        sentTo_concat c d h.log message
      change (a c).messages = sentTo c (h.log ++ [(d,.sent message)]) ++ _
      rw [ht.messages,hpending,pending_loop,hsent,List.append_assoc]
      by_cases hc : d = c
      · subst hc
        simp [(List.nodup_cons.mp honce).1]
      · simp [hc,Ne.symm hc]
    · rw [addressed_loop]
      exact honce.of_cons
  · refine ⟨ht.registered,fun c => ?_,honce⟩
    rw [ht.messages,hpending]
    rfl

theorem Told.dropped (ht : Told a h) {e : HubEvent κ}
    (hhear : ∀ c, hear userID c (a c) e = a c) : Told (fun c => hear userID c (a c) e) h := by
  rw [funext hhear]
  exact ht

theorem Told.next (ht : Told a h) (hs : HubSound userID registered h) {e : HubEvent κ}
    (hstep : Websocket.next userID h e = some h') : Told (fun c => hear userID c (a c) e) h' := by
  have hstep' := hubStep_of_next userID hstep
  cases e with
  | register d =>
    cases hstep' with
    | register hstage => exact ht.register hstage d
  | unregister d =>
    cases hstep' with
    | unregister hstage => exact ht.unregister hs hstage d
  | broadcast message order =>
    cases hstep' with
    | broadcast hstage hperm =>
      refine ht.startSending hstage (fun c => rfl) (hperm.nodup_iff.mpr hs.nodup) fun c => ?_
      rw [hperm.mem_iff]
      exact (and_iff_left rfl).symm
  | direct to_ message order =>
    simp only [Websocket.next,Option.ite_none_right_eq_some] at hstep
    obtain ⟨hstage,hstep⟩ := hstep
    have hlisted := hs.byUser.listed to_
    cases hentry : h.userClients to_ with
    | none =>
      simp only [hentry,Option.some.injEq] at hstep
      subst hstep
      refine ht.dropped fun c => if_neg ?_
      have hnobody := hlisted c
      simp only [hentry] at hnobody
      rw [Bool.and_eq_true,ht.registered]
      rintro ⟨hc,hto⟩
      simp only [HubEvent.goesTo,Bool.and_eq_true,decide_eq_true_eq] at hto
      obtain ⟨cs,hcs,-⟩ := hnobody.mpr ⟨hc,hto.2.symm,hto.1⟩
      cases hcs
    | some clients =>
      simp only [hentry,Option.ite_none_right_eq_some] at hstep
      obtain ⟨hperm,hstep⟩ := hstep
      cases message with
      | none =>
        cases hstep
        refine ht.dropped fun c => ?_
        simp only [hear,HubEvent.message,Option.toList_none,List.append_nil]
        split <;> rfl
      | some bytes =>
        cases hstep
        refine ht.startSending hstage (fun c => rfl)
          (hperm.nodup_iff.mpr (hs.byUser.entries to_ clients hentry).2) fun c => ?_
        have hmem := hlisted c
        simp only [hentry,Option.some.injEq,exists_eq_left'] at hmem
        rw [hperm.mem_iff,hmem]
        simp only [HubEvent.goesTo,Bool.and_eq_true,decide_eq_true_eq]
        exact and_congr_right fun _ => ⟨fun hu => ⟨hu.2,hu.1.symm⟩,fun hu => ⟨hu.2.symm,hu.1⟩⟩
  | deliver =>
    cases hstep' with
    | deliver hstage =>
      refine Eq.mpr (congrArg (fun a => Told a _) (funext fun c => ?_)) (ht.offer hs hstage)
      simp [hear,HubEvent.goesTo]
  | receive d =>
    have hsame : (fun c => hear userID c (a c) (.receive d)) = a := by
      funext c
      simp [hear,HubEvent.goesTo]
    rw [hsame]
    cases hstep' with
    | receive => exact ⟨ht.registered,ht.messages,ht.once⟩
    | receiveNone => exact ht

end Heard

section Server
variable {κ δ : Type} [DecidableEq κ] (userID : κ → UInt32) (marshal : Message δ → Option Payload)

/-- What the hub was sent in a run of the server. -/
def hubEvents (events : List (ServerEvent κ δ)) : List (HubEvent κ) :=
  events.filterMap (toHub marshal)

structure ServerTold (taken : List (HubEvent κ)) (s : Server κ) : Prop where
  sound : HubSound userID (registrations taken) s.hub
  told : Told (fun c => heard userID c taken) s.hub

variable {userID} {marshal} {s s' : Server κ} {taken : List (HubEvent κ)}

theorem serverTold_new : ServerTold userID [] (newServer (κ := κ)) := ⟨hubSound_new,told_new⟩

theorem ServerTold.hub (ht : ServerTold userID taken s) {e : HubEvent κ}
    (honce : (registrations (taken ++ [e])).Nodup) {h : Hub κ}
    (hstep : next userID s.hub e = some h) :
    HubSound userID (registrations (taken ++ [e])) h ∧
      Told (fun c => heard userID c (taken ++ [e])) h := by
  have happend : registrations (taken ++ [e]) = registrations taken ++ registrations [e] :=
    List.filterMap_append
  rw [happend] at honce ⊢
  constructor
  · refine ht.sound.next hstep ?_
    rintro c rfl hin
    exact (List.nodup_append.mp honce).2.2 c hin c (by simp [registrations]) rfl
  · simp only [heard_concat]
    exact ht.told.next ht.sound hstep

theorem ServerTold.hubStep (ht : ServerTold userID taken s) {e : ServerEvent κ δ}
    (honce : (registrations (taken ++ (toHub marshal e).toList)).Nodup)
    (hstep : hubStep userID marshal s e = some s') :
    ServerTold userID (taken ++ (toHub marshal e).toList) s' := by
  unfold Websocket.hubStep at hstep
  cases hhub : toHub marshal e with
  | none =>
    rw [hhub] at hstep
    cases hstep
    rw [Option.toList_none,List.append_nil]
    exact ht
  | some he =>
    simp only [hhub,Option.map_eq_some_iff] at hstep
    obtain ⟨h,hnext,rfl⟩ := hstep
    rw [hhub] at honce
    obtain ⟨hsound,htold⟩ := ht.hub honce hnext
    exact ⟨hsound,htold⟩

/-- A step of `writePump` is at most a receive for the hub. -/
theorem ServerTold.pump (ht : ServerTold userID taken s) {c : κ} {e : PumpEvent}
    {p : Pump} {ch : Channel} (hstep : pumpNext (s.pumps c) (s.hub.send c) e = some (p,ch)) :
    ServerTold userID taken ⟨{ s.hub with send := Function.update s.hub.send c ch },
      Function.update s.pumps c p⟩ := by
  refine ⟨?_,⟨ht.told.registered,ht.told.messages,ht.told.once⟩⟩
  rcases pumpNext_channel hstep with rfl | ⟨message,hch⟩
  · simp only [Function.update_eq_self]
    exact ht.sound
  · have hclosed : ch = ⟨ch.buffer,(s.hub.send c).closed⟩ := by rw [hch]
    rw [hclosed]
    exact ht.sound.receive c ch.buffer

theorem ServerTold.next (ht : ServerTold userID taken s) {e : ServerEvent κ δ}
    (honce : (registrations (taken ++ (toHub marshal e).toList)).Nodup)
    (hstep : serverNext userID marshal s e = some s') :
    ServerTold userID (taken ++ (toHub marshal e).toList) s' := by
  cases e with
  | pump c e =>
    simp only [serverNext,Option.map_eq_some_iff] at hstep
    obtain ⟨⟨p,ch⟩,hpump,rfl⟩ := hstep
    rw [toHub,Option.toList_none,List.append_nil]
    exact ht.pump hpump
  | read message order =>
    simp only [serverNext,Option.ite_none_right_eq_some] at hstep
    exact ht.hubStep honce hstep.2
  | _ =>
    simp only [serverNext] at hstep
    exact ht.hubStep honce hstep

omit [DecidableEq κ] in
theorem hubEvents_concat (events : List (ServerEvent κ δ)) (e : ServerEvent κ δ) :
    hubEvents marshal (events ++ [e]) = hubEvents marshal events ++ (toHub marshal e).toList := by
  rw [hubEvents,List.filterMap_append,hubEvents]
  cases hhub : toHub marshal e <;> simp [hhub]

theorem serverTold_run (events : List (ServerEvent κ δ))
    (honce : (registrations (hubEvents marshal events)).Nodup)
    (hrun : runServer userID marshal newServer events = some s) :
    ServerTold userID (hubEvents marshal events) s := by
  induction events using List.reverseRecOn generalizing s with
  | nil =>
    cases hrun
    exact serverTold_new
  | append_singleton events e ih =>
    rw [runServer,runs_concat] at hrun
    obtain ⟨t,hbefore,hstep⟩ := Option.bind_eq_some_iff.mp hrun
    rw [hubEvents_concat] at honce ⊢
    refine (ih ?_ hbefore).next honce hstep
    rw [registrations,List.filterMap_append] at honce
    exact (List.nodup_append.mp honce).1

/-- A client that is gone is not among those the loop has still to reach. -/
theorem ServerTold.pending_of_closed (ht : ServerTold userID taken s) {c : κ}
    (hclosed : (s.hub.send c).closed = true) : s.hub.stage.pending c = [] := by
  refine if_neg fun hc => ?_
  rw [ht.sound.open_of_mem (ht.sound.addressed c hc)] at hclosed
  cases hclosed

/-- In every run in which no client is registered twice, and for every client: the messages of
the broadcasts and of those direct to its user that the hub took while it was registered are,
in this order and each once, on its channel, or the loop has still to reach it; its text
frames hold the start of them, and all once `writePump` found the channel closed. -/
theorem heard_once_in_order (userID : κ → UInt32) {marshal : Message δ → Option Payload}
    (hmarshal : MarshalsToLine marshal) (events : List (ServerEvent κ δ))
    (honce : (registrations (hubEvents marshal events)).Nodup) {s : Server κ}
    (hrun : runServer userID marshal newServer events = some s) (c : κ) :
    (heard userID c (hubEvents marshal events)).messages = s.hub.sent c ++ s.hub.stage.pending c ∧
      (s.pumps c).messages <+: (heard userID c (hubEvents marshal events)).messages ∧
      ((s.pumps c).stage = .finished →
        (s.pumps c).messages = (heard userID c (hubEvents marshal events)).messages) := by
  have ht := serverTold_run events honce hrun
  have hframed := (serverFramed_new.run hmarshal events hrun).channels c
  obtain ⟨hinit,hall⟩ := hframed.lossless
  refine ⟨ht.told.messages c,?_,fun hfinished => ?_⟩
  · rw [ht.told.messages c]
    exact hinit.trans (List.prefix_append _ _)
  · obtain ⟨held,-,hholds⟩ := hframed.accounted
    rw [hfinished] at hholds
    rw [ht.told.messages c,ht.pending_of_closed hholds.2.2,List.append_nil]
    exact hall hfinished

end Server

/-- A message to user 7 without data, as JSON. -/
def directLine : Payload :=
  "\x7b\"type\":\"direct\",\"to\":7,\"data\":null,\"timestamp\":7\x7d".toList.map fun c =>
    UInt8.ofNat c.toNat

def marshalDirect (m : Message Unit) : Option Payload :=
  if m = ⟨"direct",7,0,(),7⟩ then some directLine else none

theorem marshalDirect_line : MarshalsToLine marshalDirect := by
  intro m bytes hm
  simp only [marshalDirect,Option.ite_none_right_eq_some,Option.some.injEq] at hm
  rw [← hm.2]
  decide

/-- A broadcast to a client of user 7 and to one of user 9, and a message to user 7, of whom the
loop has reached one of his two clients. -/
def threeClients : List (ServerEvent Nat Unit) :=
  [.register 1,.register 3,.read [104,105] [3,1],.deliver,.deliver,.register 2,
    .sendToUser 7 () 7 [2,1],.deliver,.pump 1 (.take true true),.pump 1 .count,
      .pump 1 (.close true)]

theorem heard_once_in_order_three_clients :
    ∃ s, runServer (fun c => if c = 3 then 9 else 7) marshalDirect newServer threeClients = some s ∧
      (heard (fun c => if c = 3 then 9 else 7) 1 (hubEvents marshalDirect threeClients)).messages =
        [[104,105],directLine] ∧
      s.hub.sent 1 = [[104,105]] ∧ s.hub.stage.pending 1 = [directLine] ∧
      (s.pumps 1).messages <+: [[104,105],directLine] := by
  have hrun : ((runServer (fun c => if c = 3 then 9 else 7) marshalDirect newServer
      threeClients).map fun s => (s.hub.sent 1,s.hub.stage.pending 1)) =
        some ([[104,105]],[directLine]) := by decide
  rw [Option.map_eq_some_iff] at hrun
  obtain ⟨s,hs,hhub⟩ := hrun
  rw [Prod.mk.injEq] at hhub
  obtain ⟨hmessages,hinit,-⟩ := heard_once_in_order (fun c => if c = 3 then 9 else 7)
    marshalDirect_line threeClients (by decide) hs 1
  rw [hhub.1,hhub.2] at hmessages
  rw [hmessages] at hinit
  exact ⟨s,hs,hmessages,hhub.1,hhub.2,hinit⟩

end Imy.Websocket
