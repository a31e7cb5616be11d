import Imy.Lib.Lists
import Imy.Websocket.HubInvariant
set_option autoImplicit false

namespace Imy.Websocket
open Imy.Lib

section Stages
variable {κ : Type} {h : Hub κ}

/-- The hub waits for somebody to receive from `unregister`. -/
def Hub.Waits (h : Hub κ) : Prop := ∃ client message rest, h.stage = .waiting client message rest

/-- There is room in the channel of the client whose turn it is. -/
def Hub.HasRoom (h : Hub κ) : Prop :=
  ∃ client message rest, h.stage = .sending message (client :: rest) ∧
    (h.send client).buffer.length < bufSize

theorem hasRoom_iff {message : Payload} {c : κ} {rest : List κ}
    (hstage : h.stage = .sending message (c :: rest)) :
    h.HasRoom ↔ (h.send c).buffer.length < bufSize := by
  unfold Hub.HasRoom
  simp [hstage]

theorem not_waits_of_loop {message : Payload} {rest : List κ}
    (hstage : h.stage = if rest = [] then .selecting else .sending message rest) : ¬ h.Waits := by
  rintro ⟨c,m,r,heq⟩
  rw [hstage] at heq
  split at heq <;> cases heq

end Stages

variable {κ : Type} [DecidableEq κ] {userID : κ → UInt32} {h h' : Hub κ} {registered : List κ}

theorem next_receive (userID : κ → UInt32) (h : Hub κ) (c : κ) :
    ∃ h', next userID h (.receive c) = some h' ∧ h'.stage = h.stage := by
  simp only [next]
  split <;> exact ⟨_,rfl,rfl⟩

/-- An event other than a round that is taken at the `select` ends there or begins a loop. -/
theorem next_selecting {e : HubEvent κ} (hstage : h.stage = .selecting)
    (hopen : ∀ c ∈ h.clients, (h.send c).closed = false) (hstep : next userID h e = some h') :
    ∃ message rest, h'.stage = if rest = [] then .selecting else .sending message rest := by
  have hend : h'.stage = .selecting →
      ∃ message rest, h'.stage = if rest = [] then .selecting else .sending message rest :=
    fun hst => ⟨[],[],by simpa using hst⟩
  cases hubStep_of_next userID hstep with
  | @register c => exact hend ((registerClient_rest userID h c).2.2.1.trans hstage)
  | @unregister c =>
    refine hend ?_
    unfold unregisterClient
    split
    · rename_i hc
      rw [(dropUserClient_rest userID _ c).2.2.1]
      simp [closeSend,hopen c hc,hstage]
    · exact hstage
  | @broadcast message order => exact ⟨message,order,rfl⟩
  | @direct to_ bytes order => exact ⟨bytes,order,rfl⟩
  | deliver hsending => cases hstage.symm.trans hsending
  | dropped | receive | receiveNone => exact hend hstage

/-- A round that finds room leaves the rest to do, and one that does not waits. -/
theorem HubSound.next_deliver (hs : HubSound userID registered h) {message : Payload} {c : κ}
    {rest : List κ} (hstage : h.stage = .sending message (c :: rest)) :
    ∃ h', Websocket.next userID h .deliver = some h' ∧
      if (h.send c).buffer.length < bufSize then
        h'.stage = if rest = [] then .selecting else .sending message rest
      else h'.stage = .waiting c message rest := by
  have hopen := hs.open_of_mem (hs.addressed c (by rw [hstage]; exact List.mem_cons_self))
  refine ⟨Websocket.offer h c message rest,by simp only [Websocket.next,hstage],?_⟩
  by_cases hroom : (h.send c).buffer.length < bufSize
  · simp [Websocket.offer,hopen,hroom]
  · simp [Websocket.offer,hopen,hroom]

theorem waits_next {e : HubEvent κ} (hw : h.Waits) (hstep : next userID h e = some h') :
    h'.Waits := by
  obtain ⟨c,message,rest,hstage⟩ := hw
  cases e with
  | receive d =>
    obtain ⟨h'',hstep',hst⟩ := next_receive userID h d
    cases hstep.symm.trans hstep'
    exact ⟨c,message,rest,hst.trans hstage⟩
  | _ => simp [next,hstage] at hstep

theorem waits_run {events : List (HubEvent κ)} (hw : h.Waits)
    (hrun : runHub userID h events = some h') :
    h'.Waits := by
  induction events generalizing h with
  | nil =>
    cases hrun
    exact hw
  | cons e events ih =>
    rw [runHub_cons,Option.bind_eq_some_iff] at hrun
    obtain ⟨t,hstep,hrun⟩ := hrun
    exact ih (waits_next hw hstep) hrun

/-- One event leads into the wait exactly if it is a round without room. -/
theorem HubSound.waits_iff (hs : HubSound userID registered h) (hw : ¬ h.Waits) {e : HubEvent κ}
    (hstep : Websocket.next userID h e = some h') : ¬ h'.Waits ↔ (e = .deliver → h.HasRoom) := by
  by_cases he : e = .deliver
  · subst he
    rw [forall_prop_of_true rfl]
    simp only [Websocket.next] at hstep
    split at hstep
    swap
    · cases hstep
    rename_i message c rest hstage
    obtain ⟨h'',hstep',hst⟩ := hs.next_deliver hstage
    simp only [Websocket.next,hstage] at hstep'
    cases hstep.symm.trans hstep'
    rw [hasRoom_iff hstage]
    split at hst
    · rename_i hroom
      exact iff_of_true (not_waits_of_loop hst) hroom
    · rename_i hfull
      exact iff_of_false (fun hno => hno ⟨c,message,rest,hst⟩) hfull
  · refine iff_of_true ?_ fun heq => absurd heq he
    by_cases hstage : h.stage = .selecting
    · obtain ⟨message,rest,hst⟩ := next_selecting hstage (fun c hc => hs.open_of_mem hc) hstep
      exact not_waits_of_loop hst
    · cases e with
      | receive d =>
        obtain ⟨h'',hstep',hst⟩ := next_receive userID h d
        cases hstep.symm.trans hstep'
        rintro ⟨c,m,r,heq⟩
        exact hw ⟨c,m,r,hst.symm.trans heq⟩
      | deliver => exact absurd rfl he
      | _ => simp [Websocket.next,hstage] at hstep

/-- The loop over the clients ends at the `select` exactly if there is room in each round. -/
theorem HubSound.loop_ends_iff (hs : HubSound userID registered h)
    {message : Payload} {rest : List κ}
    (hstage : h.stage = if rest = [] then .selecting else .sending message rest)
    (events : List (HubEvent κ)) (hloop : ∀ e ∈ events, e = .deliver ∨ ∃ c, e = .receive c)
    (hrounds : events.count .deliver = rest.length) :
    (∃ h', runHub userID h events = some h' ∧ h'.stage = .selecting) ↔
      ∀ before after, events = before ++ HubEvent.deliver :: after →
        ∃ hb, runHub userID h before = some hb ∧ hb.HasRoom := by
  -- by induction on the events; what is left to do gets shorter with each round
  induction events generalizing h rest with
  | nil =>
    obtain rfl : rest = [] := List.length_eq_zero_iff.mp hrounds.symm
    exact iff_of_true ⟨h,rfl,by simpa using hstage⟩ fun before after hsplit => by simp at hsplit
  | cons e events ih =>
    have hloop' : ∀ e ∈ events, e = .deliver ∨ ∃ c, e = .receive c :=
      fun x hx => hloop x (List.mem_cons_of_mem _ hx)
    have hkeep : ∀ {t}, Websocket.next userID h e = some t → HubSound userID registered t := by
      intro t hstep
      rcases hloop e List.mem_cons_self with rfl | ⟨c,rfl⟩
      · simpa [registrations] using hs.next hstep (by simp)
      · simpa [registrations] using hs.next hstep (by simp)
    rw [beginnings_cons]
    simp only [runHub_cons]
    rcases hloop e List.mem_cons_self with rfl | ⟨c,rfl⟩
    · rw [List.count_cons_self] at hrounds
      obtain ⟨c,rest,rfl⟩ : ∃ c rest', rest = c :: rest' :=
        List.exists_cons_of_length_eq_add_one hrounds.symm
      rw [if_neg (List.cons_ne_nil c rest)] at hstage
      obtain ⟨t,hstep,hst⟩ := hs.next_deliver hstage
      rw [hstep]
      by_cases hroom : (h.send c).buffer.length < bufSize
      · rw [if_pos hroom] at hst
        refine (ih (hkeep hstep) hst hloop' (Nat.succ.inj hrounds)).trans ?_
        exact (and_iff_right fun _ => ⟨h,rfl,(hasRoom_iff hstage).mpr hroom⟩).symm
      · rw [if_neg hroom] at hst
        refine iff_of_false ?_ ?_
        · rintro ⟨h',hrun,hsel⟩
          obtain ⟨d,m,r,hwait⟩ := waits_run ⟨c,message,rest,hst⟩ hrun
          cases hwait.symm.trans hsel
        · rintro ⟨hfirst,-⟩
          obtain ⟨hb,heq,hroom'⟩ := hfirst rfl
          cases heq
          exact hroom ((hasRoom_iff hstage).mp hroom')
    · obtain ⟨t,hstep,hst⟩ := next_receive userID h c
      rw [hstep]
      refine (ih (hkeep hstep) (hst.trans hstage) hloop' ?_).trans ?_
      · rwa [List.count_cons_of_ne (by simp)] at hrounds
      · exact (and_iff_right fun heq => by cases heq).symm

/-- In a run the hub waits nowhere exactly if there is room whenever a client has its
turn. -/
theorem never_waits_iff (userID : κ → UInt32) (events : List (HubEvent κ))
    (honce : (registrations events).Nodup) {h : Hub κ}
    (hrun : runHub userID newHub events = some h) :
    (∀ before after, events = before ++ after →
        ∀ hb, runHub userID newHub before = some hb → ¬ hb.Waits) ↔
      ∀ before after, events = before ++ HubEvent.deliver :: after →
        ∀ hb, runHub userID newHub before = some hb → hb.HasRoom := by
  have hsound : ∀ before after, events = before ++ after →
      ∃ hb, runHub userID newHub before = some hb ∧ HubSound userID (registrations before) hb := by
    rintro before after rfl
    obtain ⟨hb,hbefore⟩ := runs_initial hrun
    refine ⟨hb,hbefore,hubSound_run before ?_ hbefore⟩
    rw [registrations,List.filterMap_append] at honce
    exact (List.nodup_append.mp honce).1
  refine (beginnings_iff (P := fun before =>
    ∀ hb, runHub userID newHub before = some hb → ¬ hb.Waits)
    (C := fun before x => x = .deliver → ∀ hb, runHub userID newHub before = some hb → hb.HasRoom)
    ?_ fun before x after hsplit hP => ?_).trans ?_
  · intro hb heq
    cases heq
    rintro ⟨c,m,r,hstage⟩
    cases hstage
  · obtain ⟨hb,hbefore,hs⟩ := hsound before (x :: after) hsplit
    obtain ⟨t,ht,-⟩ := hsound (before ++ [x]) after (by rw [hsplit,List.append_assoc]; rfl)
    have hstep := ht
    rw [runHub_concat,hbefore] at hstep
    simp only [ht,hbefore,Option.some.injEq,forall_eq']
    exact hs.waits_iff (hP hb hbefore) hstep
  · exact ⟨fun hall before after hsplit => hall before .deliver after hsplit rfl,
      fun hall before x after hsplit hx => hall before after (hx ▸ hsplit)⟩

/-- A message that is taken is handled to the end exactly if there is room in each of its
rounds. -/
theorem HubSound.handled_iff (hs : HubSound userID registered h) {e : HubEvent κ} {t : Hub κ}
    (hstep : Websocket.next userID h e = some t)
    (hmessage : (∃ message order, e = .broadcast message order) ∨
      ∃ to_ message order, e = .direct to_ message order)
    (rounds : List (HubEvent κ)) (hloop : ∀ e ∈ rounds, e = .deliver ∨ ∃ c, e = .receive c)
    (hrounds : rounds.count .deliver = t.stage.addressed.length) :
    (∃ h', runHub userID t rounds = some h' ∧ h'.stage = .selecting) ↔
      ∀ before after, rounds = before ++ HubEvent.deliver :: after →
        ∃ hb, runHub userID t before = some hb ∧ hb.HasRoom := by
  have hstage : h.stage = .selecting := by
    rcases hmessage with ⟨message,order,rfl⟩ | ⟨to_,message,order,rfl⟩
    · simp only [Websocket.next,Option.ite_none_right_eq_some] at hstep
      exact hstep.1.1
    · simp only [Websocket.next,Option.ite_none_right_eq_some] at hstep
      exact hstep.1
  have ht : HubSound userID registered t := by
    rcases hmessage with ⟨message,order,rfl⟩ | ⟨to_,message,order,rfl⟩
    · simpa [registrations] using hs.next hstep (by simp)
    · simpa [registrations] using hs.next hstep (by simp)
  obtain ⟨message,rest,hst⟩ := next_selecting hstage (fun c hc => hs.open_of_mem hc) hstep
  refine ht.loop_ends_iff hst rounds hloop (hrounds.trans ?_)
  rw [hst]
  split
  · rename_i hnil
    rw [hnil]
    rfl
  · rfl

/-- In every run the hub waits nowhere exactly if there is room whenever a client has its
turn; and a message that is taken in a reachable state is handled to the end, with
whatever receives in between, exactly if there is room in each of its rounds. -/
theorem hub_never_waits_iff_room (userID : κ → UInt32) (events : List (HubEvent κ))
    (honce : (registrations events).Nodup) {h : Hub κ}
    (hrun : runHub userID newHub events = some h) :
    ((∀ before after, events = before ++ after →
        ∀ hb, runHub userID newHub before = some hb → ¬ hb.Waits) ↔
      ∀ before after, events = before ++ .deliver :: after →
        ∀ hb, runHub userID newHub before = some hb → hb.HasRoom) ∧
    ∀ e t, next userID h e = some t → (∃ message order, e = .broadcast message order) ∨
        (∃ to_ message order, e = .direct to_ message order) →
      ∀ rounds : List (HubEvent κ), (∀ e ∈ rounds, e = .deliver ∨ ∃ c, e = .receive c) →
        rounds.count .deliver = t.stage.addressed.length →
        ((∃ h', runHub userID t rounds = some h' ∧ h'.stage = .selecting) ↔
          ∀ before after, rounds = before ++ .deliver :: after →
            ∃ hb, runHub userID t before = some hb ∧ hb.HasRoom) := by
  refine ⟨never_waits_iff userID events honce hrun,
    fun e t hstep hmessage rounds hloop hrounds => ?_⟩
  exact (hubSound_run events honce hrun).handled_iff hstep hmessage rounds hloop hrounds

/-- One message to one client. -/
def oneMessage : List (HubEvent Nat) := [.register 1,.direct 7 (some [104]) [1],.deliver]

theorem hub_never_waits_iff_room_one_message :
    ∃ h, runHub (fun _ => 7) newHub oneMessage = some h ∧
      ∀ before after, oneMessage = before ++ after →
        ∀ hb, runHub (fun _ => 7) newHub before = some hb → ¬ hb.Waits := by
  have hrun : (runHub (fun _ : Nat => 7) newHub oneMessage).isSome = true := by decide
  obtain ⟨h,hh⟩ := Option.isSome_iff_exists.mp hrun
  refine ⟨h,hh,(hub_never_waits_iff_room (fun _ => 7) oneMessage (by decide) hh).1.mpr ?_⟩
  rw [oneMessage,beginnings_cons,beginnings_cons,beginnings_cons]
  refine ⟨by simp,by simp,fun _ hb hbefore => ?_,fun before after hsplit => by simp at hsplit⟩
  have hstage : (runHub (fun _ : Nat => 7) newHub [.register 1,.direct 7 (some [104]) [1]]).map
      (fun h => (h.stage,(h.send 1).buffer)) = some (.sending [104] [1],[]) := by decide
  rw [hbefore,Option.map_some,Option.some.injEq,Prod.mk.injEq] at hstage
  exact (hasRoom_iff hstage.1).mpr (by rw [hstage.2]; decide)

def neverReads : Nat → List (HubEvent Nat)
  | 0 => [.register 1]
  | n + 1 => neverReads n ++ [.broadcast [104] [1]] ++ [.deliver]

theorem neverReads_registrations (n : Nat) : registrations (neverReads n) = [1] := by
  induction n with
  | zero => rfl
  | succ n ih =>
    rw [neverReads,registrations,List.filterMap_append,List.filterMap_append,← registrations,ih]
    rfl

theorem next_broadcast_single {h : Hub Nat} (hstage : h.stage = .selecting)
    (hclients : h.clients = [1]) :
    next (fun _ => 7) h (.broadcast [104] [1]) = some { h with stage := .sending [104] [1] } := by
  simp [next,hstage,hclients,startSending]

theorem neverReads_run (n : Nat) (hn : n ≤ bufSize) :
    ∃ h, runHub (fun _ => 7) newHub (neverReads n) = some h ∧
      h.stage = .selecting ∧ h.clients = [1] ∧
      (h.send 1).closed = false ∧ (h.send 1).buffer.length = n := by
  induction n with
  | zero => exact ⟨registerClient (fun _ => 7) newHub 1,rfl,rfl,rfl,rfl,rfl⟩
  | succ n ih =>
    obtain ⟨h,hrun,hstage,hclients,hopen,hlength⟩ := ih (by omega)
    have hroom : n < bufSize := by omega
    rw [neverReads,runHub_concat,runHub_concat,hrun,Option.bind_some,
      next_broadcast_single hstage hclients]
    refine ⟨_,rfl,?_⟩
    simp [offer,hopen,hroom,hclients,hlength]

/-- A client that reads nothing stops the hub with the message after its buffer is full. -/
theorem slow_client_stops_hub : ¬ ∀ (userID : Nat → UInt32) (events : List (HubEvent Nat)),
    (registrations events).Nodup → ∀ h, runHub userID newHub events = some h → ¬ h.Waits := by
  intro hnever
  obtain ⟨h,hrun,hstage,hclients,hopen,hlength⟩ := neverReads_run bufSize le_rfl
  refine hnever (fun _ => 7) (neverReads (bufSize + 1)) ?_
    { h with stage := .waiting 1 [104] [] } ?_
    ⟨1,[104],[],rfl⟩
  · rw [neverReads_registrations]
    decide
  · rw [neverReads,runHub_concat,runHub_concat,hrun,Option.bind_some,
      next_broadcast_single hstage hclients]
    simp [next,offer,hopen,hlength]

end Imy.Websocket
