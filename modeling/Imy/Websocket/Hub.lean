import Mathlib.Data.List.Perm.Basic
import Mathlib.Logic.Function.Basic
import Imy.Lib.Transition
set_option autoImplicit false

/-!
The hub of `pkg/websocket`: the goroutine of `Run` with the maps that it keeps, and the
send channels of the clients. A client is known by its pointer.
-/

namespace Imy.Websocket
open Imy.Lib

abbrev Payload := List UInt8

structure Channel where
  buffer : List Payload
  closed : Bool
  deriving DecidableEq, Repr

def bufSize : Nat := 256

inductive ChannelOp where
  | sent (message : Payload)
  | closed
  deriving DecidableEq, Repr

inductive HubStage (κ : Type) where
  /-- at the `select` -/
  | selecting
  /-- in the loop over the clients that were copied from a map -/
  | sending (message : Payload) (rest : List κ)
  /-- at `h.unregister <- client` in that loop -/
  | waiting (client : κ) (message : Payload) (rest : List κ)
  | panicked
  deriving DecidableEq, Repr

/-- The maps as lists of their keys, and what was done to the channels so far. -/
structure Hub (κ : Type) where
  clients : List κ
  userClients : UInt32 → Option (List κ)
  send : κ → Channel
  stage : HubStage κ
  log : List (κ × ChannelOp)

/-- What can happen: a case of the `select`, one round of a loop, or a receive in
`writePump`, which takes nothing from an empty channel. The order of a map is a new one
each time it is gone through; `json.Marshal` may fail on a direct message. -/
inductive HubEvent (κ : Type) where
  | register (client : κ)
  | unregister (client : κ)
  | broadcast (message : Payload) (order : List κ)
  | direct (to_ : UInt32) (message : Option Payload) (order : List κ)
  | deliver
  | receive (client : κ)
  deriving DecidableEq, Repr

section Hub
variable {κ : Type} [DecidableEq κ] (userID : κ → UInt32)

def newHub : Hub κ := ⟨[],fun _ => none,fun _ => ⟨[],false⟩,.selecting,[]⟩

def registerClient (h : Hub κ) (client : κ) : Hub κ :=
  let h := { h with clients := h.clients.insert client }
  if userID client ≠ 0 then
    let userClients := (h.userClients (userID client)).getD []
    { h with
      userClients := Function.update h.userClients (userID client)
        (some (userClients.insert client)) }
  else h

def closeSend (h : Hub κ) (client : κ) : Hub κ :=
  if (h.send client).closed then { h with stage := .panicked }
  else
    { h with
      send := Function.update h.send client ⟨(h.send client).buffer,true⟩
      log := h.log ++ [(client,.closed)] }

def dropUserClient (h : Hub κ) (client : κ) : Hub κ :=
  if userID client ≠ 0 then
    match h.userClients (userID client) with
    | some userClients =>
      let rest := if userClients.erase client = [] then none else some (userClients.erase client)
      { h with userClients := Function.update h.userClients (userID client) rest }
    | none => h
  else h

def unregisterClient (h : Hub κ) (client : κ) : Hub κ :=
  if client ∈ h.clients then
    dropUserClient userID (closeSend { h with clients := h.clients.erase client } client) client
  else h

/-- `select` with a send on the channel of the client: it panics on a closed channel and
does not wait for a full one. -/
def offer (h : Hub κ) (client : κ) (message : Payload) (rest : List κ) : Hub κ :=
  if (h.send client).closed then { h with stage := .panicked }
  else if (h.send client).buffer.length < bufSize then
    { h with
      send := Function.update h.send client ⟨(h.send client).buffer ++ [message],false⟩
      stage := if rest = [] then .selecting else .sending message rest
      log := h.log ++ [(client,.sent message)] }
  else { h with stage := .waiting client message rest }

def startSending (h : Hub κ) (message : Payload) (order : List κ) : Hub κ :=
  { h with stage := if order = [] then .selecting else .sending message order }

/-- One step, where it is possible. Nothing but the `select` receives from the channel
`unregister`, so a hub that waits to send on it has no step. -/
def next (h : Hub κ) : HubEvent κ → Option (Hub κ)
  | .register client => if h.stage = .selecting then some (registerClient userID h client) else none
  | .unregister client => if h.stage = .selecting then
    some (unregisterClient userID h client) else none
  | .broadcast message order =>
    if h.stage = .selecting ∧ order.Perm h.clients then
        some (startSending h message order) else none
  | .direct to_ message order =>
    if h.stage = .selecting then
      match h.userClients to_ with
      | none => some h
      | some userClients =>
        if order.Perm userClients then
          match message with
          | none => some h
          | some bytes => some (startSending h bytes order)
        else none
    else none
  | .deliver =>
    match h.stage with
    | .sending message (client :: rest) => some (offer h client message rest)
    | _ => none
  | .receive client =>
    match (h.send client).buffer with
    | [] => some h
    | _ :: buffer =>
      some { h with send := Function.update h.send client ⟨buffer,(h.send client).closed⟩ }

def runHub (h : Hub κ) (events : List (HubEvent κ)) : Option (Hub κ) :=
  events.foldlM (next userID) h

def Hub.isUserOnline (h : Hub κ) (u : UInt32) : Bool := (h.userClients u).isSome

theorem runHub_concat (h : Hub κ) (events : List (HubEvent κ)) (e : HubEvent κ) :
    runHub userID h (events ++ [e]) = (runHub userID h events).bind fun h => next userID h e :=
  runs_concat (next userID) h events e

theorem runHub_cons (h : Hub κ) (e : HubEvent κ) (events : List (HubEvent κ)) :
    runHub userID h (e :: events) = (next userID h e).bind fun h => runHub userID h events :=
  List.foldlM_cons

inductive HubStep (h : Hub κ) : HubEvent κ → Hub κ → Prop where
  | register {client : κ} (stage : h.stage = .selecting) :
      HubStep h (.register client) (registerClient userID h client)
  | unregister {client : κ} (stage : h.stage = .selecting) :
      HubStep h (.unregister client) (unregisterClient userID h client)
  | broadcast {message : Payload} {order : List κ} (stage : h.stage = .selecting)
      (perm : order.Perm h.clients) :
        HubStep h (.broadcast message order) (startSending h message order)
  | direct {to_ : UInt32} {bytes : Payload} {order clients : List κ} (stage : h.stage = .selecting)
      (entry : h.userClients to_ = some clients) (perm : order.Perm clients) :
      HubStep h (.direct to_ (some bytes) order) (startSending h bytes order)
  | dropped {to_ : UInt32} {message : Option Payload} {order : List κ}
    (stage : h.stage = .selecting) :
      HubStep h (.direct to_ message order) h
  | deliver {client : κ} {message : Payload} {rest : List κ}
      (stage : h.stage = .sending message (client :: rest)) :
        HubStep h .deliver (offer h client message rest)
  | receive {client : κ} {first : Payload} {buffer : List Payload}
      (channel : (h.send client).buffer = first :: buffer) :
      HubStep h (.receive client)
        { h with send := Function.update h.send client ⟨buffer,(h.send client).closed⟩ }
  | receiveNone {client : κ} : HubStep h (.receive client) h

theorem hubStep_of_next {h h' : Hub κ} {e : HubEvent κ} (hstep : next userID h e = some h') :
    HubStep userID h e h' := by
  cases e with
  | register client =>
    simp only [next,Option.ite_none_right_eq_some,Option.some.injEq] at hstep
    obtain ⟨hstage,rfl⟩ := hstep
    exact .register hstage
  | unregister client =>
    simp only [next,Option.ite_none_right_eq_some,Option.some.injEq] at hstep
    obtain ⟨hstage,rfl⟩ := hstep
    exact .unregister hstage
  | broadcast message order =>
    simp only [next,Option.ite_none_right_eq_some,Option.some.injEq] at hstep
    obtain ⟨⟨hstage,horder⟩,rfl⟩ := hstep
    exact .broadcast hstage horder
  | direct to_ message order =>
    simp only [next,Option.ite_none_right_eq_some] at hstep
    obtain ⟨hstage,hstep⟩ := hstep
    cases hentry : h.userClients to_ with
    | none =>
      simp only [hentry,Option.some.injEq] at hstep
      subst hstep
      exact .dropped hstage
    | some clients =>
      simp only [hentry,Option.ite_none_right_eq_some] at hstep
      obtain ⟨horder,hstep⟩ := hstep
      cases message with
      | none =>
        cases hstep
        exact .dropped hstage
      | some bytes =>
        cases hstep
        exact .direct hstage hentry horder
  | deliver =>
    simp only [next] at hstep
    split at hstep
    · rename_i hstage
      cases hstep
      exact .deliver hstage
    · cases hstep
  | receive client =>
    simp only [next] at hstep
    split at hstep
    · cases hstep
      exact .receiveNone
    · rename_i hbuffer
      cases hstep
      exact .receive hbuffer

end Hub

end Imy.Websocket
