import Imy.Websocket.Hub
set_option autoImplicit false

/-!
`readPump` and `writePump` of `pkg/websocket/client.go`, and the functions of the hub that
other goroutines call to send a message. The hub is the one of `Hub`; what leaves a channel
leaves it here in the steps of `writePump`.
-/

namespace Imy.Websocket
open Imy.Lib

def newline : UInt8 := 10
def space : UInt8 := 32

def maxMessageSize : Nat := 512

section TrimSpace

/-- The characters of `unicode.IsSpace` in UTF-8. -/
def spaces : List Payload :=
  [[9],[10],[11],[12],[13],[32],[0xC2,0x85],[0xC2,0xA0],[0xE1,0x9A,0x80],
    [0xE2,0x80,0x80],[0xE2,0x80,0x81],[0xE2,0x80,0x82],[0xE2,0x80,0x83],[0xE2,0x80,0x84],
    [0xE2,0x80,0x85],[0xE2,0x80,0x86],[0xE2,0x80,0x87],[0xE2,0x80,0x88],[0xE2,0x80,0x89],
    [0xE2,0x80,0x8A],[0xE2,0x80,0xA8],[0xE2,0x80,0xA9],[0xE2,0x80,0xAF],[0xE2,0x81,0x9F],
    [0xE3,0x80,0x80]]

def dropAny (tokens : List Payload) : Nat → Payload → Payload
  | 0, s => s
  | n+1, s =>
    match tokens.find? fun token => token.isPrefixOf s with
    | none => s
    | some token => dropAny tokens n (s.drop token.length)

def trimLeft (tokens : List Payload) (s : Payload) : Payload := dropAny tokens s.length s

/-- A byte that continues a character begins none, so that from the end the spaces are found
as they are from the start. -/
def trimSpace (s : Payload) : Payload :=
  (trimLeft (spaces.map List.reverse) (trimLeft spaces s).reverse).reverse

theorem dropAny_suffix (tokens : List Payload) (n : Nat) (s : Payload) :
    dropAny tokens n s <:+ s := by
  induction n generalizing s with
  | zero => exact List.suffix_rfl
  | succ n ih =>
    rw [dropAny]
    split
    · exact List.suffix_rfl
    · exact (ih _).trans (List.drop_suffix _ s)

theorem trimLeft_suffix (tokens : List Payload) (s : Payload) : trimLeft tokens s <:+ s :=
  dropAny_suffix tokens s.length s

theorem trimSpace_within (s : Payload) : trimSpace s <:+: s := by
  have hstart : trimSpace s <+: trimLeft spaces s := by
    rw [← List.reverse_suffix,trimSpace,List.reverse_reverse]
    exact trimLeft_suffix _ _
  exact hstart.isInfix.trans (trimLeft_suffix spaces s).isInfix

-- "\n\u3000hi \u00a0\t" without the spaces around it
example : trimSpace [10,0xE3,0x80,0x80,104,105,32,0xC2,0xA0,9] = [104,105] := by decide

end TrimSpace

def cleaned (message : Payload) : Payload :=
  trimSpace (message.map fun b => if b = newline then space else b)

theorem newline_notMem_cleaned (message : Payload) : newline ∉ cleaned message := by
  intro hmem
  have hmem' := (trimSpace_within _).subset hmem
  obtain ⟨b,-,hb⟩ := List.mem_map.mp hmem'
  split at hb
  · exact absurd hb (by decide)
  · contradiction

structure Message (δ : Type) where
  type : String
  to_ : UInt32
  from_ : UInt32
  data : δ
  timestamp : Int
  deriving DecidableEq, Repr

structure Writer where
  content : Payload
  failed : Bool
  deriving DecidableEq, Repr

def Writer.write (w : Writer) (bytes : Payload) (ok : Bool) : Writer :=
  if w.failed = false ∧ ok = true then ⟨w.content ++ bytes,false⟩ else { w with failed := true }

inductive PumpStage where
  /-- at the `select` -/
  | selecting
  /-- before `n := len(c.send)` -/
  | counting (w : Writer)
  /-- in the loop, with so many rounds to go -/
  | adding (w : Writer) (n : Nat)
  /-- returned because of an error -/
  | stopped
  /-- returned because the channel was closed -/
  | finished
  deriving DecidableEq, Repr

/-- `frames` are the text messages whose writer was closed without an error. -/
structure Pump where
  stage : PumpStage
  frames : List Payload
  deriving DecidableEq, Repr

/-- A step of `writePump`, with what the calls of the connection return in it. -/
inductive PumpEvent where
  | take (opened wrote : Bool)
  | count
  | add (wroteNewline wrote : Bool)
  | close (ok : Bool)
  | ping (ok : Bool)
  deriving DecidableEq, Repr

def newPump : Pump := ⟨.selecting,[]⟩

/-- A receive waits on a channel that is empty and open. -/
def Channel.receive (ch : Channel) : Option (Payload × Bool × Channel) :=
  match ch.buffer with
  | message :: buffer => some (message,true,{ ch with buffer := buffer })
  | [] => if ch.closed then some ([],false,ch) else none

def pumpNext (p : Pump) (ch : Channel) : PumpEvent → Option (Pump × Channel)
  | .take opened wrote =>
    match p.stage, ch.receive with
    | .selecting, some (_,false,ch) => some ({ p with stage := .finished },ch)
    | .selecting, some (message,true,ch) =>
      if opened then some ({ p with stage := .counting (Writer.write ⟨[],false⟩ message wrote) },ch)
      else some ({ p with stage := .stopped },ch)
    | _, _ => none
  | .count =>
    match p.stage with
    | .counting w => some ({ p with stage := .adding w ch.buffer.length },ch)
    | _ => none
  | .add wroteNewline wrote =>
    match p.stage, ch.receive with
    | .adding w (n+1), some (message,_,ch) =>
      some ({ p with stage := .adding ((w.write [newline] wroteNewline).write message wrote) n },ch)
    | _, _ => none
  | .close ok =>
    match p.stage with
    | .adding w 0 =>
      if w.failed = false ∧ ok = true then some (⟨.selecting,p.frames ++ [w.content]⟩,ch)
      else some ({ p with stage := .stopped },ch)
    | _ => none
  | .ping ok =>
    match p.stage with
    | .selecting => some (if ok then p else { p with stage := .stopped },ch)
    | _ => none

section Channel
variable {p p' : Pump} {ch ch' : Channel}

/-- A receive takes the first message, or finds the channel closed and leaves it. -/
theorem Channel.receive_cases {message : Payload} {ok : Bool}
    (h : ch.receive = some (message,ok,ch')) :
    (ok = true ∧ ch = ⟨message :: ch'.buffer,ch'.closed⟩) ∨
    (ok = false ∧ ch.buffer = [] ∧ ch.closed = true ∧ ch' = ch) := by
  obtain ⟨buffer,closed⟩ := ch
  cases buffer with
  | cons first buffer =>
    simp only [Channel.receive,Option.some.injEq,Prod.mk.injEq] at h
    obtain ⟨rfl,rfl,rfl⟩ := h
    exact .inl ⟨rfl,rfl⟩
  | nil =>
    simp only [Channel.receive,Option.ite_none_right_eq_some,Option.some.injEq,Prod.mk.injEq] at h
    obtain ⟨hclosed,-,rfl,rfl⟩ := h
    exact .inr ⟨rfl,rfl,hclosed,rfl⟩

/-- A step of `writePump` takes one message from the channel or leaves it as it is. -/
theorem pumpNext_channel {e : PumpEvent} (hstep : pumpNext p ch e = some (p',ch')) :
    ch' = ch ∨ ∃ message, ch = ⟨message :: ch'.buffer,ch'.closed⟩ := by
  have hreceived : ∀ message ok rest, ch.receive = some (message,ok,rest) →
      rest = ch ∨ ∃ message, ch = ⟨message :: rest.buffer,rest.closed⟩ := by
    intro message ok rest hreceive
    rcases Channel.receive_cases hreceive with ⟨-,hch⟩ | ⟨-,-,-,hsame⟩
    · exact .inr ⟨message,hch⟩
    · exact .inl hsame
  cases e with
  | take opened wrote =>
    simp only [pumpNext] at hstep
    split at hstep
    · rename_i hreceive
      cases hstep
      exact hreceived _ _ _ hreceive
    · rename_i hreceive
      split at hstep <;> cases hstep <;> exact hreceived _ _ _ hreceive
    · cases hstep
  | count =>
    simp only [pumpNext] at hstep
    split at hstep
    · cases hstep
      exact .inl rfl
    · cases hstep
  | add wroteNewline wrote =>
    simp only [pumpNext] at hstep
    split at hstep
    · rename_i hreceive
      cases hstep
      exact hreceived _ _ _ hreceive
    · cases hstep
  | close ok =>
    simp only [pumpNext] at hstep
    split at hstep
    · split at hstep <;> cases hstep <;> exact .inl rfl
    · cases hstep
  | ping ok =>
    simp only [pumpNext] at hstep
    split at hstep
    · cases hstep
      exact .inl rfl
    · cases hstep

end Channel

/-- The hub and the goroutine of `writePump` of each client. -/
structure Server (κ : Type) where
  hub : Hub κ
  pumps : κ → Pump

/-- What can happen. The channels of the hub are not buffered: what is sent on them is
received at the `select` of `Run` in the same step, and a call of `Broadcast` or `SendToUser`
that is not received at once is dropped and is no event. -/
inductive ServerEvent (κ δ : Type) where
  | register (client : κ)
  | unregister (client : κ)
  | read (message : Payload) (order : List κ)
  | broadcast (data : δ) (timestamp : Int) (order : List κ)
  | sendToUser (userID : UInt32) (data : δ) (timestamp : Int) (order : List κ)
  | sendToUserFrom (fromUserID toUserID : UInt32) (data : δ) (timestamp : Int) (order : List κ)
  | deliver
  | pump (client : κ) (e : PumpEvent)
  deriving DecidableEq, Repr

section Server
variable {κ δ : Type} [DecidableEq κ] (userID : κ → UInt32) (marshal : Message δ → Option Payload)

def newServer : Server κ := ⟨newHub,fun _ => newPump⟩

/-- What the hub receives; `none` where the caller returns before it sends. -/
def toHub : ServerEvent κ δ → Option (HubEvent κ)
  | .register client => some (.register client)
  | .unregister client => some (.unregister client)
  | .read message order => some (.broadcast (cleaned message) order)
  | .broadcast data timestamp order =>
    match marshal ⟨"broadcast",0,0,data,timestamp⟩ with
    | none => none
    | some bytes => some (.broadcast bytes order)
  | .sendToUser to_ data timestamp order =>
    some (.direct to_ (marshal ⟨"direct",to_,0,data,timestamp⟩) order)
  | .sendToUserFrom from_ to_ data timestamp order =>
    some (.direct to_ (marshal ⟨"direct",to_,from_,data,timestamp⟩) order)
  | .deliver => some .deliver
  | .pump _ _ => none

def hubStep (s : Server κ) (e : ServerEvent κ δ) : Option (Server κ) :=
  match toHub marshal e with
  | none => some s
  | some e => (next userID s.hub e).map fun h => { s with hub := h }

/-- A message that is longer than the read limit is an error of `ReadMessage`. -/
def serverNext (s : Server κ) (e : ServerEvent κ δ) : Option (Server κ) :=
  match e with
  | .pump client e =>
    (pumpNext (s.pumps client) (s.hub.send client) e).map fun (p,ch) =>
      ⟨{ s.hub with send := Function.update s.hub.send client ch },Function.update s.pumps client p⟩
  | .read message order =>
    if message.length ≤ maxMessageSize then hubStep userID marshal s (.read message order) else none
  | e => hubStep userID marshal s e

def runServer (s : Server κ) (events : List (ServerEvent κ δ)) : Option (Server κ) :=
  events.foldlM (serverNext userID marshal) s

variable {userID : κ → UInt32} {marshal : Message δ → Option Payload} {s s' : Server κ}

theorem hubStep_hub {e : ServerEvent κ δ} (hstep : hubStep userID marshal s e = some s') :
    s'.hub = s.hub ∨ ∃ e, next userID s.hub e = some s'.hub := by
  unfold hubStep at hstep
  split at hstep
  · cases hstep
    exact .inl rfl
  · rename_i he _
    simp only [Option.map_eq_some_iff] at hstep
    obtain ⟨h,hnext,rfl⟩ := hstep
    exact .inr ⟨he,hnext⟩

theorem serverNext_hub {e : ServerEvent κ δ} (hstep : serverNext userID marshal s e = some s') :
    s'.hub = s.hub ∨ ∃ e, next userID s.hub e = some s'.hub := by
  cases e with
  | pump c e =>
    simp only [serverNext,Option.map_eq_some_iff] at hstep
    obtain ⟨⟨p,ch⟩,hpump,rfl⟩ := hstep
    rcases pumpNext_channel hpump with rfl | ⟨message,hch⟩
    · left
      simp only [Function.update_eq_self]
    · right
      refine ⟨.receive c,?_⟩
      simp only [next,hch]
  | read message order =>
    simp only [serverNext,Option.ite_none_right_eq_some] at hstep
    exact hubStep_hub hstep.2
  | _ =>
    simp only [serverNext] at hstep
    exact hubStep_hub hstep

theorem runServer_hub (events : List (ServerEvent κ δ))
    (hrun : runServer userID marshal s events = some s') :
    ∃ hubEvents, runHub userID s.hub hubEvents = some s'.hub := by
  induction events generalizing s with
  | nil =>
    cases hrun
    exact ⟨[],rfl⟩
  | cons e events ih =>
    simp only [runServer,List.foldlM_cons,Option.bind_eq_bind,Option.bind_eq_some_iff] at hrun
    obtain ⟨t,hstep,hrest⟩ := hrun
    obtain ⟨hubEvents,hhub⟩ := ih hrest
    rcases serverNext_hub hstep with hsame | ⟨he,hnext⟩
    · exact ⟨hubEvents,by rwa [← hsame]⟩
    · refine ⟨he :: hubEvents,?_⟩
      rw [runHub_cons,hnext,Option.bind_some,hhub]

end Server

end Imy.Websocket
