import Mathlib.Data.List.Basic
import Mathlib.Logic.Function.Basic
set_option autoImplicit false

/-!
The websocket connections by user of `internal/svc`, and the calls that write to them.
What is done under `mu` is one step, since all of it is; what is done under the mutex
of a connection is not. Sets and mutexes are known by where they were made.
-/

namespace Imy.Svc

structure WsHub (κ : Type) where
  byUUID : String → Option Nat
  sets : List (List κ)
  locks : κ → Option Nat
  /-- whether a mutex is locked -/
  mutexes : List Bool

/-- A caller in `WithConnWrite`. The `fn` of `SendJSON` goes on after a failed write. -/
inductive Place where
  | lookup
  | creating
  | locking (l : Nat)
  /-- in `fn`, at the write -/
  | inside (l : Nat)
  | cleaning (l : Nat)
  | closing (l : Nat)
  /-- `fn` has returned -/
  | unlocking (l : Nat)
  deriving DecidableEq, Repr

/-- The loop of `SendJSON` over a set: what it has still to come to of what it found. -/
structure SendLoop (κ : Type) where
  uuid : String
  set : Nat
  todo : List κ
  deriving DecidableEq, Repr

inductive Call (κ : Type) where
  | idle
  /-- `SendJSON` at `len(set)` -/
  | counting (uuid : String) (set : Nat)
  /-- `SendJSON` before its loop -/
  | starting (uuid : String) (set : Nat)
  | ranging (loop : SendLoop κ)
  /-- `WithConnWrite`, which may be that of a loop -/
  | writing (loop : Option (SendLoop κ)) (conn : κ) (place : Place)
  deriving DecidableEq, Repr

structure Callers (ι κ : Type) where
  hub : WsHub κ
  calls : ι → Call κ

/-- What can happen. `written` tells whether the write went well; `range` tells the
connection that a loop comes to. -/
inductive WsEvent (ι κ : Type) where
  | register (uuid : String) (conn : κ)
  | unregister (uuid : String) (conn : κ)
  | withConnWrite (i : ι) (conn : κ)
  | sendJSON (i : ι) (uuid : String)
  | range (i : ι) (conn : κ)
  | written (i : ι) (ok : Bool)
  | run (i : ι)
  deriving DecidableEq, Repr

section WsHub
variable {ι κ : Type} [DecidableEq κ]

def newWsHub : WsHub κ := ⟨fun _ => none,[],fun _ => none,[]⟩

def getLock (h : WsHub κ) (c : κ) : Nat × WsHub κ :=
  match h.locks c with
  | some l => (l,h)
  | none =>
    (h.mutexes.length,
      { h with
        locks := Function.update h.locks c (some h.mutexes.length)
        mutexes := h.mutexes ++ [false] })

def userSet (h : WsHub κ) (uuid : String) : Nat × WsHub κ :=
  match h.byUUID uuid with
  | some set => (set,h)
  | none =>
    (h.sets.length,
      { h with
        byUUID := Function.update h.byUUID uuid (some h.sets.length)
        sets := h.sets ++ [[]] })

/-- `Register` does not use `getLock`, but makes a mutex where `getLock` does. -/
def register (h : WsHub κ) (uuid : String) (conn : κ) : WsHub κ :=
  let found := userSet h uuid
  let h := { found.2 with sets := found.2.sets.modify found.1 (·.insert conn) }
  (getLock h conn).2

def dropFromSet (h : WsHub κ) (uuid : String) (conn : κ) : WsHub κ :=
  match h.byUUID uuid with
  | some set =>
    let h := { h with sets := h.sets.modify set (·.erase conn) }
    if h.sets.getD set [] = [] then { h with byUUID := Function.update h.byUUID uuid none } else h
  | none => h

def unregister (h : WsHub κ) (uuid : String) (conn : κ) : WsHub κ :=
  let h := dropFromSet h uuid conn
  { h with locks := Function.update h.locks conn none }

def afterWrite : Option (SendLoop κ) → Call κ
  | some sending => .ranging sending
  | none => .idle

def writeStep (h : WsHub κ) (loop : Option (SendLoop κ)) (conn : κ) :
    Place → Option (WsHub κ × Call κ)
  | .lookup =>
    match h.locks conn with
    | some l => some (h,.writing loop conn (.locking l))
    | none => some (h,.writing loop conn .creating)
  | .creating =>
    let found := getLock h conn
    some (found.2,.writing loop conn (.locking found.1))
  | .locking l =>
    if h.mutexes[l]? = some false then
      some ({ h with mutexes := h.mutexes.set l true },.writing loop conn (.inside l))
    else none
  | .inside _ => none
  | .cleaning l =>
    match loop with
    | some sending => some (unregister h sending.uuid conn,.writing loop conn (.closing l))
    | none => none
  | .closing l => some (h,.writing loop conn (.unlocking l))
  | .unlocking l =>
    some ({ h with mutexes := h.mutexes.set l false },afterWrite loop)

def callStep (h : WsHub κ) : Call κ → Option (WsHub κ × Call κ)
  | .idle => none
  | .counting uuid set => some (h,if h.sets.getD set [] = [] then .idle else .starting uuid set)
  | .starting uuid set => some (h,.ranging ⟨uuid,set,h.sets.getD set []⟩)
  | .ranging loop => if ∀ c ∈ loop.todo, c ∉ h.sets.getD loop.set [] then some (h,.idle) else none
  | .writing loop conn place => writeStep h loop conn place

variable [DecidableEq ι]

/-- One step, where it is possible. A loop comes to what is in the set at that time; what
comes in meanwhile it may or may not meet. -/
def next (w : Callers ι κ) : WsEvent ι κ → Option (Callers ι κ)
  | .register uuid conn => some { w with hub := register w.hub uuid conn }
  | .unregister uuid conn => some { w with hub := unregister w.hub uuid conn }
  | .withConnWrite i conn =>
    match w.calls i with
    | .idle => some { w with calls := Function.update w.calls i (.writing none conn .lookup) }
    | _ => none
  | .sendJSON i uuid =>
    match w.calls i with
    | .idle =>
      match w.hub.byUUID uuid with
      | some set => some { w with calls := Function.update w.calls i (.counting uuid set) }
      | none => some w
    | _ => none
  | .range i conn =>
    match w.calls i with
    | .ranging loop =>
      if conn ∈ w.hub.sets.getD loop.set [] then
        let loop := { loop with todo := loop.todo.erase conn }
        some { w with calls := Function.update w.calls i (.writing (some loop) conn .lookup) }
      else none
    | _ => none
  | .written i ok =>
    match w.calls i with
    | .writing loop conn (.inside l) =>
      let place := if !ok && loop.isSome then .cleaning l else .unlocking l
      some { w with calls := Function.update w.calls i (.writing loop conn place) }
    | _ => none
  | .run i =>
    (callStep w.hub (w.calls i)).map fun (h,call) => ⟨h,Function.update w.calls i call⟩

def runCallers (w : Callers ι κ) (events : List (WsEvent ι κ)) : Option (Callers ι κ) :=
  events.foldlM next w

def noCalls : Callers ι κ := ⟨newWsHub,fun _ => .idle⟩

end WsHub

end Imy.Svc
