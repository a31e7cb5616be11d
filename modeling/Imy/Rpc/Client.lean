import Imy.Lib.Command
set_option autoImplicit false

/-!
`HTTPStoreRPCClient` of `pkg/storage/rpc_client.go` and the mutex in it.
-/

namespace Imy.Rpc
open Imy.Lib

/-- A `sync.RWMutex`: whether it is locked, and how many read locks there are. It does not
know by whom. -/
structure RWMutex where
  writer : Bool
  readers : Nat
  deriving DecidableEq, Repr

def RWMutex.free : RWMutex := ⟨false,0⟩

structure HTTPStoreRPCClient where
  mu : RWMutex
  address : String
  connected : Bool
  timeout : Int
  headers : List (String × String)
  retryCount : Int
  deriving DecidableEq, Repr

def newHTTPStoreRPCClient (timeout : Int) : HTTPStoreRPCClient where
  mu := .free
  address := ""
  connected := false
  timeout := timeout
  headers := []
  retryCount := 3

inductive ClientError where
  | notConnected
  | createRequest
  | send
  | readBody
  | http (status : Nat)
  | unmarshal
  | rpc (text : String)
  deriving DecidableEq, Repr

inductive Halt where
  | waits
  | failed (context : List String) (e : ClientError)
  | panicked
  deriving DecidableEq, Repr

section Locks
variable {σ α : Type}

def RWMutex.lock (mu : RWMutex) : Option RWMutex :=
  if mu.writer = false ∧ mu.readers = 0 then some { mu with writer := true } else none

def RWMutex.rLock (mu : RWMutex) : Option RWMutex :=
  if mu.writer = false then some { mu with readers := mu.readers+1 } else none

def RWMutex.unlock (mu : RWMutex) : RWMutex := { mu with writer := false }

def RWMutex.rUnlock (mu : RWMutex) : RWMutex := { mu with readers := mu.readers-1 }

def deferUnlock (get : σ → RWMutex) (put : RWMutex → σ → σ) (lock : RWMutex → Option RWMutex)
    (unlock : RWMutex → RWMutex) (body : EStateM Halt σ α) : EStateM Halt σ α := fun s =>
  match lock (get s) with
  | none => .error .waits s
  | some mu =>
    match body (put mu s) with
    | .ok a t => .ok a (put (unlock (get t)) t)
    | .error .waits t => .error .waits t
    | .error e t => .error e (put (unlock (get t)) t)

end Locks

section Client
variable {α : Type}

abbrev ClientM := EStateM Halt HTTPStoreRPCClient

def locked (body : ClientM α) : ClientM α :=
  deferUnlock (·.mu) (fun mu c => { c with mu := mu }) RWMutex.lock RWMutex.unlock body

def rLocked (body : ClientM α) : ClientM α :=
  deferUnlock (·.mu) (fun mu c => { c with mu := mu }) RWMutex.rLock RWMutex.rUnlock body

def isConnected : ClientM Bool := rLocked (do return (← get).connected)

def requireConnected : ClientM HTTPStoreRPCClient := rLocked (do
  let c ← get
  if c.connected then return c else throw (.failed [] .notConnected))

theorem rLocked_waits {c : HTTPStoreRPCClient} (h : c.mu.writer = true) (body : ClientM α) :
    rLocked body c = .error .waits c := by
  simp [rLocked,deferUnlock,RWMutex.rLock,h]

end Client

end Imy.Rpc
