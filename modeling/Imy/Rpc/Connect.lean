import Imy.Rpc.Client
set_option autoImplicit false

/-!
`Connect`, `makeRequest` and `healthCheck` of `HTTPStoreRPCClient` and `GetClient` of
`StoreRPCClientPool`, in `pkg/storage/rpc_client.go`, with their mutexes.
-/

namespace Imy.Rpc.Connecting
open Imy.Lib

structure HealthCheckRequest where
  ping : String
  deriving DecidableEq, Repr

structure HealthCheckResponse where
  pong : String
  status : String
  timestamp : Int
  deriving DecidableEq, Repr

structure StoreRPCRequest where
  requestID : String
  method : String
  params : HealthCheckRequest
  timestamp : Int
  timeout : Int
  deriving DecidableEq, Repr

structure StoreRPCResponse where
  success : Bool
  data : Option HealthCheckResponse
  error : String
  deriving DecidableEq, Repr

def methodHealthCheck : String := "HealthCheck"

/-- What is outside of the client: its request IDs and clock, what comes back when a
request is sent to an address, with these headers and for the so-manyth time, and how an
error reads. -/
structure World where
  requestID : String
  clock : Int
  attempt : String → List (String × String) → StoreRPCRequest → Nat →
    Except ClientError StoreRPCResponse
  errorText : ClientError → String

section Client
variable {α : Type} (world : World)

/-- The loop of `makeRequest`, with so many rounds to go. -/
def attempts (address : String) (headers : List (String × String)) (request : StoreRPCRequest) :
    Nat → Nat → Option ClientError → Except (Option ClientError) StoreRPCResponse
  | 0, _, lastErr => .error lastErr
  | n+1, i, _ =>
    match world.attempt address headers request i with
    | .ok response => .ok response
    | .error e => attempts address headers request n (i+1) (some e)

/-- Without an attempt `makeRequest` returns neither a response nor an error. -/
def makeRequest (method : String) (params : HealthCheckRequest) : ClientM
    (Option StoreRPCResponse) := do
  let c ← requireConnected
  let request := ⟨world.requestID,method,params,world.clock,c.timeout⟩
  match attempts world c.address c.headers request (c.retryCount+1).toNat 0 none with
  | .ok response => return some response
  | .error none => return none
  | .error (some e) => throw (.failed [] e)

def parseResponse : Option StoreRPCResponse → ClientM HealthCheckResponse
  | none => throw .panicked
  | some r => if r.success then return r.data.getD ⟨"","",0⟩ else throw (.failed [] (.rpc r.error))

def healthCheck (req : HealthCheckRequest) : ClientM HealthCheckResponse := do
  let response ← makeRequest world methodHealthCheck req
  parseResponse response

def within {σ : Type} (context : String) (x : EStateM Halt σ α) : EStateM Halt σ α := fun s =>
  match x s with
  | .error (.failed texts e) t => .error (.failed (context :: texts) e) t
  | r => r

def connect (address : String) : ClientM Unit := locked do
  modify fun c => { c with address := address }
  let _ ← within ("failed to connect to store " ++ address) (healthCheck world ⟨"ping"⟩)
  modify fun c => { c with connected := true }

def disconnect : ClientM Unit :=
  locked (modify fun c => { c with connected := false, address := "" })

end Client

structure StoreRPCClientPool where
  mu : RWMutex
  clients : String → Option HTTPStoreRPCClient
  timeout : Int

def newStoreRPCClientPool (timeout : Int) : StoreRPCClientPool := ⟨.free,fun _ => none,timeout⟩

section Pool
variable {α : Type} (world : World)

abbrev PoolM := EStateM Halt StoreRPCClientPool

def StoreRPCClientPool.setClient (p : StoreRPCClientPool) (storeID : String)
    (client : Option HTTPStoreRPCClient) : StoreRPCClientPool :=
  { p with clients := fun id => if id = storeID then client else p.clients id }

def pLocked (body : PoolM α) : PoolM α :=
  deferUnlock (·.mu) (fun mu p => { p with mu := mu }) RWMutex.lock RWMutex.unlock body

def pRLocked (body : PoolM α) : PoolM α :=
  deferUnlock (·.mu) (fun mu p => { p with mu := mu }) RWMutex.rLock RWMutex.rUnlock body

def onClient (storeID : String) (client : HTTPStoreRPCClient) (x : ClientM α) : PoolM α :=
  fun p => match x client with
  | .ok a c => .ok a (p.setClient storeID (some c))
  | .error e c => .error e (p.setClient storeID (some c))

def lookup (storeID : String) : PoolM (Option HTTPStoreRPCClient) := do
  match (← get).clients storeID with
  | none => return none
  | some client =>
    if ← onClient storeID client isConnected then return some client else return none

def connectNew (storeID address : String) : PoolM HTTPStoreRPCClient := fun p =>
  match within ("failed to connect to store " ++ storeID) (connect world address)
      (newHTTPStoreRPCClient p.timeout) with
  | .ok _ client => .ok client (p.setClient storeID (some client))
  | .error e _ => .error e p

def getClient (storeID address : String) : PoolM HTTPStoreRPCClient := do
  let found ← pRLocked (return (← get).clients storeID)
  let connected ← match found with
    | none => pure false
    | some client => onClient storeID client isConnected
  match found, connected with
  | some client, true => return client
  | _, _ => pLocked do
    match ← lookup storeID with
    | some client => return client
    | none => connectNew world storeID address

def removeClient (storeID : String) : PoolM Unit := pLocked do
  match (← get).clients storeID with
  | none => return ()
  | some client =>
    onClient storeID client disconnect
    modify fun p => p.setClient storeID none

/-- The loop of `Close`, over the keys in the order in which the map is gone through. -/
def disconnectAll : List String → PoolM Unit
  | [] => return ()
  | storeID :: rest => do
    match (← get).clients storeID with
    | none => disconnectAll rest
    | some client =>
      onClient storeID client disconnect
      disconnectAll rest

def closePool (order : List String) : PoolM Unit := pLocked do
  disconnectAll order
  modify fun p => { p with clients := fun _ => none }

end Pool

section Client
variable {α : Type} {world : World} {c : HTTPStoreRPCClient} {address : String}

theorem makeRequest_waits (h : c.mu.writer = true) (method : String) (params : HealthCheckRequest) :
    makeRequest world method params c = .error .waits c := by
  simp only [makeRequest,requireConnected,bind,EStateM.bind,rLocked_waits h]

theorem healthCheck_waits (h : c.mu.writer = true) (req : HealthCheckRequest) :
    healthCheck world req c = .error .waits c := by
  simp only [healthCheck,bind,EStateM.bind,makeRequest_waits h]

/-- Where the mutex is free `Connect` locks it and waits for it. -/
theorem connect_waits_of_free (h : c.mu.writer = false ∧ c.mu.readers = 0) :
    connect world address c =
      .error .waits { c with address := address, mu := { c.mu with writer := true } } := by
  have hheld : ({ c with address := address, mu := { c.mu with writer := true } } :
      HTTPStoreRPCClient).mu.writer = true := rfl
  simp only [connect,locked,deferUnlock,RWMutex.lock,if_pos h,bind,EStateM.bind,modify_apply,within,
    healthCheck_waits hheld]

/-- Whatever the client and the server do, `Connect` waits. -/
theorem connect_waits (world : World) (address : String) (c : HTTPStoreRPCClient) :
    ∃ t, connect world address c = .error .waits t := by
  by_cases hfree : c.mu.writer = false ∧ c.mu.readers = 0
  · exact ⟨_,connect_waits_of_free hfree⟩
  · exact ⟨c,by simp [connect,locked,deferUnlock,RWMutex.lock,hfree]⟩

/-- The server at this address answers each health check with success. -/
def Healthy (world : World) (address : String) : Prop :=
  ∀ headers request i, request.method = methodHealthCheck →
    ∃ data, world.attempt address headers request i = .ok ⟨true,data,""⟩

end Client

section Pool
variable {world : World} {p : StoreRPCClientPool} {storeID address : String}

theorem connectNew_waits (world : World) (storeID address : String) (p : StoreRPCClientPool) :
    connectNew world storeID address p = .error .waits p := by
  obtain ⟨t,ht⟩ := connect_waits world address (newHTTPStoreRPCClient p.timeout)
  simp only [connectNew,within,ht]

/-- A pool without a client for the store waits, and keeps its mutex locked. -/
theorem getClient_waits (hmu : p.mu = .free) (hnone : p.clients storeID = none) :
    getClient world storeID address p = .error .waits { p with mu := ⟨true,0⟩ } := by
  obtain ⟨mu,clients,timeout⟩ := p
  obtain rfl : mu = .free := hmu
  simp only at hnone
  simp [getClient,pRLocked,pLocked,deferUnlock,RWMutex.rLock,RWMutex.lock,
    RWMutex.rUnlock,RWMutex.free,
    lookup,bind,EStateM.bind,get_apply,hnone,pure,EStateM.pure,connectNew_waits]

def ReturnsOrWaits {σ α : Type} (x : EStateM Halt σ α) : Prop :=
  ∀ s, wp x (fun _ _ => True) (fun e _ => e = .waits) s

namespace ReturnsOrWaits
variable {σ α β : Type} {x : EStateM Halt σ α}

theorem pure (a : α) : ReturnsOrWaits (pure a : EStateM Halt σ α) := fun _ => trivial

theorem get : ReturnsOrWaits (get : EStateM Halt σ σ) := fun _ => trivial

theorem bind {f : α → EStateM Halt σ β} (hx : ReturnsOrWaits x) (hf : ∀ a, ReturnsOrWaits (f a)) :
    ReturnsOrWaits (x >>= f) := by
  intro s
  rw [wp_bind]
  exact wp_mono (hx s) (fun a t _ => hf a t) (fun _ _ he => he)

theorem deferUnlock (hx : ReturnsOrWaits x) (get : σ → RWMutex) (put : RWMutex → σ → σ)
    (lock : RWMutex → Option RWMutex) (unlock : RWMutex → RWMutex) :
    ReturnsOrWaits (deferUnlock get put lock unlock x) := by
  intro s
  unfold wp Rpc.deferUnlock
  cases lock (get s) with
  | none => rfl
  | some mu =>
    have h := hx (put mu s)
    unfold wp at h
    simp only
    cases hrun : x (put mu s) with
    | ok a t => trivial
    | error e t =>
      rw [hrun] at h
      obtain rfl : e = .waits := h
      rfl

theorem onClient {storeID : String} (client : HTTPStoreRPCClient) {x : ClientM α}
    (hx : ReturnsOrWaits x) : ReturnsOrWaits (onClient storeID client x) := by
  intro p
  have h := hx client
  unfold wp Connecting.onClient at *
  cases hrun : x client with
  | ok a c => trivial
  | error e c =>
    rw [hrun] at h
    exact h

end ReturnsOrWaits

/-- Whatever is in the pool, `GetClient` returns a client or waits. -/
theorem getClient_returnsOrWaits (world : World) (storeID address : String) :
    ReturnsOrWaits (getClient world storeID address) := by
  have hconnected : ReturnsOrWaits isConnected :=
    (ReturnsOrWaits.get.bind fun _ => ReturnsOrWaits.pure _).deferUnlock _ _ _ _
  have hfound : ReturnsOrWaits (pRLocked (return (← get).clients storeID)) :=
    (ReturnsOrWaits.get.bind fun _ => ReturnsOrWaits.pure _).deferUnlock _ _ _ _
  have hlookup : ReturnsOrWaits (lookup storeID) := by
    refine ReturnsOrWaits.get.bind fun p => ?_
    cases p.clients storeID with
    | none => exact ReturnsOrWaits.pure _
    | some client =>
      refine (hconnected.onClient client).bind fun connected => ?_
      cases connected <;> exact ReturnsOrWaits.pure _
  have hnew : ReturnsOrWaits (pLocked (do
      match ← lookup storeID with
      | some client => return client
      | none => connectNew world storeID address)) := by
    refine (hlookup.bind fun found => ?_).deferUnlock _ _ _ _
    cases found with
    | some client => exact ReturnsOrWaits.pure client
    | none => exact fun p => wp_of_eq_error (connectNew_waits world storeID address p) rfl
  refine hfound.bind fun found => ?_
  cases found with
  | none => exact (ReturnsOrWaits.pure false).bind fun _ => hnew
  | some client =>
    refine (hconnected.onClient client).bind fun connected => ?_
    cases connected with
    | true => exact ReturnsOrWaits.pure client
    | false => exact hnew

inductive PoolCall where
  | getClient (storeID address : String)
  | removeClient (storeID : String)
  | close (order : List String)

def leaves {α : Type} (x : PoolM α) (p : StoreRPCClientPool) : StoreRPCClientPool :=
  match x p with
  | .ok _ t => t
  | .error _ t => t

def afterCall (world : World) (p : StoreRPCClientPool) : PoolCall → StoreRPCClientPool
  | .getClient storeID address => leaves (getClient world storeID address) p
  | .removeClient storeID => leaves (removeClient storeID) p
  | .close order => leaves (closePool order) p

def afterCalls (world : World) (p : StoreRPCClientPool) (calls : List PoolCall) :
    StoreRPCClientPool :=
  calls.foldl (afterCall world) p

def Empty (p : StoreRPCClientPool) : Prop := ∀ storeID, p.clients storeID = none

theorem pLocked_empty {α : Type} {body : PoolM α} (hp : Empty p)
    (hbody : ∀ q, Empty q → wp body (fun _ => Empty) (fun _ => Empty) q) :
    wp (pLocked body) (fun _ => Empty) (fun _ => Empty) p := by
  unfold wp pLocked deferUnlock
  cases hlock : p.mu.lock with
  | none => exact hp
  | some mu =>
    have hleft := hbody { p with mu := mu } hp
    simp only [wp] at hleft ⊢
    cases hrun : body { p with mu := mu } with
    | ok a t =>
      rw [hrun] at hleft
      exact hleft
    | error e t =>
      rw [hrun] at hleft
      cases e <;> exact hleft

theorem getClient_empty (world : World) (storeID address : String) (h : Empty p) :
    ∃ t, getClient world storeID address p = .error .waits t ∧ Empty t := by
  by_cases hmu : p.mu = .free
  · exact ⟨_,getClient_waits hmu (h storeID),h⟩
  · obtain ⟨⟨writer,readers⟩,clients,timeout⟩ := p
    have hnone : clients storeID = none := h storeID
    cases writer with
    | true =>
      exact ⟨_,by simp [getClient,pRLocked,deferUnlock,RWMutex.rLock,bind,EStateM.bind],h⟩
    | false =>
      have hreaders : readers ≠ 0 := fun hzero => hmu (by rw [hzero]; rfl)
      exact ⟨_,by simp [getClient,pRLocked,pLocked,deferUnlock,RWMutex.rLock,RWMutex.lock,
        RWMutex.rUnlock,bind,EStateM.bind,get_apply,hnone,pure,EStateM.pure,hreaders],h⟩

theorem removeClient_empty (storeID : String) (h : Empty p) :
    wp (removeClient storeID) (fun _ => Empty) (fun _ => Empty) p := by
  apply pLocked_empty h
  intro q hq
  simp only [wp_bind,wp_get,hq storeID,wp_pure]
  exact hq

theorem disconnectAll_empty (order : List String) (h : Empty p) :
    disconnectAll order p = .ok () p := by
  induction order with
  | nil => rfl
  | cons storeID rest ih => simp [disconnectAll,bind,EStateM.bind,get_apply,h storeID,ih]

theorem closePool_empty (order : List String) (h : Empty p) :
    wp (closePool order) (fun _ => Empty) (fun _ => Empty) p := by
  apply pLocked_empty h
  intro q hq
  rw [wp_bind]
  apply wp_of_eq_ok (disconnectAll_empty order hq)
  simp only [wp_modify]
  intro storeID
  rfl

theorem leaves_empty {α : Type} {x : PoolM α}
    (h : wp x (fun _ => Empty) (fun _ => Empty) p) : Empty (leaves x p) := by
  unfold wp at h
  unfold leaves
  cases hrun : x p with
  | ok a t =>
    rw [hrun] at h
    exact h
  | error e t =>
    rw [hrun] at h
    exact h

theorem afterCall_empty (world : World) (h : Empty p) (call : PoolCall) :
    Empty (afterCall world p call) := by
  cases call with
  | getClient storeID address =>
    obtain ⟨t,ht,hempty⟩ := getClient_empty world storeID address h
    exact leaves_empty (wp_of_eq_error ht hempty)
  | removeClient storeID => exact leaves_empty (removeClient_empty storeID h)
  | close order => exact leaves_empty (closePool_empty order h)

theorem afterCalls_empty (world : World) (h : Empty p) (calls : List PoolCall) :
    Empty (afterCalls world p calls) := by
  induction calls generalizing p with
  | nil => exact h
  | cons call calls ih => exact ih (afterCall_empty world h call)

/-- `Connect` returns without an error, and the client says that it is connected. -/
def Connects (world : World) (c : HTTPStoreRPCClient) (address : String) : Prop :=
  ∃ t, connect world address c = .ok () t ∧ ∃ u, isConnected t = .ok true u

/-- `GetClient` returns a connected client and leaves the mutex of the pool free. -/
def GetsClient (world : World) (p : StoreRPCClientPool) (storeID address : String) : Prop :=
  ∃ client t, getClient world storeID address p = .ok client t ∧ t.mu = .free ∧
    ∃ u, isConnected client = .ok true u

/-- `Connect` comes back from no client and no server, and so no pool that started without
clients ever gets one. -/
theorem connects_never (world : World) :
    (∀ c address, ¬ Connects world c address) ∧
    ∀ timeout calls storeID address,
      ¬ GetsClient world (afterCalls world (newStoreRPCClientPool timeout) calls)
        storeID address := by
  constructor
  · rintro c address ⟨t,ht,-⟩
    obtain ⟨u,hu⟩ := connect_waits world address c
    rw [hu] at ht
    cases ht
  · rintro timeout calls storeID address ⟨client,t,ht,-⟩
    have hnew : Empty (newStoreRPCClientPool timeout) := fun _ => rfl
    obtain ⟨u,hu,-⟩ := getClient_empty world storeID address (afterCalls_empty world hnew calls)
    rw [hu] at ht
    cases ht

/-- A server that answers every request with success. -/
def alwaysOk : World := ⟨"1",0,fun _ _ _ _ => .ok ⟨true,some ⟨"pong","ok",0⟩,""⟩,fun _ => ""⟩

/-- A new client and a healthy server: the client has locked its mutex and waits for it. -/
theorem healthy_not_connected :
    Healthy alwaysOk "a" ∧
    connect alwaysOk "a" (newHTTPStoreRPCClient 30) =
      .error .waits ⟨⟨true,0⟩,"a",false,30,[],3⟩ ∧
    ¬ Connects alwaysOk (newHTTPStoreRPCClient 30) "a" := by
  have hconnect : connect alwaysOk "a" (newHTTPStoreRPCClient 30) =
      .error .waits ⟨⟨true,0⟩,"a",false,30,[],3⟩ := rfl
  refine ⟨fun headers request i hmethod => ⟨_,rfl⟩,hconnect,?_⟩
  rintro ⟨t,ht,-⟩
  rw [hconnect] at ht
  cases ht

end Pool

end Imy.Rpc.Connecting
