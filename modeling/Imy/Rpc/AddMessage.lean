import Imy.Lib.Transition
import Imy.Rpc.Client
import Imy.Storage.Growth
set_option autoImplicit false

/-!
`AddMessage` from `HTTPStoreRPCClient` to `HTTPStoreRPCServer`: the loop of `makeRequest`
in `pkg/storage/rpc_client.go`, `handleRPC` and `handleAddMessage` in `rpc_server.go`, and
what a network can do in between.
-/

namespace Imy.Rpc
open Imy.Lib Imy.Storage

structure AddMessageRequest where
  timelineKey : String
  message : Option Message
  deriving DecidableEq, Repr

structure AddMessageResponse where
  blockID : String
  offset : Int
  messageID : String
  deriving DecidableEq, Repr

/-- `params` are those of the one method that is called here. -/
structure StoreRPCRequest where
  requestID : String
  method : String
  params : AddMessageRequest
  deriving DecidableEq, Repr

structure StoreRPCResponse where
  requestID : String
  success : Bool
  data : Option AddMessageResponse
  error : String
  deriving DecidableEq, Repr

def methodAddMessage : String := "AddMessage"

inductive Body where
  | response (r : StoreRPCResponse)
  /-- not the JSON of a response -/
  | garbled
  deriving DecidableEq, Repr

structure HTTPResponse where
  status : Nat
  body : Body
  deriving DecidableEq, Repr

section Server

inductive HandlerError where
  | failed (text : String)
  | panicked
  deriving DecidableEq, Repr

abbrev HandlerM := EStateM HandlerError Host

def onStore {α : Type} (context : String) (x : StoreM α) : HandlerM α :=
  onPart id (fun t _ => t) (fun e => .failed (context ++ e.text)) x

/-- `number` says what is left of an `int64` that was a JSON number of a map, a float64,
on its way; none, if it does not fit any more. -/
def parseParams (number : Int → Option Int) (params : AddMessageRequest) :
    HandlerM AddMessageRequest :=
  match params.message with
  | none => pure params
  | some m =>
    match number m.seqID with
    | some n => pure { params with message := some { m with seqID := n } }
    | none => throw (.failed "failed to unmarshal params: number out of range")

def handleAddMessage (env : Env) (number : Int → Option Int) (params : AddMessageRequest) :
    HandlerM AddMessageResponse := do
  let req ← parseParams number params
  let timeline ← onStore "" (getOrCreateConvTimeline env req.timelineKey)
  match req.message with
  | none => throw .panicked
  | some message =>
    onStore "failed to add message: "
      (SendCall.run env ⟨req.timelineKey,message.senderID,message.data,[]⟩)
    let h ← get
    match (h.timeline timeline).current with
    | none => throw .panicked
    | some b => pure ⟨b.blockID,b.messages.length,decimal message.seqID⟩

/-- The other methods are not called here. -/
def handlers (env : Env) (number : Int → Option Int) (method : String) :
    Option (AddMessageRequest → HandlerM AddMessageResponse) :=
  if method = methodAddMessage then some (handleAddMessage env number) else none

def writeErrorResponse (message : String) (statusCode : Nat) : HTTPResponse :=
  ⟨statusCode,.response ⟨"",false,none,message⟩⟩

def writeRPCErrorResponse (requestID errorMessage : String) : HTTPResponse :=
  ⟨200,.response ⟨requestID,false,none,errorMessage⟩⟩

/-- A request as it arrives. -/
inductive Arrival where
  | whole (r : StoreRPCRequest)
  /-- The body ends early. -/
  | cut
  | notJSON
  deriving DecidableEq, Repr

def handleRPC (env : Env) (number : Int → Option Int) (arrival : Arrival) (h : Host) :
    Option HTTPResponse × Host :=
  match arrival with
  | .cut => (some (writeErrorResponse "Failed to read request body" 400),h)
  | .notJSON => (some (writeErrorResponse "Invalid JSON request" 400),h)
  | .whole r =>
    if r.method = "" then (some (writeErrorResponse "Method is required" 400),h)
    else match handlers env number r.method with
    | none => (some (writeRPCErrorResponse r.requestID ("Method not found: " ++ r.method)),h)
    | some handler =>
      match handler r.params h with
      | .ok result t => (some ⟨200,.response ⟨r.requestID,true,some result,""⟩⟩,t)
      | .error (.failed text) t => (some (writeRPCErrorResponse r.requestID text),t)
      | .error .panicked t => (none,t)

end Server

section Client

inductive CallResult where
  | ok (r : AddMessageResponse)
  | failed (e : ClientError)
  | panicked
  deriving DecidableEq, Repr

def parseResponse (r : StoreRPCResponse) : CallResult :=
  if r.success then .ok (r.data.getD ⟨"",0,""⟩) else .failed (.rpc r.error)

/-- The loop is over: `makeRequest` returns nil and the last error. Without an attempt
that error is nil too, and `parseResponse` gets a nil pointer. -/
def gaveUp : Option ClientError → CallResult
  | none => .panicked
  | some e => .failed e

inductive Reading where
  | whole
  | cut
  | status (code : Nat)
  | garbled
  deriving DecidableEq, Repr

def readResponse (reading : Reading) (resp : HTTPResponse) : Except ClientError StoreRPCResponse :=
  if reading = .cut then .error .readBody
  else
    let status := match reading with
      | .status code => code
      | _ => resp.status
    if status ≠ 200 then .error (.http status)
    else match resp.body with
    | .response r => if reading = .garbled then .error .unmarshal else .ok r
    | .garbled => .error .unmarshal

inductive ClientStage where
  /-- at the head of the loop -/
  | trying (i : Nat) (lastErr : Option ClientError)
  /-- in `client.Do` -/
  | awaiting (i : Nat)
  | returned (result : CallResult)
  /-- for the mutex of the client -/
  | waiting
  deriving DecidableEq, Repr

def HTTPStoreRPCClient.start (c : HTTPStoreRPCClient) : ClientStage :=
  match requireConnected c with
  | .ok _ _ => .trying 0 none
  | .error (.failed _ e) _ => .returned (.failed e)
  | .error .panicked _ => .returned .panicked
  | .error .waits _ => .waiting

end Client

/-- One call, the requests and answers of its attempts that are on their way, and the
server. `stored` is not in the source: how many messages the attempts have brought. -/
structure System where
  client : HTTPStoreRPCClient
  request : StoreRPCRequest
  stage : ClientStage
  requests : List Nat
  responses : List (Nat × HTTPResponse)
  host : Host
  stored : Nat

def System.start (c : HTTPStoreRPCClient) (requestID : String)
    (req : AddMessageRequest) (h : Host) :
    System := ⟨c,⟨requestID,methodAddMessage,req⟩,c.start,[],[],h,0⟩

def System.timeline (s : System) : TimelineRef := ⟨.conv,s.request.params.timelineKey⟩

/-- The timeline is opened first, and what is loaded then does not count. -/
def opened (env : Env) (r : TimelineRef) (h : Host) : Host := final (getOrCreateTimeline env r) h

inductive Damage where
  | none
  | cut
  | notJSON
  deriving DecidableEq, Repr

def Damage.arrival (r : StoreRPCRequest) : Damage → Arrival
  | .none => .whole r
  | .cut => .cut
  | .notJSON => .notJSON

/-- A request that stays on its way is lost, as is an answer that the client does not
wait for any more. Others use the store meanwhile. -/
inductive RpcOp where
  | createFails
  | send
  | deliver (i : Nat) (damage : Damage)
  | doFails
  /-- Something in between answers. -/
  | refused (status : Nat)
  | receive (reading : Reading)
  | giveUp
  | other (op : StoreOp)
  deriving DecidableEq, Repr

def System.next (env : Env) (number : Int → Option Int) (s : System) : RpcOp → Option System
  | .createFails =>
    match s.stage with
    | .trying i _ =>
      if i ≤ s.client.retryCount then some { s with stage := .trying (i+1) (some .createRequest) }
          else none
    | _ => none
  | .send =>
    match s.stage with
    | .trying i _ =>
      if i ≤ s.client.retryCount then
          some { s with stage := .awaiting i, requests := i :: s.requests }
      else none
    | _ => none
  | .deliver i damage =>
    if i ∈ s.requests then
      let (response,t) := handleRPC env number (damage.arrival s.request) s.host
      some { s with
        requests := s.requests.erase i
        responses := response.toList.map (i,·) ++ s.responses
        host := t
        stored := s.stored+((t.messages s.timeline).length-
          ((opened env s.timeline s.host).messages s.timeline).length) }
    else none
  | .doFails =>
    match s.stage with
    | .awaiting i => some { s with stage := .trying (i+1) (some .send) }
    | _ => none
  | .refused status =>
    match s.stage with
    | .awaiting i =>
      if status ≠ 200 then some { s with stage := .trying (i+1) (some (.http status)) } else none
    | _ => none
  | .receive reading =>
    match s.stage with
    | .awaiting i => (s.responses.lookup i).map fun resp => { s with
        stage := match readResponse reading resp with
          | .ok r => .returned (parseResponse r)
          | .error e => .trying (i+1) (some e) }
    | _ => none
  | .giveUp =>
    match s.stage with
    | .trying i lastErr =>
      if i ≤ s.client.retryCount then none else some { s with stage := .returned (gaveUp lastErr) }
    | _ => none
  | .other op => some { s with host := final (op.exec env) s.host }

/-- The request comes through, and the store takes the message: there is room in the
current block of the timeline, or capacity for a new one. -/
def Takes (env : Env) (number : Int → Option Int) (s : System) : RpcOp → Prop
  | .deliver _ .none => (s.request.params.message.bind fun m => number m.seqID).isSome ∧
      ¬ (opened env s.timeline s.host).Refuses s.timeline
  | _ => False

instance (env : Env) (number : Int → Option Int) (s : System) : (op : RpcOp) →
    Decidable (Takes env number s op)
  | .deliver _ .none => inferInstanceAs (Decidable (_ ∧ _))
  | .deliver _ .cut | .deliver _ .notJSON | .createFails | .send | .doFails | .refused _
  | .receive _
  | .giveUp | .other _ => isFalse id

section Server
variable {env : Env} {number : Int → Option Int} {h m : Host} {r : TimelineRef}

theorem wp_opened (env : Env) (r : TimelineRef) (h : Host) :
    wp (getOrCreateTimeline env r) (fun _ t => t = opened env r h ∧ Ready env r h t)
      (fun _ _ => False) h :=
  wp_mono (wp_and (wp_final _ h) (wp_getOrCreateTimeline env r h)) (fun _ _ ht => ht)
    (fun _ _ he => he.2)

theorem ready_opened (env : Env) (r : TimelineRef) (h : Host) : Ready env r h (opened env r h) := by
  obtain ⟨_,t,-,rfl,hready⟩ := eq_ok_of_wp (wp_opened env r h)
  exact hready

theorem messages_le_opened (env : Env) (r : TimelineRef) (h : Host) :
    (h.messages r).length ≤ ((opened env r h).messages r).length := by
  have hready := ready_opened env r h
  cases hf : h.store.find r with
  | none => simp [Host.messages,Host.timeline,hf,Timeline.fresh,Timeline.messages]
  | some tl => exact (hready.onward r (by simp [hf])).2

/-- A message for the conversation alone is in it after the call, whether the call
returns nil or not, unless the store refuses it. -/
theorem wp_send_alone (env : Env) {s : SendCall} (hs : s.userIDs = []) (hp : m.Pointed)
    (hf : (m.store.find s.conv).isSome) :
    wp (s.run env)
      (fun _ t => t.Pointed ∧ (t.messages s.conv).length =
        (m.messages s.conv).length+if m.Refuses s.conv then 0 else 1)
      (fun _ t => t.Pointed ∧ (t.messages s.conv).length =
        (m.messages s.conv).length+if m.Refuses s.conv then 0 else 1) m := by
  by_cases hrefuses : m.Refuses s.conv
  · simp only [if_pos hrefuses]
    refine wp_mono (wp_send_refused env s hf hrefuses) (fun _ _ he => he.elim) ?_
    rintro _ t rfl
    exact ⟨hp,rfl⟩
  · have htargets : s.targets = [s.conv] := by simp [SendCall.targets,SendCall.users,hs]
    simp only [if_neg hrefuses]
    refine wp_mono (wp_send_sent env s hp) ?_ ?_
    · intro _ t hsent
      refine ⟨hsent.pointed,?_⟩
      rw [hsent.known s.conv hf,htargets]
      simp
    · rintro e t ⟨done,⟨hpre,hwhy⟩,hsent,-⟩
      refine ⟨hsent.pointed,?_⟩
      rw [htargets] at hpre hwhy
      have hdone : done = [s.conv] := by
        rcases List.prefix_cons_iff.mp hpre with rfl | ⟨rest,rfl,hrest⟩
        · rcases hwhy with ⟨-,-,hrefused⟩ | ⟨-,hne⟩
          · exact absurd ((hrefused rfl).2 s.conv rfl hf) hrefuses
          · exact absurd rfl hne
        · rw [List.prefix_nil.mp hrest]
      rw [hsent.known s.conv hf,hdone]
      simp

theorem wp_handleAddMessage (env : Env) (number : Int → Option Int) (params : AddMessageRequest)
    (hp : h.Pointed) :
    let r : TimelineRef := ⟨.conv,params.timelineKey⟩
    let after := fun t : Host => t.Pointed ∧
      (t.messages r).length-((opened env r h).messages r).length =
        if (params.message.bind fun m => number m.seqID).isSome ∧
            ¬ (opened env r h).Refuses r then 1
        else 0
    wp (handleAddMessage env number params) (fun _ => after) (fun _ => after) h := by
  intro r after
  have hready := ready_opened env r h
  have hnothing : h.Pointed ∧ (h.messages r).length-((opened env r h).messages r).length = 0 :=
    ⟨hp,Nat.sub_eq_zero_of_le (messages_le_opened env r h)⟩
  have hopened : (opened env r h).Pointed := hready.pointed hp
  cases hm : params.message with
  | none =>
    simp only [handleAddMessage,parseParams,hm,getOrCreateConvTimeline,onStore,wp_bind,wp_pure,
      wp_onPart,wp_throw]
    refine wp_mono (wp_opened env r h) ?_ (fun _ _ he => he.elim)
    rintro _ t ⟨rfl,-⟩
    exact ⟨hopened,by simp [hm]⟩
  | some message =>
    cases hn : number message.seqID with
    | none =>
      simp only [handleAddMessage,parseParams,hm,hn,wp_bind,wp_throw]
      exact ⟨hnothing.1,by simp [hm,hn,hnothing.2]⟩
    | some n =>
      simp only [handleAddMessage,parseParams,hm,hn,getOrCreateConvTimeline,onStore,wp_bind,wp_pure,
        wp_onPart]
      refine wp_mono (wp_opened env r h) ?_ (fun _ _ he => he.elim)
      rintro _ t ⟨rfl,-⟩
      have hafter : ∀ t : Host, (t.Pointed ∧ (t.messages r).length =
          ((opened env r h).messages r).length+if (opened env r h).Refuses r then 0 else 1) →
              after t := by
        rintro t ⟨ht,hlen⟩
        refine ⟨ht,?_⟩
        rw [hlen,Nat.add_sub_cancel_left]
        simp [hm,hn]
      refine wp_mono (wp_send_alone env (s := ⟨params.timelineKey,message.senderID,message.data,[]⟩)
        rfl hopened hready.found) ?_ (fun _ t ht => hafter t ht)
      intro _ t ht
      simp only [wp_get]
      cases (t.timeline r).current with
      | none => exact hafter t ht
      | some b => exact hafter t ht

theorem handleRPC_messages (env : Env) (number : Int → Option Int) {req : StoreRPCRequest}
    (hmethod : req.method = methodAddMessage) (hp : h.Pointed) (damage : Damage) :
    let r : TimelineRef := ⟨.conv,req.params.timelineKey⟩
    let t := (handleRPC env number (damage.arrival req) h).2
    t.Pointed ∧ (t.messages r).length-((opened env r h).messages r).length =
      if damage = .none ∧ (req.params.message.bind fun m => number m.seqID).isSome ∧
        ¬ (opened env r h).Refuses r then 1 else 0 := by
  intro r
  have hnothing := Nat.sub_eq_zero_of_le (messages_le_opened env r h)
  cases damage with
  | cut => exact ⟨hp,hnothing.trans (if_neg (by simp)).symm⟩
  | notJSON => exact ⟨hp,hnothing.trans (if_neg (by simp)).symm⟩
  | none =>
    have hwp := wp_handleAddMessage env number req.params hp
    have hstate : (handleRPC env number (.whole req) h).2 =
        final (handleAddMessage env number req.params) h := by
      have hne : methodAddMessage ≠ "" := by decide
      simp only [handleRPC,hmethod,if_neg hne,handlers,if_true,final]
      cases handleAddMessage env number req.params h with
      | ok result t => rfl
      | error e t => cases e <;> rfl
    simp only [Damage.arrival,hstate,true_and]
    exact final_of_wp hwp

end Server

section Runs
variable {env : Env} {number : Int → Option Int} {s t : System}

/-- What every step keeps: the attempts are numbered in order, each request is on its
way once at most. -/
structure Numbered (c : HTTPStoreRPCClient) (s : System) : Prop where
  client : s.client = c
  method : s.request.method = methodAddMessage
  pointed : s.host.Pointed
  sent : match s.stage with
    | .trying i _ => i ≤ (c.retryCount+1).toNat ∧ s.stored+s.requests.length ≤ i
    | .awaiting i => i+1 ≤ (c.retryCount+1).toNat ∧ s.stored+s.requests.length ≤ i+1
    | .returned _ | .waiting => s.stored+s.requests.length ≤ (c.retryCount+1).toNat

variable {c : HTTPStoreRPCClient} {op : RpcOp}

theorem Numbered.start (c : HTTPStoreRPCClient) (requestID : String)
    (req : AddMessageRequest) {h : Host}
    (hp : h.Pointed) : Numbered c (System.start c requestID req h) := by
  refine ⟨rfl,rfl,hp,?_⟩
  simp only [System.start,HTTPStoreRPCClient.start]
  rcases requireConnected c with ⟨_,_⟩ | ⟨_ | _ | _,_⟩ <;> simp

/-- A step of the client brings nothing, it may send one request. -/
theorem Numbered.stepped (hs : Numbered c s)
    (hstage : t = { s with stage := t.stage, requests := t.requests })
    (hsent : match t.stage with
      | .trying i _ => i ≤ (c.retryCount+1).toNat ∧ s.stored+t.requests.length ≤ i
      | .awaiting i => i+1 ≤ (c.retryCount+1).toNat ∧ s.stored+t.requests.length ≤ i+1
      | .returned _ | .waiting => s.stored+t.requests.length ≤ (c.retryCount+1).toNat) :
    Numbered c t ∧ t.stored = s.stored := by
  have hstored : t.stored = s.stored := by rw [hstage]
  refine ⟨⟨?_,?_,?_,by rw [hstored]; exact hsent⟩,hstored⟩
  · rw [hstage]; exact hs.client
  · rw [hstage]; exact hs.method
  · rw [hstage]; exact hs.pointed

/-- Whatever comes to the server is off its way, and brings one message at most. -/
theorem Numbered.deliver (hs : Numbered c s) {i : Nat} {damage : Damage}
    (hstep : s.next env number (.deliver i damage) = some t) :
    Numbered c t ∧ t.stored = s.stored+if Takes env number s (.deliver i damage) then 1 else 0 := by
  have hsent := hs.sent
  simp only [System.next,Option.ite_none_right_eq_some,Option.some.injEq] at hstep
  obtain ⟨hmem,rfl⟩ := hstep
  obtain ⟨hp,hbrought⟩ := handleRPC_messages env number hs.method hs.pointed damage
  have htakes : (if damage = .none ∧ (s.request.params.message.bind fun m =>
    number m.seqID).isSome ∧
      ¬ (opened env s.timeline s.host).Refuses s.timeline then 1 else 0) =
      if Takes env number s (.deliver i damage) then 1 else 0 := by
    refine if_congr ?_ rfl rfl
    cases damage <;> simp [Takes]
  rw [System.timeline] at htakes
  simp only [System.timeline,hbrought,htakes]
  have hlen := List.length_erase_of_mem hmem
  have hpos := List.length_pos_of_mem hmem
  have hone : (if Takes env number s (.deliver i damage) then 1 else 0) ≤ 1 := by
    split <;> omega
  refine ⟨⟨hs.client,hs.method,hp,?_⟩,trivial⟩
  cases hstage : s.stage with
  | trying j lastErr =>
    simp only [hstage] at hsent
    exact ⟨hsent.1,by simp only; omega⟩
  | awaiting j =>
    simp only [hstage] at hsent
    exact ⟨hsent.1,by simp only; omega⟩
  | returned | waiting =>
    simp only [hstage] at hsent
    simp only
    omega

theorem Numbered.next (hs : Numbered c s) (hstep : s.next env number op = some t) :
    Numbered c t ∧ t.stored = s.stored+if Takes env number s op then 1 else 0 := by
  have hsent := hs.sent
  have hclient := hs.client
  cases op with
  | createFails =>
    simp only [System.next] at hstep
    split at hstep
    · rename_i i lastErr hstage
      simp only [Option.ite_none_right_eq_some,Option.some.injEq] at hstep
      obtain ⟨hle,rfl⟩ := hstep
      rw [hclient] at hle
      simp only [hstage] at hsent
      refine hs.stepped rfl ⟨?_,Nat.le_succ_of_le hsent.2⟩
      omega
    · cases hstep
  | send =>
    simp only [System.next] at hstep
    split at hstep
    · rename_i i lastErr hstage
      simp only [Option.ite_none_right_eq_some,Option.some.injEq] at hstep
      obtain ⟨hle,rfl⟩ := hstep
      rw [hclient] at hle
      simp only [hstage] at hsent
      refine hs.stepped rfl ⟨?_,?_⟩
      · omega
      · simp only [List.length_cons]
        omega
    · cases hstep
  | doFails =>
    simp only [System.next] at hstep
    split at hstep
    · rename_i i hstage
      cases hstep
      simp only [hstage] at hsent
      exact hs.stepped rfl hsent
    · cases hstep
  | refused status =>
    simp only [System.next] at hstep
    split at hstep
    · rename_i i hstage
      simp only [Option.ite_none_right_eq_some,Option.some.injEq] at hstep
      obtain ⟨-,rfl⟩ := hstep
      simp only [hstage] at hsent
      exact hs.stepped rfl hsent
    · cases hstep
  | receive reading =>
    simp only [System.next] at hstep
    split at hstep
    · rename_i i hstage
      simp only [Option.map_eq_some_iff] at hstep
      obtain ⟨resp,-,rfl⟩ := hstep
      simp only [hstage] at hsent
      refine hs.stepped rfl ?_
      cases readResponse reading resp with
      | ok r => exact hsent.2.trans hsent.1
      | error e => exact hsent
    · cases hstep
  | giveUp =>
    simp only [System.next] at hstep
    split at hstep
    · rename_i i lastErr hstage
      simp only [Option.ite_none_left_eq_some,Option.some.injEq] at hstep
      obtain ⟨-,rfl⟩ := hstep
      simp only [hstage] at hsent
      exact hs.stepped rfl (hsent.2.trans hsent.1)
    · cases hstep
  | other op =>
    cases hstep
    refine ⟨⟨hclient,hs.method,?_,hsent⟩,rfl⟩
    exact final_of_wp (wp_exec_pointed env op hs.pointed)
  | deliver i damage => exact hs.deliver hstep

end Runs

/-- One call brings one message at most if and only if at most one of its requests gets
through to a store that takes the message. It never brings more than it has attempts. -/
theorem stored_le_one_iff (env : Env) (number : Int → Option Int) (c : HTTPStoreRPCClient)
    (requestID : String) (req : AddMessageRequest) (h : Host) (hreachable : Reachable env h)
    (ops : List RpcOp) (s : System)
    (hrun : ops.foldlM (System.next env number) (System.start c requestID req h) = some s) :
    (s.stored ≤ 1 ↔ tally (System.next env number) (Takes env number)
      (System.start c requestID req h) ops ≤ 1) ∧
    s.stored ≤ (c.retryCount+1).toNat := by
  have hkeep : ∀ u op v, Numbered c u → u.next env number op = some v → Numbered c v ∧
      v.stored = u.stored+if Takes env number u op then 1 else 0 :=
        fun _ _ _ hu hstep => hu.next hstep
  obtain ⟨hs,hstored⟩ := eq_tally hkeep (Numbered.start c requestID req hreachable.pointed) hrun
  refine ⟨?_,?_⟩
  · rw [hstored]
    simp [System.start]
  · have hsent := hs.sent
    cases hstage : s.stage with
    | trying i lastErr =>
      simp only [hstage] at hsent
      omega
    | awaiting i =>
      simp only [hstage] at hsent
      omega
    | returned | waiting =>
      simp only [hstage] at hsent
      omega

def requestLost : List RpcOp := [.send,.doFails,.send,.deliver 1 .none,.receive .whole]

def answerLost : List RpcOp :=
  [.send,.deliver 0 .none,.doFails,.send,.deliver 1 .none,.receive .whole]

def sevenToC : AddMessageRequest := ⟨"c",some ⟨0,"c",1,0,[7]⟩⟩

def connectedClient : HTTPStoreRPCClient :=
  { newHTTPStoreRPCClient 30 with connected := true, retryCount := 1 }

def oneRetry : System := System.start connectedClient "q" sevenToC (Host.steady smallBlocks)

theorem stored_le_one_iff_requestLost :
    ∃ s, requestLost.foldlM (System.next Env.steady some) oneRetry = some s ∧ s.stored ≤ 1 ∧
      s.host.messages ⟨.conv,"c"⟩ ≠ [] := by
  have hany : (requestLost.foldlM (System.next Env.steady some) oneRetry).any
      (fun s => !(s.host.messages ⟨.conv,"c"⟩).isEmpty) = true := by decide +kernel
  obtain ⟨s,hs,hp⟩ := (Option.any_eq_true _ _).mp hany
  have hone : tally (System.next Env.steady some)
      (Takes Env.steady some) oneRetry requestLost ≤ 1 := by
    decide +kernel
  refine ⟨s,hs,?_,by simpa using hp⟩
  exact (stored_le_one_iff Env.steady some connectedClient "q" sevenToC (Host.steady smallBlocks)
    (.opened (newStore_steady smallBlocks)) requestLost s hs).1.mpr hone

theorem message_brought_twice :
    ∃ s, answerLost.foldlM (System.next Env.steady some) oneRetry = some s ∧ s.stored = 2 ∧
      (s.host.messages ⟨.conv,"c"⟩).map (·.data) = [[7],[7]] := by
  have hany : (answerLost.foldlM (System.next Env.steady some) oneRetry).any
      (fun s => decide (s.stored = 2 ∧ (s.host.messages ⟨.conv,"c"⟩).map (·.data) = [[7],[7]])) =
          true := by
    decide +kernel
  obtain ⟨s,hs,hp⟩ := (Option.any_eq_true _ _).mp hany
  exact ⟨s,hs,of_decide_eq_true hp⟩

end Imy.Rpc
