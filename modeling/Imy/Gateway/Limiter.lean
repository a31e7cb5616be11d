import Imy.Gateway.Handler
import Imy.Lib.KeyedMachines
import Imy.Lib.Transition
set_option autoImplicit false

/-!
The requests that go through the gateway at the same time, with the `ClientLimiter` that
they share. A `rate.Limiter` is any machine that is asked at some time and answers; it is
made for a key when `get` does not find one.
-/

namespace Imy.Gateway
open Imy.Lib
open Imy.Auth (JwtPayLoad)

inductive GateStage where
  | arrived
  /-- its token is accepted, and the limit by UUID comes next -/
  | identified (claims : JwtPayLoad)
  | done (outcome : Outcome)

/-- `log` is not in the source: the calls of `Allow`, with who called and when. -/
structure Gate (ι L : Type) where
  clients : String → Option L
  stage : ι → GateStage
  log : List (ι × String × Int)

def newGate {ι L : Type} : Gate ι L := ⟨fun _ => none,fun _ => .arrived,[]⟩

/-- A request goes on up to where it asks the limiter by UUID, or to its end. -/
inductive GateEvent (ι : Type) where
  | arrive (i : ι) (now : Int)
  | identify (i : ι) (now : Int)
  deriving DecidableEq, Repr

def addressKey (r : Request) : String :=
  "ip:" ++ if getClientIP r = "" then "unknown" else getClientIP r

def uuidKey (claims : JwtPayLoad) : String := "uuid:" ++ claims.uuid

section Handler
variable (c : GatewayConfig) (out : Outside)

def withToken (claims : JwtPayLoad) (r : Request) : Request :=
  { r with header := inject c out claims (extractToken r.header) r.header }

def proceed (r : Request) : GateStage :=
  if isWhitelisted c out r.path then .done (.forwarded r)
  else
    let token := extractToken r.header
    if token.utf8ByteSize < 20 then .done .panicked
    else if token = "" then .done (.answered 401)
    else
      match out.parseToken token c.accessSecret with
      | .error _ => .done (.answered 401)
      | .ok claims =>
        if c.rateLimit.enabled && toLower c.rateLimit.key = "uuid" && claims.uuid ≠ "" then
            .identified claims
        else .done (.forwarded (withToken c out claims r))

end Handler

section Gate
variable {ι L : Type} [DecidableEq ι] (newLimiter : L) (allowAt : Int → L → Bool × L)
  (c : GatewayConfig) (out : ι → Outside) (request : ι → Request)

def ClientLimiter.allow (clients : String → Option L) (key : String) (now : Int) :
    Bool × (String → Option L) :=
  askAt newLimiter allowAt clients key now

def Gate.setStage (s : Gate ι L) (i : ι) (stage : GateStage) : Gate ι L :=
  { s with stage := Function.update s.stage i stage }

def Gate.ask (s : Gate ι L) (i : ι) (key : String) (now : Int) (allowed refused : GateStage) :
    Gate ι L :=
  let (answer,clients) := ClientLimiter.allow newLimiter allowAt s.clients key now
  Gate.setStage ⟨clients,s.stage,s.log ++ [(i,key,now)]⟩ i (if answer then allowed else refused)

/-- One step, where it is possible. -/
def Gate.next (s : Gate ι L) : GateEvent ι → Option (Gate ι L)
  | .arrive i now =>
    match s.stage i with
    | .arrived =>
      let r := request i
      some (if c.corsEnabled ∧ r.method = "OPTIONS" then s.setStage i (.done (.answered 204))
        else if c.rateLimit.enabled then
          s.ask newLimiter allowAt i (addressKey r) now (proceed c (out i) r)
            (.done (.answered 429))
        else s.setStage i (proceed c (out i) r))
    | _ => none
  | .identify i now =>
    match s.stage i with
    | .identified claims =>
      some (s.ask newLimiter allowAt i (uuidKey claims) now
        (.done (.forwarded (withToken c (out i) claims (request i)))) (.done (.answered 429)))
    | _ => none

def runGate (s : Gate ι L) (events : List (GateEvent ι)) : Option (Gate ι L) :=
  events.foldlM (Gate.next newLimiter allowAt c out request) s

/-- What a request is told at a key by a limiter that serves this key alone and was asked
`earlier`; a key at which it does not ask is no limit. -/
def verdict (i : ι) (key : String) : List Int → List (ι × String × Int) → Bool
  | _, [] => true
  | earlier, (j,k,now) :: log =>
    if k = key then
      if j = i then (allowAt now (machineAfter newLimiter allowAt earlier)).1
      else verdict i key (earlier ++ [now]) log
    else verdict i key earlier log

/-- What a request is told from outside. -/
def told (i : ι) (log : List (ι × String × Int)) : Outside :=
  { out i with allow := fun key => verdict newLimiter allowAt i key [] log }

variable {newLimiter} {allowAt} {c} {out} {request}

section Verdict
variable {i j : ι} {key k : String} {now : Int}

/-- A call of somebody else, or at another key, says nothing. -/
theorem verdict_other (earlier : List Int) (log : List (ι × String × Int)) (h : j ≠ i ∨ k ≠ key) :
    verdict newLimiter allowAt i key earlier (log ++ [(j,k,now)]) =
      verdict newLimiter allowAt i key earlier log := by
  induction log generalizing earlier with
  | nil =>
    simp only [List.nil_append,verdict]
    by_cases hk : k = key
    · rw [if_pos hk,if_neg (h.resolve_right fun hne => hne hk)]
    · rw [if_neg hk]
  | cons e log ih =>
    obtain ⟨j',k',now'⟩ := e
    simp only [List.cons_append,verdict]
    split
    · split
      · rfl
      · exact ih _
    · exact ih _

theorem verdict_asked (earlier : List Int) {log : List (ι × String × Int)}
    (hnot : ∀ now, (i,key,now) ∉ log) :
    verdict newLimiter allowAt i key earlier (log ++ [(i,key,now)]) =
      (allowAt now (machineAfter newLimiter allowAt
        (earlier ++ askedAt key (log.map Prod.snd)))).1 := by
  induction log generalizing earlier with
  | nil => simp [verdict,askedAt]
  | cons e log ih =>
    obtain ⟨j,k,now'⟩ := e
    have hrest : ∀ now, (i,key,now) ∉ log := fun now hin => hnot now (List.mem_cons_of_mem _ hin)
    rw [List.cons_append,verdict,List.map_cons,askedAt_cons]
    by_cases hk : k = key
    · have hj : j ≠ i := by
        rintro rfl
        subst hk
        exact hnot now' List.mem_cons_self
      rw [if_pos hk,if_neg hj,ih _ hrest,if_pos hk,List.append_assoc]
    · rw [if_neg hk,ih _ hrest,if_neg hk,List.nil_append]

end Verdict

theorem addressKey_ne_uuidKey (r : Request) (claims : JwtPayLoad) :
    addressKey r ≠ uuidKey claims := by
  intro heq
  have hchars := congrArg (fun s => s.toList.head?) heq
  simp [addressKey,uuidKey,String.toList_append] at hchars

theorem handler_eq_proceed (c : GatewayConfig) (out : Outside) (r : Request) :
    handler c out r =
      if c.corsEnabled ∧ r.method = "OPTIONS" then .answered 204
      else if c.rateLimit.enabled && !out.allow (addressKey r) then .answered 429
      else
        match proceed c out r with
        | .identified claims =>
          if out.allow (uuidKey claims) then .forwarded (withToken c out claims r)
              else .answered 429
        | .done o => o
        | .arrived => .panicked := by
  unfold handler proceed
  split
  · rfl
  split
  · rename_i hip
    exact (if_pos hip).symm
  rename_i hip
  refine Eq.trans ?_ (if_neg hip).symm
  split
  · rfl
  dsimp only
  split
  · rfl
  split
  · rfl
  cases hparse : out.parseToken (extractToken r.header) c.accessSecret with
  | error e => rfl
  | ok claims =>
    dsimp only
    by_cases hlimit :
      (c.rateLimit.enabled && toLower c.rateLimit.key = "uuid" && claims.uuid ≠ "") = true
    · have huuid : refusedByUUID c out claims = !out.allow (uuidKey claims) := by
        rw [refusedByUUID,hlimit,Bool.true_and]
        rfl
      rw [if_pos hlimit,huuid]
      cases hallow : out.allow (uuidKey claims) <;> simp [hallow,withToken]
    · rw [if_neg hlimit,refusedByUUID,Bool.eq_false_iff.mpr hlimit,Bool.false_and]
      rfl

theorem handler_of_done {r : Request} {o : Outcome} {out : Outside}
    (hcors : ¬ (c.corsEnabled ∧ r.method = "OPTIONS"))
    (hip : c.rateLimit.enabled = true → out.allow (addressKey r) = true)
    (hproceed : proceed c out r = .done o) :
    handler c out r = o := by
  rw [handler_eq_proceed,if_neg hcors,if_neg,hproceed]
  rw [Bool.and_eq_true]
  rintro ⟨hlimit,hrefused⟩
  rw [hip hlimit] at hrefused
  cases hrefused

theorem handler_of_identified {r : Request} {claims : JwtPayLoad} {out : Outside}
    (hcors : ¬ (c.corsEnabled ∧ r.method = "OPTIONS"))
    (hip : c.rateLimit.enabled = true → out.allow (addressKey r) = true)
    (hproceed : proceed c out r = .identified claims) :
    handler c out r =
      if out.allow (uuidKey claims) then .forwarded (withToken c out claims r)
        else .answered 429 := by
  rw [handler_eq_proceed,if_neg hcors,if_neg,hproceed]
  rw [Bool.and_eq_true]
  rintro ⟨hlimit,hrefused⟩
  rw [hip hlimit] at hrefused
  cases hrefused

theorem proceed_ne_arrived (c : GatewayConfig) (out : Outside) (r : Request) :
    proceed c out r ≠ .arrived := by
  unfold proceed
  split
  · exact nofun
  dsimp only
  split
  · exact nofun
  split
  · exact nofun
  split
  · exact nofun
  · split <;> exact nofun

def StageSound (c : GatewayConfig) (r : Request) (told : Outside) (asked : String → Prop) :
    GateStage → Prop
  | .arrived => ∀ key, ¬ asked key
  | .identified claims => ¬ (c.corsEnabled ∧ r.method = "OPTIONS") ∧
      (c.rateLimit.enabled = true → told.allow (addressKey r) = true) ∧
        proceed c told r = .identified claims ∧
      ¬ asked (uuidKey claims)
  | .done o => o = handler c told r

def Asked (i : ι) (log : List (ι × String × Int)) (key : String) : Prop := ∃ now, (i,key,now) ∈ log

variable (newLimiter allowAt c out request) in
/-- Every limiter has been asked what the log says, and every request is where its verdicts
have brought it. -/
structure GateSound (s : Gate ι L) : Prop where
  clients : s.clients = tableAfter newLimiter allowAt (s.log.map Prod.snd)
  stages : ∀ i, StageSound c (request i) (told newLimiter allowAt out i s.log)
    (Asked i s.log) (s.stage i)

variable {s s' : Gate ι L} {i : ι}

theorem gateSound_new : GateSound newLimiter allowAt c out request (newGate : Gate ι L) where
  clients := rfl
  stages i key := by simp [newGate,Asked]

theorem StageSound.other {j : ι} (hj : j ≠ i) {key : String} {now : Int}
    {log : List (ι × String × Int)} {stage : GateStage}
    (h : StageSound c (request i) (told newLimiter allowAt out i log) (Asked i log) stage) :
    StageSound c (request i) (told newLimiter allowAt out i (log ++ [(j,key,now)]))
      (Asked i (log ++ [(j,key,now)])) stage := by
  have htold : told newLimiter allowAt out i (log ++ [(j,key,now)]) =
      told newLimiter allowAt out i log := by
    have hverdict : (fun k => verdict newLimiter allowAt i k [] (log ++ [(j,key,now)])) =
        fun k => verdict newLimiter allowAt i k [] log :=
          funext fun k => verdict_other _ _ (.inl hj)
    rw [told,hverdict,told]
  have hasked : Asked i (log ++ [(j,key,now)]) = Asked i log := by
    funext k
    simp [Asked,Ne.symm hj]
  rw [htold,hasked]
  exact h

theorem GateSound.setStage (hs : GateSound newLimiter allowAt c out request s) {stage : GateStage}
    (hstage : StageSound c (request i) (told newLimiter allowAt out i s.log)
      (Asked i s.log) stage) :
    GateSound newLimiter allowAt c out request (s.setStage i stage) := by
  refine ⟨hs.clients,fun j => ?_⟩
  simp only [Gate.setStage]
  by_cases hj : j = i
  · subst hj
    rw [Function.update_self]
    exact hstage
  · rw [Function.update_of_ne hj]
    exact hs.stages j

/-- A request asks at a key for the first time, and goes on by the verdict. -/
theorem GateSound.ask (hs : GateSound newLimiter allowAt c out request s) {key : String} {now : Int}
    (hnot : ¬ Asked i s.log key) {allowed refused : GateStage}
    (hallowed : verdict newLimiter allowAt i key [] (s.log ++ [(i,key,now)]) = true →
      StageSound c (request i) (told newLimiter allowAt out i (s.log ++ [(i,key,now)]))
        (Asked i (s.log ++ [(i,key,now)])) allowed)
    (hrefused : verdict newLimiter allowAt i key [] (s.log ++ [(i,key,now)]) = false →
      StageSound c (request i) (told newLimiter allowAt out i (s.log ++ [(i,key,now)]))
        (Asked i (s.log ++ [(i,key,now)])) refused) :
    GateSound newLimiter allowAt c out request
      (s.ask newLimiter allowAt i key now allowed refused) := by
  have hanswer : (ClientLimiter.allow newLimiter allowAt s.clients key now).1 =
      verdict newLimiter allowAt i key [] (s.log ++ [(i,key,now)]) := by
    rw [verdict_asked _ fun now hin => hnot ⟨now,hin⟩,ClientLimiter.allow,hs.clients,askAt_answer]
    rfl
  have hclients : (ClientLimiter.allow newLimiter allowAt s.clients key now).2 =
      tableAfter newLimiter allowAt ((s.log ++ [(i,key,now)]).map Prod.snd) := by
    rw [List.map_append,List.map_singleton,tableAfter_concat,← hs.clients]
    rfl
  refine ⟨hclients,fun j => ?_⟩
  simp only [Gate.ask,Gate.setStage]
  by_cases hj : j = i
  · subst hj
    rw [Function.update_self,hanswer]
    cases hverdict : verdict newLimiter allowAt j key [] (s.log ++ [(j,key,now)]) with
    | true => exact hallowed hverdict
    | false => exact hrefused hverdict
  · rw [Function.update_of_ne hj]
    exact (hs.stages j).other (Ne.symm hj)

theorem GateSound.arrive (hs : GateSound newLimiter allowAt c out request s) {now : Int}
    (hstep : s.next newLimiter allowAt c out request (.arrive i now) = some s') :
    GateSound newLimiter allowAt c out request s' := by
  have hsound := hs.stages i
  simp only [Gate.next] at hstep
  split at hstep
  swap
  · cases hstep
  rename_i hstage
  rw [hstage] at hsound
  obtain rfl := Option.some.inj hstep
  split
  · rename_i hcors
    refine hs.setStage ?_
    rw [StageSound,handler_eq_proceed,if_pos hcors]
  rename_i hcors
  split
  · rename_i hlimit
    refine hs.ask (hsound _) (fun hverdict => ?_) fun hverdict => ?_
    · cases hproceed : proceed c (out i) (request i) with
      | arrived => exact absurd hproceed (proceed_ne_arrived _ _ _)
      | done o =>
        have hdone : proceed c (told newLimiter allowAt out i
          (s.log ++ [(i,addressKey (request i),now)]))
            (request i) = .done o := hproceed
        exact (handler_of_done hcors (fun _ => hverdict) hdone).symm
      | identified claims =>
        refine ⟨hcors,fun _ => hverdict,hproceed,?_⟩
        rintro ⟨t,hin⟩
        rcases List.mem_append.mp hin with hin | hin
        · exact hsound _ ⟨t,hin⟩
        · rw [List.mem_singleton,Prod.mk.injEq,Prod.mk.injEq] at hin
          exact addressKey_ne_uuidKey _ _ hin.2.1.symm
    · rw [StageSound,handler_eq_proceed,if_neg hcors,if_pos]
      rw [hlimit,Bool.true_and]
      change (!verdict newLimiter allowAt i (addressKey (request i)) [] _) = true
      rw [hverdict]
      rfl
  · rename_i hlimit
    refine hs.setStage ?_
    have hnone : c.rateLimit.enabled = true →
        (told newLimiter allowAt out i s.log).allow (addressKey (request i)) = true :=
      fun h => absurd h hlimit
    cases hproceed : proceed c (out i) (request i) with
    | arrived => exact absurd hproceed (proceed_ne_arrived _ _ _)
    | done o =>
      have hdone : proceed c (told newLimiter allowAt out i s.log) (request i) = .done o := hproceed
      exact (handler_of_done hcors hnone hdone).symm
    | identified claims => exact ⟨hcors,hnone,hproceed,hsound _⟩

theorem GateSound.identify (hs : GateSound newLimiter allowAt c out request s) {now : Int}
    (hstep : s.next newLimiter allowAt c out request (.identify i now) = some s') :
    GateSound newLimiter allowAt c out request s' := by
  have hsound := hs.stages i
  simp only [Gate.next] at hstep
  split at hstep
  swap
  · cases hstep
  rename_i claims hstage
  rw [hstage] at hsound
  obtain ⟨hcors,hip,hproceed,hnot⟩ := hsound
  obtain rfl := Option.some.inj hstep
  -- its verdict by address is as before
  have hip' : c.rateLimit.enabled = true →
      (told newLimiter allowAt out i (s.log ++ [(i,uuidKey claims,now)])).allow
          (addressKey (request i)) = true := by
    intro hlimit
    rw [← hip hlimit]
    exact verdict_other _ _ (.inr (addressKey_ne_uuidKey _ _).symm)
  refine hs.ask hnot (fun hverdict => ?_) fun hverdict => ?_
  · rw [StageSound,handler_of_identified hcors hip' hproceed]
    exact (if_pos hverdict).symm
  · rw [StageSound,handler_of_identified hcors hip' hproceed]
    exact (if_neg (ne_true_of_eq_false hverdict)).symm

theorem gateSound_run (events : List (GateEvent ι))
    (hrun : runGate newLimiter allowAt c out request newGate events = some s) :
    GateSound newLimiter allowAt c out request s := by
  refine runs_keep (I := GateSound newLimiter allowAt c out request)
    (C := fun _ _ => True) gateSound_new
    (fun u e v hu _ hstep => ?_) events (fun _ _ _ _ _ _ => trivial) hrun
  cases e with
  | arrive i now => exact hu.arrive hstep
  | identify i now => exact hu.identify hstep

def OwnKeys (request : ι → Request) (log : List (ι × String × Int)) : Prop :=
  ∀ i key now, (i,key,now) ∈ log → key = addressKey (request i) ∨ ∃ claims, key = uuidKey claims

theorem OwnKeys.ask (h : OwnKeys request s.log) {key : String} {now : Int}
    {allowed refused : GateStage}
    (hkey : key = addressKey (request i) ∨ ∃ claims, key = uuidKey claims) :
    OwnKeys request (s.ask newLimiter allowAt i key now allowed refused).log := by
  intro j k t hin
  rcases List.mem_append.mp hin with hin | hin
  · exact h j k t hin
  · rw [List.mem_singleton,Prod.mk.injEq,Prod.mk.injEq] at hin
    obtain ⟨rfl,rfl,-⟩ := hin
    exact hkey

theorem OwnKeys.next (h : OwnKeys request s.log) {e : GateEvent ι}
    (hstep : s.next newLimiter allowAt c out request e = some s') : OwnKeys request s'.log := by
  cases e with
  | arrive i now =>
    simp only [Gate.next] at hstep
    split at hstep
    swap
    · cases hstep
    obtain rfl := Option.some.inj hstep
    split
    · exact h
    split
    · exact h.ask (.inl rfl)
    · exact h
  | identify i now =>
    simp only [Gate.next] at hstep
    split at hstep
    swap
    · cases hstep
    obtain rfl := Option.some.inj hstep
    exact h.ask (.inr ⟨_,rfl⟩)

theorem ownKeys_run (events : List (GateEvent ι))
    (hrun : runGate newLimiter allowAt c out request newGate events = some s) :
    OwnKeys request s.log := by
  refine runs_keep (I := fun s : Gate ι L => OwnKeys request s.log) (C := fun _ _ => True)
    (fun i key now hin => ?_)
    (fun u e v hu _ hstep => hu.next hstep) events (fun _ _ _ _ _ _ => trivial) hrun
  cases hin

/-- Nobody else asks at the key, and a limiter that is new allows. -/
theorem verdict_first (hfresh : ∀ now, (allowAt now newLimiter).1 = true) {key : String}
    {log : List (ι × String × Int)} (halone : ∀ j now, (j,key,now) ∈ log → j = i) :
    verdict newLimiter allowAt i key [] log = true := by
  induction log with
  | nil => rfl
  | cons e log ih =>
    obtain ⟨j,k,now⟩ := e
    rw [verdict]
    by_cases hk : k = key
    · subst hk
      rw [if_pos rfl,if_pos (halone j now List.mem_cons_self)]
      exact hfresh now
    · rw [if_neg hk]
      exact ih fun j now hin => halone j now (List.mem_cons_of_mem _ hin)

/-- Behind the limit by address only that by UUID answers with 429. -/
theorem proceed_unlimited (hkey : toLower c.rateLimit.key ≠ "uuid") (out : Outside) (r : Request) :
    ∃ o, proceed c out r = .done o ∧ o ≠ .answered 429 := by
  unfold proceed
  split
  · exact ⟨_,rfl,nofun⟩
  dsimp only
  split
  · exact ⟨_,rfl,nofun⟩
  split
  · exact ⟨_,rfl,by simp⟩
  split
  · exact ⟨_,rfl,by simp⟩
  · exact ⟨_,if_neg (by simp [hkey]),nofun⟩

theorem handler_unlimited (hkey : toLower c.rateLimit.key ≠ "uuid") {out : Outside} {r : Request}
    (hallow : out.allow (addressKey r) = true) : handler c out r ≠ .answered 429 := by
  obtain ⟨o,hproceed,hne⟩ := proceed_unlimited hkey out r
  rw [handler_eq_proceed]
  split
  · simp
  · rw [hallow,hproceed]
    simpa using hne

theorem addressKey_of_forwarded {r : Request} {address : String}
    (hxff : r.header.get "X-Forwarded-For" = address) (hne : address ≠ "")
    (hcomma : ',' ∉ address.toList)
    (htrim : trimSpace address = address) : addressKey r = "ip:" ++ address := by
  have htake : address.toList.takeWhile (· ≠ ',') = address.toList := by
    rw [List.takeWhile_eq_self_iff]
    intro x hx
    rw [decide_eq_true_eq]
    rintro rfl
    exact hcomma hx
  have hip : getClientIP r = address := by
    unfold getClientIP
    rw [hxff]
    dsimp only
    rw [if_pos hne,htake,String.ofList_toList,htrim]
  rw [addressKey,hip,if_neg hne]

end Gate

section Results
variable {ι L : Type} [DecidableEq ι]

/-- In every run of requests that go through the gateway at the same time, each is answered as
the handler answers it with limiters that know only those who ask at the same key; and the
gateway keeps a limiter for every key that was ever asked. -/
theorem answered_as_if_alone (newLimiter : L) (allowAt : Int → L → Bool × L) (c : GatewayConfig)
    (out : ι → Outside) (request : ι → Request) (events : List (GateEvent ι)) {s : Gate ι L}
    (hrun : runGate newLimiter allowAt c out request newGate events = some s) :
    (∀ i o, s.stage i = .done o → o = handler c (told newLimiter allowAt out i s.log) (request i)) ∧
      ∀ key, (s.clients key).isSome ↔ ∃ i now, (i,key,now) ∈ s.log := by
  have hs := gateSound_run events hrun
  refine ⟨fun i o ho => ?_,fun key => ?_⟩
  · have hsound := hs.stages i
    rwa [ho] at hsound
  · rw [hs.clients,tableAfter_isSome]
    constructor
    · rintro ⟨e,he,rfl⟩
      obtain ⟨⟨i,k,now⟩,hin,rfl⟩ := List.mem_map.mp he
      exact ⟨i,now,hin⟩
    · rintro ⟨i,now,hin⟩
      exact ⟨_,List.mem_map_of_mem hin,rfl⟩

/-- A client that gives itself a new address with every request is never limited, however
many requests it sends and whenever: the address is the one that it claims. -/
theorem forged_addresses_unlimited (newLimiter : L) (allowAt : Int → L → Bool × L)
    (hfresh : ∀ now, (allowAt now newLimiter).1 = true) (c : GatewayConfig)
    (hkey : toLower c.rateLimit.key ≠ "uuid") (out : ι → Outside) (request : ι → Request)
    (address : ι → String)
    (hxff : ∀ i, (request i).header.get "X-Forwarded-For" = address i)
    (hdistinct : address.Injective)
    (hplain : ∀ i, address i ≠ "" ∧ ',' ∉ (address i).toList ∧ trimSpace (address i) = address i)
    (events : List (GateEvent ι)) {s : Gate ι L}
    (hrun : runGate newLimiter allowAt c out request newGate events = some s) (i : ι) :
    s.stage i ≠ .done (.answered 429) := by
  have haddress : ∀ j, addressKey (request j) = "ip:" ++ address j := fun j =>
    addressKey_of_forwarded (hxff j) (hplain j).1 (hplain j).2.1 (hplain j).2.2
  have halone : ∀ j now, (j,addressKey (request i),now) ∈ s.log → j = i := by
    intro j now hin
    rcases ownKeys_run events hrun j _ now hin with heq | ⟨claims,heq⟩
    · rw [haddress,haddress,String.append_right_inj] at heq
      exact (hdistinct heq).symm
    · exact absurd heq (addressKey_ne_uuidKey _ _)
  intro hdone
  have hsound := (gateSound_run events hrun).stages i
  rw [hdone] at hsound
  refine handler_unlimited hkey ?_ hsound.symm
  exact verdict_first hfresh halone

end Results

/-- A bucket with one token that is not filled again. -/
def oneToken (_now : Int) (tokens : Nat) : Bool × Nat := (decide (0 < tokens),tokens-1)

def limitedGateway : GatewayConfig := ⟨"secret",[],[],false,⟨true,"ip"⟩⟩

def noTokens : Outside := ⟨fun _ => none,fun _ _ => .error "",fun _ => true,"request"⟩

/-- Requests from one address, each with a header that says another. -/
def claiming (address : Bool → String) (i : Bool) : Request :=
  ⟨"GET","","/chat","","","10.0.0.1:80",fun key => if key = "X-Forwarded-For" then
    [address i] else []⟩

def bothArrive : List (GateEvent Bool) := [.arrive false 0,.arrive true 0]

theorem answered_as_if_alone_both :
    ∃ s, runGate 1 oneToken limitedGateway (fun _ => noTokens)
      (claiming fun _ => "") newGate bothArrive = some s ∧
      s.log = [(false,"ip:10.0.0.1",0),(true,"ip:10.0.0.1",0)] ∧
      ∀ i o, s.stage i = .done o →
        o = handler limitedGateway (told 1 oneToken (fun _ => noTokens) i s.log)
          (claiming (fun _ => "") i) := by
  have hrun : (runGate 1 oneToken limitedGateway (fun _ => noTokens)
    (claiming fun _ => "") newGate bothArrive).map
      (fun s => s.log) = some [(false,"ip:10.0.0.1",0),(true,"ip:10.0.0.1",0)] := by decide +kernel
  rw [Option.map_eq_some_iff] at hrun
  obtain ⟨s,hs,hlog⟩ := hrun
  exact ⟨s,hs,hlog,(answered_as_if_alone 1 oneToken limitedGateway (fun _ => noTokens)
    (claiming fun _ => "")
    bothArrive hs).1⟩

def twoAddresses (i : Bool) : String := if i then "1" else "2"

theorem forged_addresses_unlimited_both :
    ∃ s, runGate 1 oneToken limitedGateway (fun _ => noTokens)
      (claiming twoAddresses) newGate bothArrive = some s ∧
      s.log.length = 2 ∧ s.stage true ≠ .done (.answered 429) := by
  have hrun : (runGate 1 oneToken limitedGateway (fun _ => noTokens)
    (claiming twoAddresses) newGate bothArrive).map
      (fun s => s.log.length) = some 2 := by decide +kernel
  rw [Option.map_eq_some_iff] at hrun
  obtain ⟨s,hs,hlog⟩ := hrun
  refine ⟨s,hs,hlog,forged_addresses_unlimited 1 oneToken (fun _ => rfl) limitedGateway
    (by decide +kernel)
    (fun _ => noTokens) (claiming twoAddresses) twoAddresses (fun i => ?_) ?_
      (by decide +kernel) bothArrive hs true⟩
  · have hkey : canonicalKey "X-Forwarded-For" = "X-Forwarded-For" := by decide +kernel
    simp [Header.get,hkey,claiming]
  · intro i j h
    cases i <;> cases j <;> simp [twoAddresses] at h ⊢

end Imy.Gateway
