import Imy.Auth.Logic
import Imy.Lib.Header
import Imy.Svc.Push
set_option autoImplicit false

/-!
`ChatWsHandler` of `internal/handler/chat`: from the token of a request to the connection in
the hub and out of it again, beside the goroutine that pings and the calls that push.
-/

namespace Imy.Svc
open Lib
open Imy.Auth (JwtPayLoad)

def parseBearer (header : Header) : Option String :=
  let v := (header.get "Authorization").toList
  let scheme := v.takeWhile (· ≠ ' ')
  let token := (v.dropWhile (· ≠ ' ')).tail
  -- no letter of the word is the folding of one outside ASCII
  if scheme.map Char.toLower = "bearer".toList ∧ token ≠ [] then
      some (String.ofList token) else none

/-- The UUID of the claims, for a request that is not answered 401. -/
def authenticate (parseToken : String → String → Except String (Option JwtPayLoad))
    (accessSecret : String) (header : Header) : Option String :=
  match parseBearer header with
  | none => none
  | some token =>
    match parseToken token accessSecret with
    | .ok (some claims) => if claims.uuid = "" then none else some claims.uuid
    | _ => none

inductive WsStage where
  | arrived
  | refused
  | upgrading (uuid : String)
  | failed
  /-- before `Register` -/
  | registering (uuid : String)
  | registered (uuid : String)
  /-- at the ready event -/
  | greeting (uuid : String)
  | reading (uuid : String)
  /-- at `<-done` -/
  | waiting (uuid : String)
  /-- before `Close` -/
  | closing (uuid : String)
  | ended (uuid : String)
  deriving DecidableEq, Repr

inductive PingStage where
  | absent
  | ticking
  | returned
  deriving DecidableEq, Repr

inductive WsCaller (ι κ : Type) where
  | handler (conn : κ)
  | pinger (conn : κ)
  | pusher (i : ι)
  deriving DecidableEq, Repr

/-- The hub with what has been done to it, and the handlers. A connection is known before it
is made. -/
structure ChatWs (ι κ : Type) where
  hub : Callers (WsCaller ι κ) κ
  past : List (WsEvent (WsCaller ι κ) κ)
  stage : κ → WsStage
  ping : κ → PingStage
  /-- whether the context of the request is done -/
  done : κ → Bool

inductive ChatWsEvent (ι κ : Type) where
  | authenticate (conn : κ)
  | upgrade (conn : κ) (ok : Bool)
  /-- the next statement of the handler, where nothing outside decides -/
  | proceed (conn : κ)
  | readFails (conn : κ)
  | contextDone (conn : κ)
  | tick (conn : κ)
  | stopPinging (conn : κ)
  | sendJSON (i : ι) (uuid : String)
  | range (i : ι) (conn : κ)
  | written (caller : WsCaller ι κ) (ok : Bool)
  | run (caller : WsCaller ι κ)
  deriving DecidableEq, Repr

section Handler
variable {ι κ : Type} [DecidableEq ι] [DecidableEq κ]

def newChatWs : ChatWs ι κ := ⟨noCalls,[],fun _ => .arrived,fun _ => .absent,fun _ => false⟩

def ChatWs.hubStep (s : ChatWs ι κ) (e : WsEvent (WsCaller ι κ) κ) : Option (ChatWs ι κ) :=
  (Svc.next s.hub e).map fun hub => { s with hub := hub, past := s.past ++ [e] }

def ChatWs.goTo (s : ChatWs ι κ) (conn : κ) (stage : WsStage) : ChatWs ι κ :=
  { s with stage := Function.update s.stage conn stage }

def ChatWs.setPing (s : ChatWs ι κ) (conn : κ) (ping : PingStage) : ChatWs ι κ :=
  { s with ping := Function.update s.ping conn ping }

def ChatWs.proceed (s : ChatWs ι κ) (conn : κ) : Option (ChatWs ι κ) :=
  match s.stage conn with
  | .registering uuid => (s.hubStep (.register uuid conn)).map (·.goTo conn (.registered uuid))
  | .registered uuid => (s.hubStep (.withConnWrite (.handler conn) conn)).map
    (·.goTo conn (.greeting uuid))
  | .greeting uuid =>
    if s.hub.calls (.handler conn) = .idle then
        some ((s.goTo conn (.reading uuid)).setPing conn .ticking)
    else none
  | .waiting uuid =>
    if s.ping conn = .returned then (s.hubStep (.unregister uuid conn)).map
        (·.goTo conn (.closing uuid))
    else none
  | .closing uuid => some (s.goTo conn (.ended uuid))
  | _ => none

variable (parseToken : String → String → Except String (Option JwtPayLoad)) (accessSecret : String)
  (header : κ → Header)

/-- One step, where it is possible. With its context done the goroutine may still take a tick. -/
def ChatWs.next (s : ChatWs ι κ) : ChatWsEvent ι κ → Option (ChatWs ι κ)
  | .authenticate conn =>
    if s.stage conn = .arrived then
      match Svc.authenticate parseToken accessSecret (header conn) with
      | some uuid => some (s.goTo conn (.upgrading uuid))
      | none => some (s.goTo conn .refused)
    else none
  | .upgrade conn ok =>
    match s.stage conn with
    | .upgrading uuid => some (s.goTo conn (if ok then .registering uuid else .failed))
    | _ => none
  | .proceed conn => s.proceed conn
  | .readFails conn =>
    match s.stage conn with
    | .reading uuid => some (s.goTo conn (.waiting uuid))
    | _ => none
  | .contextDone conn => some { s with done := Function.update s.done conn true }
  | .tick conn => if s.ping conn = .ticking then
    s.hubStep (.withConnWrite (.pinger conn) conn) else none
  | .stopPinging conn =>
    if s.ping conn = .ticking ∧ s.done conn ∧ s.hub.calls (.pinger conn) = .idle then
      some (s.setPing conn .returned)
    else none
  | .sendJSON i uuid => s.hubStep (.sendJSON (.pusher i) uuid)
  | .range i conn => s.hubStep (.range (.pusher i) conn)
  | .written caller ok => s.hubStep (.written caller ok)
  | .run caller => s.hubStep (.run caller)

def runChatWs (s : ChatWs ι κ) (events : List (ChatWsEvent ι κ)) : Option (ChatWs ι κ) :=
  events.foldlM (ChatWs.next parseToken accessSecret header) s

end Handler

/-- The user of a handler that has registered its connection and has not unregistered it. -/
def WsStage.user : WsStage → Option String
  | .registered uuid | .greeting uuid | .reading uuid | .waiting uuid => some uuid
  | _ => none

def WsStage.came : WsStage → Option String
  | .closing uuid | .ended uuid => some uuid
  | stage => stage.user

/-- The user of a handler that did not refuse the token. -/
def WsStage.claimed : WsStage → Option String
  | .upgrading uuid | .registering uuid => some uuid
  | stage => stage.came

theorem WsStage.came_of_user {stage : WsStage} {u : String} (h : stage.user = some u) :
    stage.came = some u := by
  cases stage <;> first | exact h | cases h

theorem WsStage.claimed_of_came {stage : WsStage} {u : String} (h : stage.came = some u) :
    stage.claimed = some u := by
  cases stage <;> first | exact h | cases h

section Hub
variable {ι κ : Type} {h : NamedSets String κ} {w w' : Callers ι κ} {e : WsEvent ι κ}
  {past : List (WsEvent ι κ)} {call call' : Call κ} {i : ι} {u : String} {c : κ}

theorem not_has_noCalls (u : String) (c : κ) : ¬ (noCalls : Callers ι κ).hub.users.Has u c := by
  rintro ⟨set,hset,-⟩
  cases hset

/-- What takes a connection out, other than `Unregister`, is the clean-up of a push to it. -/
theorem drops_run (hdrops : drops w e = some (u,c)) (hown : ∀ u c, e ≠ .unregister u c) :
    ∃ i loop l, e = .run i ∧ w.calls i = .writing (some loop) c (.cleaning l) ∧ loop.uuid = u := by
  cases e with
  | unregister uuid conn => exact absurd rfl (hown uuid conn)
  | run i =>
    simp only [drops] at hdrops
    split at hdrops
    · rename_i loop conn l hcall
      cases loop with
      | none => cases hdrops
      | some loop =>
        cases hdrops
        exact ⟨i,loop,l,rfl,hcall,rfl⟩
    · cases hdrops
  | _ => cases hdrops

variable [DecidableEq κ]

theorem Goes.writing {loop : SendLoop κ} {place : Place} (hg : Goes h i e call call')
    (hcall : call' = .writing (some loop) c place) :
    (∃ place, call = .writing (some loop) c place) ∨
      call.sendsTo = some (loop.uuid,loop.set) ∧ c ∈ h.get loop.set := by
  cases hg with
  | alone | look | nobody | count | enter | finish => cases hcall
  | range mem =>
    cases hcall
    exact .inr ⟨rfl,mem⟩
  | write | move =>
    cases hcall
    exact .inl ⟨_,rfl⟩
  | @leave loop => cases loop <;> cases hcall

variable [DecidableEq ι]

/-- The clean-up of a push to the user has taken the connection out. -/
def TakenOut (u : String) (c : κ) (past : List (WsEvent ι κ)) : Prop :=
  ∃ before i after w, past = before ++ .run i :: after ∧ runCallers noCalls before = some w ∧
    drops w (.run i) = some (u,c)

theorem takenOut_concat (hrun : runCallers noCalls past = some w) :
    TakenOut u c (past ++ [e]) ↔ TakenOut u c past ∨ ∃ i, e = .run i ∧ drops w e = some (u,c) := by
  constructor
  · rintro ⟨before,i,after,v,hsplit,hbefore,hdrops⟩
    induction after using List.reverseRecOn with
    | nil =>
      obtain ⟨rfl,heq⟩ := List.append_inj' hsplit rfl
      cases heq
      cases hbefore.symm.trans hrun
      exact .inr ⟨i,rfl,hdrops⟩
    | append_singleton after d _ =>
      rw [← List.cons_append,← List.append_assoc] at hsplit
      obtain ⟨rfl,-⟩ := List.append_inj' hsplit rfl
      exact .inl ⟨before,i,after,v,rfl,hbefore,hdrops⟩
  · rintro (⟨before,i,after,v,rfl,hbefore,hdrops⟩ | ⟨i,rfl,hdrops⟩)
    · exact ⟨before,i,after ++ [e],v,by rw [List.append_assoc]; rfl,hbefore,hdrops⟩
    · exact ⟨past,i,[],w,rfl,hrun,hdrops⟩

theorem has_next (hrun : runCallers noCalls past = some w) (hstep : next w e = some w') :
    w'.hub.users.Has u c ↔ e = .register u c ∨ drops w e ≠ some (u,c) ∧ w.hub.users.Has u c := by
  have hrun' : runCallers noCalls (past ++ [e]) = some w' := by
    rw [runCallers_concat,hrun]
    exact hstep
  rw [has_iff_registeredFor hrun',RegisteredFor,since_snoc,← RegisteredFor,
    ← has_iff_registeredFor hrun]
  refine or_congr_right (and_congr_left' ⟨fun hall => hall w hrun,fun hno v hv => ?_⟩)
  cases hrun.symm.trans hv
  exact hno

theorem writing_next (hs : SetsSound w) (hstep : next w e = some w')
    {loop : SendLoop κ} {place : Place} (hcall : w'.calls i = .writing (some loop) c place) :
    (∃ place, w.calls i = .writing (some loop) c place) ∨ w.hub.users.Has loop.uuid c := by
  obtain ⟨-,-,-,hcalls,-⟩ | ⟨-,-,-,hcalls,-⟩ | ⟨-,-,-,rfl⟩ | ⟨j,call,hcalls,hgoes,-⟩ :=
    next_cases hstep
  · exact .inl ⟨place,hcalls ▸ hcall⟩
  · exact .inl ⟨place,hcalls ▸ hcall⟩
  · exact .inl ⟨place,hcall⟩
  · rw [hcalls] at hcall
    rcases eq_or_ne i j with rfl | hne
    · rw [Function.update_self] at hcall
      exact (hgoes.writing hcall).imp_right fun hcomes => (hs.found i _ _ hcomes.1).has hcomes.2
    · rw [Function.update_of_ne hne] at hcall
      exact .inl ⟨place,hcall⟩

theorem idle_next (hstep : next w e = some w') (hidle : w.calls i = .idle)
    (hown : e.caller ≠ some i) :
    w'.calls i = .idle := by
  rcases next_caller hstep i hown with ⟨hsame,-⟩ | hgoes
  · rw [hsame,hidle]
  · rw [hidle] at hgoes
    generalize w'.calls i = call at hgoes ⊢
    cases hgoes with
    | alone | look => exact absurd rfl hown

end Hub

section Handler
variable {ι κ : Type} [DecidableEq ι] [DecidableEq κ]
  {parseToken : String → String → Except String (Option JwtPayLoad)} {accessSecret : String}
    {header : κ → Header}
  {s s' : ChatWs ι κ} {e : WsEvent (WsCaller ι κ) κ} {w : Callers (WsCaller ι κ) κ}
    {c : κ} {u : String}
  {stage : WsStage}

/-- The hub has what the handlers have registered, but for what pushes have taken out. -/
structure ChatWs.Listed (parseToken : String → String → Except String (Option JwtPayLoad))
    (accessSecret : String) (header : κ → Header) (s : ChatWs ι κ) : Prop where
  hub : runCallers noCalls s.past = some s.hub
  claimed : ∀ c u, (s.stage c).claimed = some u →
    authenticate parseToken accessSecret (header c) = some u
  listed : ∀ u c, s.hub.hub.users.Has u c ↔ (s.stage c).user = some u ∧ ¬ TakenOut u c s.past
  met : ∀ i loop c place, s.hub.calls i = .writing (some loop) c place →
    (s.stage c).came = some loop.uuid
  taken : ∀ u c, TakenOut u c s.past → (s.stage c).came = some u

theorem ChatWs.Listed.run (hl : s.Listed parseToken accessSecret header)
    (hstep : Svc.next s.hub e = some w) :
    runCallers noCalls (s.past ++ [e]) = some w := by
  rw [runCallers_concat,hl.hub]
  exact hstep

theorem ChatWs.Listed.goTo (hl : s.Listed parseToken accessSecret header) {before : WsStage}
    (hstage : s.stage c = before) (huser : stage.user = before.user)
    (hcame : stage.came = before.came)
    (hclaimed : ∀ u, stage.claimed = some u →
      authenticate parseToken accessSecret (header c) = some u) :
    (s.goTo c stage).Listed parseToken accessSecret header := by
  have hsame : ∀ d, ((s.goTo c stage).stage d).user = (s.stage d).user ∧
      ((s.goTo c stage).stage d).came = (s.stage d).came := by
    intro d
    by_cases hd : d = c
    · subst hd
      simp [ChatWs.goTo,hstage,huser,hcame]
    · simp [ChatWs.goTo,hd]
  refine ⟨hl.hub,fun d u hd => ?_,fun u d => ?_,fun i loop d place hcall => ?_,fun u d htaken => ?_⟩
  · by_cases hdc : d = c
    · subst hdc
      exact hclaimed u (by simpa [ChatWs.goTo] using hd)
    · exact hl.claimed d u (by simpa [ChatWs.goTo,hdc] using hd)
  · rw [(hsame d).1]
    exact hl.listed u d
  · rw [(hsame d).2]
    exact hl.met i loop d place hcall
  · rw [(hsame d).2]
    exact hl.taken u d htaken

theorem ChatWs.Listed.onward (hl : s.Listed parseToken accessSecret header) {before : WsStage}
    (hstage : s.stage c = before) (huser : stage.user = before.user)
    (hcame : stage.came = before.came)
    (hclaimed : ∀ u, stage.claimed = some u → before.claimed = some u) :
    (s.goTo c stage).Listed parseToken accessSecret header :=
  hl.goTo hstage huser hcame fun u hu => hl.claimed c u (hstage ▸ hclaimed u hu)

/-- Neither a ping nor the end of a context touches the hub. -/
theorem ChatWs.Listed.beside (hl : s.Listed parseToken accessSecret header) (ping : κ → PingStage)
    (done : κ → Bool) :
    ({ s with ping := ping, done := done } : ChatWs ι κ).Listed parseToken accessSecret header :=
  ⟨hl.hub,hl.claimed,hl.listed,hl.met,hl.taken⟩

theorem ChatWs.Listed.call (hl : s.Listed parseToken accessSecret header)
    (hstep : Svc.next s.hub e = some w)
    (henter : ∀ u c, e ≠ .register u c) (hleave : ∀ u c, e ≠ .unregister u c) :
    ({ s with hub := w, past := s.past ++ [e] } : ChatWs ι κ).Listed parseToken
      accessSecret header := by
  refine ⟨hl.run hstep,hl.claimed,fun u c => ?_,fun i loop c place hcall => ?_,fun u c htaken => ?_⟩
  · have hdrops : (∃ i, e = .run i ∧ drops s.hub e = some (u,c)) ↔ drops s.hub e = some (u,c) := by
      refine exists_and_right.trans (and_iff_right_of_imp fun h => ?_)
      obtain ⟨i,-,-,he,-⟩ := drops_run h hleave
      exact ⟨i,he⟩
    rw [has_next hl.hub hstep,or_iff_right (henter u c),takenOut_concat hl.hub,hdrops,hl.listed]
    tauto
  · rcases writing_next (setsSound_run hl.hub) hstep hcall with ⟨place,hbefore⟩ | hhas
    · exact hl.met i loop c place hbefore
    · exact WsStage.came_of_user ((hl.listed _ _).mp hhas).1
  · rcases (takenOut_concat hl.hub).mp htaken with htaken | ⟨-,-,hdrops⟩
    · exact hl.taken u c htaken
    · obtain ⟨i,loop,l,-,hcall,rfl⟩ := drops_run hdrops hleave
      exact hl.met i loop c _ hcall

/-- What a handler does to the set of its user, no push is in the midst of. -/
theorem ChatWs.Listed.own (hl : s.Listed parseToken accessSecret header)
    (hstep : Svc.next s.hub e = some w) (hcalls : w.calls = s.hub.calls) (hrun : ∀ i, e ≠ .run i)
    (hclaimed : ∀ u, stage.claimed = some u → (s.stage c).claimed = some u)
    (hcame : ∀ u, (s.stage c).came = some u → stage.came = some u)
    (hothers : ∀ u d, d ≠ c → (w.hub.users.Has u d ↔ s.hub.hub.users.Has u d))
    (hhas : ∀ u, w.hub.users.Has u c ↔ stage.user = some u ∧ ¬ TakenOut u c s.past) :
    (ChatWs.goTo { s with hub := w, past := s.past ++ [e] } c stage).Listed parseToken
      accessSecret header := by
  have htaken : ∀ u d, TakenOut u d (s.past ++ [e]) ↔ TakenOut u d s.past := fun u d => by
    rw [takenOut_concat hl.hub,or_iff_left]
    rintro ⟨i,he,-⟩
    exact hrun i he
  have hgrown : ∀ d u, (s.stage d).came = some u →
      (Function.update s.stage c stage d).came = some u := by
    intro d u hd
    by_cases hdc : d = c
    · subst hdc
      rw [Function.update_self]
      exact hcame u hd
    · rwa [Function.update_of_ne hdc]
  refine ⟨hl.run hstep,fun d u hd => ?_,fun u d => ?_,
    fun i loop d place hcall => ?_,fun u d ht => ?_⟩
  · refine hl.claimed d u ?_
    by_cases hdc : d = c
    · subst hdc
      exact hclaimed u (by simpa [ChatWs.goTo] using hd)
    · simpa [ChatWs.goTo,hdc] using hd
  · change w.hub.users.Has u d ↔ (Function.update s.stage c stage d).user = some u ∧
      ¬ TakenOut u d (s.past ++ [e])
    rw [htaken]
    by_cases hdc : d = c
    · subst hdc
      rw [Function.update_self]
      exact hhas u
    · rw [hothers u d hdc,Function.update_of_ne hdc]
      exact hl.listed u d
  · refine hgrown d _ (hl.met i loop d place ?_)
    rw [← hcalls]
    exact hcall
  · exact hgrown d u (hl.taken u d ((htaken u d).mp ht))

end Handler

section Steps
variable {ι κ : Type} [DecidableEq ι] [DecidableEq κ]
  {parseToken : String → String → Except String (Option JwtPayLoad)} {accessSecret : String}
    {header : κ → Header}
  {s s' : ChatWs ι κ} {e : WsEvent (WsCaller ι κ) κ} {w : Callers (WsCaller ι κ) κ}
    {c : κ} {u : String}
  {stage : WsStage}

theorem ChatWs.Listed.register (hl : s.Listed parseToken accessSecret header)
    (hstage : s.stage c = .registering u) (hstep : Svc.next s.hub (.register u c) = some w) :
    (ChatWs.goTo { s with hub := w, past := s.past ++ [.register u c] } c (.registered u)).Listed
      parseToken accessSecret header := by
  have hcalls : w.calls = s.hub.calls := by
    cases hstep
    rfl
  have hhas : ∀ v d, w.hub.users.Has v d ↔ u = v ∧ c = d ∨ s.hub.hub.users.Has v d := fun v d => by
    rw [has_next hl.hub hstep]
    simp [drops]
  refine hl.own hstep hcalls (by simp) (fun v hv => ?_) (fun v hv => ?_)
    (fun v d hd => ?_) fun v => ?_
  · rw [hstage]
    exact hv
  · rw [hstage] at hv
    cases hv
  · rw [hhas,or_iff_right fun h => hd h.2.symm]
  · have hno : ¬ s.hub.hub.users.Has v c := fun h => by
      have huser := ((hl.listed v c).mp h).1
      rw [hstage] at huser
      cases huser
    have hnot : ¬ TakenOut v c s.past := fun h => by
      have hcame := hl.taken v c h
      rw [hstage] at hcame
      cases hcame
    rw [hhas,or_iff_left hno]
    simp [WsStage.user,hnot]

theorem ChatWs.Listed.unregister (hl : s.Listed parseToken accessSecret header)
    (hstage : s.stage c = .waiting u) (hstep : Svc.next s.hub (.unregister u c) = some w) :
    (ChatWs.goTo { s with hub := w, past := s.past ++ [.unregister u c] } c (.closing u)).Listed
      parseToken accessSecret header := by
  have hcalls : w.calls = s.hub.calls := by
    cases hstep
    rfl
  have hhas : ∀ v d, w.hub.users.Has v d ↔ ¬ (u = v ∧ c = d) ∧ s.hub.hub.users.Has v d :=
      fun v d => by
    rw [has_next hl.hub hstep]
    simp [drops]
  refine hl.own hstep hcalls (by simp) (fun v hv => ?_) (fun v hv => ?_)
    (fun v d hd => ?_) fun v => ?_
  · rw [hstage]
    exact hv
  · rw [hstage] at hv
    exact hv
  · rw [hhas,and_iff_right fun h => hd h.2.symm]
  · rw [hhas]
    refine iff_of_false (fun h => h.1 ⟨?_,rfl⟩) fun h => by cases h.1
    have huser := ((hl.listed v c).mp h.2).1
    rw [hstage] at huser
    exact Option.some.inj huser

/-- A handler and its goroutine are in `WithConnWrite` at their places only. -/
structure ChatWs.OwnCalls (s : ChatWs ι κ) : Prop where
  handler : ∀ c, (∀ u, s.stage c ≠ .greeting u) → s.hub.calls (.handler c) = .idle
  pinger : ∀ c, s.ping c ≠ .ticking → s.hub.calls (.pinger c) = .idle
  pinging : ∀ c, s.ping c = .ticking → ∃ u, s.stage c = .reading u ∨ s.stage c = .waiting u

omit [DecidableEq ι] in
theorem ChatWs.OwnCalls.goTo (ho : s.OwnCalls) (hidle : s.hub.calls (.handler c) = .idle)
    (hping : s.ping c = .ticking → ∃ u, stage = .reading u ∨ stage = .waiting u) :
    (s.goTo c stage).OwnCalls := by
  refine ⟨fun d hd => ?_,ho.pinger,fun d hd => ?_⟩
  · by_cases hdc : d = c
    · subst hdc
      exact hidle
    · exact ho.handler d fun v => by simpa [ChatWs.goTo,hdc] using hd v
  · by_cases hdc : d = c
    · subst hdc
      simpa [ChatWs.goTo] using hping hd
    · simpa [ChatWs.goTo,hdc] using ho.pinging d hd

omit [DecidableEq ι] in
theorem ChatWs.OwnCalls.onward (ho : s.OwnCalls) (hgreeting : ∀ u, s.stage c ≠ .greeting u)
    (hpinging : ∀ u, s.stage c ≠ .reading u ∧ s.stage c ≠ .waiting u) : (s.goTo c stage).OwnCalls :=
  ho.goTo (ho.handler c hgreeting) fun hping => by
    obtain ⟨u,h | h⟩ := ho.pinging c hping
    · exact absurd h (hpinging u).1
    · exact absurd h (hpinging u).2

theorem ChatWs.OwnCalls.hub (ho : s.OwnCalls) (hstep : Svc.next s.hub e = some w)
    (hown : ∀ c, e.caller ≠ some (.handler c) ∧ e.caller ≠ some (.pinger c)) :
    ({ s with hub := w, past := s.past ++ [e] } : ChatWs ι κ).OwnCalls where
  handler c hc := idle_next hstep (ho.handler c hc) (hown c).1
  pinger c hc := idle_next hstep (ho.pinger c hc) (hown c).2
  pinging := ho.pinging

theorem ChatWs.OwnCalls.greet (ho : s.OwnCalls) (hstage : s.stage c = .registered u)
    (hstep : Svc.next s.hub (.withConnWrite (.handler c) c) = some w) :
    (ChatWs.goTo { s with hub := w, past := s.past ++ [.withConnWrite (.handler c) c] } c
      (.greeting u)).OwnCalls := by
  refine ⟨fun d hd => ?_,fun d hd => ?_,fun d hd => ?_⟩
  · have hdc : d ≠ c := by
      rintro rfl
      exact hd u (by simp [ChatWs.goTo])
    refine idle_next hstep (ho.handler d fun v => by simpa [ChatWs.goTo,hdc] using hd v) ?_
    simp [WsEvent.caller,Ne.symm hdc]
  · exact idle_next hstep (ho.pinger d hd) (by simp [WsEvent.caller])
  · obtain ⟨v,hv⟩ := ho.pinging d hd
    have hdc : d ≠ c := by
      rintro rfl
      rw [hstage] at hv
      simp at hv
    exact ⟨v,by simpa [ChatWs.goTo,hdc] using hv⟩

theorem ChatWs.OwnCalls.tick (ho : s.OwnCalls) (hping : s.ping c = .ticking)
    (hstep : Svc.next s.hub (.withConnWrite (.pinger c) c) = some w) :
    ({ s with hub := w, past := s.past ++ [.withConnWrite (.pinger c) c] } :
      ChatWs ι κ).OwnCalls where
  handler d hd := idle_next hstep (ho.handler d hd) (by simp [WsEvent.caller])
  pinger d hd := idle_next hstep (ho.pinger d hd) fun h => hd (by
    simp only [WsEvent.caller,Option.some.injEq,WsCaller.pinger.injEq] at h
    exact h ▸ hping)
  pinging := ho.pinging

omit [DecidableEq ι] in
theorem ChatWs.OwnCalls.setPing (ho : s.OwnCalls) {ping : PingStage}
    (hidle : s.hub.calls (.pinger c) = .idle)
    (hstage : ping = .ticking → ∃ u, s.stage c = .reading u ∨ s.stage c = .waiting u) :
    (s.setPing c ping).OwnCalls := by
  refine ⟨ho.handler,fun d hd => ?_,fun d hd => ?_⟩
  · by_cases hdc : d = c
    · subst hdc
      exact hidle
    · exact ho.pinger d (by simpa [ChatWs.setPing,hdc] using hd)
  · by_cases hdc : d = c
    · subst hdc
      exact hstage (by simpa [ChatWs.setPing] using hd)
    · exact ho.pinging d (by simpa [ChatWs.setPing,hdc] using hd)

theorem ChatWs.hubStep_cases (hstep : s.hubStep e = some s') :
    ∃ w, Svc.next s.hub e = some w ∧ s' = { s with hub := w, past := s.past ++ [e] } := by
  rw [ChatWs.hubStep,Option.map_eq_some_iff] at hstep
  obtain ⟨w,hw,rfl⟩ := hstep
  exact ⟨w,hw,rfl⟩

theorem ChatWs.hubStep_goTo_cases (hstep : (s.hubStep e).map (·.goTo c stage) = some s') :
    ∃ w, Svc.next s.hub e = some w ∧ s' = ChatWs.goTo
      { s with hub := w, past := s.past ++ [e] } c stage := by
  obtain ⟨t,ht,rfl⟩ := Option.map_eq_some_iff.mp hstep
  obtain ⟨w,hw,rfl⟩ := ChatWs.hubStep_cases ht
  exact ⟨w,hw,rfl⟩

/-- Both of what a run keeps. -/
structure ChatWs.Sound (parseToken : String → String → Except String (Option JwtPayLoad))
    (accessSecret : String) (header : κ → Header) (s : ChatWs ι κ) : Prop where
  listed : s.Listed parseToken accessSecret header
  own : s.OwnCalls

theorem chatWs_sound_new : (newChatWs : ChatWs ι κ).Sound parseToken accessSecret header := by
  refine ⟨⟨rfl,fun c u h => ?_,fun u c => ?_,fun i loop c place h => ?_,fun u c h => ?_⟩,
    fun _ _ => rfl,fun _ _ => rfl,fun c h => ?_⟩
  · cases h
  · exact iff_of_false (not_has_noCalls u c) fun h => by cases h.1
  · cases h
  · obtain ⟨before,i,after,v,hsplit,-⟩ := h
    simp [newChatWs] at hsplit
  · cases h

theorem ChatWs.Sound.caller (hs : s.Sound parseToken accessSecret header)
    (hstep : s.hubStep e = some s')
    (henter : ∀ u c, e ≠ .register u c) (hleave : ∀ u c, e ≠ .unregister u c)
    (hown : ∀ c, e.caller ≠ some (.handler c) ∧ e.caller ≠ some (.pinger c)) :
    s'.Sound parseToken accessSecret header := by
  obtain ⟨w,hw,rfl⟩ := ChatWs.hubStep_cases hstep
  exact ⟨hs.listed.call hw henter hleave,hs.own.hub hw hown⟩

theorem ChatWs.Sound.proceed (hs : s.Sound parseToken accessSecret header)
    (hstep : s.proceed c = some s') :
    s'.Sound parseToken accessSecret header := by
  unfold ChatWs.proceed at hstep
  split at hstep
  · rename_i u hstage
    obtain ⟨w,hw,rfl⟩ := ChatWs.hubStep_goTo_cases hstep
    refine ⟨hs.listed.register hstage hw,
      (hs.own.hub hw (by simp [WsEvent.caller])).onward ?_ ?_⟩ <;> simp [hstage]
  · rename_i u hstage
    obtain ⟨w,hw,rfl⟩ := ChatWs.hubStep_goTo_cases hstep
    have hl := hs.listed.call hw (by simp) (by simp)
    exact ⟨hl.onward hstage rfl rfl fun _ h => h,hs.own.greet hstage hw⟩
  · rename_i u hstage
    split at hstep
    · rename_i hidle
      cases hstep
      have hping : s.ping c ≠ .ticking := fun h => by
        obtain ⟨v,hv⟩ := hs.own.pinging c h
        rw [hstage] at hv
        simp at hv
      have ho : (s.goTo c (.reading u)).OwnCalls := hs.own.goTo hidle fun h => absurd h hping
      have hl : (s.goTo c (.reading u)).Listed parseToken accessSecret header :=
        hs.listed.onward hstage rfl rfl fun _ h => h
      exact ⟨hl.beside _ _,ho.setPing (hs.own.pinger c hping) fun _ =>
        ⟨u,.inl (by simp [ChatWs.goTo])⟩⟩
    · cases hstep
  · rename_i u hstage
    split at hstep
    · rename_i hreturned
      obtain ⟨w,hw,rfl⟩ := ChatWs.hubStep_goTo_cases hstep
      refine ⟨hs.listed.unregister hstage hw,(hs.own.hub hw (by simp [WsEvent.caller])).goTo
        (idle_next hw (hs.own.handler c (by simp [hstage])) (by simp [WsEvent.caller])) fun h => ?_⟩
      cases hreturned.symm.trans h
    · cases hstep
  · rename_i u hstage
    cases hstep
    exact ⟨hs.listed.onward hstage rfl rfl fun _ h =>
      h,hs.own.onward (by simp [hstage]) (by simp [hstage])⟩
  · cases hstep

theorem ChatWs.Sound.next (hs : s.Sound parseToken accessSecret header) {a : ChatWsEvent ι κ}
    (hstep : s.next parseToken accessSecret header a = some s') :
    s'.Sound parseToken accessSecret header := by
  cases a with
  | authenticate c =>
    simp only [ChatWs.next] at hstep
    split at hstep
    · rename_i hstage
      have ho : ∀ stage, (s.goTo c stage).OwnCalls :=
        fun _ => hs.own.onward (by simp [hstage]) (by simp [hstage])
      split at hstep
      · rename_i u hu
        cases hstep
        refine ⟨hs.listed.goTo hstage rfl rfl fun v hv => ?_,ho _⟩
        rw [hu]
        exact hv
      · cases hstep
        exact ⟨hs.listed.onward hstage rfl rfl fun _ h => h,ho _⟩
    · cases hstep
  | upgrade c ok =>
    simp only [ChatWs.next] at hstep
    split at hstep
    · rename_i u hstage
      cases hstep
      have ho : ∀ stage, (s.goTo c stage).OwnCalls :=
        fun _ => hs.own.onward (by simp [hstage]) (by simp [hstage])
      cases ok with
      | true => exact ⟨hs.listed.onward hstage rfl rfl fun _ h => h,ho _⟩
      | false => exact ⟨hs.listed.onward hstage rfl rfl fun _ h => (by cases h),ho _⟩
    · cases hstep
  | proceed c => exact hs.proceed hstep
  | readFails c =>
    simp only [ChatWs.next] at hstep
    split at hstep
    · rename_i u hstage
      cases hstep
      exact ⟨hs.listed.onward hstage rfl rfl fun _ h => h,
        hs.own.goTo (hs.own.handler c (by simp [hstage])) fun _ => ⟨u,.inr rfl⟩⟩
    · cases hstep
  | contextDone c =>
    cases hstep
    exact ⟨hs.listed.beside _ _,⟨hs.own.handler,hs.own.pinger,hs.own.pinging⟩⟩
  | tick c =>
    simp only [ChatWs.next] at hstep
    split at hstep
    · rename_i hping
      obtain ⟨w,hw,rfl⟩ := ChatWs.hubStep_cases hstep
      exact ⟨hs.listed.call hw (by simp) (by simp),hs.own.tick hping hw⟩
    · cases hstep
  | stopPinging c =>
    simp only [ChatWs.next] at hstep
    split at hstep
    · rename_i hstop
      cases hstep
      exact ⟨hs.listed.beside _ _,hs.own.setPing hstop.2.2 fun h => by cases h⟩
    · cases hstep
  | sendJSON i u => exact hs.caller hstep (by simp) (by simp) (by simp [WsEvent.caller])
  | range i c => exact hs.caller hstep (by simp) (by simp) (by simp [WsEvent.caller])
  | written i ok => exact hs.caller hstep (by simp) (by simp) (by simp [WsEvent.caller])
  | run i => exact hs.caller hstep (by simp) (by simp) (by simp [WsEvent.caller])

theorem chatWs_sound_run {events : List (ChatWsEvent ι κ)}
    (hrun : runChatWs parseToken accessSecret header newChatWs events = some s) :
    s.Sound parseToken accessSecret header :=
  runs_keep (C := fun _ _ => True) chatWs_sound_new (fun _ _ _ hs _ hstep => hs.next hstep) events
    (fun _ _ _ _ _ _ => trivial) hrun

/-- What a step adds to what has been done to the hub. -/
theorem ChatWs.next_past {a : ChatWsEvent ι κ}
    (hstep : s.next parseToken accessSecret header a = some s') :
    s'.past = s.past ∨ ∃ e, s'.past = s.past ++ [e] ∧
      (∀ i, e.caller = some (.pusher i) → ∃ u, a = .sendJSON i u) ∧ ∀ i ok, e = .written i ok →
        a = .written i ok := by
  cases a with
  | authenticate c =>
    simp only [ChatWs.next] at hstep
    split at hstep
    · split at hstep <;> cases hstep <;> exact .inl rfl
    · cases hstep
  | upgrade c ok | readFails c =>
    simp only [ChatWs.next] at hstep
    split at hstep
    · cases hstep
      exact .inl rfl
    · cases hstep
  | proceed c =>
    simp only [ChatWs.next,ChatWs.proceed] at hstep
    split at hstep
    · obtain ⟨w,-,rfl⟩ := ChatWs.hubStep_goTo_cases hstep
      exact .inr ⟨_,rfl,by simp [WsEvent.caller],by simp⟩
    · obtain ⟨w,-,rfl⟩ := ChatWs.hubStep_goTo_cases hstep
      exact .inr ⟨_,rfl,by simp [WsEvent.caller],by simp⟩
    · split at hstep <;> cases hstep
      exact .inl rfl
    · split at hstep
      · obtain ⟨w,-,rfl⟩ := ChatWs.hubStep_goTo_cases hstep
        exact .inr ⟨_,rfl,by simp [WsEvent.caller],by simp⟩
      · cases hstep
    · cases hstep
      exact .inl rfl
    · cases hstep
  | contextDone c =>
    cases hstep
    exact .inl rfl
  | tick c =>
    simp only [ChatWs.next] at hstep
    split at hstep
    · obtain ⟨w,-,rfl⟩ := ChatWs.hubStep_cases hstep
      exact .inr ⟨_,rfl,by simp [WsEvent.caller],by simp⟩
    · cases hstep
  | stopPinging c =>
    simp only [ChatWs.next] at hstep
    split at hstep <;> cases hstep
    exact .inl rfl
  | sendJSON i u | range i c | written i ok | run i =>
    obtain ⟨w,-,rfl⟩ := ChatWs.hubStep_cases hstep
    exact .inr ⟨_,rfl,by simp [WsEvent.caller],by simp⟩

theorem ChatWs.run_past {t : ChatWs ι κ} {mid : List (ChatWsEvent ι κ)}
    (hrun : runChatWs parseToken accessSecret header t mid = some s) :
    ∃ m, s.past = t.past ++ m ∧ (∀ e ∈ m, ∀ i, e.caller = some (.pusher i) →
      ∃ u, .sendJSON i u ∈ mid) ∧
      ∀ p e r, m = p ++ e :: r → ∃ p' a r' x, mid = p' ++ a :: r' ∧
        runChatWs parseToken accessSecret header t p' = some x ∧ x.past = t.past ++ p ∧
        ∀ i ok, e = .written i ok → a = .written i ok := by
  induction mid using List.reverseRecOn generalizing s with
  | nil =>
    cases hrun
    exact ⟨[],(List.append_nil _).symm,by simp,by simp⟩
  | append_singleton mid a ih =>
    rw [runChatWs,runs_concat,Option.bind_eq_some_iff] at hrun
    obtain ⟨y,hbefore,hstep⟩ := hrun
    obtain ⟨m,hm,hcallers,hsplits⟩ := ih hbefore
    have hearlier : ∀ p e r, m = p ++ e :: r → ∃ p' b r' x, mid ++ [a] = p' ++ b :: r' ∧
        runChatWs parseToken accessSecret header t p' = some x ∧ x.past = t.past ++ p ∧
        ∀ i ok, e = .written i ok → b = .written i ok := by
      intro p e r hp
      obtain ⟨p',b,r',x,rfl,hx⟩ := hsplits p e r hp
      exact ⟨p',b,r' ++ [a],x,by rw [List.append_assoc]; rfl,hx⟩
    have hsent : ∀ e ∈ m, ∀ i, e.caller = some (.pusher i) → ∃ u, .sendJSON i u ∈ mid ++ [a] := by
      intro e he i hcaller
      obtain ⟨u,hu⟩ := hcallers e he i hcaller
      exact ⟨u,List.mem_append_left _ hu⟩
    rcases ChatWs.next_past hstep with hsame | ⟨d,hadded,hpusher,hwritten⟩
    · exact ⟨m,hsame.trans hm,hsent,hearlier⟩
    · refine ⟨m ++ [d],by rw [hadded,hm,List.append_assoc],fun e he i hcaller => ?_,
        fun p e r hp => ?_⟩
      · rcases List.mem_append.mp he with he | he
        · exact hsent e he i hcaller
        · cases List.mem_singleton.mp he
          obtain ⟨u,rfl⟩ := hpusher i hcaller
          exact ⟨u,List.mem_append_right _ List.mem_cons_self⟩
      · induction r using List.reverseRecOn with
        | nil =>
          obtain ⟨rfl,heq⟩ := List.append_inj' hp rfl
          cases heq
          exact ⟨mid,a,[],y,rfl,hbefore,hm,hwritten⟩
        | append_singleton r f _ =>
          rw [← List.cons_append,← List.append_assoc] at hp
          exact hearlier p e r (List.append_inj' hp rfl).1

/-- One request with a token and one without. -/
def anneOrNobody (bearer : Bool) (key : String) : List String :=
  if bearer ∧ key = "Authorization" then ["bearer anne"] else []

/-- The token is the user. -/
def readToken (token _accessSecret : String) : Except String (Option JwtPayLoad) :=
  .ok (some ⟨"",token⟩)

/-- One comes in and one is refused. -/
def anneComesIn : List (ChatWsEvent Unit Bool) :=
  [.authenticate false,.authenticate true,.upgrade true true,.proceed true,.proceed true,
    .run (.handler true),
    .run (.handler true),.written (.handler true) true,.run (.handler true),.proceed true]

/-- A push comes to the one that is in, and returns. -/
def pushComes : List (ChatWsEvent Unit Bool) := [.run (.pusher ()),.run (.pusher ()),.range () true]

def pushReturns : List (ChatWsEvent Unit Bool) :=
  pushComes ++ [.run (.pusher ()),.run (.pusher ()),.written (.pusher ()) true,
    .run (.pusher ()),.run (.pusher ())]

variable (parseToken accessSecret header)

/-- A connection is in the hub for the user of the token of its request, from `Register` to
`Unregister`, unless the clean-up of a push has taken it out. A push to a user is at no
other connection, and with `Unregister` the handler and its goroutine are done with theirs. -/
theorem hub_holds_token_bearers (events : List (ChatWsEvent ι κ)) (s : ChatWs ι κ)
    (hrun : runChatWs parseToken accessSecret header newChatWs events = some s) :
    (∀ u c, s.hub.hub.users.Has u c ↔ (s.stage c).user = some u ∧ ¬ TakenOut u c s.past) ∧
      (∀ c u, (s.stage c).claimed = some u →
        authenticate parseToken accessSecret (header c) = some u) ∧
      (∀ i loop c place, s.hub.calls i = .writing (some loop) c place →
        authenticate parseToken accessSecret (header c) = some loop.uuid) ∧
      ∀ c u, s.stage c = .closing u ∨ s.stage c = .ended u →
        s.hub.calls (.handler c) = .idle ∧ s.hub.calls (.pinger c) = .idle := by
  have hs := chatWs_sound_run hrun
  refine ⟨hs.listed.listed,hs.listed.claimed,fun i loop c place hcall => ?_,
    fun c u hstage => ⟨?_,?_⟩⟩
  · exact hs.listed.claimed c _ (WsStage.claimed_of_came (hs.listed.met i loop c place hcall))
  · refine hs.own.handler c fun v hv => ?_
    rw [hv] at hstage
    simp at hstage
  · refine hs.own.pinger c fun hping => ?_
    obtain ⟨v,hv⟩ := hs.own.pinging c hping
    rcases hstage with hstage | hstage <;> simp [hstage] at hv

theorem hub_holds_token_bearers_push_comes :
    ∃ s, runChatWs readToken "" anneOrNobody newChatWs
      (anneComesIn ++ .sendJSON () "anne" :: pushComes) = some s ∧
      s.stage false = .refused ∧ s.stage true = .reading "anne" ∧
      authenticate readToken "" (anneOrNobody true) = some "anne" := by
  have hrun : (runChatWs readToken "" anneOrNobody newChatWs
    (anneComesIn ++ .sendJSON () "anne" :: pushComes)).map
      (fun s => (s.stage false,s.stage true,s.hub.calls (.pusher ()))) =
        some (.refused,.reading "anne",.writing (some ⟨"anne",0,[]⟩) true .lookup) := by
    decide +kernel
  rw [Option.map_eq_some_iff] at hrun
  obtain ⟨s,hs,hfound⟩ := hrun
  simp only [Prod.mk.injEq] at hfound
  obtain ⟨hrefused,hreading,hcall⟩ := hfound
  have hpush := (hub_holds_token_bearers readToken "" anneOrNobody _ s hs).2.2.1
  exact ⟨s,hs,hrefused,hreading,hpush _ _ _ _ hcall⟩

/-- A connection that stays with its handler, and that no push takes out, is written to by
every push to its user. -/
theorem connected_hears_push (before mid : List (ChatWsEvent ι κ)) (i : ι) (u : String)
    (c : κ) (s : ChatWs ι κ)
    (hrun : runChatWs parseToken accessSecret header newChatWs
      (before ++ .sendJSON i u :: mid) = some s)
    (honce : ∀ v, .sendJSON i v ∉ mid) (hreturned : s.hub.calls (.pusher i) = .idle)
    (hconnected : ∀ past rest t, mid = past ++ rest →
      runChatWs parseToken accessSecret header newChatWs
        (before ++ .sendJSON i u :: past) = some t →
      (t.stage c).user = some u ∧ ¬ TakenOut u c t.past) :
    ∃ past ok rest t loop l, mid = past ++ .written (.pusher i) ok :: rest ∧
      runChatWs parseToken accessSecret header newChatWs
        (before ++ .sendJSON i u :: past) = some t ∧
      t.hub.calls (.pusher i) = .writing loop c (.inside l) := by
  have hs := chatWs_sound_run hrun
  have hjoined :
      runChatWs parseToken accessSecret header newChatWs
      (before ++ [.sendJSON i u] ++ mid) = some s := by
    rw [List.append_assoc]
    exact hrun
  obtain ⟨v,hv⟩ := runs_initial hjoined
  have hafter : ∀ past, runChatWs parseToken accessSecret header newChatWs
    (before ++ .sendJSON i u :: past) =
      runChatWs parseToken accessSecret header v past := fun past => by
    rw [← List.singleton_append,← List.append_assoc,runChatWs,List.foldlM_append,hv]
    rfl
  obtain ⟨m,hm,hcallers,hsplits⟩ := ChatWs.run_past ((hafter mid).symm.trans hrun)
  obtain ⟨b,hb⟩ : ∃ b, v.past = b ++ [.sendJSON (.pusher i) u] := by
    rw [runs_concat,Option.bind_eq_some_iff] at hv
    obtain ⟨y,-,hstep⟩ := hv
    obtain ⟨w,-,rfl⟩ := ChatWs.hubStep_cases hstep
    exact ⟨_,rfl⟩
  -- every state of the hub in the course of the call is that of a state of the handlers
  have hmet : ∀ past rest t, mid = past ++ rest →
    runChatWs parseToken accessSecret header v past = some t →
      RegisteredFor u c t.past := by
    intro past rest t hmid ht
    rw [← hafter past] at ht
    have htsound := chatWs_sound_run ht
    exact (has_iff_registeredFor htsound.listed.hub).mp
      ((htsound.listed.listed u c).mpr (hconnected past rest t hmid ht))
  have hreg : ∀ past rest, m = past ++ rest →
      RegisteredFor u c (b ++ .sendJSON (.pusher i) u :: past) := by
    intro past rest hsplit
    rw [← List.singleton_append,← List.append_assoc,← hb]
    cases rest with
    | nil =>
      rw [List.append_nil] at hsplit
      rw [← hsplit,← hm]
      exact hmet mid [] s (List.append_nil _).symm ((hafter mid).symm.trans hrun)
    | cons e rest =>
      obtain ⟨p,a,r,x,hmid,hx,hpast,-⟩ := hsplits past e rest hsplit
      rw [← hpast]
      exact hmet p (a :: r) x hmid hx
  have hhub : runCallers noCalls (b ++ .sendJSON (.pusher i) u :: m) = some s.hub := by
    rw [← List.singleton_append,← List.append_assoc,← hb,← hm]
    exact hs.listed.hub
  have hown : ∀ e ∈ m, e.caller ≠ some (.pusher i) := by
    intro e he hcaller
    obtain ⟨v,hv⟩ := hcallers e he i hcaller
    exact honce v hv
  rcases writesTo_or_owes hhub hown hreg with ⟨past,ok,rest,hsplit,w,loop,l,hw,
    hcall⟩ | ⟨set,-,howes⟩
  · obtain ⟨p,a,r,x,hmid,hx,hpast,hwritten⟩ := hsplits past _ rest hsplit
    cases hwritten _ _ rfl
    have hxrun := (hafter p).trans hx
    refine ⟨p,ok,r,x,loop,l,hmid,hxrun,?_⟩
    have hsame := (chatWs_sound_run hxrun).listed.hub
    rw [hpast,hb,hw] at hsame
    cases hsame
    exact hcall
  · rw [hreturned] at howes
    exact howes.elim

theorem connected_hears_push_push_returns :
    ∃ past ok rest t loop l, pushReturns = past ++ .written (.pusher ()) ok :: rest ∧
      runChatWs readToken "" anneOrNobody newChatWs
        (anneComesIn ++ .sendJSON () "anne" :: past) = some t ∧
      t.hub.calls (.pusher ()) = .writing loop true (.inside l) := by
  have hrun : (runChatWs readToken "" anneOrNobody newChatWs
    (anneComesIn ++ .sendJSON () "anne" :: pushReturns)).map
      (fun s => s.hub.calls (.pusher ())) = some .idle := by decide +kernel
  obtain ⟨s,hs,hidle⟩ := Option.map_eq_some_iff.mp hrun
  have hstays : ∀ past ∈ pushReturns.inits,
      (runChatWs readToken "" anneOrNobody newChatWs
        (anneComesIn ++ .sendJSON () "anne" :: past)).map
        (fun t => (t.hub.hub.byUUID "anne",decide (true ∈ t.hub.hub.sets.getD 0 []))) =
            some (some 0,true) := by
    decide +kernel
  refine connected_hears_push readToken "" anneOrNobody anneComesIn pushReturns () "anne" true s hs
    (by simp [pushReturns,pushComes]) hidle fun past rest t hsplit ht => ?_
  have hin := hstays past ((List.mem_inits _ _).mpr ⟨rest,hsplit.symm⟩)
  rw [ht,Option.map_some,Option.some.injEq,Prod.mk.injEq,decide_eq_true_eq] at hin
  exact ((chatWs_sound_run ht).listed.listed "anne" true).mp ⟨0,hin⟩

end Steps

end Imy.Svc
