import Imy.Lib.Staged
import Imy.Auth.Logic
set_option autoImplicit false

namespace Imy.Auth
open Imy.Lib

inductive AuthCall where
  | check (req : AuthCheckReq)
  | login (req : EmailPasswordLoginReq)

def AuthCall.main (cfg : AuthConfig) : AuthCall → AuthM AuthResponse
  | .check req => authCheck cfg req
  | .login req => emailPasswordLogin cfg req

inductive AuthStage where
  | get (token uuid : String)
  | stamp (token uuid : String) (session : Session)
  | put (uuid : String) (session : Session)
  | take (req : EmailPasswordLoginReq)
  | sign (u : User)
  | date (u : User) (token : String)
  | store (u : User) (token : String) (session : Session)
  | respond (result : Except AuthErr AuthResponse)
  | ended (result : Except AuthErr AuthResponse)

namespace AuthStage
variable (cfg : AuthConfig)

def main : AuthStage → AuthM AuthResponse
  | .get token uuid => do compareToken cfg token uuid (← ask (.redisGet (loginKey uuid)))
  | .stamp token uuid session => touchSession cfg token uuid session
  | .put uuid session => do
    ask (.redisSet (loginKey uuid) (.object session))
    return .checked uuid
  | .take req => do
    match ← ask (.takeUser req.email) with
    | .error .recordNotFound => .fail .userNotFund
    | .error e => .fail (.dataQueryFail e)
    | .ok u =>
      if cfg.pwdVerify req.password u.password = false then .fail .invalidParam
          else issueToken cfg u
  | .sign u => issueToken cfg u
  | .date u token => storeSession cfg u token
  | .store u token session => do
    ask (.redisSet (loginKey u.uuid) (.object session))
    return .login u.uuid token
  | .respond (.ok response) | .ended (.ok response) => return response
  | .respond (.error e) | .ended (.error e) => .fail e

def program : AuthStage → AuthM Unit
  | .ended _ => return
  | st => serve (main cfg st)

def compared (token uuid : String) : Option SessionText → AuthStage
  | none => .respond (.error .tokenUseless)
  | some .malformed => .respond (.error .session)
  | some (.object session) =>
    match session "token" with
    | none => .respond (.error .tokenExpire)
    | some .other => .respond (.error .panicked)
    | some (.text storeToken) =>
      if token ≠ storeToken then .respond (.error .tokenExpire) else .stamp token uuid session

def verified (req : EmailPasswordLoginReq) : Except DBError User → AuthStage
  | .error .recordNotFound => .respond (.error .userNotFund)
  | .error e => .respond (.error (.dataQueryFail e))
  | .ok u =>
    if cfg.pwdVerify req.password u.password = false then
        .respond (.error .invalidParam) else .sign u

def signed (u : User) (now : Int) : AuthStage :=
  match cfg.genToken now ⟨u.nickName,u.uuid⟩ with
  | .error e => .respond (.error (.tokenFailed e))
  | .ok token => .date u token

def script : Script AuthStmt AuthStmt.Answer AuthStage
  | .get token uuid => some ⟨.redisGet (loginKey uuid),compared token uuid⟩
  | .stamp token uuid session =>
    some ⟨.now,fun now => .put uuid (session.touched token (cfg.format now))⟩
  | .put uuid session =>
    some ⟨.redisSet (loginKey uuid) (.object session),fun _ => .respond (.ok (.checked uuid))⟩
  | .take req => some ⟨.takeUser req.email,verified cfg req⟩
  | .sign u => some ⟨.now,signed cfg u⟩
  | .date u token => some ⟨.now,fun now => .store u token (u.session token (cfg.format now))⟩
  | .store u token session =>
    some ⟨.redisSet (loginKey u.uuid) (.object session),fun _ =>
      .respond (.ok (.login u.uuid token))⟩
  | .respond result => some ⟨.respond result,fun _ => .ended result⟩
  | .ended _ => none

theorem program_compared (token uuid : String) (answer : Option SessionText) :
    program cfg (compared token uuid answer) = serve (compareToken cfg token uuid answer) := by
  rcases answer with _ | (session | _)
  · rfl
  · simp only [compared,compareToken]
    rcases session "token" with _ | (storeToken | _)
    · rfl
    · dsimp only
      split <;> rfl
    · rfl
  · rfl

theorem program_signed (u : User) (now : Int) :
    program cfg (signed cfg u now) = serve (match cfg.genToken now ⟨u.nickName,u.uuid⟩ with
      | .error e => .fail (.tokenFailed e)
      | .ok token => storeSession cfg u token) := by
  rw [signed]
  split <;> rfl

theorem follows : Follows (program cfg) (script cfg) := by
  intro st
  cases st with
  | get token uuid =>
    exact congrArg (Prog.ask _) (funext fun answer => (program_compared cfg token uuid answer).symm)
  | stamp token uuid session => rfl
  | put uuid session => rfl
  | take req =>
    refine congrArg (Prog.ask _) (funext fun answer => ?_)
    rcases answer with (_ | _) | u
    · rfl
    · rfl
    · change serve (if cfg.pwdVerify req.password u.password = false then .fail .invalidParam
        else issueToken cfg u) = program cfg (if cfg.pwdVerify req.password u.password = false then
          .respond (.error .invalidParam) else .sign u)
      split <;> rfl
  | sign u => exact congrArg (Prog.ask _) (funext fun now => (program_signed cfg u now).symm)
  | date u token => rfl
  | store u token session => rfl
  | respond result => cases result <;> rfl
  | ended result => exact fun q k h => by cases h

def first : AuthCall → AuthStage
  | .check req =>
    if cfg.open_ req.validPath then .respond (.ok .none)
    else if req.token = "" then .respond (.error .tokenNil)
    else
      match cfg.parseToken req.token with
      | .error e => .respond (.error (.tokenFailed e))
      | .ok claims => .get req.token claims.uuid
  | .login req =>
    if req.email = "" ∨ req.password = "" then .respond (.error .invalidParam) else .take req

theorem serve_call (call : AuthCall) : serve (call.main cfg) = program cfg (first cfg call) := by
  cases call with
  | check req =>
    rw [first,AuthCall.main,authCheck]
    split
    · rfl
    split
    · rfl
    cases cfg.parseToken req.token <;> rfl
  | login req =>
    rw [first,AuthCall.main,emailPasswordLogin]
    split <;> rfl

end AuthStage

section Runs
variable {ι : Type} [DecidableEq ι] (cfg : AuthConfig)

def Holding (calls : ι → AuthCall) (p : AuthCalls ι) (uuid : String) (i : ι) : Prop :=
  ∃ req claims, calls i = .check req ∧ cfg.parseToken req.token = .ok claims ∧ claims.uuid = uuid ∧
    ((∃ k, p.threads i = .ask .now k) ∨ ∃ key value k, p.threads i = .ask (.redisSet key value) k)

end Runs

/-- The token of the session in Redis. -/
def TokenIs (s : AuthState) (uuid token : String) : Prop :=
  ∃ session, s.redis (loginKey uuid) = some (.object session) ∧ session "token" = some (.text token)

theorem TokenIs.unique {s : AuthState} {uuid token token' : String} (h : TokenIs s uuid token)
    (h' : TokenIs s uuid token') : token = token' := by
  obtain ⟨session,hredis,htoken⟩ := h
  obtain ⟨session',hredis',htoken'⟩ := h'
  rw [hredis] at hredis'
  cases hredis'
  rw [htoken] at htoken'
  cases htoken'
  rfl

theorem loginKey_inj {uuid uuid' : String} : loginKey uuid = loginKey uuid' ↔ uuid = uuid' := by
  constructor
  · intro h
    have hlists := congrArg String.toList h
    simp only [loginKey,String.toList_append] at hlists
    exact String.toList_injective (List.append_cancel_left hlists)
  · exact congrArg loginKey

theorem touched_token (session : Session) (token time : String) :
    session.touched token time "token" = some (.text token) := by
  rw [Session.touched,Function.update_of_ne (by decide),Function.update_self]

namespace AuthStage
variable (cfg : AuthConfig)

/-- The check has accepted the session of the user and is to write it back. -/
def Holds (uuid : String) : AuthStage → Prop
  | .stamp _ uuid' _ | .put uuid' _ => uuid' = uuid
  | _ => False

def CheckOf (req : AuthCheckReq) : AuthStage → Prop
  | .get token uuid | .stamp token uuid _ =>
    token = req.token ∧ ∃ claims, cfg.parseToken req.token = .ok claims ∧ claims.uuid = uuid
  | .put uuid session => session "token" = some (.text req.token) ∧
    ∃ claims, cfg.parseToken req.token = .ok claims ∧ claims.uuid = uuid
  | .respond _ | .ended _ => True
  | _ => False

def LoginOf : AuthStage → Prop
  | .get _ _ | .stamp _ _ _ | .put _ _ => False
  | .store _ token session => session "token" = some (.text token)
  | _ => True

variable {cfg}

theorem compared_cases (token uuid : String) (answer : Option SessionText) :
    (∃ e, compared token uuid answer = .respond (.error e)) ∨
      ∃ session, answer = some (.object session) ∧ session "token" = some (.text token) ∧
        compared token uuid answer = .stamp token uuid session := by
  rcases answer with _ | (session | _)
  · exact Or.inl ⟨_,rfl⟩
  · cases htoken : session "token" with
    | none => exact Or.inl ⟨.tokenExpire,by simp only [compared,htoken]⟩
    | some value =>
      cases value with
      | other => exact Or.inl ⟨.panicked,by simp only [compared,htoken]⟩
      | text storeToken =>
        by_cases hsame : token = storeToken
        · subst hsame
          exact Or.inr ⟨session,rfl,htoken,by simp [compared,htoken]⟩
        · exact Or.inl ⟨.tokenExpire,by simp [compared,htoken,hsame]⟩
  · exact Or.inl ⟨_,rfl⟩

inductive CheckStep (uuid : String) (req : AuthCheckReq) (s s' : AuthState) :
    AuthStage → AuthStage →
    Prop
  | quiet {st st' : AuthStage} (redis : s'.redis = s.redis) (gone : ¬ Holds uuid st)
      (held : Holds uuid st' → TokenIs s uuid req.token) : CheckStep uuid req s s' st st'
  | stamped {st st' : AuthStage} (redis : s'.redis = s.redis) (held : Holds uuid st)
      (holds : Holds uuid st') : CheckStep uuid req s s' st st'
  | wrote {uuid' : String} {session : Session} (token : session "token" = some (.text req.token))
      (redis : s'.redis = Function.update s.redis (loginKey uuid') (some (.object session))) :
      CheckStep uuid req s s' (.put uuid' session) (.respond (.ok (.checked uuid')))

abbrev AuthScene (ι : Type) := Scene ι AuthStmt AuthStage AuthState

section Steps
variable {ι : Type} [DecidableEq ι] {sc : AuthScene ι} {i : ι} {req : AuthCheckReq}

theorem CheckOf.step (h : CheckOf cfg req (sc.stages i)) (uuid : String) :
    CheckOf cfg req ((sc.next (script cfg) (exec cfg) i).stages i) ∧
      CheckStep uuid req sc.state (sc.next (script cfg) (exec cfg) i).state (sc.stages i)
        ((sc.next (script cfg) (exec cfg) i).stages i) := by
  cases hst : sc.stages i with
  | get token uuid' =>
    rw [hst] at h
    obtain ⟨rfl,hclaims⟩ := h
    have hscript : script cfg (sc.stages i) =
        some ⟨.redisGet (loginKey uuid'),compared req.token uuid'⟩ := by rw [hst]; rfl
    rw [Scene.next_of_some hscript]
    simp only [exec,Function.update_self]
    rcases compared_cases req.token uuid' (sc.state.redis (loginKey uuid')) with
      ⟨e,hcompared⟩ | ⟨session,hredis,htoken,hcompared⟩
    · rw [hcompared]
      exact ⟨trivial,.quiet rfl id fun hb => hb.elim⟩
    · rw [hcompared]
      refine ⟨⟨rfl,hclaims⟩,.quiet rfl id ?_⟩
      rintro rfl
      exact ⟨session,hredis,htoken⟩
  | stamp token uuid' session =>
    rw [hst] at h
    obtain ⟨rfl,hclaims⟩ := h
    have hscript : script cfg (sc.stages i) =
        some ⟨.now,fun now => .put uuid' (session.touched req.token (cfg.format now))⟩ := by
      rw [hst]
      rfl
    rw [Scene.next_of_some hscript]
    simp only [exec,Function.update_self]
    refine ⟨⟨touched_token _ _ _,hclaims⟩,?_⟩
    by_cases hu : uuid' = uuid
    · exact .stamped rfl hu hu
    · exact .quiet rfl hu fun hb => (hu hb).elim
  | put uuid' session =>
    rw [hst] at h
    have hscript : script cfg (sc.stages i) = some ⟨.redisSet (loginKey uuid') (.object session),
        fun _ => .respond (.ok (.checked uuid'))⟩ := by
      rw [hst]
      rfl
    rw [Scene.next_of_some hscript]
    simp only [exec,Function.update_self]
    exact ⟨trivial,.wrote h.1 rfl⟩
  | respond result =>
    have hscript : script cfg (sc.stages i) = some ⟨.respond result,fun _ => .ended result⟩ := by
      rw [hst]
      rfl
    rw [Scene.next_of_some hscript]
    simp only [exec,Function.update_self]
    exact ⟨trivial,.quiet rfl id fun hb => hb.elim⟩
  | ended result =>
    rw [Scene.next_of_none (by rw [hst]; rfl),hst]
    exact ⟨trivial,.quiet rfl id fun hb => hb.elim⟩
  | _ =>
    rw [hst] at h
    exact h.elim

/-- An answer is the last thing that a call does. -/
def Answered (sc : AuthScene ι) : Prop :=
  ∀ i result, (i,.respond result) ∈ sc.log → sc.stages i = .ended result

theorem Answered.next (h : Answered sc) (i : ι) : Answered (sc.next (script cfg) (exec cfg) i) := by
  cases hscript : script cfg (sc.stages i) with
  | none => rwa [Scene.next_of_none hscript]
  | some e =>
    rw [Scene.next_of_some hscript]
    intro j result hin
    simp only
    rcases List.mem_append.mp hin with hin | hin
    · have hended := h j result hin
      by_cases hji : j = i
      · subst hji
        rw [hended] at hscript
        cases hscript
      · rwa [Function.update_of_ne hji]
    · obtain ⟨rfl,hq⟩ := Prod.mk.inj (List.mem_singleton.mp hin)
      rw [Function.update_self]
      cases hst : sc.stages j with
      | respond result' =>
        rw [hst] at hscript
        cases hscript
        cases hq
        rfl
      | ended result' =>
        rw [hst] at hscript
        cases hscript
      | _ =>
        rw [hst] at hscript
        cases hscript
        cases hq

def Stored (uuid token : String) (st : AuthStage) : Prop :=
  st = .respond (.ok (.login uuid token)) ∨ st = .ended (.ok (.login uuid token))

def Past : AuthStage → Prop
  | .respond _ | .ended _ => True
  | _ => False

inductive LoginStep (s s' : AuthState) : AuthStage → AuthStage → Prop
  | quiet {st st' : AuthStage} (redis : s'.redis = s.redis)
      (stored : ∀ uuid token, Stored uuid token st' → Stored uuid token st)
        (past : Past st → Past st') :
      LoginStep s s' st st'
  | wrote {u : User} {token : String} {session : Session}
      (same : session "token" = some (.text token))
      (redis : s'.redis = Function.update s.redis (loginKey u.uuid) (some (.object session))) :
      LoginStep s s' (.store u token session) (.respond (.ok (.login u.uuid token)))

omit [DecidableEq ι] in
theorem not_stored_error {uuid token : String} {e : AuthErr} :
    ¬ Stored uuid token (.respond (.error e)) := by
  rintro (h | h) <;> cases h

theorem session_token (u : User) (token time : String) :
    u.session token time "token" = some (.text token) := rfl

theorem LoginOf.step (cfg : AuthConfig) (h : LoginOf (sc.stages i)) :
    LoginOf ((sc.next (script cfg) (exec cfg) i).stages i) ∧
      LoginStep sc.state (sc.next (script cfg) (exec cfg) i).state (sc.stages i)
        ((sc.next (script cfg) (exec cfg) i).stages i) := by
  cases hst : sc.stages i with
  | take req =>
    have hscript : script cfg (sc.stages i) = some ⟨.takeUser req.email,verified cfg req⟩ := by
      rw [hst]
      rfl
    rw [Scene.next_of_some hscript]
    simp only [Function.update_self]
    generalize (exec cfg (.takeUser req.email) sc.state).1 = answer
    rcases answer with (_ | _) | u
    · exact ⟨trivial,.quiet rfl (fun _ _ h => (not_stored_error h).elim) fun hb => hb.elim⟩
    · exact ⟨trivial,.quiet rfl (fun _ _ h => (not_stored_error h).elim) fun hb => hb.elim⟩
    · simp only [verified]
      split
      · exact ⟨trivial,.quiet rfl (fun _ _ h => (not_stored_error h).elim) fun hb => hb.elim⟩
      · refine ⟨trivial,.quiet rfl (fun _ _ h => ?_) fun hb => hb.elim⟩
        rcases h with h | h <;> cases h
  | sign u =>
    have hscript : script cfg (sc.stages i) = some ⟨.now,signed cfg u⟩ := by
      rw [hst]
      rfl
    rw [Scene.next_of_some hscript]
    simp only [Function.update_self,signed]
    split
    · exact ⟨trivial,.quiet rfl (fun _ _ h => (not_stored_error h).elim) fun hb => hb.elim⟩
    · refine ⟨trivial,.quiet rfl (fun _ _ h => ?_) fun hb => hb.elim⟩
      rcases h with h | h <;> cases h
  | date u token =>
    have hscript : script cfg (sc.stages i) =
        some ⟨.now,fun now => .store u token (u.session token (cfg.format now))⟩ := by
      rw [hst]
      rfl
    rw [Scene.next_of_some hscript]
    simp only [Function.update_self]
    refine ⟨session_token u token _,.quiet rfl (fun _ _ h => ?_) fun hb => hb.elim⟩
    rcases h with h | h <;> cases h
  | store u token session =>
    rw [hst] at h
    have hscript : script cfg (sc.stages i) = some ⟨.redisSet (loginKey u.uuid) (.object session),
        fun _ => .respond (.ok (.login u.uuid token))⟩ := by
      rw [hst]
      rfl
    rw [Scene.next_of_some hscript]
    simp only [exec,Function.update_self]
    exact ⟨trivial,.wrote h rfl⟩
  | respond result =>
    have hscript : script cfg (sc.stages i) = some ⟨.respond result,fun _ => .ended result⟩ := by
      rw [hst]
      rfl
    rw [Scene.next_of_some hscript]
    simp only [exec,Function.update_self]
    refine ⟨trivial,.quiet rfl (fun _ _ h => ?_) fun _ => trivial⟩
    rcases h with h | h
    · cases h
    · cases h
      exact Or.inl rfl
  | ended result =>
    rw [Scene.next_of_none (by rw [hst]; rfl),hst]
    exact ⟨trivial,.quiet rfl (fun _ _ h => h) fun hb => hb⟩
  | _ =>
    rw [hst] at h
    exact h.elim

end Steps

section Phases
variable {ι : Type} [DecidableEq ι] (cfg) (calls : ι → AuthCall) (l : ι) (uuid token : String)

structure Beside (sc : AuthScene ι) : Prop where
  answered : Answered sc
  login : LoginOf (sc.stages l)
  checks : ∀ j, j ≠ l → ∃ req, calls j = .check req ∧ req.token ≠ token ∧
    CheckOf cfg req (sc.stages j)

structure Settled (sc : AuthScene ι) : Prop extends Beside cfg calls l token sc where
  stays : Stored uuid token (sc.stages l) →
    TokenIs sc.state uuid token ∧ ∀ j, ¬ Holds uuid (sc.stages j)

structure Overwritten (sc : AuthScene ι) : Prop extends Beside cfg calls l token sc where
  past : Past (sc.stages l)
  lost : ¬ TokenIs sc.state uuid token ∨ ∃ j, Holds uuid (sc.stages j)

variable {cfg calls l uuid token} {sc : AuthScene ι} {i : ι}

theorem Beside.next (h : Beside cfg calls l token sc) (i : ι) :
    Beside cfg calls l token (sc.next (script cfg) (exec cfg) i) := by
  refine ⟨h.answered.next i,?_,fun j hj => ?_⟩
  · by_cases hi : l = i
    · subst hi
      exact (h.login.step cfg).1
    · rw [sc.next_stages_other hi]
      exact h.login
  · obtain ⟨req,hcall,htoken,hcheck⟩ := h.checks j hj
    refine ⟨req,hcall,htoken,?_⟩
    by_cases hi : j = i
    · subst hi
      exact (hcheck.step "").1
    · rwa [sc.next_stages_other hi]

theorem tokenIs_of_redis {s s' : AuthState} (hredis : s'.redis = s.redis) :
    TokenIs s' uuid token ↔ TokenIs s uuid token := by
  rw [TokenIs,hredis]
  rfl

theorem tokenIs_of_other {s s' : AuthState} {uuid' : String} {session : Session}
    (hne : uuid' ≠ uuid)
    (hredis : s'.redis = Function.update s.redis (loginKey uuid') (some (.object session))) :
    TokenIs s' uuid token ↔ TokenIs s uuid token := by
  rw [TokenIs,hredis,Function.update_of_ne fun heq => hne (loginKey_inj.mp heq).symm]
  rfl

theorem tokenIs_of_wrote {s s' : AuthState} {session : Session}
    (hredis : s'.redis = Function.update s.redis (loginKey uuid) (some (.object session)))
    (htoken : session "token" = some (.text token)) : TokenIs s' uuid token :=
  ⟨session,by rw [hredis,Function.update_self],htoken⟩

theorem Overwritten.next (h : Overwritten cfg calls l uuid token sc) (i : ι) :
    Overwritten cfg calls l uuid token (sc.next (script cfg) (exec cfg) i) := by
  have hkept : ∀ j, j ≠ i → Holds uuid (sc.stages j) →
      ∃ j, Holds uuid ((sc.next (script cfg) (exec cfg) i).stages j) := by
    intro j hji hholds
    exact ⟨j,by rwa [sc.next_stages_other hji]⟩
  by_cases hi : i = l
  · subst hi
    have hstep := (h.login.step cfg).2
    have hpast := h.past
    have hnot : ¬ Holds uuid (sc.stages i) := by
      intro hholds
      cases hst : sc.stages i <;> rw [hst] at hholds hpast <;>
        first | exact hholds.elim | exact hpast.elim
    generalize hst' : (sc.next (script cfg) (exec cfg) i).stages i = st' at hstep
    generalize hst : sc.stages i = st at hstep hpast
    cases hstep with
    | quiet hredis hback hstill =>
      refine ⟨h.toBeside.next i,hst' ▸ hstill hpast,?_⟩
      rw [tokenIs_of_redis hredis]
      rcases h.lost with hlost | ⟨j,hholds⟩
      · exact Or.inl hlost
      · refine Or.inr (hkept j ?_ hholds)
        rintro rfl
        exact hnot hholds
    | wrote hsame hredis => exact hpast.elim
  · have hpast : Past ((sc.next (script cfg) (exec cfg) i).stages l) := by
      rw [sc.next_stages_other (Ne.symm hi)]
      exact h.past
    refine ⟨h.toBeside.next i,hpast,?_⟩
    obtain ⟨req,-,htoken,hcheck⟩ := h.checks i hi
    have hstep := (hcheck.step uuid).2
    generalize hst' : (sc.next (script cfg) (exec cfg) i).stages i = st' at hstep
    generalize hst : sc.stages i = st at hstep
    cases hstep with
    | quiet hredis hgone hheld =>
      rw [tokenIs_of_redis hredis]
      rcases h.lost with hlost | ⟨j,hholds⟩
      · exact Or.inl hlost
      · refine Or.inr (hkept j ?_ hholds)
        rintro rfl
        exact hgone (hst ▸ hholds)
    | stamped hredis hheld hholds => exact Or.inr ⟨i,hst' ▸ hholds⟩
    | wrote hsame hredis =>
      rename_i uuid' session
      by_cases hu : uuid' = uuid
      · subst hu
        exact Or.inl fun hthere => htoken ((tokenIs_of_wrote hredis hsame).unique hthere)
      · rw [tokenIs_of_other hu hredis]
        rcases h.lost with hlost | ⟨j,hholds⟩
        · exact Or.inl hlost
        · refine Or.inr (hkept j ?_ hholds)
          rintro rfl
          rw [hst] at hholds
          exact hu hholds

theorem Settled.spoil (h : Settled cfg calls l uuid token sc) {u : User} {token' : String}
    {session : Session} (hst : sc.stages l = .store u token' session) {j : ι}
    (hholds : Holds uuid (sc.stages j)) :
    Overwritten cfg calls l uuid token (sc.next (script cfg) (exec cfg) l) := by
  have hscript : script cfg (sc.stages l) = some ⟨.redisSet (loginKey u.uuid) (.object session),
      fun _ => .respond (.ok (.login u.uuid token'))⟩ := by
    rw [hst]
    rfl
  refine ⟨h.toBeside.next l,?_,Or.inr ⟨j,?_⟩⟩
  · rw [Scene.next_of_some hscript]
    simp only [Function.update_self]
    exact trivial
  · have hjl : j ≠ l := by
      rintro rfl
      rw [hst] at hholds
      exact hholds
    rwa [sc.next_stages_other hjl]

end Phases

section Holding
variable {ι : Type} {calls : ι → AuthCall} {l : ι} {uuid token : String}
  {sc : AuthScene ι} {p : AuthCalls ι} {i : ι}

end Holding

section Later
variable {κ : Type} [DecidableEq κ] (cfg) (reqs : κ → AuthCheckReq) (uuid token : String)

structure Guarded (sc : AuthScene κ) : Prop where
  answered : Answered sc
  there : TokenIs sc.state uuid token
  checks : ∀ j, CheckOf cfg (reqs j) (sc.stages j)
  held : ∀ j, Holds uuid (sc.stages j) → (reqs j).token = token
  answers : ∀ j result, cfg.open_ (reqs j).validPath = false →
    (sc.stages j = .respond result ∨ sc.stages j = .ended result) →
    (result = .ok (.checked uuid) ↔ (reqs j).token = token)

variable {cfg reqs uuid token} {sc : AuthScene κ} {i : κ} {claims : JwtPayLoad}

theorem compared_of_token {session : Session} (h : session "token" = some (.text token)) :
    compared token uuid (some (.object session)) = .stamp token uuid session := by
  simp [compared,h]

theorem Guarded.answers_next (h : Guarded cfg reqs uuid token sc)
    (hparse : cfg.parseToken token = .ok claims) (hclaims : claims.uuid = uuid)
    {result : Except AuthErr AuthResponse} (hopen : cfg.open_ (reqs i).validPath = false)
    (hst' : (sc.next (script cfg) (exec cfg) i).stages i = .respond result ∨
      (sc.next (script cfg) (exec cfg) i).stages i = .ended result) :
    result = .ok (.checked uuid) ↔ (reqs i).token = token := by
  have hcheck := h.checks i
  cases hst : sc.stages i with
  | get token' uuid' =>
    rw [hst] at hcheck
    obtain ⟨rfl,claims',hparse',rfl⟩ := hcheck
    have hscript : script cfg (sc.stages i) =
        some ⟨.redisGet (loginKey claims'.uuid),compared (reqs i).token claims'.uuid⟩ := by
      rw [hst]
      rfl
    rw [Scene.next_of_some hscript] at hst'
    simp only [exec,Function.update_self] at hst'
    refine iff_of_false ?_ ?_
    · rintro rfl
      rcases compared_cases (reqs i).token claims'.uuid
        (sc.state.redis (loginKey claims'.uuid)) with
        ⟨e,hcompared⟩ | ⟨session,-,-,hcompared⟩
      · rw [hcompared] at hst'
        rcases hst' with heq | heq <;> cases heq
      · rw [hcompared] at hst'
        rcases hst' with heq | heq <;> cases heq
    · -- the token of the session is not refused
      intro hsame
      rw [hsame] at hparse' hst'
      cases hparse.symm.trans hparse'
      obtain ⟨session,hredis,htoken⟩ := h.there
      rw [hclaims,hredis,compared_of_token htoken] at hst'
      rcases hst' with heq | heq <;> cases heq
  | stamp token' uuid' session =>
    have hscript : script cfg (sc.stages i) =
        some ⟨.now,fun now => .put uuid' (session.touched token' (cfg.format now))⟩ := by
      rw [hst]
      rfl
    rw [Scene.next_of_some hscript] at hst'
    simp only [Function.update_self] at hst'
    rcases hst' with heq | heq <;> cases heq
  | put uuid' session =>
    rw [hst] at hcheck
    obtain ⟨-,claims',hparse',rfl⟩ := hcheck
    have hscript : script cfg (sc.stages i) =
        some ⟨.redisSet (loginKey claims'.uuid) (.object session),
          fun _ => .respond (.ok (.checked claims'.uuid))⟩ := by
      rw [hst]
      rfl
    rw [Scene.next_of_some hscript] at hst'
    simp only [Function.update_self] at hst'
    rcases hst' with heq | heq
    · cases heq
      constructor
      · intro hresult
        cases hresult
        exact h.held i (by rw [hst]; exact rfl)
      · intro hsame
        rw [hsame] at hparse'
        cases hparse.symm.trans hparse'
        rw [hclaims]
    · cases heq
  | respond result' =>
    have hscript : script cfg (sc.stages i) = some ⟨.respond result',fun _ => .ended result'⟩ := by
      rw [hst]
      rfl
    rw [Scene.next_of_some hscript] at hst'
    simp only [Function.update_self] at hst'
    rcases hst' with heq | heq
    · cases heq
    · cases heq
      exact h.answers i result hopen (Or.inl hst)
  | ended result' =>
    rw [Scene.next_of_none (by rw [hst]; rfl)] at hst'
    exact h.answers i result hopen hst'
  | _ =>
    rw [hst] at hcheck
    exact hcheck.elim

theorem Guarded.next (h : Guarded cfg reqs uuid token sc)
    (hparse : cfg.parseToken token = .ok claims) (hclaims : claims.uuid = uuid) (i : κ) :
    Guarded cfg reqs uuid token (sc.next (script cfg) (exec cfg) i) := by
  obtain ⟨hcheck,hstep⟩ := (h.checks i).step uuid
  have hown := h.held i
  have hnew : TokenIs (sc.next (script cfg) (exec cfg) i).state uuid token ∧
      (Holds uuid ((sc.next (script cfg) (exec cfg) i).stages i) → (reqs i).token = token) := by
    generalize (sc.next (script cfg) (exec cfg) i).stages i = st' at hstep
    generalize sc.stages i = st at hstep hown
    cases hstep with
    | quiet hredis hgone hheld =>
      rw [tokenIs_of_redis hredis]
      exact ⟨h.there,fun hholds => (hheld hholds).unique h.there⟩
    | stamped hredis hheld hholds =>
      rw [tokenIs_of_redis hredis]
      exact ⟨h.there,fun _ => hown hheld⟩
    | wrote hsame hredis =>
      rename_i uuid' session
      refine ⟨?_,fun hb => hb.elim⟩
      by_cases hu : uuid' = uuid
      · subst hu
        rw [hown rfl] at hsame
        exact tokenIs_of_wrote hredis hsame
      · rw [tokenIs_of_other hu hredis]
        exact h.there
  refine ⟨h.answered.next i,hnew.1,fun j => ?_,fun j hholds => ?_,fun j result hopen hst => ?_⟩
  · by_cases hji : j = i
    · subst hji
      exact hcheck
    · rw [sc.next_stages_other hji]
      exact h.checks j
  · by_cases hji : j = i
    · subst hji
      exact hnew.2 hholds
    · rw [sc.next_stages_other hji] at hholds
      exact h.held j hholds
  · by_cases hji : j = i
    · subst hji
      exact h.answers_next hparse hclaims hopen hst
    · rw [sc.next_stages_other hji] at hst
      exact h.answers j result hopen hst

end Later

end AuthStage

open AuthStage

section Final
variable {cfg : AuthConfig} {uuid token : String} {claims : JwtPayLoad}

variable {ι : Type} [DecidableEq ι] {s : AuthState} {calls : ι → AuthCall} {l : ι}

end Final

/-- One user, whose tokens are "old" and, from the next login on, "new". -/
def oneUser : AuthConfig where
  whiteList := []
  compile := fun _ => none
  parseToken := fun t => if t = "old" ∨ t = "new" then .ok ⟨"n","u"⟩ else .error "malformed"
  genToken := fun _ _ => .ok "new"
  pwdVerify := fun password hash => password = hash
  pwdGenerate := .ok
  format := fun _ => "now"
  clock := fun n => n
  uuid := fun _ => "u"

end Imy.Auth
