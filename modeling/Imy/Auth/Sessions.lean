import Imy.Auth.Register
import Imy.Auth.SessionTakeover
set_option autoImplicit false

namespace Imy.Auth
open Imy.Lib

inductive AuthRequest where
  | register (req : EmailPasswordRegisterReq)
  | login (req : EmailPasswordLoginReq)
  | check (req : AuthCheckReq)

def AuthRequest.main (cfg : AuthConfig) : AuthRequest → AuthM AuthResponse
  | .register req => emailPasswordRegister cfg req
  | .login req => emailPasswordLogin cfg req
  | .check req => authCheck cfg req

abbrev ServerStage := AuthStage ⊕ RegisterStage

namespace ServerStage
variable (cfg : AuthConfig)

def program : ServerStage → AuthM Unit :=
  Sum.elim (AuthStage.program cfg) (RegisterStage.program cfg)

def script : Script AuthStmt AuthStmt.Answer ServerStage :=
  (AuthStage.script cfg).sum (RegisterStage.script cfg)

theorem follows : Follows (program cfg) (script cfg) :=
  (AuthStage.follows cfg).sum (RegisterStage.follows cfg)

def first : AuthRequest → ServerStage
  | .register req => .inr (.lookUp req)
  | .login req => .inl (AuthStage.first cfg (.login req))
  | .check req => .inl (AuthStage.first cfg (.check req))

theorem serve_request (request : AuthRequest) :
    serve (request.main cfg) = program cfg (first cfg request) := by
  cases request with
  | register req => rfl
  | login req => exact AuthStage.serve_call cfg (.login req)
  | check req => exact AuthStage.serve_call cfg (.check req)

end ServerStage

section Origins
variable {ι : Type} (cfg : AuthConfig) (s : AuthState) (requests : ι → AuthRequest)

def Registered (u : User) : Prop :=
  u ∈ s.users ∨ ∃ r req tick, requests r = .register req ∧ u.email = req.email ∧
    cfg.pwdGenerate req.password = .ok u.password ∧ u.uuid = cfg.uuid tick ∧
    some u.nickName = nickNameOf req.email ∧ u.deleted = false

def Verified (l : ι) (u : User) : Prop :=
  ∃ req, requests l = .login req ∧ Registered cfg s requests u ∧ u.email = req.email ∧
    u.deleted = false ∧
    cfg.pwdVerify req.password u.password = true

/-- The login has got the token for the account. -/
def Signed (l : ι) (u : User) (token : String) : Prop :=
  Verified cfg s requests l u ∧ ∃ time, cfg.genToken time ⟨u.nickName,u.uuid⟩ = .ok token

def Issued (log : List (ι × AuthStmt)) (uuid token : String) : Prop :=
  TokenIs s uuid token ∨ ∃ l u session, Signed cfg s requests l u token ∧ u.uuid = uuid ∧
    session "token" = some (.text token) ∧ (l,.redisSet (loginKey uuid) (.object session)) ∈ log

variable {cfg s requests}

theorem Issued.mono {log log' : List (ι × AuthStmt)} {uuid token : String}
    (h : Issued cfg s requests log uuid token) (hlog : ∀ e ∈ log, e ∈ log') :
    Issued cfg s requests log' uuid token :=
  h.imp_right fun ⟨l,u,session,hsigned,hu,htoken,hmem⟩ =>
    ⟨l,u,session,hsigned,hu,htoken,hlog _ hmem⟩

variable (cfg s requests)

/-- What is known of a request that stands at a stage. -/
def ServerStage.Sound (log : List (ι × AuthStmt)) (i : ι) : ServerStage → Prop
  | .inl (.get token _) => ∀ req, requests i = .check req → token = req.token
  | .inl (.stamp token uuid _) =>
    (∀ req, requests i = .check req → token = req.token) ∧ Issued cfg s requests log uuid token
  | .inl (.put uuid session) => ∃ token, session "token" = some (.text token) ∧
    (∀ req, requests i = .check req → token = req.token) ∧ Issued cfg s requests log uuid token
  | .inl (.take req) => requests i = .login req
  | .inl (.sign u) => Verified cfg s requests i u
  | .inl (.date u token) => Signed cfg s requests i u token
  | .inl (.store u token session) => Signed cfg s requests i u token ∧
    session "token" = some (.text token)
  | .inr (.lookUp req) => requests i = .register req
  | .inr (.draw req pwdHash) => requests i = .register req ∧
    cfg.pwdGenerate req.password = .ok pwdHash
  | .inr (.insert row) => ∀ id, Registered cfg s requests { row with id := id }
  | .inl (.respond result) | .inl (.ended result) | .inr (.respond result) | .inr (.ended result) =>
    ∀ uuid, result = .ok (.checked uuid) → ∀ req, requests i = .check req →
      Issued cfg s requests log uuid req.token

structure SessionsSound (sc : Scene ι AuthStmt ServerStage AuthState) : Prop where
  rows : ∀ u ∈ sc.state.users, Registered cfg s requests u
  sessions : ∀ uuid token, TokenIs sc.state uuid token → Issued cfg s requests sc.log uuid token
  stages : ∀ i, (sc.stages i).Sound cfg s requests sc.log i
  answers : ∀ i uuid, (i,.respond (.ok (.checked uuid))) ∈ sc.log → ∀ req, requests i = .check req →
    Issued cfg s requests sc.log uuid req.token

variable {cfg s requests}

theorem ServerStage.Sound.mono {log log' : List (ι × AuthStmt)} {i : ι} {st : ServerStage}
    (h : st.Sound cfg s requests log i) (hlog : ∀ e ∈ log, e ∈ log') :
    st.Sound cfg s requests log' i := by
  rcases st with st | st
  · cases st with
    | stamp => exact ⟨h.1,h.2.mono hlog⟩
    | put =>
      obtain ⟨token,htoken,hreq,hissued⟩ := h
      exact ⟨token,htoken,hreq,hissued.mono hlog⟩
    | respond | ended => exact fun uuid hr req hreq => (h uuid hr req hreq).mono hlog
    | _ => exact h
  · cases st with
    | respond | ended => exact fun uuid hr req hreq => (h uuid hr req hreq).mono hlog
    | _ => exact h

end Origins

section Steps
variable {ι : Type} [DecidableEq ι] {cfg : AuthConfig} {s : AuthState} {requests : ι → AuthRequest}
  {sc : Scene ι AuthStmt ServerStage AuthState} {i : ι}

/-- A request goes on: its own part of the invariant, and what its statement changes. -/
theorem SessionsSound.goOn (hs : SessionsSound cfg s requests sc) {q : AuthStmt}
    {k : q.Answer → ServerStage} (hscript : ServerStage.script cfg (sc.stages i) = some ⟨q,k⟩)
    (rows : ∀ u ∈ (exec cfg q sc.state).2.users, Registered cfg s requests u)
    (sessions : ∀ uuid token, TokenIs (exec cfg q sc.state).2 uuid token →
      TokenIs sc.state uuid token ∨ Issued cfg s requests (sc.log ++ [(i,q)]) uuid token)
    (stage : (k (exec cfg q sc.state).1).Sound cfg s requests (sc.log ++ [(i,q)]) i)
    (answer : ∀ uuid, q = .respond (.ok (.checked uuid)) → ∀ req, requests i = .check req →
      Issued cfg s requests sc.log uuid req.token) :
    SessionsSound cfg s requests (sc.next (ServerStage.script cfg) (exec cfg) i) := by
  rw [Scene.next_of_some hscript]
  have hlog : ∀ e ∈ sc.log, e ∈ sc.log ++ [(i,q)] := fun e he => List.mem_append_left _ he
  refine ⟨rows,fun uuid token htoken => ?_,fun j => ?_,fun j uuid hmem req hreq => ?_⟩
  · exact (sessions uuid token htoken).elim (fun h => (hs.sessions uuid token h).mono hlog) id
  · dsimp only
    rcases eq_or_ne j i with rfl | hne
    · rw [Function.update_self]
      exact stage
    · rw [Function.update_of_ne hne]
      exact (hs.stages j).mono hlog
  · rcases List.mem_append.mp hmem with hmem | hmem
    · exact (hs.answers j uuid hmem req hreq).mono hlog
    · obtain ⟨rfl,hq⟩ := Prod.mk.inj (List.mem_singleton.mp hmem)
      exact (answer uuid hq.symm req hreq).mono hlog

theorem SessionsSound.quiet (hs : SessionsSound cfg s requests sc) {q : AuthStmt}
    {k : q.Answer → ServerStage} (hscript : ServerStage.script cfg (sc.stages i) = some ⟨q,k⟩)
    (users : (exec cfg q sc.state).2.users = sc.state.users)
    (redis : (exec cfg q sc.state).2.redis = sc.state.redis)
    (stage : (k (exec cfg q sc.state).1).Sound cfg s requests (sc.log ++ [(i,q)]) i)
    (answer : ∀ uuid, q = .respond (.ok (.checked uuid)) → ∀ req, requests i = .check req →
      Issued cfg s requests sc.log uuid req.token) :
    SessionsSound cfg s requests (sc.next (ServerStage.script cfg) (exec cfg) i) := by
  refine hs.goOn hscript (fun u hu => hs.rows u (users ▸ hu)) (fun uuid token htoken =>
    .inl ?_) stage answer
  obtain ⟨session,hredis,htoken⟩ := htoken
  exact ⟨session,redis ▸ hredis,htoken⟩

theorem SessionsSound.stores (hs : SessionsSound cfg s requests sc) {uuid token : String}
    {session : Session} {k : Unit → ServerStage}
    (hscript : ServerStage.script cfg (sc.stages i) =
      some ⟨.redisSet (loginKey uuid) (.object session),k⟩)
    (htoken : session "token" = some (.text token))
    (issued : Issued cfg s requests (sc.log ++ [(i,.redisSet (loginKey uuid) (.object session))])
      uuid token)
    (stage : (k ()).Sound cfg s requests
      (sc.log ++ [(i,.redisSet (loginKey uuid) (.object session))]) i) :
    SessionsSound cfg s requests (sc.next (ServerStage.script cfg) (exec cfg) i) := by
  refine hs.goOn hscript hs.rows (fun uuid' token' h => ?_) stage nofun
  obtain ⟨session',hredis,htoken'⟩ := h
  simp only [exec] at hredis
  rcases eq_or_ne uuid' uuid with rfl | hne
  · rw [Function.update_self] at hredis
    cases hredis
    cases htoken.symm.trans htoken'
    exact .inr issued
  · rw [Function.update_of_ne fun heq => hne (loginKey_inj.mp heq)] at hredis
    exact .inl ⟨session',hredis,htoken'⟩

omit [DecidableEq ι] in
theorem sound_error {log : List (ι × AuthStmt)} (e : AuthErr) :
    ServerStage.Sound cfg s requests log i (.inl (.respond (.error e))) ∧
      ServerStage.Sound cfg s requests log i (.inr (.respond (.error e))) :=
  ⟨nofun,nofun⟩

theorem SessionsSound.next_call (hs : SessionsSound cfg s requests sc) {st : AuthStage}
    (hst : sc.stages i = .inl st) :
    SessionsSound cfg s requests (sc.next (ServerStage.script cfg) (exec cfg) i) := by
  have hsound := hs.stages i
  have hscript : ServerStage.script cfg (sc.stages i) =
      (AuthStage.script cfg st).map fun e => ⟨e.1,fun r => .inl (e.2 r)⟩ := by rw [hst]; rfl
  rw [hst] at hsound
  cases st with
  | get token uuid =>
    refine hs.quiet hscript rfl rfl ?_ (by simp)
    obtain ⟨e,hcompared⟩ | ⟨session,hredis,htoken,hcompared⟩ :=
      AuthStage.compared_cases token uuid (sc.state.redis (loginKey uuid))
    · change ServerStage.Sound cfg s requests _ i (.inl (AuthStage.compared token uuid _))
      rw [exec,hcompared]
      exact (sound_error e).1
    · change ServerStage.Sound cfg s requests _ i (.inl (AuthStage.compared token uuid _))
      rw [exec,hcompared]
      exact ⟨hsound,(hs.sessions uuid token ⟨session,hredis,htoken⟩).mono fun _ =>
        List.mem_append_left _⟩
  | stamp token uuid session =>
    refine hs.quiet hscript rfl rfl ?_ (by simp)
    exact ⟨token,touched_token session token _,hsound.1,hsound.2.mono fun _ =>
      List.mem_append_left _⟩
  | put uuid session =>
    obtain ⟨token,htoken,hreq,hissued⟩ := hsound
    have hlater : Issued cfg s requests
      (sc.log ++ [(i,.redisSet (loginKey uuid) (.object session))])
        uuid token :=
      hissued.mono fun _ => List.mem_append_left _
    refine hs.stores hscript htoken hlater ?_
    rintro uuid' ⟨⟩ req hcheck
    rw [← hreq req hcheck]
    exact hlater
  | take req =>
    refine hs.quiet hscript rfl rfl ?_ (by simp)
    change ServerStage.Sound cfg s requests _ i (.inl (AuthStage.verified cfg req _))
    rw [exec]
    cases hfind : sc.state.users.find? fun u => !u.deleted && u.email = req.email with
    | none => exact (sound_error _).1
    | some u =>
      simp only [AuthStage.verified]
      split
      · exact (sound_error _).1
      · rename_i hpassword
        have hu := List.find?_some hfind
        simp only [Bool.and_eq_true,Bool.not_eq_true',decide_eq_true_eq] at hu
        exact ⟨req,hsound,hs.rows u (List.mem_of_find?_eq_some hfind),hu.2,hu.1,
          by simpa using hpassword⟩
  | sign u =>
    refine hs.quiet hscript rfl rfl ?_ (by simp)
    change ServerStage.Sound cfg s requests _ i (.inl (AuthStage.signed cfg u _))
    unfold AuthStage.signed
    split
    · exact (sound_error _).1
    · rename_i token htoken
      exact ⟨hsound,_,htoken⟩
  | date u token =>
    exact hs.quiet hscript rfl rfl ⟨hsound,AuthStage.session_token u token _⟩ (by simp)
  | store u token session =>
    refine hs.stores hscript hsound.2 (.inr ⟨i,u,session,hsound.1,rfl,hsound.2,?_⟩)
      (by simp [ServerStage.Sound])
    exact List.mem_append_right _ List.mem_cons_self
  | respond result =>
    refine hs.quiet hscript rfl rfl ?_ fun uuid hq req hreq => ?_
    · exact fun uuid hr req hreq => (hsound uuid hr req hreq).mono fun _ => List.mem_append_left _
    · cases hq
      exact hsound uuid rfl req hreq
  | ended result => rwa [Scene.next_of_none hscript]

theorem SessionsSound.next_register (hs : SessionsSound cfg s requests sc) {st : RegisterStage}
    (hst : sc.stages i = .inr st) :
    SessionsSound cfg s requests (sc.next (ServerStage.script cfg) (exec cfg) i) := by
  have hsound := hs.stages i
  have hscript : ServerStage.script cfg (sc.stages i) =
      (RegisterStage.script cfg st).map fun e => ⟨e.1,fun r => .inr (e.2 r)⟩ := by rw [hst]; rfl
  rw [hst] at hsound
  cases st with
  | lookUp req =>
    refine hs.quiet hscript rfl rfl ?_ (by simp)
    change ServerStage.Sound cfg s requests _ i (.inr (RegisterStage.lookedUp cfg req _))
    generalize (exec cfg (.takeUser req.email) sc.state).1 = answer
    rcases answer with (_ | _) | u
    · simp only [RegisterStage.lookedUp]
      split
      · exact (sound_error _).2
      · rename_i pwdHash hhash
        exact ⟨hsound,hhash⟩
    · exact (sound_error _).2
    · exact (sound_error _).2
  | draw req pwdHash =>
    refine hs.quiet hscript rfl rfl ?_ (by simp)
    change ServerStage.Sound cfg s requests _ i (.inr (RegisterStage.drawn req pwdHash _))
    unfold RegisterStage.drawn
    split
    · exact (sound_error _).2
    · rename_i nickName hnick
      exact fun id => .inr ⟨i,req,sc.state.tick,hsound.1,rfl,hsound.2,rfl,hnick.symm,rfl⟩
  | insert row =>
    refine hs.goOn hscript (fun u hu => ?_) (fun uuid token h => .inl h) ?_ (by simp)
    · rcases List.mem_append.mp hu with hu | hu
      · exact hs.rows u hu
      · cases List.mem_singleton.mp hu
        exact hsound _
    · intro uuid hr
      cases hr
  | respond result =>
    refine hs.quiet hscript rfl rfl ?_ fun uuid hq req hreq => ?_
    · exact fun uuid hr req hreq => (hsound uuid hr req hreq).mono fun _ => List.mem_append_left _
    · cases hq
      exact hsound uuid rfl req hreq
  | ended result => rwa [Scene.next_of_none hscript]

theorem SessionsSound.next (hs : SessionsSound cfg s requests sc) (i : ι) :
    SessionsSound cfg s requests (sc.next (ServerStage.script cfg) (exec cfg) i) := by
  cases hst : sc.stages i with
  | inl st => exact hs.next_call hst
  | inr st => exact hs.next_register hst

end Steps

section Runs
variable {ι : Type} [DecidableEq ι] (cfg : AuthConfig) (s : AuthState) (requests : ι → AuthRequest)

def startServer : AuthCalls ι := ⟨s,fun i => serve ((requests i).main cfg),[]⟩

def runServer (schedule : List ι) : AuthCalls ι :=
  (startServer cfg s requests).run (exec cfg) schedule

omit [DecidableEq ι] in
theorem sessionsSound_start :
    InScene (ServerStage.program cfg) (SessionsSound cfg s requests)
      (startServer cfg s requests) := by
  refine ⟨⟨s,fun i => ServerStage.first cfg (requests i),[]⟩,
    ⟨rfl,fun i => ServerStage.serve_request cfg (requests i),rfl⟩,
    fun u hu => .inl hu,fun uuid token h => .inl h,fun i => ?_,by simp⟩
  dsimp only
  cases hreq : requests i with
  | register req => exact hreq
  | login req =>
    simp only [ServerStage.first,AuthStage.first]
    split
    · simp [ServerStage.Sound]
    · exact hreq
  | check req =>
    simp only [ServerStage.first,AuthStage.first]
    split
    · simp [ServerStage.Sound]
    split
    · simp [ServerStage.Sound]
    split
    · simp [ServerStage.Sound]
    · rintro req' hreq'
      cases hreq.symm.trans hreq'
      rfl

theorem sessionsSound_run (schedule : List ι) :
    InScene (ServerStage.program cfg) (SessionsSound cfg s requests)
      (runServer cfg s requests schedule) := by
  induction schedule using List.reverseRecOn with
  | nil => exact sessionsSound_start cfg s requests
  | append_singleton before i ih =>
    rw [runServer,Pool.run_concat]
    exact ih.next (ServerStage.follows cfg) fun sc _ hs => hs.next i

/-- Whatever runs side by side, a check accepts for a user only the token of a session
that was there before, or that a login made for an account of the user and stored: a login
with the email of the account and a password that its hash verifies, and the account was
there before or was registered with that hash. -/
theorem accepted_tokens_issued (schedule : List ι) (i : ι) (req : AuthCheckReq) (uuid : String)
    (hreq : requests i = .check req)
    (haccepted : (i,.respond (.ok (.checked uuid))) ∈ (runServer cfg s requests schedule).log) :
    TokenIs s uuid req.token ∨ ∃ l u session, Signed cfg s requests l u req.token ∧ u.uuid = uuid ∧
      session "token" = some (.text req.token) ∧
      (l,.redisSet (loginKey uuid) (.object session)) ∈
        (runServer cfg s requests schedule).log := by
  obtain ⟨sc,hshows,hsound⟩ := sessionsSound_run cfg s requests schedule
  rw [hshows.log] at haccepted ⊢
  exact hsound.answers i uuid haccepted req hreq

end Runs

def signUpAndIn : Nat → AuthRequest
  | 0 => .register ⟨"a@b","pw"⟩
  | 1 => .login ⟨"a@b","pw"⟩
  | _ => .check ⟨"new","/chat"⟩

theorem accepted_tokens_issued_sign_up_and_in :
    ∃ l u session, Signed oneUser noUsers signUpAndIn l u "new" ∧
    u.uuid = "u" ∧ session "token" = some (.text "new") ∧
      (l,.redisSet (loginKey "u") (.object session)) ∈
      (runServer oneUser noUsers signUpAndIn ([0,0,0,0] ++ [1,1,1,1,1] ++ [2,2,2,2])).log := by
  have hlog : answers (runServer oneUser noUsers signUpAndIn
    ([0,0,0,0] ++ [1,1,1,1,1] ++ [2,2,2,2])).log =
      [(0,.ok (.registered "u")),(1,.ok (.login "u" "new")),(2,.ok (.checked "u"))] := rfl
  have haccepted : (2,.respond (.ok (.checked "u"))) ∈
      (runServer oneUser noUsers signUpAndIn ([0,0,0,0] ++ [1,1,1,1,1] ++ [2,2,2,2])).log := by
    rw [← mem_answers,hlog]
    simp
  refine (accepted_tokens_issued oneUser noUsers signUpAndIn _ 2
    ⟨"new","/chat"⟩ "u" rfl haccepted).resolve_left ?_
  rintro ⟨session,hredis,-⟩
  cases hredis

end Imy.Auth
