import Imy.Lib.Threads
set_option autoImplicit false

/-!
The calls of `internal/logic/auth`, with the user table and the sessions in Redis.
-/

namespace Imy.Auth
open Imy.Lib

structure User where
  id : Nat
  uuid : String
  nickName : String
  password : String
  email : String
  deleted : Bool
  deriving DecidableEq, Repr

inductive SessionValue where
  | text (s : String)
  | other
  deriving DecidableEq, Repr

abbrev Session := String → Option SessionValue

inductive SessionText where
  | object (session : Session)
  | malformed

inductive DBError where
  | recordNotFound
  | failed
  deriving DecidableEq, Repr

inductive AuthErr where
  | tokenNil
  | tokenFailed (e : String)
  | tokenUseless
  | session
  | tokenExpire
  | invalidParam
  | userNotFund
  | userExist
  | dataQueryFail (e : DBError)
  | dataCreateFail (e : DBError ⊕ String)
  | panicked
  deriving DecidableEq, Repr

inductive AuthResponse where
  | none
  | checked (uuid : String)
  | login (uuid token : String)
  | registered (uuid : String)
  deriving DecidableEq, Repr

inductive AuthStmt where
  | takeUser (email : String)
  | createUser (row : User)
  | redisGet (key : String)
  | redisSet (key : String) (value : SessionText)
  | now
  | generateUUID
  | respond (result : Except AuthErr AuthResponse)

def AuthStmt.Answer : AuthStmt → Type
  | .takeUser _ => Except DBError User
  | .createUser _ => Except DBError Unit
  | .redisGet _ => Option SessionText
  | .redisSet _ _ | .respond _ => Unit
  | .now => Int
  | .generateUUID => String

structure AuthState where
  users : List User
  nextUser : Nat
  redis : String → Option SessionText
  tick : Nat

structure JwtPayLoad where
  nickname : String
  uuid : String
  deriving DecidableEq, Repr

/-- The configuration, the JWT and bcrypt packages with the secret, and the clock and
the random source by the number of the reading. -/
structure AuthConfig where
  whiteList : List String
  /-- `regexp.Compile`, and then `MatchString` -/
  compile : String → Option (String → Bool)
  parseToken : String → Except String JwtPayLoad
  genToken : Int → JwtPayLoad → Except String String
  pwdVerify : String → String → Bool
  pwdGenerate : String → Except String String
  format : Int → String
  clock : Nat → Int
  uuid : Nat → String

variable (cfg : AuthConfig)

def exec : (q : AuthStmt) → AuthState → q.Answer × AuthState
  | .takeUser email, s =>
    (match s.users.find? fun u => !u.deleted && u.email = email with
      | some u => .ok u
      | none => .error .recordNotFound,s)
  | .createUser row, s =>
    (.ok (),{ s with
      users := s.users ++ [{ row with id := s.nextUser }]
      nextUser := s.nextUser+1 })
  | .redisGet key, s => (s.redis key,s)
  | .redisSet key value, s => ((),{ s with redis := Function.update s.redis key (some value) })
  | .now, s => (cfg.clock s.tick,{ s with tick := s.tick+1 })
  | .generateUUID, s => (cfg.uuid s.tick,{ s with tick := s.tick+1 })
  | .respond _, s => ((),s)

abbrev AuthM := Prog AuthStmt AuthStmt.Answer AuthErr

def ask (q : AuthStmt) : AuthM q.Answer := Prog.query q

def serve (main : AuthM AuthResponse) : AuthM Unit := do
  let result ← main.attempt
  ask (.respond result)

def loginKey (uuid : String) : String := "login_" ++ uuid

def inListByRegex (compile : String → Option (String → Bool)) (key : String) : List String → Bool
  | [] => false
  | s :: list =>
    match compile s with
    | none => false
    | some matches_ => if matches_ key then true else inListByRegex compile key list

structure AuthCheckReq where
  token : String
  validPath : String
  deriving DecidableEq, Repr

def AuthConfig.open_ (validPath : String) : Bool :=
  inListByRegex cfg.compile validPath cfg.whiteList

def Session.touched (session : Session) (token time : String) : Session :=
  Function.update (Function.update session "token" (some (.text token))) "last_active"
    (some (.text time))

def touchSession (token uuid : String) (session : Session) : AuthM AuthResponse := do
  let now ← ask .now
  ask (.redisSet (loginKey uuid) (.object (session.touched token (cfg.format now))))
  return .checked uuid

def compareToken (token uuid : String) : Option SessionText → AuthM AuthResponse
  | none => .fail .tokenUseless
  | some .malformed => .fail .session
  | some (.object session) =>
    match session "token" with
    | none => .fail .tokenExpire
    | some .other => .fail .panicked
    | some (.text storeToken) =>
      if token ≠ storeToken then .fail .tokenExpire else touchSession cfg token uuid session

def authCheck (req : AuthCheckReq) : AuthM AuthResponse :=
  if cfg.open_ req.validPath then return .none
  else if req.token = "" then .fail .tokenNil
  else
    match cfg.parseToken req.token with
    | .error e => .fail (.tokenFailed e)
    | .ok claims => do
      compareToken cfg req.token claims.uuid (← ask (.redisGet (loginKey claims.uuid)))

structure EmailPasswordLoginReq where
  email : String
  password : String
  deriving DecidableEq, Repr

def User.session (u : User) (token time : String) : Session
  | "uuid" => some (.text u.uuid)
  | "email" => some (.text u.email)
  | "nickname" => some (.text u.nickName)
  | "token" => some (.text token)
  | "last_active" => some (.text time)
  | _ => none

def storeSession (u : User) (token : String) : AuthM AuthResponse := do
  let now ← ask .now
  ask (.redisSet (loginKey u.uuid) (.object (u.session token (cfg.format now))))
  return .login u.uuid token

def issueToken (u : User) : AuthM AuthResponse := do
  let now ← ask .now
  match cfg.genToken now ⟨u.nickName,u.uuid⟩ with
  | .error e => .fail (.tokenFailed e)
  | .ok token => storeSession cfg u token

def emailPasswordLogin (req : EmailPasswordLoginReq) : AuthM AuthResponse :=
  if req.email = "" ∨ req.password = "" then .fail .invalidParam
  else do
    match ← ask (.takeUser req.email) with
    | .error .recordNotFound => .fail .userNotFund
    | .error e => .fail (.dataQueryFail e)
    | .ok u =>
      if cfg.pwdVerify req.password u.password = false then .fail .invalidParam
          else issueToken cfg u

structure EmailPasswordRegisterReq where
  email : String
  password : String
  deriving DecidableEq, Repr

def nickNameOf (email : String) : Option String :=
  if '@' ∈ email.toList then
    some ("用户" ++ String.ofList (email.toList.takeWhile fun c => c ≠ '@'))
  else none

def insertUser (req : EmailPasswordRegisterReq) (pwdHash : String) : AuthM AuthResponse := do
  let uuid ← ask .generateUUID
  match nickNameOf req.email with
  | none => .fail .panicked
  | some nickName => do
    match ← ask (.createUser ⟨0,uuid,nickName,pwdHash,req.email,false⟩) with
    | .error e => .fail (.dataCreateFail (.inl e))
    | .ok _ => return .registered uuid

def emailPasswordRegister (req : EmailPasswordRegisterReq) : AuthM AuthResponse := do
  match ← ask (.takeUser req.email) with
  | .ok _ => .fail .userExist
  | .error .recordNotFound =>
    match cfg.pwdGenerate req.password with
    | .error e => .fail (.dataCreateFail (.inr e))
    | .ok pwdHash => insertUser req pwdHash
  | .error e => .fail (.dataQueryFail e)

/-- The answers in a log. -/
def answers {ι : Type} (log : List (ι × AuthStmt)) : List (ι × Except AuthErr AuthResponse) :=
  log.filterMap fun
    | (i,.respond result) => some (i,result)
    | _ => none

theorem mem_answers {ι : Type} {log : List (ι × AuthStmt)} {i : ι}
    {result : Except AuthErr AuthResponse} :
    (i,result) ∈ answers log ↔ (i,AuthStmt.respond result) ∈ log := by
  rw [answers,List.mem_filterMap]
  constructor
  · rintro ⟨⟨j,q⟩,hin,heq⟩
    cases q <;> cases heq
    exact hin
  · exact fun hin => ⟨_,hin,rfl⟩

abbrev AuthCalls (ι : Type) := Pool ι AuthStmt AuthStmt.Answer AuthErr Unit AuthState

end Imy.Auth
