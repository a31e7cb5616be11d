import Imy.Lib.Header
import Imy.Auth.Logic
set_option autoImplicit false

/-!
The handler of `cmd/gateway`: what it answers itself and what it passes on.
-/

namespace Imy.Gateway
open Imy.Lib
open Imy.Auth (JwtPayLoad inListByRegex)

structure RateLimitConfig where
  enabled : Bool
  key : String
  deriving DecidableEq, Repr

/-- The configuration; `inject` in the order in which the map is gone through. -/
structure GatewayConfig where
  accessSecret : String
  whiteList : List String
  inject : List (String × String)
  corsEnabled : Bool
  rateLimit : RateLimitConfig

/-- What the handler is told from outside: regular expressions, the JWT package, the
limiter's answer for a key, and the next random UUID. -/
structure Outside where
  compile : String → Option (String → Bool)
  parseToken : String → String → Except String JwtPayLoad
  allow : String → Bool
  newUUID : String

structure Request where
  method : String
  host : String
  path : String
  rawQuery : String
  body : String
  remoteAddr : String
  header : Header

inductive Outcome where
  | answered (status : Nat)
  | panicked
  | forwarded (r : Request)

def isSpace (c : Char) : Bool :=
  c.toNat ∈ [9,10,11,12,13,32,0x85,0xA0,0x1680,0x2028,0x2029,0x202F,0x205F,0x3000] ||
    (0x2000 ≤ c.toNat && c.toNat ≤ 0x200A)

def trimSpace (s : String) : String :=
  String.ofList ((s.toList.dropWhile isSpace).reverse.dropWhile isSpace).reverse

/-- `strings.ToLower`, as far as it can lead to ASCII letters. -/
def lowerChar (c : Char) : Char :=
  if c.toNat = 0x130 then 'i' else if c.toNat = 0x212A then 'k' else c.toLower

def toLower (s : String) : String := String.ofList (s.toList.map lowerChar)

def extractToken (header : Header) : String :=
  let auth := header.get "Authorization"
  if auth ≠ "" then
    if "Bearer ".toList <+: auth.toList then trimSpace (String.ofList (auth.toList.drop 7))
    else trimSpace auth
  else header.get "token"

def claimValue (key : String) (claims : JwtPayLoad) (token : String) : String :=
  match toLower key with
  | "uuid" => claims.uuid
  | "nickname" | "nick" | "nick_name" => claims.nickname
  | "authorization" | "auth" | "token" => "Bearer " ++ token
  | _ => ""

def splitHost (hostport : List Char) : Option (List Char) :=
  let port := hostport.reverse.takeWhile (· ≠ ':')
  if ':' ∉ hostport then none
  else
    let before := hostport.take (hostport.length - port.length - 1)
    match hostport with
    | '[' :: rest =>
      -- the first closing bracket has to stand right before the last colon
      let host := rest.takeWhile (· ≠ ']')
      if before ≠ '[' :: host ++ [']'] then none
      else if '[' ∈ rest ∨ ']' ∈ port then none
      else some host
    | _ => if ':' ∈ before ∨ '[' ∈ hostport ∨ ']' ∈ hostport then none else some before

def getClientIP (r : Request) : String :=
  let xff := r.header.get "X-Forwarded-For"
  if xff ≠ "" then trimSpace (String.ofList (xff.toList.takeWhile (· ≠ ',')))
  else
    match splitHost r.remoteAddr.toList with
    | some ip => String.ofList ip
    | none => r.remoteAddr

def injectOne (claims : JwtPayLoad) (token : String) (header : Header) (entry : String × String) :
    Header :=
  if entry.2 = "" then header
  else
    let val := claimValue entry.1 claims token
    if val ≠ "" then header.set entry.2 val else header

section Handler
variable (c : GatewayConfig) (out : Outside)

def inject (claims : JwtPayLoad) (token : String) (header : Header) : Header :=
  let header := (header.del "uuid").set "uuid" claims.uuid
  let header := c.inject.foldl (injectOne claims token) header
  if header.get "X-Request-Id" = "" then header.set "X-Request-Id" out.newUUID else header

def isWhitelisted (path : String) : Bool := inListByRegex out.compile path c.whiteList

def refusedByIP (r : Request) : Bool :=
  c.rateLimit.enabled &&
    !out.allow ("ip:" ++ if getClientIP r = "" then "unknown" else getClientIP r)

def refusedByUUID (claims : JwtPayLoad) : Bool :=
  c.rateLimit.enabled && toLower c.rateLimit.key = "uuid" && claims.uuid ≠ "" &&
    !out.allow ("uuid:" ++ claims.uuid)

def handler (r : Request) : Outcome :=
  if c.corsEnabled ∧ r.method = "OPTIONS" then .answered 204
  else if refusedByIP c out r then .answered 429
  else if isWhitelisted c out r.path then .forwarded r
  else
    let token := extractToken r.header
    -- the log line slices the token before it is checked
    if token.utf8ByteSize < 20 then .panicked
    else if token = "" then .answered 401
    else
      match out.parseToken token c.accessSecret with
      | .error _ => .answered 401
      | .ok claims =>
        if refusedByUUID c out claims then .answered 429
        else .forwarded { r with header := inject c out claims token r.header }

end Handler

end Imy.Gateway
