import Imy.Gateway.Handler
set_option autoImplicit false

namespace Imy.Gateway
open Imy.Lib
open Imy.Auth (JwtPayLoad)

section Identity
variable (c : GatewayConfig) (out : Outside)

/-- `Inject` is a map: every request goes through its entries in an order of its own. -/
def GatewayConfig.ranging (entries : List (String × String)) : GatewayConfig :=
  { c with inject := entries }

end Identity

section Injection
variable {c : GatewayConfig} {out : Outside} {claims : JwtPayLoad} {token key : String}
  {entries entries' : List (String × String)}

theorem forwarded_iff {r f : Request} (h : isWhitelisted c out r.path = false) :
    handler c out r = .forwarded f ↔
      ¬ (c.corsEnabled ∧ r.method = "OPTIONS") ∧ refusedByIP c out r = false ∧
      20 ≤ (extractToken r.header).utf8ByteSize ∧ extractToken r.header ≠ "" ∧
      ∃ claims, out.parseToken (extractToken r.header) c.accessSecret = .ok claims ∧
        refusedByUUID c out claims = false ∧
        f = { r with header := inject c out claims (extractToken r.header) r.header } := by
  unfold handler
  split
  · rename_i hcors
    simp [hcors]
  rename_i hcors
  split
  · rename_i hip
    simp [hip]
  rename_i hip
  rw [if_neg (by simp [h])]
  dsimp only
  split
  · rename_i hshort
    refine iff_of_false nofun fun hall => ?_
    omega
  rename_i hshort
  split
  · rename_i hempty
    simp [hempty]
  rename_i hempty
  cases hparse : out.parseToken (extractToken r.header) c.accessSecret with
  | error e => simp
  | ok claims =>
    dsimp only
    split
    · rename_i huuid
      simp [huuid]
    · rename_i huuid
      simp only [Bool.not_eq_true] at hip huuid
      refine ⟨fun heq => ?_,?_⟩
      · cases heq
        exact ⟨hcors,hip,by omega,hempty,claims,rfl,huuid,rfl⟩
      · rintro ⟨-,-,-,-,claims',heq,-,rfl⟩
        cases heq
        rfl

end Injection

section Main
variable (c : GatewayConfig) (out : Outside)

def Request.more (r : Request) (key : String) : Request :=
  { r with header := Function.update r.header key ((r.header key).headD "" :: "" :: r.header key) }

def Request.identified (r : Request) : Request :=
  { r with header := r.header.set "X-Request-Id" "request" }

section Valid
variable {token : String} {claims : JwtPayLoad} {entries entries' : List (String × String)}

end Valid

end Main

/-- The nickname goes into a header of its own. -/
def nicknameGateway : GatewayConfig :=
  ⟨"secret",[],[("nickname","X-User-Nickname")],false,⟨false,""⟩⟩

def someToken : String := "eyJhbGciOiJIUzI1NiJ9.e30.x"

/-- A token for a user with the nickname. -/
def tokenFor (nickname : String) : Outside where
  compile := fun _ => none
  parseToken := fun token _ => if token = someToken then .ok ⟨nickname,"u"⟩ else .error "invalid"
  allow := fun _ => true
  newUUID := "id"

def requestWith (header : Header) : Request := ⟨"GET","","/chat","","","",header⟩

end Imy.Gateway
