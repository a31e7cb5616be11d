import Imy.Gateway.Identity
set_option autoImplicit false

namespace Imy.Gateway
open Imy.Lib

section Rejected
variable (c : GatewayConfig) (out : Outside)

/-- What a request is that needs a token: no preflight, and on no path of the white list. -/
def NeedsToken (r : Request) : Prop :=
  ¬ (c.corsEnabled ∧ r.method = "OPTIONS") ∧ isWhitelisted c out r.path = false

/-- A token that `ParseToken` returns no claims for. -/
def Rejected (token : String) : Prop := ∀ claims, out.parseToken token c.accessSecret ≠ .ok claims

variable {c out}

theorem refusedByIP_of_not_limited (hlimit : c.rateLimit.enabled = false) (r : Request) :
    refusedByIP c out r = false := by simp [refusedByIP,hlimit]

theorem handler_rejected (hlimit : c.rateLimit.enabled = false) {r : Request}
    (hneeds : NeedsToken c out r) (hrejected : Rejected c out (extractToken r.header)) :
    handler c out r =
      if (extractToken r.header).utf8ByteSize < 20 then .panicked else .answered 401 := by
  rw [handler,if_neg hneeds.1,refusedByIP_of_not_limited hlimit,if_neg (by simp),
    if_neg (by simp [hneeds.2])]
  dsimp only
  split
  · rfl
  split
  · rfl
  cases hparse : out.parseToken (extractToken r.header) c.accessSecret with
  | error e => rfl
  | ok claims => exact (hrejected claims hparse).elim

theorem extractToken_of_absent {header : Header} (hauth : header.get "Authorization" = "")
    (htoken : header.get "token" = "") : extractToken header = "" := by
  simp [extractToken,hauth,htoken]

theorem handler_without_token (hlimit : c.rateLimit.enabled = false) {r : Request}
    (hneeds : NeedsToken c out r) (hrejected : Rejected c out "")
    (hauth : r.header.get "Authorization" = "") (htoken : r.header.get "token" = "") :
    handler c out r = .panicked := by
  have habsent := extractToken_of_absent hauth htoken
  rw [handler_rejected hlimit hneeds (habsent ▸ hrejected),habsent]
  rfl

/-- A token that is not accepted is answered with 401 if it has the twenty bytes that
are logged of it, and only then. -/
theorem rejected_token_answered_iff_long (c : GatewayConfig) (out : Outside)
    (hlimit : c.rateLimit.enabled = false) (r : Request) (hneeds : NeedsToken c out r)
    (hrejected : Rejected c out (extractToken r.header)) :
    handler c out r = .answered 401 ↔ 20 ≤ (extractToken r.header).utf8ByteSize := by
  rw [handler_rejected hlimit hneeds hrejected]
  split
  · rename_i hshort
    exact iff_of_false nofun (by omega)
  · rename_i hlong
    exact iff_of_true rfl (by omega)

end Rejected

/-- A token of more than twenty bytes that nobody has signed. -/
def forged : Header :=
  fun key => if key = "Authorization" then ["Bearer forged.forged.forged"] else []

theorem rejected_token_answered_iff_long_forged :
    handler nicknameGateway (tokenFor "anne") (requestWith forged) = .answered 401 := by
  refine (rejected_token_answered_iff_long nicknameGateway (tokenFor "anne") rfl
    (requestWith forged)
    ⟨by decide,rfl⟩ fun claims haccepted => ?_).mpr (by decide)
  have hother : extractToken forged ≠ someToken := by decide
  simp only [tokenFor,requestWith,if_neg hother] at haccepted
  cases haccepted

/-- A request without any header is not answered: the handler panics. -/
theorem request_without_token_panics :
    nicknameGateway.rateLimit.enabled = false ∧
      NeedsToken nicknameGateway (tokenFor "anne") (requestWith fun _ => []) ∧
      Rejected nicknameGateway (tokenFor "anne") (extractToken fun _ => []) ∧
      handler nicknameGateway (tokenFor "anne") (requestWith fun _ => []) = .panicked := by
  refine ⟨rfl,⟨by decide,rfl⟩,fun claims haccepted => ?_,rfl⟩
  have hother : extractToken (fun _ => []) ≠ someToken := by decide
  simp only [tokenFor,if_neg hother] at haccepted
  cases haccepted

end Imy.Gateway
