import Mathlib.Data.List.Infix
import Imy.Lib.Lists
import Imy.Lib.Staged
import Imy.Auth.Logic
set_option autoImplicit false

namespace Imy.Auth
open Imy.Lib

inductive RegisterStage where
  | lookUp (req : EmailPasswordRegisterReq)
  | draw (req : EmailPasswordRegisterReq) (pwdHash : String)
  | insert (row : User)
  | respond (result : Except AuthErr AuthResponse)
  | ended (result : Except AuthErr AuthResponse)

namespace RegisterStage
variable (cfg : AuthConfig)

def main : RegisterStage → AuthM AuthResponse
  | .lookUp req => emailPasswordRegister cfg req
  | .draw req pwdHash => insertUser req pwdHash
  | .insert row => do
    match ← ask (.createUser row) with
    | .error e => .fail (.dataCreateFail (.inl e))
    | .ok _ => return .registered row.uuid
  | .respond (.ok response) | .ended (.ok response) => return response
  | .respond (.error e) | .ended (.error e) => .fail e

def program : RegisterStage → AuthM Unit
  | .ended _ => return
  | st => serve (main cfg st)

def lookedUp (req : EmailPasswordRegisterReq) : Except DBError User → RegisterStage
  | .ok _ => .respond (.error .userExist)
  | .error .recordNotFound =>
    match cfg.pwdGenerate req.password with
    | .error e => .respond (.error (.dataCreateFail (.inr e)))
    | .ok pwdHash => .draw req pwdHash
  | .error e => .respond (.error (.dataQueryFail e))

def drawn (req : EmailPasswordRegisterReq) (pwdHash uuid : String) : RegisterStage :=
  match nickNameOf req.email with
  | none => .respond (.error .panicked)
  | some nickName => .insert ⟨0,uuid,nickName,pwdHash,req.email,false⟩

def inserted (row : User) : Except DBError Unit → RegisterStage
  | .error e => .respond (.error (.dataCreateFail (.inl e)))
  | .ok _ => .respond (.ok (.registered row.uuid))

def script : Script AuthStmt AuthStmt.Answer RegisterStage
  | .lookUp req => some ⟨.takeUser req.email,lookedUp cfg req⟩
  | .draw req pwdHash => some ⟨.generateUUID,drawn req pwdHash⟩
  | .insert row => some ⟨.createUser row,inserted row⟩
  | .respond result => some ⟨.respond result,fun _ => .ended result⟩
  | .ended _ => none

theorem follows : Follows (program cfg) (script cfg) := by
  intro st
  cases st with
  | lookUp req =>
    refine congrArg (Prog.ask _) (funext fun answer => ?_)
    rcases answer with (_ | _) | u
    · change serve (match cfg.pwdGenerate req.password with
        | .error e => .fail (.dataCreateFail (.inr e))
        | .ok pwdHash => insertUser req pwdHash) =
          program cfg (match cfg.pwdGenerate req.password with
        | .error e => .respond (.error (.dataCreateFail (.inr e)))
        | .ok pwdHash => .draw req pwdHash)
      cases cfg.pwdGenerate req.password <;> rfl
    · rfl
    · rfl
  | draw req pwdHash =>
    refine congrArg (Prog.ask _) (funext fun uuid => ?_)
    change _ = program cfg (drawn req pwdHash uuid)
    unfold drawn
    cases nickNameOf req.email with
    | none => rfl
    | some nickName =>
      refine congrArg (Prog.ask _) (funext fun answer => ?_)
      cases answer <;> rfl
  | insert row =>
    refine congrArg (Prog.ask _) (funext fun answer => ?_)
    cases answer <;> rfl
  | respond result => cases result <;> rfl
  | ended result => exact fun q k h => by cases h

theorem lookedUp_cases (req : EmailPasswordRegisterReq) (answer : Except DBError User) :
    (∃ e, lookedUp cfg req answer = .respond (.error e)) ∨
      ∃ pwdHash, answer = .error .recordNotFound ∧ lookedUp cfg req answer = .draw req pwdHash := by
  rcases answer with (_ | _) | u
  · cases hhash : cfg.pwdGenerate req.password with
    | error e => exact Or.inl ⟨.dataCreateFail (.inr e),by simp only [lookedUp,hhash]⟩
    | ok pwdHash => exact Or.inr ⟨pwdHash,rfl,by simp only [lookedUp,hhash]⟩
  · exact Or.inl ⟨_,rfl⟩
  · exact Or.inl ⟨_,rfl⟩

theorem drawn_cases (req : EmailPasswordRegisterReq) (pwdHash uuid : String) :
    drawn req pwdHash uuid = .respond (.error .panicked) ∨
      ∃ nickName, drawn req pwdHash uuid = .insert ⟨0,uuid,nickName,pwdHash,req.email,false⟩ := by
  cases hnick : nickNameOf req.email with
  | none => exact Or.inl (by simp only [drawn,hnick])
  | some nickName => exact Or.inr ⟨nickName,by simp only [drawn,hnick]⟩

/-- The email that was not there when it was looked up, as long as the row is not in. -/
def pending : RegisterStage → Option String
  | .draw req _ => some req.email
  | .insert row => some row.email
  | _ => none

end RegisterStage

section Runs
variable {ι : Type} [DecidableEq ι] (cfg : AuthConfig)

def startRegister (s : AuthState) (reqs : ι → EmailPasswordRegisterReq) : AuthCalls ι :=
  ⟨s,fun i => serve (emailPasswordRegister cfg (reqs i)),[]⟩

def runRegister (s : AuthState) (reqs : ι → EmailPasswordRegisterReq) (schedule : List ι) :
    AuthCalls ι :=
  (startRegister cfg s reqs).run (exec cfg) schedule

/-- No two rows with one email. -/
def OnePerEmail (users : List User) : Prop := users.Pairwise fun u v => u.email ≠ v.email

def looksUp (i : ι) : ι × AuthStmt → Bool
  | (j,.takeUser _) => j = i
  | _ => false

def Inserts (email : String) : ι × AuthStmt → Prop
  | (_,.createUser row) => row.email = email
  | _ => False

/-- A call that inserts its row: since its lookup nobody has inserted the same email. -/
def NotOvertaken (p : AuthCalls ι) (i : ι) : Prop :=
  ∀ row k, p.threads i = .ask (.createUser row) k →
    ¬ ∃ e ∈ since (looksUp i) p.log, Inserts row.email e

end Runs

section Steps
variable {ι : Type} [DecidableEq ι] {cfg : AuthConfig}
open RegisterStage

abbrev RegisterScene (ι : Type) := Scene ι AuthStmt RegisterStage AuthState

structure Booked (sc : RegisterScene ι) : Prop where
  present : ∀ u ∈ sc.state.users, u.deleted = false
  rows : ∀ i row, sc.stages i = .insert row → row.deleted = false
  since_ : ∀ i email, (sc.stages i).pending = some email →
    ((∃ u ∈ sc.state.users, u.email = email) ↔ ∃ e ∈ since (looksUp i) sc.log, Inserts email e)

variable {sc : RegisterScene ι} {i : ι}

theorem Booked.step (h : Booked sc) {s : AuthState} {st : RegisterStage} {q : AuthStmt}
    (hpresent : ∀ u ∈ s.users, u.deleted = false) (hrow : ∀ row, st = .insert row →
      row.deleted = false)
    (husers : ∀ email, (∃ u ∈ s.users, u.email = email) ↔
      (∃ u ∈ sc.state.users, u.email = email) ∨ Inserts email (i,q))
    (hown : ∀ email, st.pending = some email →
      (looksUp i (i,q) = false ∧ (sc.stages i).pending = some email) ∨
      (looksUp i (i,q) = true ∧ ¬ ∃ u ∈ s.users, u.email = email)) :
    Booked ⟨s,Function.update sc.stages i st,sc.log ++ [(i,q)]⟩ := by
  refine ⟨hpresent,fun j row hj => ?_,fun j email hpending => ?_⟩
  · dsimp only at hj
    by_cases hij : j = i
    · subst hij
      rw [Function.update_self] at hj
      exact hrow row hj
    · rw [Function.update_of_ne hij] at hj
      exact h.rows j row hj
  dsimp only at hpending ⊢
  rw [exists_since_concat,husers]
  by_cases hj : j = i
  · subst hj
    rw [Function.update_self] at hpending
    rcases hown email hpending with ⟨hlooks,hold⟩ | ⟨hlooks,hnone⟩
    · rw [h.since_ j email hold]
      simp [hlooks]
    · rw [← husers]
      simp [hlooks,hnone]
  · rw [Function.update_of_ne hj] at hpending
    rw [h.since_ j email hpending]
    have hlooks : looksUp j (i,q) = false := by
      cases q <;> first | rfl | exact decide_eq_false fun heq => hj heq.symm
    simp [hlooks]

theorem Booked.quiet (h : Booked sc) {s : AuthState} {st : RegisterStage} {q : AuthStmt}
    (husers : s.users = sc.state.users) (hno : ∀ email, ¬ Inserts email (i,q))
    (hrow : ∀ row, st = .insert row → row.deleted = false)
    (hown : ∀ email, st.pending = some email →
      (looksUp i (i,q) = false ∧ (sc.stages i).pending = some email) ∨
      (looksUp i (i,q) = true ∧ ¬ ∃ u ∈ sc.state.users, u.email = email)) :
    Booked ⟨s,Function.update sc.stages i st,sc.log ++ [(i,q)]⟩ := by
  refine h.step (fun u hu => h.present u (husers ▸ hu)) hrow (fun email => ?_) ?_
  · rw [husers,or_iff_left (hno email)]
  · rw [husers]
    exact hown

theorem Booked.lookUp (h : Booked sc) (cfg : AuthConfig) (req : EmailPasswordRegisterReq) :
    Booked ⟨(exec cfg (.takeUser req.email) sc.state).2,Function.update sc.stages i
      (lookedUp cfg req (exec cfg (.takeUser req.email) sc.state).1),
      sc.log ++ [(i,AuthStmt.takeUser req.email)]⟩ := by
  refine h.quiet rfl (fun _ => id) (fun row hrow => ?_) fun email hpending => ?_
  · rcases lookedUp_cases cfg req (exec cfg (.takeUser req.email) sc.state).1 with
      ⟨e,heq⟩ | ⟨pwdHash,-,heq⟩ <;> rw [heq] at hrow <;> cases hrow
  refine Or.inr ⟨decide_eq_true rfl,?_⟩
  rcases lookedUp_cases cfg req (exec cfg (.takeUser req.email) sc.state).1 with
    ⟨e,heq⟩ | ⟨pwdHash,hnone,heq⟩
  · rw [heq] at hpending
    cases hpending
  · rw [heq] at hpending
    cases hpending
    rintro ⟨u,hu,hemail⟩
    cases hfind : sc.state.users.find? fun u => !u.deleted && u.email = req.email with
    | some v =>
      simp only [exec,hfind] at hnone
      cases hnone
    | none =>
      have hno := List.find?_eq_none.mp hfind u hu
      simp [h.present u hu,hemail] at hno

theorem Booked.draw (h : Booked sc) {req : EmailPasswordRegisterReq} {pwdHash : String}
    (hst : sc.stages i = .draw req pwdHash) (cfg : AuthConfig) :
    Booked ⟨(exec cfg .generateUUID sc.state).2,Function.update sc.stages i
      (drawn req pwdHash (exec cfg .generateUUID sc.state).1),
        sc.log ++ [(i,AuthStmt.generateUUID)]⟩ := by
  refine h.quiet rfl (fun _ => id) (fun row hrow => ?_) fun email hpending => Or.inl ⟨rfl,?_⟩
  · rcases drawn_cases req pwdHash (cfg.uuid sc.state.tick) with heq | ⟨nickName,heq⟩
    · cases heq.symm.trans hrow
    · cases heq.symm.trans hrow
      rfl
  · rw [hst]
    rcases drawn_cases req pwdHash (cfg.uuid sc.state.tick) with heq | ⟨nickName,heq⟩
    · cases (congrArg pending heq).symm.trans hpending
    · exact (congrArg pending heq).symm.trans hpending

theorem Booked.insert (h : Booked sc) {row : User} (hst : sc.stages i = .insert row)
    (cfg : AuthConfig) : Booked ⟨(exec cfg (.createUser row) sc.state).2,Function.update sc.stages i
      (inserted row (exec cfg (.createUser row) sc.state).1),
        sc.log ++ [(i,AuthStmt.createUser row)]⟩ := by
  have hmem : ∀ u, u ∈ (exec cfg (.createUser row) sc.state).2.users ↔
      u ∈ sc.state.users ∨ u = { row with id := sc.state.nextUser } := by simp [exec]
  refine h.step (fun u hu => ?_) nofun (fun email => ?_) nofun
  · rcases (hmem u).mp hu with hu | rfl
    · exact h.present u hu
    · exact h.rows i row hst
  · constructor
    · rintro ⟨u,hu,rfl⟩
      rcases (hmem u).mp hu with hu | rfl
      · exact Or.inl ⟨u,hu,rfl⟩
      · exact Or.inr rfl
    · rintro (⟨u,hu,hemail⟩ | hemail)
      · exact ⟨u,(hmem u).mpr (Or.inl hu),hemail⟩
      · exact ⟨_,(hmem _).mpr (Or.inr rfl),hemail⟩

theorem Booked.next (h : Booked sc) (i : ι) : Booked (sc.next (script cfg) (exec cfg) i) := by
  cases hst : sc.stages i with
  | lookUp req =>
    have hscript : script cfg (sc.stages i) = some ⟨.takeUser req.email,lookedUp cfg req⟩ := by
      rw [hst]
      rfl
    rw [Scene.next_of_some hscript]
    exact h.lookUp cfg req
  | draw req pwdHash =>
    have hscript : script cfg (sc.stages i) = some ⟨.generateUUID,drawn req pwdHash⟩ := by
      rw [hst]
      rfl
    rw [Scene.next_of_some hscript]
    exact h.draw hst cfg
  | insert row =>
    have hscript : script cfg (sc.stages i) = some ⟨.createUser row,inserted row⟩ := by
      rw [hst]
      rfl
    rw [Scene.next_of_some hscript]
    exact h.insert hst cfg
  | respond result =>
    have hscript : script cfg (sc.stages i) = some ⟨.respond result,fun _ => .ended result⟩ := by
      rw [hst]
      rfl
    rw [Scene.next_of_some hscript]
    exact h.quiet rfl (fun _ => id) nofun nofun
  | ended result =>
    rw [Scene.next_of_none (by rw [hst]; rfl)]
    exact h

theorem next_users (cfg : AuthConfig) (sc : RegisterScene ι) (i : ι) :
    (∃ row, sc.stages i = .insert row ∧ (sc.next (script cfg) (exec cfg) i).state.users =
      sc.state.users ++ [{ row with id := sc.state.nextUser }]) ∨
    ((∀ row, sc.stages i ≠ .insert row) ∧
      (sc.next (script cfg) (exec cfg) i).state.users = sc.state.users) := by
  unfold Scene.next
  cases hst : sc.stages i with
  | insert row => exact Or.inl ⟨row,rfl,rfl⟩
  | _ => exact Or.inr ⟨nofun,rfl⟩

theorem onePerEmail_concat {users : List User} {row : User} (h : OnePerEmail users) :
    OnePerEmail (users ++ [row]) ↔ ¬ ∃ u ∈ users, u.email = row.email := by
  unfold OnePerEmail at *
  rw [List.pairwise_append]
  simp [h]

omit [DecidableEq ι] in
theorem insert_of_ask {p : AuthCalls ι} (hshows : Shows (program cfg) p sc) {i : ι} {row : User} :
    (∃ k, p.threads i = .ask (.createUser row) k) ↔ sc.stages i = .insert row := by
  constructor
  · rintro ⟨k,hask⟩
    obtain ⟨next,hscript⟩ := hshows.asks (follows cfg) hask
    cases hst : sc.stages i <;> rw [hst] at hscript <;> cases hscript
    rfl
  · intro hst
    have hscript : script cfg (sc.stages i) = some ⟨.createUser row,inserted row⟩ := by
      rw [hst]
      rfl
    exact hshows.ask (follows cfg) hscript

/-- A step keeps the emails apart exactly if its insertion is not overtaken. -/
theorem Booked.onePerEmail_next {p : AuthCalls ι} (hshows : Shows (program cfg) p sc)
    (h : Booked sc) (hone : OnePerEmail p.state.users) (i : ι) :
    OnePerEmail (p.next (exec cfg) i).state.users ↔ NotOvertaken p i := by
  rw [(hshows.next (follows cfg) i).state]
  rw [hshows.state] at hone
  rcases next_users cfg sc i with ⟨row,hst,husers⟩ | ⟨hno,husers⟩
  · rw [husers,onePerEmail_concat hone]
    have hsince := h.since_ i row.email (by rw [hst]; rfl)
    dsimp only
    rw [hsince,← hshows.log]
    constructor
    · intro hnone row' k hask
      have hst' := (insert_of_ask hshows).mp ⟨k,hask⟩
      rw [hst] at hst'
      cases hst'
      exact hnone
    · intro hcall
      obtain ⟨k,hask⟩ := (insert_of_ask hshows).mpr hst
      exact hcall row k hask
  · rw [husers]
    refine iff_of_true hone fun row k hask => ?_
    exact (hno row ((insert_of_ask hshows).mp ⟨k,hask⟩)).elim

end Steps

section Main
variable {ι : Type} [DecidableEq ι] (cfg : AuthConfig)

theorem runRegister_concat (s : AuthState) (reqs : ι → EmailPasswordRegisterReq) (schedule : List ι)
    (i : ι) : runRegister cfg s reqs (schedule ++ [i]) =
      (runRegister cfg s reqs schedule).next (exec cfg) i :=
  Pool.run_concat (exec cfg) schedule i _

theorem booked_run {s : AuthState} (hpresent : ∀ u ∈ s.users, u.deleted = false)
    (reqs : ι → EmailPasswordRegisterReq) (schedule : List ι) :
    InScene (RegisterStage.program cfg) Booked (runRegister cfg s reqs schedule) := by
  induction schedule using List.reverseRecOn with
  | nil =>
    refine ⟨⟨s,fun i => .lookUp (reqs i),[]⟩,⟨rfl,fun i => rfl,rfl⟩,hpresent,?_,?_⟩
    · intro i row hst
      cases hst
    · intro i email hpending
      cases hpending
  | append_singleton schedule i ih =>
    rw [runRegister_concat]
    exact ih.next (RegisterStage.follows cfg) fun sc _ h => h.next i

/-- At no time two rows have one email, exactly if no insertion is overtaken by another
of the same email since the lookup. No row is deleted: nothing in the code does that. -/
theorem one_account_iff_not_overtaken {s : AuthState} (hone : OnePerEmail s.users)
    (hpresent : ∀ u ∈ s.users, u.deleted = false) (reqs : ι → EmailPasswordRegisterReq)
    (schedule : List ι) :
    (∀ before after, schedule = before ++ after →
      OnePerEmail (runRegister cfg s reqs before).state.users) ↔
    Pool.Turns (exec cfg) NotOvertaken (startRegister cfg s reqs) schedule := by
  refine beginnings_iff (P := fun before => OnePerEmail (runRegister cfg s reqs before).state.users)
    hone ?_
  intro before i after _ hbefore
  obtain ⟨sc,hshows,hbooked⟩ := booked_run cfg hpresent reqs before
  rw [runRegister_concat]
  exact hbooked.onePerEmail_next hshows hbefore i

end Main

/-- A server where every password can be hashed. -/
def plainServer : AuthConfig where
  whiteList := []
  compile := fun _ => none
  parseToken := fun _ => .error "invalid"
  genToken := fun _ _ => .error "no key"
  pwdVerify := fun pwd hash => pwd = hash
  pwdGenerate := fun pwd => .ok pwd
  format := fun _ => ""
  clock := fun n => n
  uuid := fun n => if n = 0 then "u" else "v"

def noUsers : AuthState := ⟨[],1,fun _ => none,0⟩

def sameEmail (_ : Bool) : EmailPasswordRegisterReq := ⟨"a@b","pw"⟩

theorem one_account_iff_not_overtaken_in_turn :
    Pool.Turns (exec plainServer) NotOvertaken (startRegister plainServer noUsers sameEmail)
      [true,true,true,true,false,false] := by
  refine (one_account_iff_not_overtaken plainServer (s := noUsers) List.Pairwise.nil (by decide)
    sameEmail [true,true,true,true,false,false]).mp ?_
  intro before after hsplit
  have hprefix : before ∈ [true,true,true,true,false,false].inits :=
    (List.mem_inits _ _).mpr ⟨after,hsplit.symm⟩
  have hall : ∀ before ∈ [true,true,true,true,false,false].inits,
      OnePerEmail (runRegister plainServer noUsers sameEmail before).state.users := by
    unfold OnePerEmail
    decide
  exact hall before hprefix

/-- Both look the email up before either inserts it. -/
theorem two_accounts_one_email :
    ¬ OnePerEmail (runRegister plainServer noUsers sameEmail
      [true,false,true,false,true,false]).state.users := by
  unfold OnePerEmail
  decide

end Imy.Auth
