import Mathlib.Data.List.Infix
import Imy.Lib.NamedSets
import Imy.Lib.Since
import Imy.Lib.Transition
import Imy.Svc.WsHub
set_option autoImplicit false

namespace Imy.Svc
open Lib

section Hub
variable {κ : Type}

def WsHub.users (h : WsHub κ) : NamedSets String κ := ⟨h.byUUID,h.sets⟩

variable [DecidableEq κ]

theorem users_getLock (h : WsHub κ) (c : κ) : (getLock h c).2.users = h.users := by
  unfold getLock
  split <;> rfl

theorem users_register (h : WsHub κ) (uuid : String) (conn : κ) :
    (register h uuid conn).users = h.users.add uuid conn := by
  rw [register,users_getLock]
  unfold userSet NamedSets.add
  cases hu : h.byUUID uuid <;> simp only [WsHub.users,hu] <;> rfl

theorem users_unregister (h : WsHub κ) (uuid : String) (conn : κ) :
    (unregister h uuid conn).users = h.users.drop uuid conn := by
  change (dropFromSet h uuid conn).users = _
  unfold dropFromSet
  cases hu : h.byUUID uuid with
  | none => rw [NamedSets.drop_of_none hu]
  | some set =>
    rw [NamedSets.drop_of_some hu]
    dsimp only
    split
    · rename_i hempty
      exact (if_pos hempty).symm
    · rename_i hfull
      exact (if_neg hfull).symm

end Hub

section Calls
variable {ι κ : Type} {h : NamedSets String κ} {i : ι} {call call' : Call κ} {u : String} {c : κ}

/-- What the step takes out, by `Unregister` or by the clean-up after a failed write. -/
def drops (w : Callers ι κ) : WsEvent ι κ → Option (String × κ)
  | .unregister uuid conn => some (uuid,conn)
  | .run i =>
    match w.calls i with
    | .writing loop conn (.cleaning _) => loop.map fun loop => (loop.uuid,conn)
    | _ => none
  | _ => none

def Place.unwritten : Place → Bool
  | .lookup | .creating | .locking _ | .inside _ => true
  | .cleaning _ | .closing _ | .unlocking _ => false

def Call.sendsTo : Call κ → Option (String × Nat)
  | .counting uuid set | .starting uuid set => some (uuid,set)
  | .ranging loop => some (loop.uuid,loop.set)
  | .writing loop _ _ => loop.map fun loop => (loop.uuid,loop.set)
  | .idle => none

theorem sendsTo_afterWrite (loop : Option (SendLoop κ)) (conn : κ) (place : Place) :
    (afterWrite loop).sendsTo = (Call.writing loop conn place).sendsTo := by
  cases loop <;> rfl

def WsEvent.caller : WsEvent ι κ → Option ι
  | .withConnWrite i _ | .sendJSON i _ => some i
  | _ => none

def Call.Owes (u : String) (set : Nat) (c : κ) : Call κ → Prop
  | .idle => False
  | .counting uuid s | .starting uuid s => uuid = u ∧ s = set
  | .ranging loop => (loop.uuid = u ∧ loop.set = set) ∧ c ∈ loop.todo
  | .writing loop conn place => ∃ sending, loop = some sending ∧
    (sending.uuid = u ∧ sending.set = set) ∧ (c ∈ sending.todo ∨ conn = c ∧ place.unwritten)

def Call.Comes (u : String) (met : κ → Prop) : Call κ → Prop
  | .idle => True
  | .counting uuid _ | .starting uuid _ => uuid = u
  | .ranging loop => loop.uuid = u
  | .writing loop conn _ => (∃ sending, loop = some sending ∧ sending.uuid = u) ∧ met conn

theorem Call.Comes.imp {met met' : κ → Prop} (hcomes : call.Comes u met) (h : ∀ c, met c → met' c) :
    call.Comes u met' := by
  cases call with
  | writing loop conn place => exact ⟨hcomes.1,h conn hcomes.2⟩
  | _ => exact hcomes

structure SetsSound (w : Callers ι κ) : Prop where
  users : w.hub.users.Sound
  found : ∀ i u s, (w.calls i).sendsTo = some (u,s) → w.hub.users.Found u s

theorem setsSound_noCalls : SetsSound (noCalls : Callers ι κ) where
  users := {
    known := nofun
    apart := nofun
    nodup := fun s => by simp [noCalls,newWsHub,WsHub.users,NamedSets.get] }
  found := nofun

variable [DecidableEq κ]

inductive Goes (h : NamedSets String κ) (i : ι) : WsEvent ι κ → Call κ → Call κ → Prop
  | alone (conn : κ) : Goes h i (.withConnWrite i conn) .idle (.writing none conn .lookup)
  | look {uuid : String} {set : Nat} (known : h.byName uuid = some set) :
      Goes h i (.sendJSON i uuid) .idle (.counting uuid set)
  | nobody {uuid : String} {set : Nat} (empty : h.get set = []) :
    Goes h i (.run i) (.counting uuid set) .idle
  | count {uuid : String} {set : Nat} : Goes h i (.run i) (.counting uuid set) (.starting uuid set)
  | enter {uuid : String} {set : Nat} :
      Goes h i (.run i) (.starting uuid set) (.ranging ⟨uuid,set,h.get set⟩)
  | range {loop : SendLoop κ} {conn : κ} (mem : conn ∈ h.get loop.set) :
      Goes h i (.range i conn) (.ranging loop)
        (.writing (some { loop with todo := loop.todo.erase conn }) conn .lookup)
  | finish {loop : SendLoop κ} (done : ∀ c ∈ loop.todo, c ∉ h.get loop.set) :
      Goes h i (.run i) (.ranging loop) .idle
  | write {loop : Option (SendLoop κ)} {conn : κ} {l : Nat} {place : Place} (ok : Bool) :
      Goes h i (.written i ok) (.writing loop conn (.inside l)) (.writing loop conn place)
  | move {loop : Option (SendLoop κ)} {conn : κ} {place place' : Place}
      (same : place'.unwritten = place.unwritten) :
      Goes h i (.run i) (.writing loop conn place) (.writing loop conn place')
  | leave {loop : Option (SendLoop κ)} {conn : κ} {l : Nat} :
      Goes h i (.run i) (.writing loop conn (.unlocking l)) (afterWrite loop)

variable {w w' : Callers ι κ} {e : WsEvent ι κ}

theorem Goes.ne_register (hg : Goes h i e call call')
    (u : String) (c : κ) : e ≠ .register u c := by
  cases hg <;> exact nofun

theorem Goes.sendsTo (hg : Goes h i e call call') {s : Nat} (hu : call'.sendsTo = some (u,s)) :
    call.sendsTo = some (u,s) ∨ h.byName u = some s := by
  cases hg with
  | alone | nobody | finish => cases hu
  | look known =>
    cases hu
    exact .inr known
  | leave =>
    rw [sendsTo_afterWrite] at hu
    exact .inl hu
  | _ => exact .inl hu

theorem Goes.owes {set : Nat} (hg : Goes h i e call call') (ho : call.Owes u set c)
    (hc : c ∈ h.get set) :
    (∃ ok loop l, e = .written i ok ∧ call = .writing loop c (.inside l)) ∨ call'.Owes u set c := by
  cases hg with
  | alone | look => cases ho
  | nobody empty =>
    obtain ⟨-,rfl⟩ := ho
    rw [empty] at hc
    cases hc
  | count => exact .inr ho
  | enter =>
    obtain ⟨rfl,rfl⟩ := ho
    exact .inr ⟨⟨rfl,rfl⟩,hc⟩
  | @range loop conn mem =>
    refine .inr ⟨_,rfl,ho.1,?_⟩
    rcases eq_or_ne c conn with rfl | hne
    · exact .inr ⟨rfl,rfl⟩
    · exact .inl ((List.mem_erase_of_ne hne).mpr ho.2)
  | finish done =>
    obtain ⟨⟨-,rfl⟩,htodo⟩ := ho
    exact absurd hc (done c htodo)
  | @write loop conn l place ok =>
    obtain ⟨sending,rfl,hfor,htodo | ⟨rfl,-⟩⟩ := ho
    · exact .inr ⟨sending,rfl,hfor,.inl htodo⟩
    · exact .inl ⟨ok,_,l,rfl,rfl⟩
  | move same =>
    obtain ⟨sending,rfl,hfor,hleft⟩ := ho
    refine .inr ⟨sending,rfl,hfor,hleft.imp_right ?_⟩
    rw [same]
    exact id
  | leave =>
    obtain ⟨sending,rfl,hfor,htodo | ⟨-,hplace⟩⟩ := ho
    · exact .inr ⟨hfor,htodo⟩
    · cases hplace

theorem Goes.comes {met : κ → Prop} (hg : Goes h i e call call') (hown : e.caller ≠ some i)
    (hcomes : call.Comes u met) (hmet : ∀ conn, e = .range i conn → ∀ loop, call = .ranging loop →
      conn ∈ h.get loop.set → met conn) : call'.Comes u met := by
  cases hg with
  | alone | look => exact absurd rfl hown
  | nobody | finish => trivial
  | count | enter => exact hcomes
  | range mem => exact ⟨⟨_,rfl,hcomes⟩,hmet _ rfl _ rfl mem⟩
  | write | move => exact hcomes
  | leave =>
    obtain ⟨⟨sending,rfl,hfor⟩,-⟩ := hcomes
    exact hfor

theorem Goes.range_caller {j : ι} {conn : κ} (hg : Goes h j (.range i conn) call call') :
    i = j := by
  cases hg
  rfl

theorem goes_of_writeStep {h : WsHub κ} {loop : Option (SendLoop κ)} {conn : κ} {place : Place}
    (hcall : w.calls i = .writing loop conn place)
    (hstep : writeStep w.hub loop conn place = some (h,call)) :
    Goes w.hub.users i (.run i) (.writing loop conn place) call ∧
      h.users = (drops w (.run i)).elim w.hub.users fun (u,c) => w.hub.users.drop u c := by
  simp only [drops,hcall]
  cases place with
  | lookup =>
    simp only [writeStep] at hstep
    split at hstep <;> cases hstep <;> exact ⟨.move rfl,rfl⟩
  | creating =>
    cases hstep
    exact ⟨.move rfl,users_getLock ..⟩
  | locking l =>
    rw [writeStep,Option.ite_none_right_eq_some] at hstep
    cases hstep.2
    exact ⟨.move rfl,rfl⟩
  | inside l => cases hstep
  | cleaning l =>
    cases loop with
    | none => cases hstep
    | some loop =>
      cases hstep
      exact ⟨.move rfl,users_unregister ..⟩
  | closing l =>
    cases hstep
    exact ⟨.move rfl,rfl⟩
  | unlocking l =>
    cases hstep
    exact ⟨.leave,rfl⟩

variable [DecidableEq ι]

theorem next_cases (hstep : next w e = some w') :
    (∃ u c, e = .register u c ∧ w'.calls = w.calls ∧ w'.hub.users = w.hub.users.add u c) ∨
    (∃ u c, e = .unregister u c ∧ w'.calls = w.calls ∧ w'.hub.users = w.hub.users.drop u c) ∨
    (∃ i u, e = .sendJSON i u ∧ w' = w) ∨
    ∃ i call, w'.calls = Function.update w.calls i call ∧ Goes w.hub.users i e (w.calls i) call ∧
      w'.hub.users = (drops w e).elim w.hub.users fun (u,c) => w.hub.users.drop u c := by
  cases e with
  | register uuid conn =>
    cases hstep
    exact .inl ⟨uuid,conn,rfl,rfl,users_register ..⟩
  | unregister uuid conn =>
    cases hstep
    exact .inr (.inl ⟨uuid,conn,rfl,rfl,users_unregister ..⟩)
  | withConnWrite i conn =>
    simp only [next] at hstep
    split at hstep <;> cases hstep
    rename_i hcall
    exact .inr (.inr (.inr ⟨i,_,rfl,hcall ▸ .alone conn,rfl⟩))
  | sendJSON i uuid =>
    simp only [next] at hstep
    split at hstep
    · rename_i hcall
      split at hstep <;> cases hstep
      · rename_i set hset
        exact .inr (.inr (.inr ⟨i,_,rfl,hcall ▸ .look hset,rfl⟩))
      · exact .inr (.inr (.inl ⟨i,uuid,rfl,rfl⟩))
    · cases hstep
  | range i conn =>
    simp only [next] at hstep
    split at hstep
    · rename_i loop hcall
      rw [Option.ite_none_right_eq_some] at hstep
      cases hstep.2
      exact .inr (.inr (.inr ⟨i,_,rfl,hcall ▸ .range hstep.1,rfl⟩))
    · cases hstep
  | written i ok =>
    simp only [next] at hstep
    split at hstep <;> cases hstep
    rename_i loop conn l hcall
    exact .inr (.inr (.inr ⟨i,_,rfl,hcall ▸ .write ok,rfl⟩))
  | run i =>
    simp only [next,Option.map_eq_some_iff] at hstep
    obtain ⟨⟨h,call⟩,hstep,rfl⟩ := hstep
    refine .inr (.inr (.inr ⟨i,call,rfl,?_⟩))
    cases hcall : w.calls i with
    | idle => simp [hcall,callStep] at hstep
    | counting uuid set =>
      rw [hcall] at hstep
      cases hstep
      refine ⟨?_,by simp only [drops,hcall]; rfl⟩
      split
      · rename_i hempty
        exact .nobody hempty
      · exact .count
    | starting uuid set =>
      rw [hcall] at hstep
      cases hstep
      exact ⟨.enter,by simp only [drops,hcall]; rfl⟩
    | ranging loop =>
      rw [hcall,callStep,Option.ite_none_right_eq_some] at hstep
      cases hstep.2
      exact ⟨.finish hstep.1,by simp only [drops,hcall]; rfl⟩
    | writing loop conn place =>
      rw [hcall,callStep] at hstep
      exact goes_of_writeStep hcall hstep

theorem users_next (hstep : next w e = some w') :
    (∃ u c, e = .register u c ∧ w'.hub.users = w.hub.users.add u c) ∨
    (∀ u c, e ≠ .register u c) ∧
      w'.hub.users = (drops w e).elim w.hub.users fun (u,c) => w.hub.users.drop u c := by
  obtain ⟨u,c,he,-,husers⟩ | ⟨u,c,rfl,-,husers⟩ | ⟨i,u,rfl,rfl⟩ | ⟨i,call,-,hgoes,husers⟩ :=
    next_cases hstep
  · exact .inl ⟨u,c,he,husers⟩
  · exact .inr ⟨nofun,husers⟩
  · exact .inr ⟨nofun,rfl⟩
  · exact .inr ⟨hgoes.ne_register,husers⟩

theorem SetsSound.next (hs : SetsSound w) (hstep : next w e = some w') : SetsSound w' := by
  have hfound : ∀ i u s, (w'.calls i).sendsTo = some (u,s) → w.hub.users.Found u s := by
    intro j u s hj
    obtain ⟨-,-,-,hcalls,-⟩ | ⟨-,-,-,hcalls,-⟩ | ⟨-,-,-,rfl⟩ | ⟨i,call,hcalls,hgoes,-⟩ :=
      next_cases hstep
    · exact hs.found j u s (hcalls ▸ hj)
    · exact hs.found j u s (hcalls ▸ hj)
    · exact hs.found j u s hj
    · rw [hcalls] at hj
      rcases eq_or_ne j i with rfl | hne
      · rw [Function.update_self] at hj
        exact (hgoes.sendsTo hj).elim (hs.found j u s) hs.users.found
      · rw [Function.update_of_ne hne] at hj
        exact hs.found j u s hj
  obtain ⟨u,c,-,husers⟩ | ⟨-,husers⟩ := users_next hstep
  · exact ⟨husers ▸ hs.users.add u c,fun i v s hi => husers ▸ (hfound i v s hi).add hs.users u c⟩
  · cases hdrops : drops w e with
    | none =>
      rw [hdrops] at husers
      exact ⟨husers ▸ hs.users,fun i v s hi => husers ▸ hfound i v s hi⟩
    | some p =>
      rw [hdrops] at husers
      exact ⟨husers ▸ hs.users.drop p.1 p.2,fun i v s hi =>
        husers ▸ (hfound i v s hi).drop hs.users p.1 p.2⟩

theorem setsSound_run {events : List (WsEvent ι κ)} (hrun : runCallers noCalls events = some w) :
    SetsSound w :=
  runs_keep (C := fun _ _ => True) setsSound_noCalls (fun _ _ _ hs _ hstep => hs.next hstep) events
    (fun _ _ _ _ _ _ => trivial) hrun

section Registered
variable {events : List (WsEvent ι κ)}

/-- `Register` was called for the connection, and since then nothing took it out. -/
def RegisteredFor (u : String) (c : κ) (events : List (WsEvent ι κ)) : Prop :=
  Since (fun before e => ∀ w, runCallers noCalls before = some w → drops w e ≠ some (u,c))
    (fun _ e => e = .register u c) events

theorem has_iff_registeredFor (hrun : runCallers noCalls events = some w) :
    w.hub.users.Has u c ↔ RegisteredFor u c events := by
  induction events using List.reverseRecOn generalizing w with
  | nil =>
    cases hrun
    exact iff_of_false (fun ⟨_,hu,_⟩ => nomatch hu) not_since_nil
  | append_singleton events e ih =>
    rw [runCallers,runs_concat,Option.bind_eq_some_iff] at hrun
    obtain ⟨v,hbefore,hstep⟩ := hrun
    have hv := ih hbefore
    have hs := (setsSound_run hbefore).users
    have hkeeps : (∀ v', runCallers noCalls events = some v' → drops v' e ≠ some (u,c)) ↔
        drops v e ≠ some (u,c) :=
      ⟨fun h => h v hbefore,fun h v' hv' => by cases hbefore.symm.trans hv'; exact h⟩
    rw [RegisteredFor,since_snoc,hkeeps,← RegisteredFor,← hv]
    obtain ⟨u',c',rfl,husers⟩ | ⟨hno,husers⟩ := users_next hstep
    · rw [husers,hs.has_add]
      have hdrops : drops v (.register u' c') ≠ some (u,c) := nofun
      refine or_congr ⟨?_,?_⟩ (iff_and_self.mpr fun _ => hdrops)
      · rintro ⟨rfl,rfl⟩
        rfl
      · rintro ⟨⟩
        exact ⟨rfl,rfl⟩
    · rw [or_iff_right (hno u c),husers]
      cases hdrops : drops v e with
      | none => simp
      | some p =>
        rw [Option.elim_some,hs.has_drop,and_comm]
        refine and_congr_left fun _ => not_congr ?_
        rw [Option.some.injEq,Prod.ext_iff,eq_comm,eq_comm (a := c)]

end Registered

section Pushes
variable {before mid : List (WsEvent ι κ)}

/-- The caller writes to the connection in the course of these events. -/
def WritesTo (i : ι) (c : κ) (before mid : List (WsEvent ι κ)) : Prop :=
  ∃ past ok rest, mid = past ++ .written i ok :: rest ∧
    ∃ w loop l, runCallers noCalls (before ++ past) = some w ∧
      w.calls i = .writing loop c (.inside l)

theorem next_caller (hstep : next w e = some w') (i : ι) (hown : e.caller ≠ some i) :
    w'.calls i = w.calls i ∧ (∀ conn, e ≠ .range i conn) ∨
      Goes w.hub.users i e (w.calls i) (w'.calls i) := by
  obtain ⟨u,c,rfl,hcalls,-⟩ | ⟨u,c,rfl,hcalls,-⟩ | ⟨j,u,rfl,rfl⟩ | ⟨j,call,hcalls,hgoes,-⟩ :=
    next_cases hstep
  · exact .inl ⟨congrFun hcalls i,nofun⟩
  · exact .inl ⟨congrFun hcalls i,nofun⟩
  · exact .inl ⟨rfl,nofun⟩
  · rw [hcalls]
    rcases eq_or_ne i j with rfl | hne
    · rw [Function.update_self]
      exact .inr hgoes
    · rw [Function.update_of_ne hne]
      refine .inl ⟨rfl,?_⟩
      rintro conn rfl
      exact hne hgoes.range_caller

/-- A set stays that of the user for as long as the user has connections. -/
theorem byName_next {set : Nat} (hstep : next w e = some w')
    (hset : w.hub.users.byName u = some set)
    (hhas : w'.hub.users.Has u c) : w'.hub.users.byName u = some set := by
  obtain ⟨s,hs,-⟩ := hhas
  obtain ⟨v,d,-,husers⟩ | ⟨-,husers⟩ := users_next hstep
  · rw [husers]
    exact NamedSets.byName_add hset v d
  · cases hdrops : drops w e with
    | none =>
      rw [husers,hdrops]
      exact hset
    | some p =>
      rw [husers,hdrops] at hs ⊢
      cases hset.symm.trans (NamedSets.byName_of_drop hs)
      exact hs

theorem next_sendJSON (hstep : next w (.sendJSON i u) = some w') (hhas : w'.hub.users.Has u c) :
    ∃ set, w'.hub.users.byName u = some set ∧ (w'.calls i).Owes u set c := by
  obtain ⟨set,hset,-⟩ := hhas
  refine ⟨set,hset,?_⟩
  simp only [next] at hstep
  split at hstep
  · split at hstep <;> cases hstep
    · rename_i hfound
      cases hfound.symm.trans hset
      dsimp only
      rw [Function.update_self]
      exact ⟨rfl,rfl⟩
    · rename_i hnone
      cases hnone.symm.trans hset
  · cases hstep

theorem comes_sendJSON (hstep : next w (.sendJSON i u) = some w') (met : κ → Prop) :
    (w'.calls i).Comes u met := by
  simp only [next] at hstep
  split at hstep
  · rename_i hidle
    split at hstep <;> cases hstep
    · dsimp only
      rw [Function.update_self]
      exact rfl
    · rw [hidle]
      trivial
  · cases hstep

theorem runCallers_concat (as : List (WsEvent ι κ)) (a : WsEvent ι κ) :
    runCallers noCalls (as ++ [a]) = (runCallers noCalls as).bind fun w => next w a :=
  runs_concat ..

/-- As long as the connection is registered, a call has it before it until it has written
to it. -/
theorem writesTo_or_owes (hrun : runCallers noCalls (before ++ .sendJSON i u :: mid) = some w)
    (hown : ∀ e ∈ mid, e.caller ≠ some i)
    (hreg : ∀ past rest, mid = past ++ rest → RegisteredFor u c (before ++ .sendJSON i u :: past)) :
    WritesTo i c (before ++ [.sendJSON i u]) mid ∨
      ∃ set, w.hub.users.byName u = some set ∧ (w.calls i).Owes u set c := by
  induction mid using List.reverseRecOn generalizing w with
  | nil =>
    have hhas := (has_iff_registeredFor hrun).mpr (hreg [] [] rfl)
    rw [runCallers_concat,Option.bind_eq_some_iff] at hrun
    obtain ⟨v,-,hstep⟩ := hrun
    exact .inr (next_sendJSON hstep hhas)
  | append_singleton mid e ih =>
    have hhas := (has_iff_registeredFor hrun).mpr (hreg (mid ++ [e]) [] (List.append_nil _).symm)
    rw [← List.cons_append,← List.append_assoc,runCallers_concat,Option.bind_eq_some_iff] at hrun
    obtain ⟨v,hbefore,hstep⟩ := hrun
    have hhas' := (has_iff_registeredFor hbefore).mpr (hreg mid [e] rfl)
    rcases ih hbefore (fun e he => hown e (List.mem_append_left _ he)) (fun past rest hsplit =>
        hreg past (rest ++ [e]) (by rw [hsplit,List.append_assoc])) with
      ⟨past,ok,rest,rfl,hw⟩ | ⟨set,hset,howes⟩
    · exact .inl ⟨past,ok,rest ++ [e],by rw [List.append_assoc]; rfl,hw⟩
    · have hgo : (∃ ok loop l, e = .written i ok ∧ v.calls i = .writing loop c (.inside l)) ∨
          (w.calls i).Owes u set c := by
        rcases next_caller hstep i (hown e (List.mem_append_right _ List.mem_cons_self)) with
          ⟨hsame,-⟩ | hgoes
        · exact .inr (hsame ▸ howes)
        · exact hgoes.owes howes ((NamedSets.has_of_byName hset).mp hhas')
      rcases hgo with ⟨ok,loop,l,rfl,hcall⟩ | howes
      · refine .inl ⟨mid,ok,[],rfl,v,loop,l,?_,hcall⟩
        rwa [List.append_assoc]
      · exact .inr ⟨set,byName_next hstep hset hhas,howes⟩

/-- Whom a call has come to was registered at that time. -/
theorem comes_run (hrun : runCallers noCalls (before ++ .sendJSON i u :: mid) = some w)
    (hown : ∀ e ∈ mid, e.caller ≠ some i) : (w.calls i).Comes u fun c =>
      ∃ past rest, mid = past ++ rest ∧ RegisteredFor u c (before ++ .sendJSON i u :: past) := by
  induction mid using List.reverseRecOn generalizing w with
  | nil =>
    rw [runCallers_concat,Option.bind_eq_some_iff] at hrun
    obtain ⟨v,-,hstep⟩ := hrun
    exact comes_sendJSON hstep _
  | append_singleton mid e ih =>
    rw [← List.cons_append,← List.append_assoc,runCallers_concat,Option.bind_eq_some_iff] at hrun
    obtain ⟨v,hbefore,hstep⟩ := hrun
    have hcomes := ih hbefore fun e he => hown e (List.mem_append_left _ he)
    have hmore : (v.calls i).Comes u fun c =>
        ∃ past rest, mid ++ [e] = past ++ rest ∧
            RegisteredFor u c (before ++ .sendJSON i u :: past) :=
      hcomes.imp fun c ⟨past,rest,hsplit,hreg⟩ =>
        ⟨past,rest ++ [e],by rw [hsplit,List.append_assoc],hreg⟩
    have hcaller := hown e (List.mem_append_right _ List.mem_cons_self)
    rcases next_caller hstep i hcaller with ⟨hsame,-⟩ | hgoes
    · rwa [hsame]
    · refine hgoes.comes hcaller hmore fun conn he loop hcall hmem => ⟨mid,[e],rfl,?_⟩
      have hfor : loop.uuid = u := by
        rw [hcall] at hcomes
        exact hcomes
      refine (has_iff_registeredFor hbefore).mp
        (((setsSound_run hbefore).found i u loop.set ?_).has hmem)
      rw [hcall,← hfor]
      rfl

/-- A `SendJSON` that has returned has written to every connection that was registered for
the user throughout, and it writes to none that was not registered for the user at some
time of the call. -/
theorem pushes_reach_registered (before mid : List (WsEvent ι κ)) (i : ι)
    (u : String) (w : Callers ι κ)
    (hrun : runCallers noCalls (before ++ .sendJSON i u :: mid) = some w)
    (hown : ∀ e ∈ mid, e.caller ≠ some i) (hreturned : w.calls i = .idle) (c : κ) :
    ((∀ past rest, mid = past ++ rest → RegisteredFor u c (before ++ .sendJSON i u :: past)) →
        WritesTo i c (before ++ [.sendJSON i u]) mid) ∧
      (WritesTo i c (before ++ [.sendJSON i u]) mid →
        ∃ past rest, mid = past ++ rest ∧ RegisteredFor u c (before ++ .sendJSON i u :: past)) := by
  refine ⟨fun hreg => ?_,?_⟩
  · refine (writesTo_or_owes hrun hown hreg).resolve_right ?_
    rintro ⟨set,-,howes⟩
    rw [hreturned] at howes
    exact howes
  · rintro ⟨past,ok,rest,rfl,v,loop,l,hbefore,hcall⟩
    rw [List.append_assoc] at hbefore
    have hcomes := comes_run hbefore fun e he => hown e (List.mem_append_left _ he)
    rw [hcall] at hcomes
    obtain ⟨-,past',rest',rfl,hreg⟩ := hcomes
    exact ⟨past',_,List.append_assoc ..,hreg⟩

end Pushes

end Calls

/-- While the loop goes on, one connection comes and another one goes. -/
def comeAndGo : List (WsEvent Nat Nat) :=
  [.run 0,.run 0,.register "anne" 7,.unregister "anne" 6,.range 0 5,.run 0,.run 0,
    .written 0 true,.run 0,.run 0]

theorem pushes_reach_registered_come_and_go :
    WritesTo 0 5 [.register "anne" 5,.register "anne" 6,.sendJSON 0 "anne"] comeAndGo := by
  have hrun : (runCallers noCalls ([.register "anne" 5,.register "anne" 6] ++
    .sendJSON 0 "anne" :: comeAndGo)).map
      (fun w => w.calls 0) = some .idle := by decide
  obtain ⟨w,hw,hidle⟩ := Option.map_eq_some_iff.mp hrun
  have hreg : ∀ past ∈ comeAndGo.inits,
      (runCallers noCalls ([.register "anne" 5,.register "anne" 6] ++
        .sendJSON 0 "anne" :: past)).map
        (fun w => (w.hub.byUUID "anne",decide (5 ∈ w.hub.sets.getD 0 []))) =
          some (some 0,true) := by decide
  refine (pushes_reach_registered [.register "anne" 5,.register "anne" 6] comeAndGo 0 "anne" w hw
    (by decide) hidle
    5).1 fun past rest hsplit => ?_
  obtain ⟨v,hv,hmem⟩ :=
    Option.map_eq_some_iff.mp (hreg past ((List.mem_inits ..).mpr ⟨rest,hsplit.symm⟩))
  rw [Prod.mk.injEq,decide_eq_true_iff] at hmem
  exact (has_iff_registeredFor hv).mp ⟨0,hmem⟩

end Imy.Svc
