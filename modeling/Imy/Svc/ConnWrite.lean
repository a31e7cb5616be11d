import Imy.Lib.Lists
import Imy.Lib.LockTable
import Imy.Lib.Transition
import Imy.Svc.WsHub
set_option autoImplicit false

/-!
When two callers are inside `fn` for one connection. The mutexes of the hub are a lock
table, from which `Unregister` and the clean-up of `SendJSON` drop entries.
-/

namespace Imy.Svc
open Imy.Lib

/-- The mutex that a caller has and with which it has still to go through `fn`. -/
def Place.pending : Place → Option Nat
  | .locking l | .inside l | .cleaning l | .closing l => some l
  | _ => none

def Place.holds : Place → Option Nat
  | .inside l | .cleaning l | .closing l | .unlocking l => some l
  | _ => none

def Place.inFn : Place → Bool
  | .inside _ | .cleaning _ | .closing _ => true
  | _ => false

section Calls
variable {ι κ : Type}

def Call.pending : Call κ → Option (κ × Nat)
  | .writing _ conn place => place.pending.map fun l => (conn,l)
  | _ => none

def Call.holds : Call κ → Option Nat
  | .writing _ _ place => place.holds
  | _ => none

/-- The caller is inside `fn` for the connection. -/
def Call.InFn (call : Call κ) (c : κ) : Prop :=
  ∃ loop place, call = .writing loop c place ∧ place.inFn = true

def OneWriter (w : Callers ι κ) : Prop :=
  ∀ i j c, (w.calls i).InFn c → (w.calls j).InFn c → i = j

def makes (w : Callers ι κ) : WsEvent ι κ → Option κ
  | .register _ conn => if (w.hub.locks conn).isNone then some conn else none
  | .run i =>
    match w.calls i with
    | .writing _ conn .creating => if (w.hub.locks conn).isNone then some conn else none
    | _ => none
  | _ => none

/-- No mutex is made for a connection while a caller that has an older one waits for it or
is inside `fn`. -/
def Unreplaced (w : Callers ι κ) (e : WsEvent ι κ) : Prop :=
  ∀ c, makes w e = some c → ∀ j loop place, w.calls j = .writing loop c place → place.pending = none

def Callers.table (w : Callers ι κ) : LockTable ι κ :=
  ⟨w.hub.locks,w.hub.mutexes,fun i => (w.calls i).pending,fun i => (w.calls i).holds⟩

theorem Call.InFn.works {w : Callers ι κ} {i : ι} {c : κ} (h : (w.calls i).InFn c) :
    w.table.Works i c := by
  obtain ⟨loop,place,hcall,hin⟩ := h
  cases place with
  | inside l | cleaning l | closing l =>
    refine ⟨l,?_,?_⟩
    · simp only [Callers.table,hcall]
      rfl
    · simp only [Callers.table,hcall]
      rfl
  | _ => cases hin

theorem oneWriter_of_sound {w : Callers ι κ} (hs : w.table.Sound) : OneWriter w :=
  fun _ _ _ hi hj => hs.works_unique hi.works hj.works

theorem Unreplaced.unused {w : Callers ι κ} {e : WsEvent ι κ} (h : Unreplaced w e) {c : κ}
    (hmakes : makes w e = some c) : w.table.Unused c := by
  intro j l hj
  simp only [Callers.table] at hj
  cases hcall : w.calls j with
  | writing loop conn place =>
    rw [hcall,Call.pending,Option.map_eq_some_iff] at hj
    obtain ⟨k,hk,heq⟩ := hj
    cases heq
    rw [h c hmakes j loop place hcall] at hk
    cases hk
  | _ =>
    rw [hcall] at hj
    cases hj

theorem userSet_rest (h : WsHub κ) (uuid : String) :
    (userSet h uuid).2.locks = h.locks ∧ (userSet h uuid).2.mutexes = h.mutexes := by
  unfold userSet
  split <;> exact ⟨rfl,rfl⟩

theorem table_update [DecidableEq ι] (w : Callers ι κ) (h : WsHub κ) (i : ι) (call : Call κ) :
    (Callers.mk h (Function.update w.calls i call)).table =
      ⟨h.locks,h.mutexes,Function.update w.table.pending i call.pending,
        Function.update w.table.holds i call.holds⟩ := by
  simp only [Callers.table,LockTable.mk.injEq,true_and]
  exact ⟨Function.comp_update Call.pending w.calls i call,
    Function.comp_update Call.holds w.calls i call⟩

/-- Entries are dropped, and a call goes on without a mutex that it had not before. -/
theorem table_drop [DecidableEq ι] {w : Callers ι κ} (hs : w.table.Sound) (h : WsHub κ) (i : ι)
    {call : Call κ} (hlocks : ∀ c l, h.locks c = some l → w.hub.locks c = some l)
    (hmutexes : h.mutexes = w.hub.mutexes)
    (hpending : ∀ p, call.pending = some p → (w.calls i).pending = some p)
    (hholds : call.holds = (w.calls i).holds) :
    (Callers.mk h (Function.update w.calls i call)).table.Sound := by
  rw [table_update]
  refine hs.drop hlocks hmutexes (fun j p hj => ?_) (Function.update_eq_self_iff.mpr hholds)
  dsimp only at hj
  by_cases hji : j = i
  · subst hji
    rw [Function.update_self] at hj
    exact hpending p hj
  · rwa [Function.update_of_ne hji] at hj

theorem table_find [DecidableEq ι] {w : Callers ι κ} (hs : w.table.Sound)
    {i : ι} {conn : κ} {l : Nat}
    (hlock : w.hub.locks conn = some l) (loop : Option (SendLoop κ))
    (hholds : (w.calls i).holds = none) :
    (Callers.mk w.hub (Function.update w.calls i
      (.writing loop conn (.locking l)))).table.Sound := by
  rw [table_update]
  have hsame : Function.update w.table.holds i (Call.holds (.writing loop conn (.locking l))) =
      w.table.holds := Function.update_eq_self_iff.mpr hholds.symm
  rw [hsame]
  exact hs.find hlock i

theorem table_noCalls : (noCalls : Callers ι κ).table.Sound where
  one _ _ _ _ _ hi _ := by cases hi
  current _ _ _ _ hi _ := by cases hi
  held _ _ hi := by cases hi
  alone _ _ _ hi _ := by cases hi

end Calls

section Steps
variable {ι κ : Type} [DecidableEq κ]

theorem dropFromSet_rest (h : WsHub κ) (uuid : String) (conn : κ) :
    (dropFromSet h uuid conn).locks = h.locks ∧ (dropFromSet h uuid conn).mutexes = h.mutexes := by
  unfold dropFromSet
  split
  · dsimp only
    split <;> exact ⟨rfl,rfl⟩
  · exact ⟨rfl,rfl⟩

theorem unregister_locks (h : WsHub κ) (uuid : String) (conn : κ) :
    (unregister h uuid conn).locks = Function.update h.locks conn none ∧
      (unregister h uuid conn).mutexes = h.mutexes := by
  simp [unregister,dropFromSet_rest]

theorem getLock_of_some {h : WsHub κ} {c : κ} {l : Nat} (hlock : h.locks c = some l) :
    getLock h c = (l,h) := by
  simp [getLock,hlock]

theorem getLock_of_none {h : WsHub κ} {c : κ} (hlock : h.locks c = none) :
    getLock h c = (h.mutexes.length,{ h with
      locks := Function.update h.locks c (some h.mutexes.length)
      mutexes := h.mutexes ++ [false] }) := by
  simp [getLock,hlock]

theorem register_locks (h : WsHub κ) (uuid : String) (conn : κ) :
    (register h uuid conn).locks = (getLock h conn).2.locks ∧
      (register h uuid conn).mutexes = (getLock h conn).2.mutexes := by
  obtain ⟨hlocks,hmutexes⟩ := userSet_rest h uuid
  cases hlock : h.locks conn with
  | some l => simp [register,getLock,hlocks,hmutexes,hlock]
  | none => simp [register,getLock,hlocks,hmutexes,hlock]

variable {w w' : Callers ι κ}

theorem table_register (hs : w.table.Sound) {uuid : String} {conn : κ}
    (hnone : Unreplaced w (.register uuid conn)) :
    (Callers.mk (register w.hub uuid conn) w.calls).table.Sound := by
  obtain ⟨hlocks,hmutexes⟩ := register_locks w.hub uuid conn
  cases hlock : w.hub.locks conn with
  | some l =>
    rw [getLock_of_some hlock] at hlocks hmutexes
    exact hs.drop (fun c l hc => by simpa [Callers.table,hlocks] using hc) hmutexes
      (fun _ _ hj => hj) rfl
  | none =>
    rw [getLock_of_none hlock] at hlocks hmutexes
    have hmade := hs.make (hnone.unused (c := conn) (by simp [makes,hlock]))
    simpa only [Callers.table,hlocks,hmutexes] using hmade

theorem table_unregister (hs : w.table.Sound) (uuid : String) (conn : κ) :
    (Callers.mk (unregister w.hub uuid conn) w.calls).table.Sound := by
  obtain ⟨hlocks,hmutexes⟩ := unregister_locks w.hub uuid conn
  refine hs.drop (fun c l hc => ?_) hmutexes (fun _ _ hj => hj) rfl
  simp only [Callers.table,hlocks] at hc ⊢
  by_cases hcc : c = conn
  · subst hcc
    simp at hc
  · rwa [Function.update_of_ne hcc] at hc

variable [DecidableEq ι]

theorem table_writeStep (hs : w.table.Sound) {i : ι} {loop : Option (SendLoop κ)}
    {conn : κ} {place : Place}
    (hcall : w.calls i = .writing loop conn place) (hnone : Unreplaced w (.run i)) {h : WsHub κ}
    {call : Call κ} (hstep : writeStep w.hub loop conn place = some (h,call)) :
    (Callers.mk h (Function.update w.calls i call)).table.Sound := by
  cases place with
  | lookup =>
    simp only [writeStep] at hstep
    cases hlock : w.hub.locks conn with
    | some l =>
      rw [hlock] at hstep
      cases hstep
      exact table_find hs hlock loop (by rw [hcall]; rfl)
    | none =>
      rw [hlock] at hstep
      cases hstep
      exact table_drop hs _ i (fun _ _ h => h) rfl nofun (by rw [hcall]; rfl)
  | creating =>
    cases hstep
    cases hlock : w.hub.locks conn with
    | some l =>
      rw [getLock_of_some hlock]
      exact table_find hs hlock loop (by rw [hcall]; rfl)
    | none =>
      rw [getLock_of_none hlock]
      have hmade : (Callers.mk { w.hub with
          locks := Function.update w.hub.locks conn (some w.hub.mutexes.length)
          mutexes := w.hub.mutexes ++ [false] } w.calls).table.Sound :=
        hs.make (hnone.unused (by simp [makes,hcall,hlock]))
      exact table_find hmade (Function.update_self ..) loop (by rw [hcall]; rfl)
  | locking l =>
    simp only [writeStep,Option.ite_none_right_eq_some] at hstep
    obtain ⟨hfree,hstep⟩ := hstep
    cases hstep
    have hpending : w.table.pending i = some (conn,l) := by
      simp only [Callers.table,hcall]
      rfl
    rw [table_update,Function.update_eq_self_iff.mpr (by rw [hpending]; rfl)]
    exact hs.lock hfree i
  | inside l => cases hstep
  | cleaning l =>
    cases loop with
    | none => cases hstep
    | some sending =>
      cases hstep
      refine table_drop (table_unregister hs sending.uuid conn) _ i (fun _ _ h => h) rfl ?_ ?_
      · rw [hcall]
        exact fun _ h => h
      · rw [hcall]
        rfl
  | closing l =>
    cases hstep
    exact table_drop hs _ i (fun _ _ h => h) rfl nofun (by rw [hcall]; rfl)
  | unlocking l =>
    cases hstep
    have hafter : (afterWrite loop).pending = none ∧ (afterWrite loop).holds = none := by
      cases loop <;> exact ⟨rfl,rfl⟩
    rw [table_update,hafter.1,hafter.2,Function.update_eq_self_iff.mpr]
    · refine hs.unlock ?_
      simp only [Callers.table,hcall]
      rfl
    · simp only [Callers.table,hcall]
      rfl

theorem table_next (hs : w.table.Sound) {e : WsEvent ι κ} (hnone : Unreplaced w e)
    (hstep : next w e = some w') : w'.table.Sound := by
  cases e with
  | register uuid conn =>
    cases hstep
    exact table_register hs hnone
  | unregister uuid conn =>
    cases hstep
    exact table_unregister hs uuid conn
  | withConnWrite i conn =>
    simp only [next] at hstep
    split at hstep
    · rename_i hcall
      cases hstep
      exact table_drop hs _ i (fun _ _ h => h) rfl nofun (by rw [hcall]; rfl)
    · cases hstep
  | sendJSON i uuid =>
    simp only [next] at hstep
    split at hstep
    · rename_i hcall
      split at hstep
      · cases hstep
        exact table_drop hs _ i (fun _ _ h => h) rfl nofun (by rw [hcall]; rfl)
      · cases hstep
        exact hs
    · cases hstep
  | range i conn =>
    simp only [next] at hstep
    split at hstep
    · rename_i hcall
      rw [Option.ite_none_right_eq_some] at hstep
      cases hstep.2
      exact table_drop hs _ i (fun _ _ h => h) rfl nofun (by rw [hcall]; rfl)
    · cases hstep
  | written i ok =>
    simp only [next] at hstep
    split at hstep
    · rename_i loop conn l hcall
      cases hstep
      refine table_drop hs _ i (fun _ _ h => h) rfl ?_ ?_
      · rw [hcall]
        split
        · exact fun _ h => h
        · exact nofun
      · rw [hcall]
        split <;> rfl
    · cases hstep
  | run i =>
    simp only [next,Option.map_eq_some_iff] at hstep
    obtain ⟨⟨h,call⟩,hstep,rfl⟩ := hstep
    cases hcall : w.calls i with
    | idle => simp [hcall,callStep] at hstep
    | counting uuid set =>
      rw [hcall] at hstep
      cases hstep
      refine table_drop hs _ i (fun _ _ h => h) rfl ?_ ?_
      · split <;> exact nofun
      · rw [hcall]
        split <;> rfl
    | starting uuid set =>
      rw [hcall] at hstep
      cases hstep
      exact table_drop hs _ i (fun _ _ h => h) rfl nofun (by rw [hcall]; rfl)
    | ranging loop =>
      rw [hcall,callStep,Option.ite_none_right_eq_some] at hstep
      cases hstep.2
      exact table_drop hs _ i (fun _ _ h => h) rfl nofun (by rw [hcall]; rfl)
    | writing loop conn place =>
      rw [hcall] at hstep
      exact table_writeStep hs hcall hnone hstep

/-- In every run in which no mutex is made for a connection while a caller with an older
one has still to go through `fn`, there is at no time more than one caller inside `fn`
for a connection. -/
theorem one_writer_unless_replaced (events : List (WsEvent ι κ))
    (hunreplaced : ∀ before e after, events = before ++ e :: after →
      ∀ w, runCallers noCalls before = some w → Unreplaced w e) :
    ∀ before after, events = before ++ after →
      ∀ w, runCallers noCalls before = some w → OneWriter w := by
  intro before after hsplit w hrun
  refine oneWriter_of_sound (runs_keep (C := Unreplaced) table_noCalls
    (fun _ _ _ hs hnone hstep => table_next hs hnone hstep) before (fun b e a hb u hu => ?_) hrun)
  refine hunreplaced b e (a ++ after) ?_ u hu
  rw [hsplit,hb,List.append_assoc]
  rfl

end Steps

/-- One caller writes while another waits for it. -/
def inTurn : List (WsEvent Nat Nat) :=
  [.register "anne" 5,.withConnWrite 0 5,.run 0,.run 0,.withConnWrite 1 5,.run 1]

theorem one_writer_unless_replaced_in_turn :
    ∃ w, runCallers noCalls inTurn = some w ∧ OneWriter w ∧ (w.calls 0).InFn 5 ∧
      w.calls 1 = .writing none 5 (.locking 0) := by
  have hrun : (runCallers noCalls inTurn).map (fun w => (w.calls 0,w.calls 1)) =
      some (.writing none 5 (.inside 0),.writing none 5 (.locking 0)) := by decide
  obtain ⟨w,hw,hcalls⟩ := Option.map_eq_some_iff.mp hrun
  rw [Prod.mk.injEq] at hcalls
  refine ⟨w,hw,one_writer_unless_replaced inTurn ?_ inTurn [] (by simp) w hw,
    ⟨none,.inside 0,hcalls.1,rfl⟩,hcalls.2⟩
  have hidle : ∀ before i, (runCallers (noCalls : Callers Nat Nat) before).map
    (makes · (.run i)) = some none →
      ∀ w, runCallers noCalls before = some w → Unreplaced w (.run i) := by
    intro before i hmakes w hw c hc
    rw [hw,Option.map_some,hc] at hmakes
    cases hmakes
  rw [inTurn]
  simp only [splits_cons]
  refine ⟨fun w hw => ?_,fun _ _ => nofun,hidle _ _ (by decide),hidle _ _ (by decide),
    fun _ _ => nofun,
    hidle _ _ (by decide),by simp⟩
  cases hw
  exact fun c _ j loop place hj => nomatch hj

/-- The user is gone while one caller is inside `fn` and another one has come to the
connection in its loop. -/
def goneMeanwhile : List (WsEvent Nat Nat) :=
  [.register "anne" 5,.sendJSON 0 "anne",.run 0,.run 0,.range 0 5,.run 0,.run 0,
    .sendJSON 1 "anne",.run 1,.run 1,.range 1 5,.unregister "anne" 5,.run 1,.run 1,.run 1]

theorem two_writers_one_connection : ¬ ∀ (events : List (WsEvent Nat Nat)) (w : Callers Nat Nat),
    runCallers noCalls events = some w → OneWriter w := by
  intro hone
  have hrun : (runCallers noCalls goneMeanwhile).map (fun w => (w.calls 0,w.calls 1)) =
      some (.writing (some ⟨"anne",0,[]⟩) 5 (.inside 0),
          .writing (some ⟨"anne",0,[]⟩) 5 (.inside 1)) := by
    decide
  obtain ⟨w,hw,hcalls⟩ := Option.map_eq_some_iff.mp hrun
  rw [Prod.mk.injEq] at hcalls
  have heq := hone goneMeanwhile w hw 0 1 5 ⟨_,_,hcalls.1,rfl⟩ ⟨_,_,hcalls.2,rfl⟩
  cases heq

end Imy.Svc
