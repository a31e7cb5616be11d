import Imy.Lib.Lists
import Imy.Lib.Transition
set_option autoImplicit false

/-!
The auto rebalance of `pkg/storage/shard_manager.go`: `StartAutoRebalance`,
`StopAutoRebalance` and the goroutines of `autoRebalanceLoop`, which look for the
stop channel in the manager each time they come to their `select`.
-/

namespace Imy.Shard
open Imy.Lib

inductive Phase where
  /-- The goroutine has not run yet. -/
  | spawned
  | selecting
  /-- in the `select`, with the stop channel it found -/
  | waiting (stop : Option Nat)
  /-- in `performAutoRebalance` -/
  | performing
  | returned
  deriving DecidableEq, Repr

/-- A goroutine of `autoRebalanceLoop`; `ticked` says that its ticker has a tick for it. -/
structure Loop where
  ctx : Nat
  phase : Phase
  ticked : Bool
  deriving DecidableEq, Repr

structure TimelineShardManager where
  autoRebalanceStop : Option Nat
  autoRebalanceRunning : Bool
  rebalanceCount : Int
  lastRebalance : Option Int
  deriving DecidableEq, Repr

/-- The manager with the goroutines it has started. Channels are numbered as they are
made, contexts as the callers like. -/
structure System where
  manager : TimelineShardManager
  made : Nat
  closed : List Nat
  cancelled : List Nat
  loops : List Loop
  deriving DecidableEq, Repr

def newTimelineShardManager : System := ⟨⟨none,false,0,none⟩,0,[],[],[]⟩

inductive ShardError where
  /-- "auto rebalance is already running" -/
  | alreadyRunning
  /-- "auto rebalance is not running" -/
  | notRunning
  deriving DecidableEq, Repr

def startAutoRebalance (ctx : Nat) (s : System) : Except ShardError System :=
  if s.manager.autoRebalanceRunning then .error .alreadyRunning
  else .ok { s with
    manager := { s.manager with autoRebalanceStop := some s.made, autoRebalanceRunning := true }
    made := s.made+1
    loops := s.loops ++ [⟨ctx,.spawned,false⟩] }

def stopAutoRebalance (s : System) : Except ShardError System :=
  if s.manager.autoRebalanceRunning then .ok { s with
    manager := { s.manager with autoRebalanceRunning := false }
    closed := s.manager.autoRebalanceStop.toList ++ s.closed }
  else .error .notRunning

inductive Rebalance where
  | noRecommendations
  | nothingToDo
  | migrationRefused
  | started (now : Int)
  deriving DecidableEq, Repr

def TimelineShardManager.rebalanced (m : TimelineShardManager) : Rebalance → TimelineShardManager
  | .started now => { m with rebalanceCount := m.rebalanceCount+1, lastRebalance := some now }
  | _ => m

inductive LoopStep where
  /-- `NewTicker`; the policy's interval is positive. -/
  | begin
  /-- The ticker sends; a tick that has not been taken is the only one. -/
  | tick
  | select
  | ctxDone
  | stopped
  | takeTick
  | performed (outcome : Rebalance)
  deriving DecidableEq, Repr

/-- One step of a goroutine. A `select` takes any case that is ready. -/
def Loop.next (s : System) (l : Loop) : LoopStep → Option Loop
  | .begin => if l.phase = .spawned then some { l with phase := .selecting } else none
  | .tick =>
    if l.phase = .spawned ∨ l.phase = .returned then none else some { l with ticked := true }
  | .select =>
    if l.phase = .selecting then some { l with phase := .waiting s.manager.autoRebalanceStop }
        else none
  | .ctxDone =>
    match l.phase with
    | .waiting _ => if l.ctx ∈ s.cancelled then some { l with phase := .returned } else none
    | _ => none
  | .stopped =>
    match l.phase with
    | .waiting (some ch) => if ch ∈ s.closed then some { l with phase := .returned } else none
    | _ => none
  | .takeTick =>
    match l.phase with
    | .waiting _ => if l.ticked then some { l with phase := .performing, ticked := false } else none
    | _ => none
  | .performed _ => if l.phase = .performing then some { l with phase := .selecting } else none

inductive ShardOp where
  | start (ctx : Nat)
  | stop
  | cancel (ctx : Nat)
  | loop (i : Nat) (step : LoopStep)
  deriving DecidableEq, Repr

def System.called (s : System) : Except ShardError System → System
  | .ok t => t
  | .error _ => s

def System.next (s : System) : ShardOp → Option System
  | .start ctx => some (s.called (startAutoRebalance ctx s))
  | .stop => some (s.called (stopAutoRebalance s))
  | .cancel ctx => some { s with cancelled := ctx :: s.cancelled }
  | .loop i step => do
    let l ← s.loops[i]?
    let l' ← l.next s step
    let manager := match step with
      | .performed outcome => s.manager.rebalanced outcome
      | _ => s.manager
    return { s with manager := manager, loops := s.loops.set i l' }

def Loop.stopChannel (s : System) (l : Loop) : Option Nat :=
  match l.phase with
  | .waiting stop => stop
  | _ => s.manager.autoRebalanceStop

/-- No `Stop` has reached the loop, nor has it returned. -/
def Loop.Live (s : System) (l : Loop) : Prop :=
  l.phase ≠ .returned ∧ ∀ ch ∈ l.stopChannel s, ch ∉ s.closed

/-- At most one loop is past its start and not stopped, and `Start` is refused only
while there is one that is not. -/
structure OneLoop (s : System) : Prop where
  one : ∀ (i j : Nat) l l', s.loops[i]? = some l → s.loops[j]? = some l' →
    l.phase ≠ .spawned → l'.phase ≠ .spawned → l.Live s → l'.Live s → i = j
  refused : ∀ ctx e, startAutoRebalance ctx s = .error e → ∃ l ∈ s.loops, l.Live s

/-- At most one goroutine is left. -/
def Alone (s : System) : Prop :=
  ∀ (i j : Nat) l l', s.loops[i]? = some l → s.loops[j]? = some l' →
    l.phase ≠ .returned → l'.phase ≠ .returned → i = j

/-- The loop has returned, or waits on a channel that was closed. -/
def Loop.Reached (s : System) (l : Loop) : Prop :=
  l.phase = .returned ∨ ∃ ch ∈ s.closed, l.phase = .waiting (some ch)

/-- A `Start` that is not refused finds that the `Stop`s have reached all loops; a loop
that one has reached takes no tick after another `Start`; and no loop returns because of
its context before a `Stop` reaches it. -/
def Orderly (s : System) : ShardOp → Prop
  | .start _ => s.manager.autoRebalanceRunning = false → ∀ l ∈ s.loops, l.Reached s
  | .loop i .takeTick =>
    ∀ l ∈ s.loops[i]?, l.Reached s → s.manager.autoRebalanceRunning = false
  | .loop i .ctxDone => ∀ l ∈ s.loops[i]?, l.Reached s
  | _ => True

/-- A `Start` that is not refused finds that all loops have returned. -/
def Quiet (s : System) : ShardOp → Prop
  | .start _ => s.manager.autoRebalanceRunning = false → ∀ l ∈ s.loops, l.phase = .returned
  | _ => True

instance (s : System) (l : Loop) : Decidable (l.Reached s) :=
  inferInstanceAs (Decidable (l.phase = .returned ∨ ∃ ch ∈ s.closed, l.phase = .waiting (some ch)))

instance (s : System) : (op : ShardOp) → Decidable (Orderly s op)
  | .start _ => inferInstanceAs (Decidable (s.manager.autoRebalanceRunning = false →
      ∀ l ∈ s.loops, l.Reached s))
  | .loop i .takeTick => inferInstanceAs (Decidable (∀ l ∈ s.loops[i]?, l.Reached s →
      s.manager.autoRebalanceRunning = false))
  | .loop i .ctxDone => inferInstanceAs (Decidable (∀ l ∈ s.loops[i]?, l.Reached s))
  | .stop | .cancel _ | .loop _ .begin | .loop _ .tick | .loop _ .select | .loop _ .stopped
  | .loop _ (.performed _) => isTrue trivial

/-- The runs whose operations all meet a condition in the state that they find. -/
abbrev RunsWhile (C : System → ShardOp → Prop) (ops : List ShardOp) (s : System) : Prop :=
  Steps (fun op a b => C a op ∧ a.next op = some b) newTimelineShardManager ops s

section Steps
variable {s t : System} {l l' : Loop} {i : Nat} {step : LoopStep} {op : ShardOp}

theorem System.next_start_of_running {ctx : Nat} (h : s.manager.autoRebalanceRunning = true) :
    s.next (.start ctx) = some s := by
  simp [System.next,System.called,startAutoRebalance,h]

theorem System.next_loop (h : s.next (.loop i step) = some t) :
    ∃ l l', s.loops[i]? = some l ∧ l.next s step = some l' ∧ t.loops = s.loops.set i l' ∧
      t.made = s.made ∧ t.closed = s.closed ∧
      t.manager.autoRebalanceStop = s.manager.autoRebalanceStop ∧
      t.manager.autoRebalanceRunning = s.manager.autoRebalanceRunning := by
  simp only [System.next,Option.bind_eq_bind,Option.bind_eq_some_iff,Option.pure_def,
    Option.some.injEq] at h
  obtain ⟨l,hl,l',hl',rfl⟩ := h
  refine ⟨l,l',hl,hl',rfl,rfl,rfl,?_⟩
  cases step with
  | performed outcome => cases outcome <;> exact ⟨rfl,rfl⟩
  | begin | tick | select | ctxDone | stopped | takeTick => exact ⟨rfl,rfl⟩

/-- Liveness looks at the stop channel of the manager and at the closed channels. -/
theorem Loop.live_congr (hstop : t.manager.autoRebalanceStop = s.manager.autoRebalanceStop)
    (hclosed : t.closed = s.closed) (l : Loop) : l.Live t ↔ l.Live s := by
  unfold Loop.Live Loop.stopChannel
  rw [hstop,hclosed]

theorem Loop.not_live_of_reached (h : l.Reached s) : ¬ l.Live s := by
  rintro ⟨hnot,hopen⟩
  rcases h with hret | ⟨ch,hch,hwait⟩
  · exact hnot hret
  · exact hopen ch (by simp [Loop.stopChannel,hwait]) hch

theorem Loop.next_ctxDone (h : l.next s .ctxDone = some l') :
    (∃ x, l.phase = .waiting x) ∧ l'.phase = .returned := by
  simp only [Loop.next] at h
  split at h
  · rename_i x hx
    simp only [Option.ite_none_right_eq_some,Option.some.injEq] at h
    obtain ⟨-,rfl⟩ := h
    exact ⟨⟨x,hx⟩,rfl⟩
  · cases h

theorem Loop.next_takeTick (h : l.next s .takeTick = some l') :
    (∃ x, l.phase = .waiting x) ∧ l'.phase = .performing := by
  simp only [Loop.next] at h
  split at h
  · rename_i x hx
    simp only [Option.ite_none_right_eq_some,Option.some.injEq] at h
    obtain ⟨-,rfl⟩ := h
    exact ⟨⟨x,hx⟩,rfl⟩
  · cases h

/-- What a step of its own does to a loop that is live or is not. A tick can bring a
loop back. -/
theorem Loop.next_live (h : l.next s step = some l') :
    (l'.Live s ↔ l.Live s) ∨ (step = .ctxDone ∧ l'.phase = .returned) ∨
      (step = .takeTick ∧ (∃ x, l.phase = .waiting x) ∧ l'.phase = .performing) := by
  cases step with
  | begin =>
    simp only [Loop.next,Option.ite_none_right_eq_some,Option.some.injEq] at h
    obtain ⟨hp,rfl⟩ := h
    left
    simp [Loop.Live,Loop.stopChannel,hp]
  | tick =>
    simp only [Loop.next,Option.ite_none_left_eq_some,Option.some.injEq] at h
    obtain ⟨-,rfl⟩ := h
    exact Or.inl Iff.rfl
  | select =>
    simp only [Loop.next,Option.ite_none_right_eq_some,Option.some.injEq] at h
    obtain ⟨hp,rfl⟩ := h
    left
    simp [Loop.Live,Loop.stopChannel,hp]
  | performed outcome =>
    simp only [Loop.next,Option.ite_none_right_eq_some,Option.some.injEq] at h
    obtain ⟨hp,rfl⟩ := h
    left
    simp [Loop.Live,Loop.stopChannel,hp]
  | ctxDone => exact Or.inr (Or.inl ⟨rfl,(Loop.next_ctxDone h).2⟩)
  | stopped =>
    simp only [Loop.next] at h
    split at h
    · rename_i ch hp
      simp only [Option.ite_none_right_eq_some,Option.some.injEq] at h
      obtain ⟨hch,rfl⟩ := h
      left
      simp [Loop.Live,Loop.stopChannel,hp,hch]
    · cases h
  | takeTick => exact Or.inr (Or.inr ⟨rfl,Loop.next_takeTick h⟩)

theorem Loop.next_waiting (h : l.next s step = some l') {x : Option Nat}
    (hx : l'.phase = .waiting x) : l.phase = .waiting x ∨ x = s.manager.autoRebalanceStop := by
  cases step with
  | begin | performed =>
    simp only [Loop.next,Option.ite_none_right_eq_some,Option.some.injEq] at h
    obtain ⟨-,rfl⟩ := h
    cases hx
  | tick =>
    simp only [Loop.next,Option.ite_none_left_eq_some,Option.some.injEq] at h
    obtain ⟨-,rfl⟩ := h
    exact Or.inl hx
  | select =>
    simp only [Loop.next,Option.ite_none_right_eq_some,Option.some.injEq] at h
    obtain ⟨-,rfl⟩ := h
    cases hx
    exact Or.inr rfl
  | ctxDone | stopped | takeTick =>
    simp only [Loop.next] at h
    split at h
    · simp only [Option.ite_none_right_eq_some,Option.some.injEq] at h
      obtain ⟨-,rfl⟩ := h
      cases hx
    · cases h

theorem Loop.next_returned (h : l.next s step = some l') : l.phase ≠ .returned := by
  intro hret
  cases step <;> simp [Loop.next,hret] at h

end Steps

/-- What an orderly run keeps: the manager is running when its stop channel is open; each
loop waits on that channel or on a closed one; while it is running one loop is live. -/
structure Tended (s : System) : Prop where
  closed : ∀ ch ∈ s.closed, ch < s.made
  stop : ∀ ch ∈ s.manager.autoRebalanceStop, ch < s.made
  running : s.manager.autoRebalanceRunning = true ↔
    ∃ ch, s.manager.autoRebalanceStop = some ch ∧ ch ∉ s.closed
  hasStop : s.loops ≠ [] → s.manager.autoRebalanceStop ≠ none
  waiting : ∀ l ∈ s.loops, ∀ x, l.phase = .waiting x →
    x = s.manager.autoRebalanceStop ∨ ∃ ch ∈ s.closed, x = some ch
  live : s.manager.autoRebalanceRunning = true → ∃ (i : Nat) (l : Loop),
    s.loops[i]? = some l ∧ l.Live s ∧
    ∀ (j : Nat) l', s.loops[j]? = some l' → l'.Live s → j = i

section Tended
variable {s t : System} {l : Loop}

theorem Tended.new : Tended newTimelineShardManager := by
  refine ⟨?_,?_,?_,?_,?_,?_⟩ <;> simp [newTimelineShardManager]

theorem Tended.stop_closed (hs : Tended s) (hidle : s.manager.autoRebalanceRunning = false)
    (hl : l ∈ s.loops) : ∃ ch ∈ s.closed, s.manager.autoRebalanceStop = some ch := by
  obtain ⟨ch,hch⟩ := Option.ne_none_iff_exists'.mp (hs.hasStop (List.ne_nil_of_mem hl))
  refine ⟨ch,?_,hch⟩
  by_contra hnot
  have hrun := hs.running.mpr ⟨ch,hch,hnot⟩
  rw [hidle] at hrun
  cases hrun

/-- So no loop is live: each waits on a closed channel or will find one. -/
theorem Tended.not_live (hs : Tended s) (hidle : s.manager.autoRebalanceRunning = false)
    (hl : l ∈ s.loops) : ¬ l.Live s := by
  rintro ⟨-,hopen⟩
  obtain ⟨ch,hclosed,hch⟩ := hs.stop_closed hidle hl
  unfold Loop.stopChannel at hopen
  split at hopen
  · rename_i x hx
    rcases hs.waiting l hl x hx with rfl | ⟨ch',hch',rfl⟩
    · exact hopen ch hch hclosed
    · exact hopen ch' rfl hch'
  · exact hopen ch hch hclosed

theorem Tended.reached_of_waiting (hs : Tended s) (hidle : s.manager.autoRebalanceRunning = false)
    (hl : l ∈ s.loops) {x : Option Nat} (hx : l.phase = .waiting x) : l.Reached s := by
  obtain ⟨ch,hclosed,hch⟩ := hs.stop_closed hidle hl
  rcases hs.waiting l hl x hx with rfl | ⟨ch',hch',rfl⟩
  · exact Or.inr ⟨ch,hclosed,by rw [hx,hch]⟩
  · exact Or.inr ⟨ch',hch',hx⟩

theorem Tended.oneLoop (hs : Tended s) : OneLoop s := by
  refine ⟨?_,?_⟩
  · rintro i j l l' hi hj - - hl hl'
    cases hrun : s.manager.autoRebalanceRunning with
    | false => exact absurd hl (hs.not_live hrun (List.mem_of_getElem? hi))
    | true =>
      obtain ⟨k,-,-,-,honly⟩ := hs.live hrun
      exact (honly i l hi hl).trans (honly j l' hj hl').symm
  · intro ctx e he
    cases hrun : s.manager.autoRebalanceRunning with
    | false => simp [startAutoRebalance,hrun] at he
    | true =>
      obtain ⟨k,l,hk,hl,-⟩ := hs.live hrun
      exact ⟨l,List.mem_of_getElem? hk,hl⟩

theorem Tended.start (hs : Tended s) {ctx : Nat} (hok : startAutoRebalance ctx s = .ok t)
    (hreached : ∀ l ∈ s.loops, l.Reached s) : Tended t := by
  unfold startAutoRebalance at hok
  split at hok
  · cases hok
  cases hok
  have hfresh : s.made ∉ s.closed := fun hmem => Nat.lt_irrefl _ (hs.closed _ hmem)
  refine ⟨?_,?_,?_,?_,?_,?_⟩
  · intro ch hch
    exact Nat.lt_succ_of_lt (hs.closed ch hch)
  · rintro ch ⟨⟩
    exact Nat.lt_succ_self _
  · exact ⟨fun _ => ⟨s.made,rfl,hfresh⟩,fun _ => rfl⟩
  · simp
  · intro l hl x hx
    rcases List.mem_append.mp hl with hold | hnew
    · rcases hreached l hold with hret | ⟨ch,hch,hwait⟩
      · rw [hret] at hx
        cases hx
      · rw [hwait] at hx
        cases hx
        exact Or.inr ⟨ch,hch,rfl⟩
    · obtain rfl := List.mem_singleton.mp hnew
      cases hx
  · intro _
    refine ⟨s.loops.length,⟨ctx,.spawned,false⟩,by simp,⟨by simp,?_⟩,?_⟩
    · rintro ch ⟨⟩
      exact hfresh
    · intro j l' hj hlive
      rcases getElem?_concat_some hj with hold | ⟨hlen,-⟩
      · refine absurd hlive (Loop.not_live_of_reached ?_)
        exact hreached l' (List.mem_of_getElem? hold)
      · exact hlen

theorem Tended.stopped (hs : Tended s) (hok : stopAutoRebalance s = .ok t) : Tended t := by
  unfold stopAutoRebalance at hok
  split at hok
  · rename_i hrun
    cases hok
    obtain ⟨ch,hch,-⟩ := hs.running.mp hrun
    refine ⟨?_,hs.stop,?_,hs.hasStop,?_,by simp⟩
    · intro ch' hmem
      simp only [hch,Option.toList_some,List.singleton_append,List.mem_cons] at hmem
      rcases hmem with rfl | hold
      · exact hs.stop _ hch
      · exact hs.closed _ hold
    · simp [hch]
    · intro l hl x hx
      refine (hs.waiting l hl x hx).imp_right ?_
      rintro ⟨ch',hch',rfl⟩
      exact ⟨ch',List.mem_append_right _ hch',rfl⟩
  · cases hok

theorem Tended.loop_live_iff (hs : Tended s) {i : Nat} {step : LoopStep} {l' : Loop}
    (hl : s.loops[i]? = some l) (hl' : l.next s step = some l')
    (horderly : Orderly s (.loop i step))
    (hrun : s.manager.autoRebalanceRunning = true) : l'.Live s ↔ l.Live s := by
  rcases Loop.next_live hl' with hiff | ⟨rfl,hret⟩ | ⟨rfl,⟨x,hx⟩,hperf⟩
  · exact hiff
  · have hnot := Loop.not_live_of_reached (horderly l hl)
    exact iff_of_false (fun hlive => hlive.1 hret) hnot
  · -- the tick comes to a loop that no `Stop` has reached
    have hx' : x = s.manager.autoRebalanceStop := by
      refine (hs.waiting l (List.mem_of_getElem? hl) x hx).resolve_right ?_
      rintro ⟨ch,hch,rfl⟩
      have hidle := horderly l hl (Or.inr ⟨ch,hch,hx⟩)
      rw [hrun] at hidle
      cases hidle
    simp [Loop.Live,Loop.stopChannel,hx,hperf,hx']

theorem Tended.loop (hs : Tended s) {i : Nat} {step : LoopStep}
    (hstep : s.next (.loop i step) = some t) (horderly : Orderly s (.loop i step)) : Tended t := by
  obtain ⟨l,l',hl,hl',hloops,hmade,hclosed,hstop,hrunning⟩ := System.next_loop hstep
  have hmem : l ∈ s.loops := List.mem_of_getElem? hl
  have hlt : i < s.loops.length := (List.getElem?_eq_some_iff.mp hl).1
  refine ⟨?_,?_,?_,?_,?_,?_⟩
  · rw [hclosed,hmade]
    exact hs.closed
  · rw [hstop,hmade]
    exact hs.stop
  · rw [hrunning,hstop,hclosed]
    exact hs.running
  · rw [hstop]
    exact fun _ => hs.hasStop (List.ne_nil_of_mem hmem)
  · rw [hloops,hstop,hclosed]
    intro k hk x hx
    rcases List.mem_or_eq_of_mem_set hk with hold | rfl
    · exact hs.waiting k hold x hx
    · rcases Loop.next_waiting hl' hx with hold | hnew
      · exact hs.waiting l hmem x hold
      · exact Or.inl hnew
  · rw [hrunning]
    intro hrun
    simp only [Loop.live_congr hstop hclosed,hloops]
    obtain ⟨k,lk,hk,hlive,honly⟩ := hs.live hrun
    have hget : ∀ (j : Nat) m, (s.loops.set i l')[j]? = some m →
        ∃ m₀, s.loops[j]? = some m₀ ∧ (m.Live s ↔ m₀.Live s) := by
      intro j m hj
      by_cases he : i = j
      · subst he
        rw [List.getElem?_set_self hlt] at hj
        cases hj
        exact ⟨l,hl,hs.loop_live_iff hl hl' horderly hrun⟩
      · rw [List.getElem?_set_ne he] at hj
        exact ⟨m,hj,Iff.rfl⟩
    have hlen : k < (s.loops.set i l').length := by
      rw [List.length_set]
      exact (List.getElem?_eq_some_iff.mp hk).1
    obtain ⟨m₀,hm₀,hiff⟩ := hget k _ (List.getElem?_eq_getElem hlen)
    cases hk.symm.trans hm₀
    refine ⟨k,_,List.getElem?_eq_getElem hlen,hiff.mpr hlive,?_⟩
    intro j m hj hm
    obtain ⟨m₀,hm₀,hiff'⟩ := hget j m hj
    exact honly j m₀ hm₀ (hiff'.mp hm)

theorem Tended.next (hs : Tended s) {op : ShardOp} (horderly : Orderly s op)
    (hstep : s.next op = some t) : Tended t := by
  cases op with
  | start ctx =>
    simp only [System.next,Option.some.injEq] at hstep
    cases hok : startAutoRebalance ctx s with
    | error e =>
      rw [hok] at hstep
      exact hstep ▸ hs
    | ok u =>
      have hidle : s.manager.autoRebalanceRunning = false := by
        cases hrun : s.manager.autoRebalanceRunning with
        | false => rfl
        | true => simp [startAutoRebalance,hrun] at hok
      rw [hok] at hstep
      exact hstep ▸ hs.start hok (horderly hidle)
  | stop =>
    simp only [System.next,Option.some.injEq] at hstep
    cases hok : stopAutoRebalance s with
    | error e =>
      rw [hok] at hstep
      exact hstep ▸ hs
    | ok u =>
      rw [hok] at hstep
      exact hstep ▸ hs.stopped hok
  | cancel ctx =>
    cases hstep
    exact ⟨hs.closed,hs.stop,hs.running,hs.hasStop,hs.waiting,hs.live⟩
  | loop i step => exact hs.loop hstep horderly

end Tended

section Alone
variable {s t : System}

theorem Alone.loop (hs : Alone s) {i : Nat} {step : LoopStep}
    (hstep : s.next (.loop i step) = some t) :
    Alone t := by
  obtain ⟨l,l',hl,hl',hloops,-⟩ := System.next_loop hstep
  have hlt : i < s.loops.length := (List.getElem?_eq_some_iff.mp hl).1
  have hget : ∀ (j : Nat) m, t.loops[j]? = some m → m.phase ≠ .returned →
      ∃ m₀, s.loops[j]? = some m₀ ∧ m₀.phase ≠ .returned := by
    intro j m hj hm
    rw [hloops] at hj
    by_cases he : i = j
    · subst he
      exact ⟨l,hl,Loop.next_returned hl'⟩
    · rw [List.getElem?_set_ne he] at hj
      exact ⟨m,hj,hm⟩
  intro j k m m' hj hk hm hm'
  obtain ⟨m₀,hj₀,hm₀⟩ := hget j m hj hm
  obtain ⟨m₁,hk₁,hm₁⟩ := hget k m' hk hm'
  exact hs j k m₀ m₁ hj₀ hk₁ hm₀ hm₁

theorem Alone.next (hs : Alone s) {op : ShardOp} (hquiet : Quiet s op)
    (hstep : s.next op = some t) :
    Alone t := by
  cases op with
  | start ctx =>
    cases hrun : s.manager.autoRebalanceRunning with
    | true =>
      rw [System.next_start_of_running hrun] at hstep
      cases hstep
      exact hs
    | false =>
      simp only [System.next,System.called,startAutoRebalance,hrun,Bool.false_eq_true,if_false,
        Option.some.injEq] at hstep
      cases hstep
      have hlast : ∀ (i : Nat) l, (s.loops ++ [⟨ctx,.spawned,false⟩])[i]? = some l →
          l.phase ≠ .returned → i = s.loops.length := by
        intro i l hi hl
        rcases getElem?_concat_some hi with hold | ⟨hlen,-⟩
        · exact absurd (hquiet hrun l (List.mem_of_getElem? hold)) hl
        · exact hlen
      intro i j l l' hi hj hl hl'
      exact (hlast i l hi hl).trans (hlast j l' hj hl').symm
  | stop =>
    simp only [System.next,System.called,stopAutoRebalance,Option.some.injEq] at hstep
    split at hstep
    · rename_i hok
      split at hok <;> cases hok
      exact hstep ▸ hs
    · exact hstep ▸ hs
  | cancel ctx =>
    cases hstep
    exact hs
  | loop i step => exact hs.loop hstep

end Alone

section Lost
variable {s t : System} {i j : Nat} {l l' : Loop}

/-- Goroutines that have not run yet run. -/
def beginning (is : List Nat) : List ShardOp := is.map fun i => .loop i .begin

theorem Loop.Live.begins (hi : s.loops[i]? = some l) (hl : l.Live s) :
    ∃ is t l', (beginning is).foldlM System.next s = some t ∧ t.loops[i]? = some l' ∧
      l'.phase ≠ .spawned ∧ l'.Live t ∧ (∀ k, k ≠ i → t.loops[k]? = s.loops[k]?) ∧
      ∀ m : Loop, m.Live t ↔ m.Live s := by
  by_cases hp : l.phase = .spawned
  · have hstep : s.next (.loop i .begin) =
        some { s with loops := s.loops.set i { l with phase := .selecting } } := by
      simp [System.next,hi,Loop.next,hp]
    have hlt : i < s.loops.length := (List.getElem?_eq_some_iff.mp hi).1
    refine ⟨[i],{ s with loops := s.loops.set i { l with phase := .selecting } },
      { l with phase := .selecting },by simpa [beginning] using hstep,?_,by simp,?_,?_,
      fun _ => Iff.rfl⟩
    · exact List.getElem?_set_self hlt
    · have hopen := hl.2
      simp only [Loop.stopChannel,hp] at hopen
      exact ⟨by simp,hopen⟩
    · intro k hk
      exact List.getElem?_set_ne (Ne.symm hk)
  · exact ⟨[],s,l,rfl,hi,hp,hl,fun _ _ => rfl,fun _ => Iff.rfl⟩

/-- Two live loops are past their start sooner or later, if nothing else happens. -/
theorem lost_of_two_live (hne : i ≠ j) (hi : s.loops[i]? = some l) (hl : l.Live s)
    (hj : s.loops[j]? = some l') (hl' : l'.Live s) :
    ∃ is t, (beginning is).foldlM System.next s = some t ∧ ¬ OneLoop t := by
  obtain ⟨is,t,m,hrun,hm,hstarted,hlive,hothers,hsame⟩ := hl.begins hi
  have hj' : t.loops[j]? = some l' := (hothers j (Ne.symm hne)).trans hj
  obtain ⟨js,u,m',hrun',hm',hstarted',hlive',hothers',hsame'⟩ :=
    Loop.Live.begins hj' ((hsame l').mpr hl')
  refine ⟨is ++ js,u,?_,fun hone => ?_⟩
  · rw [beginning,List.map_append,List.foldlM_append,Option.bind_eq_bind,Option.bind_eq_some_iff]
    exact ⟨t,hrun,hrun'⟩
  · exact hne (hone.one i j m m' ((hothers' i hne).trans hm) hm' hstarted hstarted'
      ((hsame' m).mpr hlive) hlive')

/-- A live loop is one that no `Stop` has reached. -/
theorem Tended.live_of_not_reached (hs : Tended s) (hrun : s.manager.autoRebalanceRunning = true)
    (hl : l ∈ s.loops) (hnot : ¬ l.Reached s) : l.Live s := by
  refine ⟨fun hret => hnot (Or.inl hret),?_⟩
  obtain ⟨ch,hch,hopen⟩ := hs.running.mp hrun
  intro ch' hch' hmem
  unfold Loop.stopChannel at hch'
  split at hch'
  · rename_i x hx
    rcases hs.waiting l hl x hx with rfl | ⟨c,hc,rfl⟩
    · rw [hch] at hch'
      cases hch'
      exact hopen hmem
    · exact hnot (Or.inr ⟨c,hc,hx⟩)
  · rw [hch] at hch'
    cases hch'
    exact hopen hmem

/-- The loop that a `Start` has not waited for finds the new channel. -/
theorem Tended.lost_of_start (hs : Tended s) {ctx : Nat}
    (hidle : s.manager.autoRebalanceRunning = false)
    (hl : l ∈ s.loops) (hnot : ¬ l.Reached s) (hstep : s.next (.start ctx) = some t) :
    ∃ is u, (beginning is).foldlM System.next t = some u ∧ ¬ OneLoop u := by
  simp only [System.next,System.called,startAutoRebalance,hidle,Bool.false_eq_true,if_false,
    Option.some.injEq] at hstep
  have hfresh : s.made ∉ s.closed := fun hmem => Nat.lt_irrefl _ (hs.closed _ hmem)
  obtain ⟨i,hi⟩ := List.mem_iff_getElem?.mp hl
  have hlt : i < s.loops.length := (List.getElem?_eq_some_iff.mp hi).1
  cases hstep
  refine lost_of_two_live (Nat.ne_of_lt hlt) (by rw [List.getElem?_append_left hlt]; exact hi)
    ⟨fun hret => hnot (Or.inl hret),?_⟩ List.getElem?_concat_length ⟨by simp,?_⟩
  · intro ch hch hmem
    unfold Loop.stopChannel at hch
    split at hch
    · rename_i x hx
      exact hnot (hs.reached_of_waiting hidle hl hx)
    · cases hch
      exact hfresh hmem
  · rintro ch ⟨⟩
    exact hfresh

/-- A loop that takes a tick after another `Start` is back beside the new loop. -/
theorem Tended.lost_of_tick (hs : Tended s) (hrun : s.manager.autoRebalanceRunning = true)
    (hi : s.loops[i]? = some l) (hreached : l.Reached s)
    (hstep : s.next (.loop i .takeTick) = some t) :
    ∃ is u, (beginning is).foldlM System.next t = some u ∧ ¬ OneLoop u := by
  obtain ⟨l₀,l',hl₀,hl',hloops,-,hclosed,hstop,-⟩ := System.next_loop hstep
  cases hi.symm.trans hl₀
  obtain ⟨k,m,hk,hm,-⟩ := hs.live hrun
  have hne : i ≠ k := by
    rintro rfl
    cases hi.symm.trans hk
    exact Loop.not_live_of_reached hreached hm
  obtain ⟨ch,hch,hopen⟩ := hs.running.mp hrun
  have hlt : i < s.loops.length := (List.getElem?_eq_some_iff.mp hi).1
  have hperf := (Loop.next_takeTick hl').2
  refine lost_of_two_live hne (by rw [hloops,List.getElem?_set_self hlt]) ⟨by simp [hperf],?_⟩
    (by rw [hloops,List.getElem?_set_ne hne]; exact hk) ((Loop.live_congr hstop hclosed m).mpr hm)
  simp only [Loop.stopChannel,hperf,hstop,hclosed,hch]
  rintro ch' ⟨⟩
  exact hopen

/-- Where the last live loop returns of itself, the next `Start` is refused. -/
theorem Tended.lost_of_return (hs : Tended s) (hi : s.loops[i]? = some l) (hnot : ¬ l.Reached s)
    (hstep : s.next (.loop i .ctxDone) = some t) : ¬ OneLoop t := by
  obtain ⟨l₀,l',hl₀,hl',hloops,-,hclosed,hstop,hrunning⟩ := System.next_loop hstep
  cases hi.symm.trans hl₀
  have hmem : l ∈ s.loops := List.mem_of_getElem? hi
  obtain ⟨⟨x,hx⟩,hret⟩ := Loop.next_ctxDone hl'
  have hrun : s.manager.autoRebalanceRunning = true := by
    by_contra hidle
    exact hnot (hs.reached_of_waiting (by simpa using hidle) hmem hx)
  obtain ⟨k,m,-,-,honly⟩ := hs.live hrun
  have hik := honly i l hi (hs.live_of_not_reached hrun hmem hnot)
  intro hone
  obtain ⟨m',hm',hlive⟩ :=
    hone.refused 0 .alreadyRunning (by simp [startAutoRebalance,hrunning,hrun])
  rw [hloops] at hm'
  rw [Loop.live_congr hstop hclosed] at hlive
  obtain ⟨j,hj⟩ := List.mem_iff_getElem?.mp hm'
  by_cases he : i = j
  · subst he
    rw [List.getElem?_set_self (List.getElem?_eq_some_iff.mp hi).1] at hj
    cases hj
    exact hlive.1 hret
  · rw [List.getElem?_set_ne he] at hj
    exact he (hik.trans (honly j m' hj hlive).symm)

/-- After a step that is not orderly nothing but the scheduling stands between the
manager and two loops, or a `Start` refused without any. -/
theorem Tended.lost (hs : Tended s) {op : ShardOp} (hnot : ¬ Orderly s op)
    (hstep : s.next op = some t) :
    ∃ is u, (beginning is).foldlM System.next t = some u ∧ ¬ OneLoop u := by
  cases op with
  | start ctx =>
    simp only [Orderly,Classical.not_imp,not_forall] at hnot
    obtain ⟨hidle,l,hl,hnot⟩ := hnot
    exact hs.lost_of_start hidle hl hnot hstep
  | stop => exact absurd trivial hnot
  | cancel ctx => exact absurd trivial hnot
  | loop i step =>
    cases step with
    | takeTick =>
      simp only [Orderly,Classical.not_imp,not_forall] at hnot
      obtain ⟨l,hi,hreached,hrun⟩ := hnot
      exact hs.lost_of_tick (by simpa using hrun) hi hreached hstep
    | ctxDone =>
      simp only [Orderly,Classical.not_imp,not_forall] at hnot
      obtain ⟨l,hi,hnot⟩ := hnot
      exact ⟨[],t,rfl,hs.lost_of_return hi hnot hstep⟩
    | begin | tick | select | stopped | performed => exact absurd trivial hnot

end Lost

/-- In every orderly run at most one loop is live and `Start` is refused only beside one;
a step that is not orderly loses that, if the schedule has it so. Where no `Start` comes
before all loops have returned there is one goroutine at most. -/
theorem one_loop_of_orderly (ops : List ShardOp) (s : System) :
    (RunsWhile Orderly ops s → OneLoop s ∧
      ∀ op t, s.next op = some t → ¬ Orderly s op →
        ∃ is u, (beginning is).foldlM System.next t = some u ∧ ¬ OneLoop u) ∧
    (RunsWhile Quiet ops s → Alone s) := by
  refine ⟨fun hrun => ?_,fun hrun => ?_⟩
  · have hs : Tended s := Steps.invariant (fun _ _ _ hu h => hu.next h.1 h.2) hrun Tended.new
    exact ⟨hs.oneLoop,fun op t hstep hnot => hs.lost hnot hstep⟩
  · have hnew : Alone newTimelineShardManager := by
      intro i j l l' hi
      simp [newTimelineShardManager] at hi
    exact Steps.invariant (I := Alone) (fun _ _ _ hu h => hu.next h.1 h.2) hrun hnew

/-- A loop is stopped while it waits; the next one is started, ticks and is stopped. -/
def stopAndGo : List ShardOp :=
  [.start 0,.loop 0 .begin,.loop 0 .select,.stop,.start 1,.loop 1 .begin,.start 2,.loop 1 .select,
    .loop 0 .stopped,.loop 1 .tick,.loop 1 .takeTick,
      .loop 1 (.performed (.started 7)),.loop 1 .select]

def stopAndGoEnd : System :=
  ⟨⟨some 1,true,1,some 7⟩,2,[0],[],[⟨0,.returned,false⟩,⟨1,.waiting (some 1),false⟩]⟩

theorem one_loop_of_orderly_stopAndGo :
    RunsWhile Orderly stopAndGo stopAndGoEnd ∧ OneLoop stopAndGoEnd := by
  have hrun : runWhile (fun op a => Orderly a op)
    (fun op a => a.next op) stopAndGo newTimelineShardManager =
      some stopAndGoEnd := by decide
  have hsteps : RunsWhile Orderly stopAndGo stopAndGoEnd := steps_of_runWhile stopAndGo hrun
  exact ⟨hsteps,((one_loop_of_orderly stopAndGo stopAndGoEnd).1 hsteps).1⟩

/-- `Stop` and `Start` come while the loop rebalances: it then waits on the new channel, as
the new loop does. -/
def stopWhilePerforming : List ShardOp :=
  [.start 0,.loop 0 .begin,.loop 0 .select,.loop 0 .tick,.loop 0 .takeTick,.stop,.start 0,
    .loop 1 .begin,.loop 1 .select,.loop 0 (.performed .nothingToDo),.loop 0 .select]

def cancelOnly : List ShardOp :=
  [.start 0,.loop 0 .begin,.loop 0 .select,.cancel 0,.loop 0 .ctxDone]

theorem two_loops_and_none :
    (∃ s, stopWhilePerforming.foldlM System.next newTimelineShardManager = some s ∧
      s.loops = [⟨0,.waiting (some 1),false⟩,⟨0,.waiting (some 1),false⟩] ∧ ¬ OneLoop s) ∧
    ∃ s, cancelOnly.foldlM System.next newTimelineShardManager = some s ∧
      s.loops = [⟨0,.returned,false⟩] ∧ startAutoRebalance 1 s = .error .alreadyRunning ∧
        ¬ OneLoop s := by
  refine ⟨⟨⟨⟨some 1,true,0,none⟩,2,[0],[],_⟩,by decide,rfl,fun h => ?_⟩,
    ⟨⟨⟨some 0,true,0,none⟩,1,[],[0],_⟩,by decide,rfl,rfl,fun h => ?_⟩⟩
  · have hlive : Loop.Live ⟨⟨some 1,true,0,none⟩,2,[0],[],[⟨0,.waiting (some 1),false⟩,
        ⟨0,.waiting (some 1),false⟩]⟩ ⟨0,.waiting (some 1),false⟩ := by
      simp [Loop.Live,Loop.stopChannel]
    have hsame := h.one 0 1 _ _ rfl rfl (by decide) (by decide) hlive hlive
    cases hsame
  · obtain ⟨l,hl,hlive⟩ := h.refused 1 .alreadyRunning rfl
    obtain rfl := List.mem_singleton.mp hl
    exact hlive.1 rfl

end Imy.Shard
