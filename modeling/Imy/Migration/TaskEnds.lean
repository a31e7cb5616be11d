import Imy.Migration.Task
set_option autoImplicit false

namespace Imy.Migration
open Imy.Lib

def Act.status? : Act → Option MigrationStatus
  | .updateTaskStatus status _ _ => some status
  | _ => none

def MigrationStatus.Over (status : MigrationStatus) : Prop := status = .completed ∨ status = .failed

def MigrationStatus.Ended (status : MigrationStatus) : Prop := status.Over ∨ status = .cancelled

/-- No status is written any more, and none is cancelled. -/
def Silent (p : MigrationM Unit) : Prop :=
  p.Yields (fun a => a.status? = none ∧ a ≠ .cancelMigration) fun _ => True

/-- The statuses that are written are running, and in the end completed or failed once. -/
def Orderly : MigrationM Unit → Prop
  | .ret _ => True
  | .fail _ => True
  | .ask a next => (∀ status, a.status? = some status → status ≠ .cancelled) ∧
    a ≠ .cancelMigration ∧
      (∀ status, a.status? = some status → status.Over → ∀ r, Silent (next r)) ∧
        ∀ r, Orderly (next r)

def OnTheWay (a : Act) : Prop :=
  (a.status? = none ∨ a.status? = some .running) ∧ a ≠ .cancelMigration

theorem orderly_bind {α : Type} {P : α → Prop} {p : MigrationM α} {f : α → MigrationM Unit}
    (hp : p.Yields OnTheWay P) (hf : ∀ a, P a → Orderly (f a)) : Orderly (p >>= f) := by
  change Orderly (p.bind f)
  induction p with
  | ret a => exact hf a hp
  | fail e => exact trivial
  | ask a next ih =>
    obtain ⟨⟨hstatus,hcancel⟩,hnext⟩ := hp
    refine ⟨fun status hs => ?_,hcancel,fun status hs hover => ?_,fun r => ih r (hnext r)⟩
    · rcases hstatus with hnone | hrunning
      · cases hnone.symm.trans hs
      · cases hrunning.symm.trans hs
        decide
    · rcases hstatus with hnone | hrunning
      · cases hnone.symm.trans hs
      · cases hrunning.symm.trans hs
        rcases hover with hover | hover <;> cases hover

theorem yields_orFail {α : Type} {K : Act → Prop} (tried : String) (r : Except String α) :
    (orFail tried r).Yields K fun _ => True := by
  cases r with
  | ok a => exact trivial
  | error text => exact trivial

theorem yields_nilOrFail {K : Act → Prop} (tried : String) (r : Option String) :
    (nilOrFail tried r).Yields K fun _ => True := by
  cases r with
  | none => exact trivial
  | some text => exact trivial

theorem yields_ask {K : Act → Prop} {a : Act} (h : K a) : (ask a).Yields K fun _ => True :=
  ⟨h,fun _ => trivial⟩

theorem orderly_ask {a : Act} {f : a.Answer → MigrationM Unit} (ha : OnTheWay a)
    (hf : ∀ r, Orderly (f r)) :
    Orderly (ask a >>= f) := orderly_bind (yields_ask ha) fun r _ => hf r

theorem onTheWay_running (progress : Float) (message : String) :
    OnTheWay (.updateTaskStatus .running progress message) := ⟨Or.inr rfl,by simp⟩

theorem copyMessages_onTheWay (timelineKey : String) (total : Nat)
    (messages : List Storage.Message) (i : Nat) :
    (copyMessages timelineKey total i messages).Yields OnTheWay fun _ => True := by
  induction messages generalizing i with
  | nil => exact trivial
  | cons msg rest ih =>
    refine (yields_ask ⟨Or.inl rfl,by simp⟩).bind fun err _ => ?_
    cases err with
    | some text => exact trivial
    | none =>
      refine (yields_ask ⟨Or.inl rfl,by simp⟩).bind fun err _ => ?_
      refine (yields_nilOrFail _ err).bind fun _ _ => ?_
      exact (yields_ask (onTheWay_running _ _)).bind fun _ _ => ih (i+1)

theorem performMigration_onTheWay (job : Job) :
    (performMigration job).Yields OnTheWay fun _ => True := by
  refine (yields_ask (onTheWay_running _ _)).bind fun _ _ => ?_
  refine (yields_ask ⟨Or.inl rfl,by simp⟩).bind fun found _ => ?_
  refine (yields_orFail _ found).bind fun sourceTimeline _ => ?_
  refine (yields_ask (onTheWay_running _ _)).bind fun _ _ => ?_
  refine (yields_ask (onTheWay_running _ _)).bind fun _ _ => ?_
  refine (yields_ask ⟨Or.inl rfl,by simp⟩).bind fun err _ => ?_
  refine (yields_nilOrFail _ err).bind fun _ _ => ?_
  refine (yields_ask (onTheWay_running _ _)).bind fun _ _ => ?_
  refine (yields_ask (onTheWay_running _ _)).bind fun _ _ => ?_
  refine (yields_ask ⟨Or.inl rfl,by simp⟩).bind fun now _ => ?_
  refine (yields_ask ⟨Or.inl rfl,by simp⟩).bind fun got _ => ?_
  refine (yields_orFail _ got).bind fun messages _ => ?_
  refine (copyMessages_onTheWay _ _ _ _).bind fun _ _ => ?_
  refine (yields_ask (onTheWay_running _ _)).bind fun _ _ => ?_
  refine (yields_ask (onTheWay_running _ _)).bind fun _ _ => ?_
  refine (yields_ask ⟨Or.inl rfl,by simp⟩).bind fun err _ => ?_
  refine (yields_nilOrFail _ err).bind fun _ _ => ?_
  refine (yields_ask (onTheWay_running _ _)).bind fun _ _ => ?_
  refine (yields_ask (onTheWay_running _ _)).bind fun _ _ => ?_
  refine (yields_ask ⟨Or.inl rfl,by simp⟩).bind fun _ _ => ?_
  exact yields_ask (onTheWay_running _ _)

theorem withLock_onTheWay {fn : MigrationM Unit} (hfn : fn.Yields OnTheWay fun _ => True)
    (lockKey : String) (ttl : Int) : (withLock lockKey ttl fn).Yields OnTheWay fun _ => True := by
  refine (yields_ask ⟨Or.inl rfl,by simp⟩).bind fun acquired _ => ?_
  refine (yields_orFail _ acquired).bind fun lock _ => ?_
  refine hfn.attempt.bind fun result _ => ?_
  refine (yields_ask ⟨Or.inl rfl,by simp⟩).bind fun _ _ => ?_
  cases result with
  | error text => exact trivial
  | ok u => exact trivial

theorem orderly_ending {status : MigrationStatus} (h : status ≠ .cancelled)
    (progress : Float) (message : String)
    {rest : MigrationM Unit} (hrest : Silent rest) :
    Orderly (updateTaskStatus status progress message >>= fun _ => rest) := by
  have horderly : ∀ p : MigrationM Unit, Silent p → Orderly p := by
    intro p hp
    induction p with
    | ret a => exact trivial
    | fail e => exact trivial
    | ask a next ih =>
      obtain ⟨⟨hnone,hcancel⟩,hnext⟩ := hp
      refine ⟨fun status hs => ?_,hcancel,fun status hs => ?_,fun r => ih r (hnext r)⟩
      · cases hnone.symm.trans hs
      · cases hnone.symm.trans hs
  refine ⟨?_,by simp,fun _ _ _ _ => hrest,fun _ => horderly _ hrest⟩
  rintro _ ⟨⟩
  exact h

theorem executeMigration_orderly (job : Job) : Orderly (executeMigration job) := by
  have hend : Silent (ask .setEndTime >>= fun _ => ask .deleteRunningTask >>= fun _ =>
      ask .cancelContext) :=
    ⟨⟨rfl,by simp⟩,fun _ => ⟨⟨rfl,by simp⟩,fun _ => ⟨⟨rfl,by simp⟩,fun _ => trivial⟩⟩⟩
  unfold executeMigration migrateAndReport
  refine orderly_ask ⟨Or.inl rfl,by simp⟩ fun _ => ?_
  rw [Prog.bind_assoc]
  refine orderly_ask (onTheWay_running _ _) fun _ => ?_
  rw [Prog.bind_assoc]
  refine orderly_ask ⟨Or.inl rfl,by simp⟩ fun _ => ?_
  rw [Prog.bind_assoc]
  refine orderly_bind (withLock_onTheWay (performMigration_onTheWay job) _ _).attempt
    fun result _ => ?_
  cases result with
  | error text =>
    refine orderly_ask ⟨Or.inl rfl,by simp⟩ fun progress => ?_
    exact orderly_ending (by simp) _ _ hend
  | ok u => exact orderly_ending (by simp) _ _ hend

section Runs
variable {σ κ : Type} [DecidableEq κ] (services : Services σ)

abbrev TaskPool (σ κ : Type) := Pool (Option κ) Act Act.Answer String Unit (TaskState × σ)

variable {services} {p : TaskPool σ κ}

def statusOf (p : TaskPool σ κ) : MigrationStatus := p.state.1.task.status

/-- In whatever state of the run the task has ended, it has the same status ever after. -/
def EndsOnce (services : Services σ) (p : TaskPool σ κ) (schedule : List (Option κ)) : Prop :=
  ∀ before mid after, schedule = before ++ mid ++ after →
    (statusOf (p.run (exec services) before)).Ended →
    statusOf (p.run (exec services) (before ++ mid)) = statusOf (p.run (exec services) before)

/-- A status that the goroutine writes at its turn does not find the task cancelled. -/
def FindsNotCancelled (p : TaskPool σ κ) (i : Option κ) : Prop :=
  i = none → ∀ a next, p.threads none = .ask a next → a.status? ≠ none → statusOf p ≠ .cancelled

/-- The goroutine is as it should be, and writes nothing once the task is over; the other
threads are calls of `CancelMigration`. -/
structure TaskInvariant (p : TaskPool σ κ) : Prop where
  orderly : Orderly (p.threads none)
  silent : (statusOf p).Over → Silent (p.threads none)
  calls : ∀ c : κ, p.threads (some c) = cancelMigration ∨ p.threads (some c) = .ret ()

theorem exec_status {a : Act} (s : TaskState × σ) (h : a ≠ .cancelMigration) :
    (exec services a s).2.1.task.status = a.status?.getD s.1.task.status := by
  cases a with
  | cancelMigration => exact (h rfl).elim
  | ctxErr =>
    rw [exec]
    split <;> rfl
  | _ => rfl

theorem exec_cancel_status (services : Services σ) (s : TaskState × σ) :
    (¬ s.1.task.status.Ended ∧ (exec services .cancelMigration s).2.1.task.status = .cancelled) ∨
      (s.1.task.status.Ended ∧ (exec services .cancelMigration s).2.1.task.status =
        s.1.task.status) := by
  rw [exec]
  cases hstatus : s.1.task.status with
  | pending => exact Or.inl ⟨by simp [MigrationStatus.Ended,MigrationStatus.Over],rfl⟩
  | running => exact Or.inl ⟨by simp [MigrationStatus.Ended,MigrationStatus.Over],rfl⟩
  | completed => exact Or.inr ⟨Or.inl (Or.inl rfl),by simp [hstatus]⟩
  | failed => exact Or.inr ⟨Or.inl (Or.inr rfl),by simp [hstatus]⟩
  | cancelled => exact Or.inr ⟨Or.inr rfl,by simp [hstatus]⟩

omit [DecidableEq κ] in
theorem taskInvariant_new (job : Job) (createdAt : Int) (o : σ) :
    TaskInvariant (newPool job createdAt o : TaskPool σ κ) where
  orderly := executeMigration_orderly job
  silent h := by rcases h with h | h <;> cases h
  calls _ := Or.inl rfl

theorem statusOf_next {i : Option κ} {a : Act} {k : a.Answer → MigrationM Unit}
    (hask : p.threads i = .ask a k) :
    statusOf (p.next (exec services) i) = (exec services a p.state).2.1.task.status := by
  rw [statusOf,Pool.next_of_ask _ hask]

omit [DecidableEq κ] in
theorem TaskInvariant.call (h : TaskInvariant p) {c : κ} {a : Act} {k : a.Answer → MigrationM Unit}
    (hask : p.threads (some c) = .ask a k) : a = .cancelMigration ∧ ∀ r, k r = .ret () := by
  rcases h.calls c with hcall | hdone
  · cases hcall.symm.trans hask
    exact ⟨rfl,fun _ => rfl⟩
  · cases hdone.symm.trans hask

theorem TaskInvariant.next (h : TaskInvariant p) {i : Option κ} {a : Act}
    {k : a.Answer → MigrationM Unit}
    (hask : p.threads i = .ask a k) : TaskInvariant (p.next (exec services) i) := by
  cases i with
  | none =>
    have horderly := h.orderly
    rw [hask] at horderly
    obtain ⟨-,hcancel,hover,hnext⟩ := horderly
    refine ⟨?_,fun hnow => ?_,fun c => ?_⟩
    · rw [Pool.next_threads_self _ hask]
      exact hnext _
    · rw [Pool.next_threads_self _ hask]
      rw [statusOf_next hask,exec_status p.state hcancel] at hnow
      cases hs : a.status? with
      | some status =>
        rw [hs] at hnow
        exact hover status hs hnow _
      | none =>
        rw [hs] at hnow
        have hsilent := h.silent hnow
        rw [hask] at hsilent
        exact hsilent.2 _
    · rw [Pool.next_threads_other _ _ (by simp)]
      exact h.calls c
  | some c =>
    obtain ⟨rfl,hreturns⟩ := h.call hask
    refine ⟨?_,fun hnow => ?_,fun c' => ?_⟩
    · rw [Pool.next_threads_other _ _ (by simp)]
      exact h.orderly
    · rw [Pool.next_threads_other _ _ (by simp)]
      rw [statusOf_next hask] at hnow
      rcases exec_cancel_status services p.state with ⟨-,hcancelled⟩ | ⟨-,hsame⟩
      · rw [hcancelled] at hnow
        rcases hnow with hnow | hnow <;> cases hnow
      · rw [hsame] at hnow
        exact h.silent hnow
    · by_cases hc : c' = c
      · subst hc
        rw [Pool.next_threads_self _ hask]
        exact Or.inr (hreturns _)
      · rw [Pool.next_threads_other _ _ (by simp [hc])]
        exact h.calls c'

/-- A turn of an ended task changes its status exactly if the goroutine writes over a
cancellation. -/
theorem TaskInvariant.stays_iff (h : TaskInvariant p) {i : Option κ} (hended : (statusOf p).Ended) :
    statusOf (p.next (exec services) i) = statusOf p ↔ FindsNotCancelled p i := by
  rcases Pool.asks_or_stays (exec services) p i with ⟨a,k,hask⟩ | hstays
  · rw [statusOf_next hask]
    cases i with
    | some c =>
      obtain ⟨rfl,-⟩ := h.call hask
      refine iff_of_true ?_ (by rintro ⟨⟩)
      rcases exec_cancel_status services p.state with ⟨hnot,-⟩ | ⟨-,hsame⟩
      · exact (hnot hended).elim
      · exact hsame
    | none =>
      have horderly := h.orderly
      rw [hask] at horderly
      obtain ⟨hwrites,hcancel,-,-⟩ := horderly
      rw [exec_status p.state hcancel]
      cases hs : a.status? with
      | none =>
        refine iff_of_true rfl fun _ a' k' hask' hwrite => ?_
        cases hask.symm.trans hask'
        exact (hwrite hs).elim
      | some status =>
        have hcancelled : statusOf p = .cancelled := by
          refine hended.resolve_left fun hover => ?_
          have hsilent := h.silent hover
          rw [hask] at hsilent
          cases hs.symm.trans hsilent.1.1
        refine iff_of_false ?_ fun hfinds => hfinds rfl a k hask (by simp [hs]) hcancelled
        change status ≠ statusOf p
        rw [hcancelled]
        exact hwrites status hs
  · rw [hstays]
    refine iff_of_true rfl fun hi a k hask _ => ?_
    subst hi
    rw [Pool.next_of_ask _ hask] at hstays
    have hlog := congrArg Pool.log hstays
    simp at hlog

theorem taskInvariant_run (services : Services σ) (h : TaskInvariant p)
    (schedule : List (Option κ)) :
    TaskInvariant (p.run (exec services) schedule) :=
  Pool.run_invariant (C := fun _ _ => True) _ h (fun _ _ _ _ h _ hask => h.next hask) schedule
    fun _ _ _ _ => trivial

/-- In a run a task ends once if and only if the goroutine never writes a status after a
cancellation. -/
theorem ends_once_iff_no_write_after_cancel {σ κ : Type} [DecidableEq κ]
    (services : Services σ) (job : Job) (createdAt : Int) (o : σ) (schedule : List (Option κ)) :
    EndsOnce services (newPool job createdAt o) schedule ↔
      Pool.Turns (exec services) FindsNotCancelled (newPool job createdAt o) schedule := by
  have hinvariant := fun before => taskInvariant_run services
    (taskInvariant_new (κ := κ) job createdAt o) before
  constructor
  · intro hends before i after hsplit hi a k hask hwrite hcancelled
    have hended : (statusOf ((newPool job createdAt o).run (exec services) before)).Ended :=
      Or.inr hcancelled
    have hstays := hends before [i] after (by simpa using hsplit) hended
    rw [Pool.run_concat] at hstays
    exact ((hinvariant before).stays_iff hended).mp hstays hi a k hask hwrite hcancelled
  · intro hturns before mid after hsplit hended
    induction mid using List.reverseRecOn generalizing after with
    | nil => rw [List.append_nil]
    | append_singleton mid i ih =>
      have hbefore := ih (i :: after) (by simpa using hsplit)
      rw [← List.append_assoc,Pool.run_concat,← hbefore]
      refine ((hinvariant _).stays_iff ?_).mpr
        (hturns (before ++ mid) i after (by simpa using hsplit))
      rw [hbefore]
      exact hended

end Runs

/-- Services that have nothing to say. -/
def nobody : Services Unit
  | .now, _ => (0,())
  | .parentErr, _ => (none,())
  | .acquireLock _ _, _ => (.error "lock already acquired by store-b_1",())
  | .releaseLock _, _ => (none,())
  | .getTimeline _, _ => (.error "remote timeline access not implemented",())
  | .createTimeline _ _, _ => (none,())
  | .getMessages _ _ _ _, _ => (.ok [],())
  | .addMessage _ _ _ _, _ => (none,())
  | .migrateTimeline _ _ _, _ => (none,())
  | .deleteTimeline _, _ => (none,())

/-- The task is cancelled before its goroutine has done anything; the goroutine then makes
it running again. -/
theorem cancelled_runs_again : ¬ EndsOnce nobody
    (newPool ⟨"migration_user:1001_1","user:1001","store-a","store-b",1⟩ 1 () : TaskPool Unit Unit)
    [some (),none,none] := by
  intro hends
  have hstays := hends [some ()] [none,none] [] rfl (Or.inr rfl)
  cases hstays

end Imy.Migration
