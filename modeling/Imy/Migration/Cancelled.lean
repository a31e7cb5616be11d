import Imy.Migration.TaskEnds
set_option autoImplicit false

namespace Imy.Migration
open Imy.Lib

section Programs
variable {α β : Type}

def Act.Moves (a : Act) : Prop :=
  ∃ k fromStoreID toStoreID, a = .call (.migrateTimeline k fromStoreID toStoreID)

def NeverMoves (p : MigrationM α) : Prop := p.Yields (fun a => ¬ a.Moves) fun _ => True

/-- The context is looked at before `MigrateTimeline` is called, unless `GetMessages` returns
nothing; and a context that is done ends the matter. -/
def Checked : MigrationM α → Prop
  | .ret _ => True
  | .fail _ => True
  | .ask .ctxErr next => ∀ text, NeverMoves (next (some text))
  | .ask (.call (.migrateTimeline _ _ _)) _ => False
  | .ask (.call (.getMessages _ _ _ _)) next => ∀ got, got ≠ .ok [] → Checked (next got)
  | .ask _ next => ∀ r, Checked (next r)

/-- A request that neither looks at the context nor has to do with it. -/
def Plain : Act → Prop
  | .ctxErr => False
  | .call (.migrateTimeline _ _ _) => False
  | .call (.getMessages _ _ _ _) => False
  | _ => True

theorem plain_cases (a : Act) : Plain a ∨ a = .ctxErr ∨ a.Moves ∨
    ∃ k startTime endTime limit, a = .call (.getMessages k startTime endTime limit) := by
  cases a with
  | ctxErr => exact Or.inr (Or.inl rfl)
  | call c =>
    cases c with
    | migrateTimeline k fromStoreID toStoreID => exact Or.inr (Or.inr (Or.inl ⟨_,_,_,rfl⟩))
    | getMessages k startTime endTime limit => exact Or.inr (Or.inr (Or.inr ⟨_,_,_,_,rfl⟩))
    | _ => exact Or.inl trivial
  | _ => exact Or.inl trivial

theorem checked_ask {a : Act} (ha : Plain a) {next : a.Answer → MigrationM α} :
    Checked (.ask a next) ↔ ∀ r, Checked (next r) := by
  cases a with
  | ctxErr => exact ha.elim
  | call c =>
    cases c with
    | migrateTimeline k fromStoreID toStoreID => exact ha.elim
    | getMessages k startTime endTime limit => exact ha.elim
    | _ => exact Iff.rfl
  | _ => exact Iff.rfl

theorem checked_of_never {p : MigrationM α} (h : NeverMoves p) : Checked p := by
  induction p with
  | ret a => exact trivial
  | fail e => exact trivial
  | ask a next ih =>
    obtain ha | rfl | hmoves | ⟨k,startTime,endTime,limit,rfl⟩ := plain_cases a
    · exact (checked_ask ha).mpr fun r => ih r (h.2 r)
    · exact fun text => h.2 (some text)
    · exact (h.1 hmoves).elim
    · exact fun got _ => ih got (h.2 got)

/-- What comes after a checked program must not move anything, for it may have returned
before the check. -/
theorem Checked.bind {p : MigrationM α} {f : α → MigrationM β} (hp : Checked p)
    (hf : ∀ a, NeverMoves (f a)) :
    Checked (p >>= f) := by
  change Checked (p.bind f)
  induction p with
  | ret a => exact checked_of_never (hf a)
  | fail e => exact trivial
  | ask a next ih =>
    obtain ha | rfl | ⟨k,fromStoreID,toStoreID,rfl⟩ | ⟨k,startTime,endTime,limit,rfl⟩ :=
      plain_cases a
    · exact (checked_ask ha).mpr fun r => ih r ((checked_ask ha).mp hp r)
    · exact fun text => (hp text).bind fun a _ => hf a
    · exact hp.elim
    · exact fun got hgot => ih got (hp got hgot)

theorem Checked.attempt {p : MigrationM α} (hp : Checked p) :
    Checked (p.attempt : MigrationM (Except String α)) := by
  induction p with
  | ret a => exact trivial
  | fail e => exact trivial
  | ask a next ih =>
    obtain ha | rfl | ⟨k,fromStoreID,toStoreID,rfl⟩ | ⟨k,startTime,endTime,limit,rfl⟩ :=
      plain_cases a
    · exact (checked_ask ha).mpr fun r => ih r ((checked_ask ha).mp hp r)
    · exact fun text => Prog.Yields.attempt (hp text)
    · exact hp.elim
    · exact fun got hgot => ih got (hp got hgot)

theorem checked_plain {p : MigrationM α} {f : α → MigrationM β} (hp : p.Yields Plain fun _ => True)
    (hf : ∀ a, Checked (f a)) : Checked (p >>= f) := by
  change Checked (p.bind f)
  induction p with
  | ret a => exact hf a
  | fail e => exact trivial
  | ask a next ih => exact (checked_ask hp.1).mpr fun r => ih r (hp.2 r)

theorem checked_asked {a : Act} (ha : Plain a) {f : a.Answer → MigrationM α}
    (hf : ∀ r, Checked (f r)) :
    Checked (ask a >>= f) := checked_plain (yields_ask ha) hf

theorem copyMessages_checked (timelineKey : String) (total i : Nat) (msg : Storage.Message)
    (rest : List Storage.Message) (f : Unit → MigrationM α) :
    Checked (copyMessages timelineKey total i (msg :: rest) >>= f) := fun _ => trivial

theorem performMigration_checked (job : Job) : Checked (performMigration job) := by
  refine checked_asked (by trivial) fun _ => checked_asked (by trivial) fun found => ?_
  refine checked_plain (yields_orFail _ found) fun sourceTimeline => ?_
  refine checked_asked (by trivial) fun _ => checked_asked (by trivial) fun _ =>
    checked_asked (by trivial) fun err => ?_
  refine checked_plain (yields_nilOrFail _ err) fun _ => ?_
  refine checked_asked (by trivial) fun _ => checked_asked (by trivial) fun _ =>
    checked_asked (by trivial) fun now => ?_
  -- here the messages come, and with the first one the first check
  intro got hgot
  match got,hgot with
  | .error text,_ => exact trivial
  | .ok [],hgot => exact (hgot rfl).elim
  | .ok (msg :: rest),_ =>
    change Checked (copyMessages job.timelineKey (msg :: rest).length 0 (msg :: rest) >>= _)
    exact copyMessages_checked _ _ _ _ _ _

theorem yields_pure_or_fail (result : Except String Unit) :
    NeverMoves (match result with
      | .error text => .fail text
      | .ok _ => pure () : MigrationM Unit) := by
  cases result with
  | error text => exact trivial
  | ok u => exact trivial

theorem never_ask {a : Act} (ha : ¬ a.Moves) {f : a.Answer → MigrationM α}
    (hf : ∀ r, NeverMoves (f r)) :
    NeverMoves (ask a >>= f) := (yields_ask ha).bind fun r _ => hf r

theorem executeMigration_checked (job : Job) : Checked (executeMigration job) := by
  have hend : ∀ u : Unit, NeverMoves (ask .setEndTime >>= fun _ =>
      ask .deleteRunningTask >>= fun _ => ask .cancelContext) :=
    fun _ => never_ask (by rintro ⟨_,_,_,⟨⟩⟩) fun _ => never_ask (by rintro ⟨_,_,_,⟨⟩⟩) fun _ =>
      yields_ask (by rintro ⟨_,_,_,⟨⟩⟩)
  unfold executeMigration migrateAndReport
  refine checked_asked (by trivial) fun _ => ?_
  rw [Prog.bind_assoc]
  refine checked_asked (by trivial) fun _ => ?_
  rw [Prog.bind_assoc]
  refine checked_asked (by trivial) fun _ => ?_
  rw [Prog.bind_assoc]
  refine Checked.bind (Checked.attempt ?_) fun result => ?_
  · refine checked_asked (by trivial) fun acquired =>
      checked_plain (yields_orFail _ acquired) fun lock => ?_
    refine (performMigration_checked job).attempt.bind fun result =>
      never_ask (by rintro ⟨_,_,_,⟨⟩⟩) fun _ => ?_
    exact yields_pure_or_fail result
  · cases result with
    | error text =>
      refine never_ask (by rintro ⟨_,_,_,⟨⟩⟩) fun progress =>
        never_ask (by rintro ⟨_,_,_,⟨⟩⟩) fun _ => hend ()
    | ok u => exact never_ask (by rintro ⟨_,_,_,⟨⟩⟩) fun _ => hend ()

end Programs

section Runs
variable {σ κ : Type} [DecidableEq κ] {services : Services σ} {p : TaskPool σ κ}

/-- The turn of a call of `CancelMigration` that returns nil. -/
def Cancels (p : TaskPool σ κ) (i : Option κ) : Prop :=
  i ≠ none ∧ (∃ next, p.threads i = .ask .cancelMigration next) ∧ ¬ (statusOf p).Ended

/-- The turn at which the goroutine calls `MigrateTimeline` and gets a nil. -/
def MovesAt (services : Services σ) (p : TaskPool σ κ) (i : Option κ) : Prop :=
  i = none ∧ ∃ k fromStoreID toStoreID next,
    p.threads none = .ask (.call (.migrateTimeline k fromStoreID toStoreID)) next ∧
      (services (.migrateTimeline k fromStoreID toStoreID) p.state.2).1 = none

/-- Nothing is moved after a cancellation. -/
def NoMoveAfterCancel (services : Services σ) (p : TaskPool σ κ) (schedule : List (Option κ)) :
    Prop :=
  ∀ before i mid j after, schedule = before ++ i :: mid ++ j :: after →
    Cancels (p.run (exec services) before) i →
      ¬ MovesAt services (p.run (exec services) (before ++ i :: mid)) j

/-- A cancellation finds the cancel function registered and a check ahead, and `GetMessages`,
if it is called later, returns a message or fails. -/
def InTime (services : Services σ) (p : TaskPool σ κ) (i : Option κ) : Prop :=
  (Cancels p i → p.state.1.inRunningTasks = true ∧ Checked (p.threads none)) ∧
    (i = none → p.state.1.contextCancelled = true → ∀ k startTime endTime limit next,
      p.threads none = .ask (.call (.getMessages k startTime endTime limit)) next →
        (services (.getMessages k startTime endTime limit) p.state.2).1 ≠ .ok [])

structure Stopping (p : TaskPool σ κ) : Prop where
  done : p.state.1.contextCancelled = true
  ahead : Checked (p.threads none)

theorem exec_contextCancelled (a : Act) {s : TaskState × σ} (h : s.1.contextCancelled = true) :
    (exec services a s).2.1.contextCancelled = true := by
  cases a with
  | cancelMigration =>
    rw [exec]
    split
    · simp [h]
    · exact h
  | ctxErr =>
    rw [exec]
    split
    · exact h
    · exact h
  | cancelContext => rfl
  | _ => exact h

theorem Stopping.next (h : Stopping p) {i : Option κ} (hturn : InTime services p i)
    {a : Act} {k : a.Answer → MigrationM Unit} (hask : p.threads i = .ask a k) :
    Stopping (p.next (exec services) i) := by
  refine ⟨?_,?_⟩
  · rw [Pool.next_of_ask _ hask]
    exact exec_contextCancelled a h.done
  · cases i with
    | some c =>
      rw [Pool.next_threads_other _ _ (by simp)]
      exact h.ahead
    | none =>
      rw [Pool.next_threads_self _ hask]
      have hahead := h.ahead
      rw [hask] at hahead
      obtain ha | rfl | ⟨key,fromStoreID,toStoreID,rfl⟩ | ⟨key,startTime,endTime,limit,rfl⟩ :=
        plain_cases a
      · exact (checked_ask ha).mp hahead _
      · have hanswer : (exec services .ctxErr p.state).1 = some "context canceled" := by
          rw [exec,if_pos h.done]
        rw [hanswer]
        exact checked_of_never (hahead _)
      · exact hahead.elim
      · exact hahead _ (hturn.2 rfl h.done _ _ _ _ k hask)

theorem stopping_of_cancels {i : Option κ} (hcancels : Cancels p i) (hturn : InTime services p i) :
    Stopping (p.next (exec services) i) := by
  obtain ⟨hregistered,hahead⟩ := hturn.1 hcancels
  obtain ⟨hi,⟨k,hask⟩,hopen⟩ := hcancels
  refine ⟨?_,?_⟩
  · rw [Pool.next_of_ask _ hask]
    have hstatus : p.state.1.task.status = .running ∨ p.state.1.task.status = .pending := by
      unfold statusOf MigrationStatus.Ended MigrationStatus.Over at hopen
      cases hs : p.state.1.task.status <;> simp_all
    change (exec services .cancelMigration p.state).2.1.contextCancelled = true
    rw [exec,if_pos hstatus]
    simp [hregistered]
  · rw [Pool.next_threads_other _ _ hi.symm]
    exact hahead

theorem stopping_after {schedule before : List (Option κ)} {i : Option κ}
    (hturns : Pool.Turns (exec services) (InTime services) p schedule)
    (hcancels : Cancels (p.run (exec services) before) i) (mid : List (Option κ))
    {after : List (Option κ)}
    (hsplit : schedule = before ++ i :: mid ++ after) :
    Stopping (p.run (exec services) (before ++ i :: mid)) := by
  induction mid using List.reverseRecOn generalizing after with
  | nil =>
    rw [Pool.run_concat]
    exact stopping_of_cancels hcancels (hturns before i after (by simpa using hsplit))
  | append_singleton mid j ih =>
    have hbefore := @ih (j :: after) (by simpa using hsplit)
    rw [← List.cons_append,← List.append_assoc,Pool.run_concat]
    rcases Pool.asks_or_stays (exec services) (p.run (exec services) (before ++ i :: mid)) j with
      ⟨a,k,hask⟩ | hstays
    · exact hbefore.next (hturns (before ++ i :: mid) j after (by simpa using hsplit)) hask
    · rw [hstays]
      exact hbefore

/-- If every cancellation is in time, nothing is moved after one. -/
theorem no_move_after_cancel_in_time {σ κ : Type} [DecidableEq κ]
    (services : Services σ) (job : Job) (createdAt : Int) (o : σ) (schedule : List (Option κ))
    (hturns : Pool.Turns (exec services) (InTime services) (newPool job createdAt o) schedule) :
    NoMoveAfterCancel services (newPool job createdAt o) schedule := by
  rintro before i mid j after hsplit hcancels ⟨rfl,k,fromStoreID,toStoreID,next,hask,-⟩
  have hahead := (stopping_after hturns hcancels mid hsplit).ahead
  rw [hask] at hahead
  exact hahead

end Runs

def sampleJob : Job := ⟨"migration_user:1001_1","user:1001","store-a","store-b",1⟩

/-- Services that do what they are asked for, on a timeline without messages. -/
def obliging : Services Unit
  | .now, _ => (0,())
  | .parentErr, _ => (none,())
  | .acquireLock lockKey ttl, _ => (.ok ⟨lockKey,"store-a_0","store-a_0","store-a",0,ttl,ttl⟩,())
  | .releaseLock _, _ => (none,())
  | .getTimeline k, _ => (.ok ⟨.conv,k⟩,())
  | .createTimeline _ _, _ => (none,())
  | .getMessages _ _ _ _, _ => (.ok [],())
  | .addMessage _ _ _ _, _ => (none,())
  | .migrateTimeline _ _ _, _ => (none,())
  | .deleteTimeline _, _ => (none,())

/-- Services that do what they are asked for, on a timeline with one message. -/
def oneMessage : Services Unit
  | .getMessages _ _ _ _, _ => (.ok [⟨1,"user:1001",7,0,[104]⟩],())
  | c, o => obliging c o

/-- Where there is always a message, the goroutine's own turns are in time. -/
theorem inTime_none {σ κ : Type} [DecidableEq κ] {services : Services σ} {p : TaskPool σ κ}
    (hmessages : ∀ k startTime endTime limit o,
      (services (.getMessages k startTime endTime limit) o).1 ≠ .ok []) :
    InTime services p none :=
  ⟨fun hcancels => (hcancels.1 rfl).elim,fun _ _ _ _ _ _ _ _ => hmessages _ _ _ _ _⟩

/-- A cancellation right after the goroutine has registered its cancel function, and the goroutine
to its end: it finds its context done at the first message. -/
theorem no_move_after_cancel_in_time_noticed :
    Cancels ((newPool sampleJob 1 () : TaskPool Unit Unit).run (exec oneMessage) [none]) (some ()) ∧
      ((newPool sampleJob 1 () : TaskPool Unit Unit).run (exec oneMessage)
        (none :: some () :: List.replicate 19 none)).state.1.task.error = "context canceled" ∧
      NoMoveAfterCancel oneMessage (newPool sampleJob 1 () : TaskPool Unit Unit)
        (none :: some () :: List.replicate 19 none) := by
  have hcancels :
      Cancels ((newPool sampleJob 1 () : TaskPool Unit Unit).run (exec oneMessage) [none])
      (some ()) :=
    ⟨by simp,⟨_,rfl⟩,by rintro ((h | h) | h) <;> cases h⟩
  have hnone : ∀ p : TaskPool Unit Unit, InTime oneMessage p none :=
    fun _ => inTime_none fun _ _ _ _ _ hempty => by cases hempty
  refine ⟨hcancels,rfl,no_move_after_cancel_in_time oneMessage sampleJob 1 () _ ?_⟩
  refine Pool.turns_cons _ (hnone _) (Pool.turns_cons _ ⟨fun _ => ⟨rfl,?_⟩,
    fun hself => by cases hself⟩ ?_)
  · exact (checked_ask (a := .addRunningTask) trivial).mp (executeMigration_checked sampleJob) ()
  · intro before i after hsplit
    obtain rfl := List.eq_of_mem_replicate
      (hsplit ▸ List.mem_append_right before List.mem_cons_self)
    exact hnone _

/-- The task is cancelled before its goroutine has registered its cancel function; the
goroutine goes on, and the timeline has no message at which it would look. -/
theorem moves_after_early_cancel :
    ¬ NoMoveAfterCancel obliging (newPool sampleJob 1 () : TaskPool Unit Unit)
      (some () :: List.replicate 16 none) := by
  intro hnever
  refine hnever [] (some ()) (List.replicate 15 none) none [] rfl ⟨by simp,⟨_,rfl⟩,?_⟩
    ⟨rfl,_,_,_,_,rfl,rfl⟩
  rintro ((h | h) | h) <;> cases h

end Imy.Migration
