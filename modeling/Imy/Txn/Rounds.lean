import Imy.Txn.Coordinator
set_option autoImplicit false

namespace Imy.Txn
open Imy.Lib Imy.Lock

variable {σ : Type}

structure Fixed (c c' : Coordinator σ) : Prop where
  handlers : c'.handlers = c.handlers
  storeID : ∀ p, (c'.objects p).storeID = (c.objects p).storeID
  operation : ∀ p, (c'.objects p).operation = (c.objects p).operation
  params : ∀ p, (c'.objects p).params = (c.objects p).params

theorem Fixed.refl (c : Coordinator σ) : Fixed c c := ⟨rfl,fun _ => rfl,fun _ => rfl,fun _ => rfl⟩

theorem Fixed.trans {c c' c'' : Coordinator σ} (h : Fixed c c') (h' : Fixed c' c'') : Fixed c c'' :=
  ⟨h'.handlers.trans h.handlers,fun p => (h'.storeID p).trans (h.storeID p),
    fun p => (h'.operation p).trans (h.operation p),fun p => (h'.params p).trans (h.params p)⟩

/-- A participant object keeps its data when only status and error are set. -/
theorem Fixed.setObject {c c' : Coordinator σ} (h : Fixed c c') (p : Nat)
    (status : TransactionStatus) (error : String) :
    Fixed c (c'.setObject p { c'.objects p with status := status, error := error }) := by
  refine h.trans ⟨rfl,?_,?_,?_⟩ <;> intro q <;> by_cases hq : q = p
  all_goals
    first
    | (subst hq; simp)
    | simp [hq]

theorem Fixed.called {c c' : Coordinator σ} (h : Fixed c c') (phase : Phase) (p : Nat)
    (answer : Reply × σ) : Fixed c (c'.called phase p answer) :=
  h.trans ⟨rfl,fun _ => rfl,fun _ => rfl,fun _ => rfl⟩

def Coordinator.handlerOf (c : Coordinator σ) (p : Nat) : Option (Handler σ) :=
  c.handlers (c.objects p).storeID

theorem Fixed.handlerOf {c c' : Coordinator σ} (h : Fixed c c') (p : Nat) :
    c'.handlerOf p = c.handlerOf p := by
  simp only [Coordinator.handlerOf,h.handlers,h.storeID]

/-- A transaction that is pending like its participants; so far only the lock
manager was called. -/
structure Opened (c : Coordinator σ) (ps : List Nat) (timeout : Int) (t : Nat)
    (c' : Coordinator σ) : Prop where
  fixed : Fixed c c'
  world : c'.world = c.world
  calls : c'.calls = c.calls
  participants : (c'.txns t).participants = ps
  status : (c'.txns t).status = .pending
  timeout : (c'.txns t).timeout = timeout
  pending : ∀ p ∈ ps, (c'.objects p).status = .pending

/-- What `BeginTransaction` returns is also registered. -/
structure Begun (c : Coordinator σ) (ps : List Nat) (timeout : Int) (t : Nat)
    (c' : Coordinator σ) : Prop extends Opened c ps timeout t c' where
  registered : c'.transactions (c'.txns t).transactionID = some t

theorem Opened.setLocks {c c' : Coordinator σ} {ps : List Nat} {timeout : Int} {t : Nat}
    (h : Opened c ps timeout t c') (m : LockManager) :
    Opened c ps timeout t (c'.setLocks m) :=
  ⟨⟨h.fixed.handlers,h.fixed.storeID,h.fixed.operation,h.fixed.params⟩,h.world,h.calls,
    h.participants,h.status,h.timeout,h.pending⟩

theorem Opened.addLock {c c' : Coordinator σ} {ps : List Nat} {timeout : Int} {t : Nat}
    (h : Opened c ps timeout t c') (locks : List String) :
    Opened c ps timeout t (c'.setTxn t { c'.txns t with locks := locks }) :=
  ⟨⟨h.fixed.handlers,h.fixed.storeID,h.fixed.operation,h.fixed.params⟩,h.world,h.calls,
    by simp [h.participants],by simp [h.status],by simp [h.timeout],h.pending⟩

section Begin
variable (clock : Nat → Int) (ps : List Nat) (timeout : Int)

theorem wp_pendAll (c : Coordinator σ) :
    wp (forM ps fun p => setStatus p .pending)
      (fun _ c' => Fixed c c' ∧ c'.world = c.world ∧ c'.calls = c.calls ∧ c'.txns = c.txns ∧
        ∀ p ∈ ps, (c'.objects p).status = .pending)
      (fun _ _ => False) c := by
  refine wp_forM (I := fun done c' => Fixed c c' ∧ c'.world = c.world ∧ c'.calls = c.calls ∧
    c'.txns = c.txns ∧ ∀ p ∈ done, (c'.objects p).status = .pending) ps
    ⟨Fixed.refl c,rfl,rfl,rfl,by simp⟩ ?_
  rintro done p rest c' - ⟨hf,hw,hc,ht,hp⟩
  simp only [wp_setStatus]
  refine ⟨hf.setObject p .pending (c'.objects p).error,hw,hc,ht,?_⟩
  intro q hq
  by_cases hqp : q = p
  · simp [hqp]
  · have hq' : q ∈ done := by simpa [hqp] using hq
    simpa [hqp] using hp q hq'

theorem wp_allocate (c : Coordinator σ) :
    wp (allocate clock ps timeout)
      (fun t c' => t = c.allocated ∧ Opened c ps timeout t c') (fun _ _ => False) c := by
  simp only [allocate,wp_bind,wp_now,wp_get,wp_set]
  refine wp_mono (wp_pendAll ps _) ?_ (fun _ _ h => h)
  rintro _ c' ⟨hf,hw,hc,ht,hp⟩
  simp only [wp_pure]
  refine ⟨rfl,⟨hf.handlers,hf.storeID,hf.operation,hf.params⟩,hw,hc,?_,?_,?_,hp⟩ <;>
    rw [ht] <;> simp

theorem wp_acquireAll {c c' : Coordinator σ} {t : Nat}
    (h : Opened c ps timeout t c') (keys : List String) :
    wp (forM keys (acquireOne clock t timeout))
      (fun _ c'' => Opened c ps timeout t c'')
      (fun e c'' => (∃ text, e = .error text) ∧ Opened c ps timeout t c'') c' := by
  refine wp_forM (I := fun _ c'' => Opened c ps timeout t c'') keys h ?_
  rintro done key rest c'' - h
  simp only [acquireOne,wp_bind,wp_locking]
  refine wp_mono (wp_of_any _ _) ?_ ?_
  · intro lock m _
    exact (h.setLocks m).addLock _
  · intro e m _
    simp only [wp_get]
    refine wp_mono (wp_releaseLocks clock _ _) ?_ (fun _ _ h => h.elim)
    rintro _ c₂ ⟨m',rfl⟩
    exact ⟨⟨_,rfl⟩,(h.setLocks m).setLocks m'⟩

theorem wp_beginTransaction_opened (order : List String → List String) (c : Coordinator σ) :
    wp (beginTransaction clock order ps timeout)
      (fun t c' => Begun c ps timeout t c')
      (fun e c' => (∃ text, e = .error text) ∧ ∃ t, Opened c ps timeout t c') c := by
  simp only [beginTransaction,wp_bind]
  refine wp_mono (wp_allocate clock ps timeout c) ?_ (fun _ _ h => h.elim)
  rintro t c' ⟨-,ho⟩
  simp only [wp_get]
  refine wp_mono (wp_acquireAll clock ps timeout ho _) ?_ (fun _ _ h => ⟨h.1,t,h.2⟩)
  intro _ c'' ho
  exact ⟨⟨⟨ho.fixed.handlers,ho.fixed.storeID,ho.fixed.operation,ho.fixed.params⟩,ho.world,ho.calls,
    ho.participants,ho.status,ho.timeout,ho.pending⟩,by simp⟩

theorem wp_beginTransaction (order : List String → List String) (c : Coordinator σ) :
    wp (beginTransaction clock order ps timeout)
      (fun t c' => Begun c ps timeout t c')
      (fun e c' => (∃ text, e = .error text) ∧ c'.world = c.world) c :=
  wp_mono (wp_beginTransaction_opened clock ps timeout order c) (fun _ _ h => h)
    (fun _ _ ⟨he,_,ho⟩ => ⟨he,ho.world⟩)

end Begin

theorem wp_findTransaction {c : Coordinator σ} {txnID : String} {t : Nat}
    (h : c.transactions txnID = some t) (Q : Nat → Coordinator σ → Prop)
    (E : Fault → Coordinator σ → Prop) : wp (findTransaction txnID) Q E c = Q t c := by
  simp only [findTransaction,wp_bind,wp_get,h,wp_pure]

section Rounds
variable (txnID : String) (p : Nat) (c : Coordinator σ)

inductive PrepareRound : Coordinator σ → Prop where
  | missing (hh : c.handlerOf p = none) :
      PrepareRound (c.setObject p { c.objects p with
        status := .aborted
        error := "handler not found for store " ++ (c.objects p).storeID })
  | ok (handler : Handler σ) (w : σ) (hh : c.handlerOf p = some handler)
      (hr : handler.prepare txnID (c.objects p) c.world = (.ok,w)) :
      PrepareRound ((c.called .prepare p (.ok,w)).setObject p
        { c.objects p with status := .prepared })

inductive PrepareStop : Fault → Coordinator σ → Prop where
  | error (handler : Handler σ) (err : String) (w : σ) (hh : c.handlerOf p = some handler)
      (hr : handler.prepare txnID (c.objects p) c.world = (.error err,w)) :
      PrepareStop (.error ("prepare failed for participant " ++
        (c.objects p).storeID ++ ": " ++ err))
        ((c.called .prepare p (.error err,w)).setObject p
          { c.objects p with status := .aborted, error := err })
  | lost (handler : Handler σ) (loss : Loss) (w : σ) (hh : c.handlerOf p = some handler)
      (hr : handler.prepare txnID (c.objects p) c.world = (.lost loss,w)) :
      PrepareStop (.lost loss) (c.called .prepare p (.lost loss,w))

theorem setObject_setObject (o o' : TransactionParticipant) :
    (c.setObject p o).setObject p o' = c.setObject p o' := by
  simp [Coordinator.setObject]

theorem wp_prepareOne : wp (prepareOne txnID p) (fun _ c' => PrepareRound txnID p c c')
    (fun e c' => PrepareStop txnID p c e c') c := by
  simp only [prepareOne,wp_bind,wp_get]
  cases hh : c.handlers (c.objects p).storeID with
  | none =>
    simp only [wp_bind,wp_setStatus,wp_setError,setObject_setObject]
    simpa using (PrepareRound.missing hh : PrepareRound txnID p c _)
  | some handler =>
    simp only [wp_bind,wp_callHandler]
    rcases hr : handler.prepare txnID (c.objects p) c.world with ⟨reply,w⟩
    cases reply with
    | ok => exact PrepareRound.ok handler w hh hr
    | error err =>
      simp only [wp_setStatus,wp_setError,setObject_setObject,wp_throw]
      simpa using PrepareStop.error handler err w hh hr
    | lost loss => exact PrepareStop.lost handler loss w hh hr

inductive CommitRound (errors : List String) : List String → Coordinator σ → Prop where
  | skip (hs : (c.objects p).status ≠ .prepared) : CommitRound errors errors c
  | missing (hs : (c.objects p).status = .prepared) (hh : c.handlerOf p = none) :
      CommitRound errors (errors ++ ["handler not found for store " ++ (c.objects p).storeID]) c
  | error (handler : Handler σ) (err : String) (w : σ) (hs : (c.objects p).status = .prepared)
      (hh : c.handlerOf p = some handler)
      (hr : handler.commit txnID (c.objects p) c.world = (.error err,w)) :
      CommitRound errors
        (errors ++ ["commit failed for participant " ++ (c.objects p).storeID ++ ": " ++ err])
        ((c.called .commit p (.error err,w)).setObject p { c.objects p with error := err })
  | ok (handler : Handler σ) (w : σ) (hs : (c.objects p).status = .prepared)
      (hh : c.handlerOf p = some handler)
      (hr : handler.commit txnID (c.objects p) c.world = (.ok,w)) :
      CommitRound errors errors
        ((c.called .commit p (.ok,w)).setObject p { c.objects p with status := .committed })

theorem wp_commitOne (errors : List String) :
    wp (commitOne txnID errors p) (fun errors' c' => CommitRound txnID p c errors errors' c')
      (fun e c' => (c.objects p).status = .prepared ∧ ∃ handler loss w, e = .lost loss ∧
        c.handlerOf p = some handler ∧ handler.commit txnID (c.objects p) c.world = (.lost loss,w) ∧
        c' = c.called .commit p (.lost loss,w)) c := by
  simp only [commitOne,wp_bind,wp_get,wp_ite,wp_pure]
  split
  · rename_i hs
    exact CommitRound.skip hs
  · rename_i hs
    have hs : (c.objects p).status = .prepared := by simpa using hs
    cases hh : c.handlers (c.objects p).storeID with
    | none => exact CommitRound.missing hs hh
    | some handler =>
      simp only [wp_bind,wp_callHandler]
      rcases hr : handler.commit txnID (c.objects p) c.world with ⟨reply,w⟩
      cases reply with
      | ok => exact CommitRound.ok handler w hs hh hr
      | error err => exact CommitRound.error handler err w hs hh hr
      | lost loss => exact ⟨hs,handler,loss,w,rfl,hh,hr,rfl⟩

inductive AbortRound : Coordinator σ → Prop where
  | skip (hs : (c.objects p).status = .pending ∨ c.handlerOf p = none) : AbortRound c
  | call (handler : Handler σ) (reply : Reply) (w : σ) (error : String)
      (hs : (c.objects p).status ≠ .pending) (hh : c.handlerOf p = some handler)
      (hr : handler.abort txnID (c.objects p) c.world = (reply,w)) :
      AbortRound ((c.called .abort p (reply,w)).setObject p
        { c.objects p with status := .aborted, error := error })

theorem wp_abortOne : wp (abortOne txnID p) (fun _ c' => AbortRound txnID p c c')
    (fun e c' => ∃ handler loss w, e = .lost loss ∧ c.handlerOf p = some handler ∧
      handler.abort txnID (c.objects p) c.world = (.lost loss,w) ∧
      c' = c.called .abort p (.lost loss,w)) c := by
  simp only [abortOne,wp_bind,wp_get,wp_ite,wp_pure]
  split
  · rename_i hs
    exact AbortRound.skip (Or.inl hs)
  · rename_i hs
    cases hh : c.handlers (c.objects p).storeID with
    | none => exact AbortRound.skip (Or.inr hh)
    | some handler =>
      simp only [wp_bind,wp_callHandler]
      rcases hr : handler.abort txnID (c.objects p) c.world with ⟨reply,w⟩
      cases reply with
      | ok =>
        simpa using AbortRound.call handler .ok w (c.objects p).error hs hh hr
      | error err =>
        simp only [wp_setStatus,wp_setError,setObject_setObject]
        simpa using AbortRound.call handler (.error err) w err hs hh hr
      | lost loss => exact ⟨handler,loss,w,rfl,hh,hr,rfl⟩

end Rounds

/-- A participant that creates the timeline with its own number on `target`. -/
def creating (target : String) (p : Nat) : TransactionParticipant where
  storeID := target
  operation := .createTimeline
  params := fun name => if name = "timeline_key" then some (.string (decimal p)) else none
  status := .pending
  error := ""

/-- One handler, which always answers nil, for `store_1`. -/
def obliging (storeID : String) : Option (Handler Unit) :=
  if storeID = "store_1" then
    some ⟨fun _ _ w => (.ok,w),fun _ _ w => (.ok,w),fun _ _ w => (.ok,w)⟩
  else none

end Imy.Txn
