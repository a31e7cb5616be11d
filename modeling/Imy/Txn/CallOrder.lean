import Imy.Lib.Transition
import Imy.Txn.AtomicCommit
set_option autoImplicit false

namespace Imy.Txn
open Imy.Lib Imy.Lock

variable {σ : Type}

/-- In a log of handler calls, Commit of a participant comes at most as often as
it stands in `entries`, after a Prepare that returned nil and after no Abort. -/
def Ordered (ps entries : List Nat) (log : List HandlerCall) : Prop :=
  ∀ p ∈ ps, (repliesOf .commit p log).length ≤ entries.count p ∧
    ∀ before reply, before ++ [⟨.commit,p,reply⟩] <+: log →
      ⟨.prepare,p,.ok⟩ ∈ before ∧ repliesOf .abort p before = []

section Ordered
variable {ps entries : List Nat} {log : List HandlerCall}

theorem Ordered.mono {entries' : List Nat} (h : Ordered ps entries log)
    (hsub : entries.Sublist entries') : Ordered ps entries' log :=
  fun p hp => ⟨(h p hp).1.trans (hsub.count_le p),(h p hp).2⟩

theorem Ordered.once (h : Ordered ps entries log) (hnodup : entries.Nodup) :
    ∀ p ∈ ps, (repliesOf .commit p log).length ≤ 1 :=
  fun p hp => (h p hp).1.trans (List.nodup_iff_count_le_one.mp hnodup p)

theorem Ordered.concat (h : Ordered ps entries log) {call : HandlerCall}
    (hcall : call.participant ∈ ps → call.phase ≠ .commit) :
    Ordered ps entries (log ++ [call]) := by
  intro p hp
  obtain ⟨hcount,hbefore⟩ := h p hp
  have hne : ¬ (call.phase = .commit ∧ call.participant = p) := by
    rintro ⟨hphase,rfl⟩
    exact hcall hp hphase
  refine ⟨?_,?_⟩
  · rw [repliesOf_append,repliesOf_single,if_neg hne,List.append_nil]
    exact hcount
  · intro before reply hpre
    rcases List.prefix_concat_iff.mp hpre with heq | hpre
    · obtain rfl : ⟨.commit,p,reply⟩ = call := by simpa using (List.append_inj' heq rfl).2
      exact absurd ⟨rfl,rfl⟩ hne
    · exact hbefore before reply hpre

theorem Ordered.append (h : Ordered ps entries log) {others : List HandlerCall}
    (hothers : ∀ call ∈ others, call.participant ∉ ps) : Ordered ps entries (log ++ others) := by
  induction others generalizing log with
  | nil => simpa using h
  | cons call others ih =>
    rw [List.append_cons]
    refine ih (h.concat ?_) ?_
    · intro hp
      exact absurd hp (hothers call List.mem_cons_self)
    · intro call' hcall'
      exact hothers call' (List.mem_cons_of_mem _ hcall')

/-- A Commit that is due: the participant is prepared and was never aborted. -/
theorem Ordered.commit (h : Ordered ps entries log) {p : Nat} {reply : Reply}
    (hprepared : ⟨.prepare,p,.ok⟩ ∈ log) (habort : repliesOf .abort p log = []) :
    Ordered ps (entries ++ [p]) (log ++ [⟨.commit,p,reply⟩]) := by
  intro q hq
  obtain ⟨hcount,hbefore⟩ := h q hq
  refine ⟨?_,?_⟩
  · rw [repliesOf_append,repliesOf_single,List.length_append,List.count_append]
    by_cases hqp : p = q
    · simp only [hqp,and_self,if_true,List.length_singleton,List.count_singleton_self]
      omega
    · simp only [hqp,and_false,if_false,List.length_nil]
      omega
  · intro before reply' hpre
    rcases List.prefix_concat_iff.mp hpre with heq | hpre
    · obtain ⟨rfl,hlast⟩ := List.append_inj' heq rfl
      simp only [List.cons.injEq,HandlerCall.mk.injEq,true_and,and_true] at hlast
      rw [hlast.1]
      exact ⟨hprepared,habort⟩
    · exact hbefore before reply' hpre

end Ordered

/-- Nobody was aborted yet, and who is prepared was asked. -/
structure Asked (ps : List Nat) (log : List HandlerCall) (c : Coordinator σ) : Prop where
  unaborted : ∀ p ∈ ps, repliesOf .abort p log = []
  prepared : ∀ p ∈ ps, (c.objects p).status = .prepared → ⟨.prepare,p,.ok⟩ ∈ log

structure Early (ps : List Nat) (log : List HandlerCall) (c : Coordinator σ) : Prop
    extends Asked ps log c where
  uncommitted : ∀ p ∈ ps, repliesOf .commit p log = []

/-- Between two calls for transaction `t`; `log` holds the calls of handlers since
it was begun. -/
structure Lawful (ps : List Nat) (t : Nat) (log : List HandlerCall) (c : Coordinator σ) : Prop where
  participants : (c.txns t).participants = ps
  ordered : Ordered ps ps log
  early : (c.txns t).status ≠ .committed → (c.txns t).status ≠ .aborted → Early ps log c
  settled : (c.txns t).status = .committed → (c.txns t).locks = []

section Rounds
variable {ps : List Nat} {log : List HandlerCall} {c c' : Coordinator σ} {p : Nat}

theorem Asked.of_objects (h : Asked ps log c) (ho : c'.objects = c.objects) : Asked ps log c' :=
  ⟨h.unaborted,fun q hq => by rw [ho]; exact h.prepared q hq⟩

/-- A participant is called for a Prepare or a Commit and given a new status,
which is prepared only after a Prepare that returned nil. -/
theorem Asked.concat (h : Asked ps log c) {call : HandlerCall} (hphase : call.phase ≠ .abort)
    {o : TransactionParticipant}
    (hstatus : o.status = .prepared → (c.objects p).status = .prepared ∨ call = ⟨.prepare,p,.ok⟩)
    (ho : c'.objects = Function.update c.objects p o) : Asked ps (log ++ [call]) c' := by
  refine ⟨?_,?_⟩
  · intro q hq
    rw [repliesOf_append,h.unaborted q hq,repliesOf_single,if_neg fun hc => hphase hc.1]
    rfl
  · intro q hq hprep
    rw [ho] at hprep
    by_cases hqp : q = p
    · subst hqp
      rw [Function.update_self] at hprep
      rcases hstatus hprep with hold | rfl
      · exact List.mem_append_left _ (h.prepared q hq hold)
      · exact List.mem_append_right _ (List.mem_singleton_self _)
    · rw [Function.update_of_ne hqp] at hprep
      exact List.mem_append_left _ (h.prepared q hq hprep)

theorem Early.ordered (h : Early ps log c) : Ordered ps [] log := by
  intro q hq
  refine ⟨by simp [h.uncommitted q hq],?_⟩
  intro before reply hpre
  have hmem : reply ∈ repliesOf .commit q log := by
    rw [mem_repliesOf]
    exact hpre.subset (List.mem_append_right _ (List.mem_singleton_self _))
  simp [h.uncommitted q hq] at hmem

theorem Early.concat (h : Early ps log c) {reply : Reply} {o : TransactionParticipant}
    (hstatus : o.status = .prepared → (c.objects p).status = .prepared ∨ reply = .ok)
    (ho : c'.objects = Function.update c.objects p o) :
    Early ps (log ++ [⟨.prepare,p,reply⟩]) c' := by
  refine ⟨h.toAsked.concat (by simp) ?_ ho,?_⟩
  · intro hprep
    rcases hstatus hprep with hold | rfl
    · exact Or.inl hold
    · exact Or.inr rfl
  · intro q hq
    rw [repliesOf_append,h.uncommitted q hq,repliesOf_single]
    simp

theorem Early.of_objects (h : Early ps log c) (ho : c'.objects = c.objects) : Early ps log c' :=
  ⟨h.toAsked.of_objects ho,h.uncommitted⟩

theorem Early.lawful {t : Nat} (h : Early ps log c) (hps : (c.txns t).participants = ps)
    (hstatus : (c.txns t).status ≠ .committed) : Lawful ps t log c :=
  ⟨hps,h.ordered.mono (List.nil_sublist _),fun _ _ => h,fun hc => absurd hc hstatus⟩

end Rounds

def Returned (base : List HandlerCall) (ps : List Nat) (t : Nat) (c : Coordinator σ) : Prop :=
  ∃ log, c.calls = base ++ log ∧ Lawful ps t log c

def Failed (base : List HandlerCall) (ps : List Nat) (t : Nat) (e : Fault) (c : Coordinator σ) :
    Prop :=
  ∃ log, c.calls = base ++ log ∧ Ordered ps ps log ∧ (¬ e.Lost → Lawful ps t log c)

section Calls
variable (clock : Nat → Int) {base : List HandlerCall} {ps : List Nat} {t : Nat} {txnID : String}
  {log : List HandlerCall} {c : Coordinator σ}

theorem Lawful.failed (h : Lawful ps t log c) (hcalls : c.calls = base ++ log) (e : Fault) :
    Failed base ps t e c :=
  ⟨log,hcalls,h.ordered,fun _ => h⟩

theorem wp_prepareLoop (hearly : Early ps log c) (hcalls : c.calls = base ++ log) :
    wp (forM ps (prepareOne txnID))
      (fun _ c' => ∃ log', c'.txns = c.txns ∧ c'.calls = base ++ log' ∧ Early ps log' c')
      (fun e c' => ∃ log', c'.txns = c.txns ∧ c'.calls = base ++ log' ∧ Ordered ps [] log' ∧
        (¬ e.Lost → Early ps log' c')) c := by
  refine wp_forM (I := fun _ c' => ∃ log', c'.txns = c.txns ∧ c'.calls = base ++ log' ∧
    Early ps log' c') ps ⟨log,rfl,hcalls,hearly⟩ ?_
  rintro done p rest c₁ - ⟨log₁,htxns,hcalls₁,hearly₁⟩
  refine wp_mono (wp_prepareOne txnID p c₁) ?_ ?_
  · intro _ c₂ hr
    cases hr with
    | missing hh =>
      refine ⟨log₁,htxns,hcalls₁,⟨hearly₁.unaborted,?_⟩,hearly₁.uncommitted⟩
      intro q hq hprep
      by_cases hqp : q = p
      · simp [hqp] at hprep
      · exact hearly₁.prepared q hq (by simpa [hqp] using hprep)
    | ok handler w hh hr =>
      exact ⟨log₁ ++ [⟨.prepare,p,.ok⟩],htxns,by simp [hcalls₁],
        hearly₁.concat (fun _ => Or.inr rfl) rfl⟩
  · intro e c₂ hr
    cases hr with
    | error handler err w hh hr =>
      have hearly₂ : Early ps (log₁ ++ [⟨.prepare,p,.error err⟩])
          ((c₁.called .prepare p (.error err,w)).setObject p
            { c₁.objects p with status := .aborted, error := err }) :=
        hearly₁.concat (by simp) rfl
      exact ⟨_,htxns,by simp [hcalls₁],hearly₂.ordered,fun _ => hearly₂⟩
    | lost handler loss w hh hr =>
      refine ⟨log₁ ++ [⟨.prepare,p,.lost loss⟩],htxns,by simp [hcalls₁],?_,by simp⟩
      exact hearly₁.ordered.concat (by simp)

theorem wp_prepareTransaction_lawful (hreg : c.transactions txnID = some t)
    (hcalls : c.calls = base ++ log) (h : Lawful ps t log c) :
    wp (prepareTransaction clock txnID) (fun _ c' => Returned base ps t c')
      (fun e c' => Failed base ps t e c') c := by
  simp only [prepareTransaction,prepareBody,wp_bind,wp_findTransaction hreg,wp_get,wp_ite,wp_throw,
    wp_now,wp_modifyTxn,h.participants]
  split
  · exact h.failed hcalls _
  rename_i hstatus
  have hpending : (c.txns t).status = .pending := by simpa using hstatus
  have hearly : Early ps log c := h.early (by simp [hpending]) (by simp [hpending])
  split
  · refine ⟨log,hcalls,h.ordered,fun _ => Early.lawful (hearly.of_objects rfl) ?_ ?_⟩
    · simp [h.participants]
    · simp
  refine wp_mono (wp_prepareLoop (c := c.setLocks c.lockManager.advance)
    (hearly.of_objects rfl) hcalls) ?_ ?_
  · rintro _ c₁ ⟨log₁,htxns,hcalls₁,hearly₁⟩
    refine ⟨log₁,hcalls₁,Early.lawful (hearly₁.of_objects rfl) ?_ ?_⟩
    · simp [htxns,h.participants]
    · simp
  · rintro e c₁ ⟨log₁,htxns,hcalls₁,hordered,hearly₁⟩
    refine ⟨log₁,hcalls₁,hordered.mono (List.nil_sublist _),fun hlost =>
      (hearly₁ hlost).lawful ?_ ?_⟩
    · simp [htxns,h.participants]
    · simp [htxns,hpending]

theorem wp_commitLoop (hearly : Early ps log c) (hcalls : c.calls = base ++ log) :
    wp (ps.foldlM (commitOne txnID) [])
      (fun _ c' => ∃ log', c'.txns = c.txns ∧ c'.calls = base ++ log' ∧ Ordered ps ps log')
      (fun e c' => e.Lost ∧ ∃ log', c'.calls = base ++ log' ∧ Ordered ps ps log') c := by
  refine wp_mono (wp_foldlM (I := fun done _ c' => ∃ log', c'.txns = c.txns ∧
    c'.calls = base ++ log' ∧ Ordered ps done log' ∧ Asked ps log' c') ps
    ⟨log,rfl,hcalls,hearly.ordered,hearly.toAsked⟩ ?_) ?_ (fun _ _ h => h)
  · rintro done p rest errors c₁ hps ⟨log₁,htxns,hcalls₁,hordered,hasked⟩
    have hp : p ∈ ps := by simp [hps]
    have hdone : (done ++ [p]).Sublist ps := by
      rw [hps,List.append_cons done p rest]
      exact List.sublist_append_left _ _
    -- the status that lets the loop call Commit was set by a Prepare that returned nil
    have hdue : (c₁.objects p).status = .prepared → ∀ reply,
        Ordered ps (done ++ [p]) (log₁ ++ [⟨.commit,p,reply⟩]) := fun hs reply =>
      hordered.commit (hasked.prepared p hp hs) (hasked.unaborted p hp)
    refine wp_mono (wp_commitOne txnID p c₁ errors) ?_ ?_
    · intro errors' c₂ hr
      cases hr with
      | skip hs => exact ⟨log₁,htxns,hcalls₁,hordered.mono (List.sublist_append_left _ _),hasked⟩
      | missing hs hh =>
        exact ⟨log₁,htxns,hcalls₁,hordered.mono (List.sublist_append_left _ _),hasked⟩
      | error handler err w hs hh hr =>
        exact ⟨_,htxns,by simp [hcalls₁],hdue hs (.error err),
          hasked.concat (by simp) (fun _ => Or.inl hs) rfl⟩
      | ok handler w hs hh hr =>
        exact ⟨_,htxns,by simp [hcalls₁],hdue hs .ok,hasked.concat (by simp) (by simp) rfl⟩
    · rintro _ c₂ ⟨hs,handler,loss,w,rfl,-,-,rfl⟩
      exact ⟨trivial,_,by simp [hcalls₁],(hdue hs (.lost loss)).mono hdone⟩
  · rintro errors c₁ ⟨log₁,htxns,hcalls₁,hordered,-⟩
    exact ⟨log₁,htxns,hcalls₁,hordered⟩

theorem wp_commitTransaction_lawful (hreg : c.transactions txnID = some t)
    (hcalls : c.calls = base ++ log) (h : Lawful ps t log c) :
    wp (commitTransaction clock txnID) (fun _ c' => Returned base ps t c')
      (fun e c' => Failed base ps t e c') c := by
  simp only [commitTransaction,commitBody,releaseHeld,wp_bind,wp_findTransaction hreg,wp_get,wp_ite,
    wp_throw,wp_now,wp_modifyTxn,h.participants]
  split
  · exact h.failed hcalls _
  rename_i hstatus
  have hprepared : (c.txns t).status = .prepared := by simpa using hstatus
  refine wp_mono (wp_commitLoop (h.early (by simp [hprepared]) (by simp [hprepared])) hcalls) ?_ ?_
  · rintro errors c₁ ⟨log₁,htxns,hcalls₁,hordered⟩
    split
    · refine ⟨log₁,hcalls₁,hordered,fun _ => ⟨?_,hordered,by simp,by simp⟩⟩
      simp [htxns,h.participants]
    · refine wp_mono (wp_releaseLocks clock _ _) ?_ (fun _ _ h => h.elim)
      rintro _ c₂ ⟨m,rfl⟩
      exact ⟨log₁,hcalls₁,by simp [htxns,h.participants],hordered,by simp,by simp⟩
  · rintro e c₁ ⟨hlost,log₁,hcalls₁,hordered⟩
    exact ⟨log₁,hcalls₁,hordered,fun hback => (hback hlost).elim⟩

theorem wp_abortLoop (hordered : Ordered ps ps log) (hcalls : c.calls = base ++ log) :
    wp (forM ps (abortOne txnID))
      (fun _ c' => ∃ log', c'.txns = c.txns ∧ c'.calls = base ++ log' ∧ Ordered ps ps log')
      (fun e c' => e.Lost ∧ ∃ log', c'.calls = base ++ log' ∧ Ordered ps ps log') c := by
  refine wp_forM (I := fun _ (c' : Coordinator σ) => ∃ log', c'.txns = c.txns ∧
    c'.calls = base ++ log' ∧ Ordered ps ps log') ps ⟨log,rfl,hcalls,hordered⟩ ?_
  rintro done p rest c₁ - ⟨log₁,htxns,hcalls₁,hordered₁⟩
  refine wp_mono (wp_abortOne txnID p c₁) ?_ ?_
  · intro _ c₂ hr
    cases hr with
    | skip hs => exact ⟨log₁,htxns,hcalls₁,hordered₁⟩
    | call handler reply w error hs hh hr =>
      exact ⟨log₁ ++ [⟨.abort,p,reply⟩],htxns,by simp [hcalls₁],hordered₁.concat (by simp)⟩
  · rintro _ c₂ ⟨handler,loss,w,rfl,-,-,rfl⟩
    exact ⟨trivial,log₁ ++ [⟨.abort,p,.lost loss⟩],by simp [hcalls₁],hordered₁.concat (by simp)⟩

theorem wp_abortTransaction_lawful (hreg : c.transactions txnID = some t)
    (hcalls : c.calls = base ++ log) (h : Lawful ps t log c) :
    wp (abortTransaction clock txnID) (fun _ c' => Returned base ps t c')
      (fun e c' => Failed base ps t e c') c := by
  simp only [abortTransaction,abortBody,releaseHeld,wp_bind,wp_findTransaction hreg,wp_get,wp_ite,
    wp_throw,wp_now,wp_modifyTxn,h.participants]
  split
  · exact h.failed hcalls _
  refine wp_mono (wp_abortLoop h.ordered hcalls) ?_ ?_
  · rintro _ c₁ ⟨log₁,htxns,hcalls₁,hordered⟩
    refine wp_mono (wp_releaseLocks clock _ _) ?_ (fun _ _ h => h.elim)
    rintro _ c₂ ⟨m,rfl⟩
    exact ⟨log₁,hcalls₁,by simp [htxns,h.participants],hordered,by simp,by simp⟩
  · rintro e c₁ ⟨hlost,log₁,hcalls₁,hordered⟩
    exact ⟨log₁,hcalls₁,hordered,fun hback => (hback hlost).elim⟩

end Calls

/-- The call of the coordinator that a phase stands for. -/
def coordinatorCall (clock : Nat → Int) (txnID : String) : Phase → TxnM σ Unit
  | .prepare => prepareTransaction clock txnID
  | .commit => commitTransaction clock txnID
  | .abort => abortTransaction clock txnID

section Calls
variable (clock : Nat → Int) {base : List HandlerCall} {ps : List Nat} {t : Nat} {txnID : String}
  {c : Coordinator σ}

theorem wp_coordinatorCall (hreg : c.transactions txnID = some t) (h : Returned base ps t c)
    (phase : Phase) : wp (coordinatorCall clock txnID phase) (fun _ c' => Returned base ps t c')
      (fun e c' => Failed base ps t e c') c := by
  obtain ⟨log,hcalls,hl⟩ := h
  cases phase with
  | prepare => exact wp_prepareTransaction_lawful clock hreg hcalls hl
  | commit => exact wp_commitTransaction_lawful clock hreg hcalls hl
  | abort => exact wp_abortTransaction_lawful clock hreg hcalls hl

theorem wp_coordinatorCall_of_committed (hreg : c.transactions txnID = some t)
    (hstatus : (c.txns t).status = .committed) (phase : Phase) :
    wp (coordinatorCall clock txnID phase) (fun _ _ => False) (fun _ c' => c' = c) c := by
  cases phase with
  | prepare => simp [coordinatorCall,prepareTransaction,prepareBody,wp_findTransaction hreg,hstatus]
  | commit => simp [coordinatorCall,commitTransaction,commitBody,wp_findTransaction hreg,hstatus]
  | abort => simp [coordinatorCall,abortTransaction,abortBody,wp_findTransaction hreg,hstatus]

end Calls

/-- What other transactions do, whose participants are other objects, and
everybody else. -/
structure Elsewhere (ps : List Nat) (t : Nat) (c c' : Coordinator σ) : Prop where
  txn : c'.txns t = c.txns t
  objects : ∀ p ∈ ps, c'.objects p = c.objects p
  calls : ∃ others, c'.calls = c.calls ++ others ∧ ∀ call ∈ others, call.participant ∉ ps

inductive TxnEvent where
  | call (phase : Phase) (txnID : String)
  | outside

/-- A call finds `t` and comes back, with nil or with an error. -/
def TxnEvent.step (clock : Nat → Int) (ps : List Nat) (t : Nat) :
    TxnEvent → Coordinator σ → Coordinator σ → Prop
  | .call phase txnID, c, c' => c.transactions txnID = some t ∧
      (∀ e ∈ fault (coordinatorCall clock txnID phase) c, ¬ e.Lost) ∧
      c' = final (coordinatorCall clock txnID phase) c
  | .outside, c, c' => Elsewhere ps t c c'

section Runs
variable {clock : Nat → Int} {base : List HandlerCall} {ps : List Nat} {t : Nat}
  {c c' : Coordinator σ}

theorem Returned.outside (h : Returned base ps t c) (ho : Elsewhere ps t c c') :
    Returned base ps t c' := by
  obtain ⟨log,hcalls,hl⟩ := h
  obtain ⟨others,hothers,hnot⟩ := ho.calls
  have hnone : ∀ phase, ∀ p ∈ ps, repliesOf phase p others = [] := by
    intro phase p hp
    rw [List.eq_nil_iff_forall_not_mem]
    intro reply hmem
    exact hnot _ (mem_repliesOf.mp hmem) hp
  refine ⟨log ++ others,by rw [hothers,hcalls,List.append_assoc],?_,hl.ordered.append hnot,?_,?_⟩
  · rw [ho.txn,hl.participants]
  · intro hc ha
    rw [ho.txn] at hc ha
    have he := hl.early hc ha
    refine ⟨⟨?_,?_⟩,?_⟩
    · intro p hp
      rw [repliesOf_append,he.unaborted p hp,hnone _ p hp,List.append_nil]
    · intro p hp hprep
      rw [ho.objects p hp] at hprep
      exact List.mem_append_left _ (he.prepared p hp hprep)
    · intro p hp
      rw [repliesOf_append,he.uncommitted p hp,hnone _ p hp,List.append_nil]
  · rw [ho.txn]
    exact hl.settled

theorem Returned.step (h : Returned base ps t c) (event : TxnEvent)
    (hs : event.step clock ps t c c') : Returned base ps t c' := by
  cases event with
  | outside => exact h.outside hs
  | call phase txnID =>
    obtain ⟨hreg,hlost,rfl⟩ := hs
    have hw := wp_coordinatorCall clock hreg h phase
    refine final_of_wp ?_
    unfold fault at hlost
    cases hr : coordinatorCall clock txnID phase c with
    | ok a d =>
      have hd := wp_ok hw hr
      exact wp_of_eq_ok hr hd
    | error e d =>
      obtain ⟨log,hcalls,-,hl⟩ := wp_error hw hr
      rw [hr] at hlost
      exact wp_of_eq_error hr ⟨log,hcalls,hl (hlost e rfl)⟩

theorem committed_step (hstatus : (c.txns t).status = .committed) (event : TxnEvent)
    (hs : event.step clock ps t c c') :
    c'.txns t = c.txns t ∧ ∀ p ∈ ps, c'.objects p = c.objects p := by
  cases event with
  | outside => exact ⟨hs.txn,hs.objects⟩
  | call phase txnID =>
    obtain ⟨hreg,-,rfl⟩ := hs
    have heq : final (coordinatorCall clock txnID phase) c = c := by
      refine final_of_wp (P := fun d => d = c)
        (wp_mono (wp_coordinatorCall_of_committed clock hreg hstatus phase) ?_ ?_)
      · intro _ _ h
        exact h.elim
      · intro _ _ h
        exact h
    rw [heq]
    exact ⟨rfl,fun _ _ => rfl⟩

theorem committed_run (hstatus : (c.txns t).status = .committed) {events : List TxnEvent}
    (hrun : Steps (TxnEvent.step clock ps t) c events c') :
    c'.txns t = c.txns t ∧ ∀ p ∈ ps, c'.objects p = c.objects p := by
  refine hrun.invariant (I := fun d => d.txns t = c.txns t ∧ ∀ p ∈ ps, d.objects p = c.objects p)
    ?_ ⟨rfl,fun _ _ => rfl⟩
  rintro event d d' ⟨htxn,hobjects⟩ hs
  obtain ⟨htxn',hobjects'⟩ := committed_step (by rw [htxn]; exact hstatus) event hs
  exact ⟨htxn'.trans htxn,fun p hp => (hobjects' p hp).trans (hobjects p hp)⟩

/-- A transaction that `BeginTransaction` has just returned. -/
theorem Begun.returned {c₀ : Coordinator σ} {timeout : Int} (h : Begun c₀ ps timeout t c) :
    Returned c₀.calls ps t c := by
  have hearly : Early ps [] c := by
    refine ⟨⟨fun _ _ => rfl,?_⟩,fun _ _ => rfl⟩
    intro p hp hprep
    rw [h.pending p hp] at hprep
    cases hprep
  exact ⟨[],by simp [h.calls],hearly.lawful h.participants (by simp [h.status])⟩

end Runs

/-- Whatever calls are made for a transaction, and in whatever order: each of its
participants is committed at most once for each time it is listed, after it was
prepared and before it is aborted, and so it is when a call gets stuck in a
handler. A committed transaction holds no locks and is never touched again. -/
theorem commit_once_between_prepare_and_abort (clock : Nat → Int)
    (order : List String → List String) (ps : List Nat) (timeout : Int) (c₀ c d : Coordinator σ)
    (t : Nat) (hbegin : beginTransaction clock order ps timeout c₀ = .ok t c)
    (events : List TxnEvent) (hrun : Steps (TxnEvent.step clock ps t) c events d) :
    (d.txns t).participants = ps ∧
    (∃ log, d.calls = c₀.calls ++ log ∧ Ordered ps ps log ∧
      (ps.Nodup → ∀ p ∈ ps, (repliesOf .commit p log).length ≤ 1)) ∧
    (∀ phase txnID loss e, d.transactions txnID = some t →
      coordinatorCall clock txnID phase d = .error (.lost loss) e →
      ∃ log, e.calls = c₀.calls ++ log ∧ Ordered ps ps log ∧
        (ps.Nodup → ∀ p ∈ ps, (repliesOf .commit p log).length ≤ 1)) ∧
    ((d.txns t).status = .committed → (d.txns t).locks = [] ∧
      ∀ later e, Steps (TxnEvent.step clock ps t) d later e →
        e.txns t = d.txns t ∧ ∀ p ∈ ps, e.objects p = d.objects p) := by
  have hstart : Returned c₀.calls ps t c :=
    (wp_ok (wp_beginTransaction clock ps timeout order c₀) hbegin).returned
  have hd : Returned c₀.calls ps t d :=
    hrun.invariant (fun event a b ha hs => ha.step event hs) hstart
  obtain ⟨log,hcalls,hl⟩ := hd
  refine ⟨hl.participants,⟨log,hcalls,hl.ordered,fun hnodup => hl.ordered.once hnodup⟩,?_,
    fun hstatus => ⟨hl.settled hstatus,?_⟩⟩
  · intro phase txnID loss e hreg hlost
    obtain ⟨log',hcalls',hordered,-⟩ := wp_error
      (wp_coordinatorCall clock hreg ⟨log,hcalls,hl⟩ phase) hlost
    exact ⟨log',hcalls',hordered,fun hnodup => hordered.once hnodup⟩
  · intro later e hlater
    exact committed_run hstatus hlater

/-- A new transaction of the participants, after its calls so far. -/
def afterCalls (c₀ : Coordinator Unit) (ps : List Nat) (phases : List Phase) : Coordinator Unit :=
  phases.foldl (fun c phase => final (coordinatorCall (fun n => n) "store_1_0" phase) c)
    (final (beginTransaction (fun n => n) id ps 100) c₀)

theorem afterCalls_step (c₀ : Coordinator Unit) (ps : List Nat)
    (phases : List Phase) (phase : Phase)
    (hreg : (afterCalls c₀ ps phases).transactions "store_1_0" = some 0)
    (hback : ∀ e ∈ fault (coordinatorCall (fun n => n) "store_1_0" phase) (afterCalls c₀ ps phases),
      ¬ e.Lost) :
    TxnEvent.step (fun n => n) ps 0 (.call phase "store_1_0") (afterCalls c₀ ps phases)
      (afterCalls c₀ ps (phases ++ [phase])) := by
  refine ⟨hreg,hback,?_⟩
  rw [afterCalls,List.foldl_append]
  rfl

/-- It is prepared and committed, and an abort comes too late. -/
theorem commit_once_between_prepare_and_abort_late_abort :
    let after := afterCalls (handledStore "store_1") [0,1]
    (after [.prepare,.commit,.abort]).txns 0 = (after [.prepare,.commit]).txns 0 ∧
      ((after [.prepare,.commit]).txns 0).locks = [] ∧
      Ordered [0,1] [0,1] (after [.prepare,.commit]).calls ∧
      repliesOf .commit 1 (after [.prepare,.commit]).calls = [.ok] := by
  have hbegin := eq_ok_of_answer (x := beginTransaction (fun n => n) id [0,1] 100)
    (s := handledStore "store_1") (a := 0) (by decide +kernel)
  have hprepare := afterCalls_step (handledStore "store_1") [0,1] [] .prepare
    (by decide +kernel) (by decide +kernel)
  have hcommit := afterCalls_step (handledStore "store_1") [0,1] [.prepare] .commit
    (by decide +kernel) (by decide +kernel)
  have habort := afterCalls_step (handledStore "store_1") [0,1] [.prepare,.commit] .abort
    (by decide +kernel) (by decide +kernel)
  obtain ⟨-,⟨log,hlog,hordered,-⟩,-,hsettled⟩ :=
    commit_once_between_prepare_and_abort (fun n => n) id [0,1] 100 (handledStore "store_1") _ _ 0
      hbegin _ (.more hprepare (.more hcommit (.done _)))
  obtain ⟨hlocks,hlater⟩ := hsettled (by decide +kernel)
  obtain ⟨hsame,-⟩ := hlater _ _ (.more habort (.done _))
  have hnew : (afterCalls (handledStore "store_1") [0,1] [.prepare,.commit]).calls = log := hlog
  refine ⟨hsame,hlocks,?_,?_⟩
  · rw [hnew]
    exact hordered
  · decide +kernel

/-- One handler for `store_1` whose Commit always returns an error. -/
def failingStore : Coordinator Unit :=
  newCoordinator "store_1" (newLockManager "store_1")
    (fun storeID => if storeID = "store_1" then
      some ⟨fun _ _ w => (.ok,w),fun _ _ w => (.error "disk full",w),fun _ _ w => (.ok,w)⟩
        else none)
    (creating "store_1") ()

/-- A participant that is listed twice and whose Commit fails is still prepared when its
second turn comes. -/
theorem listed_twice_committed_twice :
    ∃ c d, beginTransaction (fun n => n) id [0,0] 100 failingStore = .ok 0 c ∧
      Steps (TxnEvent.step (fun n => n) [0,0] 0) c
        [.call .prepare "store_1_0",.call .commit "store_1_0"] d ∧
      repliesOf .commit 0 d.calls = [.error "disk full",.error "disk full"] := by
  have hbegin := eq_ok_of_answer (x := beginTransaction (fun n => n) id [0,0] 100)
    (s := failingStore) (a := 0) (by decide +kernel)
  have hprepare := afterCalls_step failingStore [0,0] [] .prepare (by decide +kernel)
    (by decide +kernel)
  have hcommit := afterCalls_step failingStore [0,0] [.prepare] .commit (by decide +kernel)
    (by decide +kernel)
  exact ⟨_,_,hbegin,.more hprepare (.more hcommit (.done _)),by decide +kernel⟩

end Imy.Txn
