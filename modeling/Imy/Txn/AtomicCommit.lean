import Imy.Txn.Rounds
set_option autoImplicit false

namespace Imy.Txn
open Imy.Lib Imy.Lock

variable {σ : Type}

/-- What the calls of one method for one participant returned. -/
def repliesOf (phase : Phase) (p : Nat) (calls : List HandlerCall) : List Reply :=
  (calls.filter fun call => call.phase = phase ∧ call.participant = p).map (·.reply)

@[simp] theorem repliesOf_nil (phase : Phase) (p : Nat) : repliesOf phase p [] = [] := rfl

@[simp] theorem repliesOf_append (phase : Phase) (p : Nat) (calls calls' : List HandlerCall) :
    repliesOf phase p (calls ++ calls') = repliesOf phase p calls ++ repliesOf phase p calls' := by
  simp [repliesOf]

theorem repliesOf_single (phase phase' : Phase) (p q : Nat) (reply : Reply) :
    repliesOf phase p [⟨phase',q,reply⟩] = if phase' = phase ∧ q = p then [reply] else [] := by
  unfold repliesOf
  by_cases h : phase' = phase ∧ q = p <;> simp [h]

theorem mem_repliesOf {phase : Phase} {p : Nat} {reply : Reply} {calls : List HandlerCall} :
    reply ∈ repliesOf phase p calls ↔ ⟨phase,p,reply⟩ ∈ calls := by
  simp only [repliesOf,List.mem_map,List.mem_filter,decide_eq_true_eq]
  constructor
  · rintro ⟨⟨_,_,_⟩,⟨hmem,rfl,rfl⟩,rfl⟩
    exact hmem
  · intro hmem
    exact ⟨_,⟨hmem,rfl,rfl⟩,rfl⟩

/-- Prepare returned nil, and Commit was called once and returned nil. -/
structure Completed (calls : List HandlerCall) (p : Nat) : Prop where
  asked : repliesOf .prepare p calls ≠ []
  prepared : ∀ reply ∈ repliesOf .prepare p calls, reply = .ok
  committed : repliesOf .commit p calls = [.ok]

/-- The state in the prepare loop after the participants in `done`. -/
structure Preparing (c : Coordinator σ) (done : List Nat) (c' : Coordinator σ)
    (new : List HandlerCall) : Prop where
  fixed : Fixed c c'
  transactions : c'.transactions = c.transactions
  txns : c'.txns = c.txns
  calls : c'.calls = c.calls ++ new
  nil : ∀ call ∈ new, call.phase = .prepare ∧ call.reply = .ok ∧ c.handlerOf call.participant ≠ none
  prepared : ∀ p ∈ done, c.handlerOf p ≠ none →
    (c'.objects p).status = .prepared ∧ ⟨.prepare,p,.ok⟩ ∈ new
  missing : ∀ p ∈ done, c.handlerOf p = none → (c'.objects p).status = .aborted

theorem Preparing.round {c c₁ c₂ : Coordinator σ} {done : List Nat} {new : List HandlerCall}
    {txnID : String} {p : Nat} (h : Preparing c done c₁ new) (hr : PrepareRound txnID p c₁ c₂) :
    ∃ new', Preparing c (done ++ [p]) c₂ new' := by
  have hhandler := h.fixed.handlerOf p
  cases hr with
  | missing hh =>
    refine ⟨new,h.fixed.setObject p _ _,h.transactions,h.txns,h.calls,h.nil,?_,?_⟩
    · intro q hq hne
      have hqp : q ≠ p := by
        rintro rfl
        exact hne (hhandler ▸ hh)
      have hmem : q ∈ done := by simpa [hqp] using hq
      simpa [hqp] using h.prepared q hmem hne
    · intro q hq hnone
      by_cases hqp : q = p
      · simp [hqp]
      · have hmem : q ∈ done := by simpa [hqp] using hq
        simpa [hqp] using h.missing q hmem hnone
  | ok handler w hh hr =>
    have hne : c.handlerOf p ≠ none := by
      rw [← hhandler,hh]
      simp
    refine ⟨new ++ [⟨.prepare,p,.ok⟩],?_,h.transactions,h.txns,?_,?_,?_,?_⟩
    · exact (h.fixed.called .prepare p (.ok,w)).setObject p _ _
    · simp [h.calls]
    · intro call hcall
      rcases List.mem_append.mp hcall with hcall | hcall
      · exact h.nil call hcall
      · rw [List.mem_singleton] at hcall
        subst hcall
        exact ⟨rfl,rfl,hne⟩
    · intro q hq hq'
      by_cases hqp : q = p
      · simp [hqp]
      · have hmem : q ∈ done := by simpa [hqp] using hq
        obtain ⟨hs,hc⟩ := h.prepared q hmem hq'
        exact ⟨by simpa [hqp] using hs,List.mem_append_left _ hc⟩
    · intro q hq hnone
      have hqp : q ≠ p := by
        rintro rfl
        exact hne hnone
      have hmem : q ∈ done := by simpa [hqp] using hq
      simpa [hqp] using h.missing q hmem hnone

structure Ready (c : Coordinator σ) (t : Nat) (c' : Coordinator σ) (new : List HandlerCall) :
    Prop where
  preparing : ∃ c₁, Preparing c (c.txns t).participants c₁ new ∧ c'.objects = c₁.objects
  transactions : c'.transactions = c.transactions
  handlers : c'.handlers = c.handlers
  calls : c'.calls = c.calls ++ new
  txn : ∃ updatedAt, c'.txns t = { c.txns t with status := .prepared, updatedAt := updatedAt }

variable (clock : Nat → Int)

theorem wp_prepareTransaction {c : Coordinator σ} {txnID : String} {t : Nat}
    (hreg : c.transactions txnID = some t) :
    wp (prepareTransaction clock txnID) (fun _ c' => ∃ new, Ready c t c' new)
      (fun _ _ => True) c := by
  simp only [prepareTransaction,prepareBody,wp_bind,wp_findTransaction hreg,wp_get,wp_ite,wp_throw,
    wp_now,wp_modifyTxn]
  split
  · trivial
  split
  · trivial
  have start : Preparing c [] (c.setLocks c.lockManager.advance) [] :=
    ⟨⟨rfl,fun _ => rfl,fun _ => rfl,fun _ => rfl⟩,rfl,rfl,by simp,by simp,by simp,by simp⟩
  refine wp_mono (wp_forM (I := fun done c' => ∃ new, Preparing c done c' new)
    (E := fun _ _ => True) _ ⟨[],start⟩ ?_) ?_ (fun _ _ h => h)
  · rintro done p rest c₁ - ⟨new,hp⟩
    exact wp_mono (wp_prepareOne txnID p c₁) (fun _ _ hr => hp.round hr) (fun _ _ _ => trivial)
  · rintro _ c₁ ⟨new,hp⟩
    exact ⟨new,⟨c₁,hp,rfl⟩,hp.transactions,hp.fixed.handlers,hp.calls,_,by simp [hp.txns]; rfl⟩

/-- The state in the commit loop after the participants in `done`, as long as
there was no error. -/
structure Committing (c : Coordinator σ) (done : List Nat) (c' : Coordinator σ)
    (new : List HandlerCall) : Prop where
  fixed : Fixed c c'
  calls : c'.calls = c.calls ++ new
  commits : ∀ call ∈ new, call.phase = .commit
  todo : ∀ p, p ∉ done ∨ (c.objects p).status ≠ .prepared →
    (c'.objects p).status = (c.objects p).status ∧ repliesOf .commit p new = []
  committed : ∀ p ∈ done, (c.objects p).status = .prepared →
    (c'.objects p).status = .committed ∧ repliesOf .commit p new = [.ok]

theorem Committing.round {c c₁ c₂ : Coordinator σ} {done : List Nat} {new : List HandlerCall}
    {txnID : String} {p : Nat} {errors : List String} (h : Committing c done c₁ new)
    (hr : CommitRound txnID p c₁ errors [] c₂) : ∃ new', Committing c (done ++ [p]) c₂ new' := by
  generalize he : ([] : List String) = errors' at hr
  cases hr with
  | missing => simp at he
  | error => simp at he
  | skip hs =>
    refine ⟨new,h.fixed,h.calls,h.commits,?_,?_⟩
    · intro q hq
      refine h.todo q ?_
      rcases hq with hq | hq
      · exact Or.inl fun hd => hq (List.mem_append_left _ hd)
      · exact Or.inr hq
    · intro q hq hqs
      by_cases hqd : q ∈ done
      · exact h.committed q hqd hqs
      · have hqp : q = p := by simpa [hqd] using hq
        subst hqp
        exact (hs ((h.todo q (Or.inl hqd)).1.trans hqs)).elim
  | ok handler w hs hh hr =>
    -- `p` was still prepared, so it has not been committed in an earlier round
    have hold : (c.objects p).status = .prepared ∧ p ∉ done := by
      by_cases hp : (c.objects p).status = .prepared
      · refine ⟨hp,fun hd => ?_⟩
        have := (h.committed p hd hp).1
        rw [hs] at this
        cases this
      · exact (hp ((h.todo p (Or.inr hp)).1.symm.trans hs)).elim
    refine ⟨new ++ [⟨.commit,p,.ok⟩],?_,by simp [h.calls],?_,?_,?_⟩
    · exact (h.fixed.called .commit p (.ok,w)).setObject p _ _
    · intro call hcall
      rcases List.mem_append.mp hcall with hcall | hcall
      · exact h.commits call hcall
      · rw [List.mem_singleton] at hcall
        rw [hcall]
    · intro q hq
      have hqp : q ≠ p := by
        rintro rfl
        rcases hq with hq | hq
        · exact hq (by simp)
        · exact hq hold.1
      have hq' : q ∉ done ∨ (c.objects q).status ≠ .prepared := by
        rcases hq with hq | hq
        · exact Or.inl fun hd => hq (List.mem_append_left _ hd)
        · exact Or.inr hq
      obtain ⟨hst,hnone⟩ := h.todo q hq'
      refine ⟨by simpa [hqp] using hst,?_⟩
      simp [hnone,repliesOf_single,Ne.symm hqp]
    · intro q hq hqs
      by_cases hqp : q = p
      · subst hqp
        simp [(h.todo q (Or.inl hold.2)).2,repliesOf_single]
      · have hqd : q ∈ done := by simpa [hqp] using hq
        obtain ⟨hst,hone⟩ := h.committed q hqd hqs
        refine ⟨by simpa [hqp] using hst,?_⟩
        simp [hone,repliesOf_single,Ne.symm hqp]

theorem CommitRound.errors_nil {txnID : String} {p : Nat} {c c' : Coordinator σ}
    {errors errors' : List String} (h : CommitRound txnID p c errors errors' c')
    (hnil : errors' = []) : errors = [] := by
  cases h <;> simp_all

theorem wp_commitTransaction {c : Coordinator σ} {txnID : String} {t : Nat}
    (hreg : c.transactions txnID = some t) :
    wp (commitTransaction clock txnID)
      (fun _ c' => ∃ new c₁, Committing c (c.txns t).participants c₁ new ∧ c'.calls = c₁.calls)
      (fun _ _ => True) c := by
  simp only [commitTransaction,commitBody,wp_bind,wp_findTransaction hreg,wp_get,wp_ite,wp_throw,
    wp_now,wp_modifyTxn]
  split
  · trivial
  have start : Committing c [] c [] :=
    ⟨Fixed.refl c,by simp,by simp,by simp,by simp⟩
  refine wp_mono (wp_foldlM (I := fun done errors c' => errors = [] →
    ∃ new, Committing c done c' new)
    (E := fun _ _ => True) _ (fun _ => ⟨[],start⟩) ?_) ?_ (fun _ _ h => h)
  · intro done p rest errors c₁ _ hI
    refine wp_mono (wp_commitOne txnID p c₁ errors) ?_ (fun _ _ _ => trivial)
    rintro errors' c₂ hr rfl
    obtain ⟨new,hc⟩ := hI (hr.errors_nil rfl)
    exact hc.round hr
  · intro errors c₁ hI
    split
    · trivial
    · rename_i hnil
      obtain ⟨new,hc⟩ := hI (by simpa using hnil)
      simp only [releaseHeld,wp_bind,wp_get,wp_modifyTxn]
      refine wp_mono (wp_releaseLocks clock _ _) ?_ (fun _ _ _ => trivial)
      rintro _ _ ⟨m,rfl⟩
      exact ⟨new,c₁,hc,rfl⟩

theorem wp_orAbort (phase : String) (t : Nat) (x : TxnM σ Unit) (Q : Unit → Coordinator σ → Prop)
    (E : Fault → Coordinator σ → Prop) (c : Coordinator σ) :
    wp (orAbort clock phase t x) Q E c =
      wp x Q (fun e c' =>
        match e with
        | .lost loss => E (.lost loss) c'
        | .error text =>
          wp (abortTransaction clock (c'.txns t).transactionID)
            (fun _ c'' => E (.error ("transaction " ++ phase ++ " failed: " ++ text)) c'')
            (fun e' c'' =>
              match e' with
              | .lost loss => E (.lost loss) c''
              | .error _ =>
                E (.error ("transaction " ++ phase ++ " failed: " ++ text)) c'') c') c := by
  simp only [wp,orAbort]
  cases x c with
  | ok _ c' => rfl
  | error e c' =>
    cases e with
    | lost loss => rfl
    | error text =>
      simp only
      cases abortTransaction clock (c'.txns t).transactionID c' with
      | ok _ c'' => rfl
      | error e' c'' => cases e' <;> rfl

theorem wp_orFail (x : TxnM σ Nat) (Q : Nat → Coordinator σ → Prop)
    (E : Fault → Coordinator σ → Prop) (c : Coordinator σ) :
    wp (orFail x) Q E c = wp x Q (fun e c' =>
      match e with
      | .lost loss => E (.lost loss) c'
      | .error text => E (.error ("failed to begin transaction: " ++ text)) c') c := by
  simp only [wp,orFail]
  cases x c with
  | ok _ c' => rfl
  | error e c' => cases e <;> rfl

/-- Only the success of a phase matters for the success of the whole. -/
theorem wp_orAbort_ok {phase : String} {t : Nat} {x : TxnM σ Unit} {Q : Unit → Coordinator σ → Prop}
    {c : Coordinator σ} (h : wp x Q (fun _ _ => True) c) :
    wp (orAbort clock phase t x) Q (fun _ _ => True) c := by
  rw [wp_orAbort]
  refine wp_mono h (fun _ _ h => h) ?_
  rintro (text | _) c' -
  · exact wp_mono (wp_of_any _ _) (fun _ _ _ => trivial) (by rintro (_ | _) _ _ <;> trivial)
  · trivial

/-- The calls of a successful transaction, participant by participant. -/
theorem Committing.completed {c c₁ c₂ c₃ : Coordinator σ} {ps : List Nat}
    {prepares commits : List HandlerCall} (hp : Preparing c ps c₁ prepares)
    (hobj : c₂.objects = c₁.objects) (hc : Committing c₂ ps c₃ commits) {p : Nat} (hmem : p ∈ ps) :
    Completed (prepares ++ commits) p ↔ (c.handlerOf p).isSome = true := by
  have hprep : repliesOf .prepare p commits = [] := by
    refine List.eq_nil_iff_forall_not_mem.mpr fun reply hreply => ?_
    have := hc.commits _ (mem_repliesOf.mp hreply)
    cases this
  have hcomm : repliesOf .commit p prepares = [] := by
    refine List.eq_nil_iff_forall_not_mem.mpr fun reply hreply => ?_
    have := (hp.nil _ (mem_repliesOf.mp hreply)).1
    cases this
  rw [Option.isSome_iff_ne_none]
  constructor
  · intro hdone hnone
    obtain ⟨reply,hreply⟩ := List.exists_mem_of_ne_nil _ hdone.asked
    rw [repliesOf_append,hprep,List.append_nil,mem_repliesOf] at hreply
    exact (hp.nil _ hreply).2.2 hnone
  · intro hne
    obtain ⟨hst,hcall⟩ := hp.prepared p hmem hne
    have hcommitted := hc.committed p hmem (by rw [hobj]; exact hst)
    refine ⟨?_,?_,?_⟩ <;> rw [repliesOf_append]
    · exact List.ne_nil_of_mem (List.mem_append_left _ (mem_repliesOf.mpr hcall))
    · intro reply hreply
      rw [hprep,List.append_nil,mem_repliesOf] at hreply
      exact (hp.nil _ hreply).2.1
    · rw [hcomm,hcommitted.2,List.nil_append]

/-- When `ExecuteTransaction` returns nil, all participants were prepared and
committed exactly if each of their stores has a handler. -/
theorem committed_iff_handlers_registered (order : List String → List String) (ps : List Nat)
    (timeout : Int) (c c' : Coordinator σ)
    (hok : executeTransaction clock order ps timeout c = .ok () c') :
    ∃ calls, c'.calls = c.calls ++ calls ∧
      ((∀ p ∈ ps, Completed calls p) ↔ ∀ p ∈ ps,
        (c.handlers (c.objects p).storeID).isSome = true) := by
  have hw : wp (executeTransaction clock order ps timeout)
      (fun _ c' => ∃ calls, c'.calls = c.calls ++ calls ∧
        ∀ p ∈ ps, (Completed calls p ↔ (c.handlerOf p).isSome = true)) (fun _ _ => True) c := by
    simp only [executeTransaction,wp_bind,wp_orFail]
    refine wp_mono (wp_beginTransaction clock ps timeout order c) ?_
      (by rintro (_ | _) _ _ <;> trivial)
    intro t c₁ hb
    simp only [wp_get]
    refine wp_orAbort_ok clock (wp_mono (wp_prepareTransaction clock hb.registered) ?_
      (fun _ _ h => h))
    rintro _ c₂ ⟨prepares,hready⟩
    obtain ⟨c₁',hprep,hobj⟩ := hready.preparing
    obtain ⟨updatedAt,htxn⟩ := hready.txn
    have hreg : c₂.transactions (c₁.txns t).transactionID = some t := by
      rw [hready.transactions]
      exact hb.registered
    refine wp_orAbort_ok clock (wp_mono (wp_commitTransaction clock hreg) ?_ (fun _ _ h => h))
    rintro _ c₃ ⟨commits,c₂',hcom,hcalls⟩
    simp only [htxn,hb.participants] at hcom hprep
    refine ⟨prepares ++ commits,?_,?_⟩
    · rw [hcalls,hcom.calls,hready.calls,hb.calls,List.append_assoc]
    · intro p hmem
      rw [hcom.completed hprep hobj hmem,hb.fixed.handlerOf]
  obtain ⟨calls,hcalls,hall⟩ := wp_ok hw hok
  refine ⟨calls,hcalls,?_,?_⟩
  · intro h p hmem
    exact (hall p hmem).mp (h p hmem)
  · intro h p hmem
    exact (hall p hmem).mpr (h p hmem)

/-- A coordinator of `store_1` with participants on the store `target`. -/
def handledStore (target : String) : Coordinator Unit :=
  newCoordinator "store_1" (newLockManager "store_1") obliging (creating target) ()

theorem committed_iff_handlers_registered_two_participants :
    ∃ c', executeTransaction (fun n => n) id [0,1] 100 (handledStore "store_1") = .ok () c' ∧
      ∃ calls, c'.calls = (handledStore "store_1").calls ++ calls ∧
        ∀ p ∈ [0,1], Completed calls p := by
  have hok := eq_ok_of_succeeds (x := executeTransaction (fun n => n) id [0,1] 100)
    (s := handledStore "store_1") (by decide +kernel)
  obtain ⟨calls,hcalls,hiff⟩ := committed_iff_handlers_registered (fun n => n) id [0,1] 100 _ _ hok
  refine ⟨_,hok,calls,hcalls,hiff.mpr ?_⟩
  intro p _
  rfl

/-- A participant whose store has no handler is passed over by both phases. -/
theorem unhandled_participant_not_prepared :
    ∃ c', executeTransaction (fun n => n) id [0] 100 (handledStore "store_2") = .ok () c' ∧
      c'.calls = [] ∧ ¬ ∀ p ∈ [0], Completed c'.calls p := by
  have hok := eq_ok_of_succeeds (x := executeTransaction (fun n => n) id [0] 100)
    (s := handledStore "store_2") (by decide +kernel)
  have hcalls : (final (executeTransaction (fun n => n) id [0] 100)
      (handledStore "store_2")).calls = [] := by
    decide +kernel
  refine ⟨_,hok,hcalls,fun h => (h 0 (by simp)).asked ?_⟩
  rw [hcalls]
  rfl

end Imy.Txn
