import Imy.Txn.LockOwnership
import Imy.Txn.StorageManager
set_option autoImplicit false

namespace Imy.Txn
open Imy.Lib Imy.Lock

def TransactionStatus.Finished (status : TransactionStatus) : Prop :=
  status = .committed ∨ status = .aborted

instance (status : TransactionStatus) : Decidable status.Finished :=
  inferInstanceAs (Decidable (_ ∨ _))

section Scoped
variable {σ : Type}

/-- A call for `t` changes nothing of the other transactions, and of `t` only
what a call may. -/
structure Scoped (t : Nat) (c c' : Coordinator σ) : Prop where
  fixed : Fixed c c'
  transactions : c'.transactions = c.transactions
  allocated : c'.allocated = c.allocated
  others : ∀ t', t' ≠ t → c'.txns t' = c.txns t'
  participants : (c'.txns t).participants = (c.txns t).participants
  transactionID : (c'.txns t).transactionID = (c.txns t).transactionID
  finished : (c.txns t).status.Finished → (c'.txns t).status.Finished

variable {t : Nat} {c c₁ c₂ : Coordinator σ}

theorem Scoped.refl (c : Coordinator σ) : Scoped t c c :=
  ⟨Fixed.refl c,rfl,rfl,fun _ _ => rfl,rfl,rfl,id⟩

theorem Scoped.same (h : Scoped t c c₁) (hfixed : Fixed c₁ c₂)
    (htrans : c₂.transactions = c₁.transactions)
    (halloc : c₂.allocated = c₁.allocated) (htxns : c₂.txns = c₁.txns) : Scoped t c c₂ :=
  ⟨h.fixed.trans hfixed,htrans.trans h.transactions,halloc.trans h.allocated,
    fun t' ht => by rw [htxns]; exact h.others t' ht,by rw [htxns]; exact h.participants,
    by rw [htxns]; exact h.transactionID,by rw [htxns]; exact h.finished⟩

theorem Scoped.advance (h : Scoped t c c₁) : Scoped t c (c₁.setLocks c₁.lockManager.advance) :=
  h.same ⟨rfl,fun _ => rfl,fun _ => rfl,fun _ => rfl⟩ rfl rfl rfl

theorem Scoped.setTxn (h : Scoped t c c₁) {txn : DistributedTransaction}
    (hps : txn.participants = (c₁.txns t).participants)
    (hid : txn.transactionID = (c₁.txns t).transactionID)
    (hfin : (c₁.txns t).status.Finished → txn.status.Finished) : Scoped t c (c₁.setTxn t txn) := by
  refine ⟨h.fixed.trans ⟨rfl,fun _ => rfl,fun _ => rfl,fun _ => rfl⟩,h.transactions,
    h.allocated,?_,?_,?_,?_⟩
  · intro t' ht
    simpa [ht] using h.others t' ht
  · simpa [hps] using h.participants
  · simpa [hid] using h.transactionID
  · intro hf
    simpa using hfin (h.finished hf)

variable (clock : Nat → Int) (txnID : String)

theorem wp_prepareBody_scoped (c : Coordinator σ) :
    wp (prepareBody clock txnID t) (fun _ c' => Scoped t c c') (fun _ c' => Scoped t c c') c := by
  simp only [prepareBody,wp_bind,wp_get,wp_ite,wp_throw,wp_now,wp_modifyTxn]
  split
  · exact Scoped.refl c
  rename_i hstatus
  have hpending : ¬ (c.txns t).status.Finished := by
    have hp : (c.txns t).status = .pending := by simpa using hstatus
    simp [hp,TransactionStatus.Finished]
  split
  · exact (Scoped.refl c).advance.setTxn rfl rfl (fun hf => (hpending hf).elim)
  refine wp_mono (wp_forM (I := fun _ c' => Scoped t c c' ∧ c'.txns = c.txns) _
    ⟨(Scoped.refl c).advance,rfl⟩ (E := fun _ c' => Scoped t c c') ?_) ?_ (fun _ _ h => h)
  · rintro done p rest c₁ - ⟨h,htxns⟩
    refine wp_mono (wp_prepareOne txnID p c₁) ?_ ?_
    · intro _ c₂ hr
      cases hr with
      | missing hh => exact ⟨h.same ((Fixed.refl c₁).setObject p _ _) rfl rfl rfl,htxns⟩
      | ok handler w hh hr =>
        exact ⟨h.same (((Fixed.refl c₁).called .prepare p (.ok,w)).setObject p _ _)
          rfl rfl rfl,htxns⟩
    · intro e c₂ hr
      cases hr with
      | error handler err w hh hr =>
        exact h.same (((Fixed.refl c₁).called .prepare p (.error err,w)).setObject p _ _)
          rfl rfl rfl
      | lost handler loss w hh hr =>
        exact h.same ((Fixed.refl c₁).called .prepare p (.lost loss,w)) rfl rfl rfl
  · rintro _ c₁ ⟨h,htxns⟩
    refine h.advance.setTxn rfl rfl (fun hf => ?_)
    simp only [Coordinator.setLocks_txns,htxns] at hf
    exact (hpending hf).elim

theorem wp_commitBody_scoped (c : Coordinator σ) :
    wp (commitBody clock txnID t) (fun _ c' => Scoped t c c' ∧ (c'.txns t).status.Finished)
      (fun _ c' => Scoped t c c') c := by
  simp only [commitBody,wp_bind,wp_get,wp_ite,wp_throw,wp_now,wp_modifyTxn]
  split
  · exact Scoped.refl c
  refine wp_mono (wp_foldlM (I := fun _ _ c' => Scoped t c c') _ (Scoped.refl c)
    (E := fun _ c' => Scoped t c c') ?_) ?_ (fun _ _ h => h)
  · intro done p rest errors c₁ _ h
    refine wp_mono (wp_commitOne txnID p c₁ errors) ?_ ?_
    · intro errors' c₂ hr
      cases hr with
      | skip | missing => exact h
      | error handler err w hs hh hr =>
        exact h.same (((Fixed.refl c₁).called .commit p (.error err,w)).setObject p _ _) rfl rfl rfl
      | ok handler w hs hh hr =>
        exact h.same (((Fixed.refl c₁).called .commit p (.ok,w)).setObject p _ _) rfl rfl rfl
    · rintro e c₂ ⟨-,handler,loss,w,-,-,-,rfl⟩
      exact h.same ((Fixed.refl c₁).called .commit p (.lost loss,w)) rfl rfl rfl
  · intro errors c₁ h
    split
    · exact h.setTxn rfl rfl (fun _ => Or.inr rfl)
    · exact ⟨h.advance.setTxn rfl rfl (fun _ => Or.inl rfl),by simp [TransactionStatus.Finished]⟩

theorem wp_abortBody_scoped (c : Coordinator σ) :
    wp (abortBody clock txnID t) (fun _ c' => Scoped t c c' ∧ (c'.txns t).status.Finished)
      (fun _ c' => Scoped t c c') c := by
  simp only [abortBody,wp_bind,wp_get,wp_ite,wp_throw,wp_now,wp_modifyTxn]
  split
  · exact Scoped.refl c
  refine wp_mono (wp_forM (I := fun _ c' => Scoped t c c') _ (Scoped.refl c)
    (E := fun _ c' => Scoped t c c') ?_) ?_ (fun _ _ h => h)
  · intro done p rest c₁ _ h
    refine wp_mono (wp_abortOne txnID p c₁) ?_ ?_
    · intro _ c₂ hr
      cases hr with
      | skip hs => exact h
      | call handler reply w error hs hh hr =>
        exact h.same (((Fixed.refl c₁).called .abort p (reply,w)).setObject p _ _) rfl rfl rfl
    · rintro e c₂ ⟨handler,loss,w,-,-,-,rfl⟩
      exact h.same ((Fixed.refl c₁).called .abort p (.lost loss,w)) rfl rfl rfl
  · intro _ c₁ h
    exact ⟨h.advance.setTxn rfl rfl (fun _ => Or.inr rfl),by simp [TransactionStatus.Finished]⟩

theorem wp_allocate_scoped (ps : List Nat) (timeout : Int) (c : Coordinator σ) :
    wp (allocate clock ps timeout)
      (fun t c' => c'.transactions = c.transactions ∧ c'.allocated = c.allocated+1 ∧
        ∀ t', t' ≠ t → c'.txns t' = c.txns t') (fun _ _ => False) c := by
  simp only [allocate,wp_bind,wp_now,wp_get,wp_set]
  refine wp_mono (wp_forM (I := fun _ c' => c'.transactions = c.transactions ∧
    c'.allocated = c.allocated+1 ∧ ∀ t', t' ≠ c.allocated → c'.txns t' = c.txns t') _
    ⟨rfl,rfl,?_⟩ ?_) ?_ (fun _ _ h => h)
  · intro t' ht
    simp [ht]
  · intro done p rest c₁ _ h
    exact h
  · intro _ c' h
    exact h

end Scoped

def keysOf (objects : Nat → TransactionParticipant) (ps : List Nat) : List String :=
  (ps.map objects).filterMap lockKey

theorem keysOf_congr {objects objects' : Nat → TransactionParticipant}
    (h : ∀ p, lockKey (objects' p) = lockKey (objects p)) (ps : List Nat) :
    keysOf objects' ps = keysOf objects ps := by
  simp only [keysOf,List.filterMap_map]
  exact List.filterMap_congr fun p _ => h p

theorem Fixed.lockKey {σ : Type} {c c' : Coordinator σ} (h : Fixed c c') (p : Nat) :
    lockKey (c'.objects p) = lockKey (c.objects p) := by
  simp only [Txn.lockKey,TransactionParticipant.string?,h.operation,h.params]

/-- A handle that the calls do not release stays as it is, at most renewed. -/
theorem next_handle (clock : Nat → Int) {r : LockRun} {op : LockOp} {j : Nat} {hd : Handle}
    (hj : r.handles[j]? = some hd) (hop : op ≠ .releaseLock j) :
    ∃ hd', (r.next clock op).handles[j]? = some hd' ∧ hd'.lock.lockKey = hd.lock.lockKey ∧
      hd'.released = hd.released := by
  have hlt := (List.getElem?_eq_some_iff.mp hj).1
  cases op with
  | acquireLock key ttl =>
    simp only [LockRun.next]
    split
    · exact ⟨hd,by rw [← hj]; exact List.getElem?_append_left hlt,rfl,rfl⟩
    · exact ⟨hd,hj,rfl,rfl⟩
  | releaseLock i =>
    have hij : i ≠ j := fun h => hop (h ▸ rfl)
    simp only [LockRun.next]
    split
    · exact ⟨hd,hj,rfl,rfl⟩
    · split
      · exact ⟨hd,by rw [← hj]; exact List.getElem?_set_ne hij,rfl,rfl⟩
      · exact ⟨hd,hj,rfl,rfl⟩
  | renewLock i ttl =>
    simp only [LockRun.next]
    split
    · exact ⟨hd,hj,rfl,rfl⟩
    · rename_i old hold
      have hw := wp_renewLock clock old.lock ttl r.manager
      split
      · rename_i lock m hx
        have hr := wp_ok hw hx
        by_cases hij : i = j
        · subst hij
          rw [hold] at hj
          cases hj
          exact ⟨_,List.getElem?_set_self hlt,hr.key,rfl⟩
        · exact ⟨hd,by rw [← hj]; exact List.getElem?_set_ne hij,rfl,rfl⟩
      · exact ⟨hd,hj,rfl,rfl⟩
  | cleanup => exact ⟨hd,hj,rfl,rfl⟩

section Securing
variable {σ : Type} {clock : Nat → Int} {objects : Nat → TransactionParticipant}

/-- Transaction `t` has a handle for this key that was not released. -/
def System.Secures (s : System σ) (t : Nat) (key : String) : Prop :=
  ∃ (i : Nat) (hd : Handle), s.holder i = some t ∧ s.handles[i]? = some hd ∧
    hd.lock.lockKey = key ∧ hd.released = false

/-- `BeginTransaction` has returned it, and it is neither committed nor aborted. -/
def System.Open (s : System σ) (t : Nat) : Prop :=
  s.coord.transactions (s.coord.txns t).transactionID = some t ∧
    ¬ (s.coord.txns t).status.Finished

structure Securing (objects : Nat → TransactionParticipant) (s : System σ) : Prop where
  fixed : ∀ p, lockKey (s.coord.objects p) = lockKey (objects p)
  bound : ∀ txnID t, s.coord.transactions txnID = some t → t < s.coord.allocated
  acquiring : ∀ t keys, s.work t = .acquiring keys → t < s.coord.allocated ∧
    (∀ key ∈ (s.coord.txns t).locks, s.Secures t key) ∧
    ∀ key ∈ keysOf objects (s.coord.txns t).participants,
      key ∈ (s.coord.txns t).locks ∨ key ∈ keys
  opened : ∀ t, s.Open t → s.work t = .idle ∧
    ∀ key ∈ keysOf objects (s.coord.txns t).participants, s.Secures t key

/-- A step for `t` that takes no handle from the others. -/
theorem Securing.step {s s' : System σ} (h : Securing objects s) (t : Nat)
    (hfixed : ∀ p, lockKey (s'.coord.objects p) = lockKey (s.coord.objects p))
    (hbound : ∀ txnID t, s'.coord.transactions txnID = some t → t < s'.coord.allocated)
    (hmore : s.coord.allocated ≤ s'.coord.allocated)
    (hothers : ∀ t', t' ≠ t → s'.work t' = s.work t' ∧ s'.coord.txns t' = s.coord.txns t' ∧
      (s'.Open t' → s.Open t') ∧ ∀ key, s.Secures t' key → s'.Secures t' key)
    (hacquiring : ∀ keys, s'.work t = .acquiring keys → t < s'.coord.allocated ∧
      (∀ key ∈ (s'.coord.txns t).locks, s'.Secures t key) ∧
      ∀ key ∈ keysOf objects (s'.coord.txns t).participants,
        key ∈ (s'.coord.txns t).locks ∨ key ∈ keys)
    (hopened : s'.Open t → s'.work t = .idle ∧
      ∀ key ∈ keysOf objects (s'.coord.txns t).participants, s'.Secures t key) :
    Securing objects s' := by
  refine ⟨fun p => (hfixed p).trans (h.fixed p),hbound,?_,?_⟩
  · intro t' keys hw
    by_cases ht : t' = t
    · subst ht
      exact hacquiring keys hw
    · obtain ⟨hwork,htxn,-,hsec⟩ := hothers t' ht
      rw [hwork] at hw
      obtain ⟨hlt,hlocks,hcover⟩ := h.acquiring t' keys hw
      rw [htxn]
      exact ⟨Nat.lt_of_lt_of_le hlt hmore,fun key hkey => hsec key (hlocks key hkey),hcover⟩
  · intro t' ho
    by_cases ht : t' = t
    · subst ht
      exact hopened ho
    · obtain ⟨hwork,htxn,hopen,hsec⟩ := hothers t' ht
      obtain ⟨hidle,hkeys⟩ := h.opened t' (hopen ho)
      rw [hwork,htxn]
      exact ⟨hidle,fun key hkey => hsec key (hkeys key hkey)⟩

theorem Securing.not_open {s : System σ} (h : Securing objects s) {t : Nat}
    (hwork : s.work t ≠ .idle) : ¬ s.Open t :=
  fun ho => hwork (h.opened t ho).1

/-- What is open after a call for `t` was open before. -/
theorem Scoped.open {s : System σ} {t t' : Nat} {w : Work} {c : Coordinator σ}
    (hs : Scoped t s.coord c) (ho : (s.setWork t w c).Open t') : s.Open t' := by
  obtain ⟨hreg,hfin⟩ := ho
  simp only [System.setWork,hs.transactions] at hreg hfin
  by_cases ht : t' = t
  · subst ht
    rw [hs.transactionID] at hreg
    exact ⟨hreg,fun hf => hfin (hs.finished hf)⟩
  · rw [hs.others t' ht] at hreg hfin
    exact ⟨hreg,hfin⟩

/-- A step for `t` that touches no handle and does not start to acquire. -/
theorem Securing.setWork {s : System σ} (h : Securing objects s) {t : Nat} {w : Work}
    {c : Coordinator σ} (hs : Scoped t s.coord c) (hw : ∀ keys, w ≠ .acquiring keys)
    (hopen : (s.setWork t w c).Open t → w = .idle) : Securing objects (s.setWork t w c) := by
  refine h.step t (fun p => hs.fixed.lockKey p) ?_ (Nat.le_of_eq hs.allocated.symm) ?_ ?_ ?_
  · intro txnID t' ht
    simp only [System.setWork,hs.transactions,hs.allocated] at ht ⊢
    exact h.bound txnID t' ht
  · intro t' hne
    exact ⟨by simp [System.setWork,hne],hs.others t' hne,fun ho => hs.open ho,fun _ hsec => hsec⟩
  · intro keys hw'
    simp only [System.setWork,Function.update_self] at hw'
    exact (hw keys hw').elim
  · intro ho
    refine ⟨by simpa [System.setWork] using hopen ho,?_⟩
    simp only [System.setWork,hs.participants]
    exact (h.opened t (hs.open ho)).2

theorem Scoped.setLocks (c : Coordinator σ) (t : Nat) (m : LockManager) :
    Scoped t c (c.setLocks m) :=
  (Scoped.refl c).same ⟨rfl,fun _ => rfl,fun _ => rfl,fun _ => rfl⟩ rfl rfl rfl

theorem Securing.begin {s : System σ} (h : Securing objects s)
    {order : Nat → List String → List String} (horder : ∀ t keys, (order t keys).Perm keys)
    (ps : List Nat) (timeout : Int) :
    Securing objects (s.next clock order (.begin ps timeout)) := by
  obtain ⟨t,c,hx,⟨⟨ht,ho⟩,-,-,-,hheld⟩,htrans,halloc,hothers⟩ := eq_ok_of_wp
    (wp_mono (wp_and (wp_and (wp_allocate clock ps timeout s.coord)
      (wp_allocate_locks clock ps timeout s.coord)) (wp_allocate_scoped clock ps timeout s.coord))
      (fun _ _ h => h) (fun _ _ h => h.2))
  simp only [System.next,hx]
  refine h.step t (fun p => ho.fixed.lockKey p) ?_ ?_ ?_ ?_ ?_
  · intro txnID t' ht'
    simp only [System.setWork,htrans,halloc] at ht' ⊢
    have := h.bound txnID t' ht'
    omega
  · simp [System.setWork,halloc]
  · intro t' hne
    refine ⟨by simp [System.setWork,hne],hothers t' hne,?_,fun _ hsec => hsec⟩
    rintro ⟨hreg,hfin⟩
    simp only [System.setWork,htrans,hothers t' hne] at hreg hfin
    exact ⟨hreg,hfin⟩
  · intro keys hw
    simp only [System.setWork,Function.update_self,Work.acquiring.injEq] at hw
    subst hw
    refine ⟨?_,?_,?_⟩
    · simp only [System.setWork,halloc]
      omega
    · simp [System.setWork,hheld]
    · intro key hkey
      refine Or.inr ((horder t _).mem_iff.mpr (List.mem_dedup.mpr ?_))
      simp only [System.setWork,ho.participants] at hkey
      have hsame : keysOf c.objects ps = keysOf objects ps :=
        keysOf_congr (fun p => (ho.fixed.lockKey p).trans (h.fixed p)) ps
      rw [← hsame] at hkey
      exact hkey
  · rintro ⟨hreg,-⟩
    simp only [System.setWork,htrans] at hreg
    have := h.bound _ _ hreg
    omega

theorem Securing.acquireKey {s : System σ} (h : Securing objects s) {t : Nat} {key : String}
    {keys : List String} (hwork : s.work t = .acquiring (key :: keys)) :
    Securing objects (s.acquireKey clock t key keys) := by
  have hclosed := h.not_open (t := t) (by rw [hwork]; simp)
  obtain ⟨hlt,hlocks,hcover⟩ := h.acquiring t _ hwork
  have hw := wp_acquireLock clock key (s.coord.txns t).timeout s.coord.lockManager
  unfold System.acquireKey
  split
  · rename_i lock m hx
    have hkey : lock.lockKey = key := (wp_ok hw hx).key
    have hsec : ∀ t' k, s.Secures t' k → ∃ (i : Nat) (hd : Handle),
        Function.update s.holder s.handles.length (some t) i = some t' ∧
        (s.handles ++ [⟨lock,false⟩])[i]? = some hd ∧ hd.lock.lockKey = k ∧
            hd.released = false := by
      rintro t' k ⟨i,hd,hi,hhd,hrest⟩
      have hlt := (List.getElem?_eq_some_iff.mp hhd).1
      exact ⟨i,hd,(Function.update_of_ne (Nat.ne_of_lt hlt) _ _).trans hi,
        by rw [← hhd]; exact List.getElem?_append_left hlt,hrest⟩
    refine h.step t (fun _ => rfl) h.bound (Nat.le_refl _) ?_ ?_ ?_
    · intro t' hne
      refine ⟨by simp [hne],by simp [hne],?_,fun k => hsec t' k⟩
      rintro ⟨hreg,hfin⟩
      simp only [Coordinator.setTxn_txns,Coordinator.setLocks_txns,
        Function.update_of_ne hne] at hreg hfin
      exact ⟨hreg,hfin⟩
    · intro keys' hw'
      simp only [Function.update_self,Work.acquiring.injEq] at hw'
      subst hw'
      refine ⟨hlt,?_,?_⟩
      · intro k hk
        simp only [Coordinator.setTxn_txns,Function.update_self,List.mem_append,
          List.mem_singleton] at hk
        rcases hk with hk | rfl
        · exact hsec t k (hlocks k hk)
        · exact ⟨s.handles.length,⟨lock,false⟩,Function.update_self ..,List.getElem?_concat_length,
            rfl,rfl⟩
      · intro k hk
        simp only [Coordinator.setTxn_txns,Function.update_self] at hk ⊢
        rcases hcover k hk with hin | hin
        · exact Or.inl (List.mem_append_left _ hin)
        · rcases List.mem_cons.mp hin with rfl | hin
          · exact Or.inl (List.mem_append_right _ (by rw [hkey]; exact List.mem_singleton_self _))
          · exact Or.inr hin
    · rintro ⟨hreg,hfin⟩
      simp only [Coordinator.setTxn_txns,Function.update_self] at hreg hfin
      exact (hclosed ⟨hreg,hfin⟩).elim
  · rename_i e m hx
    have hs := Scoped.setLocks s.coord t m
    exact h.setWork hs (by simp) (fun ho => (hclosed (hs.open ho)).elim)

theorem Securing.register {s : System σ} (h : Securing objects s) {t : Nat}
    (hwork : s.work t = .acquiring []) :
    Securing objects (s.setWork t .idle (final (register t) s.coord)) := by
  obtain ⟨hlt,hlocks,hcover⟩ := h.acquiring t _ hwork
  have hcoord : final (Txn.register t) s.coord = { s.coord with
      transactions := Function.update s.coord.transactions
          (s.coord.txns t).transactionID (some t) } :=
    rfl
  rw [hcoord]
  refine h.step t (fun _ => rfl) ?_ (Nat.le_refl _) ?_ ?_ ?_
  · intro txnID t' ht
    by_cases hid : txnID = (s.coord.txns t).transactionID
    · obtain rfl : t = t' := by simpa [System.setWork,hid] using ht
      exact hlt
    · refine h.bound txnID t' ?_
      simpa [System.setWork,hid] using ht
  · intro t' hne
    refine ⟨by simp [System.setWork,hne],rfl,?_,fun _ hsec => hsec⟩
    rintro ⟨hreg,hfin⟩
    refine ⟨?_,hfin⟩
    by_cases hid : (s.coord.txns t').transactionID = (s.coord.txns t).transactionID
    · obtain rfl : t = t' := by simpa [System.setWork,hid] using hreg
      exact (hne rfl).elim
    · simpa [System.setWork,hid] using hreg
  · intro keys hw
    simp [System.setWork] at hw
  · intro _
    refine ⟨by simp [System.setWork],fun key hkey => ?_⟩
    rcases hcover key hkey with hin | hin
    · exact hlocks key hin
    · cases hin

theorem Securing.callBody {s : System σ} (h : Securing objects s) {t : Nat}
    (hidle : s.work t = .idle) {body : TxnM σ Unit}
    (hbody : wp body (fun _ c => Scoped t s.coord c ∧ (c.txns t).status.Finished)
      (fun _ c => Scoped t s.coord c) s.coord) : Securing objects (s.callBody t body) := by
  unfold System.callBody
  split
  · rename_i c hx
    obtain ⟨hs,hfin⟩ := wp_ok hbody hx
    exact h.setWork hs (by simp) (fun ho => (ho.2 hfin).elim)
  · rename_i e c hx
    have hs := wp_error hbody hx
    have hkeep := h.setWork hs (w := s.work t) (by simp [hidle]) (fun _ => hidle)
    simpa [System.setWork] using hkeep

theorem Securing.releaseFound {s : System σ} (h : Securing objects s) (hown : Owning clock s)
    {t : Nat} {clear : Bool} {info : LockInfo} {keys : List String}
    (hwork : s.work t = .found clear info keys) :
    Securing objects (s.releaseFound t clear info keys) := by
  have hclosed := h.not_open (t := t) (by rw [hwork]; simp)
  have hkeep : ∀ m, Securing objects (s.setWork t (.releasing clear keys) (s.coord.setLocks m)) :=
    fun m => h.setWork (Scoped.setLocks s.coord t m) (by simp)
      (fun ho => (hclosed ((Scoped.setLocks s.coord t m).open ho)).elim)
  unfold System.releaseFound
  split
  · rename_i m hx
    obtain ⟨i,hd,hholder,hhd,-,howner⟩ := hown.found t clear info keys hwork
    refine (hkeep m).step t (fun _ => rfl) (hkeep m).bound (Nat.le_refl _) ?_ ?_ ?_
    · intro t' hne
      refine ⟨rfl,rfl,fun ho => ho,?_⟩
      rintro key ⟨j,hj,hholder',hhj,hkey,hrel⟩
      have hnot : hj.lock.ownerID ≠ info.ownerID := by
        intro heq
        have hij := hown.safe.distinct j i hj hd hhj hhd (heq.trans howner.symm)
        have : some t' = some t := by rw [← hholder',hij]; exact hholder
        cases this
        exact hne rfl
      refine ⟨j,hj,hholder',?_,hkey,hrel⟩
      simp only [markReleased,List.getElem?_map]
      rw [show s.handles[j]? = some hj from hhj]
      simp [hnot]
    · intro keys' hw
      simp [System.setWork] at hw
    · intro ho
      exact ((hkeep m).not_open (t := t) (by simp [System.setWork]) ho).elim
  · rename_i e m hx
    exact hkeep m

/-- Other users of the lock manager release no handle of a transaction. -/
theorem Securing.other {s : System σ} (h : Securing objects s) {op : LockOp}
    (hallowed : s.allowed op = true) : Securing objects { s with
      coord := s.coord.setLocks (s.locks.next clock op).manager
      handles := (s.locks.next clock op).handles } := by
  have hsec : ∀ t key, s.Secures t key → System.Secures (σ := σ) { s with
      coord := s.coord.setLocks (s.locks.next clock op).manager
      handles := (s.locks.next clock op).handles } t key := by
    rintro t key ⟨i,hd,hholder,hhd,hkey,hrel⟩
    have hop : op ≠ .releaseLock i := by
      rintro rfl
      simp [System.allowed,hholder] at hallowed
    obtain ⟨hd',hhd',hkey',hrel'⟩ := next_handle clock (r := s.locks) hhd hop
    exact ⟨i,hd',hholder,hhd',hkey'.trans hkey,hrel'.trans hrel⟩
  refine ⟨h.fixed,h.bound,?_,?_⟩
  · intro t keys hw
    obtain ⟨hlt,hlocks,hcover⟩ := h.acquiring t keys hw
    exact ⟨hlt,fun key hkey => hsec t key (hlocks key hkey),hcover⟩
  · intro t ho
    obtain ⟨hidle,hkeys⟩ := h.opened t ho
    exact ⟨hidle,fun key hkey => hsec t key (hkeys key hkey)⟩

theorem Securing.next {s : System σ} (h : Securing objects s) (hown : Owning clock s)
    {order : Nat → List String → List String} (horder : ∀ t keys, (order t keys).Perm keys)
    (op : TxnOp) : Securing objects (s.next clock order op) := by
  cases op with
  | begin ps timeout => exact h.begin horder ps timeout
  | acquire t =>
    simp only [System.next]
    split
    · rename_i hwork
      exact h.acquireKey hwork
    · exact h
  | register t =>
    simp only [System.next]
    split
    · rename_i hwork
      exact h.register hwork
    · exact h
  | prepare t =>
    simp only [System.next]
    split
    · rename_i hcall
      obtain ⟨hidle,-⟩ := System.callable_iff.mp hcall
      have hs := final_of_wp (wp_prepareBody_scoped (t := t) clock
        (s.coord.txns t).transactionID s.coord)
      have hkeep := h.setWork hs (w := s.work t) (by simp [hidle]) (fun _ => hidle)
      simpa [System.setWork] using hkeep
    · exact h
  | commit t =>
    simp only [System.next]
    split
    · rename_i hcall
      exact h.callBody (System.callable_iff.mp hcall).1 (wp_commitBody_scoped clock _ s.coord)
    · exact h
  | abort t =>
    simp only [System.next]
    split
    · rename_i hcall
      exact h.callBody (System.callable_iff.mp hcall).1 (wp_abortBody_scoped clock _ s.coord)
    · exact h
  | lookUp t =>
    simp only [System.next]
    split
    · rename_i clear key keys hwork
      have hclosed := h.not_open (t := t) (by rw [hwork]; simp)
      unfold System.lookUpKey
      split
      · rename_i info m hx
        have hs := Scoped.setLocks s.coord t m
        exact h.setWork hs (by simp) (fun ho => (hclosed (hs.open ho)).elim)
      · rename_i e m hx
        have hs := Scoped.setLocks s.coord t m
        exact h.setWork hs (by simp) (fun ho => (hclosed (hs.open ho)).elim)
    · exact h
  | release t =>
    simp only [System.next]
    split
    · rename_i hwork
      exact h.releaseFound hown hwork
    · exact h
  | finish t =>
    simp only [System.next]
    split
    · refine h.setWork ?_ (by simp) (fun _ => rfl)
      split
      · exact (Scoped.refl s.coord).setTxn rfl rfl id
      · exact Scoped.refl s.coord
    · exact h
  | other op =>
    simp only [System.next]
    split
    · rename_i hallowed
      exact h.other hallowed
    · exact h

theorem securing_new (storeID : String) (handlers : String → Option (Handler σ)) (world : σ) :
    Securing objects (newSystem storeID handlers objects world) := by
  refine ⟨fun _ => rfl,?_,?_,?_⟩
  · intro txnID t ht
    cases ht
  · intro t keys hw
    cases hw
  · rintro t ⟨hreg,-⟩
    cases hreg

instance (s : System σ) (t : Nat) : Decidable (s.Open t) :=
  inferInstanceAs (Decidable (_ ∧ _))

/-- Begun, unfinished and with unexpired locks. -/
def System.Active (s : System σ) (now : Int) (t : Nat) : Prop :=
  s.Open t ∧ ∀ i < s.handles.length, s.holder i = some t →
    ∀ hd ∈ s.handles[i]?, now < hd.lock.expiresAt

instance (s : System σ) (now : Int) (t : Nat) : Decidable (s.Active now t) :=
  inferInstanceAs (Decidable (s.Open t ∧ ∀ i < s.handles.length, s.holder i = some t →
    ∀ hd ∈ s.handles[i]?, now < hd.lock.expiresAt))

theorem Securing.live {s : System σ} (h : Securing objects s) {now : Int} {t : Nat} {key : String}
    (hactive : s.Active now t) (hkey : key ∈ keysOf objects (s.coord.txns t).participants) :
    ∃ (i : Nat) (hd : Handle), s.holder i = some t ∧ s.handles[i]? = some hd ∧
      hd.lock.lockKey = key ∧ hd.Live now := by
  obtain ⟨i,hd,hholder,hhd,hk,hrel⟩ := (h.opened t hactive.1).2 key hkey
  have hlt := (List.getElem?_eq_some_iff.mp hhd).1
  exact ⟨i,hd,hholder,hhd,hk,hrel,hactive.2 i hlt hholder hd hhd⟩

/-- Two active transactions have no lock key in common. -/
theorem Securing.disjoint {s : System σ} (h : Securing objects s)
    (hown : Owning clock s) {now : Int}
    (hnow : ∀ n < s.coord.lockManager.tick, clock n ≤ now) {t t' : Nat} {key : String}
    (hactive : s.Active now t) (hactive' : s.Active now t')
    (hkey : key ∈ keysOf objects (s.coord.txns t).participants)
    (hkey' : key ∈ keysOf objects (s.coord.txns t').participants) : t = t' := by
  obtain ⟨i,hi,hholder,hhi,hki,hli⟩ := h.live hactive hkey
  obtain ⟨j,hj,hholder',hhj,hkj,hlj⟩ := h.live hactive' hkey'
  obtain ⟨info,hinfo,ho⟩ := hown.safe.live_entry hnow (List.mem_of_getElem? hhi) hli
  obtain ⟨info',hinfo',ho'⟩ := hown.safe.live_entry hnow (List.mem_of_getElem? hhj) hlj
  rw [hki] at hinfo
  rw [hkj,hinfo] at hinfo'
  cases hinfo'
  have hij := hown.safe.distinct i j hi hj hhi hhj (ho.symm.trans ho')
  rw [hij,hholder'] at hholder
  cases hholder
  rfl

end Securing

/-- The participants and the timeout are what the manager's call hands over. -/
def Serves (storeID : String) (objects : Nat → TransactionParticipant)
    (txn : DistributedTransaction) (call : ManagerCall) : Prop :=
  ∃ route index, call.plan storeID route index = .ok ⟨txn.participants.map objects,txn.timeout⟩

/-- Creating, deleting and migrating one timeline exclude each other, and so do
two transactions that add messages to it. -/
theorem timeline_transactions_exclude {σ : Type} (clock : Nat → Int)
    (hclock : Function.Injective clock) (order : Nat → List String → List String)
    (horder : ∀ t keys, (order t keys).Perm keys) (storeID : String)
    (handlers : String → Option (Handler σ)) (objects : Nat → TransactionParticipant) (world : σ)
    (ops : List TxnOp) (s : System σ)
    (hrun : Steps (fun op a b => a.Unlost op ∧ b = a.next clock order op)
      (newSystem storeID handlers objects world) ops s)
    (now : Int) (hnow : ∀ n < s.coord.lockManager.tick, clock n ≤ now) (t t' : Nat) (hne : t ≠ t')
    (call call' : ManagerCall) (hcall : Serves storeID objects (s.coord.txns t) call)
    (hcall' : Serves storeID objects (s.coord.txns t') call')
    (hkey : call.timelineKey = call'.timelineKey) (hactive : s.Active now t)
    (hactive' : s.Active now t') : call.addsMessage ≠ call'.addsMessage := by
  intro hsame
  obtain ⟨hown,hsec⟩ : Owning clock s ∧ Securing objects s := by
    refine hrun.invariant (I := fun s => Owning clock s ∧ Securing objects s) ?_
      ⟨owning_new storeID handlers objects world,securing_new storeID handlers world⟩
    rintro op a _ ⟨hown,hsec⟩ ⟨hun,rfl⟩
    exact ⟨hown.next hclock order op hun,hsec.next hown horder op⟩
  obtain ⟨route,index,hplan⟩ := hcall
  obtain ⟨route',index',hplan'⟩ := hcall'
  have hmeet : call.meetingKey = call'.meetingKey := by
    simp only [ManagerCall.meetingKey,hsame,hkey]
  have hin := ManagerCall.meetingKey_mem storeID hplan
  have hin' := ManagerCall.meetingKey_mem storeID hplan'
  rw [← hmeet] at hin'
  exact hne (hsec.disjoint hown hnow hactive hactive' hin hin')

def oneTimeline : Index.GlobalIndex :=
  final (Index.addIndex (fun n => n) ⟨"k","store_1","b",0,0,0,0⟩) Index.newGlobalIndex

/-- The participants of a deletion of `k`, and then the one of a message to it. -/
def deletingAndAdding (p : Nat) : TransactionParticipant :=
  ([participant "store_1" .deleteTimeline [("timeline_key",.string "k")],
    participant "store_1" .updateIndex [("index_key",.string "k"),("operation",.string "remove")],
    participant "store_1" .addMessage [("timeline_key",.string "k"),("sender_id",.string "u"),
      ("data",.bytes [1]),("user_ids",.strings ["v"])]][p]?).getD (participant "" .unknown [])

theorem serves_deletion {txn : DistributedTransaction} (hps : txn.participants = [0,1])
    (htimeout : txn.timeout = 30*second) :
    Serves "store_1" deletingAndAdding txn (.deleteTimeline "k") := by
  refine ⟨fun _ => .ok "store_1",oneTimeline,?_⟩
  rw [hps,htimeout]
  rfl

theorem serves_message {txn : DistributedTransaction} (hps : txn.participants = [2])
    (htimeout : txn.timeout = 15*second) :
    Serves "store_1" deletingAndAdding txn (.addMessage "k" "u" [1] ["v"]) := by
  refine ⟨fun _ => .ok "store_1",oneTimeline,?_⟩
  rw [hps,htimeout]
  rfl

def deleteBesideAdd : List TxnOp :=
  [.begin [0,1] (30*second),.acquire 0,.acquire 0,.register 0,.begin [2] (15*second),.acquire 1,
    .register 1]

/-- Both transactions are begun, and no lock has expired. -/
theorem deleteBesideAdd_active :
    ∃ s, Steps (fun op a b => System.Unlost a op ∧ b = a.next (fun n => n) (fun _ => id) op)
        (newSystem "store_1" obliging deletingAndAdding ()) deleteBesideAdd s ∧
      (∀ n < s.coord.lockManager.tick, (n : Int) ≤ 100) ∧
      Serves "store_1" deletingAndAdding (s.coord.txns 0) (.deleteTimeline "k") ∧
      Serves "store_1" deletingAndAdding (s.coord.txns 1) (.addMessage "k" "u" [1] ["v"]) ∧
      s.Active 100 0 ∧ s.Active 100 1 := by
  have hany : (runWhile (fun op s => System.Unlost s op)
      (fun op s => some (s.next (fun n => n) (fun _ => id) op)) deleteBesideAdd
      (newSystem "store_1" obliging deletingAndAdding ())).any (fun s => decide
        (s.coord.lockManager.tick ≤ 100 ∧
          ((s.coord.txns 0).participants = [0,1] ∧ (s.coord.txns 0).timeout = 30*second) ∧
          ((s.coord.txns 1).participants = [2] ∧ (s.coord.txns 1).timeout = 15*second) ∧
          s.Active 100 0 ∧ s.Active 100 1)) = true := by decide +kernel
  obtain ⟨s,hs,hp⟩ := (Option.any_eq_true _ _).mp hany
  obtain ⟨htick,⟨hps,htimeout⟩,⟨hps',htimeout'⟩,hactive,hactive'⟩ := of_decide_eq_true hp
  refine ⟨s,?_,?_,serves_deletion hps htimeout,serves_message hps' htimeout',hactive,hactive'⟩
  · exact (steps_of_runWhile deleteBesideAdd hs).imp fun op a b h =>
      ⟨h.1,(Option.some.inj h.2).symm⟩
  · intro n hn
    omega

/-- Deleting `k` and adding a message to it need different locks. -/
theorem deletion_and_message_both_active :
    ¬ ∀ (ops : List TxnOp) (s : System Unit),
      Steps (fun op a b => a.Unlost op ∧ b = a.next (fun n => n) (fun _ => id) op)
        (newSystem "store_1" obliging deletingAndAdding ()) ops s →
      ∀ now, (∀ n < s.coord.lockManager.tick, (n : Int) ≤ now) → ∀ t t', t ≠ t' → ∀ call call',
        Serves "store_1" deletingAndAdding (s.coord.txns t) call →
        Serves "store_1" deletingAndAdding (s.coord.txns t') call' →
        call.timelineKey = call'.timelineKey → ¬ (s.Active now t ∧ s.Active now t') := by
  intro hall
  obtain ⟨s,hrun,hnow,hcall,hcall',hactive,hactive'⟩ := deleteBesideAdd_active
  exact hall _ s hrun 100 hnow 0 1 (by decide) _ _ hcall hcall' rfl ⟨hactive,hactive'⟩

theorem timeline_transactions_exclude_deletion_message :
    ∃ s, Steps (fun op a b => System.Unlost a op ∧ b = a.next (fun n => n) (fun _ => id) op)
        (newSystem "store_1" obliging deletingAndAdding ()) deleteBesideAdd s ∧
      (ManagerCall.deleteTimeline "k").addsMessage ≠
        (ManagerCall.addMessage "k" "u" [1] ["v"]).addsMessage := by
  obtain ⟨s,hrun,hnow,hcall,hcall',hactive,hactive'⟩ := deleteBesideAdd_active
  exact ⟨s,hrun,timeline_transactions_exclude (fun n => n) (fun _ _ => Int.ofNat.inj)
    (fun _ => id) (fun _ _ => List.Perm.refl _) "store_1" obliging deletingAndAdding ()
    deleteBesideAdd s hrun 100 hnow 0 1 (by decide) _ _ hcall hcall' rfl hactive hactive'⟩

end Imy.Txn
