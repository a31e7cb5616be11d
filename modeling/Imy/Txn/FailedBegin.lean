import Mathlib.Data.Set.Basic
import Imy.Txn.Rounds
set_option autoImplicit false

namespace Imy.Txn
open Imy.Lib Imy.Lock

/-- Key, owner and expiry of the entries that have not expired at `now`. -/
def unexpired (now : Int) (m : LockManager) : Set (String × String × Int) :=
  {e | ∃ info, m.locks e.1 = some info ∧ info.ownerID = e.2.1 ∧ info.expiresAt = e.2.2 ∧
    now < info.expiresAt}

def OwnEntries (m : LockManager) (keys : List String) : Prop :=
  ∀ key ∈ keys, ∃ info, m.locks key = some info ∧ info.lockKey = key

section Release
variable {σ : Type} (clock : Nat → Int)

/-- Releasing one key that has an entry deletes it, whoever its owner is. -/
theorem wp_releaseOne_own {c : Coordinator σ} {key : String} {old : LockInfo}
    (hold : c.lockManager.locks key = some old) (hkey : old.lockKey = key) :
    wp (releaseOne clock key)
      (fun _ c' => ∃ m, c' = c.setLocks m ∧ c.lockManager.tick ≤ m.tick ∧
        m.locks = Function.update c.lockManager.locks key none) (fun _ _ => False) c := by
  have hfound : wp (getLockInfo clock key) (fun info m =>
      c.lockManager.tick ≤ m.tick ∧ m.locks = Function.update c.lockManager.locks key (some info) ∧
        info.lockKey = key) (fun _ _ => False) c.lockManager := by
    simp only [getLockInfo,wp_bind,wp_get,hold,wp_readClock,wp_modify,wp_pure]
    refine ⟨by simp,rfl,?_⟩
    split <;> exact hkey
  simp only [releaseOne,wp_bind,wp_locking]
  refine wp_mono hfound ?_ (fun _ _ h => h.elim)
  rintro info m ⟨htick,hlocks,hname⟩
  have hentry : m.locks (rebuilt info).lockKey = some info := by simp [rebuilt,hname,hlocks]
  refine wp_mono (wp_releaseLock (rebuilt info) m) ?_ ?_
  · rintro _ m' ⟨rfl,-⟩
    refine ⟨_,rfl,htick,?_⟩
    simp [rebuilt,hname,hlocks]
  · rintro _ m' ⟨rfl,hdiffers⟩
    exact (hdiffers info hentry rfl).elim

theorem wp_releaseLocks_own {c : Coordinator σ} {keys : List String}
    (hown : OwnEntries c.lockManager keys) :
    wp (releaseLocks clock keys)
      (fun _ c' => ∃ m, c' = c.setLocks m ∧ c.lockManager.tick ≤ m.tick ∧
        m.locks = fun key => if key ∈ keys then none else c.lockManager.locks key)
      (fun _ _ => False) c := by
  refine wp_forM (I := fun done c' => ∃ m, c' = c.setLocks m ∧ c.lockManager.tick ≤ m.tick ∧
    m.locks = fun key => if key ∈ done then none else c.lockManager.locks key) keys
    ⟨c.lockManager,rfl,Nat.le_refl _,by simp⟩ ?_
  rintro done key rest _ hsplit ⟨m,rfl,htick,hlocks⟩
  by_cases hdone : key ∈ done
  · -- the key was released before, and the lookup finds nothing
    have hnone : m.locks key = none := by simp [hlocks,hdone]
    have hmissing : wp (getLockInfo clock key) (fun _ _ => False) (fun _ m' => m' = m) m := by
      simp [getLockInfo,hnone]
    simp only [releaseOne,wp_bind,wp_locking]
    refine wp_mono hmissing (fun _ _ h => h.elim) ?_
    rintro e _ rfl
    refine ⟨_,rfl,htick,?_⟩
    rw [hlocks]
    funext key'
    by_cases hk : key' = key
    · simp [hk,hdone]
    · simp [hk]
  · obtain ⟨old,hold,hkey⟩ := hown key (by simp [hsplit])
    have hold' : m.locks key = some old := by simp [hlocks,hdone,hold]
    refine wp_mono (wp_releaseOne_own clock (c := c.setLocks m) hold' hkey) ?_ (fun _ _ h => h)
    rintro _ _ ⟨m',rfl,htick',hlocks'⟩
    refine ⟨m',rfl,Nat.le_trans htick htick',?_⟩
    rw [hlocks']
    funext key'
    by_cases hk : key' = key
    · simp [hk]
    · simp [hk,hlocks]

end Release

/-- After the acquisition of some keys: each has an entry of this call, and the one that it
replaced had expired. -/
structure Acquiring {σ : Type} (clock : Nat → Int) (c : Coordinator σ) (t : Nat)
    (done : List String) (c' : Coordinator σ) : Prop where
  transactions : c'.transactions = c.transactions
  held : (c'.txns t).locks = done
  tick : c.lockManager.tick ≤ c'.lockManager.tick
  own : OwnEntries c'.lockManager done
  others : ∀ key, key ∉ done → c'.lockManager.locks key = c.lockManager.locks key
  replaced : ∀ key ∈ done, ∀ info, c.lockManager.locks key = some info →
    ∃ n, c.lockManager.tick ≤ n ∧ n < c'.lockManager.tick ∧ info.expiresAt ≤ clock n

structure RolledBack {σ : Type} (clock : Nat → Int) (c c' : Coordinator σ) : Prop where
  transactions : c'.transactions = c.transactions
  entries : ∀ key, c'.lockManager.locks key = c.lockManager.locks key ∨
    (c'.lockManager.locks key = none ∧ ∀ info, c.lockManager.locks key = some info →
      ∃ n, c.lockManager.tick ≤ n ∧ n < c'.lockManager.tick ∧ info.expiresAt ≤ clock n)

section Begin
variable {σ : Type} {clock : Nat → Int} {c c₁ : Coordinator σ} {t : Nat} {done : List String}

theorem Acquiring.rolledBack (h : Acquiring clock c t done c₁) {m : LockManager}
    (htick : c₁.lockManager.tick ≤ m.tick)
    (hlocks : m.locks = fun key => if key ∈ done then none else c₁.lockManager.locks key) :
    RolledBack clock c (c₁.setLocks m) := by
  refine ⟨h.transactions,fun key => ?_⟩
  by_cases hd : key ∈ done
  · refine Or.inr ⟨by simp [hlocks,hd],fun info hinfo => ?_⟩
    obtain ⟨n,hn,hlt,hle⟩ := h.replaced key hd info hinfo
    exact ⟨n,hn,Nat.lt_of_lt_of_le hlt htick,hle⟩
  · exact Or.inl (by simpa [hlocks,hd] using h.others key hd)

theorem wp_acquireOne_acquiring (h : Acquiring clock c t done c₁) (timeout : Int) {key : String}
    (hnew : key ∉ done) :
    wp (acquireOne clock t timeout key) (fun _ c' => Acquiring clock c t (done ++ [key]) c')
      (fun _ c' => RolledBack clock c c') c₁ := by
  simp only [acquireOne,wp_bind,wp_locking]
  refine wp_mono (wp_and (wp_acquireLock clock key timeout c₁.lockManager)
    (wp_acquireLock_readings clock key timeout c₁.lockManager)) ?_ ?_
  · rintro lock m ⟨ha,hfree,hm⟩
    obtain ⟨info,hlocks,hname,-,-⟩ := ha.entry
    simp only [wp_modifyTxn]
    refine ⟨h.transactions,?_,Nat.le_trans h.tick ha.tick,?_,?_,?_⟩
    · simp [h.held,ha.key]
    · intro key' hk
      by_cases hkey : key' = key
      · subst hkey
        exact ⟨info,by simp [hlocks],hname⟩
      · obtain ⟨own,hown,hn⟩ := h.own key' (by simpa [hkey] using hk)
        exact ⟨own,by simpa [hlocks,hkey] using hown,hn⟩
    · intro key' hk
      have hkey : key' ≠ key := fun heq => hk (by simp [heq])
      have hd : key' ∉ done := fun hd => hk (by simp [hd])
      simpa [hlocks,hkey] using h.others key' hd
    · intro key' hk old hold
      by_cases hkey : key' = key
      · subst hkey
        refine ⟨c₁.lockManager.tick,h.tick,?_,hfree old ((h.others key' hnew).trans hold)⟩
        simp only [Coordinator.setTxn_lockManager,Coordinator.setLocks_lockManager,hm]
        split <;> omega
      · obtain ⟨n,hn,hlt,hle⟩ := h.replaced key' (by simpa [hkey] using hk) old hold
        exact ⟨n,hn,Nat.lt_of_lt_of_le hlt ha.tick,hle⟩
  · rintro e m ⟨⟨hlocks,-,htick⟩,-⟩
    simp only [wp_get,Coordinator.setLocks_txns,h.held]
    have hown : OwnEntries (c₁.setLocks m).lockManager done := fun key hk => by
      simpa [hlocks] using h.own key hk
    refine wp_mono (wp_releaseLocks_own clock hown) ?_ (fun _ _ h => h.elim)
    rintro _ _ ⟨m',rfl,htick',hlocks'⟩
    exact h.rolledBack (Nat.le_trans htick htick') (by simpa [hlocks] using hlocks')

/-- The three readings of the new transaction touch no entry. -/
theorem wp_allocate_acquiring (ps : List Nat) (timeout : Int) (c : Coordinator σ) :
    wp (allocate clock ps timeout) (fun t c' => Acquiring clock c t [] c')
      (fun _ _ => False) c := by
  simp only [allocate,wp_bind,wp_now,wp_get,wp_set]
  refine wp_mono (wp_forM (I := fun _ c' => Acquiring clock c c.allocated [] c') ps ?_ ?_) ?_
    (fun _ _ h => h)
  · exact ⟨rfl,by simp,by simp; omega,by simp [OwnEntries],fun _ _ => rfl,by simp⟩
  · intro done p rest c' _ h
    exact ⟨h.transactions,h.held,h.tick,h.own,h.others,h.replaced⟩
  · intro _ c' h
    exact h

theorem wp_beginTransaction_rolledBack {order : List String → List String}
    (horder : ∀ keys, (order keys).Perm keys) (ps : List Nat) (timeout : Int)
    (c : Coordinator σ) :
    wp (beginTransaction clock order ps timeout) (fun _ _ => True)
      (fun _ c' => RolledBack clock c c') c := by
  simp only [beginTransaction,wp_bind]
  refine wp_mono (wp_allocate_acquiring ps timeout c) ?_ (fun _ _ h => h.elim)
  intro t c₁ h
  simp only [wp_get]
  have hnodup : (generateLockKeys order (ps.map c₁.objects)).Nodup :=
    (horder _).nodup_iff.mpr (List.nodup_dedup _)
  refine wp_mono (wp_forM (I := fun done c' => Acquiring clock c t done c') _ h ?_)
    (fun _ _ _ => trivial) (fun _ _ h => h)
  intro done key rest c' hsplit h
  refine wp_acquireOne_acquiring h timeout fun hd => ?_
  rw [hsplit] at hnodup
  exact List.disjoint_of_nodup_append hnodup hd List.mem_cons_self

end Begin

/-- A `BeginTransaction` that fails, with nobody else at the lock manager and no lock expiring
during the call, leaves the unexpired locks as they were and registers nothing. -/
theorem failed_begin_changes_nothing {σ : Type} (clock : Nat → Int)
    (order : List String → List String) (horder : ∀ keys, (order keys).Perm keys)
    (ps : List Nat) (timeout : Int) (c c' : Coordinator σ) (e : Fault)
    (hfail : beginTransaction clock order ps timeout c = .error e c')
    (hstill : ∀ key info, c.lockManager.locks key = some info → ∀ n, c.lockManager.tick ≤ n →
      n < c'.lockManager.tick →
        (clock n < info.expiresAt ↔ clock c.lockManager.tick < info.expiresAt)) :
    (∀ n n', c.lockManager.tick ≤ n → n < c'.lockManager.tick → c.lockManager.tick ≤ n' →
        n' < c'.lockManager.tick →
          unexpired (clock n') c'.lockManager = unexpired (clock n) c.lockManager) ∧
      c'.transactions = c.transactions := by
  have h := wp_error (wp_beginTransaction_rolledBack horder ps timeout c) hfail
  refine ⟨fun n n' hn hlt hn' hlt' => ?_,h.transactions⟩
  ext ⟨key,owner,expiry⟩
  constructor
  · rintro ⟨info,hinfo,howner,hexpiry,hlive⟩
    rcases h.entries key with hsame | ⟨hnone,-⟩
    · have hold : c.lockManager.locks key = some info := hsame.symm.trans hinfo
      refine ⟨info,hold,howner,hexpiry,?_⟩
      rwa [hstill key info hold n hn hlt,← hstill key info hold n' hn' hlt']
    · rw [hnone] at hinfo
      cases hinfo
  · rintro ⟨info,hold,howner,hexpiry,hlive⟩
    rw [hstill key info hold n hn hlt] at hlive
    rcases h.entries key with hsame | ⟨-,hexpired⟩
    · refine ⟨info,hsame.trans hold,howner,hexpiry,?_⟩
      rwa [hstill key info hold n' hn' hlt']
    · obtain ⟨k,hk,hklt,hle⟩ := hexpired info hold
      rw [← hstill key info hold k hk hklt] at hlive
      omega

/-- Somebody holds the lock of the second of two participants. -/
def secondHeld : Coordinator Unit :=
  newCoordinator "store_1"
    (final (acquireLock (fun n => n) "timeline:1" 1000) (newLockManager "store_1")) obliging
    (creating "store_1") ()

theorem failed_begin_changes_nothing_second_held :
    ∃ e c', beginTransaction (fun n => n) id [0,1] 100 secondHeld = .error e c' ∧
      (∀ n n' : Nat, 3 ≤ n → n < 11 → 3 ≤ n' → n' < 11 →
        unexpired n' c'.lockManager = unexpired n secondHeld.lockManager) ∧
      c'.transactions = secondHeld.transactions := by
  have hlocks : secondHeld.lockManager.locks = Function.update (fun _ => none) "timeline:1"
      (some ⟨"timeline:1",stamp "store_1" 0,stamp "store_1" 1,"store_1",2,1002,true⟩) := rfl
  have htick : (final (beginTransaction (fun n => n) id [0,1] 100) secondHeld).lockManager.tick =
      11 := by decide +kernel
  obtain ⟨e,hfail⟩ := eq_error_of_fails (x := beginTransaction (fun n => n) id [0,1] 100)
    (s := secondHeld) (by decide +kernel)
  have h := failed_begin_changes_nothing (fun n => n) id (fun _ => .refl _) [0,1] 100 secondHeld _ e
    hfail ?_
  · rw [htick] at h
    exact ⟨e,_,hfail,h⟩
  · rw [htick]
    intro key info hinfo n hn hlt
    have hexpires : info.expiresAt = 1002 := by
      rw [hlocks] at hinfo
      by_cases hk : key = "timeline:1"
      · subst hk
        rw [Function.update_self] at hinfo
        rw [← Option.some.inj hinfo]
      · simp [hk] at hinfo
    have hstart : secondHeld.lockManager.tick = 3 := rfl
    rw [hexpires,hstart]
    omega

end Imy.Txn
