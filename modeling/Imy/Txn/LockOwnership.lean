import Imy.Lib.Transition
import Imy.Txn.Interleaving
set_option autoImplicit false

namespace Imy.Txn
open Imy.Lib Imy.Lock

section Invariant
variable {σ : Type} {clock : Nat → Int}

def Backed (r : LockRun) : Prop :=
  ∀ key info, r.manager.locks key = some info → info.lockKey = key ∧
    ∃ (i : Nat) (hd : Handle), r.handles[i]? = some hd ∧ hd.lock.lockKey = key ∧
      hd.lock.ownerID = info.ownerID

/-- Handle `i` of `r` is still there, at most renewed or released. -/
def Grows (r r' : LockRun) : Prop :=
  ∀ (i : Nat) hd, r.handles[i]? = some hd → ∃ hd', r'.handles[i]? = some hd' ∧
    hd'.lock.lockKey = hd.lock.lockKey ∧ hd'.lock.ownerID = hd.lock.ownerID

theorem grows_concat (m m' : LockManager) (handles : List Handle) (hd : Handle) :
    Grows ⟨m,handles⟩ ⟨m',handles ++ [hd]⟩ := by
  intro i z hz
  have hlt := (List.getElem?_eq_some_iff.mp hz).1
  exact ⟨z,by rw [← hz]; exact List.getElem?_append_left hlt,rfl,rfl⟩

theorem grows_set {m m' : LockManager} {handles : List Handle} {i : Nat} {hd hd' : Handle}
    (hi : handles[i]? = some hd) (hkey : hd'.lock.lockKey = hd.lock.lockKey)
    (howner : hd'.lock.ownerID = hd.lock.ownerID) :
    Grows ⟨m,handles⟩ ⟨m',handles.set i hd'⟩ := by
  intro j z hz
  by_cases hji : j = i
  · subst hji
    have hlt := (List.getElem?_eq_some_iff.mp hi).1
    rw [show handles[j]? = some z from hz] at hi
    cases hi
    exact ⟨hd',List.getElem?_set_self hlt,hkey,howner⟩
  · exact ⟨z,by rw [← hz]; exact List.getElem?_set_ne (Ne.symm hji),rfl,rfl⟩

/-- The entries keep owner and key, or go. -/
theorem Backed.grow {r r' : LockRun} (h : Backed r) (hg : Grows r r')
    (hsub : ∀ key info, r'.manager.locks key = some info → ∃ old, r.manager.locks key = some old ∧
      old.lockKey = info.lockKey ∧ old.ownerID = info.ownerID) : Backed r' := by
  intro key info hinfo
  obtain ⟨old,hold,hkey,howner⟩ := hsub key info hinfo
  obtain ⟨hk,i,hd,hhd,hdk,hdo⟩ := h key old hold
  obtain ⟨hd',hhd',hk',ho'⟩ := hg i hd hhd
  exact ⟨hkey ▸ hk,i,hd',hhd',hk'.trans hdk,ho'.trans (hdo.trans howner)⟩

theorem Backed.acquired {m m' : LockManager} {handles : List Handle} {key : String}
    {lock : DistributedLock} (h : Backed ⟨m,handles⟩) (ha : Acquired clock key m m' lock) :
    Backed ⟨m',handles ++ [⟨lock,false⟩]⟩ := by
  obtain ⟨new,hlocks,hkey,howner,-⟩ := ha.entry
  intro key' info hinfo
  by_cases hk : key' = key
  · subst hk
    simp only [hlocks,Function.update_self,Option.some.injEq] at hinfo
    subst hinfo
    exact ⟨hkey,handles.length,_,List.getElem?_concat_length,ha.key,howner.symm⟩
  · simp only [hlocks,Function.update_of_ne hk] at hinfo
    obtain ⟨hk',i,hd,hhd,hrest⟩ := h key' info hinfo
    obtain ⟨hd',hhd',hk₁,ho₁⟩ := grows_concat m m' handles ⟨lock,false⟩ i hd hhd
    exact ⟨hk',i,hd',hhd',hk₁.trans hrest.1,ho₁.trans hrest.2⟩

theorem Backed.next (clock : Nat → Int) {r : LockRun} (h : Backed r) (op : LockOp) :
    Backed (r.next clock op) ∧ Grows r (r.next clock op) := by
  have hout := r.next_outcome clock op
  generalize r.next clock op = r' at hout ⊢
  cases hout with
  | acquired ha => exact ⟨Backed.acquired (m := r.manager) h ha,grows_concat _ _ _ _⟩
  | @released i hd old hhd hold ho =>
    have hg : Grows r (r.setHandle i { hd with released := true }
        (r.manager.setLock hd.lock.lockKey none)) := grows_set hhd rfl rfl
    refine ⟨h.grow hg ?_,hg⟩
    intro key info hinfo
    by_cases hk : key = hd.lock.lockKey
    · simp [LockRun.setHandle,hk] at hinfo
    · exact ⟨info,by simpa [LockRun.setHandle,hk] using hinfo,rfl,rfl⟩
  | @renewed i hd lock m hhd hr =>
    obtain ⟨old,new,hold,ho,hlocks,hkey,howner,-⟩ := hr.entry
    have hg : Grows r (r.setHandle i { hd with lock := lock } m) := grows_set hhd hr.key hr.owner
    refine ⟨h.grow hg ?_,hg⟩
    intro key info hinfo
    simp only [LockRun.setHandle,hlocks] at hinfo
    by_cases hk : key = hd.lock.lockKey
    · subst hk
      simp only [Function.update_self,Option.some.injEq] at hinfo
      subst hinfo
      exact ⟨old,hold,hkey.symm,ho.trans howner.symm⟩
    · exact ⟨info,by simpa [hk] using hinfo,rfl,rfl⟩
  | @quiet m hstore htick hsub hgone =>
    have hg : Grows r ⟨m,r.handles⟩ := fun _ hd hd' => ⟨hd,hd',rfl,rfl⟩
    exact ⟨h.grow hg fun key info hinfo => ⟨info,hsub key info hinfo,rfl,rfl⟩,hg⟩

/-- A handle of `t` for this key. -/
def System.Holds (s : System σ) (t : Nat) (key : String) : Prop :=
  ∃ (i : Nat) (hd : Handle), s.holder i = some t ∧ s.handles[i]? = some hd ∧ hd.lock.lockKey = key

def System.Owns (s : System σ) (t : Nat) (info : LockInfo) : Prop :=
  ∃ (i : Nat) (hd : Handle), s.holder i = some t ∧ s.handles[i]? = some hd ∧
    hd.lock.lockKey = info.lockKey ∧ hd.lock.ownerID = info.ownerID

def Work.todo : Work → List String
  | .releasing _ keys | .found _ _ keys => keys
  | _ => []

structure Owning (clock : Nat → Int) (s : System σ) : Prop where
  safe : Safe clock s.locks
  backed : Backed s.locks
  held : ∀ t, ∀ key ∈ (s.coord.txns t).locks, s.Holds t key
  todo : ∀ t, ∀ key ∈ (s.work t).todo, s.Holds t key
  found : ∀ t clear info keys, s.work t = .found clear info keys → s.Owns t info

structure Extends (s s' : System σ) : Prop where
  grows : Grows s.locks s'.locks
  holder : ∀ i < s.handles.length, s'.holder i = s.holder i

theorem Extends.holds {s s' : System σ} (h : Extends s s') {t : Nat} {key : String}
    (hh : s.Holds t key) : s'.Holds t key := by
  obtain ⟨i,hd,hi,hhd,hk⟩ := hh
  obtain ⟨hd',hhd',hk',-⟩ := h.grows i hd hhd
  exact ⟨i,hd',(h.holder i (List.getElem?_eq_some_iff.mp hhd).1).trans hi,hhd',hk'.trans hk⟩

theorem Extends.owns {s s' : System σ} (h : Extends s s') {t : Nat} {info : LockInfo}
    (hh : s.Owns t info) : s'.Owns t info := by
  obtain ⟨i,hd,hi,hhd,hk,ho⟩ := hh
  obtain ⟨hd',hhd',hk',ho'⟩ := h.grows i hd hhd
  exact ⟨i,hd',(h.holder i (List.getElem?_eq_some_iff.mp hhd).1).trans hi,hhd',hk'.trans hk,
    ho'.trans ho⟩

/-- A step for `t` leaves the other transactions alone. -/
theorem Owning.step {s s' : System σ} (h : Owning clock s) (t : Nat) (hext : Extends s s')
    (hsafe : Safe clock s'.locks) (hbacked : Backed s'.locks)
    (hothers : ∀ t', t' ≠ t → (s'.coord.txns t').locks = (s.coord.txns t').locks ∧
      s'.work t' = s.work t')
    (hheld : ∀ key ∈ (s'.coord.txns t).locks, s'.Holds t key)
    (htodo : ∀ key ∈ (s'.work t).todo, s'.Holds t key)
    (hfound : ∀ clear info keys, s'.work t = .found clear info keys → s'.Owns t info) :
    Owning clock s' := by
  refine ⟨hsafe,hbacked,?_,?_,?_⟩
  · intro t' key hkey
    by_cases ht : t' = t
    · subst ht
      exact hheld key hkey
    · rw [(hothers t' ht).1] at hkey
      exact hext.holds (h.held t' key hkey)
  · intro t' key hkey
    by_cases ht : t' = t
    · subst ht
      exact htodo key hkey
    · rw [(hothers t' ht).2] at hkey
      exact hext.holds (h.todo t' key hkey)
  · intro t' clear info keys hw
    by_cases ht : t' = t
    · subst ht
      exact hfound clear info keys hw
    · rw [(hothers t' ht).2] at hw
      exact hext.owns (h.found t' clear info keys hw)

/-- A step for `t` that leaves the lock table as it is. -/
theorem Owning.quiet {s : System σ} (h : Owning clock s) {t : Nat} {w : Work} {c : Coordinator σ}
    (hlocks : c.lockManager.locks = s.coord.lockManager.locks)
    (hstore : c.lockManager.storeID = s.coord.lockManager.storeID)
    (htick : s.coord.lockManager.tick ≤ c.lockManager.tick)
    (hothers : ∀ t', t' ≠ t → (c.txns t').locks = (s.coord.txns t').locks)
    (hheld : ∀ key ∈ (c.txns t).locks, s.Holds t key)
    (htodo : ∀ key ∈ w.todo, s.Holds t key)
    (hfound : ∀ clear info keys, w = .found clear info keys → s.Owns t info) :
    Owning clock (s.setWork t w c) := by
  have hext : Extends s (s.setWork t w c) :=
    ⟨fun _ hd hhd => ⟨hd,hhd,rfl,rfl⟩,fun _ _ => rfl⟩
  refine h.step t hext (h.safe.same hlocks hstore htick)
    (h.backed.grow hext.grows fun key info hinfo => ⟨info,hlocks ▸ hinfo,rfl,rfl⟩) ?_ ?_ ?_ ?_
  · intro t' ht
    exact ⟨hothers t' ht,by simp [System.setWork,ht]⟩
  · intro key hkey
    exact hext.holds (hheld key hkey)
  · intro key hkey
    simp only [System.setWork,Function.update_self] at hkey
    exact hext.holds (htodo key hkey)
  · intro clear info keys hw
    simp only [System.setWork,Function.update_self] at hw
    exact hext.owns (hfound clear info keys hw)

theorem Owning.calm {s : System σ} (h : Owning clock s) {t : Nat} {w : Work} {c : Coordinator σ}
    (hc : Calm s.coord c) (htodo : ∀ key ∈ w.todo, s.Holds t key)
    (hfound : ∀ clear info keys, w = .found clear info keys → s.Owns t info) :
    Owning clock (s.setWork t w c) :=
  h.quiet hc.locks hc.storeID hc.tick (fun t' _ => hc.held t')
    (fun key hkey => h.held t key (hc.held t ▸ hkey)) htodo hfound

theorem Owning.acquireKey {s : System σ} (hclock : Function.Injective clock) (h : Owning clock s)
    (t : Nat) (key : String) (keys : List String) :
    Owning clock (s.acquireKey clock t key keys) := by
  have hw := wp_acquireLock clock key (s.coord.txns t).timeout s.coord.lockManager
  unfold System.acquireKey
  split
  · rename_i lock m hx
    have ha := wp_ok hw hx
    have hgrow := grows_concat s.coord.lockManager m s.handles ⟨lock,false⟩
    refine h.step t ⟨hgrow,fun i hi => Function.update_of_ne (Nat.ne_of_lt hi) _ _⟩
      (h.safe.acquired hclock ha) (Backed.acquired h.backed ha) ?_ ?_ ?_ ?_
    · intro t' ht
      exact ⟨by simp [ht],by simp [ht]⟩
    · intro k hk
      simp only [Coordinator.setTxn_txns,Function.update_self,List.mem_append,
        List.mem_singleton] at hk
      rcases hk with hk | rfl
      · obtain ⟨i,hd,hi,hhd,hkey⟩ := h.held t k hk
        obtain ⟨hd',hhd',hk',-⟩ := hgrow i hd hhd
        have hlt := (List.getElem?_eq_some_iff.mp hhd).1
        exact ⟨i,hd',(Function.update_of_ne (Nat.ne_of_lt hlt) _ _).trans hi,hhd',hk'.trans hkey⟩
      · exact ⟨s.handles.length,⟨lock,false⟩,Function.update_self ..,
          List.getElem?_concat_length,rfl⟩
    · simp [Work.todo]
    · simp
  · rename_i e m hx
    obtain ⟨hlocks,hstore,htick⟩ := wp_error hw hx
    exact h.quiet hlocks hstore htick (fun _ _ => rfl) (h.held t) (h.held t) (by simp)

/-- The entry of a key that `t` was the last to acquire is `t`'s own. -/
theorem Owning.own_entry {s : System σ} (h : Owning clock s) {t : Nat} {key : String}
    {info : LockInfo} (hholds : s.Holds t key) (hinfo : s.coord.lockManager.locks key = some info)
    (hlast : ∀ (i j : Nat) (hi hj : Handle), s.holder i = some t → s.handles[i]? = some hi →
      hi.lock.lockKey = key → i < j → s.handles[j]? = some hj → hj.lock.lockKey = key →
      info.ownerID ≠ hj.lock.ownerID) : s.Owns t info := by
  obtain ⟨hkey,j,hj,hhj,hkj,hoj⟩ := h.backed key info hinfo
  obtain ⟨i,hi,hholder,hhi,hki⟩ := hholds
  rcases Nat.lt_trichotomy i j with hlt | rfl | hgt
  · exact (hlast i j hi hj hholder hhi hki hlt hhj hkj hoj.symm).elim
  · exact ⟨i,hj,hholder,hhj,hkj.trans hkey.symm,hoj⟩
  · exact (h.safe.latest j i hj hi info hgt hhj hhi (hkj.trans hki.symm) (hkj ▸ hinfo)
      hoj.symm).elim

theorem Owning.lookUpKey {s : System σ} (h : Owning clock s) {t : Nat} {clear : Bool} {key : String}
    {keys : List String} (hwork : s.work t = .releasing clear (key :: keys))
    (hown : ∀ info, s.coord.lockManager.locks key = some info → s.Owns t info) :
    Owning clock (s.lookUpKey clock t clear key keys) := by
  have hw := wp_getLockInfo clock key s.coord.lockManager
  have htodo : ∀ k ∈ keys, s.Holds t k := fun k hk =>
    h.todo t k (by rw [hwork]; exact List.mem_cons_of_mem _ hk)
  unfold System.lookUpKey
  split
  · rename_i info m hx
    obtain ⟨hstore,htick,hlocks,old,hold,hkey,howner,hexp⟩ := wp_ok hw hx
    have hext : Extends s (s.setWork t (.found clear info keys) (s.coord.setLocks m)) :=
      ⟨fun _ hd hhd => ⟨hd,hhd,rfl,rfl⟩,fun _ _ => rfl⟩
    have hsub : ∀ k new, m.locks k = some new → ∃ old, s.coord.lockManager.locks k = some old ∧
        old.lockKey = new.lockKey ∧ old.ownerID = new.ownerID := by
      intro k new hnew
      rw [hlocks] at hnew
      by_cases hk : k = key
      · subst hk
        simp only [Function.update_self,Option.some.injEq] at hnew
        subst hnew
        exact ⟨old,hold,hkey.symm,howner.symm⟩
      · exact ⟨new,by simpa [hk] using hnew,rfl,rfl⟩
    have hsafe : Safe clock ⟨m,s.handles⟩ := by
      refine h.safe.quiet hstore htick (fun k new hnew => ?_) (fun k o ho => Or.inl ?_)
      · obtain ⟨o,ho,-,hoo⟩ := hsub k new hnew
        exact ⟨o,ho,hoo⟩
      · rw [hlocks]
        by_cases hk : k = key
        · subst hk
          rw [show s.locks.manager.locks k = some old from hold] at ho
          cases ho
          exact ⟨info,Function.update_self ..,howner,hexp⟩
        · exact ⟨o,(Function.update_of_ne hk _ _).trans ho,rfl,rfl⟩
    refine h.step t hext hsafe (h.backed.grow hext.grows hsub) ?_ ?_ ?_ ?_
    · intro t' ht
      exact ⟨rfl,by simp [System.setWork,ht]⟩
    · intro k hk
      exact hext.holds (h.held t k hk)
    · intro k hk
      simp only [System.setWork,Function.update_self] at hk
      exact hext.holds (htodo k hk)
    · intro clear' info' keys' hw'
      simp only [System.setWork,Function.update_self,Work.found.injEq] at hw'
      obtain ⟨-,rfl,-⟩ := hw'
      obtain ⟨i,hd,hi,hhd,hk,ho⟩ := hown old hold
      exact hext.owns ⟨i,hd,hi,hhd,hk.trans hkey.symm,ho.trans howner.symm⟩
  · rename_i e m hx
    obtain rfl := wp_error hw hx
    exact h.quiet rfl rfl (Nat.le_refl _) (fun _ _ => rfl) (h.held t) htodo (by simp)

theorem markReleased_eq_set {m : LockManager} {handles : List Handle} (h : Safe clock ⟨m,handles⟩)
    {i : Nat} {hd : Handle} (hi : handles[i]? = some hd) :
    markReleased hd.lock.ownerID handles = handles.set i { hd with released := true } := by
  refine List.ext_getElem? fun j => ?_
  simp only [markReleased,List.getElem?_map]
  by_cases hji : j = i
  · subst hji
    rw [List.getElem?_set_self (List.getElem?_eq_some_iff.mp hi).1,hi]
    simp
  · rw [List.getElem?_set_ne (Ne.symm hji)]
    cases hj : handles[j]? with
    | none => rfl
    | some z =>
      have hne : z.lock.ownerID ≠ hd.lock.ownerID := fun heq => hji (h.distinct j i z hd hj hi heq)
      simp [hne]

/-- A release that goes through removes the entry that was looked up, or one
that has the same owner, and marks the handle with that owner. -/
theorem Owning.releaseFound {s : System σ} (h : Owning clock s) {t : Nat} {clear : Bool}
    {info : LockInfo} {keys : List String} (hwork : s.work t = .found clear info keys) :
    Owning clock (s.releaseFound t clear info keys) := by
  have hw := wp_releaseLock (rebuilt info) s.coord.lockManager
  have htodo : ∀ k ∈ keys, s.Holds t k := fun k hk => h.todo t k (by rw [hwork]; exact hk)
  obtain ⟨i,hd,hi,hhd,hkey,howner⟩ := h.found t clear info keys hwork
  unfold System.releaseFound
  split
  · rename_i m hx
    obtain ⟨rfl,old,hold,ho⟩ := wp_ok hw hx
    have hset := markReleased_eq_set h.safe hhd
    rw [howner] at hset
    simp only [rebuilt] at hold ho ⊢
    have hgrow : Grows s.locks ⟨s.coord.lockManager.setLock info.lockKey none,
        s.handles.set i { hd with released := true }⟩ := grows_set hhd rfl rfl
    have hsafe : Safe clock ⟨s.coord.lockManager.setLock info.lockKey none,
        s.handles.set i { hd with released := true }⟩ :=
      h.safe.through hhd rfl rfl rfl (Nat.le_refl _) (hkey ▸ hold) (ho.trans howner.symm)
        (by rw [hkey]; rfl) (by simp) (by simp)
    have hbacked : Backed ⟨s.coord.lockManager.setLock info.lockKey none,
        s.handles.set i { hd with released := true }⟩ := by
      refine h.backed.grow hgrow fun k new hnew => ?_
      by_cases hk : k = info.lockKey
      · simp [hk] at hnew
      · exact ⟨new,(Function.update_of_ne hk _ _).symm.trans hnew,rfl,rfl⟩
    rw [hset]
    have hext : Extends s
        { s.setWork t (.releasing clear keys)
            (s.coord.setLocks (s.coord.lockManager.setLock info.lockKey none)) with
          handles := s.handles.set i { hd with released := true } } := ⟨hgrow,fun _ _ => rfl⟩
    refine h.step t hext hsafe hbacked ?_ ?_ ?_ ?_
    · intro t' ht
      exact ⟨rfl,by simp [System.setWork,ht]⟩
    · intro k hk
      exact hext.holds (h.held t k hk)
    · intro k hk
      simp only [System.setWork,Function.update_self] at hk
      exact hext.holds (htodo k hk)
    · simp [System.setWork]
  · rename_i e m hx
    obtain ⟨rfl,-⟩ := wp_error hw hx
    exact h.quiet rfl rfl (Nat.le_refl _) (fun _ _ => rfl) (h.held t) htodo (by simp)

/-- Handle `i` of `t` was followed by handle `j`, which has the entry of the key. -/
def System.LostTo (s : System σ) (t : Nat) (key : String) (i j : Nat) : Prop :=
  s.holder i = some t ∧ i < j ∧ (∃ hi ∈ s.handles[i]?, hi.lock.lockKey = key) ∧
    ∃ hj ∈ s.handles[j]?, hj.lock.lockKey = key ∧
      ∃ info ∈ s.coord.lockManager.locks key, info.ownerID = hj.lock.ownerID

instance (s : System σ) (t : Nat) (key : String) (i j : Nat) : Decidable (s.LostTo t key i j) :=
  inferInstanceAs (Decidable (_ ∧ _ ∧ _ ∧ _))

/-- The key that the next lookup of `releaseLocks` asks for. -/
def System.lookedUp (s : System σ) : TxnOp → Option String
  | .lookUp t =>
    match s.work t with
    | .releasing _ (key :: _) => some key
    | _ => none
  | _ => none

/-- A key that a step looks up is not in the hands of somebody who acquired it
after the transaction did. -/
def System.Unlost (s : System σ) (op : TxnOp) : Prop :=
  ∀ t ∈ s.target op, ∀ key ∈ s.lookedUp op, ∀ i < s.handles.length, ∀ j < s.handles.length,
    ¬ s.LostTo t key i j

instance (s : System σ) (op : TxnOp) : Decidable (s.Unlost op) :=
  inferInstanceAs (Decidable (∀ t ∈ s.target op, ∀ key ∈ s.lookedUp op, ∀ i < s.handles.length,
    ∀ j < s.handles.length, ¬ s.LostTo t key i j))

theorem Owning.unlost {s : System σ} (h : Owning clock s) {t : Nat} {clear : Bool} {key : String}
    {keys : List String} (hwork : s.work t = .releasing clear (key :: keys))
    (hun : s.Unlost (.lookUp t)) {info : LockInfo}
    (hinfo : s.coord.lockManager.locks key = some info) : s.Owns t info := by
  have hlooked : s.lookedUp (.lookUp t) = some key := by simp only [System.lookedUp,hwork]
  refine h.own_entry (h.todo t key (by rw [hwork]; exact List.mem_cons_self)) hinfo ?_
  intro i j hi hj hholder hhi hki hij hhj hkj heq
  exact hun t rfl key hlooked i (List.getElem?_eq_some_iff.mp hhi).1 j
    (List.getElem?_eq_some_iff.mp hhj).1 ⟨hholder,hij,⟨hi,hhi,hki⟩,hj,hhj,hkj,info,hinfo,heq⟩

/-- Before its locks expire a transaction cannot have lost a key. -/
theorem Owning.unlost_of_live {s : System σ} (h : Owning clock s) {op : TxnOp} {now : Int}
    (hnow : ∀ n < s.coord.lockManager.tick, clock n ≤ now)
    (hlive : ∀ t ∈ s.target op, ∀ (i : Nat) hd, s.holder i = some t → s.handles[i]? = some hd →
      hd.Live now) : s.Unlost op := by
  rintro t ht key - i - j - ⟨hholder,hij,⟨hi,hhi,hki⟩,hj,hhj,hkj,info,hinfo,howner⟩
  obtain ⟨info',hinfo',howner'⟩ := h.safe.live_entry hnow (List.mem_of_getElem? hhi)
    (hlive t ht i hi hholder hhi)
  rw [hki,show s.locks.manager.locks key = some info from hinfo] at hinfo'
  cases hinfo'
  have := h.safe.distinct i j hi hj hhi hhj (howner'.symm.trans howner)
  omega

theorem Owning.callBody {s : System σ} (h : Owning clock s) (t : Nat) {body : TxnM σ Unit}
    (hbody : wp body (fun _ c => Calm s.coord c) (fun _ c => Calm s.coord c) s.coord) :
    Owning clock (s.callBody t body) := by
  obtain ⟨c,hc,hs | hs⟩ := System.callBody_cases t hbody <;> rw [hs]
  · exact h.calm hc (fun key hkey => h.held t key (hc.held t ▸ hkey)) (by simp)
  · have := h.calm (t := t) (w := s.work t) hc (h.todo t) (h.found t)
    simpa [System.setWork] using this

/-- The end of a call; a commit or an abort forgets the keys. -/
theorem Owning.finish {s : System σ} (h : Owning clock s) (t : Nat) (clear : Bool) :
    Owning clock (s.setWork t .idle
      (if clear then s.coord.setTxn t { s.coord.txns t with locks := [] } else s.coord)) := by
  cases clear with
  | true =>
    refine h.quiet rfl rfl (Nat.le_refl _) (fun t' ht => ?_) ?_ (by simp [Work.todo]) (by simp)
    · simp [ht]
    · simp
  | false =>
    exact h.quiet rfl rfl (Nat.le_refl _) (fun _ _ => rfl) (h.held t)
      (by simp [Work.todo]) (by simp)

theorem Owning.next {s : System σ} (hclock : Function.Injective clock)
    (order : Nat → List String → List String) (h : Owning clock s) (op : TxnOp)
    (hun : s.Unlost op) : Owning clock (s.next clock order op) := by
  cases op with
  | begin participants timeout =>
    obtain ⟨t,c,hx,hlocks,hstore,htick,hheld⟩ :=
      eq_ok_of_wp (wp_allocate_locks clock participants timeout s.coord)
    simp only [System.next,hx]
    refine h.quiet hlocks hstore htick ?_ ?_ (by simp [Work.todo]) (by simp)
    · intro t' ht
      rw [hheld t',if_neg ht]
    · simp [hheld]
  | acquire t =>
    simp only [System.next]
    split
    · exact h.acquireKey hclock t _ _
    · exact h
  | register t =>
    simp only [System.next]
    split
    · exact h.calm ⟨rfl,rfl,Nat.le_refl _,fun _ => rfl⟩ (by simp [Work.todo]) (by simp)
    · exact h
  | prepare t =>
    simp only [System.next]
    split
    · have hc := final_of_wp (wp_prepareBody_calm clock (s.coord.txns t).transactionID t s.coord)
      have := h.calm (t := t) (w := s.work t) hc (h.todo t) (h.found t)
      simpa [System.setWork] using this
    · exact h
  | commit t =>
    simp only [System.next]
    split
    · exact h.callBody t (wp_commitBody_calm clock _ t s.coord)
    · exact h
  | abort t =>
    simp only [System.next]
    split
    · exact h.callBody t (wp_abortBody_calm clock _ t s.coord)
    · exact h
  | lookUp t =>
    simp only [System.next]
    split
    · rename_i clear key keys hwork
      exact h.lookUpKey hwork (fun info hinfo => h.unlost hwork hun hinfo)
    · exact h
  | release t =>
    simp only [System.next]
    split
    · rename_i hwork
      exact h.releaseFound hwork
    · exact h
  | finish t =>
    simp only [System.next]
    split
    · exact h.finish t _
    · exact h
  | other op =>
    simp only [System.next]
    split
    · obtain ⟨hbacked,hgrow⟩ := h.backed.next clock op
      have hext : Extends s
          { s with
            coord := s.coord.setLocks (s.locks.next clock op).manager
            handles := (s.locks.next clock op).handles } := ⟨hgrow,fun _ _ => rfl⟩
      exact ⟨h.safe.next hclock op,hbacked,fun t key hkey => hext.holds (h.held t key hkey),
        fun t key hkey => hext.holds (h.todo t key hkey),
        fun t clear info keys hw => hext.owns (h.found t clear info keys hw)⟩
    · exact h

theorem owning_new (storeID : String) (handlers : String → Option (Handler σ))
    (objects : Nat → TransactionParticipant) (world : σ) :
    Owning clock (newSystem storeID handlers objects world) := by
  refine ⟨safe_new clock storeID,?_,?_,?_,?_⟩
  · intro key info hinfo
    cases hinfo
  · intro t key hkey
    cases hkey
  · intro t key hkey
    cases hkey
  · intro t clear info keys hw
    cases hw

/-- The steps that call neither `AcquireLock` nor `GetLockInfo` nor `ReleaseLock`. -/
def TxnOp.apart : TxnOp → Bool
  | .acquire _ | .lookUp _ | .release _ | .other _ => false
  | _ => true

theorem System.next_locks_of_apart (s : System σ) (order : Nat → List String → List String)
    {op : TxnOp} (hop : op.apart = true) :
    (s.next clock order op).coord.lockManager.locks = s.coord.lockManager.locks := by
  have hbody : ∀ t (body : TxnM σ Unit), wp body (fun _ c => Calm s.coord c)
      (fun _ c => Calm s.coord c) s.coord →
      (s.callBody t body).coord.lockManager.locks = s.coord.lockManager.locks := by
    intro t body hw
    obtain ⟨c,hc,hs | hs⟩ := System.callBody_cases t hw <;> rw [hs] <;> exact hc.locks
  cases op with
  | begin participants timeout =>
    obtain ⟨t',c,hx,hlocks,-⟩ := eq_ok_of_wp (wp_allocate_locks clock participants timeout s.coord)
    simp only [System.next,hx]
    exact hlocks
  | register t =>
    simp only [System.next]
    split <;> rfl
  | prepare t =>
    simp only [System.next]
    split
    · exact (final_of_wp (wp_prepareBody_calm clock _ t s.coord)).locks
    · rfl
  | commit t =>
    simp only [System.next]
    split
    · exact hbody t _ (wp_commitBody_calm clock _ t s.coord)
    · rfl
  | abort t =>
    simp only [System.next]
    split
    · exact hbody t _ (wp_abortBody_calm clock _ t s.coord)
    · rfl
  | finish t =>
    simp only [System.next]
    split
    · simp only [System.setWork]
      split <;> rfl
    · rfl
  | acquire t => cases hop
  | lookUp t => cases hop
  | release t => cases hop
  | other op => cases hop

def Keeps (m : LockManager) (lock : DistributedLock) : Prop :=
  ∃ info, m.locks lock.lockKey = some info ∧ info.ownerID = lock.ownerID

/-- An acquisition takes an entry away only when it has expired. -/
theorem System.acquireKey_keeps (s : System σ) (t : Nat) (key : String) (keys : List String)
    {lock : DistributedLock} {info : LockInfo}
    (hinfo : s.coord.lockManager.locks lock.lockKey = some info)
    (howner : info.ownerID = lock.ownerID) :
    Keeps (s.acquireKey clock t key keys).coord.lockManager lock ∨
      Past clock (s.acquireKey clock t key keys).coord.lockManager info.expiresAt := by
  have hw := wp_acquireLock clock key (s.coord.txns t).timeout s.coord.lockManager
  unfold System.acquireKey
  split
  · rename_i acquired m hx
    have ha := wp_ok hw hx
    obtain ⟨new,hlocks,-⟩ := ha.entry
    by_cases hk : lock.lockKey = key
    · exact Or.inr (ha.replaced info (hk ▸ hinfo))
    · refine Or.inl ⟨info,?_,howner⟩
      exact (congrFun hlocks _).trans ((Function.update_of_ne hk _ _).trans hinfo)
  · rename_i e m hx
    exact Or.inl ⟨info,(congrFun (wp_error hw hx).1 _).trans hinfo,howner⟩

theorem System.lookUpKey_keeps (s : System σ) (t : Nat) (clear : Bool) (key : String)
    (keys : List String) {lock : DistributedLock}
    (hkeeps : Keeps s.coord.lockManager lock) :
    Keeps (s.lookUpKey clock t clear key keys).coord.lockManager lock := by
  have hw := wp_getLockInfo clock key s.coord.lockManager
  obtain ⟨info,hinfo,howner⟩ := hkeeps
  unfold System.lookUpKey
  split
  · rename_i found m hx
    obtain ⟨-,-,hlocks,old,hold,-,ho,-⟩ := wp_ok hw hx
    by_cases hk : lock.lockKey = key
    · rw [hk,hold] at hinfo
      cases hinfo
      exact ⟨found,(congrFun hlocks _).trans (by rw [hk,Function.update_self]),ho.trans howner⟩
    · exact ⟨info,(congrFun hlocks _).trans ((Function.update_of_ne hk _ _).trans hinfo),howner⟩
  · rename_i e m hx
    obtain rfl := wp_error hw hx
    exact ⟨info,hinfo,howner⟩

/-- A release removes the entry that `t` looked up, and that one is `t`'s. -/
theorem Owning.releaseFound_keeps {s : System σ} (h : Owning clock s) {t : Nat} {clear : Bool}
    {found : LockInfo} {keys : List String} (hwork : s.work t = .found clear found keys) {i : Nat}
    {hd : Handle} (hhd : s.handles[i]? = some hd) (hother : s.holder i ≠ some t)
    (hkeeps : Keeps s.coord.lockManager hd.lock) :
    Keeps (s.releaseFound t clear found keys).coord.lockManager hd.lock := by
  have hw := wp_releaseLock (rebuilt found) s.coord.lockManager
  obtain ⟨info,hinfo,howner⟩ := hkeeps
  obtain ⟨j,hj,hholder,hhj,-,hoj⟩ := h.found t clear found keys hwork
  unfold System.releaseFound
  split
  · rename_i m hx
    obtain ⟨rfl,old,hold,ho⟩ := wp_ok hw hx
    refine ⟨info,?_,howner⟩
    by_cases hk : hd.lock.lockKey = found.lockKey
    · rw [hk,show s.coord.lockManager.locks found.lockKey = some old from hold] at hinfo
      cases hinfo
      have hij := h.safe.distinct i j hd hj hhd hhj (howner.symm.trans (ho.trans hoj.symm))
      exact (hother (hij ▸ hholder)).elim
    · exact (Function.update_of_ne hk _ _).trans hinfo
  · rename_i e m hx
    obtain ⟨rfl,-⟩ := wp_error hw hx
    exact ⟨info,hinfo,howner⟩

/-- The table after a step for `t`: the entries of the others are there, unless
an acquisition replaced one that had expired. -/
theorem Owning.keeps_others {s : System σ} (h : Owning clock s)
    (order : Nat → List String → List String) {op : TxnOp} {t : Nat} (ht : s.target op = some t)
    {i : Nat} {hd : Handle} (hhd : s.handles[i]? = some hd) (hother : s.holder i ≠ some t)
    {info : LockInfo} (hinfo : s.coord.lockManager.locks hd.lock.lockKey = some info)
    (howner : info.ownerID = hd.lock.ownerID) :
    Keeps (s.next clock order op).coord.lockManager hd.lock ∨
      (op = .acquire t ∧ Past clock (s.next clock order op).coord.lockManager info.expiresAt) := by
  have hkeeps : Keeps s.coord.lockManager hd.lock := ⟨info,hinfo,howner⟩
  cases hop : op.apart with
  | true =>
    refine Or.inl ⟨info,?_,howner⟩
    rw [System.next_locks_of_apart s order hop]
    exact hinfo
  | false =>
    cases op with
    | acquire t' =>
      cases ht
      simp only [System.next]
      split
      · exact (System.acquireKey_keeps s t _ _ hinfo howner).imp_right fun hp => ⟨trivial,hp⟩
      · exact Or.inl hkeeps
    | lookUp t' =>
      simp only [System.next]
      split
      · exact Or.inl (System.lookUpKey_keeps s t' _ _ _ hkeeps)
      · exact Or.inl hkeeps
    | release t' =>
      cases ht
      simp only [System.next]
      split
      · rename_i hwork
        exact Or.inl (h.releaseFound_keeps hwork hhd hother hkeeps)
      · exact Or.inl hkeeps
    | other op => cases ht
    | begin | register | prepare | commit | abort | finish => cases hop

end Invariant

/-- As long as no release looks up a key that somebody else has acquired in the
meantime, no step for a transaction removes a lock that is not its own. -/
theorem transaction_keeps_other_locks {σ : Type} (clock : Nat → Int)
    (hclock : Function.Injective clock) (order : Nat → List String → List String)
    (storeID : String) (handlers : String → Option (Handler σ))
    (objects : Nat → TransactionParticipant) (world : σ) (ops : List TxnOp) (s : System σ)
    (hrun : Steps (fun op a b => a.Unlost op ∧ b = a.next clock order op)
      (newSystem storeID handlers objects world) ops s)
    (op : TxnOp) (t : Nat) (ht : s.target op = some t) (i : Nat) (hd : Handle)
    (hhd : s.handles[i]? = some hd) (hother : s.holder i ≠ some t) (info : LockInfo)
    (hinfo : s.coord.lockManager.locks hd.lock.lockKey = some info)
    (howner : info.ownerID = hd.lock.ownerID) :
    (∃ info', (s.next clock order op).coord.lockManager.locks hd.lock.lockKey = some info' ∧
      info'.ownerID = hd.lock.ownerID) ∨
    (op = .acquire t ∧ Past clock (s.next clock order op).coord.lockManager info.expiresAt) := by
  have hs : Owning clock s := by
    refine hrun.invariant ?_ (owning_new storeID handlers objects world)
    rintro op a _ ha ⟨hun,rfl⟩
    exact ha.next hclock order op hun
  exact hs.keeps_others order ht hhd hother hinfo howner

/-- A lock of somebody else, and a transaction up to the release of its own. -/
def besideOther : List TxnOp :=
  [.other (.acquireLock "x" 1000),.begin [0] 1000,.acquire 0,.register 0,.prepare 0,.commit 0,
    .lookUp 0]

theorem transaction_keeps_other_locks_besideOther :
    ∃ s hd, runWhile (fun op s => System.Unlost s op)
        (fun op s => some (s.next (fun n => n) (fun _ => id) op)) besideOther
        (newSystem "store_1" obliging (creating "store_1") ()) = some s ∧
      s.handles[0]? = some hd ∧ ∃ info,
        (s.next (fun n => n) (fun _ => id) (.release 0)).coord.lockManager.locks
          hd.lock.lockKey = some info ∧ info.ownerID = hd.lock.ownerID := by
  have hany : (runWhile (fun op s => System.Unlost s op)
      (fun op s => some (s.next (fun n => n) (fun _ => id) op)) besideOther
      (newSystem "store_1" obliging (creating "store_1") ())).any (fun s =>
        decide (s.holder 0 ≠ some 0) && (s.handles[0]?).any fun hd =>
          (s.coord.lockManager.locks hd.lock.lockKey).any fun info =>
            decide (info.ownerID = hd.lock.ownerID)) = true := by decide +kernel
  obtain ⟨s,hs,hp⟩ := (Option.any_eq_true _ _).mp hany
  obtain ⟨hholder,hp⟩ := Bool.and_eq_true_iff.mp hp
  obtain ⟨hd,hhd,hp⟩ := (Option.any_eq_true _ _).mp hp
  obtain ⟨info,hinfo,howner⟩ := (Option.any_eq_true _ _).mp hp
  refine ⟨s,hd,hs,hhd,?_⟩
  rcases transaction_keeps_other_locks (fun n => n) (fun _ _ => Int.ofNat.inj)
    (fun _ => id) "store_1" obliging (creating "store_1") () besideOther s
    ((steps_of_runWhile besideOther hs).imp fun op a b h => ⟨h.1,(Option.some.inj h.2).symm⟩)
    (.release 0) 0 rfl 0 hd hhd (of_decide_eq_true hholder) info hinfo (of_decide_eq_true howner)
    with h | ⟨h,-⟩
  · exact h
  · cases h

/-- The first transaction's lock expires, the second acquires the key, and the
first is aborted and looks the key up. -/
def abortedLate : System Unit :=
  System.run (fun n => n) (fun _ => id)
    [.begin [0] 1,.acquire 0,.register 0,.begin [0] 1000,.acquire 1,.register 1,.abort 0,.lookUp 0]
    (newSystem "store_1" obliging (creating "store_1") ())

theorem aborted_transaction_releases_other_lock :
    ∃ hd, abortedLate.handles[1]? = some hd ∧ abortedLate.holder 1 = some 1 ∧ hd.Live 100 ∧
      (abortedLate.coord.lockManager.locks hd.lock.lockKey).map (·.ownerID) =
        some hd.lock.ownerID ∧
      (abortedLate.next (fun n => n) (fun _ => id) (.release 0)).coord.lockManager.locks
        hd.lock.lockKey = none := by
  have hany : (abortedLate.handles[1]?).any (fun hd => decide (abortedLate.holder 1 = some 1 ∧
      hd.Live 100 ∧ (abortedLate.coord.lockManager.locks hd.lock.lockKey).map (·.ownerID) =
        some hd.lock.ownerID ∧
      (abortedLate.next (fun n => n) (fun _ => id) (.release 0)).coord.lockManager.locks
        hd.lock.lockKey = none)) = true := by decide +kernel
  obtain ⟨hd,hhd,hp⟩ := (Option.any_eq_true _ _).mp hany
  exact ⟨hd,hhd,of_decide_eq_true hp⟩

end Imy.Txn
