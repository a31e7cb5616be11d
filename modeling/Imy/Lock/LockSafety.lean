import Mathlib.Order.Monotone.Basic
import Imy.Lib.Lists
import Imy.Lock.LockManager
set_option autoImplicit false

namespace Imy.Lock
open Imy.Lib

/-- A handle with whether its release has returned nil. -/
structure Handle where
  lock : DistributedLock
  released : Bool
  deriving DecidableEq, Repr

/-- A manager with all handles it gave out, in the order it did. -/
structure LockRun where
  manager : LockManager
  handles : List Handle

inductive LockOp where
  | acquireLock (lockKey : String) (ttl : Int)
  | releaseLock (handle : Nat)
  | renewLock (handle : Nat) (ttl : Int)
  | cleanup
  deriving DecidableEq, Repr

def LockRun.setHandle (s : LockRun) (i : Nat) (hd : Handle) (m : LockManager) : LockRun :=
  ⟨m,s.handles.set i hd⟩

/-- One operation by any caller on any handle. -/
def LockRun.next (clock : Nat → Int) : LockOp → LockRun → LockRun
  | .acquireLock key ttl, s =>
    match Lock.acquireLock clock key ttl s.manager with
    | .ok lock m => ⟨m,s.handles ++ [⟨lock,false⟩]⟩
    | .error _ m => ⟨m,s.handles⟩
  | .releaseLock i, s =>
    match s.handles[i]? with
    | none => s
    | some hd =>
      match Lock.releaseLock hd.lock s.manager with
      | .ok _ m => s.setHandle i { hd with released := true } m
      | .error _ m => ⟨m,s.handles⟩
  | .renewLock i ttl, s =>
    match s.handles[i]? with
    | none => s
    | some hd =>
      match Lock.renewLock clock hd.lock ttl s.manager with
      | .ok lock m => s.setHandle i { hd with lock := lock } m
      | .error _ m => ⟨m,s.handles⟩
  | .cleanup, s => ⟨final (cleanupExpired clock) s.manager,s.handles⟩

def LockRun.run (clock : Nat → Int) (ops : List LockOp) (s : LockRun) : LockRun :=
  ops.foldl (fun s op => s.next clock op) s

/-- Returned by `AcquireLock`, not released, and its expiry is in the future. -/
def Handle.Live (hd : Handle) (t : Int) : Prop := hd.released = false ∧ t < hd.lock.expiresAt

instance (hd : Handle) (t : Int) : Decidable (hd.Live t) :=
  inferInstanceAs (Decidable (hd.released = false ∧ t < hd.lock.expiresAt))

/-- A clock reading that was made is not later than this expiry. -/
def Past (clock : Nat → Int) (m : LockManager) (t : Int) : Prop := ∃ n < m.tick, t ≤ clock n

/-- What an operation can do to the table and to the handles. A call that fails
and the cleanup at most drop entries that have expired. -/
inductive LockRun.Outcome (clock : Nat → Int) (s : LockRun) : LockRun → Prop
  | acquired {key : String} {lock : DistributedLock} {m : LockManager}
      (ha : Acquired clock key s.manager m lock) : Outcome clock s ⟨m,s.handles ++ [⟨lock,false⟩]⟩
  | released {i : Nat} {hd : Handle} {old : LockInfo} (hhd : s.handles[i]? = some hd)
      (hold : s.manager.locks hd.lock.lockKey = some old) (howner : old.ownerID = hd.lock.ownerID) :
      Outcome clock s (s.setHandle i { hd with released := true }
        (s.manager.setLock hd.lock.lockKey none))
  | renewed {i : Nat} {hd : Handle} {lock : DistributedLock} {m : LockManager}
      (hhd : s.handles[i]? = some hd) (hr : Renewed hd.lock s.manager m lock) :
      Outcome clock s (s.setHandle i { hd with lock := lock } m)
  | quiet {m : LockManager} (hstore : m.storeID = s.manager.storeID)
      (htick : s.manager.tick ≤ m.tick)
      (hsub : ∀ key info, m.locks key = some info → s.manager.locks key = some info)
      (hgone : ∀ key info, s.manager.locks key = some info → m.locks key = some info ∨
        Past clock m info.expiresAt) : Outcome clock s ⟨m,s.handles⟩

theorem LockRun.Outcome.same {clock : Nat → Int} {s : LockRun} {m : LockManager}
    (hlocks : m.locks = s.manager.locks) (hstore : m.storeID = s.manager.storeID)
    (htick : s.manager.tick ≤ m.tick) : Outcome clock s ⟨m,s.handles⟩ :=
  .quiet hstore htick (fun _ _ h => hlocks ▸ h) (fun _ _ h => Or.inl (hlocks ▸ h))

theorem LockRun.next_outcome (clock : Nat → Int) (s : LockRun) (op : LockOp) :
    Outcome clock s (s.next clock op) := by
  have hsame : Outcome clock s s := .same rfl rfl (Nat.le_refl _)
  cases op with
  | acquireLock key ttl =>
    have hw := wp_acquireLock clock key ttl s.manager
    simp only [LockRun.next]
    split
    · rename_i lock m hx
      have ha := wp_ok hw hx
      exact .acquired ha
    · rename_i e m hx
      obtain ⟨hlocks,hstore,htick⟩ := wp_error hw hx
      exact .same hlocks hstore htick
  | releaseLock i =>
    simp only [LockRun.next]
    split
    · exact hsame
    · rename_i hd hhd
      have hw := wp_releaseLock hd.lock s.manager
      split
      · rename_i m hx
        obtain ⟨rfl,old,hold,ho⟩ := wp_ok hw hx
        exact .released hhd hold ho
      · rename_i e m hx
        obtain ⟨rfl,-⟩ := wp_error hw hx
        exact hsame
  | renewLock i ttl =>
    simp only [LockRun.next]
    split
    · exact hsame
    · rename_i hd hhd
      have hw := wp_renewLock clock hd.lock ttl s.manager
      split
      · rename_i lock m hx
        have hr := wp_ok hw hx
        exact .renewed hhd hr
      · rename_i e m hx
        obtain ⟨hlocks,hstore,htick⟩ := wp_error hw hx
        exact .same hlocks hstore htick
  | cleanup =>
    obtain ⟨_,m,hx,hstore,htick,hsub,hgone⟩ := eq_ok_of_wp (wp_cleanupExpired clock s.manager)
    simp only [LockRun.next,final,hx]
    exact .quiet hstore htick hsub hgone

structure Safe (clock : Nat → Int) (s : LockRun) : Prop where
  drawn : ∀ hd ∈ s.handles, ∃ n < s.manager.tick,
    hd.lock.ownerID = stamp s.manager.storeID (clock n)
  distinct : ∀ (i j : Nat) hi hj, s.handles[i]? = some hi → s.handles[j]? = some hj →
    hi.lock.ownerID = hj.lock.ownerID → i = j
  latest : ∀ (i j : Nat) hi hj info, i < j → s.handles[i]? = some hi → s.handles[j]? = some hj →
    hi.lock.lockKey = hj.lock.lockKey → s.manager.locks hi.lock.lockKey = some info →
    info.ownerID ≠ hi.lock.ownerID
  held : ∀ hd ∈ s.handles, hd.released = false →
    (∃ info, s.manager.locks hd.lock.lockKey = some info ∧ info.ownerID = hd.lock.ownerID ∧
      info.expiresAt = hd.lock.expiresAt) ∨ Past clock s.manager hd.lock.expiresAt

theorem safe_new (clock : Nat → Int) (storeID : String) : Safe clock ⟨newLockManager storeID,[]⟩ :=
  ⟨by simp,by simp,by simp,by simp⟩

section Safe
variable {clock : Nat → Int} {s : LockRun} {m : LockManager}

theorem Past.mono {m' : LockManager} {t : Int} (h : Past clock m t) (ht : m.tick ≤ m'.tick) :
    Past clock m' t := by
  obtain ⟨n,hn,hle⟩ := h
  exact ⟨n,Nat.lt_of_lt_of_le hn ht,hle⟩

/-- A step that gives out no handle and keeps the owner and the expiry of every
entry that has not expired. -/
theorem Safe.quiet (hs : Safe clock s) (hstore : m.storeID = s.manager.storeID)
    (htick : s.manager.tick ≤ m.tick)
    (hsub : ∀ key info, m.locks key = some info →
      ∃ old, s.manager.locks key = some old ∧ old.ownerID = info.ownerID)
    (hgone : ∀ key old, s.manager.locks key = some old → (∃ info, m.locks key = some info ∧
      info.ownerID = old.ownerID ∧ info.expiresAt = old.expiresAt) ∨
      Past clock m old.expiresAt) : Safe clock ⟨m,s.handles⟩ := by
  refine ⟨?_,hs.distinct,?_,?_⟩
  · intro hd hmem
    obtain ⟨n,hn,ho⟩ := hs.drawn hd hmem
    exact ⟨n,Nat.lt_of_lt_of_le hn htick,by rw [hstore]; exact ho⟩
  · intro i j hi hj info hij hhi hhj hkey hinfo
    obtain ⟨old,hold,ho⟩ := hsub _ _ hinfo
    rw [← ho]
    exact hs.latest i j hi hj old hij hhi hhj hkey hold
  · intro hd hmem hlive
    rcases hs.held hd hmem hlive with ⟨old,hin,ho,he⟩ | hp
    · rcases hgone _ old hin with ⟨info,hin',ho',he'⟩ | hp
      · exact Or.inl ⟨info,hin',ho'.trans ho,he'.trans he⟩
      · exact Or.inr (he ▸ hp)
    · exact Or.inr (hp.mono htick)

theorem Safe.same (hs : Safe clock s) (hlocks : m.locks = s.manager.locks)
    (hstore : m.storeID = s.manager.storeID) (htick : s.manager.tick ≤ m.tick) :
    Safe clock ⟨m,s.handles⟩ :=
  hs.quiet hstore htick (fun _ info h => ⟨info,hlocks ▸ h,rfl⟩)
    (fun _ old h => Or.inl ⟨old,hlocks ▸ h,rfl,rfl⟩)

theorem Safe.fresh_owner {key : String} {lock : DistributedLock}
    (hclock : Function.Injective clock) (hs : Safe clock s)
    (ha : Acquired clock key s.manager m lock) {hd : Handle} (hmem : hd ∈ s.handles) :
    lock.ownerID ≠ hd.lock.ownerID := by
  intro heq
  obtain ⟨n,hn,ho⟩ := hs.drawn hd hmem
  obtain ⟨n',hn',-,ho'⟩ := ha.owner
  have hsame := hclock (stamp_injective (ho'.symm.trans (heq.trans ho)))
  omega

theorem Safe.acquired {key : String} {lock : DistributedLock} (hclock : Function.Injective clock)
    (hs : Safe clock s) (ha : Acquired clock key s.manager m lock) :
    Safe clock ⟨m,s.handles ++ [⟨lock,false⟩]⟩ := by
  obtain ⟨entry,hentry,-,howner,hexpiry⟩ := ha.entry
  have fresh := fun (hd : Handle) (hmem : hd ∈ s.handles) => hs.fresh_owner hclock ha hmem
  refine ⟨?_,?_,?_,?_⟩
  · intro hd hmem
    rcases List.mem_append.mp hmem with hmem | hmem
    · obtain ⟨n,hn,ho⟩ := hs.drawn hd hmem
      exact ⟨n,Nat.lt_of_lt_of_le hn ha.tick,by rw [ha.storeID]; exact ho⟩
    · obtain ⟨n,-,hn,ho⟩ := ha.owner
      rw [List.mem_singleton] at hmem
      exact ⟨n,hn,by rw [hmem,ha.storeID]; exact ho⟩
  · intro i j hi hj hhi hhj ho
    rcases getElem?_concat_some hhi with hhi | ⟨rfl,rfl⟩ <;>
      rcases getElem?_concat_some hhj with hhj | ⟨rfl,rfl⟩
    · exact hs.distinct i j hi hj hhi hhj ho
    · exact (fresh hi (List.mem_of_getElem? hhi) ho.symm).elim
    · exact (fresh hj (List.mem_of_getElem? hhj) ho).elim
    · rfl
  · intro i j hi hj info hij hhi hhj hkey hinfo
    -- `i` is not the last one, so it was there before
    have hold : s.handles[i]? = some hi := by
      rcases getElem?_concat_some hhi with hhi | ⟨rfl,-⟩
      · exact hhi
      · have := (List.getElem?_eq_some_iff.mp hhj).1
        simp at this
        omega
    by_cases hk : hi.lock.lockKey = key
    · simp only [hentry,hk,Function.update_self,Option.some.injEq] at hinfo
      rw [← hinfo,howner]
      exact fresh hi (List.mem_of_getElem? hold)
    · simp only [hentry,Function.update_of_ne hk] at hinfo
      rcases getElem?_concat_some hhj with hhj | ⟨-,rfl⟩
      · exact hs.latest i j hi hj info hij hold hhj hkey hinfo
      · exact (hk (hkey.trans ha.key)).elim
  · intro hd hmem hlive
    rcases List.mem_append.mp hmem with hmem | hmem
    · by_cases hk : hd.lock.lockKey = key
      · rcases hs.held hd hmem hlive with ⟨info,hin,-,he⟩ | hp
        · exact Or.inr (he ▸ ha.replaced info (hk ▸ hin))
        · exact Or.inr (hp.mono ha.tick)
      · rcases hs.held hd hmem hlive with ⟨info,hin,ho,he⟩ | hp
        · exact Or.inl ⟨info,by rw [hentry,Function.update_of_ne hk]; exact hin,ho,he⟩
        · exact Or.inr (hp.mono ha.tick)
    · rw [List.mem_singleton] at hmem
      subst hmem
      exact Or.inl ⟨entry,by rw [hentry,ha.key,Function.update_self],howner,hexpiry⟩

/-- A step through handle `i`, whose owner the entry has: the entry keeps that
owner or goes. -/
theorem Safe.through {i : Nat} {hd hd' : Handle} (hs : Safe clock s) (hhd : s.handles[i]? = some hd)
    (hkey : hd'.lock.lockKey = hd.lock.lockKey) (howner : hd'.lock.ownerID = hd.lock.ownerID)
    (hstore : m.storeID = s.manager.storeID) (htick : s.manager.tick ≤ m.tick)
    {old : LockInfo} (hold : s.manager.locks hd.lock.lockKey = some old)
    (holdOwner : old.ownerID = hd.lock.ownerID) {new : Option LockInfo}
    (hnew : m.locks = Function.update s.manager.locks hd.lock.lockKey new)
    (hnewOwner : ∀ info, new = some info → info.ownerID = hd.lock.ownerID)
    (hheld : hd'.released = false → ∃ info, new = some info ∧ info.expiresAt = hd'.lock.expiresAt) :
    Safe clock ⟨m,s.handles.set i hd'⟩ := by
  have before : ∀ (j : Nat) z, (s.handles.set i hd')[j]? = some z → ∃ z₀, s.handles[j]? = some z₀ ∧
      z₀.lock.lockKey = z.lock.lockKey ∧ z₀.lock.ownerID = z.lock.ownerID := by
    intro j z hz
    rcases getElem?_set_some hz with ⟨rfl,rfl⟩ | ⟨-,hz⟩
    · exact ⟨hd,hhd,hkey.symm,howner.symm⟩
    · exact ⟨z,hz,rfl,rfl⟩
  refine ⟨?_,?_,?_,?_⟩
  · intro z hz
    obtain ⟨j,hj⟩ := List.getElem?_of_mem hz
    obtain ⟨z₀,hz₀,-,ho⟩ := before j z hj
    obtain ⟨n,hn,hn'⟩ := hs.drawn z₀ (List.mem_of_getElem? hz₀)
    exact ⟨n,Nat.lt_of_lt_of_le hn htick,by rw [hstore,← ho]; exact hn'⟩
  · intro a b ha hb hha hhb ho
    obtain ⟨a₀,ha₀,-,hoa⟩ := before a ha hha
    obtain ⟨b₀,hb₀,-,hob⟩ := before b hb hhb
    exact hs.distinct a b a₀ b₀ ha₀ hb₀ (by rw [hoa,ho,hob])
  · intro a b ha hb info hab hha hhb hk hinfo
    obtain ⟨a₀,ha₀,hka,hoa⟩ := before a ha hha
    obtain ⟨b₀,hb₀,hkb,-⟩ := before b hb hhb
    rw [← hoa]
    rw [← hka] at hinfo
    by_cases hkd : a₀.lock.lockKey = hd.lock.lockKey
    · simp only [hnew,hkd,Function.update_self] at hinfo
      rw [hnewOwner info hinfo,← holdOwner]
      exact hs.latest a b a₀ b₀ old hab ha₀ hb₀ (by rw [hka,hk,hkb]) (hkd ▸ hold)
    · simp only [hnew,Function.update_of_ne hkd] at hinfo
      exact hs.latest a b a₀ b₀ info hab ha₀ hb₀ (by rw [hka,hk,hkb]) hinfo
  · intro z hz hlive
    obtain ⟨j,hj⟩ := List.getElem?_of_mem hz
    rcases getElem?_set_some hj with ⟨rfl,rfl⟩ | ⟨hne,hj⟩
    · obtain ⟨info,hinfo,hexp⟩ := hheld hlive
      exact Or.inl ⟨info,by rw [hnew,hkey,Function.update_self]; exact hinfo,
        (hnewOwner info hinfo).trans howner.symm,hexp⟩
    · rcases hs.held z (List.mem_of_getElem? hj) hlive with ⟨info,hin,ho,he⟩ | hp
      · by_cases hkd : z.lock.lockKey = hd.lock.lockKey
        · -- the entry has the owner of `i`, and no other handle has that owner
          rw [hkd,hold] at hin
          cases hin
          exact (hne (hs.distinct j i z hd hj hhd (ho.symm.trans holdOwner))).elim
        · exact Or.inl ⟨info,by rw [hnew,Function.update_of_ne hkd]; exact hin,ho,he⟩
      · exact Or.inr (hp.mono htick)

theorem Safe.next (hclock : Function.Injective clock) (op : LockOp) (hs : Safe clock s) :
    Safe clock (s.next clock op) := by
  have hout := s.next_outcome clock op
  generalize s.next clock op = t at hout ⊢
  cases hout with
  | acquired ha => exact hs.acquired hclock ha
  | released hhd hold ho =>
    exact hs.through hhd rfl rfl rfl (Nat.le_refl _) hold ho rfl (by simp) (by simp)
  | renewed hhd hr =>
    obtain ⟨old,info,hold,ho,hlocks,-,hio,hie⟩ := hr.entry
    exact hs.through hhd hr.key hr.owner hr.storeID hr.tick hold ho hlocks
      (by rintro _ ⟨⟩; exact hio) (fun _ => ⟨info,rfl,hie⟩)
  | quiet hstore htick hsub hgone =>
    refine hs.quiet hstore htick (fun key info h => ⟨info,hsub key info h,rfl⟩) ?_
    intro key old hold
    exact (hgone key old hold).imp_left fun h => ⟨old,h,rfl,rfl⟩

theorem Safe.run (hclock : Function.Injective clock) (ops : List LockOp) (hs : Safe clock s) :
    Safe clock (s.run clock ops) := by
  induction ops generalizing s with
  | nil => exact hs
  | cons op ops ih => exact ih (hs.next hclock op)

theorem Safe.live_entry (hs : Safe clock s) {t : Int} (ht : ∀ n < s.manager.tick, clock n ≤ t)
    {hd : Handle} (hmem : hd ∈ s.handles) (hlive : hd.Live t) :
    ∃ info, s.manager.locks hd.lock.lockKey = some info ∧ info.ownerID = hd.lock.ownerID := by
  rcases hs.held hd hmem hlive.1 with ⟨info,hin,ho,-⟩ | ⟨n,hn,hle⟩
  · exact ⟨info,hin,ho⟩
  · have := ht n hn
    have := hlive.2
    omega

/-- Without the entry neither operation gets past the owner check. -/
theorem releaseLock_of_not_owner {lock : DistributedLock}
    (hno : ∀ info, m.locks lock.lockKey = some info → info.ownerID ≠ lock.ownerID) :
    ∃ e, releaseLock lock m = .error e m := by
  have hw := wp_releaseLock lock m
  cases hx : releaseLock lock m with
  | ok a t =>
    obtain ⟨-,info,hin,ho⟩ := wp_ok hw hx
    exact (hno info hin ho).elim
  | error e t =>
    obtain ⟨rfl,-⟩ := wp_error hw hx
    exact ⟨e,rfl⟩

theorem renewLock_of_not_owner {lock : DistributedLock}
    (hno : ∀ info, m.locks lock.lockKey = some info → info.ownerID ≠ lock.ownerID) (ttl : Int) :
    ∃ e t, renewLock clock lock ttl m = .error e t ∧ t.locks = m.locks := by
  have hw := wp_renewLock clock lock ttl m
  cases hx : renewLock clock lock ttl m with
  | ok a t =>
    have hr := wp_ok hw hx
    obtain ⟨old,-,hold,ho,-⟩ := hr.entry
    exact (hno old hold ho).elim
  | error e t => exact ⟨e,t,rfl,(wp_error hw hx).1⟩

end Safe

/-- At every instant at most one handle of a key is live, and a handle that was
followed by another one for its key can neither release nor renew. -/
theorem one_live_handle_per_key (clock : Nat → Int) (hmono : ∀ n, clock n < clock (n+1))
    (storeID : String) (ops : List LockOp) (s : LockRun)
    (hrun : s = LockRun.run clock ops ⟨newLockManager storeID,[]⟩) :
    (∀ t, (∀ n < s.manager.tick, clock n ≤ t) → ∀ (i j : Nat) hi hj,
      s.handles[i]? = some hi → s.handles[j]? = some hj → hi.lock.lockKey = hj.lock.lockKey →
      hi.Live t → hj.Live t → i = j) ∧
    (∀ (i j : Nat) hi hj, i < j → s.handles[i]? = some hi → s.handles[j]? = some hj →
      hi.lock.lockKey = hj.lock.lockKey →
      (∃ e, releaseLock hi.lock s.manager = .error e s.manager) ∧
      ∀ ttl, ∃ e m, renewLock clock hi.lock ttl s.manager = .error e m ∧
        m.locks = s.manager.locks) := by
  have hs : Safe clock s :=
    hrun ▸ (safe_new clock storeID).run (strictMono_nat_of_lt_succ hmono).injective ops
  refine ⟨?_,?_⟩
  · intro t ht i j hi hj hhi hhj hkey hli hlj
    obtain ⟨info,hin,ho⟩ := hs.live_entry ht (List.mem_of_getElem? hhi) hli
    obtain ⟨info',hin',ho'⟩ := hs.live_entry ht (List.mem_of_getElem? hhj) hlj
    rw [hkey,hin'] at hin
    cases hin
    exact hs.distinct i j hi hj hhi hhj (ho.symm.trans ho')
  · intro i j hi hj hij hhi hhj hkey
    have hno : ∀ info, s.manager.locks hi.lock.lockKey = some info →
        info.ownerID ≠ hi.lock.ownerID := fun info => hs.latest i j hi hj info hij hhi hhj hkey
    exact ⟨releaseLock_of_not_owner hno,renewLock_of_not_owner hno⟩

/-- A lock that expires, is taken over, and is asked for through the old handle. -/
def takeover : List LockOp :=
  [.acquireLock "k" 2,.renewLock 0 3,.acquireLock "k" 9,.cleanup,.acquireLock "k" 9,
    .acquireLock "k" 9]

theorem one_live_handle_per_key_takeover :
    ∃ s hi hj, s = LockRun.run (fun n => n) takeover ⟨newLockManager "store_1",[]⟩ ∧
      s.handles[0]? = some hi ∧ s.handles[1]? = some hj ∧ hi.lock.lockKey = hj.lock.lockKey ∧
      ∃ e, releaseLock hi.lock s.manager = .error e s.manager := by
  have hkeys : ((LockRun.run (fun n => n) takeover ⟨newLockManager "store_1",[]⟩).handles.map
      (·.lock.lockKey)) = ["k","k"] := by decide +kernel
  obtain ⟨hi,rest,hcons,hki,hrest⟩ := List.map_eq_cons_iff.mp hkeys
  obtain ⟨hj,tail,rfl,hkj,-⟩ := List.map_eq_cons_iff.mp hrest
  refine ⟨_,hi,hj,rfl,by rw [hcons]; rfl,by rw [hcons]; rfl,hki.trans hkj.symm,?_⟩
  exact ((one_live_handle_per_key (fun n => n) (fun n => Int.ofNat_lt.mpr (Nat.lt_succ_self n))
    "store_1" takeover _ rfl).2 0 1 hi hj (by decide) (by rw [hcons]; rfl) (by rw [hcons]; rfl)
    (hki.trans hkj.symm)).1

end Imy.Lock
