import Mathlib.Data.List.Nodup
import Imy.Storage.Durability
import Imy.Storage.FailedSend
set_option autoImplicit false

namespace Imy.Storage
open Imy.Lib

/-- A store over several processes, failed calls included. `stored` is not in the
source: the messages that reached at least one timeline, one for each call. -/
structure Ledger where
  host : Host
  stored : List Message

/-- The message of the call is in one of its targets. -/
def SendCall.reached (env : Env) (s : SendCall) (h t : Host) : Bool :=
  s.targets.any fun r => (t.messages r).contains (s.message env h)

def Ledger.next (env : Env) : LifeOp → Ledger → Option Ledger
  | .send s, l =>
    let t := final (s.run env) l.host
    some ⟨t,if s.reached env l.host t then l.stored ++ [s.message env l.host] else l.stored⟩
  | .restart c, l =>
    match newStore env c l.host.disk l.host.tick l.host.births with
    | .ok t => some ⟨t,l.stored⟩
    | .error _ => none

def Ledger.run (env : Env) : List LifeOp → Ledger → Option Ledger
  | [], l => some l
  | op :: ops, l => (Ledger.next env op l).bind (Ledger.run env ops)

/-- Numbers go up in every timeline in memory and no two stored messages share one. -/
structure Sequenced (l : Ledger) : Prop where
  increasing : ∀ r, ((l.host.messages r).map (·.seqID)).Pairwise (· < ·)
  unique : (l.stored.map (·.seqID)).Nodup

structure Usage where
  closed : Nat
  now : Bool
  deriving DecidableEq, Repr

def Usage.total (u : Usage) : Nat := u.closed + u.now.toNat

def Usage.next : Usage → LifeOp → Usage
  | u, .send _ => ⟨u.closed,true⟩
  | u, .restart _ => ⟨u.total,false⟩

/-- In how many epochs of a run `AddMessage` is called. -/
def usedEpochs (ops : List LifeOp) : Nat := (ops.foldl Usage.next ⟨0,false⟩).total

theorem Usage.total_next (u : Usage) (op : LifeOp) : u.total ≤ (u.next op).total := by
  cases op with
  | send s => cases hu : u.now <;> simp [Usage.next,Usage.total,hu]
  | restart c => simp [Usage.next,Usage.total]

theorem Usage.total_foldl (u : Usage) (ops : List LifeOp) :
    u.total ≤ (ops.foldl Usage.next u).total := by
  induction ops generalizing u with
  | nil => exact Nat.le_refl _
  | cons op ops ih => exact Nat.le_trans (u.total_next op) (ih (u.next op))

/-- No call names a user twice. -/
def LifeOp.Distinct : LifeOp → Prop
  | .send s => s.userIDs.Nodup
  | .restart _ => True

def LifeOp.InDir (dir : String) : LifeOp → Prop
  | .send _ => True
  | .restart c => c.dataDir = dir

def LifeOp.PlainIDs : LifeOp → Prop
  | .send s => s.Plain
  | .restart _ => True

theorem SendCall.targets_nodup {s : SendCall} (h : s.userIDs.Nodup) : s.targets.Nodup := by
  rw [SendCall.targets,List.nodup_cons]
  refine ⟨by simp [SendCall.users,SendCall.conv],?_⟩
  refine h.map fun a b hab => ?_
  simpa using hab

/-- Everything stored so far has a number that was drawn. -/
structure Ordered (l : Ledger) : Prop where
  messages : ∀ r, ((l.host.messages r).map (·.seqID)).Pairwise (· < ·)
  drawn : ∀ r, ∀ m ∈ l.host.messages r, m.seqID ≤ l.host.store.seqGenerator
  stored : (l.stored.map (·.seqID)).Pairwise (· < ·)
  storedDrawn : ∀ m ∈ l.stored, m.seqID ≤ l.host.store.seqGenerator

theorem pairwise_concat {ms : List Message} {m : Message}
    (hp : (ms.map (·.seqID)).Pairwise (· < ·)) (hlt : ∀ a ∈ ms, a.seqID < m.seqID) :
    ((ms ++ [m]).map (·.seqID)).Pairwise (· < ·) := by
  rw [List.map_append,List.pairwise_append]
  refine ⟨hp,by simp,?_⟩
  intro a ha b hb
  obtain ⟨x,hx,rfl⟩ := List.mem_map.mp ha
  simp only [List.map_cons,List.map_nil,List.mem_singleton] at hb
  exact hb ▸ hlt x hx

theorem Ordered.send {l : Ledger} {c : StoreConfig} {env : Env} {s : SendCall}
    {done : List TimelineRef} {t : Host} (ho : Ordered l) (hd : s.userIDs.Nodup)
    (hpre : done <+: s.targets) (hsent : Delivered c (s.message env l.host) done l.host.drawn t) :
    Ordered ⟨t,if s.reached env l.host t then l.stored ++ [s.message env l.host]
      else l.stored⟩ := by
  have hgen : t.store.seqGenerator = l.host.store.seqGenerator+1 := by
    rw [hsent.generator,Host.drawn_store_seqGenerator]
  have hnew : (s.message env l.host).seqID = l.host.store.seqGenerator+1 := rfl
  have hnodup : done.Nodup := (SendCall.targets_nodup hd).sublist hpre.sublist
  have hmess : ∀ r, t.messages r = l.host.messages r ∨
      t.messages r = l.host.messages r ++ [s.message env l.host] := by
    intro r
    rw [hsent.messages r,Host.drawn_messages]
    by_cases hr : r ∈ done
    · rw [List.count_eq_one_of_mem hnodup hr]
      exact Or.inr rfl
    · rw [List.count_eq_zero.mpr hr]
      exact Or.inl (List.append_nil _)
  refine ⟨?_,?_,?_,?_⟩
  · intro r
    rcases hmess r with hm | hm
    · simpa only [hm] using ho.messages r
    · simp only [hm]
      refine pairwise_concat (ho.messages r) fun a ha => ?_
      have := ho.drawn r a ha
      omega
  · intro r m hm
    simp only [hgen]
    rcases hmess r with he | he
    · have := ho.drawn r m (he ▸ hm)
      omega
    · rcases List.mem_append.mp (he ▸ hm) with hm | hm
      · have := ho.drawn r m hm
        omega
      · rw [List.mem_singleton.mp hm,hnew]
  · simp only
    split
    · refine pairwise_concat ho.stored fun a ha => ?_
      have := ho.storedDrawn a ha
      omega
    · exact ho.stored
  · intro m hm
    simp only [hgen]
    simp only at hm
    split at hm
    · rcases List.mem_append.mp hm with hm | hm
      · have := ho.storedDrawn m hm
        omega
      · rw [List.mem_singleton.mp hm,hnew]
    · have := ho.storedDrawn m hm
      omega

inductive Phase (env : Env) (dir : String) : Usage → Ledger → Prop where
  | before {c : StoreConfig} {disk : Path → Option FileData} {tick : Nat}
      {births : List (TimelineRef × Int)} {h : Host}
      (opened : newStore env c disk tick births = .ok h) (empty : EmptyDir c disk)
      (same : c.dataDir = dir) : Phase env dir ⟨0,false⟩ ⟨h,[]⟩
  | within {c : StoreConfig} {l : Ledger} (tidy : Tidy c l.host) (ordered : Ordered l) :
      Phase env dir ⟨0,true⟩ l
  | after {l : Ledger} (none : ∀ r, l.host.store.find r = none)
      (unique : (l.stored.map (·.seqID)).Nodup) : Phase env dir ⟨1,false⟩ l

section Phase
variable {env : Env} {dir : String} {l l' : Ledger}

theorem nodup_of_increasing {ns : List Int} (h : ns.Pairwise (· < ·)) : ns.Nodup :=
  h.imp Int.ne_of_lt

theorem Host.messages_of_find_none {h : Host} {r : TimelineRef} (hf : h.store.find r = none) :
    h.messages r = [] := by
  rw [Host.messages_eq_views,Host.views_of_find_none hf]
  rfl

theorem Ordered.opened {c : StoreConfig} {disk : Path → Option FileData} {tick : Nat}
    {births : List (TimelineRef × Int)} {h : Host} (ho : newStore env c disk tick births = .ok h) :
    Ordered ⟨h,[]⟩ := by
  have hnone : ∀ r, h.messages r = [] := fun r =>
    Host.messages_of_find_none ((newStore_ok ho).2.1 r)
  exact ⟨fun r => by simp [hnone r],fun r m hm => by simp [hnone r] at hm,by simp,by simp⟩

theorem Phase.sequenced {u : Usage} (hp : Phase env dir u l) : Sequenced l := by
  cases hp with
  | before opened empty hdir =>
    have ho := Ordered.opened opened
    exact ⟨ho.messages,nodup_of_increasing ho.stored⟩
  | within tidy ordered => exact ⟨ordered.messages,nodup_of_increasing ordered.stored⟩
  | after none unique =>
    exact ⟨fun r => by simp [Host.messages_of_find_none (none r)],unique⟩

theorem phase_send {c : StoreConfig} {s : SendCall} (tidy : Tidy c l.host) (ordered : Ordered l)
    (hplain : s.Plain) (hd : s.userIDs.Nodup) (hn : Ledger.next env (.send s) l = some l') :
    Phase env dir ⟨0,true⟩ l' := by
  cases hn
  have hw := wp_send_tidy env s tidy hplain
  have hsent : ∃ done, done <+: s.targets ∧
      Delivered c (s.message env l.host) done l.host.drawn (final (s.run env) l.host) :=
    final_of_wp (wp_mono hw (fun _ t ht => ⟨s.targets,List.prefix_rfl,ht⟩) (fun _ _ he => he))
  obtain ⟨done,hpre,hdel⟩ := hsent
  exact .within hdel.tidy (ordered.send hd hpre hdel)

theorem Phase.next {u : Usage} {op : LifeOp} (hp : Phase env dir u l) (hop : op.PlainIDs)
    (hd : op.Distinct) (hdir : op.InDir dir) (hu : (u.next op).total ≤ 1)
    (hn : Ledger.next env op l = some l') : Phase env dir (u.next op) l' := by
  cases op with
  | send s =>
    cases hp with
    | before opened empty hdir' =>
      exact phase_send (Tidy.newStore opened empty) (Ordered.opened opened) hop hd hn
    | within tidy ordered => exact phase_send tidy ordered hop hd hn
    | after none unique => simp [Usage.next,Usage.total] at hu
  | restart c =>
    simp only [Ledger.next] at hn
    split at hn
    · rename_i t ht
      cases hn
      have hfresh := (newStore_ok ht).2.1
      cases hp with
      | before opened empty hdir' =>
        -- nothing was written, so the directory is as empty as it was
        rw [(newStore_ok opened).2.2.1] at ht
        refine .before ht ?_ hdir
        intro n hpn
        have hsame : c.dataDir = _ := (show c.dataDir = dir from hdir).trans hdir'.symm
        rw [hsame]
        exact empty n hpn
      | within tidy ordered => exact .after hfresh (nodup_of_increasing ordered.stored)
      | after none unique => exact .after hfresh unique
    · cases hn

theorem Phase.run {u : Usage} (hp : Phase env dir u l) (ops : List LifeOp)
    (hplain : ∀ op ∈ ops, op.PlainIDs) (hd : ∀ op ∈ ops, op.Distinct)
    (hdir : ∀ op ∈ ops, op.InDir dir) (hu : (ops.foldl Usage.next u).total ≤ 1)
    (hrun : Ledger.run env ops l = some l') : Phase env dir (ops.foldl Usage.next u) l' := by
  induction ops generalizing u l with
  | nil =>
    cases hrun
    exact hp
  | cons op ops ih =>
    obtain ⟨m,hm,hrest⟩ := Option.bind_eq_some_iff.mp hrun
    have hfirst := Nat.le_trans ((u.next op).total_foldl ops) hu
    have hnext := hp.next (hplain op (by simp)) (hd op (by simp)) (hdir op (by simp)) hfirst hm
    exact ih hnext (fun o ho => hplain o (by simp [ho])) (fun o ho => hd o (by simp [ho]))
      (fun o ho => hdir o (by simp [ho])) hu hrest

end Phase

def LifeOp.HasRoom : LifeOp → Prop
  | .send _ => True
  | .restart c => 1 ≤ c.maxCapacity

structure Repeating (u : Usage) (l : Ledger) : Prop where
  pointed : l.host.Pointed
  room : 1 ≤ l.host.store.config.maxCapacity
  fresh : u.now = false → l.host.store.seqGenerator = 0 ∧ l.host.store.currentCapacity = 0
  one : 1 ≤ u.total → 1 ∈ l.stored.map (·.seqID)
  twice : 2 ≤ u.total → ¬ (l.stored.map (·.seqID)).Nodup

section Repeating
variable {env : Env} {u : Usage} {l l' : Ledger}

theorem Sent.reached {s : SendCall} {h t : Host} {done : List TimelineRef}
    (hs : Sent (s.message env h) done h t) (hpre : done <+: s.targets) (hne : done ≠ []) :
    s.reached env h t = true := by
  obtain ⟨r,rest,rfl⟩ := List.exists_cons_of_ne_nil hne
  have hr : r ∈ r :: rest := by simp
  have hmem : ∀ old, t.messages r =
      old ++ List.replicate ((r :: rest).count r) (s.message env h) →
      s.message env h ∈ t.messages r := by
    intro old hold
    rw [hold,List.mem_append,List.mem_replicate]
    exact Or.inr ⟨Nat.ne_of_gt (List.count_pos_iff.mpr hr),rfl⟩
  refine List.any_eq_true.mpr ⟨r,hpre.subset hr,List.contains_iff_mem.mpr ?_⟩
  cases hf : h.store.find r with
  | some tl => exact hmem _ (hs.known r (by simp [hf]))
  | none =>
    obtain ⟨-,old,-,-,hold⟩ := hs.loaded r hf (hs.found r (Or.inr hr))
    exact hmem old hold

/-- Any call leaves the store pointed; the first of an epoch stores its message. -/
theorem send_reached (env : Env) (s : SendCall) {h : Host} (hp : h.Pointed) :
    (final (s.run env) h).Pointed ∧
      (final (s.run env) h).store.config = h.store.config ∧
      (h.store.currentCapacity < h.store.config.maxCapacity →
        s.reached env h (final (s.run env) h) = true) := by
  refine final_of_wp (P := fun t => t.Pointed ∧ t.store.config = h.store.config ∧
    (h.store.currentCapacity < h.store.config.maxCapacity → s.reached env h t = true))
    (wp_mono (wp_send_sent env s hp) ?_ ?_)
  · intro _ t ht
    exact ⟨ht.pointed,ht.config,fun _ => ht.reached List.prefix_rfl (by simp [SendCall.targets])⟩
  · rintro e t ⟨done,⟨hpre,hwhy⟩,ht,-⟩
    refine ⟨ht.pointed,ht.config,fun hroom => ht.reached hpre ?_⟩
    rcases hwhy with ⟨-,-,hcap⟩ | ⟨-,hne⟩
    · intro hnil
      have := (hcap hnil).1
      omega
    · exact hne

theorem Repeating.send {s : SendCall} (hr : Repeating u l)
    (hn : Ledger.next env (.send s) l = some l') : Repeating (u.next (.send s)) l' := by
  cases hn
  obtain ⟨hpointed,hconfig,hreached⟩ := send_reached env s hr.pointed
  refine ⟨hpointed,by rw [hconfig]; exact hr.room,by simp [Usage.next],?_,?_⟩
  · intro _
    cases hnow : u.now with
    | true =>
      have hone := hr.one (by simp [Usage.total,hnow])
      split
      · rw [List.map_append]
        exact List.mem_append_left _ hone
      · exact hone
    | false =>
      obtain ⟨hgen,hcap⟩ := hr.fresh hnow
      have hroom := hr.room
      rw [if_pos (hreached (by omega))]
      simp [SendCall.message,hgen]
  · intro htwo
    cases hnow : u.now with
    | true =>
      have hdup := hr.twice (by simpa [Usage.next,Usage.total,hnow] using htwo)
      split
      · intro hnodup
        rw [List.map_append,List.nodup_append] at hnodup
        exact hdup hnodup.1
      · exact hdup
    | false =>
      obtain ⟨hgen,hcap⟩ := hr.fresh hnow
      have hroom := hr.room
      have hone := hr.one (by simpa [Usage.next,Usage.total,hnow] using htwo)
      rw [if_pos (hreached (by omega)),List.map_append,List.nodup_append]
      rintro ⟨-,-,hdisj⟩
      exact hdisj 1 hone 1 (by simp [SendCall.message,hgen]) rfl

theorem Repeating.restart {c : StoreConfig} (hr : Repeating u l) (hroom : 1 ≤ c.maxCapacity)
    (hn : Ledger.next env (.restart c) l = some l') : Repeating (u.next (.restart c)) l' := by
  simp only [Ledger.next] at hn
  split at hn
  · rename_i t ht
    cases hn
    obtain ⟨hc,hf,-,-,hgen,-,hcap⟩ := newStore_ok ht
    have htotal : (u.next (.restart c)).total = u.total := by simp [Usage.next,Usage.total]
    refine ⟨?_,by rw [hc]; exact hroom,fun _ => ⟨hgen,hcap⟩,htotal ▸ hr.one,htotal ▸ hr.twice⟩
    intro r
    rw [Host.timeline,hf r]
    exact Timeline.pointed_fresh
  · cases hn

theorem Repeating.run (hr : Repeating u l) (ops : List LifeOp) (hroom : ∀ op ∈ ops, op.HasRoom)
    (hrun : Ledger.run env ops l = some l') : Repeating (ops.foldl Usage.next u) l' := by
  induction ops generalizing u l with
  | nil =>
    cases hrun
    exact hr
  | cons op ops ih =>
    obtain ⟨m,hm,hrest⟩ := Option.bind_eq_some_iff.mp hrun
    have hop := hroom op (by simp)
    refine ih ?_ (fun o ho => hroom o (by simp [ho])) hrest
    cases op with
    | send s => exact hr.send hm
    | restart c => exact hr.restart hop hm

end Repeating

/-- Numbers stay unique and increasing when all calls of a run fall into one
epoch. As soon as a second epoch is used they do not, since its first call draws
1 again; for that the store needs room for a block. -/
theorem sequenced_iff_one_epoch (env : Env) (c : StoreConfig) (disk : Path → Option FileData)
    (tick : Nat) (births : List (TimelineRef × Int)) (h : Host) (ops : List LifeOp) (l : Ledger)
    (hopen : newStore env c disk tick births = .ok h) (hempty : EmptyDir c disk)
    (hdir : ∀ op ∈ ops, op.InDir c.dataDir) (hdistinct : ∀ op ∈ ops, op.Distinct)
    (hrun : Ledger.run env ops ⟨h,[]⟩ = some l) :
    ((∀ op ∈ ops, op.PlainIDs) → usedEpochs ops ≤ 1 → Sequenced l) ∧
      (1 ≤ c.maxCapacity → (∀ op ∈ ops, op.HasRoom) → Sequenced l → usedEpochs ops ≤ 1) := by
  refine ⟨fun hplain hone => ?_,fun hcap hroom hs => ?_⟩
  · exact (Phase.run (.before hopen hempty rfl) ops hplain hdistinct hdir hone hrun).sequenced
  · obtain ⟨hc,hf,-,-,hgen,-,hzero⟩ := newStore_ok hopen
    have hstart : Repeating ⟨0,false⟩ ⟨h,[]⟩ :=
      ⟨(Tidy.newStore hopen hempty).pointed,by rw [hc]; exact hcap,fun _ => ⟨hgen,hzero⟩,
        by simp [Usage.total],by simp [Usage.total]⟩
    by_contra hmore
    exact (hstart.run ops hroom hrun).twice (Nat.lt_of_not_le hmore) hs.unique

/-- Every block is full at once, so that the next process finds all messages. -/
def singleBlocks : StoreConfig := ⟨100,1,"data"⟩

theorem sequenced_iff_one_epoch_two_sends :
    ∃ l, Ledger.run Env.steady [.restart singleBlocks,.send ⟨"c",1,[1],["u"]⟩,
        .send ⟨"d",2,[2],["u"]⟩,.restart singleBlocks] ⟨Host.steady singleBlocks,[]⟩ = some l ∧
      Sequenced l := by
  have hsome : (Ledger.run Env.steady [.restart singleBlocks,.send ⟨"c",1,[1],["u"]⟩,
      .send ⟨"d",2,[2],["u"]⟩,.restart singleBlocks]
          ⟨Host.steady singleBlocks,[]⟩).isSome = true := by
    decide +kernel
  obtain ⟨l,hrun⟩ := Option.isSome_iff_exists.mp hsome
  refine ⟨l,hrun,?_⟩
  refine (sequenced_iff_one_epoch Env.steady singleBlocks (fun _ => none) 0 [] _ _ l
    (newStore_steady singleBlocks) (fun _ _ => rfl) ?_ ?_ hrun).1 ?_ (by decide)
  · simp [LifeOp.InDir]
  · simp [LifeOp.Distinct]
  · simp only [List.forall_mem_cons,LifeOp.PlainIDs]
    refine ⟨trivial,by decide,by decide,trivial,by simp⟩

/-- One call in each of two processes: the conversation has two different
messages with number 1. -/
theorem second_process_repeats_numbers :
    ∃ l, Ledger.run Env.steady [.send ⟨"c",1,[1],["u"]⟩,.restart singleBlocks,
        .send ⟨"c",2,[2],["u"]⟩] ⟨Host.steady singleBlocks,[]⟩ = some l ∧
      (l.host.messages ⟨.conv,"c"⟩).map (fun m => (m.seqID,m.data)) = [(1,[1]),(1,[2])] ∧
      l.stored = l.host.messages ⟨.conv,"c"⟩ ∧ ¬ Sequenced l := by
  have hany : (Ledger.run Env.steady [.send ⟨"c",1,[1],["u"]⟩,.restart singleBlocks,
      .send ⟨"c",2,[2],["u"]⟩] ⟨Host.steady singleBlocks,[]⟩).any (fun l => decide
        ((l.host.messages ⟨.conv,"c"⟩).map (fun m => (m.seqID,m.data)) = [(1,[1]),(1,[2])] ∧
        l.stored = l.host.messages ⟨.conv,"c"⟩ ∧ ¬ (l.stored.map (·.seqID)).Nodup)) = true := by
    decide +kernel
  obtain ⟨l,hrun,hl⟩ := (Option.any_eq_true _ _).mp hany
  obtain ⟨hmess,hstored,hdup⟩ := of_decide_eq_true hl
  exact ⟨l,hrun,hmess,hstored,fun hs => hdup hs.unique⟩

end Imy.Storage
