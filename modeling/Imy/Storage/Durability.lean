import Imy.Storage.CrashImage
set_option autoImplicit false

namespace Imy.Storage
open Imy.Lib

inductive LifeOp where
  | send (s : SendCall)
  | restart (config : StoreConfig)
  deriving DecidableEq, Repr

/-- A store over several processes. `past` and `log` are not in the source: they
record what was sent in each epoch that is over and in the present one. -/
structure Life where
  host : Host
  past : List (List (Entry TimelineRef Message))
  log : List (Entry TimelineRef Message)

/-- One step in which nothing fails. -/
def Life.next (env : Env) : LifeOp → Life → Option Life
  | .send s, l =>
    match s.run env l.host with
    | .ok _ t => some ⟨t,l.past,l.log ++ [⟨s.message env l.host,s.targets⟩]⟩
    | .error _ _ => none
  | .restart c, l =>
    match newStore env c l.host.disk l.host.tick l.host.births with
    | .ok t => some ⟨t,l.past ++ [l.log],[]⟩
    | .error _ => none

def Life.run (env : Env) : List LifeOp → Life → Option Life
  | [], l => some l
  | op :: ops, l => (Life.next env op l).bind (Life.run env ops)

/-- Calls have plain IDs; restarts keep the directory and the block size. -/
def LifeOp.Proper (dir : String) (k : Nat) : LifeOp → Prop
  | .send s => s.Plain
  | .restart c => c.dataDir = dir ∧ c.timelineMaxSize = k

instance (dir : String) (k : Nat) : DecidablePred (LifeOp.Proper dir k)
  | .send s => inferInstanceAs (Decidable s.Plain)
  | .restart c => inferInstanceAs (Decidable (c.dataDir = dir ∧ c.timelineMaxSize = k))

def durable (k : Nat) (past : List (List (Entry TimelineRef Message))) (r : TimelineRef) :
    List Message :=
  past.flatMap fun log => fullPrefix k (topicLog log r)

/-- The invariant of a life. -/
structure Kept (dir : String) (k : Nat) (l : Life) : Prop where
  underway : Underway dir k (durable k l.past) (topicLog l.log) (fun _ => False) [] l.host
  positive : ∀ e ∈ l.log, 0 < e.body.seqID

section Kept
variable {dir : String} {k : Nat} {l l' : Life} {env : Env}

theorem Kept.send {s : SendCall} (hl : Kept dir k l) (hk : 1 ≤ k) (hp : s.Plain)
    (hreads : ∀ n, env.readFault n = false) (hn : Life.next env (.send s) l = some l') :
    Kept dir k l' := by
  simp only [Life.next] at hn
  split at hn
  · rename_i t hrun
    cases hn
    have hu := wp_ok (wp_send_shelved env s hk hp hreads hl.underway) hrun
    refine ⟨?_,?_⟩
    · have hlog : topicLog (l.log ++ [⟨s.message env l.host,s.targets⟩]) = fun r =>
          topicLog l.log r ++ List.replicate (s.targets.count r) (s.message env l.host) := by
        funext r
        simp
      rw [hlog]
      exact hu
    · intro e he
      rcases List.mem_append.mp he with he | he
      · exact hl.positive e he
      · have hseq := hl.underway.seq
        rw [List.mem_singleton] at he
        subst he
        simp only [SendCall.message]
        omega
  · cases hn

theorem Kept.restart {c : StoreConfig} (hl : Kept dir k l) (hk : 1 ≤ k) (hdir : c.dataDir = dir)
    (hsize : c.timelineMaxSize = k) (hn : Life.next env (.restart c) l = some l') :
    Kept dir k l' := by
  simp only [Life.next] at hn
  split at hn
  · rename_i t hopen
    cases hn
    obtain ⟨hc,hf,-,hb,hs,-⟩ := newStore_ok hopen
    refine ⟨⟨by rw [hc,hdir],?_,by simp [hs],by simp,?_⟩,by simp⟩
    · intro r
      rw [Host.timeline,hf r]
      exact Timeline.pointed_fresh
    · intro hnodup
      have hshelved := (hl.underway.shelved (hb ▸ hnodup)).restart hk hopen
        (hdir.trans hl.underway.dir.symm) hsize
      have hpast : durable k (l.past ++ [l.log]) = fun r =>
          durable k l.past r ++ fullPrefix k (topicLog l.log r) := by
        funext r
        simp [durable]
      rw [hpast]
      exact hshelved
  · cases hn

theorem Kept.run (hl : Kept dir k l) (hk : 1 ≤ k) (hreads : ∀ n, env.readFault n = false)
    (ops : List LifeOp) (hp : ∀ op ∈ ops, op.Proper dir k)
    (hrun : Life.run env ops l = some l') : Kept dir k l' := by
  induction ops generalizing l with
  | nil =>
    cases hrun
    exact hl
  | cons op ops ih =>
    obtain ⟨m,hm,hrest⟩ := Option.bind_eq_some_iff.mp hrun
    have hop := hp op (by simp)
    refine ih ?_ (fun op' h' => hp op' (by simp [h'])) hrest
    cases op with
    | send s => exact hl.send hk hop hreads hm
    | restart c => exact hl.restart hk hop.1 hop.2 hm

theorem Kept.opened {c : StoreConfig} {disk : Path → Option FileData} {tick : Nat} {h : Host}
    (ho : newStore env c disk tick [] = .ok h) (he : EmptyDir c disk)
    (hsize : c.timelineMaxSize = k) : Kept c.dataDir k ⟨h,[],[]⟩ := by
  obtain ⟨hc,-,-,-,hs,-⟩ := newStore_ok ho
  exact ⟨⟨by rw [hc],(Tidy.newStore ho he).pointed,by simp [hs],by simp,
    fun _ => Shelved.newStore ho he hsize⟩,by simp⟩

/-- The next process loads what its predecessors made durable. -/
theorem Kept.loaded {c : StoreConfig} {t : Host} {r : TimelineRef} (hl : Kept dir k l) (hk : 1 ≤ k)
    (hb : l.host.births.Nodup) (hreads : ∀ n, env.readFault n = false)
    (ho : newStore env c l.host.disk l.host.tick l.host.births = .ok t) (hdir : c.dataDir = dir)
    (hr : r.Plain) :
    wp (getOrCreateTimeline env r)
      (fun _ u => u.messages r = durable k (l.past ++ [l.log]) r ∧
        (∀ v ∈ u.views r, ClosedBlock k r t v) ∧
        u.store.userCheckpoints = t.store.userCheckpoints) (fun _ _ => False) t := by
  obtain ⟨hc,hf,hd,hbirths,-⟩ := newStore_ok ho
  have hdisk := ((hl.underway.shelved hb).onDisk hk hr).reopen hd hbirths
    (by rw [hc,hdir,hl.underway.dir])
  refine wp_mono (wp_getOrCreateTimeline env r t) ?_ (fun _ _ he => he)
  rintro _ u (⟨hfound,-⟩ | ⟨-,hload⟩)
  · rw [hf r] at hfound
    cases hfound
  · have hviews := (hdisk.loaded hreads hload).1
    refine ⟨?_,?_,hload.checkpoints⟩
    · rw [Host.messages_eq_views,hviews,hdisk.past]
      simp [durable]
    · intro v hv
      exact hdisk.closed (hviews ▸ hv)

/-- At any point of a life a timeline holds what the closed epochs left of it,
then what this epoch has appended. -/
theorem Kept.touched {r : TimelineRef} (hl : Kept dir k l) (hb : l.host.births.Nodup)
    (hreads : ∀ n, env.readFault n = false) (hr : r.Plain) :
    wp (getOrCreateTimeline env r)
      (fun _ u => u.messages r = durable k l.past r ++ topicLog l.log r ∧
        (l.host.store.find r = none → ∀ v ∈ u.views r, ClosedBlock k r l.host v))
      (fun _ _ => False) l.host := by
  have hs := hl.underway.shelved hb
  refine wp_mono (wp_getOrCreateTimeline env r l.host) ?_ (fun _ _ he => he)
  rintro _ u (⟨hfound,rfl⟩ | ⟨hnone,hload⟩)
  · obtain ⟨⟨old,new,rest,hc⟩,-⟩ := hs.present r hr hfound
    refine ⟨?_,fun hn => by simp [hn] at hfound⟩
    rw [Host.messages_eq_views,hc.views,← hc.past,← hc.cur]
    simp
  · obtain ⟨hcur,hd⟩ := hs.absent r hr hnone
    have hviews := (hd.loaded hreads hload).1
    refine ⟨?_,fun _ v hv => hd.closed (hviews ▸ hv)⟩
    rw [Host.messages_eq_views,hviews,hd.past,hcur,List.append_nil]

end Kept

/-- The crash image. A life is any run of successful calls and restarts; `l.past`
has one log for each epoch that a restart has ended, and `l.log` is empty right
after a restart. -/
theorem timeline_after_restarts (env : Env) (c : StoreConfig) (k : Nat)
    (disk : Path → Option FileData) (tick : Nat) (h : Host) (ops : List LifeOp) (l : Life)
    (hk : 1 ≤ k) (hsize : c.timelineMaxSize = k) (hopen : newStore env c disk tick [] = .ok h)
    (hempty : EmptyDir c disk) (hproper : ∀ op ∈ ops, op.Proper c.dataDir k)
    (hreads : ∀ n, env.readFault n = false) (hrun : Life.run env ops ⟨h,[],[]⟩ = some l)
    (hbirths : l.host.births.Nodup) (r : TimelineRef) (hr : r.Plain) :
    ∃ u, getOrCreateTimeline env r l.host = .ok () u ∧
      u.messages r = (l.past.flatMap fun log => fullPrefix k (topicLog log r)) ++
        topicLog l.log r ∧
      (l.host.store.find r = none → ∀ b ∈ (u.timeline r).blocks,
        b.isFull = true ∧ b.messages.length = k ∧ ∃ nano, b.blockID = r.blockID nano) := by
  have hl := (Kept.opened hopen hempty hsize).run hk hreads ops hproper hrun
  obtain ⟨_,u,hu,hm,hv⟩ := eq_ok_of_wp (hl.touched hbirths hreads hr)
  refine ⟨u,hu,hm,fun hn b hb => ?_⟩
  have hc := hv hn b.view (List.mem_map_of_mem hb)
  obtain ⟨nano,hid,-⟩ := hc.named
  exact ⟨hc.full,hc.length,nano,hid⟩

/-- A run with a partial block in each epoch. -/
def twoEpochs : List LifeOp :=
  [.send ⟨"c",1,[1],["u","v"]⟩,.send ⟨"c",2,[2],["u"]⟩,.send ⟨"c",1,[3],["u","u"]⟩,
    .restart ⟨50,2,"data"⟩,.send ⟨"c",1,[4],["v"]⟩,.send ⟨"c",2,[5],["u"]⟩,
    .restart smallBlocks]

theorem timeline_after_restarts_twoEpochs :
    ∃ l u, Life.run Env.steady twoEpochs ⟨Host.steady smallBlocks,[],[]⟩ = some l ∧
      getOrCreateTimeline Env.steady ⟨.user,"u"⟩ l.host = .ok () u ∧
      u.messages ⟨.user,"u"⟩ = (l.past.flatMap fun log =>
        fullPrefix 2 (topicLog log ⟨.user,"u"⟩)) ++ topicLog l.log ⟨.user,"u"⟩ := by
  have hany : (Life.run Env.steady twoEpochs ⟨Host.steady smallBlocks,[],[]⟩).any
      (fun l => decide l.host.births.Nodup) = true := by decide +kernel
  obtain ⟨l,hrun,hb⟩ := (Option.any_eq_true _ _).mp hany
  obtain ⟨u,hu,hm,-⟩ := timeline_after_restarts Env.steady smallBlocks 2 (fun _ => none) 0
    (Host.steady smallBlocks) twoEpochs l (by decide) rfl (newStore_steady smallBlocks)
    (fun _ _ => rfl) (by decide)
    (fun _ => rfl) hrun (of_decide_eq_true hb) ⟨.user,"u"⟩ (by decide)
  exact ⟨l,u,hrun,hu,hm⟩

theorem collectBack_all {limit : Int} (older : List Message) (count : Int) (result : List Message)
    (hl : count + older.length ≤ limit) :
    collectBack limit 0 older count result = older.reverse ++ result := by
  induction older generalizing count result with
  | nil => rfl
  | cons m older ih =>
    have hlt : count < limit := by
      simp only [List.length_cons] at hl
      omega
    rw [collectBack,if_pos hlt,if_pos (Or.inl rfl),ih]
    · simp
    · simp only [List.length_cons] at hl
      omega

/-- How often a list of calls appends to a timeline. -/
def appendCount (calls : List SendCall) (r : TimelineRef) : Nat :=
  (calls.map fun s => s.targets.count r).sum

/-- A reopened store gives back everything in `log`. -/
structure Durable (env : Env) (log : List (Entry TimelineRef Message)) (t : Host) : Prop where
  conv : ∀ (convID : String) (limit : Int), (TimelineRef.mk .conv convID).Plain →
    (topicLog log ⟨.conv,convID⟩).length ≤ limit →
    ∃ u, getConvMessages env convID limit 0 t = .ok (topicLog log ⟨.conv,convID⟩) u
  user : ∀ userID, (TimelineRef.mk .user userID).Plain →
    ∃ u, getMessagesAfterCheckpoint env userID t = .ok (topicLog log ⟨.user,userID⟩) u

theorem appendCount_of_not_target {calls : List SendCall} {r : TimelineRef}
    (h : ¬ ∃ s ∈ calls, r ∈ s.targets) : appendCount calls r = 0 := by
  rw [appendCount,List.sum_eq_zero_iff_forall_eq_nat]
  intro n hn
  obtain ⟨s,hs,rfl⟩ := List.mem_map.mp hn
  exact List.count_eq_zero.mpr fun hr => h ⟨s,hs,hr⟩

theorem topicLog_length (log : List (Entry TimelineRef Message)) (r : TimelineRef) :
    (topicLog log r).length = (log.map fun e => e.topics.count r).sum := by
  simp [topicLog,List.length_flatMap]

/-- The log of an epoch names the targets of its calls. -/
theorem Life.run_sends {env : Env} (calls : List SendCall) {l l' : Life}
    (hrun : Life.run env (calls.map .send) l = some l') :
    l'.past = l.past ∧ l'.log.map (·.topics) = l.log.map (·.topics) ++ calls.map (·.targets) := by
  induction calls generalizing l with
  | nil =>
    cases hrun
    simp
  | cons s calls ih =>
    obtain ⟨m,hm,hrest⟩ := Option.bind_eq_some_iff.mp hrun
    obtain ⟨hpast,hlog⟩ := ih hrest
    simp only [Life.next] at hm
    split at hm
    · cases hm
      exact ⟨hpast,by simpa using hlog⟩
    · cases hm

theorem Life.run_sends_length {env : Env} {calls : List SendCall} {h : Host} {l : Life}
    (hrun : Life.run env (calls.map .send) ⟨h,[],[]⟩ = some l) (r : TimelineRef) :
    (topicLog l.log r).length = appendCount calls r := by
  have hlog := (Life.run_sends calls hrun).2
  have hcount := congrArg (fun ts => (ts.map fun t : List TimelineRef => t.count r).sum) hlog
  rw [topicLog_length]
  simpa [appendCount,Function.comp_def] using hcount

section Reopened
variable {dir : String} {k : Nat} {l : Life} {env : Env} {c : StoreConfig} {t : Host}

/-- What the two read functions return on a store opened after one epoch. -/
theorem Kept.getConvMessages (hl : Kept dir k l) (hk : 1 ≤ k) (hb : l.host.births.Nodup)
    (hreads : ∀ n, env.readFault n = false)
    (ho : newStore env c l.host.disk l.host.tick l.host.births = .ok t) (hdir : c.dataDir = dir)
    (hpast : l.past = []) {convID : String} (hr : (TimelineRef.mk .conv convID).Plain) {limit : Int}
    (hlimit : (topicLog l.log ⟨.conv,convID⟩).length ≤ limit) :
    wp (Storage.getConvMessages env convID limit 0)
      (fun ms _ => ms = fullPrefix k (topicLog l.log ⟨.conv,convID⟩)) (fun _ _ => False) t := by
  simp only [Storage.getConvMessages,getOrCreateConvTimeline,wp_bind,wp_get,wp_pure]
  refine wp_mono (hl.loaded hk hb hreads ho hdir hr) ?_ (fun _ _ he => he)
  rintro _ u ⟨hm,-,-⟩
  have hmess : (u.timeline ⟨.conv,convID⟩).messages =
      fullPrefix k (topicLog l.log ⟨.conv,convID⟩) := by
    simpa [durable,hpast,Host.messages] using hm
  have hle := (fullPrefix_initial k (topicLog l.log ⟨.conv,convID⟩)).length_le
  rw [hmess,collectBack_all]
  · simp
  · simp only [List.length_reverse]
    omega

theorem Kept.getMessagesAfterCheckpoint (hl : Kept dir k l) (hk : 1 ≤ k) (hb : l.host.births.Nodup)
    (hreads : ∀ n, env.readFault n = false)
    (ho : newStore env c l.host.disk l.host.tick l.host.births = .ok t) (hdir : c.dataDir = dir)
    (hpast : l.past = []) {userID : String} (hr : (TimelineRef.mk .user userID).Plain) :
    wp (Storage.getMessagesAfterCheckpoint env userID)
      (fun ms _ => ms = fullPrefix k (topicLog l.log ⟨.user,userID⟩)) (fun _ _ => False) t := by
  obtain ⟨-,-,-,-,-,hcheck,-⟩ := newStore_ok ho
  simp only [Storage.getMessagesAfterCheckpoint,getUserCheckpoint,getOrCreateUserTimeline,wp_bind,
    wp_get,wp_pure]
  refine wp_mono (hl.loaded hk hb hreads ho hdir hr) ?_ (fun _ _ he => he)
  rintro _ u ⟨hm,-,-⟩
  have hmess : (u.timeline ⟨.user,userID⟩).messages =
      fullPrefix k (topicLog l.log ⟨.user,userID⟩) := by
    simpa [durable,hpast,Host.messages] using hm
  rw [hmess,hcheck,List.filter_eq_self]
  intro m hmem
  obtain ⟨e,he,-,rfl⟩ := mem_topicLog.mp ((fullPrefix_initial k _).subset hmem)
  simpa using hl.positive e he

end Reopened

/-- One epoch, then a restart: nothing is missing exactly if every conversation
and every user was appended to a multiple of `TimelineMaxSize` times. -/
theorem durable_iff_blocks_filled (env : Env) (c c' : StoreConfig) (k : Nat)
    (disk : Path → Option FileData) (tick : Nat) (h t : Host) (calls : List SendCall) (l : Life)
    (hk : 1 ≤ k) (hsize : c.timelineMaxSize = k) (hopen : newStore env c disk tick [] = .ok h)
    (hempty : EmptyDir c disk) (hplain : ∀ s ∈ calls, s.Plain)
    (hreads : ∀ n, env.readFault n = false)
    (hrun : Life.run env (calls.map .send) ⟨h,[],[]⟩ = some l) (hbirths : l.host.births.Nodup)
    (hdir : c'.dataDir = c.dataDir)
    (hreopen : newStore env c' l.host.disk l.host.tick l.host.births = .ok t) :
    Durable env l.log t ↔ ∀ s ∈ calls, ∀ r ∈ s.targets, k ∣ appendCount calls r := by
  have hproper : ∀ op ∈ calls.map LifeOp.send, op.Proper c.dataDir k := by
    intro op hop
    obtain ⟨s,hs,rfl⟩ := List.mem_map.mp hop
    exact hplain s hs
  have hl := (Kept.opened hopen hempty hsize).run hk hreads _ hproper hrun
  have hpast : l.past = [] := (Life.run_sends calls hrun).1
  constructor
  · intro hd s hs r hr
    have hp := hplain s hs r hr
    rw [← Life.run_sends_length hrun,← fullPrefix_eq_self_iff]
    obtain ⟨type,id⟩ := r
    cases type with
    | conv =>
      obtain ⟨u,hu⟩ := hd.conv id _ hp (Int.le_refl _)
      exact (wp_ok (hl.getConvMessages hk hbirths hreads hreopen hdir hpast hp
        (Int.le_refl _)) hu).symm
    | user =>
      obtain ⟨u,hu⟩ := hd.user id hp
      exact (wp_ok (hl.getMessagesAfterCheckpoint hk hbirths hreads hreopen hdir hpast hp) hu).symm
  · intro hdvd
    have hwhole : ∀ r, fullPrefix k (topicLog l.log r) = topicLog l.log r := by
      intro r
      rw [fullPrefix_eq_self_iff,Life.run_sends_length hrun]
      by_cases hr : ∃ s ∈ calls, r ∈ s.targets
      · obtain ⟨s,hs,hr⟩ := hr
        exact hdvd s hs r hr
      · rw [appendCount_of_not_target hr]
        exact Nat.dvd_zero k
    refine ⟨fun convID limit hp hlimit => ?_,fun userID hp => ?_⟩
    · obtain ⟨_,u,hu,rfl⟩ := eq_ok_of_wp
        (hl.getConvMessages hk hbirths hreads hreopen hdir hpast hp hlimit)
      exact ⟨u,hwhole _ ▸ hu⟩
    · obtain ⟨_,u,hu,rfl⟩ := eq_ok_of_wp
        (hl.getMessagesAfterCheckpoint hk hbirths hreads hreopen hdir hpast hp)
      exact ⟨u,hwhole _ ▸ hu⟩

theorem durable_iff_blocks_filled_two_sends :
    ∃ l t, Life.run Env.steady [.send ⟨"c",1,[1],["u"]⟩,.send ⟨"c",2,[2],["u"]⟩]
        ⟨Host.steady smallBlocks,[],[]⟩ = some l ∧
      newStore Env.steady smallBlocks l.host.disk l.host.tick l.host.births = .ok t ∧
      Durable Env.steady l.log t := by
  have hany : (Life.run Env.steady [.send ⟨"c",1,[1],["u"]⟩,.send ⟨"c",2,[2],["u"]⟩]
      ⟨Host.steady smallBlocks,[],[]⟩).any (fun l => decide l.host.births.Nodup) = true := by
        decide +kernel
  obtain ⟨l,hrun,hb⟩ := (Option.any_eq_true _ _).mp hany
  refine ⟨l,_,hrun,rfl,?_⟩
  refine (durable_iff_blocks_filled Env.steady smallBlocks smallBlocks 2 (fun _ => none) 0
    (Host.steady smallBlocks) _ [⟨"c",1,[1],["u"]⟩,⟨"c",2,[2],["u"]⟩] l (by decide) rfl
    (newStore_steady smallBlocks)
    (fun _ _ => rfl) (by decide) (fun _ => rfl) hrun (of_decide_eq_true hb) rfl rfl).mpr ?_
  decide

/-- One message and room for two in a block: it is gone after the restart. -/
theorem one_send_not_durable :
    ∃ l t, Life.run Env.steady [.send ⟨"c",1,[1],["u"]⟩] ⟨Host.steady smallBlocks,[],[]⟩ = some l ∧
      l.host.births.Nodup ∧
      newStore Env.steady smallBlocks l.host.disk l.host.tick l.host.births = .ok t ∧
      ¬ Durable Env.steady l.log t := by
  have hany : (Life.run Env.steady [.send ⟨"c",1,[1],["u"]⟩] ⟨Host.steady smallBlocks,[],[]⟩).any
      (fun l =>
      decide l.host.births.Nodup && decide (topicLog l.log ⟨.conv,"c"⟩ ≠ [] ∧
        (topicLog l.log ⟨.conv,"c"⟩).length ≤ 1) &&
      match newStore Env.steady smallBlocks l.host.disk l.host.tick l.host.births with
      | .ok t => match getConvMessages Env.steady "c" 1 0 t with
        | .ok ms _ => ms.isEmpty
        | .error _ _ => false
      | .error _ => false) = true := by decide +kernel
  obtain ⟨l,hrun,hb⟩ := (Option.any_eq_true _ _).mp hany
  simp only [Bool.and_eq_true,decide_eq_true_eq] at hb
  obtain ⟨⟨hnodup,hsent,hlen⟩,hread⟩ := hb
  obtain ⟨t,hopen⟩ : ∃ t, newStore Env.steady smallBlocks l.host.disk l.host.tick
      l.host.births = .ok t := ⟨_,rfl⟩
  refine ⟨l,t,hrun,hnodup,hopen,fun hd => ?_⟩
  obtain ⟨u,hu⟩ := hd.conv "c" 1 (by decide) (by omega)
  simp only [hopen,hu,List.isEmpty_iff] at hread
  exact hsent hread

end Imy.Storage
