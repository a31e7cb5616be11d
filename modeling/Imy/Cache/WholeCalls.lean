import Imy.Cache.Levels
set_option autoImplicit false

/-!
The two views of the manager. Over caches that keep what they are given, a call that is one
step in the one is a run of its steps in the other, alone under the lock.
-/

namespace Imy.Cache
open Imy.Lib

def keeping (α : Type) : CacheInterface α (String → Option (Value α)) where
  get cache key _ := (cache key,cache)
  set cache key value _ _ := Function.update cache key (some value)
  delete cache key := Function.update cache key none

abbrev Kept (α : Type) (_ : CacheLevel) : Type := String → Option (Value α)

namespace Timed
variable {α : Type} {m : MultiLevelCacheManager α (Kept α)} {c : Caches}
  {s : Cache.MultiLevelCacheManager} {level : CacheLevel} {key : String}
variable {serialize : Value α → Option (List UInt8)} {compress : List UInt8 → Option (List UInt8)}

structure Shows (m : MultiLevelCacheManager α (Kept α)) (c : Caches) : Prop where
  present : ∀ level, m.present level = true
  caches : ∀ level key, m.caches level key = (c level key).map .bytes

theorem Shows.congr {m' : MultiLevelCacheManager α (Kept α)} (h : Shows m c)
    (hcaches : m'.caches = m.caches) (hpresent : m'.present = m.present) : Shows m' c :=
  ⟨fun level => hpresent ▸ h.present level,fun level key => hcaches ▸ h.caches level key⟩

theorem Shows.write (h : Shows m c) (level : CacheLevel) (key : String) (data : List UInt8)
    (ttl : Int) (now : Nat) (origin : Option (SetCall α)) :
    Shows (m.write (fun _ => keeping α) level key (.bytes data) ttl now origin)
      (c.put level key (some data)) := by
  rw [MultiLevelCacheManager.write,if_pos (h.present level)]
  refine ⟨fun level' => h.present level',fun level' key' => ?_⟩
  rw [Caches.put_apply]
  by_cases hl : level' = level
  · subst hl
    by_cases hk : key' = key
    · simp [keeping,hk]
    · simp [keeping,hk,h.caches]
  · simp [hl,h.caches]

theorem Shows.erase (h : Shows m c) (level : CacheLevel) (key : String) :
    Shows (m.erase (fun _ => keeping α) level key) (c.put level key none) := by
  rw [MultiLevelCacheManager.erase,if_pos (h.present level)]
  refine ⟨fun level' => h.present level',fun level' key' => ?_⟩
  rw [Caches.put_apply]
  by_cases hl : level' = level
  · subst hl
    by_cases hk : key' = key
    · simp [keeping,hk]
    · simp [keeping,hk,h.caches]
  · simp [hl,h.caches]

section Rest
variable (m) (data : List UInt8) (value : Value α) (ttl : Int) (now : Nat)
    (origin : Option (SetCall α))

@[simp] theorem write_policies :
    (m.write (fun _ => keeping α) level key value ttl now origin).policies = m.policies := by
  rw [MultiLevelCacheManager.write]
  split <;> rfl

@[simp] theorem write_pending :
    (m.write (fun _ => keeping α) level key value ttl now origin).pending = m.pending := by
  rw [MultiLevelCacheManager.write]
  split <;> rfl

@[simp] theorem write_answers :
    (m.write (fun _ => keeping α) level key value ttl now origin).answers = m.answers := by
  rw [MultiLevelCacheManager.write]
  split <;> rfl

@[simp] theorem erase_policies :
    (m.erase (fun _ => keeping α) level key).policies = m.policies := by
  rw [MultiLevelCacheManager.erase]
  split <;> rfl

@[simp] theorem erase_pending : (m.erase (fun _ => keeping α) level key).pending = m.pending := by
  rw [MultiLevelCacheManager.erase]
  split <;> rfl

@[simp] theorem erase_answers : (m.erase (fun _ => keeping α) level key).answers = m.answers := by
  rw [MultiLevelCacheManager.erase]
  split <;> rfl

end Rest

theorem Shows.lookup (h : Shows m c) (level : CacheLevel) (key : String) (now : Nat) :
    m.lookup (fun _ => keeping α) level key now = ((c level key).map .bytes,m) := by
  rw [MultiLevelCacheManager.lookup,if_pos (h.present level),← h.caches]
  simp [keeping]

structure Between (m : MultiLevelCacheManager α (Kept α)) (s : Cache.MultiLevelCacheManager) :
    Prop where
  shows : Shows m s.caches
  policies : ∀ level, (m.policies level).writePolicy = s.policies level
  held : s.held = none
  gets : s.gets = []
  direct : s.direct = []
  batchQueue : s.batchQueue = []
  batch : s.batch = []
  executing : s.executing = []
  pending : m.pending.map (fun call => (call.key,call.value)) =
    s.goroutines.map fun item => (item.key,.bytes item.value)
  answers : m.answers.map (fun a => (a.key,a.value)) =
    s.answers.filterMap fun a => a.value.map fun v => (a.key,.bytes v)

def Matched (serialize : Value α → Option (List UInt8))
    (compress : List UInt8 → Option (List UInt8))
    (s : Cache.MultiLevelCacheManager) (m : MultiLevelCacheManager α (Kept α)) : Prop :=
  ∃ (ops : List (CacheOp (Value α))) (s' : Cache.MultiLevelCacheManager),
    ops.foldlM (Cache.MultiLevelCacheManager.next serialize compress) s = some s' ∧ Between m s'

def released (s : Cache.MultiLevelCacheManager) (key : String) (value : Option (List UInt8))
    (levels : List CacheLevel) : Cache.MultiLevelCacheManager :=
  { s with
    held := none
    caches := levels.foldl (fun c level => c.put level key value) s.caches
    latest := Function.update s.latest key value }

theorem hold_writes (serialize : Value α → Option (List UInt8))
    (compress : List UInt8 → Option (List UInt8))
    (key : String) (value : Option (List UInt8)) (levels : List CacheLevel)
    (s : Cache.MultiLevelCacheManager) :
    (List.replicate (levels.length+1) (.hold : CacheOp (Value α))).foldlM
      (Cache.MultiLevelCacheManager.next serialize compress)
        { s with held := some ⟨key,value,levels.map .write⟩ } =
    some (released s key value levels) := by
  induction levels generalizing s with
  | nil => rfl
  | cons level levels ih => exact ih { s with caches := s.caches.put level key value }

theorem Between.released (h : Between m s) {m' : MultiLevelCacheManager α (Kept α)} (key : String)
    (value : Option (List UInt8)) (levels : List CacheLevel)
    (hshows : Shows m' (levels.foldl (fun c level => c.put level key value) s.caches))
    (hpolicies : m'.policies = m.policies) (hpending : m'.pending = m.pending)
    (hanswers : m'.answers = m.answers) :
    Between m' (released s key value levels) where
  shows := hshows
  policies := hpolicies ▸ h.policies
  held := rfl
  gets := h.gets
  direct := h.direct
  batchQueue := h.batchQueue
  batch := h.batch
  executing := h.executing
  pending := hpending ▸ h.pending
  answers := hanswers ▸ h.answers

theorem Between.set (h : Between m s) (key : String) (value : Value α) (ttl : Int) (now : Nat) :
    Matched serialize compress s (m.set
      (fun _ => keeping α) serialize compress key value ttl now) := by
  rw [MultiLevelCacheManager.set]
  cases hdata : processValue serialize compress value with
  | none => exact ⟨[.set key value],s,by simp [Cache.MultiLevelCacheManager.next,
    h.held,h.gets,hdata],h⟩
  | some data =>
    have hset : Cache.MultiLevelCacheManager.next serialize compress s (.set key value) =
        some { s with held := some ⟨key,some data,(s.policies .l1).steps⟩ } := by
      simp [Cache.MultiLevelCacheManager.next,h.held,h.gets,hdata]
    have hshows : Shows { m with sets := m.sets ++ [⟨key,.bytes data,ttl,now⟩] } s.caches :=
      h.shows.congr rfl rfl
    simp only [MultiLevelCacheManager.setProcessed,h.policies .l1,MultiLevelCacheManager.store]
    cases hpolicy : s.policies .l1 with
    | writeThrough =>
      rw [hpolicy] at hset
      refine ⟨.set key value :: List.replicate 4 .hold,_,?_,
        h.released key (some data) [.l1,.l2,.l3]
          (((hshows.write .l1 key data ttl now _).write .l2 key data ttl now _).write
            .l3 key data ttl now _)
          (by simp) (by simp) (by simp)⟩
      rw [List.foldlM_cons,hset]
      exact hold_writes serialize compress key (some data) [.l1,.l2,.l3] s
    | writeBack =>
      rw [hpolicy] at hset
      refine ⟨[.set key value,.hold,.hold,.hold],{ s with
          goroutines := s.goroutines ++ [⟨key,data⟩]
          caches := s.caches.put .l1 key (some data)
          latest := Function.update s.latest key (some data) },?_,
        (hshows.write .l1 key data ttl now (some ⟨key,.bytes data,ttl,now⟩)).congr rfl rfl,
        ?_,h.held,h.gets,h.direct,h.batchQueue,h.batch,h.executing,?_,?_⟩
      · rw [List.foldlM_cons,hset]
        simp [WritePolicy.steps,Cache.MultiLevelCacheManager.next,
          Cache.MultiLevelCacheManager.holdStep,h.held]
      · simpa using h.policies
      · simpa using h.pending
      · simpa using h.answers
    | writeAround =>
      rw [hpolicy] at hset
      refine ⟨.set key value :: List.replicate 3 .hold,_,?_,
        h.released key (some data) [.l2,.l3]
          ((hshows.write .l2 key data ttl now _).write .l3 key data ttl now _)
            (by simp) (by simp) (by simp)⟩
      rw [List.foldlM_cons,hset]
      exact hold_writes serialize compress key (some data) [.l2,.l3] s

theorem Between.delete (h : Between m s) (key : String) :
    Matched serialize compress s (m.delete (fun _ => keeping α) key) := by
  have hdelete :
    Cache.MultiLevelCacheManager.next serialize compress s (.delete key : CacheOp (Value α)) =
      some { s with held := some ⟨key,none,deleteSteps⟩ } := by
    simp [Cache.MultiLevelCacheManager.next,h.held,h.gets]
  rw [MultiLevelCacheManager.delete]
  refine ⟨.delete key :: List.replicate 4 .hold,_,?_,
    h.released key none [.l1,.l2,.l3] (((h.shows.erase .l1 key).erase .l2 key).erase .l3 key)
      (by simp) (by simp) (by simp)⟩
  rw [List.foldlM_cons,hdelete]
  exact hold_writes serialize compress key none [.l1,.l2,.l3] s

theorem Between.updatePolicy (h : Between m s) (level : CacheLevel) (policy : CachePolicy) :
    Matched serialize compress s
      { m with policies := Function.update m.policies level policy } := by
  refine ⟨[.updatePolicy level policy.writePolicy],
    { s with policies := Function.update s.policies level policy.writePolicy },?_,
    h.shows.congr rfl rfl,fun level' => ?_,h.held,h.gets,h.direct,h.batchQueue,h.batch,h.executing,
    h.pending,h.answers⟩
  · simp [Cache.MultiLevelCacheManager.next,h.held,h.gets]
  · by_cases hl : level' = level
    · simp [hl]
    · simp [hl,h.policies]

/-- The worker fetches one delayed write, and its tick executes it. -/
theorem Between.execute (h : Between m s) (i : Nat) (now : Nat) :
    Matched serialize compress s (m.execute (fun _ => keeping α) i now) := by
  have hpending := congrArg (fun pairs => pairs[i]?) h.pending
  simp only [List.getElem?_map] at hpending
  rw [MultiLevelCacheManager.execute]
  cases hcall : m.pending[i]? with
  | none => exact ⟨[],s,rfl,h⟩
  | some call =>
    rw [hcall] at hpending
    obtain ⟨item,hitem,hsame⟩ := Option.map_eq_some_iff.mp hpending.symm
    obtain ⟨hkey,hvalue⟩ := Prod.mk.inj hsame
    simp only [MultiLevelCacheManager.store,← hkey,← hvalue]
    have hshows : Shows { m with pending := m.pending.eraseIdx i } s.caches := h.shows.congr rfl rfl
    refine ⟨[.schedule i,.receive,.tick,.work,.work],{ s with
        goroutines := s.goroutines.eraseIdx i
        caches := (s.caches.put .l2 item.key (some item.value)).put .l3 item.key
          (some item.value) },?_,
      (hshows.write .l2 item.key item.value _ now _).write .l3 item.key item.value _ now _,
      ?_,h.held,h.gets,h.direct,h.batchQueue,h.batch,h.executing,?_,?_⟩
    · simp [Cache.MultiLevelCacheManager.next,hitem,h.batchQueue,h.batch,h.executing,
        batchQueueSize,batchSize,
        executeBatch,executeItem,Cache.MultiLevelCacheManager.write]
    · simpa using h.policies
    · simpa [List.eraseIdx_map] using congrArg (fun pairs => pairs.eraseIdx i) h.pending
    · simpa using h.answers

theorem Between.get (h : Between m s) (key : String) (now : Nat) :
    Matched serialize compress s (m.get (fun _ => keeping α) key now).2 := by
  have hbegin : Cache.MultiLevelCacheManager.next serialize compress s
    (.beginGet key : CacheOp (Value α)) =
      some { s with gets := [⟨key,.l1⟩] } := by
    simp [Cache.MultiLevelCacheManager.next,h.held,h.gets]
  have hmiss : Between m { s with answers := s.answers ++ [⟨key,none,s.latest key⟩] } :=
    ⟨h.shows,h.policies,h.held,h.gets,h.direct,h.batchQueue,h.batch,h.executing,h.pending,
      by simpa using h.answers⟩
  have hfind : ∀ (m' : MultiLevelCacheManager α (Kept α)) (c : Caches) (level : CacheLevel)
    (data : List UInt8),
      Shows m' c → m'.policies = m.policies → m'.pending = m.pending → m'.answers = m.answers →
      Between (m'.answer level key (.bytes data) now)
        { s with caches := c, answers := s.answers ++ [⟨key,some data,s.latest key⟩] } := by
    intro m' c level data hshows hpolicies hpending hanswers
    refine ⟨hshows.congr rfl rfl,hpolicies ▸ h.policies,h.held,h.gets,h.direct,h.batchQueue,
      h.batch,h.executing,
      hpending ▸ h.pending,?_⟩
    simp [MultiLevelCacheManager.answer,hanswers,h.answers]
  rw [MultiLevelCacheManager.get,h.shows.lookup]
  cases h₁ : s.caches .l1 key with
  | some data =>
    refine ⟨.beginGet key :: List.replicate 2 (.get 0),_,?_,
      hfind m s.caches .l1 data h.shows rfl rfl rfl⟩
    rw [List.foldlM_cons,hbegin]
    simp [Cache.MultiLevelCacheManager.next,Cache.MultiLevelCacheManager.getStep,
      Cache.MultiLevelCacheManager.setGet,Cache.MultiLevelCacheManager.answer,h₁,h.gets]
  | none =>
    simp only [Option.map_none,MultiLevelCacheManager.getL2,h.shows.lookup]
    cases h₂ : s.caches .l2 key with
    | some data =>
      refine ⟨.beginGet key :: List.replicate 4 (.get 0),_,?_,
        hfind _ (s.caches.put .l1 key (some data)) .l2 data
        (h.shows.write .l1 key data _ now _) (write_policies ..)
          (write_pending ..) (write_answers ..)⟩
      rw [List.foldlM_cons,hbegin]
      simp [Cache.MultiLevelCacheManager.next,Cache.MultiLevelCacheManager.getStep,
        Cache.MultiLevelCacheManager.write,
        Cache.MultiLevelCacheManager.setGet,Cache.MultiLevelCacheManager.answer,h₁,h₂,h.gets]
    | none =>
      simp only [Option.map_none,MultiLevelCacheManager.getL3,h.shows.lookup]
      cases h₃ : s.caches .l3 key with
      | some data =>
        refine ⟨.beginGet key :: List.replicate 6 (.get 0),_,?_,
          hfind _ ((s.caches.put .l2 key (some data)).put .l1 key (some data)) .l3 data
            ((h.shows.write .l2 key data _ now _).write .l1 key data _ now _)
            (by simp [MultiLevelCacheManager.promote]) (by simp [MultiLevelCacheManager.promote])
            (by simp [MultiLevelCacheManager.promote])⟩
        rw [List.foldlM_cons,hbegin]
        simp [Cache.MultiLevelCacheManager.next,Cache.MultiLevelCacheManager.getStep,
          Cache.MultiLevelCacheManager.write,
          Cache.MultiLevelCacheManager.setGet,Cache.MultiLevelCacheManager.answer,h₁,h₂,h₃,h.gets]
      | none =>
        refine ⟨.beginGet key :: List.replicate 4 (.get 0),_,?_,hmiss⟩
        rw [List.foldlM_cons,hbegin]
        simp [Cache.MultiLevelCacheManager.next,Cache.MultiLevelCacheManager.getStep,
          Cache.MultiLevelCacheManager.setGet,Cache.MultiLevelCacheManager.answer,h₁,h₂,h₃,h.gets]

theorem between_new : Between (newMultiLevelCacheManager (fun _ _ => none) true true :
    MultiLevelCacheManager α (Kept α)) Cache.newMultiLevelCacheManager where
  shows := ⟨fun level => by cases level <;> rfl,fun _ _ => rfl⟩
  policies level := by cases level <;> rfl
  held := rfl
  gets := rfl
  direct := rfl
  batchQueue := rfl
  batch := rfl
  executing := rfl
  pending := rfl
  answers := rfl

/-- Every run of calls that drops no entry is a run of steps with the same answers. -/
theorem calls_matched (serialize : Value α → Option (List UInt8))
    (compress : List UInt8 → Option (List UInt8))
    (calls : List (Op α (Kept α))) (hkeep : ∀ level cache, .evict level cache ∉ calls) :
    Matched serialize compress Cache.newMultiLevelCacheManager (calls.foldl
      (fun m op => m.next (fun _ => keeping α) serialize compress op)
      (newMultiLevelCacheManager (fun _ _ => none) true true)) := by
  induction calls using List.reverseRecOn with
  | nil => exact ⟨[],_,rfl,between_new⟩
  | append_singleton calls op ih =>
    obtain ⟨ops,s,hrun,h⟩ :=
      ih fun level cache hin => hkeep level cache (List.mem_append_left _ hin)
    have hstep : Matched serialize compress s ((calls.foldl
        (fun m op => m.next (fun _ => keeping α) serialize compress op)
        (newMultiLevelCacheManager (fun _ _ => none) true true)).next
            (fun _ => keeping α) serialize compress op) := by
      cases op with
      | set key value ttl now => exact h.set key value ttl now
      | get key now => exact h.get key now
      | delete key => exact h.delete key
      | execute i now => exact h.execute i now
      | updatePolicy level policy => exact h.updatePolicy level policy
      | evict level cache => exact (hkeep level cache (by simp)).elim
    obtain ⟨more,t,hmore,ht⟩ := hstep
    refine ⟨ops ++ more,t,?_,by rwa [List.foldl_append]⟩
    rw [List.foldlM_append,hrun]
    exact hmore

end Timed

end Imy.Cache
