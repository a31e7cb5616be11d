import Imy.Cache.RoundTrip
import Imy.Lib.Transition
set_option autoImplicit false

namespace Imy.Cache
open Imy.Lib

section Caches
variable {α σ : Type}

/-- The cache keeps to its own times to live and may drop entries at any call: `content`
gives what it may return for a key and until when. -/
structure CacheInterface.Honours (C : CacheInterface α σ) (ok : σ → Prop)
    (content : σ → String → Option (Value α × Time)) : Prop where
  get : ∀ {s key now v}, ok s → (C.get s key now).1 = some v →
    ∃ e, content s key = some (v,e) ∧ ¬ expired e now
  get_ok : ∀ {s key now}, ok s → ok (C.get s key now).2
  get_content : ∀ {s key now k x}, ok s → content (C.get s key now).2 k = some x →
    content s k = some x
  set_ok : ∀ {s key v ttl now}, ok s → ok (C.set s key v ttl now)
  set_content : ∀ {s key v ttl now k x}, ok s → content (C.set s key v ttl now) k = some x →
    (k = key ∧ x = (v,expireTime ttl now)) ∨ (k ≠ key ∧ content s k = some x)
  delete_ok : ∀ {s key}, ok s → ok (C.delete s key)
  delete_content : ∀ {s key k x}, ok s → content (C.delete s key) k = some x → content s k = some x

/-- What a memory cache has under a key. -/
def MemoryCache.content (m : MemoryCache α) (key : String) : Option (Value α × Time) :=
  (m.item key).map fun it => (it.value,it.expireTime)

/-- A call that does not set the key leaves its item or takes it away. -/
theorem MemoryCache.Linked.next_item {m : MemoryCache α} {c : MemoryCall α} {key : String}
    (h : m.Linked) (hset : ¬ c.Sets key) :
    (m.next c).item key = none ∨ (m.next c).item key = m.item key := by
  cases hitem : m.item key with
  | none => exact .inl (h.next_none hset hitem)
  | some it =>
    have he : ∀ it', m.item key = some it' → it'.expireTime = it.expireTime := by
      intro it' hit'
      rw [hitem] at hit'
      rw [Option.some.inj hit']
    by_cases hrem : m.Removes it.expireTime key c
    · exact .inl (h.next_removed hset he hrem)
    · exact .inr ((h.next_kept hset he hrem).trans hitem)

theorem MemoryCache.Linked.next_content {m : MemoryCache α} {c : MemoryCall α} {key : String}
    {x : Value α × Time} (h : m.Linked) (hset : ¬ c.Sets key)
    (hx : (m.next c).content key = some x) :
    m.content key = some x := by
  obtain hnone | hsame := h.next_item hset
  · simp [MemoryCache.content,hnone] at hx
  · rwa [MemoryCache.content,hsame] at hx

theorem memoryCache_honours : (memoryCache α).Honours MemoryCache.Linked MemoryCache.content where
  get {m key now v} _ hget := by
    obtain ⟨it,hit,rfl,hexp⟩ := (MemoryCache.get_answer m key now v).mp hget
    exact ⟨it.expireTime,by simp [MemoryCache.content,hit],hexp⟩
  get_ok {_ key now} h := h.next (.get key now)
  get_content {_ key now _ _} h hx := h.next_content (c := .get key now) id hx
  set_ok {_ key v ttl now} h := h.next (.set key v ttl now)
  set_content {m key v ttl now k x} h hx := by
    by_cases hk : k = key
    · subst hk
      refine .inl ⟨rfl,?_⟩
      have hitem := MemoryCache.set_item m k v ttl now
      simpa [memoryCache,MemoryCache.content,hitem,MemoryCache.newItem,eq_comm] using hx
    · exact .inr ⟨hk,h.next_content (c := .set key v ttl now) (Ne.symm hk) hx⟩
  delete_ok {_ key} h := h.next (.delete key)
  delete_content {_ key _ _} h hx := h.next_content (c := .delete key) id hx

end Caches


def Backed {α : Type} (sets : List (SetCall α)) (origin : Option (SetCall α)) (key : String)
    (value : Value α) (e : Time) : Prop :=
  ∃ call ∈ sets, origin = some call ∧ call.key = key ∧ call.value = value ∧
    (0 < call.ttl → e ≠ 0 ∧ e ≤ call.time+call.ttl)

/-- The answer is the value of a `Set` of its key whose time had not passed. -/
def TimedAnswer.InTime {α : Type} (sets : List (SetCall α)) (a : TimedAnswer α) : Prop :=
  ∃ call ∈ sets, a.origin = some call ∧ call.key = a.key ∧ call.value = a.value ∧
    (0 < call.ttl → (a.time : Int) ≤ call.time+call.ttl)

theorem Backed.inTime {α : Type} {sets : List (SetCall α)}
    {origin : Option (SetCall α)} {key : String}
    {value : Value α} {e : Time} {now : Nat} (h : Backed sets origin key value e)
    (hexp : ¬ expired e now) : (⟨key,value,now,origin⟩ : TimedAnswer α).InTime sets := by
  obtain ⟨call,hmem,horigin,hkey,hvalue,hend⟩ := h
  refine ⟨call,hmem,horigin,hkey,hvalue,fun hpos => ?_⟩
  obtain ⟨hne,hle⟩ := hend hpos
  exact (Int.not_lt.mp fun hlt => hexp ⟨hne,hlt⟩).trans hle

theorem backed_concat {α : Type} {sets : List (SetCall α)}
    {origin : Option (SetCall α)} {key : String}
    {value : Value α} {e : Time} (call : SetCall α) (h : Backed sets origin key value e) :
    Backed (sets ++ [call]) origin key value e := by
  obtain ⟨call',hmem,hrest⟩ := h
  exact ⟨call',List.mem_append_left _ hmem,hrest⟩

theorem expireTime_of_pos {ttl : Int} (h : 0 < ttl) (now : Nat) :
    expireTime ttl now = now+ttl ∧ expireTime ttl now ≠ 0 := by
  have heq : expireTime ttl now = now+ttl := if_pos h
  refine ⟨heq,fun hzero => ?_⟩
  have hsum : (now : Int)+ttl = 0 := heq.symm.trans hzero
  omega

namespace Timed.MultiLevelCacheManager
variable {α : Type} {σ : CacheLevel → Type} (C : (level : CacheLevel) → CacheInterface α (σ level))
variable (ok : (level : CacheLevel) → σ level → Prop)
variable (content : (level : CacheLevel) → σ level → String → Option (Value α × Time))

def Within (m : MultiLevelCacheManager α σ) (source target : CacheLevel)
    (key : String) (now : Nat) :
    Prop :=
  ∀ call, m.origin source key = some call → 0 < call.ttl →
    0 < (m.policies target).ttl ∧ now+(m.policies target).ttl ≤ call.time+call.ttl

/-- No copy that the operation makes outlives the value that it is made of: not the one of a
promotion, nor the one of a write that the worker executes. -/
def Timely (m : MultiLevelCacheManager α σ) : Op α σ → Prop
  | .get key now => (m.lookup C .l1 key now).1 = none →
    ((m.lookup C .l2 key now).1 ≠ none → m.Within .l2 .l1 key now) ∧
    ((m.lookup C .l2 key now).1 = none → (m.lookup C .l3 key now).1 ≠ none →
      (m.hasL2 → m.Within .l3 .l2 key now) ∧ m.Within .l3 .l1 key now)
  | .execute i now => ∀ call, m.pending[i]? = some call → 0 < call.ttl → now ≤ call.time
  | _ => True

def Allowed (m : MultiLevelCacheManager α σ) : Op α σ → Prop
  | .evict level cache => ok level cache ∧ ∀ key x, content level cache key = some x →
    content level (m.caches level) key = some x
  | _ => True

structure Sound (m : MultiLevelCacheManager α σ) : Prop where
  ok : ∀ level, ok level (m.caches level)
  held : ∀ level key v e, content level (m.caches level) key = some (v,e) →
    Backed m.sets (m.origin level key) key v e
  pending : ∀ call ∈ m.pending, call ∈ m.sets
  answers : ∀ a ∈ m.answers, a.InTime m.sets

variable {C ok content} {m m' : MultiLevelCacheManager α σ}
    {level level' : CacheLevel} {key : String}
  {value : Value α} {now : Nat} {found : Option (Value α)} {origin : Option (SetCall α)} {ttl : Int}

section Calls
variable (laws : ∀ level, (C level).Honours (ok level) (content level))

structure Looked (C : (level : CacheLevel) → CacheInterface α (σ level))
    (ok : (level : CacheLevel) → σ level → Prop)
    (content : (level : CacheLevel) → σ level → String → Option (Value α × Time))
    (m : MultiLevelCacheManager α σ) (level : CacheLevel) (key : String) (now : Nat)
    (found : Option (Value α)) (m' : MultiLevelCacheManager α σ) : Prop where
  sound : m'.Sound ok content
  origin : m'.origin = m.origin
  policies : m'.policies = m.policies
  hasL2 : m'.hasL2 = m.hasL2
  inTime : ∀ v, found = some v → (⟨key,v,now,m'.origin level key⟩ : TimedAnswer α).InTime m'.sets
  other : ∀ level', level' ≠ level → (m'.lookup C level' key now).1 = (m.lookup C level' key now).1

theorem present_eq (h₂ : m'.hasL2 = m.hasL2) (h₃ : m'.hasL3 = m.hasL3) :
    m'.present level = m.present level := by
  cases level
  · rfl
  · exact h₂
  · exact h₃

theorem lookup_congr (hpresent : m'.present level = m.present level)
    (hcaches : m'.caches level = m.caches level) :
    (m'.lookup C level key now).1 = (m.lookup C level key now).1 := by
  rw [lookup,lookup,hpresent,hcaches]
  split <;> rfl

include laws in
theorem Sound.looked (h : m.Sound ok content) (hr : m.lookup C level key now = (found,m')) :
    Looked C ok content m level key now found m' := by
  rw [lookup] at hr
  split at hr
  · obtain ⟨hfound,rfl⟩ := Prod.mk.inj hr
    subst hfound
    refine ⟨⟨fun l => ?_,fun l k v e hheld => ?_,h.pending,h.answers⟩,rfl,rfl,rfl,fun v hv => ?_,
      fun l hl => ?_⟩
    · obtain rfl | hl := eq_or_ne l level
      · simpa using (laws l).get_ok (h.ok l)
      · simpa [Function.update_of_ne hl] using h.ok l
    · obtain rfl | hl := eq_or_ne l level
      · exact h.held l k v e ((laws l).get_content (h.ok l) (by simpa using hheld))
      · exact h.held l k v e (by simpa [Function.update_of_ne hl] using hheld)
    · obtain ⟨e,hcontent,hexp⟩ := (laws level).get (h.ok level) hv
      exact (h.held level key v e hcontent).inTime hexp
    · exact lookup_congr (present_eq rfl rfl) (Function.update_of_ne hl _ _)
  · obtain ⟨hfound,rfl⟩ := Prod.mk.inj hr
    subst hfound
    exact ⟨h,rfl,rfl,rfl,fun v hv => (by cases hv),fun _ _ => rfl⟩

include laws in
theorem Sound.write (h : m.Sound ok content) (hback : m.present level = true →
    Backed m.sets origin key value (expireTime ttl now)) :
    (m.write C level key value ttl now origin).Sound ok content := by
  rw [MultiLevelCacheManager.write]
  split
  · rename_i hp
    refine ⟨fun l => ?_,fun l k v e hheld => ?_,h.pending,h.answers⟩
    · obtain rfl | hl := eq_or_ne l level
      · simpa using (laws l).set_ok (h.ok l)
      · simpa [Function.update_of_ne hl] using h.ok l
    · obtain rfl | hl := eq_or_ne l level
      · simp only [Function.update_self] at hheld ⊢
        obtain ⟨rfl,hx⟩ | ⟨hk,hx⟩ := (laws l).set_content (h.ok l) hheld
        · obtain ⟨rfl,rfl⟩ := Prod.mk.inj hx
          simpa using hback hp
        · simpa [Function.update_of_ne hk] using h.held l k v e hx
      · simp only [Function.update_of_ne hl] at hheld ⊢
        exact h.held l k v e hheld
  · exact h

theorem Sound.answer (h : m.Sound ok content)
    (hin : (⟨key,value,now,m.origin level key⟩ : TimedAnswer α).InTime m.sets) :
    (m.answer level key value now).Sound ok content where
  ok := h.ok
  held := h.held
  pending := h.pending
  answers a ha := by
    obtain ha | ha := List.mem_append.mp ha
    · exact h.answers a ha
    · obtain rfl := List.mem_singleton.mp ha
      exact hin

@[simp] theorem write_sets (m : MultiLevelCacheManager α σ) (level : CacheLevel) (key : String)
    (value : Value α) (ttl : Int) (now : Nat) (origin : Option (SetCall α)) :
    (m.write C level key value ttl now origin).sets = m.sets := by
  rw [MultiLevelCacheManager.write]
  split <;> rfl

@[simp] theorem write_policies (m : MultiLevelCacheManager α σ) (level : CacheLevel) (key : String)
    (value : Value α) (ttl : Int) (now : Nat) (origin : Option (SetCall α)) :
    (m.write C level key value ttl now origin).policies = m.policies := by
  rw [MultiLevelCacheManager.write]
  split <;> rfl

theorem write_origin_of_ne (h : level' ≠ level) (m : MultiLevelCacheManager α σ) (key : String)
    (value : Value α) (ttl : Int) (now : Nat) (origin : Option (SetCall α)) :
    (m.write C level key value ttl now origin).origin level' = m.origin level' := by
  rw [MultiLevelCacheManager.write]
  split
  · exact Function.update_of_ne h _ _
  · rfl

/-- A copy that ends with the value it is made of is backed by the same `Set`. -/
theorem backed_promote {source target : CacheLevel}
    (hin : (⟨key,value,now,m.origin source key⟩ : TimedAnswer α).InTime m.sets)
    (hwithin : m.Within source target key now) :
    Backed m.sets (m.origin source key) key value (expireTime (m.policies target).ttl now) := by
  obtain ⟨call,hmem,horigin,hkey,hvalue,-⟩ := hin
  refine ⟨call,hmem,horigin,hkey,hvalue,fun hpos => ?_⟩
  obtain ⟨hp,hle⟩ := hwithin call horigin hpos
  obtain ⟨heq,hne⟩ := expireTime_of_pos hp now
  exact ⟨hne,heq ▸ hle⟩

theorem Within.congr {source target : CacheLevel} (h : m.Within source target key now)
    (horigin : m'.origin = m.origin) (hpolicies : m'.policies = m.policies) :
    m'.Within source target key now := by
  rwa [Within,horigin,hpolicies]

include laws in
theorem Sound.getL3 (h : m.Sound ok content) (hwithin : (m.lookup C .l3 key now).1 ≠ none →
    (m.hasL2 → m.Within .l3 .l2 key now) ∧ m.Within .l3 .l1 key now) :
    (m.getL3 C key now).2.Sound ok content := by
  rw [MultiLevelCacheManager.getL3]
  cases hr : m.lookup C .l3 key now with
  | mk found m' =>
    have hl := h.looked laws hr
    cases found with
    | none => exact hl.sound
    | some v =>
      obtain ⟨h₂,h₁⟩ := hwithin (by simp [hr])
      have hin := hl.inTime v rfl
      have hs : (m'.promote C .l3 .l2 key v now).Sound ok content :=
        hl.sound.write laws fun hp =>
          backed_promote hin ((h₂ (hl.hasL2 ▸ hp)).congr hl.origin hl.policies)
      have horigin : (m'.promote C .l3 .l2 key v now).origin .l3 = m'.origin .l3 :=
        write_origin_of_ne (by decide) _ _ _ _ _ _
      have hin' : (⟨key,v,now,(m'.promote C .l3 .l2 key v now).origin .l3 key⟩ :
          TimedAnswer α).InTime (m'.promote C .l3 .l2 key v now).sets := by
        rw [horigin]
        simpa [promote] using hin
      have hwithin' : (m'.promote C .l3 .l2 key v now).Within .l3 .l1 key now := by
        rw [Within,horigin,promote,write_policies]
        exact h₁.congr hl.origin hl.policies
      refine (hs.write laws fun _ => backed_promote hin' hwithin').answer ?_
      rw [write_origin_of_ne (by decide),write_sets]
      exact hin'

include laws in
theorem Sound.getL2 (h : m.Sound ok content)
    (hwithin₂ : (m.lookup C .l2 key now).1 ≠ none → m.Within .l2 .l1 key now)
    (hwithin₃ : (m.lookup C .l2 key now).1 = none → (m.lookup C .l3 key now).1 ≠ none →
      (m.hasL2 → m.Within .l3 .l2 key now) ∧ m.Within .l3 .l1 key now) :
    (m.getL2 C key now).2.Sound ok content := by
  rw [MultiLevelCacheManager.getL2]
  cases hr : m.lookup C .l2 key now with
  | mk found m' =>
    have hl := h.looked laws hr
    cases found with
    | some v =>
      have hin := hl.inTime v rfl
      have hwithin := (hwithin₂ (by simp [hr])).congr hl.origin hl.policies
      refine (hl.sound.write laws fun _ => backed_promote hin hwithin).answer ?_
      rw [write_origin_of_ne (by decide),write_sets]
      exact hin
    | none =>
      refine hl.sound.getL3 laws fun hfound => ?_
      rw [hl.other .l3 (by decide)] at hfound
      obtain ⟨h₂,h₁⟩ := hwithin₃ (by simp [hr]) hfound
      exact ⟨fun hp => (h₂ (hl.hasL2 ▸ hp)).congr hl.origin hl.policies,
        h₁.congr hl.origin hl.policies⟩

include laws in
theorem Sound.get (h : m.Sound ok content) (htimely : m.Timely C (.get key now)) :
    (m.get C key now).2.Sound ok content := by
  rw [MultiLevelCacheManager.get]
  cases hr : m.lookup C .l1 key now with
  | mk found m' =>
    have hl := h.looked laws hr
    cases found with
    | some v => exact hl.sound.answer (hl.inTime v rfl)
    | none =>
      obtain ⟨hwithin₂,hwithin₃⟩ := htimely (by simp [hr])
      refine hl.sound.getL2 laws (fun hfound => ?_) fun hmissed hfound => ?_
      · rw [hl.other .l2 (by decide)] at hfound
        exact (hwithin₂ hfound).congr hl.origin hl.policies
      · rw [hl.other .l2 (by decide)] at hmissed
        rw [hl.other .l3 (by decide)] at hfound
        obtain ⟨h₂,h₁⟩ := hwithin₃ hmissed hfound
        exact ⟨fun hp => (h₂ (hl.hasL2 ▸ hp)).congr hl.origin hl.policies,
          h₁.congr hl.origin hl.policies⟩

include laws in
theorem Sound.store (h : m.Sound ok content) {call : SetCall α} (hmem : call ∈ m.sets)
    (htime : 0 < call.ttl → now ≤ call.time) : (m.store C level call now).Sound ok content := by
  refine h.write laws fun _ => ⟨call,hmem,rfl,rfl,rfl,fun hpos => ?_⟩
  obtain ⟨heq,hne⟩ := expireTime_of_pos hpos now
  have hnow := htime hpos
  have hle : (now : Int)+call.ttl ≤ call.time+call.ttl := by omega
  exact ⟨hne,heq ▸ hle⟩

theorem store_sets (m : MultiLevelCacheManager α σ) (level : CacheLevel) (call : SetCall α)
    (now : Nat) : (m.store C level call now).sets = m.sets := write_sets m level _ _ _ _ _

theorem Sound.record (h : m.Sound ok content) (call : SetCall α) :
    Sound ok content { m with sets := m.sets ++ [call] } where
  ok := h.ok
  held level key v e hheld := backed_concat call (h.held level key v e hheld)
  pending call' hcall := List.mem_append_left _ (h.pending call' hcall)
  answers a ha := by
    obtain ⟨call',hmem,hrest⟩ := h.answers a ha
    exact ⟨call',List.mem_append_left _ hmem,hrest⟩

theorem Sound.schedule (h : m.Sound ok content) {call : SetCall α} (hmem : call ∈ m.sets) :
    Sound ok content { m with pending := m.pending ++ [call] } where
  ok := h.ok
  held := h.held
  pending call' hcall := by
    obtain hcall | hcall := List.mem_append.mp hcall
    · exact h.pending call' hcall
    · exact List.mem_singleton.mp hcall ▸ hmem
  answers := h.answers

include laws in
theorem Sound.setProcessed (h : m.Sound ok content) (call : SetCall α) :
    (m.setProcessed C call).Sound ok content := by
  have hr := h.record call
  have hmem : call ∈ m.sets ++ [call] := by simp
  have htime : 0 < call.ttl → call.time ≤ call.time := fun _ => Nat.le_refl _
  have hstore : ∀ (m' : MultiLevelCacheManager α σ) level, m'.Sound ok content →
      m'.sets = m.sets ++ [call] →
      (m'.store C level call call.time).Sound ok content ∧
        (m'.store C level call call.time).sets = m.sets ++ [call] := by
    intro m' level hs hsets
    exact ⟨hs.store laws (by rw [hsets]; exact hmem) htime,by rw [store_sets,hsets]⟩
  rw [MultiLevelCacheManager.setProcessed]
  dsimp only
  split
  · obtain ⟨h₁,hsets₁⟩ := hstore _ .l1 hr rfl
    obtain ⟨h₂,hsets₂⟩ := hstore _ .l2 h₁ hsets₁
    exact (hstore _ .l3 h₂ hsets₂).1
  · obtain ⟨h₁,hsets₁⟩ := hstore _ .l1 hr rfl
    exact h₁.schedule (by rw [hsets₁]; exact hmem)
  · obtain ⟨h₂,hsets₂⟩ := hstore _ .l2 hr rfl
    exact (hstore _ .l3 h₂ hsets₂).1

theorem Sound.replace (h : m.Sound ok content) {cache : σ level} (hok : ok level cache)
    (hcontent : ∀ key x, content level cache key = some x →
      content level (m.caches level) key = some x) :
    Sound ok content { m with caches := Function.update m.caches level cache } where
  ok l := by
    obtain rfl | hl := eq_or_ne l level
    · simpa using hok
    · simpa [Function.update_of_ne hl] using h.ok l
  held l key v e hheld := by
    obtain rfl | hl := eq_or_ne l level
    · exact h.held l key v e (hcontent key _ (by simpa using hheld))
    · exact h.held l key v e (by simpa [Function.update_of_ne hl] using hheld)
  pending := h.pending
  answers := h.answers

include laws in
theorem Sound.erase (h : m.Sound ok content) : (m.erase C level key).Sound ok content := by
  rw [MultiLevelCacheManager.erase]
  split
  · exact h.replace ((laws level).delete_ok (h.ok level)) fun k x hx =>
      (laws level).delete_content (h.ok level) hx
  · exact h

include laws in
theorem Sound.execute (h : m.Sound ok content) {i : Nat} (htimely : m.Timely C (.execute i now)) :
    (m.execute C i now).Sound ok content := by
  rw [MultiLevelCacheManager.execute]
  cases hcall : m.pending[i]? with
  | none => exact h
  | some call =>
    have hmem := h.pending call (List.mem_of_getElem? hcall)
    have hrest : Sound ok content { m with pending := m.pending.eraseIdx i } :=
      ⟨h.ok,h.held,fun call' hcall' => h.pending call' (List.mem_of_mem_eraseIdx hcall'),h.answers⟩
    have h₂ : Sound ok content
        (({ m with pending := m.pending.eraseIdx i } : MultiLevelCacheManager α σ).store
            C .l2 call now) :=
      hrest.store laws hmem (htimely call hcall)
    exact h₂.store laws (by rw [store_sets]; exact hmem) (htimely call hcall)

variable (serialize : Value α → Option (List UInt8)) (compress : List UInt8 → Option (List UInt8))

include laws in
theorem Sound.next (h : m.Sound ok content) {op : Op α σ} (hallowed : m.Allowed ok content op)
    (htimely : m.Timely C op) : (m.next C serialize compress op).Sound ok content := by
  cases op with
  | set key value ttl now =>
    simp only [MultiLevelCacheManager.next,MultiLevelCacheManager.set]
    cases processValue serialize compress value with
    | some data => exact h.setProcessed laws _
    | none => exact h
  | get key now => exact h.get laws htimely
  | delete key => exact ((h.erase laws).erase laws).erase laws
  | execute i now => exact h.execute laws htimely
  | updatePolicy level policy => exact ⟨h.ok,h.held,h.pending,h.answers⟩
  | evict level cache => exact h.replace hallowed.1 hallowed.2

end Calls

section Runs

theorem sound_new {caches : (level : CacheLevel) → σ level} (hok : ∀ level, ok level (caches level))
    (hempty : ∀ level key, content level (caches level) key = none) (hasL2 hasL3 : Bool) :
    (newMultiLevelCacheManager caches hasL2 hasL3).Sound ok content where
  ok := hok
  held level key v e hheld := by simp [newMultiLevelCacheManager,hempty] at hheld
  pending := by simp [newMultiLevelCacheManager]
  answers := by simp [newMultiLevelCacheManager]

variable (C ok content) (serialize : Value α → Option (List UInt8))
  (compress : List UInt8 → Option (List UInt8))

/-- A step of a run, in which caches drop entries as they like. -/
def Step (op : Op α σ) (m m' : MultiLevelCacheManager α σ) : Prop :=
  m.Allowed ok content op ∧ m' = m.next C serialize compress op

/-- A step that makes no copy that outlives the value it is made of. -/
def TimelyStep (op : Op α σ) (m m' : MultiLevelCacheManager α σ) : Prop :=
  m.Timely C op ∧ m.Step C ok content serialize compress op m'

variable {C ok content serialize compress}

/-- In a run of steps that make no copy that outlives its value, every answer is in time. -/
theorem ttl_respected (laws : ∀ level, (C level).Honours (ok level) (content level))
    {caches : (level : CacheLevel) → σ level} (hok : ∀ level, ok level (caches level))
    (hempty : ∀ level key, content level (caches level) key = none) {hasL2 hasL3 : Bool}
    {ops : List (Op α σ)} {m : MultiLevelCacheManager α σ}
    (run : Steps (TimelyStep C ok content serialize compress)
      (newMultiLevelCacheManager caches hasL2 hasL3) ops m) :
    ∀ a ∈ m.answers, a.InTime m.sets := by
  have hsound : m.Sound ok content := by
    refine run.invariant (I := fun m => m.Sound ok content) ?_ (sound_new hok hempty hasL2 hasL3)
    rintro op m m' hm ⟨htimely,hallowed,rfl⟩
    exact hm.next laws serialize compress hallowed htimely
  exact hsound.answers

end Runs

section Instance

def twoLevels : (level : CacheLevel) → Stack Unit (MemoryCache Unit) Unit level
  | .l1 => newMemoryCache Unit 3
  | .l2 => newMemoryCache Unit 100
  | .l3 => ()

def stackOk : (level : CacheLevel) → Stack Unit (MemoryCache Unit) Unit level → Prop
  | .l1 => MemoryCache.Linked
  | .l2 => MemoryCache.Linked
  | .l3 => fun _ => True

def stackContent : (level : CacheLevel) → Stack Unit (MemoryCache Unit) Unit level → String →
    Option (Value Unit × Time)
  | .l1 => MemoryCache.content
  | .l2 => MemoryCache.content
  | .l3 => fun _ _ => none

theorem noCache_honours : noCache.Honours (fun _ => True) fun _ _ => none where
  get _ h := by cases h
  get_ok := id
  get_content _ h := by cases h
  set_ok := id
  set_content _ h := by cases h
  delete_ok := id
  delete_content _ h := by cases h

theorem stack_honours (level : CacheLevel) :
    (stack (memoryCache Unit) noCache level).Honours (stackOk level) (stackContent level) := by
  cases level
  · exact memoryCache_honours
  · exact memoryCache_honours
  · exact noCache_honours

theorem twoLevels_ok (level : CacheLevel) : stackOk level (twoLevels level) := by
  cases level
  · exact MemoryCache.linked_new 3
  · exact MemoryCache.linked_new 100
  · trivial

theorem twoLevels_empty (level : CacheLevel) (key : String) :
    stackContent level (twoLevels level) key = none := by
  cases level <;> rfl

def twoLevelManager : MultiLevelCacheManager Unit (Stack Unit (MemoryCache Unit) Unit) :=
  newMultiLevelCacheManager twoLevels true false

abbrev twoLevelNext (m : MultiLevelCacheManager Unit (Stack Unit (MemoryCache Unit) Unit))
    (op : Op Unit (Stack Unit (MemoryCache Unit) Unit)) :
    MultiLevelCacheManager Unit (Stack Unit (MemoryCache Unit) Unit) :=
  m.next (stack (memoryCache Unit) noCache) quoted some op

/-- The value of a `Set` for a thousand seconds is evicted from the upper level, copied back for
five minutes, and found there. -/
def copiedBack : List (Op Unit (Stack Unit (MemoryCache Unit) Unit)) :=
  [.set "a" (.string [97]) 1000000000000 100,.set "b" (.string [97]) 10 101,
    .get "a" 105,.get "a" 200]

theorem ttl_respected_copied_back :
    (copiedBack.foldl twoLevelNext twoLevelManager).answers.length = 2 ∧
      ∀ a ∈ (copiedBack.foldl twoLevelNext twoLevelManager).answers,
        a.InTime (copiedBack.foldl twoLevelNext twoLevelManager).sets := by
  have htimely : ((copiedBack.take 2).foldl twoLevelNext twoLevelManager).Timely
      (stack (memoryCache Unit) noCache) (.get "a" 105) := by
    refine fun _ => ⟨fun _ call hcall _ => ?_,fun hmiss => absurd hmiss (by decide)⟩
    obtain rfl := Option.some.inj ((by decide : ((copiedBack.take 2).foldl twoLevelNext
      twoLevelManager).origin .l2 "a" =
        some ⟨"a",.bytes [34,97,34],1000000000000,100⟩).symm.trans hcall)
    decide
  have run : Steps (TimelyStep (stack (memoryCache Unit) noCache) stackOk stackContent quoted some)
      twoLevelManager copiedBack (copiedBack.foldl twoLevelNext twoLevelManager) :=
    .more ⟨trivial,trivial,rfl⟩ (.more ⟨trivial,trivial,rfl⟩ (.more ⟨htimely,trivial,rfl⟩
      (.more ⟨fun hmiss => absurd hmiss (by decide),trivial,rfl⟩ (.done _))))
  exact ⟨by decide,ttl_respected stack_honours twoLevels_ok twoLevels_empty run⟩

/-- The value of a `Set` for ten units of time is evicted from the upper level, copied back
for five minutes, and returned a hundred units after the `Set`. -/
def revived : List (Op Unit (Stack Unit (MemoryCache Unit) Unit)) :=
  [.set "a" (.string [97]) 10 100,.set "b" (.string [97]) 10 101,.get "a" 105,.get "a" 200]

theorem revived_answers : (revived.foldl twoLevelNext twoLevelManager).answers =
    [⟨"a",.bytes [34,97,34],105,some ⟨"a",.bytes [34,97,34],10,100⟩⟩,
      ⟨"a",.bytes [34,97,34],200,some ⟨"a",.bytes [34,97,34],10,100⟩⟩] := by decide

theorem revived_late :
    Steps (Step (stack (memoryCache Unit) noCache) stackOk stackContent quoted some)
      twoLevelManager revived (revived.foldl twoLevelNext twoLevelManager) ∧
    ¬ ∀ a ∈ (revived.foldl twoLevelNext twoLevelManager).answers,
      a.InTime (revived.foldl twoLevelNext twoLevelManager).sets := by
  constructor
  · exact .more ⟨trivial,rfl⟩ (.more ⟨trivial,rfl⟩
      (.more ⟨trivial,rfl⟩ (.more ⟨trivial,rfl⟩ (.done _))))
  · intro h
    obtain ⟨call,-,horigin,-,-,hle⟩ :=
      h ⟨"a",.bytes [34,97,34],200,some ⟨"a",.bytes [34,97,34],10,100⟩⟩
      (by rw [revived_answers]; simp)
    obtain rfl := Option.some.inj horigin
    exact absurd (hle (by decide)) (by decide)

end Instance

end Timed.MultiLevelCacheManager

end Imy.Cache
