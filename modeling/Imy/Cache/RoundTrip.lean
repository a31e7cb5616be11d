import Imy.Cache.Levels
set_option autoImplicit false

namespace Imy.Cache.Timed
open Imy.Lib

variable {α σ₂ σ₃ : Type}

/-- A memory cache over two caches of any kind. -/
def Stack (α σ₂ σ₃ : Type) : CacheLevel → Type
  | .l1 => MemoryCache α
  | .l2 => σ₂
  | .l3 => σ₃

def stack (C₂ : CacheInterface α σ₂) (C₃ : CacheInterface α σ₃) :
    (level : CacheLevel) → CacheInterface α (Stack α σ₂ σ₃ level)
  | .l1 => memoryCache α
  | .l2 => C₂
  | .l3 => C₃

namespace MultiLevelCacheManager
variable {C₂ : CacheInterface α σ₂} {C₃ : CacheInterface α σ₃}
variable {serialize : Value α → Option (List UInt8)} {compress : List UInt8 → Option (List UInt8)}
variable {m : MultiLevelCacheManager α (Stack α σ₂ σ₃)} {key : String} {value : Value α} {ttl : Int}
  {now t : Nat} {data : List UInt8}

theorem write_of_ne {σ : CacheLevel → Type} (C : (level : CacheLevel) → CacheInterface α (σ level))
    (m : MultiLevelCacheManager α σ) {level level' : CacheLevel} (h : level' ≠ level) (key : String)
    (value : Value α) (ttl : Int) (now : Nat) (origin : Option (SetCall α)) :
    (m.write C level key value ttl now origin).caches level' = m.caches level' := by
  rw [write]
  split
  · exact Function.update_of_ne h _ _
  · rfl

theorem set_l1 (hpolicy : (m.policies .l1).writePolicy = .writeThrough)
    (hdata : processValue serialize compress value = some data) :
    (m.set (stack C₂ C₃) serialize compress key value ttl now).caches .l1 =
      MemoryCache.set (m.caches .l1) key (.bytes data) ttl now := by
  simp only [set,hdata,setProcessed,hpolicy,store]
  rw [write_of_ne _ _ (by decide),write_of_ne _ _ (by decide)]
  simp only [write,present,stack,memoryCache,if_true]
  exact Function.update_self _ _ _

/-- A `Get` that finds the key in L1 returns what is there. -/
theorem get_l1 (m : MultiLevelCacheManager α (Stack α σ₂ σ₃))
    (h : (MemoryCache.get (m.caches .l1) key t).1 = some value) :
    (m.get (stack C₂ C₃) key t).1 = some value := by
  have hlookup : (m.lookup (stack C₂ C₃) .l1 key t).1 = some value := by
    simp only [lookup,present,if_true]
    exact h
  rw [get]
  cases hr : m.lookup (stack C₂ C₃) .l1 key t with
  | mk found m' =>
    rw [hr] at hlookup
    simp only at hlookup
    rw [hlookup]

theorem not_expired (htime : 0 < ttl → t ≤ now+ttl) : ¬ expired (expireTime ttl now) t := by
  rintro ⟨hne,hlt⟩
  by_cases hpos : ttl > 0
  · have hle := htime hpos
    rw [expireTime,if_pos hpos] at hlt
    exact absurd hlt (Int.not_lt.mpr hle)
  · simp [expireTime,hpos] at hne

/-- Right after a `Set` that succeeded, `Get` returns the processed value as bytes. -/
theorem get_set (hpolicy : (m.policies .l1).writePolicy = .writeThrough)
    (hdata : processValue serialize compress value = some data) (htime : 0 < ttl → t ≤ now+ttl) :
    ((m.set (stack C₂ C₃) serialize compress key value ttl now).get (stack C₂ C₃) key t).1 =
      some (.bytes data) := by
  refine get_l1 _ ?_
  rw [set_l1 hpolicy hdata]
  exact (MemoryCache.get_answer _ _ _ _).mpr
    ⟨_,MemoryCache.set_item _ key (.bytes data) ttl now,rfl,not_expired htime⟩

end MultiLevelCacheManager

section
variable (C₂ : CacheInterface α σ₂) (C₃ : CacheInterface α σ₃)
variable (serialize : Value α → Option (List UInt8)) (compress : List UInt8 → Option (List UInt8))

/-- Right after the `Set`, `Get` finds the value. -/
def RoundTrips (m : MultiLevelCacheManager α (Stack α σ₂ σ₃)) (key : String) (value : Value α)
    (ttl : Int) (now t : Nat) : Prop :=
  ((m.set (stack C₂ C₃) serialize compress key value ttl now).get (stack C₂ C₃) key t).1 =
    some value

/-- The value is a byte slice that is the compression of its own encoding. -/
def Compressed (value : Value α) : Prop :=
  ∃ b data, value = .bytes b ∧ serialize value = some data ∧ 1024 < data.length ∧
    compress data = some b

end

/-- JSON writes a byte slice in base64 between quotes, which is longer than the slice.
A value that can be processed comes back only if it is its own stored form. -/
theorem roundTrips_iff {C₂ : CacheInterface α σ₂} {C₃ : CacheInterface α σ₃}
    {serialize : Value α → Option (List UInt8)} {compress : List UInt8 → Option (List UInt8)}
    (longer : ∀ b data, serialize (.bytes b) = some data → b.length < data.length)
    {m : MultiLevelCacheManager α (Stack α σ₂ σ₃)} {key : String} {value : Value α} {ttl : Int}
    {now t : Nat} (hpolicy : (m.policies .l1).writePolicy = .writeThrough)
    (hset : (processValue serialize compress value).isSome) (htime : 0 < ttl → t ≤ now+ttl) :
    RoundTrips C₂ C₃ serialize compress m key value ttl now t ↔
      Compressed serialize compress value := by
  obtain ⟨stored,hstored⟩ := Option.isSome_iff_exists.mp hset
  rw [RoundTrips,MultiLevelCacheManager.get_set hpolicy hstored htime,Option.some.injEq]
  simp only [processValue,Option.bind_eq_bind,Option.bind_eq_some_iff] at hstored
  obtain ⟨data,hdata,hstored⟩ := hstored
  constructor
  · rintro rfl
    split at hstored
    · rename_i hlong
      exact ⟨stored,data,rfl,hdata,hlong,hstored⟩
    · obtain rfl : data = stored := by simpa using hstored
      exact absurd (longer _ _ hdata) (Nat.lt_irrefl _)
  · rintro ⟨b,data',rfl,hdata',hlong,hcompress⟩
    obtain rfl : data = data' := by simpa [hdata] using hdata'
    rw [if_pos hlong,hcompress] at hstored
    rw [Option.some.inj hstored]

section Instance

/-- A manager that has a memory cache only. -/
def memoryOnly : MultiLevelCacheManager Unit (Stack Unit Unit Unit) :=
  newMultiLevelCacheManager (fun
    | .l1 => newMemoryCache Unit 1000000
    | .l2 => ()
    | .l3 => ()) false false

def noCache : CacheInterface Unit Unit where
  get s _ _ := (none,s)
  set s _ _ _ _ := s
  delete s _ := s

/-- Quotes around the bytes of a string that needs no escape, twice as many bytes for a byte
slice. -/
def quoted : Value Unit → Option (List UInt8)
  | .string s => some (34 :: s ++ [34])
  | .bytes b => some (34 :: b ++ b ++ [34])
  | _ => none

theorem quoted_longer (b data : List UInt8) (h : quoted (.bytes b) = some data) :
    b.length < data.length := by
  simp only [quoted,Option.some.injEq] at h
  subst h
  simp only [List.cons_append,List.length_cons,List.length_append]
  omega

/-- A byte slice below the threshold does not come back. -/
theorem roundTrips_bytes :
    ¬ RoundTrips noCache noCache quoted some memoryOnly "k" (.bytes [1]) 10 0 5 := by
  rw [roundTrips_iff quoted_longer rfl rfl (by omega)]
  rintro ⟨b,data,hb,hdata,hlong,-⟩
  obtain rfl : [34,1,1,34] = data := by simpa [quoted] using hdata
  simp at hlong

/-- A string does not come back, though it fits and its time has not passed. -/
theorem string_not_roundTrips :
    (memoryOnly.policies .l1).writePolicy = .writeThrough ∧
      estimateSize (.bytes [34,97,34] : Value Unit) ≤
        (MemoryCache.maxSize (memoryOnly.caches .l1)) ∧
      ((memoryOnly.set (stack noCache noCache) quoted some "k" (.string [97]) 10 0).get
        (stack noCache noCache) "k" 5).1 = some (.bytes [34,97,34]) ∧
      ¬ RoundTrips noCache noCache quoted some memoryOnly "k" (.string [97]) 10 0 5 := by
  have hget : ((memoryOnly.set (stack noCache noCache) quoted some "k" (.string [97]) 10 0).get
      (stack noCache noCache) "k" 5).1 = some (.bytes [34,97,34]) :=
    MultiLevelCacheManager.get_set rfl rfl (by decide)
  refine ⟨rfl,by decide,hget,fun h => ?_⟩
  rw [RoundTrips,hget] at h
  simp at h

end Instance

end Imy.Cache.Timed
