import Mathlib.Data.Finmap
import Mathlib.Data.List.Induction
set_option autoImplicit false

/-!
`QueryOptimizer` of `pkg/storage/performance_optimizer.go`: its plans are kept under the
timeline and the start time, in seconds, of a query.
-/

namespace Imy.Optimizer

/-- A `time.Time`: seconds since the zero time, the first of January of the year 1 in UTC,
nanoseconds, and the seconds that its zone is ahead of UTC. -/
structure Timestamp where
  sec : Int
  nsec : Nat
  offset : Int
  deriving DecidableEq, Repr

namespace Timestamp

def isZero (t : Timestamp) : Bool := t.sec = 0 ∧ t.nsec = 0

def civil (days : Int) : Int × Int × Int :=
  -- counted from the first of March of the year 0, in eras of 400 years
  let z := days+306
  let era := z.fdiv 146097
  let doe := z.fmod 146097
  let yoe := (doe-doe/1460+doe/36524-doe/146096)/365
  let doy := doe-(365*yoe+yoe/4-yoe/100)
  let mp := (5*doy+2)/153
  let month := if mp < 10 then mp+3 else mp-9
  (yoe+era*400+(if month ≤ 2 then 1 else 0),month,doy-(153*mp+2)/5+1)

def appendInt (n : Int) (width : Nat) : String :=
  let digits := toString n.natAbs
  (if n < 0 then "-" else "") ++ String.ofList (List.replicate (width-digits.length) '0') ++ digits

def formatRFC3339 (t : Timestamp) : String :=
  let abs := t.sec+t.offset
  let (year,month,day) := civil (abs.fdiv 86400)
  let clock := abs.fmod 86400
  let zone := t.offset.tdiv 60
  appendInt year 4 ++ "-" ++ appendInt month 2 ++ "-" ++ appendInt day 2 ++ "T" ++
    appendInt (clock/3600) 2 ++ ":" ++ appendInt (clock%3600/60) 2 ++ ":" ++
      appendInt (clock%60) 2 ++
    if t.offset = 0 then "Z"
    else (if zone < 0 then "-" else "+") ++ appendInt (zone.natAbs/60) 2 ++ ":" ++
      appendInt (zone.natAbs%60) 2

end Timestamp

/-- A filter's value is of any type. -/
structure Query (α : Type) where
  timelineID : String
  startTime : Timestamp
  endTime : Timestamp
  filters : Finmap fun _ : String => α
  limit : Int
  offset : Int

structure OptimizedQuery (α : Type) where
  original : Query α
  indexHints : List String
  executionPlan : String
  estimatedCost : Float

/-- A call of `Optimize`, with the order in which it goes through the filters of the query. -/
structure OptimizeCall (α : Type) where
  query : Query α
  order : List String
  all : ∀ field, field ∈ order ↔ field ∈ query.filters
  once : order.Nodup

structure QueryOptimizer (α : Type) where
  cache : String → Option (OptimizedQuery α)

def newQueryOptimizer (α : Type) : QueryOptimizer α := ⟨fun _ => none⟩

section Optimize
variable {α : Type}

def generateCacheKey (query : Query α) : String :=
  query.timelineID ++ "_" ++ query.startTime.formatRFC3339

def suggestIndexes (query : Query α) (order : List String) : List String :=
  (if !query.startTime.isZero || !query.endTime.isZero then ["time_index"] else []) ++
    order.map fun field => field ++ "_index"

def generateExecutionPlan (_query : Query α) : String := "sequential_scan"

def estimateCost (query : Query α) : Float :=
  if query.limit > 0 then 1.0*(Float.ofInt query.limit/1000.0) else 1.0

/-- The plan that is made for the query. -/
def OptimizeCall.plan (c : OptimizeCall α) : OptimizedQuery α where
  original := c.query
  indexHints := suggestIndexes c.query c.order
  executionPlan := generateExecutionPlan c.query
  estimatedCost := estimateCost c.query

def QueryOptimizer.optimize (qo : QueryOptimizer α) (c : OptimizeCall α) :
    OptimizedQuery α × QueryOptimizer α :=
  match qo.cache (generateCacheKey c.query) with
  | some cached => (cached,qo)
  | none =>
    (c.plan,⟨fun key => if key = generateCacheKey c.query then some c.plan else qo.cache key⟩)

def QueryOptimizer.run (qo : QueryOptimizer α) (history : List (OptimizeCall α)) :
    QueryOptimizer α :=
  history.foldl (fun qo c => (qo.optimize c).2) qo

/-- The plan is for this query, and what a new optimizer computes for it. -/
structure Transparent (plan : OptimizedQuery α) (query : Query α) : Prop where
  original : plan.original = query
  indexHints : ∀ c : OptimizeCall α, c.query = query →
    ∀ hint, hint ∈ plan.indexHints ↔ hint ∈ ((newQueryOptimizer α).optimize c).1.indexHints
  executionPlan : ∀ c : OptimizeCall α, c.query = query →
    plan.executionPlan = ((newQueryOptimizer α).optimize c).1.executionPlan
  estimatedCost : ∀ c : OptimizeCall α, c.query = query →
    plan.estimatedCost = ((newQueryOptimizer α).optimize c).1.estimatedCost

/-- The first call of the history whose query has this cache key. -/
def firstWith (key : String) (history : List (OptimizeCall α)) : Option (OptimizeCall α) :=
  history.find? fun c => generateCacheKey c.query = key

theorem optimize_new (c : OptimizeCall α) : ((newQueryOptimizer α).optimize c).1 = c.plan := rfl

theorem optimize_cache (qo : QueryOptimizer α) (c : OptimizeCall α) (key : String) :
    (qo.optimize c).2.cache key =
      (qo.cache key).or (if generateCacheKey c.query = key then some c.plan else none) := by
  rw [QueryOptimizer.optimize]
  by_cases hkey : generateCacheKey c.query = key
  · subst hkey
    cases hcached : qo.cache (generateCacheKey c.query) <;> simp [hcached]
  · cases qo.cache (generateCacheKey c.query) <;> simp [hkey,Ne.symm hkey]

theorem run_cache (history : List (OptimizeCall α)) (key : String) :
    ((newQueryOptimizer α).run history).cache key =
      (firstWith key history).map OptimizeCall.plan := by
  induction history using List.reverseRecOn with
  | nil => rfl
  | append_singleton history c ih =>
    have hrun : (newQueryOptimizer α).run (history ++ [c]) =
        (((newQueryOptimizer α).run history).optimize c).2 := by simp [QueryOptimizer.run]
    rw [hrun,optimize_cache,ih,firstWith,firstWith,List.find?_append,Option.map_or]
    by_cases hkey : generateCacheKey c.query = key <;> simp [hkey]

theorem mem_indexHints (c : OptimizeCall α) (hint : String) :
    hint ∈ c.plan.indexHints ↔
      ((c.query.startTime.isZero = false ∨ c.query.endTime.isZero = false) ∧ hint = "time_index") ∨
        ∃ field ∈ c.query.filters, field ++ "_index" = hint := by
  have horder : (∃ field, field ∈ c.order ∧ field ++ "_index" = hint) ↔
      ∃ field ∈ c.query.filters, field ++ "_index" = hint :=
    exists_congr fun field => and_congr_left fun _ => c.all field
  simp only [OptimizeCall.plan,suggestIndexes,List.mem_append,List.mem_map,horder]
  by_cases hzero : !c.query.startTime.isZero || !c.query.endTime.isZero
  · have hor : c.query.startTime.isZero = false ∨ c.query.endTime.isZero = false := by
      simpa using hzero
    simp [hzero,hor]
  · have hor : ¬ (c.query.startTime.isZero = false ∨ c.query.endTime.isZero = false) := by
      simpa using hzero
    simp [hzero,hor]

theorem plan_transparent (c : OptimizeCall α) : Transparent c.plan c.query where
  original := rfl
  indexHints c' hc' hint := by rw [optimize_new,mem_indexHints,mem_indexHints,hc']
  executionPlan c' hc' := by rw [optimize_new,OptimizeCall.plan,OptimizeCall.plan,hc']
  estimatedCost c' hc' := by rw [optimize_new,OptimizeCall.plan,OptimizeCall.plan,hc']

/-- The plan is right exactly if the first query of the history with the same cache key is
the same query. -/
theorem optimize_transparent_iff (history : List (OptimizeCall α)) (c : OptimizeCall α) :
    Transparent (((newQueryOptimizer α).run history).optimize c).1 c.query ↔
      ∀ first, firstWith (generateCacheKey c.query) history = some first →
        first.query = c.query := by
  have hcache := run_cache history (generateCacheKey c.query)
  rw [QueryOptimizer.optimize,hcache]
  cases hfirst : firstWith (generateCacheKey c.query) history with
  | none => simpa using plan_transparent c
  | some first =>
    simp only [Option.map_some,Option.some.injEq,forall_eq']
    constructor
    · exact fun h => h.original
    · intro hsame
      exact hsame ▸ plan_transparent first

end Optimize

section Instance

/-- A query of a timeline from the zero time on, without filters, for so many entries. -/
def firstEntries (limit : Int) : OptimizeCall Unit where
  query := ⟨"t",⟨0,0,0⟩,⟨0,0,0⟩,∅,limit,0⟩
  order := []
  all field := by simp [Finmap.notMem_empty]
  once := List.nodup_nil

/-- The second query gets the plan of the first. -/
theorem optimize_other_limit :
    (((newQueryOptimizer Unit).run [firstEntries 10]).optimize (firstEntries 20)).1 =
      (firstEntries 10).plan ∧
    ¬ Transparent (((newQueryOptimizer Unit).run [firstEntries 10]).optimize (firstEntries 20)).1
      (firstEntries 20).query := by
  have hplan : (((newQueryOptimizer Unit).run [firstEntries 10]).optimize (firstEntries 20)).1 =
      (firstEntries 10).plan := by
    simp [QueryOptimizer.run,QueryOptimizer.optimize,newQueryOptimizer,
      generateCacheKey,firstEntries]
  refine ⟨hplan,fun h => ?_⟩
  have horiginal := congrArg Query.limit (hplan ▸ h.original)
  simp [OptimizeCall.plan,firstEntries] at horiginal

end Instance

end Imy.Optimizer
