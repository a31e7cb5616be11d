import Imy.Index.Coherence
import Imy.Shard.Rebalance
set_option autoImplicit false

namespace Imy.Shard
open Imy.Lib Imy.Index Imy.Registry Imy.Router

section Writes
variable {F : Type} {A : Ratios F} {policy : ShardPolicy F} {g g' : GlobalIndex}

theorem frame_moves {ms : List (Move F)} (hrefs : ∀ m ∈ ms, m.high.OwnRef ∧
    m.low.OwnRef) {s : String}
    (hs : s ∉ ms.flatMap fun m => [m.high.storeInfo.id,m.low.storeInfo.id]) (g : GlobalIndex) :
    (ms.foldl Move.apply g).loadInfo s = g.loadInfo s := by
  induction ms generalizing g with
  | nil => rfl
  | cons m ms ih =>
    simp only [List.flatMap_cons,List.mem_append,List.mem_cons,List.not_mem_nil,
      or_false,not_or] at hs
    have hm := hrefs m List.mem_cons_self
    rw [List.foldl_cons,ih (fun m h => hrefs m (List.mem_cons_of_mem _ h)) hs.2,
      Move.apply_loadInfo hm.1 hm.2 hs.1.1 hs.1.2]

theorem foldl_moves_same (ms : List (Move F)) (g : GlobalIndex) :
    ∃ loadInfo, ms.foldl Move.apply g = { g with loadInfo := loadInfo } := by
  induction ms generalizing g with
  | nil => exact ⟨g.loadInfo,rfl⟩
  | cons m ms ih =>
    obtain ⟨loadInfo,h⟩ := ih (m.apply g)
    refine ⟨loadInfo,h.trans ?_⟩
    rw [m.apply_same]

/-- The totals are values of an `int64`. -/
structure Int64Sizes (g : GlobalIndex) : Prop where
  loads : ∀ s load, g.loadInfo s = some load → int64 load.totalSize = load.totalSize
  locations : ∀ k location, g.timelineIndex k = some location →
    int64 location.totalSize = location.totalSize

theorem int64_add_eq_self_iff {x size : Int} (hx : int64 x = x) (hsize : int64 size = size ∨
    int64 (-size) = -size) :
    int64 (x+size) = x ↔ size = 0 := by
  unfold int64 UInt64.size at *
  simp only [Int.bmod_def] at *
  omega

/-- The write is to a record that is there, so it shows unless nothing is added. -/
theorem LoadRef.addSize_eq_self_iff {ref : LoadRef} {size : Int} (hsizes : Int64Sizes g)
    (hrecord : ∀ s, ref = .record s → (g.loadInfo s).isSome)
    (hsize : int64 size = size ∨ int64 (-size) = -size) :
    ref.addSize size g = g ↔ size = 0 ∨ ∃ load, ref = .own load := by
  cases ref with
  | own load => simp [LoadRef.addSize]
  | record storeID =>
    obtain ⟨load,hload⟩ := Option.isSome_iff_exists.mp (hrecord storeID rfl)
    have hadd := int64_add_eq_self_iff (hsizes.loads storeID load hload) hsize
    have hno : ¬ ∃ load, LoadRef.record storeID = .own load := by simp
    rw [or_iff_left hno,← hadd]
    constructor
    · intro h
      have := congrFun (congrArg GlobalIndex.loadInfo h) storeID
      simp only [LoadRef.addSize,Function.update_self,hload,Option.map_some,
        Option.some.injEq] at this
      exact congrArg StoreLoadInfo.totalSize this
    · intro h
      have hsame : { load with totalSize := int64 (load.totalSize+size) } = load := by rw [h]
      simp only [LoadRef.addSize,hload,Option.map_some,hsame]
      rw [← hload,Function.update_eq_self]

theorem StoreLoadData.Reads.addSize_eq_self_iff {d : StoreLoadData F} (h : d.Reads g)
    (hsizes : Int64Sizes g) {size : Int} (hsize : int64 size = size ∨ int64 (-size) = -size) :
    d.loadInfo.addSize size g = g ↔ size = 0 ∨ g.loadInfo d.storeInfo.id = none := by
  unfold StoreLoadData.Reads at h
  cases hload : g.loadInfo d.storeInfo.id with
  | none =>
    rw [hload] at h
    obtain ⟨load,hown⟩ := h
    simp [hown,LoadRef.addSize]
  | some load =>
    rw [hload] at h
    rw [LoadRef.addSize_eq_self_iff hsizes ?_ hsize,h]
    · simp
    · intro s hs
      rw [h] at hs
      cases hs
      rw [hload]
      rfl

/-- The two writes of a move are to different records and cannot make up for each other. -/
theorem Move.apply_eq_self_iff {m : Move F} (hsizes : Int64Sizes g)
    (hne : m.high.storeInfo.id ≠ m.low.storeInfo.id)
    (hhigh : m.high.Reads g) (hlow : m.low.Reads g) (hsize : int64 m.location.totalSize =
      m.location.totalSize) :
    m.apply g = g ↔ (m.location.totalSize ≠ 0 →
      g.loadInfo m.high.storeInfo.id = none ∧ g.loadInfo m.low.storeInfo.id = none) := by
  have hboth : m.apply g = g ↔ m.high.loadInfo.addSize (-m.location.totalSize) g = g ∧
      m.low.loadInfo.addSize m.location.totalSize g = g := by
    constructor
    · intro h
      have hfirst : m.high.loadInfo.addSize (-m.location.totalSize) g = g := by
        rw [LoadRef.addSize_same]
        have hload : (m.high.loadInfo.addSize (-m.location.totalSize) g).loadInfo = g.loadInfo := by
          funext s
          by_cases hs : s = m.high.storeInfo.id
          · have := congrFun (congrArg GlobalIndex.loadInfo h) s
            rwa [Move.apply,LoadRef.addSize_loadInfo fun hr => hne (hs ▸ hlow.ownRef s hr)] at this
          · exact LoadRef.addSize_loadInfo (fun hr => hs (hhigh.ownRef s hr)) _
        rw [hload]
      refine ⟨hfirst,?_⟩
      rwa [Move.apply,hfirst] at h
    · rintro ⟨hfirst,hsecond⟩
      rw [Move.apply,hfirst,hsecond]
  rw [hboth,hhigh.addSize_eq_self_iff hsizes (Or.inr (by rw [Int.neg_neg]; exact hsize)),
    hlow.addSize_eq_self_iff hsizes (Or.inl hsize),Int.neg_eq_zero]
  tauto

theorem foldl_moves_eq_self_iff {ms : List (Move F)} (hsizes : Int64Sizes g)
    (happart : (ms.flatMap fun m => [m.high.storeInfo.id,m.low.storeInfo.id]).Nodup)
    (hreads : ∀ m ∈ ms, m.high.Reads g ∧ m.low.Reads g)
    (hsize : ∀ m ∈ ms, int64 m.location.totalSize = m.location.totalSize) :
    ms.foldl Move.apply g = g ↔ ∀ m ∈ ms, m.location.totalSize ≠ 0 →
      g.loadInfo m.high.storeInfo.id = none ∧ g.loadInfo m.low.storeInfo.id = none := by
  induction ms with
  | nil => simp
  | cons m ms ih =>
    rw [List.flatMap_cons,List.nodup_append] at happart
    obtain ⟨hm,hrest,hdisjoint⟩ := happart
    have hne : m.high.storeInfo.id ≠ m.low.storeInfo.id := by simpa using hm
    have hmreads := hreads m List.mem_cons_self
    have hself := Move.apply_eq_self_iff hsizes hne hmreads.1 hmreads.2 (hsize m List.mem_cons_self)
    have ih := ih hrest (fun m h => hreads m (List.mem_cons_of_mem _ h))
      (fun m h => hsize m (List.mem_cons_of_mem _ h))
    rw [List.foldl_cons,List.forall_mem_cons,← hself,← ih]
    constructor
    · intro h
      have hfirst : m.apply g = g := by
        rw [Move.apply_same]
        have hload : (m.apply g).loadInfo = g.loadInfo := by
          funext s
          by_cases hs : s ∈ [m.high.storeInfo.id,m.low.storeInfo.id]
          · -- no later move writes to the stores of this one
            rw [← frame_moves (fun m h =>
              (hreads m (List.mem_cons_of_mem _ h)).imp (·.ownRef) (·.ownRef))
              (fun hin => hdisjoint s hs s hin rfl) (m.apply g),h]
          · simp only [List.mem_cons,List.not_mem_nil,or_false,not_or] at hs
            exact Move.apply_loadInfo hmreads.1.ownRef hmreads.2.ownRef hs.1 hs.2
        rw [hload]
      exact ⟨hfirst,by rwa [hfirst] at h⟩
    · rintro ⟨hfirst,hothers⟩
      rw [hfirst,hothers]

end Writes

/-- The call leaves everything but the clock's readings as it was. -/
def Unchanged (g g' : GlobalIndex) : Prop := g' = { g with tick := g'.tick }

theorem recommendations_read_only_iff {F : Type} (A : Ratios F)
    (policy : ShardPolicy F) (S : Sorts F)
    (hS : S.Permutes) (clock : Nat → Int) (r : InMemoryRegistry) (hr : Keyed r)
    (order : List String)
    (horder : order.Perm r.stores.keys) (g : GlobalIndex) (hsizes : Int64Sizes g) :
    Unchanged g (final (getRebalanceRecommendations A policy S clock order r) g) ↔
      ∀ m ∈ plan A policy S clock order r g, m.location.totalSize ≠ 0 →
        g.loadInfo m.high.storeInfo.id = none ∧ g.loadInfo m.low.storeInfo.id = none := by
  obtain ⟨recommendations,g',hrun,-,tick,hg'⟩ :=
    eq_ok_of_wp (wp_getRebalanceRecommendations A policy hS clock hr horder g)
  obtain ⟨happart,hplanned⟩ := plan_spec A policy hS clock hr horder g
  have hself := foldl_moves_eq_self_iff (g := { g with tick := tick })
    ⟨hsizes.loads,hsizes.locations⟩ happart
    (fun m hm => ⟨(hplanned m hm).high.reads,(hplanned m hm).low.reads⟩)
    (fun m hm => hsizes.locations _ _ (hplanned m hm).location)
  have hfinal : final (getRebalanceRecommendations A policy S clock order r) g = g' := by
    simp only [final,hrun]
  rw [hfinal,← hself,← hg']
  obtain ⟨loadInfo,hsame⟩ :=
    foldl_moves_same (plan A policy S clock order r g) { g with tick := tick }
  rw [← hg'] at hsame
  rw [Unchanged,show g'.tick = tick by rw [hsame]]

theorem int64Sizes_new : Int64Sizes newGlobalIndex where
  loads _ _ h := by cases h
  locations _ _ h := by cases h

/-- The totals are sums in an `int64`. -/
theorem Int64Sizes.added {g g' : GlobalIndex} {index : GlobalStoreIndex} (h : Int64Sizes g)
    (ha : Added g index g') :
    Int64Sizes g' where
  loads s load hload := by
    by_cases hs : s = index.storeID
    · have hholds := ha.load
      rw [LoadHolds,← hs,hload] at hholds
      rw [hholds.2]
      exact Int.bmod_bmod
    · exact h.loads s load ((ha.stores s hs).2 ▸ hload)
  locations k location hlocation := by
    by_cases hk : k = index.timelineKey
    · obtain ⟨before,lastUpdate,hafter,-⟩ := ha.location
      cases (hk ▸ hlocation).symm.trans hafter
      exact Int.bmod_bmod
    · exact h.locations k location (ha.locations k hk ▸ hlocation)

theorem int64Sizes_adds (clock : Nat → Int) (blocks : List GlobalStoreIndex) :
    Int64Sizes (runIndex clock (blocks.map IndexOp.addIndex) newGlobalIndex) := by
  suffices h : ∀ g, Int64Sizes g → Int64Sizes
    (runIndex clock (blocks.map IndexOp.addIndex) g) from h _ int64Sizes_new
  induction blocks with
  | nil => exact fun _ hg => hg
  | cons index blocks ih => exact fun g hg => ih _ (hg.added (final_addIndex clock index g))

def storeNamed : Nat → StoreInfo
  | 0 => ⟨"store-a","","",0⟩
  | _ => ⟨"store-b","","",0⟩

def twoRegistered : InMemoryRegistry := register 1 0 (register 0 0 (newInMemoryRegistry storeNamed))

theorem twoRegistered_keyed : Keyed twoRegistered := by
  have hfirst : Keyed (register 0 0 (newInMemoryRegistry storeNamed)) :=
    have hstep : (RegistryOp.register 0 0).exec (newInMemoryRegistry storeNamed) =
        some (register 0 0 (newInMemoryRegistry storeNamed)) := rfl
    (keyed_new storeNamed).exec hstep
  have hstep : (RegistryOp.register 1 0).exec (register 0 0 (newInMemoryRegistry storeNamed)) =
      some twoRegistered := rfl
  exact hfirst.exec hstep

/-- Two timelines fill a store. -/
def twoEach : ShardPolicy ℚ := ⟨2,100,1/2,true⟩

def recommendFor (policy : ShardPolicy ℚ) : IndexM (List (RebalanceRecommendation ℚ)) :=
  getRebalanceRecommendations (exact fun _ => "") policy insertionSorts (fun _ => 0)
    ["store-a","store-b"] twoRegistered

/-- Two timelines of ten bytes on the one store, nothing on the other. -/
def uneven : GlobalIndex :=
  runIndex (fun _ => 0)
    ([⟨"a","store-a","b1",0,10,0,0⟩,⟨"b","store-a","b1",0,10,0,0⟩].map IndexOp.addIndex)
    newGlobalIndex

/-- After one call `GetStoreLoad` reports ten bytes less. -/
theorem recommendations_change_load :
    (answer (getStoreLoad (fun _ => 0) "store-a") uneven).map (·.totalSize) = some 20 ∧
    (answer (getStoreLoad (fun _ => 0) "store-a") (final (recommendFor twoEach) uneven)).map
      (·.totalSize) = some 10 ∧
    ¬ Unchanged uneven (final (recommendFor twoEach) uneven) := by
  have hbefore : (uneven.loadInfo "store-a").map (·.totalSize) = some 20 := by decide +kernel
  have hafter : ((final (recommendFor twoEach) uneven).loadInfo "store-a").map
      (·.totalSize) = some 10 := by
    decide +kernel
  refine ⟨by decide +kernel,by decide +kernel,fun h => ?_⟩
  rw [h] at hafter
  exact absurd (hbefore.symm.trans hafter) (by decide)

/-- Two timelines without a byte on the one store. -/
def emptyTimelines : GlobalIndex :=
  runIndex (fun _ => 0)
    ([⟨"a","store-a","b1",0,0,0,0⟩,⟨"b","store-a","b1",0,0,0,0⟩].map IndexOp.addIndex)
    newGlobalIndex

/-- One of them is recommended to move, which would not change the sizes. -/
theorem recommendations_read_only_empty_timelines :
    (answer (recommendFor twoEach) emptyTimelines).map (fun moves => moves.map fun move =>
      (move.timelineKey,move.fromStore,move.toStore)) = some [("a","store-a","store-b")] ∧
    Unchanged emptyTimelines (final (recommendFor twoEach) emptyTimelines) := by
  have hplan : (plan (exact fun _ => "") twoEach insertionSorts (fun _ => 0)
      ["store-a","store-b"] twoRegistered emptyTimelines).all
        (fun m => m.location.totalSize == 0) = true := by decide +kernel
  refine ⟨by decide +kernel,(recommendations_read_only_iff (exact fun _ => "") twoEach
    insertionSorts insertionSorts_permutes (fun _ => 0) twoRegistered twoRegistered_keyed
    ["store-a","store-b"] (by decide +kernel) emptyTimelines (int64Sizes_adds _ _)).mpr ?_⟩
  intro m hm hne
  exact absurd (by simpa using List.all_eq_true.mp hplan m hm) hne

end Imy.Shard
