import Imy.Lib.Transition
import Imy.Router.RingOwnership
set_option autoImplicit false

namespace Imy.Router
open Imy.Lib

inductive RouterOp where
  | addStore (storeInfo : StoreInfo)
  | removeStore (storeID : String)

def ConsistentHashRouter.next (hash : String → Point) (r : ConsistentHashRouter) :
    RouterOp → ConsistentHashRouter
  | .addStore storeInfo => r.addStore hash storeInfo
  | .removeStore storeID => r.removeStore storeID

def ConsistentHashRouter.run (hash : String → Point) (ops : List RouterOp)
    (r : ConsistentHashRouter) : ConsistentHashRouter :=
  ops.foldl (fun r op => r.next hash op) r

/-- The ring is sorted, its points belong to stores that are there, and as long
as there is a store every key is sent to one. -/
structure Sound (hash : String → Point) (r : ConsistentHashRouter) : Prop where
  sorted : r.hashRing.nodes.Pairwise (· ≤ ·)
  mapped : ∀ point ∈ r.hashRing.nodes, ∃ id, r.hashRing.nodeMap point = some id ∧
    (r.stores id).isSome
  routed : (∃ id, (r.stores id).isSome) → ∀ key, (r.stores (r.hashRing.getNode hash key)).isSome

/-- No point of a store that is about to go stands twice on the ring. -/
def ConsistentHashRouter.Clean (r : ConsistentHashRouter) : RouterOp → Prop
  | .addStore _ => True
  | .removeStore storeID => ∀ point, r.hashRing.nodeMap point = some storeID →
      r.hashRing.nodes.count point ≤ 1

/-- What `Clean` steps keep. Points of two stores at one place stand there twice. -/
structure Whole (hash : String → Point) (v : Int) (r : ConsistentHashRouter) : Prop where
  virtuals : r.hashRing.virtuals = v
  sorted : r.hashRing.nodes.Pairwise (· ≤ ·)
  mapped : ∀ point ∈ r.hashRing.nodes, ∃ id, r.hashRing.nodeMap point = some id ∧
    (r.stores id).isSome ∧ point ∈ r.hashRing.points hash id
  present : ∀ id, (r.stores id).isSome → ∀ point ∈ r.hashRing.points hash id,
    point ∈ r.hashRing.nodes
  shared : ∀ id id', id ≠ id' → (r.stores id).isSome → (r.stores id').isSome →
    ∀ point ∈ r.hashRing.points hash id, point ∈ r.hashRing.points hash id' →
      2 ≤ r.hashRing.nodes.count point

section Whole
variable {hash : String → Point} {v : Int} {r : ConsistentHashRouter}

theorem whole_new : Whole hash v (newConsistentHashRouter v) :=
  ⟨rfl,List.Pairwise.nil,by simp [newConsistentHashRouter,newHashRing],
    by simp [newConsistentHashRouter],by simp [newConsistentHashRouter]⟩

theorem Whole.sound (hv : 1 ≤ v) (h : Whole hash v r) : Sound hash r := by
  refine ⟨h.sorted,?_,?_⟩
  · intro point hp
    obtain ⟨id,hid,hstore,-⟩ := h.mapped point hp
    exact ⟨id,hid,hstore⟩
  · rintro ⟨id,hid⟩ key
    have hpoint : hash (virtualLabel id 0) ∈ r.hashRing.points hash id := by
      refine List.mem_map_of_mem (List.mem_range.mpr ?_)
      rw [h.virtuals]
      omega
    have hne : r.hashRing.nodes ≠ [] := List.ne_nil_of_mem (h.present id hid _ hpoint)
    obtain ⟨point,hc,hget⟩ := HashRing.getNode_clockwise h.sorted hne key
    obtain ⟨owner,howner,hstore,-⟩ := h.mapped point hc.mem
    rw [hget,howner]
    exact hstore

theorem HashRing.points_addNode {hr : HashRing} {nodeID id : String} :
    (hr.addNode hash nodeID).points hash id = hr.points hash id := by
  simp only [HashRing.points,HashRing.addNode_virtuals]

theorem HashRing.count_addNode {hr : HashRing} {nodeID : String} (point : Point) :
    (hr.addNode hash nodeID).nodes.count point =
      hr.nodes.count point + (hr.points hash nodeID).count point := by
  rw [HashRing.addNode_perm.count_eq,List.count_append]

theorem Whole.addStore (h : Whole hash v r) (storeInfo : StoreInfo) :
    Whole hash v (r.addStore hash storeInfo) := by
  have hstores : ∀ id, ((r.addStore hash storeInfo).stores id).isSome ↔
      id = storeInfo.id ∨ (r.stores id).isSome := by
    intro id
    by_cases hid : id = storeInfo.id <;> simp [ConsistentHashRouter.addStore,hid]
  have hmem : ∀ point, point ∈ (r.hashRing.addNode hash storeInfo.id).nodes ↔
      point ∈ r.hashRing.nodes ∨ point ∈ r.hashRing.points hash storeInfo.id := by
    intro point
    rw [HashRing.addNode_perm.mem_iff,List.mem_append]
  refine ⟨HashRing.addNode_virtuals.trans h.virtuals,HashRing.addNode_sorted,?_,?_,?_⟩
  · intro point hp
    simp only [ConsistentHashRouter.addStore,HashRing.points_addNode,
      HashRing.addNode_nodeMap] at hp ⊢
    by_cases hnew : point ∈ r.hashRing.points hash storeInfo.id
    · exact ⟨storeInfo.id,by rw [if_pos hnew],by simp,hnew⟩
    · obtain ⟨id,hid,hstore,hpoint⟩ := h.mapped point (((hmem point).mp hp).resolve_right hnew)
      exact ⟨id,by rw [if_neg hnew]; exact hid,(hstores id).mpr (Or.inr hstore),hpoint⟩
  · intro id hid point hp
    simp only [ConsistentHashRouter.addStore,HashRing.points_addNode] at hp ⊢
    rcases (hstores id).mp hid with rfl | hid
    · exact (hmem point).mpr (Or.inr hp)
    · exact (hmem point).mpr (Or.inl (h.present id hid point hp))
  · intro id id' hne hid hid' point hp hp'
    simp only [ConsistentHashRouter.addStore,HashRing.points_addNode,
      HashRing.count_addNode] at hp hp' ⊢
    -- one of the two is an old store: its copy is there already
    have hold : ∀ a b, a ≠ b → (b = storeInfo.id ∨ (r.stores b).isSome) → a = storeInfo.id →
        point ∈ r.hashRing.points hash a → point ∈ r.hashRing.points hash b →
        2 ≤ r.hashRing.nodes.count point + (r.hashRing.points hash storeInfo.id).count point := by
      rintro a b hab hb rfl hpa hpb
      have hin := h.present b (hb.resolve_left fun hbs => hab hbs.symm) point hpb
      have := List.count_pos_iff.mpr hin
      have := List.count_pos_iff.mpr hpa
      omega
    rcases (hstores id).mp hid with hs | hid₀
    · exact hold id id' hne ((hstores id').mp hid') hs hp hp'
    · rcases (hstores id').mp hid' with hs' | hid₀'
      · exact hold id' id hne.symm (Or.inr hid₀) hs' hp' hp
      · have := h.shared id id' hne hid₀ hid₀' point hp hp'
        omega

/-- On the ring of a clean step the points of the store go and the others stay. -/
theorem Whole.removed_count (h : Whole hash v r) {storeID : String}
    (hclean : r.Clean (.removeStore storeID)) (point : Point) :
    (r.hashRing.removeNode storeID).nodes.count point =
      if r.hashRing.nodeMap point = some storeID then 0 else r.hashRing.nodes.count point := by
  rw [HashRing.removeNode_count]
  by_cases hp : point ∈ r.hashRing.nodes
  · obtain ⟨id,hid,-⟩ := h.mapped point hp
    rw [hid]
    by_cases hs : id = storeID
    · have := hclean point (hs ▸ hid)
      simp only [hs,Option.getD_some,ne_eq,not_true_eq_false,if_false,if_true]
      split <;> omega
    · simp [hs]
  · rw [List.count_eq_zero.mpr hp]
    split <;> split <;> simp

theorem Whole.removeStore (h : Whole hash v r) {storeID : String}
    (hclean : r.Clean (.removeStore storeID)) : Whole hash v (r.removeStore storeID) := by
  have hstores : ∀ id, ((r.removeStore storeID).stores id).isSome ↔
      id ≠ storeID ∧ (r.stores id).isSome := by
    intro id
    by_cases hid : id = storeID <;> simp [ConsistentHashRouter.removeStore,hid]
  -- a point of a store that stays is not the leaving store's
  have hstays : ∀ id, id ≠ storeID → (r.stores id).isSome → ∀ point ∈ r.hashRing.points hash id,
      r.hashRing.nodeMap point ≠ some storeID := by
    intro id hne hid point hp hmap
    obtain ⟨owner,howner,hstore,hpoint⟩ := h.mapped point (h.present id hid point hp)
    obtain rfl : storeID = owner := Option.some.inj (hmap.symm.trans howner)
    have := h.shared id storeID hne hid hstore point hp hpoint
    have := hclean point hmap
    omega
  have hcount := h.removed_count hclean
  refine ⟨h.virtuals,h.sorted.sublist HashRing.removeNode_sublist,?_,?_,?_⟩
  · intro point hp
    have hpos := List.count_pos_iff.mpr hp
    simp only [ConsistentHashRouter.removeStore,hcount] at hpos
    have hmap : r.hashRing.nodeMap point ≠ some storeID := fun hm => by simp [hm] at hpos
    obtain ⟨id,hid,hstore,hpoint⟩ := h.mapped point (HashRing.removeNode_sublist.subset hp)
    have hne : id ≠ storeID := fun he => hmap (he ▸ hid)
    refine ⟨id,?_,(hstores id).mpr ⟨hne,hstore⟩,hpoint⟩
    simp only [ConsistentHashRouter.removeStore,HashRing.removeNode_nodeMap,hid,Option.getD_some]
    rw [if_neg fun hc => hne hc.2]
  · intro id hid point hp
    obtain ⟨hne,hid⟩ := (hstores id).mp hid
    refine List.count_pos_iff.mp ?_
    have hin := List.count_pos_iff.mpr (h.present id hid point hp)
    simp only [ConsistentHashRouter.removeStore,hcount]
    rw [if_neg (hstays id hne hid point hp)]
    exact hin
  · intro id id' hdiff hid hid' point hp hp'
    obtain ⟨hne,hid⟩ := (hstores id).mp hid
    obtain ⟨-,hid'⟩ := (hstores id').mp hid'
    simp only [ConsistentHashRouter.removeStore,hcount]
    rw [if_neg (hstays id hne hid point hp)]
    exact h.shared id id' hdiff hid hid' point hp hp'

theorem Whole.next (h : Whole hash v r) (op : RouterOp) (hclean : r.Clean op) :
    Whole hash v (r.next hash op) := by
  cases op with
  | addStore storeInfo => exact h.addStore storeInfo
  | removeStore storeID => exact h.removeStore hclean

/-- The second copy of a point stays behind without an owner. -/
theorem not_sound_of_copies {storeID : String} (hne : storeID ≠ "") {point : Point}
    (hmap : r.hashRing.nodeMap point = some storeID) (hcopies : 2 ≤ r.hashRing.nodes.count point) :
    ¬ Sound hash (r.removeStore storeID) := by
  intro hs
  have hcount : 0 < (r.hashRing.removeNode storeID).nodes.count point := by
    rw [HashRing.removeNode_count,hmap]
    simp only [Option.getD_some,ne_eq,not_true_eq_false,if_false,hne]
    omega
  obtain ⟨id,hid,-⟩ := hs.mapped point (List.count_pos_iff.mp hcount)
  have hin : point ∈ r.hashRing.nodes := List.count_pos_iff.mp (by omega)
  simp [ConsistentHashRouter.removeStore,HashRing.removeNode_nodeMap,hmap,hin] at hid

end Whole

/-- The ring stays in order in every run that removes a store only when none of
its points stands twice on the ring, and in no run that removes one (with an ID
that is not empty) when one does. -/
theorem ring_sound_iff_removed_once (hash : String → Point) (v : Int) (hv : 1 ≤ v) :
    (∀ ops r, Steps (fun op a b => a.Clean op ∧ b = a.next hash op) (newConsistentHashRouter v)
      ops r → Sound hash r) ∧
    ∀ ops storeID, storeID ≠ "" →
      ¬ (ConsistentHashRouter.run hash ops (newConsistentHashRouter v)).Clean
        (.removeStore storeID) →
      ¬ Sound hash (ConsistentHashRouter.run hash (ops ++ [.removeStore storeID])
        (newConsistentHashRouter v)) := by
  refine ⟨?_,?_⟩
  · intro ops r hrun
    have hw : Whole hash v r := by
      refine hrun.invariant ?_ whole_new
      rintro op a _ ha ⟨hclean,rfl⟩
      exact ha.next op hclean
    exact hw.sound hv
  · intro ops storeID hne hdirty
    simp only [ConsistentHashRouter.Clean,not_forall] at hdirty
    obtain ⟨point,hmap,hcopies⟩ := hdirty
    simp only [ConsistentHashRouter.run,List.foldl_append,List.foldl_cons,List.foldl_nil]
    exact not_sound_of_copies hne hmap (by
      simp only [ConsistentHashRouter.run] at hcopies
      omega)

/-- A store of the given ID, as a heartbeat reports it. -/
def activeStore (id : String) : StoreInfo := ⟨id,id ++ ":9000","active",0⟩

/-- Two stores, of which the first one goes: `Clean` all along. -/
theorem ring_sound_iff_removed_once_two_stores :
    Sound charSum (ConsistentHashRouter.run charSum
      [.addStore (activeStore "a"),.addStore (activeStore "b"),.removeStore "a"]
      (newConsistentHashRouter 1)) := by
  refine (ring_sound_iff_removed_once charSum 1 (by decide)).1
    [.addStore (activeStore "a"),.addStore (activeStore "b"),.removeStore "a"] _ ?_
  refine .more ⟨trivial,rfl⟩ (.more ⟨trivial,rfl⟩ (.more ⟨?_,rfl⟩ (.done _)))
  intro point _
  exact List.nodup_iff_count_le_one.mp (by decide +kernel) point

/-- Store `a` is refreshed and then goes. Its second copy stays on the ring, and
the key `a:0` is sent to no store although `b` is there. -/
theorem refreshed_store_leaves_point_behind :
    ¬ (∀ ops, Sound charSum (ConsistentHashRouter.run charSum ops (newConsistentHashRouter 1))) ∧
    (ConsistentHashRouter.run charSum [.addStore (activeStore "b"),.addStore (activeStore "a"),
      .addStore (activeStore "a"),.removeStore "a"] (newConsistentHashRouter 1)).hashRing.getNode
        charSum "a:0" = "" := by
  have hget : (ConsistentHashRouter.run charSum [.addStore (activeStore "b"),
      .addStore (activeStore "a"),.addStore (activeStore "a"),.removeStore "a"]
      (newConsistentHashRouter 1)).hashRing.getNode charSum "a:0" = "" := by decide +kernel
  refine ⟨fun hall => ?_,hget⟩
  have hs := (hall [.addStore (activeStore "b"),.addStore (activeStore "a"),
    .addStore (activeStore "a"),.removeStore "a"]).routed ⟨"b",by decide +kernel⟩ "a:0"
  rw [hget] at hs
  exact absurd hs (by decide +kernel)

end Imy.Router
