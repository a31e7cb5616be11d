import Imy.Router.HashRing
set_option autoImplicit false

namespace Imy.Router
open Imy.Lib

theorem virtualLabel_injective {n n' : String} {i i' : Nat}
    (h : virtualLabel n i = virtualLabel n' i') : n = n' ∧ i = i' := by
  obtain ⟨hn,hi⟩ := colon_decimal_injective h
  exact ⟨hn,Int.ofNat.inj hi⟩

/-- The labels of the virtual nodes of the nodes in `ids`. -/
def virtualLabels (v : Int) (ids : Set String) : Set String :=
  {label | ∃ n ∈ ids, ∃ i < v.toNat, label = virtualLabel n i}

/-- The rings that adding absent nodes of `ids` and removing any nodes leads to,
with the set of the nodes present. -/
inductive Built (hash : String → Point) (v : Int) (ids : Set String) :
    Set String → HashRing → Prop where
  | new : Built hash v ids ∅ (newHashRing v)
  | addNode {s : Set String} {hr : HashRing} (h : Built hash v ids s hr) {n : String}
      (hid : n ∈ ids) (habsent : n ∉ s) : Built hash v ids (insert n s) (hr.addNode hash n)
  | removeNode {s : Set String} {hr : HashRing} (h : Built hash v ids s hr) (m : String) :
      Built hash v ids (s \ {m}) (hr.removeNode m)

structure Canonical (hash : String → Point) (v : Int) (s : Set String) (hr : HashRing) : Prop where
  virtuals : hr.virtuals = v
  sorted : hr.nodes.Pairwise (· < ·)
  mem : ∀ point, point ∈ hr.nodes ↔ ∃ n ∈ s, ∃ i < v.toNat, point = hash (virtualLabel n i)
  owner : ∀ n ∈ s, ∀ i < v.toNat, hr.nodeMap (hash (virtualLabel n i)) = some n

section Ring
variable {hash : String → Point} {v : Int} {ids s t : Set String} {hr hr' : HashRing}

theorem canonical_new : Canonical hash v ∅ (newHashRing v) :=
  ⟨rfl,List.Pairwise.nil,by simp [newHashRing],by simp⟩

theorem HashRing.mem_points (hash : String → Point) (n : String) (point : Point)
    (hv : hr.virtuals = v) :
    point ∈ hr.points hash n ↔ ∃ i < v.toNat, point = hash (virtualLabel n i) := by
  simp only [HashRing.points,hv,List.mem_map,List.mem_range]
  constructor
  · rintro ⟨i,hi,rfl⟩
    exact ⟨i,hi,rfl⟩
  · rintro ⟨i,hi,rfl⟩
    exact ⟨i,hi,rfl⟩

theorem Canonical.addNode (hinj : Set.InjOn hash (virtualLabels v ids)) (hs : s ⊆ ids)
    (h : Canonical hash v s hr) {n : String} (hid : n ∈ ids) (habsent : n ∉ s) :
    Canonical hash v (insert n s) (hr.addNode hash n) := by
  have hmem := fun point => HashRing.mem_points hash n point h.virtuals
  have hdisj : ∀ n' ∈ s, ∀ i < v.toNat, hash (virtualLabel n' i) ∉ hr.points hash n := by
    intro n' hn' i hi hp
    obtain ⟨j,hj,he⟩ := (hmem _).mp hp
    have hl := hinj ⟨n',hs hn',i,hi,rfl⟩ ⟨n,hid,j,hj,rfl⟩ he
    exact habsent ((virtualLabel_injective hl).1 ▸ hn')
  have hnodup : (hr.nodes ++ hr.points hash n).Nodup := by
    refine List.nodup_append'.mpr ⟨h.sorted.imp fun hlt => ne_of_lt hlt,?_,?_⟩
    · refine List.nodup_range.map_on fun i hi j hj he => ?_
      rw [h.virtuals,List.mem_range] at hi hj
      exact (virtualLabel_injective (hinj ⟨n,hid,i,hi,rfl⟩ ⟨n,hid,j,hj,rfl⟩ he)).2
    · intro point hold hnew
      obtain ⟨n',hn',i,hi,rfl⟩ := (h.mem point).mp hold
      exact hdisj n' hn' i hi hnew
  have hsorted : (hr.addNode hash n).nodes.Pairwise (· < ·) := by
    have hne : (hr.addNode hash n).nodes.Pairwise (· ≠ ·) :=
      HashRing.addNode_perm.nodup_iff.mpr hnodup
    exact (HashRing.addNode_sorted.and hne).imp fun hab => lt_of_le_of_ne hab.1 hab.2
  refine ⟨HashRing.addNode_virtuals.trans h.virtuals,hsorted,?_,?_⟩
  · intro point
    rw [HashRing.addNode_perm.mem_iff,List.mem_append,h.mem,hmem]
    simp only [Set.mem_insert_iff,or_and_right,exists_or,exists_eq_left]
    exact Or.comm
  · intro n' hn' i hi
    rw [HashRing.addNode_nodeMap]
    rcases hn' with rfl | hn'
    · rw [if_pos ((hmem _).mpr ⟨i,hi,rfl⟩)]
    · rw [if_neg (hdisj n' hn' i hi)]
      exact h.owner n' hn' i hi

theorem Canonical.removeNode (h : Canonical hash v s hr) (m : String) :
    Canonical hash v (s \ {m}) (hr.removeNode m) := by
  have hnodup : hr.nodes.Nodup := h.sorted.imp fun hlt => ne_of_lt hlt
  have hkept : ∀ point, point ∈ (hr.removeNode m).nodes ↔
      point ∈ hr.nodes ∧ (hr.nodeMap point).getD "" ≠ m := by
    intro point
    have hone := List.nodup_iff_count_le_one.mp hnodup point
    rw [← List.count_pos_iff,HashRing.removeNode_count]
    by_cases hm : (hr.nodeMap point).getD "" = m
    · simp only [hm,ne_eq,not_true_eq_false,if_false,and_false,iff_false]
      split <;> omega
    · simp [hm]
  refine ⟨h.virtuals,h.sorted.sublist HashRing.removeNode_sublist,?_,?_⟩
  · intro point
    rw [hkept,h.mem]
    constructor
    · rintro ⟨⟨n,hn,i,hi,rfl⟩,hne⟩
      rw [h.owner n hn i hi] at hne
      exact ⟨n,⟨hn,hne⟩,i,hi,rfl⟩
    · rintro ⟨n,⟨hn,hne⟩,i,hi,rfl⟩
      refine ⟨⟨n,hn,i,hi,rfl⟩,?_⟩
      rw [h.owner n hn i hi]
      exact hne
  · rintro n ⟨hn,hne⟩ i hi
    have hown := h.owner n hn i hi
    rw [HashRing.removeNode_nodeMap,hown,if_neg]
    rintro ⟨-,hm⟩
    exact hne hm

theorem Built.subset (h : Built hash v ids s hr) : s ⊆ ids := by
  induction h with
  | new => exact Set.empty_subset ids
  | addNode _ hid _ ih => exact Set.insert_subset hid ih
  | removeNode _ m ih => exact Set.sdiff_subset.trans ih

theorem Built.canonical (hinj : Set.InjOn hash (virtualLabels v ids))
    (h : Built hash v ids s hr) : Canonical hash v s hr := by
  induction h with
  | new => exact canonical_new
  | addNode h hid habsent ih => exact ih.addNode hinj h.subset hid habsent
  | removeNode _ m ih => exact ih.removeNode m

/-- Every key has an owner as long as some node is present. -/
theorem Canonical.owner_of_nonempty (hv : 1 ≤ v) (h : Canonical hash v s hr) (hne : s.Nonempty)
    (key : String) : ∃ n ∈ s, ∃ i < v.toNat,
      Clockwise {z | z ∈ hr.nodes} (hash key) (hash (virtualLabel n i)) ∧
        hr.getNode hash key = n := by
  obtain ⟨n₀,hn₀⟩ := hne
  have hnodes : hr.nodes ≠ [] :=
    List.ne_nil_of_mem ((h.mem _).mpr ⟨n₀,hn₀,0,by omega,rfl⟩)
  obtain ⟨point,hc,hget⟩ := HashRing.getNode_clockwise (h.sorted.imp le_of_lt) hnodes key
  obtain ⟨n,hn,i,hi,rfl⟩ := (h.mem point).mp hc.mem
  rw [h.owner n hn i hi] at hget
  exact ⟨n,hn,i,hi,hc,hget⟩

theorem Canonical.getNode_of_empty (h : Canonical hash v s hr) (hempty : s = ∅ ∨ v < 1)
    (key : String) : hr.getNode hash key = "" := by
  have hnodes : hr.nodes = [] := by
    refine List.eq_nil_iff_forall_not_mem.mpr fun point hp => ?_
    obtain ⟨n,hn,i,hi,-⟩ := (h.mem point).mp hp
    rcases hempty with rfl | hv
    · exact hn
    · omega
  simp [HashRing.getNode,hnodes]

/-- A key whose owner on the larger ring is on the smaller one has that owner there too. -/
theorem Canonical.getNode_subset (hv : 1 ≤ v) (hst : s ⊆ t) (hs : Canonical hash v s hr)
    (ht : Canonical hash v t hr') (key : String) :
    hr.getNode hash key = hr'.getNode hash key ∨
      (hr'.nodes ≠ [] ∧ hr'.getNode hash key ∈ t \ s) := by
  rcases Set.eq_empty_or_nonempty t with rfl | hne
  · obtain rfl := Set.subset_empty_iff.mp hst
    exact Or.inl ((hs.getNode_of_empty (Or.inl rfl) key).trans
      (ht.getNode_of_empty (Or.inl rfl) key).symm)
  obtain ⟨n,hn,i,hi,hc,hget⟩ := ht.owner_of_nonempty hv hne key
  by_cases hns : n ∈ s
  · obtain ⟨n',hn',i',hi',hc',hget'⟩ := hs.owner_of_nonempty hv ⟨n,hns⟩ key
    have hsub : {z | z ∈ hr.nodes} ⊆ {z | z ∈ hr'.nodes} := by
      intro z hz
      obtain ⟨a,ha,j,hj,rfl⟩ := (hs.mem z).mp hz
      exact (ht.mem _).mpr ⟨a,hst ha,j,hj,rfl⟩
    have hsame := (hc.subset hsub ((hs.mem _).mpr ⟨n,hns,i,hi,rfl⟩)).unique hc'
    have howner := hs.owner n hns i hi
    rw [hsame,hs.owner n' hn' i' hi'] at howner
    exact Or.inl (hget'.trans ((Option.some.inj howner).trans hget.symm))
  · exact Or.inr ⟨List.ne_nil_of_mem hc.mem,hget ▸ ⟨hn,hns⟩⟩

end Ring

/-- The key belongs to the node; an empty ring has no owners and answers with
the empty string. -/
def HashRing.Owned (hash : String → Point) (hr : HashRing) (key nodeID : String) : Prop :=
  hr.nodes ≠ [] ∧ hr.getNode hash key = nodeID

/-- A node that comes takes keys for itself only, and a node that goes leaves the
keys of the others where they are. -/
theorem keys_move_only_as_needed (hash : String → Point) (v : Int) (hv : 1 ≤ v) (ids s : Set String)
    (hinj : Set.InjOn hash (virtualLabels v ids)) (hr : HashRing) (hb : Built hash v ids s hr) :
    (∀ n ∈ ids, n ∉ s → ∀ key, (hr.addNode hash n).getNode hash key = hr.getNode hash key ∨
      (hr.addNode hash n).getNode hash key = n) ∧
    (∀ m key, ¬ hr.Owned hash key m →
      (hr.removeNode m).getNode hash key = hr.getNode hash key) ∧
    ∀ m key, ¬ (hr.removeNode m).Owned hash key m := by
  have hc := hb.canonical hinj
  refine ⟨?_,?_,?_⟩
  · intro n hid habsent key
    have hc' := (hb.addNode hid habsent).canonical hinj
    rcases Canonical.getNode_subset hv (Set.subset_insert n s) hc hc' key with heq | ⟨-,hmem⟩
    · exact Or.inl heq.symm
    · exact Or.inr (hmem.1.resolve_right hmem.2)
  · intro m key hnot
    have hc' := (hb.removeNode m).canonical hinj
    rcases Canonical.getNode_subset hv Set.sdiff_subset hc' hc key with heq | ⟨hne,hmem⟩
    · exact heq
    · rw [Set.sdiff_sdiff_right_self] at hmem
      exact (hnot ⟨hne,hmem.2⟩).elim
  · rintro m key ⟨hne,hget⟩
    have hc' := (hb.removeNode m).canonical hinj
    have hnonempty : (s \ {m}).Nonempty := by
      obtain ⟨point,hp⟩ := List.exists_mem_of_ne_nil _ hne
      obtain ⟨n,hn,-⟩ := (hc'.mem point).mp hp
      exact ⟨n,hn⟩
    obtain ⟨n,hn,-,-,-,howner⟩ := hc'.owner_of_nonempty hv hnonempty key
    exact hn.2 (howner.symm.trans hget)

/-- A hash that is easy to compute. -/
def charSum (s : String) : Point :=
  Fin.ofNat (2^32) (s.toList.foldl (fun n c => 31*n+c.toNat) 0)

theorem charSum_injOn : Set.InjOn charSum (virtualLabels 1 {"a","b"}) := by
  rintro _ ⟨n,hn,i,hi,rfl⟩ _ ⟨n',hn',i',hi',rfl⟩ heq
  obtain rfl : i = 0 := Nat.lt_one_iff.mp hi
  obtain rfl : i' = 0 := Nat.lt_one_iff.mp hi'
  rcases hn with rfl | rfl <;> rcases hn' with rfl | rfl
  · rfl
  · exact absurd heq (by decide +kernel)
  · exact absurd heq (by decide +kernel)
  · rfl

theorem keys_move_only_as_needed_two_nodes :
    ((newHashRing 1).addNode charSum "a").Owned charSum "k" "a" ∧
      ((((newHashRing 1).addNode charSum "a").addNode charSum "b").removeNode "a").getNode
        charSum "k" ≠ "a" := by
  have hb : Built charSum 1 {"a","b"} (insert "b" (insert "a" ∅))
      (((newHashRing 1).addNode charSum "a").addNode charSum "b") :=
    (Built.new.addNode (by simp) (by simp)).addNode (by simp) (by simp)
  have hmove := keys_move_only_as_needed charSum 1 (by decide) {"a","b"} _ charSum_injOn _ hb
  refine ⟨⟨by decide +kernel,by decide +kernel⟩,fun heq => ?_⟩
  exact hmove.2.2 "a" "k" ⟨by decide +kernel,heq⟩

/-- Which node a key goes to depends on the nodes that are present, not on how
they came to be. -/
theorem getNode_determined_by_nodes (hash : String → Point) (v : Int) (ids s : Set String)
    (hinj : Set.InjOn hash (virtualLabels v ids)) (hr hr' : HashRing)
    (hb : Built hash v ids s hr) (hb' : Built hash v ids s hr') (key : String) :
    hr.getNode hash key = hr'.getNode hash key := by
  have hc := hb.canonical hinj
  have hc' := hb'.canonical hinj
  rcases lt_or_ge v 1 with hv | hv
  · rw [hc.getNode_of_empty (Or.inr hv),hc'.getNode_of_empty (Or.inr hv)]
  · rcases Canonical.getNode_subset hv (Set.Subset.refl s) hc hc' key with heq | ⟨-,hmem⟩
    · exact heq
    · exact (hmem.2 hmem.1).elim

theorem getNode_determined_by_nodes_two_orders :
    (((newHashRing 1).addNode charSum "a").addNode charSum "b").getNode charSum "k" =
      ((((newHashRing 1).addNode charSum "b").addNode charSum "a").removeNode "c").getNode
        charSum "k" := by
  have hb : Built charSum 1 {"a","b"} (insert "b" (insert "a" ∅))
      (((newHashRing 1).addNode charSum "a").addNode charSum "b") :=
    (Built.new.addNode (by simp) (by simp)).addNode (by simp) (by simp)
  have hb' : Built charSum 1 {"a","b"} (insert "a" (insert "b" ∅) \ {"c"})
      ((((newHashRing 1).addNode charSum "b").addNode charSum "a").removeNode "c") :=
    ((Built.new.addNode (by simp) (by simp)).addNode (by simp) (by simp)).removeNode "c"
  have hset : (insert "a" (insert "b" ∅) \ {"c"} : Set String) = insert "b" (insert "a" ∅) := by
    ext x
    simp only [Set.mem_sdiff,Set.mem_insert_iff,Set.mem_empty_iff_false,or_false,
      Set.mem_singleton_iff]
    constructor
    · rintro ⟨h | h,-⟩
      · exact Or.inr h
      · exact Or.inl h
    · rintro (rfl | rfl)
      · exact ⟨Or.inr rfl,by decide⟩
      · exact ⟨Or.inl rfl,by decide⟩
  exact getNode_determined_by_nodes charSum 1 {"a","b"} _ charSum_injOn _ _ hb
    (hset ▸ hb') "k"

end Imy.Router
