import Imy.Access.Reached
set_option autoImplicit false

namespace Imy.Access
open Imy.Lib Imy.Storage

section Selection
variable (q : Query)

theorem cacheKey_injective {q q' : Query} (h : q.cacheKey = q'.cacheKey) : q = q' := by
  obtain ⟨k,startTime,endTime,limit⟩ := q
  obtain ⟨k',startTime',endTime',limit'⟩ := q'
  obtain ⟨h,rfl⟩ := colon_decimal_injective h
  obtain ⟨h,rfl⟩ := colon_decimal_injective h
  obtain ⟨rfl,rfl⟩ := colon_decimal_injective h
  rfl

theorem collectBlock_eq (msgs acc : List Message) (hacc : (acc.length : Int) < q.limit) :
    collectBlock q msgs acc = acc ++ (msgs.filter q.InRange).take (q.limit.toNat-acc.length) := by
  induction msgs generalizing acc with
  | nil => simp [collectBlock]
  | cons msg rest ih =>
    by_cases hin : q.InRange msg
    · rw [collectBlock,if_pos hin,List.filter_cons_of_pos (by simpa using hin)]
      split
      · rename_i hfull
        simp only [List.length_append,List.length_singleton] at hfull
        have hone : q.limit.toNat-acc.length = 1 := by omega
        simp [hone]
      · rename_i hroom
        have hlen : (acc ++ [msg]).length = acc.length+1 := by simp
        rw [ih _ (by omega),hlen]
        have hnext : q.limit.toNat-acc.length = q.limit.toNat-(acc.length+1)+1 := by omega
        rw [hnext,List.take_succ_cons,List.append_assoc]
        rfl
    · rw [collectBlock,if_neg hin,List.filter_cons_of_neg (by simpa using hin),ih acc hacc]

theorem collectBlocks_eq (blocks : List TimelineBlock) (acc : List Message)
    (hacc : (acc.length : Int) < q.limit) :
    collectBlocks q blocks acc =
      acc ++ ((blocks.flatMap (·.messages)).filter q.InRange).take (q.limit.toNat-acc.length) := by
  induction blocks generalizing acc with
  | nil => simp [collectBlocks]
  | cons block rest ih =>
    rw [collectBlocks,collectBlock_eq q block.messages acc hacc,List.flatMap_cons,
      List.filter_append,List.take_append]
    generalize hmine : block.messages.filter q.InRange = mine
    split
    · rename_i hfull
      simp only [List.length_append,List.length_take] at hfull
      have hnone : q.limit.toNat-acc.length-mine.length = 0 := by omega
      simp [hnone]
    · rename_i hroom
      simp only [List.length_append,List.length_take] at hroom
      rw [ih _ (by simpa using hroom),List.append_assoc]
      congr 3
      simp only [List.length_append,List.length_take]
      omega

/-- The messages of the timeline that are asked for, however many. -/
def Query.matching (g : Accessor) : List Message :=
  (g.host.messages ⟨.conv,q.timelineKey⟩).filter q.InRange

def Query.selected (g : Accessor) : List Message := (q.matching g).take q.limit.toNat

theorem collected_eq_selected (hlimit : 1 ≤ q.limit) (g : Accessor) :
    collectBlocks q (g.host.timeline ⟨.conv,q.timelineKey⟩).blocks [] = q.selected g := by
  rw [collectBlocks_eq q _ [] (by rw [List.length_nil]; omega)]
  rfl

end Selection

section Steps
variable {around : Around} {g t u : Accessor}

/-- What messages and reads leave: the index, the timelines as far as they go, and every
answer in the cache. -/
structure Onward (g t : Accessor) : Prop where
  index : t.index = g.index
  storeID : t.host.store.storeID = g.host.store.storeID
  grown : ∀ r, (g.host.store.find r).isSome → (t.host.store.find r).isSome ∧
    g.host.messages r <+: t.host.messages r
  cached : ∀ key messages, g.messageCache key = some messages → t.messageCache key = some messages

theorem Onward.refl (g : Accessor) : Onward g g :=
  ⟨rfl,rfl,fun _ hr => ⟨hr,List.prefix_rfl⟩,fun _ _ h => h⟩

theorem Onward.trans (a : Onward g t) (b : Onward t u) : Onward g u where
  index := b.index.trans a.index
  storeID := b.storeID.trans a.storeID
  grown r hr := ⟨(b.grown r (a.grown r hr).1).1,(a.grown r hr).2.trans
    (b.grown r (a.grown r hr).1).2⟩
  cached key messages h := b.cached key messages (a.cached key messages h)

theorem Onward.holds (h : Onward g t) {k : String} (hheld : g.Holds k) : t.Holds k := by
  rw [Accessor.Holds,h.index,h.storeID]
  exact hheld

theorem Onward.matching (h : Onward g t) (q : Query)
    (hf : (g.host.store.find ⟨.conv,q.timelineKey⟩).isSome) :
    q.matching g <+: q.matching t :=
  (h.grown _ hf).2.filter _

inductive MessageOp where
  | addMessage (timelineKey : String) (senderID : UInt32) (data : List UInt8)
    (userIDs : List String)
  | getMessages (q : Query)

def MessageOp.op : MessageOp → AccessOp
  | .addMessage k senderID data userIDs => .addMessage k senderID data userIDs
  | .getMessages q => .getMessages q

def MessageOp.timelineKey : MessageOp → String
  | .addMessage k _ _ _ => k
  | .getMessages q => q.timelineKey

/-- Messages and reads one after the other; one that fails is followed by the next. -/
def runMessages (around : Around) (ops : List MessageOp) (g : Accessor) : Accessor :=
  ops.foldl (fun g op => final (op.op.exec around) g) g

theorem runMessages_append (ops more : List MessageOp) (g : Accessor) :
    runMessages around (ops ++ more) g = runMessages around more (runMessages around ops g) :=
  List.foldl_append

theorem Fetched.onward {env : Env} {k : String} (hf : Fetched env k g t) : Onward g t := by
  have hframe := hf.ready.loadFrame
  rw [hf.state]
  refine ⟨rfl,hframe.storeID,fun r hr => ⟨(hf.ready.onward r hr).1,?_⟩,fun _ _ h => h⟩
  rcases hf.ready with ⟨-,hsame⟩ | ⟨hnone,hloaded⟩
  · rw [hsame]
    exact List.prefix_rfl
  · have hne : r ≠ ⟨.conv,k⟩ := by
      rintro rfl
      simp [hnone] at hr
    change _ <+: t.host.messages r
    simp only [Host.messages,hframe.toFrame.timeline hne]
    exact List.prefix_rfl

theorem sent_onward {h : Host} {msg : Message} {done : List TimelineRef}
    (hsent : Sent msg done g.host h)
    (hid : h.store.storeID = g.host.store.storeID) : Onward g (g.setHost h) :=
  ⟨rfl,hid,fun r hr => ⟨hsent.found r (Or.inl hr),by
    change _ <+: h.messages r
    rw [hsent.known r hr]
    exact List.prefix_append _ _⟩,fun _ _ h => h⟩

theorem keep_onward (q : Query) (messages : List Message)
    (hnone : g.messageCache q.cacheKey = none) :
    Onward g (g.keep q messages) := by
  refine ⟨by simp,by simp,fun _ hr => by simpa using hr,fun key messages' h => ?_⟩
  have hne : key ≠ q.cacheKey := by
    rintro rfl
    rw [hnone] at h
    cases h
  rw [Accessor.keep_messageCache]
  split
  · rw [Function.update_of_ne hne,h]
  · exact h

/-- Reading a timeline of the local store brings the conversation into memory. -/
theorem getTimeline_held (around : Around) (hs : g.Sound) {k : String} (hheld : g.Holds k) :
    ∃ t, getTimeline around k g = .ok ⟨.conv,k⟩ t ∧ Onward g t ∧ t.messageCache = g.messageCache ∧
      t.timelineCache k = some ⟨.conv,k⟩ ∧ (t.host.store.find ⟨.conv,k⟩).isSome := by
  obtain ⟨r,t,hrun,hgot⟩ := eq_ok_of_wp (wp_mono (wp_getTimeline around k g) (fun _ _ h => h)
    fun _ _ h => h.2.2 hheld.readable)
  rcases hgot with ⟨hcached,rfl⟩ | ⟨-,-,rfl,hf⟩
  · obtain ⟨rfl,hfound⟩ := hs.cached k r hcached
    exact ⟨t,hrun,Onward.refl t,rfl,hcached,hfound⟩
  · refine ⟨t,hrun,hf.onward,?_,?_,hf.ready.found⟩
    · rw [hf.state]
      rfl
    · rw [hf.state,Accessor.cacheTimeline_timelineCache,Function.update_self]

structure ReadThrough (env : Env) (q : Query) (g : Accessor) (messages : List Message)
    (t : Accessor) : Prop where
  held : g.Holds q.timelineKey
  found : (t.host.store.find ⟨.conv,q.timelineKey⟩).isSome
  collected : messages = collectBlocks q (t.host.timeline ⟨.conv,q.timelineKey⟩).blocks []
  cache : t.messageCache = (g.keep q messages).messageCache
  onward : Onward g t

theorem wp_getMessages_cached (hs : g.Sound) (q : Query) :
    wp (getMessages around q)
      (fun messages t => g.messageCache q.cacheKey = some messages ∧ t = g ∨
        g.messageCache q.cacheKey = none ∧ ReadThrough around.env q g messages t)
      (fun _ t => t = g ∧ g.messageCache q.cacheKey = none ∧ ¬ g.Holds q.timelineKey) g := by
  refine wp_mono (wp_getMessages around q g) ?_ (fun _ _ h => h)
  rintro messages t (hcached | ⟨hnone,hheld,r,u,hget,hcollected,rfl⟩)
  · exact Or.inl hcached
  · refine Or.inr ⟨hnone,?_⟩
    obtain ⟨_,hget',honward,hcache,-,hfound⟩ := getTimeline_held around hs hheld
    rw [hget] at hget'
    cases hget'
    refine ⟨hheld,by simpa using hfound,by simpa using hcollected,?_,
      honward.trans (keep_onward q messages (hcache ▸ hnone))⟩
    rw [Accessor.keep_messageCache,Accessor.keep_messageCache,hcache]

theorem getMessages_of_cached {q : Query} {messages : List Message}
    (hcached : g.messageCache q.cacheKey = some messages) :
    getMessages around q g = .ok messages g := by
  refine eq_ok_of_wp_eq ?_
  simp only [getMessages,wp_bind,wp_get,hcached,wp_pure,and_self]

theorem getTimeline_of_cached {k : String} {r : TimelineRef}
    (hcached : g.timelineCache k = some r) :
    getTimeline around k g = .ok r g := by
  refine eq_ok_of_wp_eq ?_
  simp only [getTimeline,wp_bind,wp_get,hcached,wp_pure,and_self]

theorem getMessages_held {q : Query} (hheld : g.Holds q.timelineKey)
    (hnone : g.messageCache q.cacheKey = none)
    (hget : getTimeline around q.timelineKey g = .ok ⟨.conv,q.timelineKey⟩ t) :
    ∃ messages, messages = collectBlocks q (t.host.timeline ⟨.conv,q.timelineKey⟩).blocks [] ∧
      getMessages around q g = .ok messages (t.keep q messages) := by
  obtain ⟨messages,u,hrun,hread⟩ :=
    eq_ok_of_wp (wp_mono (wp_getMessages around q g) (fun _ _ h => h)
    fun _ _ h => h.2.2 hheld)
  rcases hread with ⟨hcached,-⟩ | ⟨-,-,r,t',hget',hcollected,rfl⟩
  · rw [hnone] at hcached
    cases hcached
  · rw [hget] at hget'
    cases hget'
    exact ⟨messages,hcollected,hrun⟩

theorem exec_onward (around : Around) (op : MessageOp) (hs : g.Sound) :
    Onward g (final (op.op.exec around) g) := by
  refine final_of_wp ?_
  cases op with
  | addMessage k senderID data userIDs =>
    refine wp_addMessage (fun _ => ?_) fun _ _ => Onward.refl g
    refine wp_mono (wp_and (wp_send_sent around.env ⟨k,senderID,data,userIDs⟩ hs.pointed)
      (wp_send_storeID around.env ⟨k,senderID,data,userIDs⟩ hs.pointed)) ?_ ?_
    · exact fun _ h ⟨hsent,hid⟩ => sent_onward hsent hid
    · exact fun _ h ⟨⟨done,_,hsent,_⟩,hid⟩ => sent_onward hsent hid
  | getMessages q =>
    simp only [MessageOp.op,AccessOp.exec,wp_bind,wp_pure]
    refine wp_mono (wp_getMessages_cached hs q) ?_ ?_
    · rintro messages t (⟨-,rfl⟩ | ⟨-,hread⟩)
      · exact Onward.refl t
      · exact hread.onward
    · rintro _ t ⟨rfl,-⟩
      exact Onward.refl t

theorem runMessages_sound (around : Around) (ops : List MessageOp) (hs : g.Sound) :
    (runMessages around ops g).Sound := by
  induction ops generalizing g with
  | nil => exact hs
  | cons op ops ih => exact ih (final_of_wp (wp_exec_sound around op.op hs))

theorem runMessages_onward (around : Around) (ops : List MessageOp) (hs : g.Sound) :
    Onward g (runMessages around ops g) := by
  induction ops generalizing g with
  | nil => exact Onward.refl g
  | cons op ops ih =>
    exact (exec_onward around op hs).trans (ih (final_of_wp (wp_exec_sound around op.op hs)))

theorem runMessages_get (before : List MessageOp) (q : Query) (g : Accessor) :
    runMessages around (before ++ [MessageOp.getMessages q]) g =
      final (getMessages around q) (runMessages around before g) := by
  rw [runMessages_append]
  exact final_bind_pure _ _ _

end Steps

section Runs
variable (around : Around) (ops : List MessageOp) (g : Accessor)

/-- Every read with a limit gives the first messages of those that are stored. -/
def ReadsFresh : Prop := ∀ before q after, ops = before ++ .getMessages q :: after → 1 ≤ q.limit →
  wp (getMessages around q) (fun messages t => messages = q.selected t) (fun _ _ => False)
    (runMessages around before g)

/-- Between two equal reads nothing that they ask for was stored, unless the first found
nothing or as many messages as its limit. -/
def NoneMissed : Prop :=
  ∀ before q mid after, ops = before ++ .getMessages q :: (mid ++ .getMessages q :: after) →
  1 ≤ q.limit →
    let first := q.matching (runMessages around (before ++ [.getMessages q]) g)
    let later := q.matching (runMessages around (before ++ .getMessages q :: mid) g)
    first = [] ∨ q.limit ≤ (first.length : Int) ∨ later.length = first.length

variable {around ops g}

theorem ReadThrough.selected {env : Env} {q : Query} {messages : List Message} {t : Accessor}
    (hr : ReadThrough env q g messages t) (hlimit : 1 ≤ q.limit) : messages = q.selected t := by
  rw [hr.collected,collected_eq_selected q hlimit]

theorem final_get_cached (hs : g.Sound) {q q' : Query} {messages : List Message}
    (hcached : (final (getMessages around q') g).messageCache q.cacheKey = some messages) :
    g.messageCache q.cacheKey = some messages ∨
      q' = q ∧ messages ≠ [] ∧ ReadThrough around.env q g messages
        (final (getMessages around q') g) := by
  revert hcached
  refine final_of_wp (P := fun t => t.messageCache q.cacheKey = some messages →
    g.messageCache q.cacheKey = some messages ∨ q' = q ∧ messages ≠ [] ∧
      ReadThrough around.env q g messages t)
    (wp_mono (wp_getMessages_cached hs q') ?_ ?_)
  · rintro messages' t (⟨-,rfl⟩ | ⟨-,hread⟩) hcached
    · exact Or.inl hcached
    · rw [hread.cache,Accessor.keep_messageCache] at hcached
      split at hcached
      · rename_i hne
        by_cases hkey : q.cacheKey = q'.cacheKey
        · obtain rfl := cacheKey_injective hkey
          rw [Function.update_self] at hcached
          obtain rfl := Option.some.inj hcached
          exact Or.inr ⟨rfl,hne,hread⟩
        · rw [Function.update_of_ne hkey] at hcached
          exact Or.inl hcached
      · exact Or.inl hcached
  · rintro _ t ⟨rfl,-⟩ hcached
    exact Or.inl hcached

theorem final_add_cached {k : String} {senderID : UInt32} {data : List UInt8}
    {userIDs : List String} :
    (final (addMessage around k senderID data userIDs) g).messageCache = g.messageCache :=
  final_of_wp (P := fun t => t.messageCache = g.messageCache)
    (wp_addMessage (fun _ => wp_mono (wp_of_any _ _) (fun _ _ _ => rfl) fun _ _ _ => rfl)
      fun _ _ => rfl)

theorem cached_from (hs : g.Sound) (hempty : ∀ key, g.messageCache key = none) {q : Query}
    (hlimit : 1 ≤ q.limit)
    {messages : List Message} (hcached : (runMessages around ops g).messageCache q.cacheKey =
      some messages) :
    ∃ before mid, ops = before ++ MessageOp.getMessages q :: mid ∧ messages ≠ [] ∧
      messages = q.selected (runMessages around (before ++ [MessageOp.getMessages q]) g) ∧
      ((runMessages around (before ++ [MessageOp.getMessages q]) g).host.store.find
        ⟨.conv,q.timelineKey⟩).isSome := by
  induction ops using List.reverseRecOn with
  | nil =>
    rw [runMessages,List.foldl_nil,hempty] at hcached
    cases hcached
  | append_singleton ops op ih =>
    -- what was in the cache before this operation
    have hbefore : (runMessages around ops g).messageCache q.cacheKey = some messages →
        ∃ before mid, ops ++ [op] = before ++ MessageOp.getMessages q :: mid ∧ messages ≠ [] ∧
          messages = q.selected (runMessages around (before ++ [MessageOp.getMessages q]) g) ∧
          ((runMessages around (before ++ [MessageOp.getMessages q]) g).host.store.find
              ⟨.conv,q.timelineKey⟩).isSome := by
      intro hold
      obtain ⟨before,mid,hsplit,hrest⟩ := ih hold
      exact ⟨before,mid ++ [op],by rw [hsplit]; simp,hrest⟩
    have hstate := runMessages_sound around ops hs
    cases op with
    | addMessage k senderID data userIDs =>
      rw [runMessages_append] at hcached
      exact hbefore (final_add_cached (g := runMessages around ops g) ▸ hcached)
    | getMessages q' =>
      rw [runMessages_get] at hcached
      rcases final_get_cached hstate hcached with hold | ⟨rfl,hne,hread⟩
      · exact hbefore hold
      · refine ⟨ops,[],rfl,hne,?_⟩
        rw [runMessages_get]
        exact ⟨hread.selected hlimit,hread.found⟩

/-- A read that found messages leaves them in the cache and the conversation in memory. -/
theorem cached_after (hs : g.Sound) (hempty : ∀ key, g.messageCache key = none) {q : Query}
    (hlimit : 1 ≤ q.limit)
    {messages : List Message} {t : Accessor}
    (hrun : getMessages around q (runMessages around ops g) = .ok messages t)
    (hne : messages ≠ []) : t.messageCache q.cacheKey = some messages ∧
      (t.host.store.find ⟨.conv,q.timelineKey⟩).isSome := by
  have hgot := wp_ok (wp_getMessages_cached (runMessages_sound around ops hs) q) hrun
  rcases hgot with ⟨hcached,rfl⟩ | ⟨-,hread⟩
  · obtain ⟨before,mid,rfl,-,-,hfound⟩ := cached_from hs hempty hlimit hcached
    refine ⟨hcached,?_⟩
    have honward :=
      runMessages_onward around mid (runMessages_sound around
      (before ++ [MessageOp.getMessages q]) hs)
    rw [← runMessages_append,List.append_assoc] at honward
    exact (honward.grown _ hfound).1
  · refine ⟨?_,hread.found⟩
    rw [hread.cache,Accessor.keep_messageCache,if_pos hne,Function.update_self]

theorem noneMissed_of_readsFresh (hs : g.Sound) (hempty : ∀ key, g.messageCache key = none)
    (hfresh : ReadsFresh around ops g) : NoneMissed around ops g := by
  intro before q mid after hsplit hlimit
  obtain ⟨messages,t,hrun,hselected⟩ := eq_ok_of_wp (hfresh before q _ hsplit hlimit)
  have ht : runMessages around (before ++ [MessageOp.getMessages q]) g = t := by
    rw [runMessages_get,final,hrun]
  have hmid : runMessages around (before ++ MessageOp.getMessages q :: mid) g =
      runMessages around mid t := by
    rw [← ht,← runMessages_append,List.append_assoc]
    rfl
  have hsound : t.Sound := ht ▸ runMessages_sound _ _ hs
  simp only [ht,hmid]
  by_cases hnil : q.matching t = []
  · exact Or.inl hnil
  · have hne : messages ≠ [] := by
      rw [hselected,Query.selected,Ne,List.take_eq_nil_iff]
      rintro (h | h)
      · omega
      · exact hnil h
    obtain ⟨hcached,hfound⟩ := cached_after hs hempty hlimit hrun hne
    have honward := runMessages_onward around mid hsound
    have hagain :=
      hfresh (before ++ MessageOp.getMessages q :: mid) q after (by rw [hsplit]; simp) hlimit
    rw [hmid,wp,getMessages_of_cached (honward.cached _ _ hcached)] at hagain
    have htake := (take_eq_take_iff (honward.matching q hfound) q.limit.toNat).mp
      (hselected.symm.trans hagain)
    exact Or.inr (htake.imp (fun h => by omega) id)

theorem cached_fresh (hs : g.Sound) (hempty : ∀ key, g.messageCache key = none)
    (hnone : NoneMissed around ops g) {before after : List MessageOp} {q : Query}
    (hsplit : ops = before ++ MessageOp.getMessages q :: after) (hlimit : 1 ≤ q.limit)
    {messages : List Message} (hcached : (runMessages around before g).messageCache q.cacheKey =
      some messages) :
    messages = q.selected (runMessages around before g) := by
  obtain ⟨first,mid,rfl,hne,hselected,hfound⟩ := cached_from hs hempty hlimit hcached
  have honward :=
    runMessages_onward around mid (runMessages_sound around (first ++ [MessageOp.getMessages q]) hs)
  rw [← runMessages_append,List.append_assoc] at honward
  rw [hselected]
  refine (take_eq_take_iff (honward.matching q hfound) q.limit.toNat).mpr ?_
  rcases hnone first q mid after (by rw [hsplit]; simp) hlimit with hnil | hfull | hsame
  · rw [hselected,Query.selected,hnil,List.take_nil] at hne
    exact (hne rfl).elim
  · exact Or.inl (by omega)
  · exact Or.inr hsame

end Runs

/-- In a run on timelines of the local store every read is fresh if and only if no message
was missed between two equal ones. -/
theorem reads_fresh_iff_none_missed {env : Env} {clock : Nat → Int} {g : Accessor}
    (hr : Reached env clock g)
    (route : String → Except String String) (hempty : ∀ key, g.messageCache key = none)
    (ops : List MessageOp) (hheld : ∀ op ∈ ops, g.Holds op.timelineKey) :
    ReadsFresh ⟨env,clock,route⟩ ops g ↔ NoneMissed ⟨env,clock,route⟩ ops g := by
  have hs := hr.sound
  refine ⟨noneMissed_of_readsFresh hs hempty,fun hnone before q after hsplit hlimit => ?_⟩
  have hhere : (runMessages ⟨env,clock,route⟩ before g).Holds q.timelineKey :=
    (runMessages_onward _ before hs).holds (hheld (.getMessages q) (by rw [hsplit]; simp))
  refine wp_mono (wp_getMessages_cached (runMessages_sound _ before hs) q) ?_
    (fun _ _ h => h.2.2 hhere)
  rintro messages t (⟨hcached,rfl⟩ | ⟨-,hread⟩)
  · exact cached_fresh hs hempty hnone hsplit hlimit hcached
  · exact hread.selected hlimit

/-- The conversation `c` has its first block on a new store. -/
def heldHere : Accessor :=
  (newAccessor (Host.steady smallBlocks) Index.newGlobalIndex).setIndex
    (final (Index.addIndex (fun _ => 0) ⟨"c","store_1","block-1",0,0,0,0⟩) Index.newGlobalIndex)

theorem heldHere_reached : Reached Env.steady (fun _ => 0) heldHere :=
  .index (.addIndex ⟨"c","store_1","block-1",0,0,0,0⟩)
    (.opened (Reachable.opened (newStore_steady smallBlocks)).pointed)

def steady : Around := ⟨Env.steady,fun _ => 0,fun _ => .ok "store_1"⟩

def wholeConversation : Query := ⟨"c",0,1000,10⟩

def inSeconds : Env := ⟨fun n => if n ≤ 1 then n else n*1000000000,fun _ => none,fun _ => false⟩

def ticking : Around := ⟨inSeconds,fun _ => 0,fun _ => .ok "store_1"⟩

theorem heldHere_ticking : Reached inSeconds (fun _ => 0) heldHere := by
  have hnew : newStore inSeconds smallBlocks (fun _ => none) 0 [] =
      .ok (Host.steady smallBlocks) := by
    have hid : decimal 1 = "1" := by decide
    simp [newStore,inSeconds,Host.steady,hid]
  exact .index (.addIndex ⟨"c","store_1","block-1",0,0,0,0⟩)
    (.opened (Reachable.opened hnew).pointed)

def firstSeconds : Query := ⟨"c",0,4,10⟩

/-- Two messages, and one read after each: the second message is too late for it. -/
def readTwice : List MessageOp :=
  [.addMessage "c" 1 [7] [],.getMessages firstSeconds,.addMessage "c" 2 [8] [],
    .getMessages firstSeconds]

theorem reads_fresh_iff_none_missed_read_twice :
    heldHere.Holds "c" ∧ (heldHere.host.messages ⟨.conv,"c"⟩).length = 0 ∧
      ((runMessages ticking readTwice heldHere).host.messages ⟨.conv,"c"⟩).length = 2 ∧
      (firstSeconds.matching (runMessages ticking readTwice heldHere)).length = 1 ∧
      ReadsFresh ticking readTwice heldHere := by
  have hheld : heldHere.Holds "c" := rfl
  refine ⟨hheld,by decide +kernel,by decide +kernel,by decide +kernel,
    (reads_fresh_iff_none_missed heldHere_ticking _ (fun _ => rfl) _ ?_).mpr ?_⟩
  · simp only [readTwice,List.mem_cons,List.not_mem_nil,or_false]
    rintro op (rfl | rfl | rfl | rfl) <;> exact hheld
  · intro before q mid after hsplit _
    rcases before with _ | ⟨op,_ | ⟨op',before⟩⟩
    · cases (List.cons.inj hsplit).1
    · obtain ⟨rfl,hrest⟩ := List.cons.inj hsplit
      obtain ⟨hq,hrest⟩ := List.cons.inj hrest
      cases hq
      rcases mid with _ | ⟨op,mid⟩
      · cases (List.cons.inj hrest).1
      · obtain ⟨rfl,hrest⟩ := List.cons.inj hrest
        obtain ⟨rfl,-⟩ : mid = [] ∧ after = [] := by
          have hlength := congrArg List.length hrest
          simp only [List.length_append,List.length_cons,List.length_nil] at hlength
          exact ⟨List.length_eq_zero_iff.mp (by omega),List.length_eq_zero_iff.mp (by omega)⟩
        refine Or.inr (Or.inr ?_)
        decide +kernel
    · have hrest := (List.cons.inj (List.cons.inj hsplit).2).2
      rcases before with _ | ⟨op,before⟩
      · cases (List.cons.inj hrest).1
      · have hlast : [MessageOp.getMessages firstSeconds] =
            before ++ MessageOp.getMessages q :: (mid ++ MessageOp.getMessages q :: after) :=
              (List.cons.inj hrest).2
        have hlength := congrArg List.length hlast
        simp only [List.length_append,List.length_cons,List.length_nil] at hlength
        omega

def readAndSent : List MessageOp :=
  [.addMessage "c" 1 [7] [],.getMessages wholeConversation,.addMessage "c" 2 [8] []]

/-- A second message is not read, because the first read is remembered. -/
theorem second_message_not_read :
    ¬ ∀ (env : Env) (clock : Nat → Int) (g : Accessor) (route : String → Except String String)
    (ops : List MessageOp), Reached env clock g → (∀ key, g.messageCache key = none) →
      (∀ op ∈ ops, g.Holds op.timelineKey) → ReadsFresh ⟨env,clock,route⟩ ops g := by
  intro hall
  have hheld : heldHere.Holds "c" := rfl
  have hfresh := hall Env.steady (fun _ => 0) heldHere steady.routeTimeline
    (readAndSent ++ [MessageOp.getMessages wholeConversation]) heldHere_reached (fun _ => rfl)
    (by simp [readAndSent,MessageOp.timelineKey,wholeConversation,hheld])
  have hlast : wp (getMessages steady wholeConversation) (fun messages t =>
    messages = wholeConversation.selected t)
      (fun _ _ => False) (runMessages steady readAndSent heldHere) :=
    hfresh readAndSent wholeConversation [] rfl (by decide)
  obtain ⟨messages,t,hrun,hselected⟩ := eq_ok_of_wp hlast
  have hread : (answer (getMessages steady wholeConversation)
    (runMessages steady readAndSent heldHere)).map
      List.length = some 1 := by decide +kernel
  have hstored : (wholeConversation.selected (final (getMessages steady wholeConversation)
      (runMessages steady readAndSent heldHere))).length = 2 := by decide +kernel
  rw [answer,hrun,hselected] at hread
  rw [final,hrun] at hstored
  simp only [Option.map_some,hstored] at hread
  cases hread

end Imy.Access
