import Imy.Txn.AtomicCommit
import Imy.Txn.DefaultHandler
import Imy.Txn.StorageManager
set_option autoImplicit false

namespace Imy.Txn
open Imy.Lib

section Index
open Imy.Index

def named (g : GlobalIndex) (key : String) : Nat := (g.entriesOf key).countP fun e => e.blockID ≠ ""

def unnamed (g : GlobalIndex) (key : String) : Nat :=
  (g.entriesOf key).countP fun e => e.blockID = ""

structure IndexOnward (g g' : GlobalIndex) : Prop where
  named : ∀ key, named g key ≤ named g' key
  unnamed : ∀ key, unnamed g' key ≤ unnamed g key

def IndexAhead (g g' : GlobalIndex) : Prop :=
  (∃ key, named g key < named g' key) ∨ ∃ key, unnamed g' key < unnamed g key

theorem IndexOnward.refl (g : GlobalIndex) : IndexOnward g g :=
  ⟨fun _ => Nat.le_refl _,fun _ => Nat.le_refl _⟩

theorem IndexAhead.onward {g g' g'' : GlobalIndex} (ha : IndexAhead g g')
    (ho : IndexOnward g' g'') :
    IndexAhead g g'' := by
  rcases ha with ⟨key,hlt⟩ | ⟨key,hlt⟩
  · exact Or.inl ⟨key,Nat.lt_of_lt_of_le hlt (ho.named key)⟩
  · exact Or.inr ⟨key,Nat.lt_of_le_of_lt (ho.unnamed key) hlt⟩

theorem IndexAhead.entriesOf_ne {g g' : GlobalIndex} (ha : IndexAhead g g') :
    g'.entriesOf ≠ g.entriesOf := by
  intro heq
  rcases ha with ⟨key,hlt⟩ | ⟨key,hlt⟩ <;> simp [named,unnamed,heq] at hlt

theorem block_name_ne (indexKey : String) : indexKey ++ "_block_1" ≠ "" := by
  intro h
  have := congrArg String.length h
  simp [String.length_append] at this

theorem addFirstBlock_growth (clock : Nat → Int) (indexKey targetStore : String) {g : GlobalIndex}
    (hw : g.WellFormed) :
    wp (addFirstBlock clock indexKey targetStore)
      (fun _ g' => g'.WellFormed ∧ IndexOnward g g' ∧ IndexAhead g g') (fun _ _ => False) g := by
  simp only [addFirstBlock,wp_bind,wp_readTime]
  have hs : SameTimelines g g.advance.advance := ⟨rfl,rfl,rfl⟩
  refine wp_mono (wp_addIndex clock _ (hs.wellFormed hw)) ?_ (fun _ _ h => h)
  rintro _ g' ⟨hw',hentries⟩
  have hne := block_name_ne indexKey
  rw [hs.entriesOf] at hentries
  refine ⟨hw',⟨fun key => ?_,fun key => ?_⟩,Or.inl ⟨indexKey,?_⟩⟩
  · simp only [named,hentries key]
    split <;> simp
  · simp only [unnamed,hentries key]
    split <;> simp [hne]
  · simp [named,hentries indexKey,hne]

theorem removeUnnamed_growth (clock : Nat → Int) (key : String) {g : GlobalIndex}
    (hw : g.WellFormed) :
    wp (removeIndex clock key "")
      (fun _ g' => g'.WellFormed ∧ IndexOnward g g' ∧ IndexAhead g g' ∧
        ∃ e ∈ g.entriesOf key, e.blockID = "")
      (fun _ g' => g' = g ∧ ¬ ∃ e ∈ g.entriesOf key, e.blockID = "") g := by
  refine wp_mono (wp_removeIndex clock key "" hw) ?_ ?_
  · rintro _ g' ⟨hw',⟨e,he,hid⟩,hentries⟩
    -- the one block that goes has no ID, so all others are counted as before
    obtain ⟨a,xs,ys,-,ha,hsplit,herase⟩ :=
      List.exists_of_eraseP (p := fun e => decide (e.blockID = "")) he (by simpa using hid)
    have ha : a.blockID = "" := by simpa using ha
    refine ⟨hw',⟨fun key' => ?_,fun key' => ?_⟩,Or.inr ⟨key,?_⟩,e,he,hid⟩
    · simp only [named,hentries key']
      split
      · rename_i hk
        subst hk
        rw [herase,hsplit]
        simp [List.countP_append,ha]
      · exact Nat.le_refl _
    · simp only [unnamed,hentries key']
      split
      · rename_i hk
        subst hk
        rw [herase,hsplit]
        simp [List.countP_append,List.countP_cons]
      · exact Nat.le_refl _
    · simp only [unnamed,hentries key,if_true]
      rw [herase,hsplit]
      simp [List.countP_append,ha]
  · rintro e g' ⟨-,rfl,hnone⟩
    exact ⟨rfl,fun ⟨e,he,hid⟩ => hnone e he hid⟩

end Index

/-- What the store and the index keep in every reachable state. -/
structure World.Sound (w : World) : Prop where
  host : w.host.Pointed
  index : w.index.WellFormed

structure World.Onward (w w' : World) : Prop where
  host : w.host.Onward w'.host
  index : IndexOnward w.index w'.index

def World.Ahead (w w' : World) : Prop := w.host.Ahead w'.host ∨ IndexAhead w.index w'.index

structure World.Idle (w w' : World) : Prop where
  host : w.host.Idle w'.host
  index : w'.index = w.index

/-- The local store's timelines and the entries of the index are as they were. -/
structure World.Same (w w' : World) : Prop where
  timelines : ∀ r, w'.host.store.find r = w.host.store.find r
  entries : ∀ key, w'.index.entriesOf key = w.index.entriesOf key

section World
variable {w w' w'' : World}

theorem World.Idle.refl (w : World) : w.Idle w := ⟨Storage.Host.Idle.refl _,rfl⟩

theorem World.Idle.trans (a : w.Idle w') (b : w'.Idle w'') : w.Idle w'' :=
  ⟨a.host.trans b.host,b.index.trans a.index⟩

theorem World.Idle.same (h : w.Idle w') : w.Same w' :=
  ⟨fun r => congrFun h.host.find r,fun key => by rw [h.index]⟩

theorem World.Idle.onward (h : w.Idle w') : w.Onward w' :=
  ⟨h.host.onward,h.index ▸ IndexOnward.refl w.index⟩

theorem World.Idle.sound (h : w.Idle w') (hs : w.Sound) : w'.Sound :=
  ⟨h.host.pointed hs.host,h.index ▸ hs.index⟩

theorem World.Ahead.onward (ha : w.Ahead w') (ho : w'.Onward w'') : w.Ahead w'' :=
  ha.imp (fun h => h.onward ho.host) (fun h => h.onward ho.index)

theorem World.Ahead.not_same (ha : w.Ahead w') : ¬ w.Same w' := by
  intro h
  rcases ha with ha | ha
  · exact ha.find_ne (funext h.timelines)
  · exact ha.entriesOf_ne (funext h.entries)

theorem World.Ahead.of_idle (hi : w.Idle w') (ha : w'.Ahead w'') : w.Ahead w'' :=
  ha.imp (fun h => h.of_idle hi.host) (fun h => hi.index ▸ h)

end World

def timelineRef (timelineType timelineKey : String) : Storage.TimelineRef :=
  ⟨if timelineType = "conversation" then .conv else .user,timelineKey⟩

/-- The participant's operation has something to do in this state: a timeline to
bring into memory, a message that is not refused, a block to add or remove. -/
def Changes (storeID : String) (o : TransactionParticipant) (w : World) : Prop :=
  match o.operation with
  | .createTimeline =>
    ∃ timelineKey ∈ o.string? "timeline_key",∃ timelineType ∈ o.string? "timeline_type",
      o.storeID = storeID ∧ w.host.store.find (timelineRef timelineType timelineKey) = none
  | .addMessage =>
    ∃ timelineKey ∈ o.string? "timeline_key",(o.uint32? "sender_id").isSome ∧
      (o.bytes? "data").isSome ∧ (o.strings? "user_ids").isSome ∧ o.storeID = storeID ∧
      ¬ ((w.host.store.find ⟨.conv,timelineKey⟩).isSome ∧ w.host.Refuses ⟨.conv,timelineKey⟩)
  | .updateIndex =>
    ∃ indexKey ∈ o.string? "index_key",∃ operation ∈ o.string? "operation",
      (operation = "add" ∧ (o.string? "target_store").isSome) ∨
      (operation = "remove" ∧ ∃ e ∈ w.index.entriesOf indexKey,e.blockID = "")
  | _ => False

structure Effect (storeID : String) (o : TransactionParticipant) (w w' : World) : Prop where
  onward : w.Onward w'
  sound : w'.Sound
  ahead : Changes storeID o w → w.Ahead w'
  idle : ¬ Changes storeID o w → w.Idle w'

theorem Effect.of_idle {storeID : String} {o : TransactionParticipant} {w w' : World}
    (hs : w.Sound) (hi : w.Idle w') (hno : ¬ Changes storeID o w) : Effect storeID o w w' :=
  ⟨hi.onward,hi.sound hs,fun h => (hno h).elim,fun _ => hi⟩

section Effects
variable (out : Outside) {storeID : String} {o : TransactionParticipant} {w : World}

theorem onStore_snd {α : Type} (x : Storage.StoreM α) (w : World) :
    (onStore x w).2 = { w with host := final x w.host } := by
  simp only [onStore,final]
  cases x w.host <;> rfl

theorem onIndex_snd {α : Type} (x : Index.IndexM α) (w : World) :
    (onIndex x w).2 = { w with index := final x w.index } := by
  simp only [onIndex,final]
  cases x w.index with
  | ok _ g => rfl
  | error e g => cases e <;> rfl

theorem onRemote_idle (store text : String) (w : World) : w.Idle (onRemote out store text w).2 := by
  unfold onRemote
  split <;> exact ⟨Storage.Host.Idle.refl _,rfl⟩

theorem effect_onStore {α : Type} {x : Storage.StoreM α} (hs : w.Sound)
    (hx : w.host.Onward (final x w.host) ∧ (final x w.host).Pointed ∧
      (Changes storeID o w → w.host.Ahead (final x w.host)) ∧
      (¬ Changes storeID o w → w.host.Idle (final x w.host))) :
    Effect storeID o w (onStore x w).2 := by
  obtain ⟨honward,hpointed,hahead,hidle⟩ := hx
  rw [onStore_snd]
  exact ⟨⟨honward,IndexOnward.refl _⟩,⟨hpointed,hs.index⟩,fun h => Or.inl (hahead h),
    fun h => ⟨hidle h,rfl⟩⟩

theorem commitCreate_effect (hop : o.operation = .createTimeline) (hs : w.Sound) :
    Effect storeID o w (commitCreate out storeID o w).2 := by
  have hchanges : ∀ timelineKey timelineType, o.string? "timeline_key" = some timelineKey →
      o.string? "timeline_type" = some timelineType → (Changes storeID o w ↔
        o.storeID = storeID ∧ w.host.store.find (timelineRef timelineType timelineKey) = none) := by
    intro timelineKey timelineType hk ht
    simp [Changes,hop,hk,ht]
  have hcreate : ∀ timelineKey timelineType, o.string? "timeline_key" = some timelineKey →
      o.string? "timeline_type" = some timelineType → o.storeID = storeID →
      Effect storeID o w (onStore (Storage.getOrCreateTimeline out.env
        (timelineRef timelineType timelineKey)) w).2 := by
    intro timelineKey timelineType hk ht hstore
    have hgrow := Storage.touch_growth out.env (timelineRef timelineType timelineKey) hs.host
    obtain ⟨h₁,h₂,h₃⟩ := final_of_wp (wp_mono hgrow (fun _ _ h => h) (fun _ _ h => h.elim))
    refine effect_onStore hs ⟨h₁,h₂,fun hc => ?_,fun hc => ?_⟩ <;>
      rw [hchanges timelineKey timelineType hk ht] at hc
    · simpa [hc.2] using h₃
    · have hfound : w.host.store.find (timelineRef timelineType timelineKey) ≠ none :=
        fun hn => hc ⟨hstore,hn⟩
      obtain ⟨tl,htl⟩ := Option.ne_none_iff_exists'.mp hfound
      simpa [htl] using h₃
  unfold commitCreate
  split
  · rename_i timelineKey timelineType hk ht
    split
    · rename_i hstore
      have hc := hcreate timelineKey timelineType hk ht hstore
      split
      · rename_i htype
        simp only [timelineRef,htype,if_true,onStore_snd] at hc ⊢
        rw [Storage.getOrCreateConvTimeline,final_bind_pure]
        exact hc
      · rename_i htype
        simp only [timelineRef,htype,if_false,onStore_snd] at hc ⊢
        rw [Storage.getOrCreateUserTimeline,final_bind_pure]
        exact hc
    · rename_i hstore
      refine Effect.of_idle hs (onRemote_idle out _ _ w) fun hc => hstore ?_
      exact ((hchanges timelineKey timelineType hk ht).mp hc).1
  · rename_i hnone
    refine Effect.of_idle hs (World.Idle.refl w) fun hc => ?_
    simp only [Changes,hop] at hc
    obtain ⟨timelineKey,hk,timelineType,ht,-⟩ := hc
    exact hnone timelineKey timelineType hk ht

theorem commitAddMessage_effect (hop : o.operation = .addMessage) (hs : w.Sound) :
    Effect storeID o w (commitAddMessage out storeID o w).2 := by
  unfold commitAddMessage
  split
  · rename_i timelineKey senderID data userIDs hk hsender hdata husers
    have hchanges : Changes storeID o w ↔ o.storeID = storeID ∧
        ¬ ((w.host.store.find ⟨.conv,timelineKey⟩).isSome ∧
          w.host.Refuses ⟨.conv,timelineKey⟩) := by
      simp [Changes,hop,hk,hsender,hdata,husers]
    split
    · rename_i hstore
      obtain ⟨h₁,h₂,h₃⟩ := Storage.send_growth out.env ⟨timelineKey,senderID,data,userIDs⟩ hs.host
      refine effect_onStore hs ⟨h₁,h₂,fun hc => ?_,fun hc => ?_⟩ <;> rw [hchanges] at hc
      · exact (if_neg hc.2).mp h₃
      · exact (if_pos (by_contra fun hn => hc ⟨hstore,hn⟩)).mp h₃
    · rename_i hstore
      exact Effect.of_idle hs (onRemote_idle out _ _ w) fun hc => hstore (hchanges.mp hc).1
  · rename_i hnone
    refine Effect.of_idle hs (World.Idle.refl w) fun hc => ?_
    simp only [Changes,hop] at hc
    obtain ⟨timelineKey,hk,hsender,hdata,husers,-⟩ := hc
    obtain ⟨senderID,hsender⟩ := Option.isSome_iff_exists.mp hsender
    obtain ⟨data,hdata⟩ := Option.isSome_iff_exists.mp hdata
    obtain ⟨userIDs,husers⟩ := Option.isSome_iff_exists.mp husers
    exact hnone timelineKey senderID data userIDs hk hsender hdata husers

theorem effect_onIndex {x : Index.IndexM Unit} (hs : w.Sound)
    (hx : wp x
      (fun _ g => g.WellFormed ∧ IndexOnward w.index g ∧ IndexAhead w.index g ∧ Changes storeID o w)
      (fun _ g => g = w.index ∧ ¬ Changes storeID o w) w.index) :
    Effect storeID o w (onIndex x w).2 := by
  rw [onIndex_snd]
  refine final_of_wp (P := fun g => Effect storeID o w { w with index := g }) (wp_mono hx ?_ ?_)
  · rintro _ g ⟨hw,honward,hahead,hc⟩
    exact ⟨⟨(Storage.Host.Idle.refl _).onward,honward⟩,⟨hs.host,hw⟩,fun _ => Or.inr hahead,
      fun h => (h hc).elim⟩
  · rintro _ g ⟨rfl,hno⟩
    exact Effect.of_idle hs (World.Idle.refl w) hno

theorem commitUpdateIndex_effect (hop : o.operation = .updateIndex) (hs : w.Sound) :
    Effect storeID o w (commitUpdateIndex out o w).2 := by
  unfold commitUpdateIndex
  split
  · rename_i indexKey operation hk hoper
    have hchanges : Changes storeID o w ↔
        (operation = "add" ∧ (o.string? "target_store").isSome) ∨
        (operation = "remove" ∧ ∃ e ∈ w.index.entriesOf indexKey,e.blockID = "") := by
      simp [Changes,hop,hk,hoper]
    split
    · rename_i hadd
      split
      · rename_i targetStore htarget
        have hc : Changes storeID o w := hchanges.mpr (Or.inl ⟨hadd,by simp [htarget]⟩)
        refine effect_onIndex hs (wp_mono
          (addFirstBlock_growth out.clock indexKey targetStore hs.index)
          ?_ (fun _ _ h => h.elim))
        rintro _ g ⟨hw,honward,hahead⟩
        exact ⟨hw,honward,hahead,hc⟩
      · rename_i htarget
        refine Effect.of_idle hs (World.Idle.refl w) fun hc => ?_
        rcases hchanges.mp hc with ⟨-,hsome⟩ | ⟨hremove,-⟩
        · simp [htarget] at hsome
        · simp [hadd] at hremove
    · rename_i hadd
      split
      · rename_i hremove
        have hiff : Changes storeID o w ↔ ∃ e ∈ w.index.entriesOf indexKey,e.blockID = "" := by
          simp [hchanges,hremove]
        refine effect_onIndex hs (wp_mono (removeUnnamed_growth out.clock indexKey hs.index) ?_ ?_)
        · rintro _ g ⟨hw,honward,hahead,hex⟩
          exact ⟨hw,honward,hahead,hiff.mpr hex⟩
        · rintro _ g ⟨hg,hno⟩
          exact ⟨hg,fun hc => hno (hiff.mp hc)⟩
      · rename_i hremove
        have hno : ¬ Changes storeID o w := by simp [hchanges,hadd,hremove]
        split <;> exact Effect.of_idle hs (World.Idle.refl w) hno
  · rename_i hnone
    refine Effect.of_idle hs (World.Idle.refl w) fun hc => ?_
    simp only [Changes,hop] at hc
    obtain ⟨indexKey,hk,operation,hoper,-⟩ := hc
    exact hnone indexKey operation hk hoper

theorem defaultCommit_effect (hs : w.Sound) :
    Effect storeID o w (defaultCommit out storeID o w).2 := by
  cases hop : o.operation <;> simp only [defaultCommit,hop]
  case createTimeline => exact commitCreate_effect out hop hs
  case addMessage => exact commitAddMessage_effect out hop hs
  case updateIndex => exact commitUpdateIndex_effect out hop hs
  all_goals exact Effect.of_idle hs (World.Idle.refl w) (by simp [Changes,hop])

end Effects

/-- The default handlers registered for the stores, each with the store ID it
was made for. -/
def defaultHandlers (out : Outside) (ids : String → Option String) :
    String → Option (Handler World) :=
  fun storeID => (ids storeID).map (defaultHandler out)

/-- The participant has a handler, and its operation has something to do. -/
def Effective (ids : String → Option String) (c : Coordinator World) (p : Nat) : Prop :=
  ∃ storeID ∈ ids (c.objects p).storeID,Changes storeID (c.objects p) c.world

section Transaction
variable {out : Outside} {ids : String → Option String} {c c₁ c₂ : Coordinator World}

theorem changes_congr {o o' : TransactionParticipant} (hs : o'.storeID = o.storeID)
    (ho : o'.operation = o.operation) (hp : o'.params = o.params) (storeID : String) (w : World) :
    Changes storeID o' w ↔ Changes storeID o w := by
  obtain ⟨_,_,_,_,_⟩ := o
  obtain ⟨_,_,_,_,_⟩ := o'
  subst hs ho hp
  rfl

theorem defaultPrepare_congr {o o' : TransactionParticipant} (ho : o'.operation = o.operation)
    (hp : o'.params = o.params) (index : Index.GlobalIndex) :
    defaultPrepare o' index = defaultPrepare o index := by
  obtain ⟨_,_,_,_,_⟩ := o
  obtain ⟨_,_,_,_,_⟩ := o'
  subst ho hp
  rfl

theorem World.Idle.changes {w w' : World} (h : w.Idle w') (storeID : String)
    (o : TransactionParticipant) : Changes storeID o w' ↔ Changes storeID o w := by
  have hrefuses : ∀ r, w'.host.Refuses r ↔ w.host.Refuses r := fun r => by
    simp only [Storage.Host.Refuses,h.host.timeline,h.host.config,h.host.capacity]
  unfold Changes
  cases o.operation <;> simp only [h.host.find,h.index,hrefuses]

theorem Fixed.effective (hf : Fixed c c₁) (hi : c.world.Idle c₁.world) (p : Nat) :
    Effective ids c₁ p ↔ Effective ids c p := by
  simp only [Effective,hf.storeID p,hi.changes,
    changes_congr (hf.storeID p) (hf.operation p) (hf.params p)]

theorem handlerOf_default (hdef : c.handlers = defaultHandlers out ids) (p : Nat) :
    c.handlerOf p = (ids (c.objects p).storeID).map (defaultHandler out) := by
  rw [Coordinator.handlerOf,hdef]
  rfl

theorem Fixed.defaultHandler (hf : Fixed c c₁) (hdef : c.handlers = defaultHandlers out ids)
    {p : Nat} {handler : Handler World} (hh : c₁.handlerOf p = some handler) :
    ∃ storeID, ids (c.objects p).storeID = some storeID ∧
      handler = Txn.defaultHandler out storeID := by
  rw [hf.handlerOf,handlerOf_default hdef] at hh
  obtain ⟨storeID,hid,rfl⟩ := Option.map_eq_some_iff.mp hh
  exact ⟨storeID,hid,rfl⟩

structure Settling (ids : String → Option String) (c : Coordinator World) (done : List Nat)
    (c' : Coordinator World) : Prop where
  fixed : Fixed c c'
  sound : c'.world.Sound
  todo : ∀ p, p ∉ done → (c'.objects p).status = (c.objects p).status
  effect : (c.world.Idle c'.world ∧ ∀ p ∈ done,¬ Effective ids c p) ∨
    (c.world.Ahead c'.world ∧ ∃ p ∈ done,Effective ids c p)

theorem Settling.pass {done : List Nat} (h : Settling ids c done c₁) {p : Nat}
    (hp : p ∈ done ∨ ¬ Effective ids c p) : Settling ids c (done ++ [p]) c₁ := by
  refine ⟨h.fixed,h.sound,fun q hq => h.todo q fun hd => hq (List.mem_append_left _ hd),?_⟩
  refine h.effect.imp (fun ⟨hi,hall⟩ => ⟨hi,fun q hq => ?_⟩)
    (fun ⟨ha,q,hq,he⟩ => ⟨ha,q,List.mem_append_left _ hq,he⟩)
  rcases List.mem_append.mp hq with hq | hq
  · exact hall q hq
  · rw [List.mem_singleton.mp hq]
    rcases hp with hp | hp
    · exact hall p hp
    · exact hp

theorem Settling.call {done : List Nat} (hdef : c.handlers = defaultHandlers out ids)
    (h : Settling ids c done c₁) {txnID : String} {p : Nat}
    {handler : Handler World} {reply : Reply} {w : World} (hh : c₁.handlerOf p = some handler)
    (hr : handler.commit txnID (c₁.objects p) c₁.world = (reply,w))
    (status : TransactionStatus) (error : String) :
    Settling ids c (done ++ [p]) ((c₁.called .commit p (reply,w)).setObject p
      { c₁.objects p with status := status, error := error }) := by
  obtain ⟨storeID,hid,rfl⟩ := h.fixed.defaultHandler hdef hh
  have heff : Effect storeID (c₁.objects p) c₁.world _ := defaultCommit_effect out h.sound
  have hw : (defaultCommit out storeID (c₁.objects p) c₁.world).2 = w := congrArg Prod.snd hr
  rw [hw] at heff
  have hchanges : c.world.Idle c₁.world →
      (Changes storeID (c₁.objects p) c₁.world ↔ Effective ids c p) := fun hi => by
    rw [hi.changes,changes_congr (h.fixed.storeID p) (h.fixed.operation p) (h.fixed.params p)]
    simp [Effective,hid]
  refine ⟨?_,heff.sound,?_,?_⟩
  · exact (h.fixed.called .commit p (reply,w)).setObject p _ _
  · intro q hq
    have hqp : q ≠ p := fun heq => hq (by simp [heq])
    simpa [hqp] using h.todo q fun hd => hq (List.mem_append_left _ hd)
  · rcases h.effect with ⟨hi,hall⟩ | ⟨ha,q,hq,he⟩
    · by_cases hp : Effective ids c p
      · exact Or.inr ⟨World.Ahead.of_idle hi (heff.ahead ((hchanges hi).mpr hp)),p,by simp,hp⟩
      · refine Or.inl ⟨hi.trans (heff.idle fun hc => hp ((hchanges hi).mp hc)),fun q hq => ?_⟩
        rcases List.mem_append.mp hq with hq | hq
        · exact hall q hq
        · rw [List.mem_singleton.mp hq]
          exact hp
    · exact Or.inr ⟨ha.onward heff.onward,q,List.mem_append_left _ hq,he⟩

theorem Settling.round {done : List Nat} (hdef : c.handlers = defaultHandlers out ids)
    (h : Settling ids c done c₁) {txnID : String} {p : Nat} {errors errors' : List String}
    (hready : c.handlerOf p ≠ none → (c.objects p).status = .prepared)
    (hr : CommitRound txnID p c₁ errors errors' c₂) : Settling ids c (done ++ [p]) c₂ := by
  have hmissing : c.handlerOf p = none → ¬ Effective ids c p := by
    rintro hnone ⟨storeID,hid,-⟩
    rw [handlerOf_default hdef,hid] at hnone
    cases hnone
  cases hr with
  | skip hs =>
    refine h.pass ?_
    by_cases hd : p ∈ done
    · exact Or.inl hd
    · refine Or.inr (hmissing (by_contra fun hne => hs ?_))
      rw [h.todo p hd]
      exact hready hne
  | missing hs hh =>
    rw [h.fixed.handlerOf] at hh
    exact h.pass (Or.inr (hmissing hh))
  | error handler err w hs hh hr => exact h.call hdef hh hr _ _
  | ok handler w hs hh hr => exact h.call hdef hh hr _ _

variable (clock : Nat → Int)

theorem wp_commitTransaction_settled {txnID : String} {t : Nat}
    (hdef : c.handlers = defaultHandlers out ids) (hsound : c.world.Sound)
    (hreg : c.transactions txnID = some t) (hstatus : (c.txns t).status = .prepared)
    (hready : ∀ p ∈ (c.txns t).participants, c.handlerOf p ≠ none →
      (c.objects p).status = .prepared) :
    wp (commitTransaction clock txnID) (fun _ _ => True)
      (fun e c' => c'.handlers = c.handlers ∧ (e.Lost ∨
        (c.world.Idle c'.world ∧ ∀ p ∈ (c.txns t).participants,¬ Effective ids c p) ∨
        (c.world.Ahead c'.world ∧ ∃ p ∈ (c.txns t).participants,Effective ids c p))) c := by
  simp only [commitTransaction,commitBody,wp_bind,wp_findTransaction hreg,wp_get,wp_ite,wp_throw,
    wp_now,wp_modifyTxn,hstatus,ne_eq,not_true_eq_false,if_false]
  have start : Settling ids c [] c :=
    ⟨Fixed.refl c,hsound,fun _ _ => rfl,Or.inl ⟨World.Idle.refl _,by simp⟩⟩
  refine wp_mono (wp_foldlM (I := fun done _ c' => Settling ids c done c')
    (E := fun e c' => c'.handlers = c.handlers ∧ e.Lost) _ start ?_) ?_
    (fun _ _ h => ⟨h.1,Or.inl h.2⟩)
  · intro done p rest errors c₁ hsplit h
    refine wp_mono (wp_commitOne txnID p c₁ errors) ?_ ?_
    · intro errors' c₂ hr
      exact h.round hdef (hready p (by simp [hsplit])) hr
    · rintro _ c₂ ⟨-,handler,loss,w,rfl,-,-,rfl⟩
      exact ⟨h.fixed.handlers,trivial⟩
  · intro errors c₁ h
    split
    · exact ⟨h.fixed.handlers,Or.inr h.effect⟩
    · simp only [releaseHeld,wp_bind,wp_get,wp_modifyTxn]
      exact wp_mono (wp_releaseLocks clock _ _) (fun _ _ _ => trivial) (fun _ _ h => h.elim)

/-- An abort with default handlers leaves the world alone and never gets lost. -/
theorem wp_abortTransaction_world (hdef : c.handlers = defaultHandlers out ids) (txnID : String) :
    wp (abortTransaction clock txnID) (fun _ c' => c'.world = c.world)
      (fun e c' => ¬ e.Lost ∧ c'.world = c.world) c := by
  simp only [abortTransaction,findTransaction,wp_bind,wp_get]
  cases c.transactions txnID with
  | none => exact ⟨by simp,rfl⟩
  | some t =>
    simp only [wp_pure,abortBody,wp_bind,wp_get,wp_ite,wp_throw,wp_now,wp_modifyTxn]
    split
    · exact ⟨by simp,trivial⟩
    · refine wp_mono (wp_forM (I := fun _ c' => Fixed c c' ∧ c'.world = c.world)
        (E := fun _ _ => False) _ ⟨Fixed.refl c,rfl⟩ ?_) ?_ (fun _ _ h => h.elim)
      · rintro done p rest c₁ - ⟨hf,hw⟩
        refine wp_mono (wp_abortOne txnID p c₁) ?_ ?_
        · intro _ c₂ hr
          cases hr with
          | skip => exact ⟨hf,hw⟩
          | call handler reply w error hs hh hr =>
            obtain ⟨storeID,-,rfl⟩ := hf.defaultHandler hdef hh
            obtain ⟨-,rfl⟩ := Prod.mk.inj hr
            exact ⟨(hf.called .abort p (reply,c₁.world)).setObject p _ _,hw⟩
        · rintro e c₂ ⟨handler,loss,w,-,hh,hr,-⟩
          obtain ⟨storeID,-,rfl⟩ := hf.defaultHandler hdef hh
          cases (Prod.mk.inj hr).1
      · rintro _ c₁ ⟨-,hw⟩
        simp only [releaseHeld,wp_bind,wp_get,wp_modifyTxn]
        refine wp_mono (wp_releaseLocks clock _ _) ?_ (fun _ _ h => h.elim)
        rintro _ _ ⟨m,rfl⟩
        exact hw

/-- Every Prepare returns nil. -/
def Passes (ids : String → Option String) (ps : List Nat) (c : Coordinator World) : Prop :=
  ∀ p ∈ ps,(ids (c.objects p).storeID).isSome → defaultPrepare (c.objects p) c.world.index = .ok

theorem Fixed.passes (hf : Fixed c c₁) (hw : c₁.world = c.world) {ps : List Nat} :
    Passes ids ps c₁ ↔ Passes ids ps c := by
  simp only [Passes,hf.storeID,hw,defaultPrepare_congr (hf.operation _) (hf.params _)]

theorem passes_concat {done : List Nat} {p : Nat} : Passes ids (done ++ [p]) c ↔
    Passes ids done c ∧ ((ids (c.objects p).storeID).isSome →
      defaultPrepare (c.objects p) c.world.index = .ok) := by
  simp only [Passes,List.mem_append,List.mem_singleton]
  constructor
  · intro h
    exact ⟨fun q hq => h q (Or.inl hq),h p (Or.inr rfl)⟩
  · rintro ⟨hdone,hp⟩ q (hq | rfl)
    · exact hdone q hq
    · exact hp

/-- After the rounds of `done`: their checks were passed, on the world as it was. -/
structure Checked (ids : String → Option String) (c : Coordinator World) (done : List Nat)
    (c' : Coordinator World) : Prop where
  fixed : Fixed c c'
  world : c'.world = c.world
  passes : Passes ids done c

section Checked
variable {done : List Nat} {txnID : String} {p : Nat}

theorem Checked.check (h : Checked ids c done c₁) :
    defaultPrepare (c₁.objects p) c₁.world.index = defaultPrepare (c.objects p) c.world.index := by
  rw [h.world]
  exact defaultPrepare_congr (h.fixed.operation p) (h.fixed.params p) _

theorem Checked.round (hdef : c.handlers = defaultHandlers out ids) (h : Checked ids c done c₁)
    (hr : PrepareRound txnID p c₁ c₂) : Checked ids c (done ++ [p]) c₂ := by
  cases hr with
  | missing hh =>
    refine ⟨h.fixed.setObject p _ _,h.world,passes_concat.mpr ⟨h.passes,fun hid => ?_⟩⟩
    rw [h.fixed.handlerOf,handlerOf_default hdef,Option.map_eq_none_iff] at hh
    simp [hh] at hid
  | ok handler w hh hr =>
    obtain ⟨storeID,-,rfl⟩ := h.fixed.defaultHandler hdef hh
    obtain ⟨hok,rfl⟩ := Prod.mk.inj hr
    exact ⟨(h.fixed.called .prepare p (.ok,c₁.world)).setObject p _ _,h.world,
      passes_concat.mpr ⟨h.passes,fun _ => h.check.symm.trans hok⟩⟩

theorem Checked.stop (hdef : c.handlers = defaultHandlers out ids) (h : Checked ids c done c₁)
    {ps : List Nat} (hp : p ∈ ps) {e : Fault} (hr : PrepareStop txnID p c₁ e c₂) :
    c₂.world = c.world ∧ c₂.handlers = c.handlers ∧ ¬ Passes ids ps c := by
  cases hr with
  | error handler err w hh hr =>
    obtain ⟨storeID,hid,rfl⟩ := h.fixed.defaultHandler hdef hh
    obtain ⟨herr,rfl⟩ := Prod.mk.inj hr
    refine ⟨h.world,h.fixed.handlers,fun hpass => ?_⟩
    have hok := h.check.trans (hpass p hp (by simp [hid]))
    have : Reply.error err = .ok := herr.symm.trans hok
    cases this
  | lost handler loss w hh hr =>
    obtain ⟨storeID,hid,rfl⟩ := h.fixed.defaultHandler hdef hh
    obtain ⟨hlost,rfl⟩ := Prod.mk.inj hr
    refine ⟨h.world,h.fixed.handlers,fun hpass => ?_⟩
    have hok := h.check.trans (hpass p hp (by simp [hid]))
    have : Reply.lost loss = .ok := hlost.symm.trans hok
    cases this

end Checked

theorem wp_prepareTransaction_checked {txnID : String} {t : Nat}
    (hdef : c.handlers = defaultHandlers out ids) (hreg : c.transactions txnID = some t)
    (hpending : (c.txns t).status = .pending) :
    wp (prepareTransaction clock txnID)
      (fun _ c' => c'.world = c.world ∧ Fixed c c' ∧
        clock c.lockManager.tick-(c.txns t).createdAt ≤ (c.txns t).timeout ∧
        Passes ids (c.txns t).participants c)
      (fun _ c' => c'.world = c.world ∧ c'.handlers = c.handlers ∧
        ¬ (clock c.lockManager.tick-(c.txns t).createdAt ≤ (c.txns t).timeout ∧
          Passes ids (c.txns t).participants c)) c := by
  simp only [prepareTransaction,prepareBody,wp_bind,wp_findTransaction hreg,wp_get,wp_ite,wp_throw,
    wp_now,wp_modifyTxn,hpending,ne_eq,not_true_eq_false,if_false]
  split
  · rename_i hlate
    exact ⟨rfl,rfl,fun h => by omega⟩
  · rename_i hlate
    refine wp_mono (wp_forM (I := fun done c' => Checked ids c done c') _
      ⟨⟨rfl,fun _ => rfl,fun _ => rfl,fun _ => rfl⟩,rfl,by simp [Passes]⟩ ?_) ?_ (fun _ _ h => h)
    · intro done p rest c₁ hsplit h
      refine wp_mono (wp_prepareOne txnID p c₁) (fun _ c₂ hr => h.round hdef hr) ?_
      intro e c₂ hr
      have hp : p ∈ (c.txns t).participants := by simp [hsplit]
      obtain ⟨hworld,hhandlers,hwhy⟩ := h.stop hdef hp hr
      exact ⟨hworld,hhandlers,fun hall => hwhy hall.2⟩
    · intro _ c₁ h
      exact ⟨h.world,⟨h.fixed.handlers,h.fixed.storeID,h.fixed.operation,h.fixed.params⟩,by omega,
        h.passes⟩

theorem wp_orAbort_world (out : Outside) (ids : String → Option String) {phase : String} {t : Nat}
    {x : TxnM World Unit}
    {Q : Unit → Coordinator World → Prop} {E : Fault → Coordinator World → Prop}
    (hdef : ∀ e c', E e c' → c'.handlers = defaultHandlers out ids) (hx : wp x Q E c) :
    wp (orAbort clock phase t x) Q (fun e c' =>
      ∃ e' c₁, E e' c₁ ∧ (e'.Lost → e.Lost) ∧ c'.world = c₁.world) c := by
  rw [wp_orAbort]
  refine wp_mono hx (fun _ _ h => h) ?_
  intro e c₁ he
  cases e with
  | lost loss => exact ⟨_,c₁,he,fun h => h,rfl⟩
  | error text =>
    refine wp_mono (wp_abortTransaction_world clock (hdef _ _ he) _) ?_ ?_
    · intro _ c₂ hw
      exact ⟨_,c₁,he,False.elim,hw⟩
    · rintro e' c₂ ⟨hne,hw⟩
      cases e' with
      | lost loss => exact (hne trivial).elim
      | error _ => exact ⟨_,c₁,he,False.elim,hw⟩

end Transaction

/-- The commit phase is entered: the locks were to be had, the time had not run
out, and every Prepare returns nil. -/
def EntersCommit (clock : Nat → Int) (order : List String → List String)
    (ids : String → Option String) (ps : List Nat) (timeout : Int) (c : Coordinator World) : Prop :=
  ∃ t c₁, beginTransaction clock order ps timeout c = .ok t c₁ ∧
    clock c₁.lockManager.tick-(c₁.txns t).createdAt ≤ timeout ∧ Passes ids ps c

section Failed
variable {clock : Nat → Int} {order : List String → List String} {out : Outside}
  {ids : String → Option String} {ps : List Nat} {timeout : Int} {t : Nat}
  {c c₁ c₂ c₃ : Coordinator World}

/-- The phase after which `ExecuteTransaction` returns its error. -/
theorem prepare_phase (hdef : c.handlers = defaultHandlers out ids)
    (hb : beginTransaction clock order ps timeout c = .ok t c₁) :
    wp (orAbort clock "prepare" t (prepareTransaction clock (c₁.txns t).transactionID))
      (fun _ c₂ => EntersCommit clock order ids ps timeout c ∧ Fixed c c₂ ∧ c₂.world = c.world ∧
        (c₂.txns t).participants = ps ∧ (c₂.txns t).status = .prepared ∧
        c₂.transactions (c₁.txns t).transactionID = some t ∧
        ∀ p ∈ ps,c₂.handlerOf p ≠ none → (c₂.objects p).status = .prepared)
      (fun _ c₂ => c₂.world = c.world ∧ ¬ EntersCommit clock order ids ps timeout c) c₁ := by
  have hbegun := wp_ok (wp_beginTransaction clock ps timeout order c) hb
  have hdef₁ : c₁.handlers = defaultHandlers out ids := hbegun.fixed.handlers.trans hdef
  have hchecked := wp_prepareTransaction_checked clock hdef₁ hbegun.registered hbegun.status
  rw [hbegun.participants,hbegun.timeout,hbegun.fixed.passes hbegun.world] at hchecked
  refine wp_mono (wp_orAbort_world clock out ids ?_
    (wp_and (wp_prepareTransaction clock hbegun.registered) hchecked)) ?_ ?_
  · rintro e c₂ ⟨-,-,hhandlers,-⟩
    exact hhandlers.trans hdef₁
  · rintro _ c₂ ⟨⟨prepares,hready⟩,hworld,hfixed,htimely,hpass⟩
    obtain ⟨c₁',hprep,hobj⟩ := hready.preparing
    obtain ⟨updatedAt,htxn⟩ := hready.txn
    rw [hbegun.participants] at hprep
    refine ⟨⟨t,c₁,hb,htimely,hpass⟩,hbegun.fixed.trans hfixed,hworld.trans hbegun.world,
      by rw [htxn,← hbegun.participants],by rw [htxn],hready.transactions ▸ hbegun.registered,?_⟩
    intro p hp hne
    rw [hfixed.handlerOf] at hne
    rw [hobj]
    exact (hprep.prepared p hp hne).1
  · rintro e c₂ ⟨e',c₁',⟨-,hworld,-,hwhy⟩,-,hw⟩
    refine ⟨hw.trans (hworld.trans hbegun.world),?_⟩
    rintro ⟨t',c₂',hok,htimely,hpass⟩
    rw [hb] at hok
    cases hok
    exact hwhy ⟨htimely,hpass⟩

theorem commit_phase (hdef : c.handlers = defaultHandlers out ids) (hsound : c.world.Sound)
    (hfixed : Fixed c c₂) (hworld : c₂.world = c.world) (hps : (c₂.txns t).participants = ps)
    (hstatus : (c₂.txns t).status = .prepared) {txnID : String}
    (hreg : c₂.transactions txnID = some t)
    (hready : ∀ p ∈ ps,c₂.handlerOf p ≠ none → (c₂.objects p).status = .prepared) :
    wp (orAbort clock "commit" t (commitTransaction clock txnID)) (fun _ _ => True)
      (fun e c₃ => e.Lost ∨ (c.world.Same c₃.world ↔ ¬ ∃ p ∈ ps,Effective ids c p)) c₂ := by
  have hdef₂ : c₂.handlers = defaultHandlers out ids := hfixed.handlers.trans hdef
  have heffective : ∀ p, Effective ids c₂ p ↔ Effective ids c p :=
    fun p => hfixed.effective (hworld ▸ World.Idle.refl _) p
  have hcommit := wp_commitTransaction_settled clock hdef₂ (hworld ▸ hsound) hreg hstatus
    (hps ▸ hready)
  simp only [hworld,hps,heffective] at hcommit
  refine wp_mono (wp_orAbort_world clock out ids ?_ hcommit)
    (fun _ _ h => h) ?_
  · rintro e c₃ ⟨hhandlers,-⟩
    exact hhandlers.trans hdef₂
  · rintro e c₄ ⟨e',c₃,⟨-,hcase⟩,hlost,hw⟩
    rw [hw]
    rcases hcase with hlost' | ⟨hidle,hnone⟩ | ⟨hahead,hsome⟩
    · exact Or.inl (hlost hlost')
    · exact Or.inr ⟨fun _ ⟨p,hp,he⟩ => hnone p hp he,fun _ => hidle.same⟩
    · exact Or.inr ⟨fun hs => (hahead.not_same hs).elim,fun hno => (hno hsome).elim⟩

end Failed

/-- A transaction with default handlers that returns an error has left timelines
and index as they were exactly if it did not come to the commit phase or no
participant with a handler had anything to do there. -/
theorem failed_transaction_unchanged_iff (clock : Nat → Int) (order : List String → List String)
    (out : Outside) (ids : String → Option String) (ps : List Nat) (timeout : Int)
    (c c' : Coordinator World) (text : String) (hdef : c.handlers = defaultHandlers out ids)
    (hhost : Storage.Reachable out.env c.world.host)
    (hindex : Index.IndexReachable out.clock c.world.index)
    (hfail : executeTransaction clock order ps timeout c = .error (.error text) c') :
    c.world.Same c'.world ↔
      ¬ (EntersCommit clock order ids ps timeout c ∧ ∃ p ∈ ps,Effective ids c p) := by
  have hsound : c.world.Sound := ⟨hhost.pointed,hindex.wellFormed⟩
  have hw : wp (executeTransaction clock order ps timeout) (fun _ _ => True)
      (fun e c' => e.Lost ∨ (c.world.Same c'.world ↔
        ¬ (EntersCommit clock order ids ps timeout c ∧ ∃ p ∈ ps,Effective ids c p))) c := by
    have unreached : ∀ {c' : Coordinator World}, c'.world = c.world →
        ¬ EntersCommit clock order ids ps timeout c → (c.world.Same c'.world ↔
          ¬ (EntersCommit clock order ids ps timeout c ∧ ∃ p ∈ ps,Effective ids c p)) :=
      fun h hno => ⟨fun _ hyes => hno hyes.1,fun _ => h ▸ (World.Idle.refl _).same⟩
    simp only [executeTransaction,wp_bind,wp_orFail]
    cases hb : beginTransaction clock order ps timeout c with
    | error e c₁ =>
      have hworld := (wp_error (wp_beginTransaction clock ps timeout order c) hb).2
      refine wp_of_eq_error hb ?_
      cases e with
      | lost loss => exact Or.inl trivial
      | error text =>
        refine Or.inr (unreached hworld ?_)
        rintro ⟨t,c₂,hok,-⟩
        rw [hb] at hok
        cases hok
    | ok t c₁ =>
      refine wp_of_eq_ok hb ?_
      simp only [wp_get]
      refine wp_mono (prepare_phase hdef hb) ?_ ?_
      · rintro _ c₂ ⟨henters,hfixed,hworld,hps,hstatus,hreg,hready⟩
        refine wp_mono (commit_phase hdef hsound hfixed hworld hps hstatus hreg hready)
          (fun _ _ h => h) ?_
        rintro e c₃ (hlost | hiff)
        · exact Or.inl hlost
        · exact Or.inr (hiff.trans (not_congr (and_iff_right henters).symm))
      · rintro e c₂ ⟨hworld,hno⟩
        exact Or.inr (unreached hworld hno)
  rcases wp_error hw hfail with hlost | hiff
  · exact hlost.elim
  · exact hiff

/-- The two participants of `DeleteTimelineWithTransaction` for a timeline of the local store
whose one block in the index has this ID. -/
def deletingTimeline (blockID : String) : Coordinator World :=
  newCoordinator "store_1" (Lock.newLockManager "store_1")
    (defaultHandlers ⟨Storage.Env.steady,fun n => n,newClients⟩ fun _ => some "store_1")
    (fun p =>
      if p = 0 then participant "store_1" .deleteTimeline [("timeline_key",.string "k")]
      else participant "store_1" .updateIndex
        [("index_key",.string "k"),("operation",.string "remove")])
    ⟨Storage.Host.steady Storage.smallBlocks,
      final ((Index.IndexOp.addIndex ⟨"k","store_1",blockID,0,0,0,0⟩).exec fun n => n)
        Index.newGlobalIndex,0⟩

theorem failed_transaction_unchanged_iff_named_block :
    ∃ text c', executeTransaction (fun n => n) id [0,1] 100 (deletingTimeline "b") =
        .error (.error text) c' ∧ (deletingTimeline "b").world.Same c'.world := by
  have hfail := eq_error_of_fault (x := executeTransaction (fun n => n) id [0,1] 100)
    (s := deletingTimeline "b") (e := .error ("transaction commit failed: commit failed with 2 " ++
      "errors: [commit failed for participant store_1: timeline deletion not implemented " ++
      "commit failed for participant store_1: block  not found in timeline k]")) (by decide +kernel)
  have hindex : Index.IndexReachable (fun n => n) (deletingTimeline "b").world.index :=
    .exec (.addIndex ⟨"k","store_1","b",0,0,0,0⟩) .new
  have hnamed : ∀ e ∈ (deletingTimeline "b").world.index.entriesOf "k", e.blockID ≠ "" := by
    decide +kernel
  refine ⟨_,_,hfail,(failed_transaction_unchanged_iff (fun n => n) id
    ⟨Storage.Env.steady,fun n => n,newClients⟩ (fun _ => some "store_1") [0,1] 100
    (deletingTimeline "b") _ _ rfl (.opened (Storage.newStore_steady Storage.smallBlocks)) hindex
    hfail).mpr ?_⟩
  rintro ⟨-,p,hp,storeID,hid,hc⟩
  rcases List.mem_pair.mp hp with rfl | rfl
  · exact hc
  · obtain ⟨indexKey,hkey,operation,hop,⟨-,htarget⟩ | ⟨-,e,he,hempty⟩⟩ := hc
    · cases htarget
    · obtain rfl : "k" = indexKey := Option.some.inj hkey
      exact hnamed e he hempty

/-- The timeline is not deleted, and the index has lost its entry. -/
theorem failed_delete_removes_index_entry :
    ∃ text c', executeTransaction (fun n => n) id [0,1] 100 (deletingTimeline "") =
        .error (.error text) c' ∧
      ((deletingTimeline "").world.index.entriesOf "k").map (·.storeID) = ["store_1"] ∧
      c'.world.index.entriesOf "k" = [] ∧ ¬ (deletingTimeline "").world.Same c'.world := by
  have hfail := eq_error_of_fault (x := executeTransaction (fun n => n) id [0,1] 100)
    (s := deletingTimeline "") (e := .error ("transaction commit failed: commit failed with 1 " ++
      "errors: [commit failed for participant store_1: timeline deletion not implemented]"))
    (by decide +kernel)
  have hbefore :
      ((deletingTimeline "").world.index.entriesOf "k").map (·.storeID) = ["store_1"] := by
    decide +kernel
  have hafter : (final (executeTransaction (fun n => n) id [0,1] 100)
      (deletingTimeline "")).world.index.entriesOf "k" = [] := by
    rw [← List.map_eq_nil_iff (f := (·.storeID))]
    decide +kernel
  refine ⟨_,_,hfail,hbefore,hafter,fun hsame => ?_⟩
  rw [← hsame.entries "k",hafter] at hbefore
  cases hbefore

end Imy.Txn
