import Imy.Txn.FailedTransaction
set_option autoImplicit false

namespace Imy.Txn
open Imy.Lib

def TypedFor (phase : Phase) (o : TransactionParticipant) : Prop :=
  match phase,o.operation with
  | .prepare,.createTimeline | .prepare,.deleteTimeline | .prepare,.addMessage
  | .prepare,.migrateTimeline => (o.string? "timeline_key").isSome
  | .commit,.createTimeline =>
    (o.string? "timeline_key").isSome ∧ (o.string? "timeline_type").isSome
  | .commit,.addMessage =>
    (o.string? "timeline_key").isSome ∧ (o.uint32? "sender_id").isSome ∧
      (o.bytes? "data").isSome ∧ (o.strings? "user_ids").isSome
  | .commit,.updateIndex =>
    (o.string? "index_key").isSome ∧ ∃ operation ∈ o.string? "operation",
      operation = "add" → (o.string? "target_store").isSome
  | _,_ => True

theorem typedFor_congr {o o' : TransactionParticipant} (ho : o'.operation = o.operation)
    (hp : o'.params = o.params) (phase : Phase) : TypedFor phase o' ↔ TypedFor phase o := by
  obtain ⟨_,_,_,_,_⟩ := o
  obtain ⟨_,_,_,_,_⟩ := o'
  subst ho hp
  rfl

theorem typedFor_abort (o : TransactionParticipant) : TypedFor .abort o := by
  unfold TypedFor
  cases o.operation <;> trivial

section Handler
variable (out : Outside) {storeID : String} {o : TransactionParticipant} {w : World}

theorem prepareExisting_panicked_iff (index : Index.GlobalIndex) :
    prepareExisting o index = .lost .panicked ↔ ¬ (o.string? "timeline_key").isSome := by
  unfold prepareExisting
  cases o.string? "timeline_key" with
  | none => simp
  | some key => cases hx : Index.getTimelineLocation key index <;> simp [hx]

theorem defaultPrepare_panicked_iff (index : Index.GlobalIndex) :
    defaultPrepare o index = .lost .panicked ↔ ¬ TypedFor .prepare o := by
  unfold defaultPrepare TypedFor
  cases o.operation with
  | createTimeline =>
    cases o.string? "timeline_key" with
    | none => simp
    | some key => cases hx : Index.getTimelineLocation key index <;> simp [hx]
  | deleteTimeline | addMessage | migrateTimeline => exact prepareExisting_panicked_iff index
  | updateIndex | unknown => simp

theorem defaultCommit_untyped (h : ¬ TypedFor .commit o) :
    defaultCommit out storeID o w = (.lost .panicked,w) := by
  unfold TypedFor at h
  unfold defaultCommit
  cases hop : o.operation <;> simp only [hop] at h ⊢
  case createTimeline =>
    unfold commitCreate
    split
    · rename_i hk ht
      exact (h ⟨by simp [hk],by simp [ht]⟩).elim
    · rfl
  case addMessage =>
    unfold commitAddMessage
    split
    · rename_i hk hs hd hu
      exact (h ⟨by simp [hk],by simp [hs],by simp [hd],by simp [hu]⟩).elim
    · rfl
  case updateIndex =>
    unfold commitUpdateIndex
    split
    · rename_i operation hk ho
      split
      · split
        · rename_i ht
          exact (h ⟨by simp [hk],operation,by simp [ho],fun _ => by simp [ht]⟩).elim
        · rfl
      · rename_i hadd
        exact (h ⟨by simp [hk],operation,by simp [ho],fun he => (hadd he).elim⟩).elim
    · rfl
  all_goals exact (h trivial).elim

theorem onStore_ne_panicked {α : Type} (x : Storage.StoreM α) (w : World) :
    (onStore x w).1 ≠ .lost .panicked := by
  unfold onStore
  cases x w.host <;> simp

theorem onRemote_ne_panicked (store text : String) (w : World) :
    (onRemote out store text w).1 ≠ .lost .panicked := by
  have hclient := Rpc.Connecting.getClient_returnsOrWaits out.clients.world store ""
    (out.clients.pool w.asked)
  unfold onRemote
  cases hrun : Rpc.Connecting.getClient out.clients.world store "" (out.clients.pool w.asked) with
  | ok client pool => simp
  | error e pool =>
    have hwaits := wp_error hclient hrun
    subst hwaits
    simp

theorem onIndex_ne_panicked {α : Type} {x : Index.IndexM α} {E : Index.IndexFault →
    Index.GlobalIndex → Prop}
    (hx : wp x (fun _ _ => True) E w.index) (hE : ∀ g, ¬ E .nilMap g) :
    (onIndex x w).1 ≠ .lost .panicked := by
  unfold onIndex
  cases hr : x w.index with
  | ok a g => simp
  | error e g =>
    cases e with
    | error text => simp
    | nilMap => exact (hE g (wp_error hx hr)).elim

theorem defaultCommit_ne_panicked (hs : w.Sound) (h : TypedFor .commit o) :
    (defaultCommit out storeID o w).1 ≠ .lost .panicked := by
  unfold TypedFor at h
  unfold defaultCommit
  cases hop : o.operation <;> simp only [hop] at h ⊢
  case createTimeline =>
    obtain ⟨timelineKey,hk⟩ := Option.isSome_iff_exists.mp h.1
    obtain ⟨timelineType,ht⟩ := Option.isSome_iff_exists.mp h.2
    simp only [commitCreate,hk,ht]
    split_ifs
    · exact onStore_ne_panicked _ _
    · exact onStore_ne_panicked _ _
    · exact onRemote_ne_panicked out _ _ _
  case addMessage =>
    obtain ⟨timelineKey,hk⟩ := Option.isSome_iff_exists.mp h.1
    obtain ⟨senderID,hi⟩ := Option.isSome_iff_exists.mp h.2.1
    obtain ⟨data,hd⟩ := Option.isSome_iff_exists.mp h.2.2.1
    obtain ⟨userIDs,hu⟩ := Option.isSome_iff_exists.mp h.2.2.2
    simp only [commitAddMessage,hk,hi,hd,hu]
    split_ifs
    · exact onStore_ne_panicked _ _
    · exact onRemote_ne_panicked out _ _ _
  case updateIndex =>
    obtain ⟨indexKey,hk⟩ := Option.isSome_iff_exists.mp h.1
    obtain ⟨operation,ho,hadd⟩ := h.2
    have ho : o.string? "operation" = some operation := ho
    simp only [commitUpdateIndex,hk,ho]
    split_ifs with h₁ h₂ h₃
    · obtain ⟨targetStore,ht⟩ := Option.isSome_iff_exists.mp (hadd h₁)
      simp only [ht]
      exact onIndex_ne_panicked (wp_mono
        (addFirstBlock_growth out.clock indexKey targetStore hs.index)
        (fun _ _ _ => trivial) (fun _ _ h => h)) fun _ h => h
    · exact onIndex_ne_panicked (wp_mono (Index.wp_removeIndex out.clock indexKey "" hs.index)
        (fun _ _ _ => trivial) (fun _ _ h => h.1)) (by simp)
    · simp
    · simp
  all_goals simp

end Handler

/-- Every call of a handler since `c` found what it asserts. -/
def Asserted {σ : Type} (c c' : Coordinator σ) : Prop :=
  ∃ new, c'.calls = c.calls ++ new ∧
    ∀ call ∈ new, TypedFor call.phase (c'.objects call.participant)

structure Typing (c c' : Coordinator World) : Prop where
  fixed : Fixed c c'
  sound : c'.world.Sound
  asserted : Asserted c c'

section Phases
variable {out : Outside} {ids : String → Option String} {c c₁ c₂ : Coordinator World}

theorem Asserted.same (h : Asserted c c₁) (hf : Fixed c₁ c₂) (hc : c₂.calls = c₁.calls) :
    Asserted c c₂ := by
  obtain ⟨new,hnew,hall⟩ := h
  exact ⟨new,hc.trans hnew,fun call hcall =>
    (typedFor_congr (hf.operation _) (hf.params _) _).mpr (hall call hcall)⟩

theorem Asserted.trans (h : Asserted c c₁) (h' : Asserted c₁ c₂) (hf : Fixed c₁ c₂) :
    Asserted c c₂ := by
  obtain ⟨new,hnew,hall⟩ := h
  obtain ⟨new',hnew',hall'⟩ := h'
  refine ⟨new ++ new',by rw [hnew',hnew,List.append_assoc],fun call hcall => ?_⟩
  rcases List.mem_append.mp hcall with hcall | hcall
  · exact (typedFor_congr (hf.operation _) (hf.params _) _).mpr (hall call hcall)
  · exact hall' call hcall

theorem Typing.refl (hs : c.world.Sound) : Typing c c :=
  ⟨Fixed.refl c,hs,[],by simp,by simp⟩

theorem Typing.trans (h : Typing c c₁) (h' : Typing c₁ c₂) : Typing c c₂ :=
  ⟨h.fixed.trans h'.fixed,h'.sound,h.asserted.trans h'.asserted h'.fixed⟩

/-- What only touches the locks, the transactions or a participant's status. -/
theorem Typing.same (h : Typing c c₁) (hf : Fixed c₁ c₂) (hw : c₂.world = c₁.world)
    (hc : c₂.calls = c₁.calls) : Typing c c₂ :=
  ⟨h.fixed.trans hf,hw ▸ h.sound,h.asserted.same hf hc⟩

theorem Typing.called (h : Typing c c₁) {phase : Phase} {p : Nat}
    (hp : TypedFor phase (c.objects p))
    (reply : Reply) {w : World} (hw : w.Sound) : Typing c (c₁.called phase p (reply,w)) := by
  have hf : Fixed c (c₁.called phase p (reply,w)) := h.fixed.called phase p (reply,w)
  obtain ⟨new,hnew,hall⟩ := h.asserted
  refine ⟨hf,hw,new ++ [⟨phase,p,reply⟩],by simp [hnew],fun call hcall => ?_⟩
  rw [typedFor_congr (hf.operation _) (hf.params _)]
  rcases List.mem_append.mp hcall with hcall | hcall
  · exact (typedFor_congr (h.fixed.operation _) (h.fixed.params _) _).mp (hall call hcall)
  · rw [List.mem_singleton.mp hcall]
    exact hp

theorem Typing.call (h : Typing c c₁) {phase : Phase} {p : Nat} (hp : TypedFor phase (c.objects p))
    (reply : Reply) {w : World} (hw : w.Sound) (status : TransactionStatus) (error : String) :
    Typing c ((c₁.called phase p (reply,w)).setObject p
      { c₁.objects p with status := status, error := error }) :=
  (h.called hp reply hw).same ((Fixed.refl _).setObject p status error) rfl rfl

variable (clock : Nat → Int) {txnID : String} {t : Nat}

theorem wp_prepareTransaction_typed (hdef : c.handlers = defaultHandlers out ids)
    (hs : c.world.Sound) (hreg : c.transactions txnID = some t)
    (htyped : ∀ p ∈ (c.txns t).participants, TypedFor .prepare (c.objects p)) :
    wp (prepareTransaction clock txnID) (fun _ c' => Typing c c')
      (fun e c' => e ≠ .lost .panicked ∧ Typing c c') c := by
  simp only [prepareTransaction,prepareBody,wp_bind,wp_findTransaction hreg,wp_get,wp_ite,wp_throw,
    wp_now,wp_modifyTxn]
  split
  · exact ⟨by simp,Typing.refl hs⟩
  split
  · exact ⟨by simp,(Typing.refl hs).same ⟨rfl,fun _ => rfl,fun _ => rfl,fun _ => rfl⟩ rfl rfl⟩
  refine wp_mono (wp_forM (I := fun _ c' => Typing c c') _
    ((Typing.refl hs).same ⟨rfl,fun _ => rfl,fun _ => rfl,fun _ => rfl⟩ rfl rfl) ?_) ?_
    (fun _ _ h => h)
  · intro done p rest c₁ hsplit h
    have hp : TypedFor .prepare (c.objects p) := htyped p (by simp [hsplit])
    refine wp_mono (wp_prepareOne txnID p c₁) ?_ ?_
    · intro _ c₂ hr
      cases hr with
      | missing hh => exact h.same ((Fixed.refl c₁).setObject p _ _) rfl rfl
      | ok handler w hh hr =>
        obtain ⟨storeID,-,rfl⟩ := h.fixed.defaultHandler hdef hh
        obtain ⟨-,rfl⟩ := Prod.mk.inj hr
        exact h.call hp .ok h.sound _ _
    · intro e c₂ hr
      cases hr with
      | error handler err w hh hr =>
        obtain ⟨storeID,-,rfl⟩ := h.fixed.defaultHandler hdef hh
        obtain ⟨-,rfl⟩ := Prod.mk.inj hr
        exact ⟨by simp,h.call hp (.error err) h.sound _ _⟩
      | lost handler loss w hh hr =>
        obtain ⟨storeID,-,rfl⟩ := h.fixed.defaultHandler hdef hh
        obtain ⟨hreply,rfl⟩ := Prod.mk.inj hr
        refine ⟨?_,h.called hp (.lost loss) h.sound⟩
        rintro ⟨⟩
        have hun := (defaultPrepare_panicked_iff _).mp hreply
        rw [typedFor_congr (h.fixed.operation p) (h.fixed.params p)] at hun
        exact hun hp
  · intro _ c₁ h
    exact h.same ⟨rfl,fun _ => rfl,fun _ => rfl,fun _ => rfl⟩ rfl rfl

theorem wp_commitTransaction_typed (hdef : c.handlers = defaultHandlers out ids)
    (hs : c.world.Sound)
    (hreg : c.transactions txnID = some t)
    (htyped : ∀ p ∈ (c.txns t).participants, TypedFor .commit (c.objects p)) :
    wp (commitTransaction clock txnID) (fun _ c' => Typing c c')
      (fun e c' => e ≠ .lost .panicked ∧ Typing c c') c := by
  simp only [commitTransaction,commitBody,wp_bind,wp_findTransaction hreg,wp_get,wp_ite,wp_throw,
    wp_now,wp_modifyTxn]
  split
  · exact ⟨by simp,Typing.refl hs⟩
  refine wp_mono (wp_foldlM (I := fun _ _ c' => Typing c c') _ (Typing.refl hs) ?_) ?_
    (fun _ _ h => h)
  · intro done p rest errors c₁ hsplit h
    have hp : TypedFor .commit (c.objects p) := htyped p (by simp [hsplit])
    have hp₁ : TypedFor .commit (c₁.objects p) :=
      (typedFor_congr (h.fixed.operation p) (h.fixed.params p) _).mpr hp
    have hsound : ∀ storeID, (defaultCommit out storeID (c₁.objects p) c₁.world).2.Sound :=
      fun storeID => (defaultCommit_effect out h.sound).sound
    refine wp_mono (wp_commitOne txnID p c₁ errors) ?_ ?_
    · intro errors' c₂ hr
      cases hr with
      | skip | missing => exact h
      | error handler err w hst hh hr =>
        obtain ⟨storeID,-,rfl⟩ := h.fixed.defaultHandler hdef hh
        have hw : (defaultCommit out storeID (c₁.objects p) c₁.world).2 = w := congrArg Prod.snd hr
        exact h.call hp _ (hw ▸ hsound storeID) _ _
      | ok handler w hst hh hr =>
        obtain ⟨storeID,-,rfl⟩ := h.fixed.defaultHandler hdef hh
        have hw : (defaultCommit out storeID (c₁.objects p) c₁.world).2 = w := congrArg Prod.snd hr
        exact h.call hp _ (hw ▸ hsound storeID) _ _
    · rintro _ c₂ ⟨-,handler,loss,w,rfl,hh,hr,rfl⟩
      obtain ⟨storeID,-,rfl⟩ := h.fixed.defaultHandler hdef hh
      have hw : (defaultCommit out storeID (c₁.objects p) c₁.world).2 = w := congrArg Prod.snd hr
      refine ⟨?_,h.called hp (.lost loss) (hw ▸ hsound storeID)⟩
      rintro ⟨⟩
      exact defaultCommit_ne_panicked out h.sound hp₁ (congrArg Prod.fst hr)
  · intro errors c₁ h
    split
    · exact ⟨by simp,h.same ⟨rfl,fun _ => rfl,fun _ => rfl,fun _ => rfl⟩ rfl rfl⟩
    · simp only [releaseHeld,wp_bind,wp_get,wp_modifyTxn]
      refine wp_mono (wp_releaseLocks clock _ _) ?_ (fun _ _ h => h.elim)
      rintro _ _ ⟨m,rfl⟩
      exact h.same ⟨rfl,fun _ => rfl,fun _ => rfl,fun _ => rfl⟩ rfl rfl

/-- An abort asserts nothing, and the default handler always returns nil. -/
theorem wp_abortTransaction_typed (hdef : c.handlers = defaultHandlers out ids)
    (hs : c.world.Sound) (txnID : String) :
    wp (abortTransaction clock txnID) (fun _ c' => Typing c c')
      (fun e c' => e ≠ .lost .panicked ∧ Typing c c') c := by
  simp only [abortTransaction,findTransaction,wp_bind,wp_get]
  cases c.transactions txnID with
  | none => exact ⟨by simp,Typing.refl hs⟩
  | some t =>
    simp only [wp_pure,abortBody,wp_bind,wp_get,wp_ite,wp_throw,wp_now,wp_modifyTxn]
    split
    · exact ⟨by simp,Typing.refl hs⟩
    refine wp_mono (wp_forM (I := fun _ c' => Typing c c') (E := fun _ _ => False) _
      (Typing.refl hs) ?_) ?_ (fun _ _ h => h.elim)
    · intro done p rest c₁ _ h
      refine wp_mono (wp_abortOne txnID p c₁) ?_ ?_
      · intro _ c₂ hr
        cases hr with
        | skip => exact h
        | call handler reply w error hst hh hr =>
          obtain ⟨storeID,-,rfl⟩ := h.fixed.defaultHandler hdef hh
          obtain ⟨-,rfl⟩ := Prod.mk.inj hr
          exact h.call (typedFor_abort _) reply h.sound _ _
      · rintro e c₂ ⟨handler,loss,w,-,hh,hr,-⟩
        obtain ⟨storeID,-,rfl⟩ := h.fixed.defaultHandler hdef hh
        cases (Prod.mk.inj hr).1
    · intro _ c₁ h
      simp only [releaseHeld,wp_bind,wp_get,wp_modifyTxn]
      refine wp_mono (wp_releaseLocks clock _ _) ?_ (fun _ _ h => h.elim)
      rintro _ _ ⟨m,rfl⟩
      exact h.same ⟨rfl,fun _ => rfl,fun _ => rfl,fun _ => rfl⟩ rfl rfl

theorem wp_orAbort_typed (hdef : c₁.handlers = defaultHandlers out ids) {phase : String}
    {x : TxnM World Unit} {Q : Unit → Coordinator World → Prop}
    (hx : wp x Q (fun e c' => e ≠ .lost .panicked ∧ Typing c₁ c') c₁) :
    wp (orAbort clock phase t x) Q (fun e c' => e ≠ .lost .panicked ∧ Typing c₁ c') c₁ := by
  rw [wp_orAbort]
  refine wp_mono hx (fun _ _ h => h) ?_
  rintro e c₂ ⟨hne,h⟩
  cases e with
  | lost loss => exact ⟨hne,h⟩
  | error text =>
    refine wp_mono (wp_abortTransaction_typed clock (h.fixed.handlers.trans hdef) h.sound _) ?_ ?_
    · intro _ c₃ h'
      exact ⟨by simp,h.trans h'⟩
    · rintro e' c₃ ⟨hne',h'⟩
      cases e' with
      | lost loss => exact ⟨hne',h.trans h'⟩
      | error _ => exact ⟨by simp,h.trans h'⟩

end Phases

section Execute
variable {clock : Nat → Int} {order : List String → List String} {out : Outside}
  {ids : String → Option String} {ps : List Nat} {timeout : Int} {c : Coordinator World}

theorem Opened.typing {t : Nat} {c₁ : Coordinator World} (h : Opened c ps timeout t c₁)
    (hs : c.world.Sound) : Typing c c₁ :=
  (Typing.refl hs).same h.fixed h.world h.calls

theorem wp_executeTransaction_typed (hdef : c.handlers = defaultHandlers out ids)
    (hs : c.world.Sound)
    (hprepare : ∀ p ∈ ps, TypedFor .prepare (c.objects p))
    (hcommit : EntersCommit clock order ids ps timeout c →
      ∀ p ∈ ps, TypedFor .commit (c.objects p)) :
    wp (executeTransaction clock order ps timeout) (fun _ c' => Typing c c')
      (fun e c' => e ≠ .lost .panicked ∧ Typing c c') c := by
  have typed_of_fixed : ∀ {phase : Phase} {c' : Coordinator World}, Fixed c c' →
      (∀ p ∈ ps, TypedFor phase (c.objects p)) → ∀ p ∈ ps, TypedFor phase (c'.objects p) :=
    fun hf h p hp => (typedFor_congr (hf.operation p) (hf.params p) _).mpr (h p hp)
  have hopened := wp_beginTransaction_opened clock ps timeout order c
  simp only [executeTransaction,wp_bind,wp_orFail]
  cases hb : beginTransaction clock order ps timeout c with
  | error e c₁ =>
    obtain ⟨⟨text,rfl⟩,t,ho⟩ := wp_error hopened hb
    exact wp_of_eq_error hb ⟨by simp,ho.typing hs⟩
  | ok t c₁ =>
    have hbegun := wp_ok hopened hb
    have hfirst : Typing c c₁ := hbegun.toOpened.typing hs
    have hdef₁ : c₁.handlers = defaultHandlers out ids := hfirst.fixed.handlers.trans hdef
    refine wp_of_eq_ok hb ?_
    simp only [wp_get]
    have hprep := wp_prepareTransaction_typed clock hdef₁ hfirst.sound hbegun.registered
      (hbegun.participants.symm ▸ typed_of_fixed hfirst.fixed hprepare)
    refine wp_mono (wp_and (prepare_phase hdef hb) (wp_orAbort_typed clock hdef₁ hprep)) ?_ ?_
    · rintro _ c₂ ⟨⟨henters,hfixed,-,hps,-,hreg,-⟩,hsecond⟩
      have hcomm := wp_commitTransaction_typed clock (hfixed.handlers.trans hdef) hsecond.sound
        hreg (hps.symm ▸ typed_of_fixed hfixed (hcommit henters))
      refine wp_mono (wp_orAbort_typed clock (hfixed.handlers.trans hdef) hcomm) ?_ ?_
      · intro _ c₃ hthird
        exact (hfirst.trans hsecond).trans hthird
      · rintro e c₃ ⟨hne,hthird⟩
        exact ⟨hne,(hfirst.trans hsecond).trans hthird⟩
    · rintro e c₂ ⟨-,hne,hsecond⟩
      exact ⟨hne,hfirst.trans hsecond⟩

/-- A single participant that is not typed for the commit makes the call panic there. -/
theorem wp_executeTransaction_untyped {p : Nat} {storeID : String}
    (hdef : c.handlers = defaultHandlers out ids) (hid : ids (c.objects p).storeID = some storeID)
    (hun : ¬ TypedFor .commit (c.objects p))
    (henters : EntersCommit clock order ids [p] timeout c) :
    wp (executeTransaction clock order [p] timeout) (fun _ _ => False)
      (fun e _ => e = .lost .panicked) c := by
  obtain ⟨t,c₁,hb,-⟩ := id henters
  simp only [executeTransaction,wp_bind,wp_orFail]
  refine wp_of_eq_ok hb ?_
  simp only [wp_get]
  refine wp_mono (prepare_phase hdef hb) ?_ ?_
  · rintro _ c₂ ⟨-,hfixed,-,hps,hstatus,hreg,hready⟩
    have hh : c₂.handlerOf p = some (defaultHandler out storeID) := by
      rw [hfixed.handlerOf,handlerOf_default hdef,hid]
      rfl
    have hun₂ : ¬ TypedFor .commit (c₂.objects p) := fun h =>
      hun ((typedFor_congr (hfixed.operation p) (hfixed.params p) _).mp h)
    have hst := hready p (List.mem_singleton_self p) (by simp [hh])
    rw [wp_orAbort]
    simp only [commitTransaction,commitBody,wp_bind,wp_findTransaction hreg,wp_get,wp_ite,wp_throw,
      hstatus,hps,ne_eq,not_true_eq_false,if_false,List.foldlM_cons]
    have hlost : ∀ {handler : Handler World} {txnID : String}, c₂.handlerOf p = some handler →
        handler.commit txnID (c₂.objects p) c₂.world = (.lost .panicked,c₂.world) := by
      intro handler txnID hhandler
      obtain rfl := Option.some.inj (hh.symm.trans hhandler)
      exact defaultCommit_untyped out hun₂
    refine wp_mono (wp_commitOne _ p c₂ []) ?_ ?_
    · intro errors c₃ hr
      cases hr with
      | skip hs => exact (hs hst).elim
      | missing hs hnone => rw [hh] at hnone; cases hnone
      | error handler err w hs hhandler hr => rw [hlost hhandler] at hr; cases hr
      | ok handler w hs hhandler hr => rw [hlost hhandler] at hr; cases hr
    · rintro _ c₃ ⟨-,handler,loss,w,rfl,hhandler,hr,-⟩
      rw [hlost hhandler] at hr
      cases hr
      rfl
  · rintro e c₂ ⟨-,hno⟩
    exact (hno henters).elim

end Execute

end Imy.Txn
