import Mathlib.Data.List.Induction
import Mathlib.Data.List.Nodup
import Imy.Websocket.Hub
set_option autoImplicit false

namespace Imy.Websocket

variable {κ : Type} (userID : κ → UInt32)

/-- The clients that were registered, in this order. -/
def registrations (events : List (HubEvent κ)) : List κ :=
  events.filterMap fun
    | .register client => some client
    | _ => none

/-- The maps and the channels are in step. -/
structure InStep (registered : List κ) (h : Hub κ) : Prop where
  /-- `userClients` is `clients`, by user. -/
  listed : ∀ u c, (∃ cs, h.userClients u = some cs ∧ c ∈ cs) ↔ c ∈ h.clients ∧ userID c = u ∧ u ≠ 0
  entries : ∀ u cs, h.userClients u = some cs → cs ≠ []
  online : ∀ u, h.isUserOnline u = true ↔ u ≠ 0 ∧ ∃ c ∈ h.clients, userID c = u
  /-- A channel is closed once its client was registered and is gone. -/
  closed : ∀ c, (h.send c).closed = true ↔ c ∈ registered ∧ c ∉ h.clients
  /-- Nothing is done to a channel after it was closed. -/
  last : ∀ before c op after, h.log = before ++ (c,op) :: after → (c,.closed) ∉ before
  /-- No channel operation panics. -/
  alive : h.stage ≠ .panicked

def HubStage.addressed : HubStage κ → List κ
  | .sending _ rest => rest
  | .waiting client _ rest => client :: rest
  | _ => []

structure ByUser (clients : List κ) (userClients : UInt32 → Option (List κ)) : Prop where
  listed : ∀ u c, (∃ cs, userClients u = some cs ∧ c ∈ cs) ↔ c ∈ clients ∧ userID c = u ∧ u ≠ 0
  entries : ∀ u cs, userClients u = some cs → cs ≠ [] ∧ cs.Nodup

structure HubSound (registered : List κ) (h : Hub κ) : Prop where
  nodup : h.clients.Nodup
  known : ∀ c ∈ h.clients, c ∈ registered
  byUser : ByUser userID h.clients h.userClients
  closed : ∀ c, (h.send c).closed = true ↔ c ∈ registered ∧ c ∉ h.clients
  logged : ∀ c, (c,.closed) ∈ h.log → (h.send c).closed = true
  last : ∀ before c op after, h.log = before ++ (c,op) :: after → (c,.closed) ∉ before
  addressed : ∀ c ∈ h.stage.addressed, c ∈ h.clients
  alive : h.stage ≠ .panicked

variable {userID} {registered : List κ} {h : Hub κ} {c : κ}

theorem HubSound.inStep (hs : HubSound userID registered h) : InStep userID registered h := by
  refine ⟨hs.byUser.listed,fun u cs hcs => (hs.byUser.entries u cs hcs).1,
    fun u => ?_,hs.closed,hs.last,
    hs.alive⟩
  rw [Hub.isUserOnline,Option.isSome_iff_exists]
  constructor
  · rintro ⟨cs,hcs⟩
    obtain ⟨c,hc⟩ := List.exists_mem_of_ne_nil cs (hs.byUser.entries u cs hcs).1
    obtain ⟨hin,hu,hne⟩ := (hs.byUser.listed u c).mp ⟨cs,hcs,hc⟩
    exact ⟨hne,c,hin,hu⟩
  · rintro ⟨hne,c,hin,hu⟩
    obtain ⟨cs,hcs,-⟩ := (hs.byUser.listed u c).mpr ⟨hin,hu,hne⟩
    exact ⟨cs,hcs⟩

theorem HubSound.open_of_mem (hs : HubSound userID registered h) (hc : c ∈ h.clients) :
    (h.send c).closed = false := by
  rw [← Bool.not_eq_true,hs.closed]
  exact fun hgone => hgone.2 hc

theorem last_concat {log : List (κ × ChannelOp)} {op : ChannelOp}
    (hlast : ∀ before c op after, log = before ++ (c,op) :: after → (c,.closed) ∉ before)
    (hopen : (c,.closed) ∉ log) (before : List (κ × ChannelOp)) (d : κ) (op' : ChannelOp)
    (after : List (κ × ChannelOp)) (hsplit : log ++ [(c,op)] = before ++ (d,op') :: after) :
    (d,.closed) ∉ before := by
  rcases List.eq_nil_or_concat after with rfl | ⟨after',last,rfl⟩
  · obtain ⟨rfl,heq⟩ := List.append_inj' hsplit rfl
    cases heq
    exact hopen
  · rw [List.concat_eq_append,← List.cons_append,← List.append_assoc] at hsplit
    exact hlast before d op' after' (List.append_inj' hsplit rfl).1

theorem hubSound_new : HubSound userID [] (newHub (κ := κ)) where
  nodup := List.nodup_nil
  known := nofun
  byUser := ⟨fun u c => by simp [newHub],fun u cs hcs => by simp [newHub] at hcs⟩
  closed c := by simp [newHub]
  logged := nofun
  last before c op after hsplit := by simp [newHub] at hsplit
  addressed := nofun
  alive := nofun

section ByUser
variable {clients : List κ} {userClients : UInt32 → Option (List κ)}

theorem ByUser.update (hu : ByUser userID clients userClients) {clients' : List κ} {u : UInt32}
    {entry : Option (List κ)}
    (hother : ∀ c, userID c ≠ u → (c ∈ clients' ↔ c ∈ clients))
    (hentry : ∀ c, (∃ cs, entry = some cs ∧ c ∈ cs) ↔ c ∈ clients' ∧ userID c = u ∧ u ≠ 0)
    (hnonempty : ∀ cs, entry = some cs → cs ≠ [] ∧ cs.Nodup) :
    ByUser userID clients' (Function.update userClients u entry) := by
  refine ⟨fun v c => ?_,fun v cs hcs => ?_⟩
  · by_cases hv : v = u
    · subst hv
      rw [Function.update_self]
      exact hentry c
    · rw [Function.update_of_ne hv,hu.listed]
      refine and_congr_left fun h => (hother c fun heq => hv (h.1.symm.trans heq)).symm
  · by_cases hv : v = u
    · subst hv
      rw [Function.update_self] at hcs
      exact hnonempty cs hcs
    · rw [Function.update_of_ne hv] at hcs
      exact hu.entries v cs hcs

theorem ByUser.congr (hu : ByUser userID clients userClients) {clients' : List κ}
    (hother : ∀ c, userID c ≠ 0 → (c ∈ clients' ↔ c ∈ clients)) :
    ByUser userID clients' userClients := by
  refine ⟨fun u c => ?_,hu.entries⟩
  rw [hu.listed]
  exact and_congr_left fun h => (hother c (h.1 ▸ h.2)).symm

theorem ByUser.mem_getD (hu : ByUser userID clients userClients) (hne : userID c ≠ 0) {d : κ} :
    d ∈ (userClients (userID c)).getD [] ↔ d ∈ clients ∧ userID d = userID c := by
  have hlisted := hu.listed (userID c) d
  cases hentry : userClients (userID c) with
  | none => simpa [hentry,hne] using hlisted
  | some cs => simpa [hentry,hne] using hlisted

end ByUser

theorem HubSound.startSending (hs : HubSound userID registered h)
    (message : Payload) {order : List κ}
    (horder : ∀ c ∈ order, c ∈ h.clients) :
    HubSound userID registered (startSending h message order) := by
  refine ⟨hs.nodup,hs.known,hs.byUser,hs.closed,hs.logged,hs.last,?_,?_⟩
  · unfold Websocket.startSending
    dsimp only
    split
    · exact nofun
    · exact horder
  · unfold Websocket.startSending
    dsimp only
    split <;> exact nofun

variable [DecidableEq κ]

theorem ByUser.insert (hu : ByUser userID h.clients h.userClients) (c : κ) :
    ByUser userID (h.clients.insert c) (registerClient userID h c).userClients := by
  have hmem : ∀ d, d ∈ h.clients.insert c ↔ d = c ∨ d ∈ h.clients := fun d => List.mem_insert_iff
  unfold registerClient
  dsimp only
  split
  · rename_i hne
    refine hu.update (fun d hd => ?_) (fun d => ?_) fun cs hcs => ?_
    · rw [hmem,or_iff_right]
      rintro rfl
      exact hd rfl
    · have hget := hu.mem_getD hne (d := d)
      simp only [Option.some.injEq,exists_eq_left',List.mem_insert_iff,hget,hne,
        ne_eq,not_false_eq_true,
        and_true]
      constructor
      · rintro (rfl | hd)
        · exact ⟨Or.inl rfl,rfl⟩
        · exact ⟨Or.inr hd.1,hd.2⟩
      · rintro ⟨rfl | hd,hid⟩
        · exact Or.inl rfl
        · exact Or.inr ⟨hd,hid⟩
    · cases hcs
      refine ⟨List.ne_nil_of_mem (List.mem_insert_self),?_⟩
      cases hentry : h.userClients (userID c) with
      | none => simp
      | some old => exact (hu.entries _ old hentry).2.insert
  · rename_i hzero
    refine hu.congr fun d hd => ?_
    rw [hmem,or_iff_right]
    rintro rfl
    exact hzero hd

theorem registerClient_rest (userID : κ → UInt32) (h : Hub κ) (c : κ) :
    (registerClient userID h c).clients = h.clients.insert c ∧
    (registerClient userID h c).send = h.send ∧ (registerClient userID h c).stage = h.stage ∧
    (registerClient userID h c).log = h.log := by
  unfold registerClient
  dsimp only
  split <;> exact ⟨rfl,rfl,rfl,rfl⟩

theorem HubSound.register (hs : HubSound userID registered h) (hnew : c ∉ registered)
    (hstage : h.stage = .selecting) :
    HubSound userID (registered ++ [c]) (registerClient userID h c) := by
  obtain ⟨hclients,hsend,hst,hlog⟩ := registerClient_rest userID h c
  have hmem : ∀ d, d ∈ h.clients.insert c ↔ d = c ∨ d ∈ h.clients := fun d => List.mem_insert_iff
  refine ⟨?_,?_,?_,?_,?_,?_,?_,?_⟩
  · rw [hclients]
    exact hs.nodup.insert
  · intro d hd
    rw [hclients] at hd
    rcases (hmem d).mp hd with rfl | hd
    · simp
    · exact List.mem_append_left _ (hs.known d hd)
  · rw [hclients]
    exact hs.byUser.insert c
  · intro d
    rw [hsend,hs.closed,hclients,hmem,List.mem_append,List.mem_singleton]
    by_cases hd : d = c
    · subst hd
      simp [hnew]
    · simp [hd]
  · intro d hd
    rw [hlog] at hd
    rw [hsend]
    exact hs.logged d hd
  · rw [hlog]
    exact hs.last
  · rw [hst,hstage]
    exact nofun
  · rw [hst]
    exact hs.alive

theorem ByUser.erase {clients : List κ} (hu : ByUser userID clients h.userClients)
    (hnodup : clients.Nodup) (hc : c ∈ clients) :
    ByUser userID (clients.erase c) (dropUserClient userID h c).userClients := by
  have hmem : ∀ d, d ∈ clients.erase c ↔ d ≠ c ∧ d ∈ clients := fun d => hnodup.mem_erase_iff
  unfold dropUserClient
  split
  · rename_i hne
    obtain ⟨cs,hcs,-⟩ := (hu.listed (userID c) c).mpr ⟨hc,rfl,hne⟩
    have hold := hu.entries _ cs hcs
    have hrest : ∀ d, d ∈ cs.erase c ↔ d ∈ clients.erase c ∧
        userID d = userID c ∧ userID c ≠ 0 := by
      intro d
      have hlisted := hu.listed (userID c) d
      simp only [hcs,Option.some.injEq,exists_eq_left'] at hlisted
      rw [hold.2.mem_erase_iff,hmem,hlisted]
      exact and_assoc.symm
    simp only [hcs]
    refine hu.update (fun d hd => ?_) (fun d => ?_) fun cs' hcs' => ?_
    · rw [hmem,and_iff_right]
      rintro rfl
      exact hd rfl
    · rw [← hrest]
      split
      · rename_i hnil
        simp [hnil]
      · simp
    · split at hcs'
      · cases hcs'
      · rename_i hnil
        cases hcs'
        exact ⟨hnil,hold.2.erase c⟩
  · rename_i hzero
    refine hu.congr fun d hd => ?_
    rw [hmem,and_iff_right]
    rintro rfl
    exact hzero hd

theorem dropUserClient_rest (userID : κ → UInt32) (h : Hub κ) (c : κ) :
    (dropUserClient userID h c).clients = h.clients ∧
    (dropUserClient userID h c).send = h.send ∧ (dropUserClient userID h c).stage = h.stage ∧
    (dropUserClient userID h c).log = h.log := by
  unfold dropUserClient
  split
  · split <;> exact ⟨rfl,rfl,rfl,rfl⟩
  · exact ⟨rfl,rfl,rfl,rfl⟩

theorem HubSound.unregister (hs : HubSound userID registered h)
    (hstage : h.stage = .selecting) (c : κ) :
    HubSound userID registered (unregisterClient userID h c) := by
  unfold unregisterClient
  split
  swap
  · exact hs
  rename_i hc
  have hopen := hs.open_of_mem hc
  have hclose : closeSend { h with clients := h.clients.erase c } c = { h with
      clients := h.clients.erase c
      send := Function.update h.send c ⟨(h.send c).buffer,true⟩
      log := h.log ++ [(c,.closed)] } := by
    simp only [closeSend,hopen]
    rfl
  obtain ⟨hclients,hsend,hst,hlog⟩ := dropUserClient_rest userID
    (closeSend { h with clients := h.clients.erase c } c) c
  rw [hclose] at hclients hsend hst hlog ⊢
  dsimp only at hclients hsend hst hlog
  have hmem : ∀ d, d ∈ h.clients.erase c ↔ d ≠ c ∧ d ∈ h.clients := fun d => hs.nodup.mem_erase_iff
  have hnotclosed : (c,.closed) ∉ h.log := fun hin => by
    rw [hs.logged c hin] at hopen
    cases hopen
  refine ⟨?_,?_,?_,?_,?_,?_,?_,?_⟩
  · rw [hclients]
    exact hs.nodup.erase c
  · intro d hd
    rw [hclients,hmem] at hd
    exact hs.known d hd.2
  · rw [hclients]
    exact ByUser.erase hs.byUser hs.nodup hc
  · intro d
    rw [hsend,hclients,hmem]
    by_cases hd : d = c
    · subst hd
      simp [hs.known d hc]
    · rw [Function.update_of_ne hd,hs.closed]
      simp [hd]
  · intro d hd
    rw [hlog] at hd
    rw [hsend]
    by_cases hdc : d = c
    · subst hdc
      rw [Function.update_self]
    · rw [Function.update_of_ne hdc]
      refine hs.logged d ((List.mem_append.mp hd).resolve_right ?_)
      simp [hdc]
  · rw [hlog]
    exact last_concat hs.last hnotclosed
  · rw [hst,hstage]
    exact nofun
  · rw [hst]
    exact hs.alive

/-- One round of a loop: the channel is open, since its client has not gone. -/
theorem HubSound.offer (hs : HubSound userID registered h) {message : Payload} {rest : List κ}
    (hstage : h.stage = .sending message (c :: rest)) :
    HubSound userID registered (offer h c message rest) := by
  have haddressed : ∀ d ∈ c :: rest, d ∈ h.clients := by
    intro d hd
    refine hs.addressed d ?_
    rw [hstage]
    exact hd
  have hopen := hs.open_of_mem (haddressed c List.mem_cons_self)
  have hnotclosed : (c,.closed) ∉ h.log := fun hin => by
    rw [hs.logged c hin] at hopen
    cases hopen
  unfold Websocket.offer
  rw [if_neg (by simp [hopen])]
  split
  · have hclosed : ∀ d, (Function.update h.send c ⟨(h.send c).buffer ++ [message],false⟩ d).closed =
        (h.send d).closed := by
      intro d
      by_cases hd : d = c
      · subst hd
        rw [Function.update_self,hopen]
      · rw [Function.update_of_ne hd]
    refine ⟨hs.nodup,hs.known,hs.byUser,?_,?_,last_concat hs.last hnotclosed,?_,?_⟩
    · intro d
      rw [hclosed]
      exact hs.closed d
    · intro d hd
      rw [hclosed]
      exact hs.logged d (by simpa using hd)
    · dsimp only
      split
      · exact nofun
      · exact fun d hd => haddressed d (List.mem_cons_of_mem _ hd)
    · dsimp only
      split <;> exact nofun
  · exact ⟨hs.nodup,hs.known,hs.byUser,hs.closed,hs.logged,hs.last,haddressed,nofun⟩

theorem HubSound.receive (hs : HubSound userID registered h) (c : κ) (buffer : List Payload) :
    HubSound userID registered
      { h with send := Function.update h.send c ⟨buffer,(h.send c).closed⟩ } := by
  have hclosed : ∀ d, (Function.update h.send c ⟨buffer,(h.send c).closed⟩ d).closed =
      (h.send d).closed := by
    intro d
    by_cases hd : d = c
    · subst hd
      rw [Function.update_self]
    · rw [Function.update_of_ne hd]
  refine ⟨hs.nodup,hs.known,hs.byUser,?_,?_,hs.last,hs.addressed,hs.alive⟩
  · intro d
    rw [hclosed]
    exact hs.closed d
  · intro d hd
    rw [hclosed]
    exact hs.logged d hd

theorem HubSound.next {h' : Hub κ} {e : HubEvent κ} (hs : HubSound userID registered h)
    (hstep : next userID h e = some h') (hnew : ∀ c, e = .register c → c ∉ registered) :
    HubSound userID (registered ++ registrations [e]) h' := by
  have hnobody : ∀ h', HubSound userID registered h' → registrations [e] = [] →
      HubSound userID (registered ++ registrations [e]) h' := by
    intro h' hh' hnone
    rw [hnone,List.append_nil]
    exact hh'
  cases hubStep_of_next userID hstep with
  | register hstage => exact hs.register (hnew _ rfl) hstage
  | unregister hstage => exact hnobody _ (hs.unregister hstage _) rfl
  | broadcast hstage horder =>
    exact hnobody _ (hs.startSending _ fun c hc => horder.mem_iff.mp hc) rfl
  | direct hstage hentry horder =>
    refine hnobody _ (hs.startSending _ fun c hc => ?_) rfl
    exact ((hs.byUser.listed _ c).mp ⟨_,hentry,horder.mem_iff.mp hc⟩).1
  | deliver hstage => exact hnobody _ (hs.offer hstage) rfl
  | receive hbuffer => exact hnobody _ (hs.receive _ _) rfl
  | dropped | receiveNone => exact hnobody _ hs rfl

theorem hubSound_run (events : List (HubEvent κ)) (honce : (registrations events).Nodup) {h : Hub κ}
    (hrun : runHub userID newHub events = some h) : HubSound userID (registrations events) h := by
  induction events using List.reverseRecOn generalizing h with
  | nil =>
    cases hrun
    exact hubSound_new
  | append_singleton events e ih =>
    have happend : registrations (events ++ [e]) = registrations events ++ registrations [e] :=
      List.filterMap_append
    rw [happend] at honce ⊢
    rw [runHub_concat,Option.bind_eq_some_iff] at hrun
    obtain ⟨before,hbefore,hstep⟩ := hrun
    refine (ih (List.nodup_append.mp honce).1 hbefore).next hstep ?_
    rintro c rfl hin
    exact (List.nodup_append.mp honce).2.2 c hin c (by simp [registrations]) rfl

/-- In every run in which no client is registered twice, whatever happens in whatever
order, the maps and the channels stay in step. -/
theorem hub_in_step (userID : κ → UInt32) (events : List (HubEvent κ))
    (honce : (registrations events).Nodup) {h : Hub κ}
    (hrun : runHub userID newHub events = some h) :
    InStep userID (registrations events) h :=
  (hubSound_run events honce hrun).inStep

/-- Two clients of one user, of whom one goes after a message to both. -/
def comeAndGo : List (HubEvent Nat) :=
  [.register 1,.register 2,.direct 7 (some [104]) [1,2],.deliver,.deliver,.unregister 1]

theorem hub_in_step_come_and_go : ∃ h, runHub (fun _ => 7) newHub comeAndGo = some h ∧
    InStep (fun _ => 7) [1,2] h ∧ h.clients = [2] := by
  have hrun : (runHub (fun _ : Nat => 7) newHub comeAndGo).isSome = true := by decide
  obtain ⟨h,hh⟩ := Option.isSome_iff_exists.mp hrun
  have hclients : (runHub (fun _ : Nat => 7) newHub comeAndGo).map (·.clients) = some [2] := by
    decide
  rw [hh] at hclients
  exact ⟨h,hh,hub_in_step (fun _ => 7) comeAndGo (by decide) hh,Option.some.inj hclients⟩

end Imy.Websocket
