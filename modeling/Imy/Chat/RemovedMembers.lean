import Imy.Chat.Requests
set_option autoImplicit false

namespace Imy.Chat
open Imy.Lib

def Database.Gone (db : Database) (c : Nat) (u : String) : Prop :=
  ∃ m ∈ db.members, m.deleted = true ∧ m.conversationID = c ∧ m.userUUID = u

section Gone
variable {out : Outer} {parse : String → Option Int} {db db' : Database} {c : Nat} {u : String}

theorem Database.Gone.later (h : db.Gone c u) (hlater : Later db db') : db'.Gone c u := by
  obtain ⟨m,hm,hdel,hconv,huser⟩ := h
  obtain ⟨m',hm',hstill⟩ := hlater.members.mem hm
  exact ⟨m',hm',hstill.deleted hdel,hstill.conversationID.trans hconv,hstill.userUUID.trans huser⟩

theorem eq_of_sameKey (h : Keyed db) {m m' : ChatConversationMember} (hm : m ∈ db.members)
    (hm' : m' ∈ db.members) (hkey : sameKey m m') : m = m' := by
  have hin : m ∈ db.members.filter (fun m => sameKey m m') :=
    List.mem_filter.mpr ⟨hm,by simpa using hkey⟩
  rw [filter_sameKey h.memberKeys hm'] at hin
  exact List.mem_singleton.mp hin

theorem Database.Gone.not_member (h : db.Gone c u) (hkeyed : Keyed db) : ¬ db.IsMember c u := by
  rintro ⟨m',hm',hlive,hconv',huser'⟩
  obtain ⟨m,hm,hdel,hconv,huser⟩ := h
  have hsame := eq_of_sameKey hkeyed hm hm' ⟨hconv.trans hconv'.symm,huser.trans huser'.symm⟩
  rw [hsame,hlive] at hdel
  cases hdel

theorem find_live_of_gone (h : db.Gone c u) (hkeyed : Keyed db) :
    db.live.find? (fun m => m.conversationID = c ∧ m.userUUID = u) = none := by
  refine List.find?_eq_none.mpr fun m hm hkey => h.not_member hkeyed ?_
  simp only [decide_eq_true_eq] at hkey
  exact ⟨m,List.mem_of_mem_filter hm,deleted_of_live hm,hkey.1,hkey.2⟩

theorem Request.result_ok {req : Request} {response : Response}
    (h : req.result out parse db = .ok response) :
    ∃ goroutine t, (req.main parse).run (exec out) db = .ok (response,goroutine) t ∧
      Later t (req.apply out parse db) := by
  unfold Request.result at h
  cases hrun : (req.main parse).run (exec out) db with
  | error e t => simp [hrun] at h
  | ok reply t =>
    obtain ⟨response',goroutine⟩ := reply
    simp only [hrun,Except.ok.injEq] at h
    subst h
    refine ⟨goroutine,t,rfl,final_of_wp (wp_serve ?_)⟩
    exact wp_of_eq_ok hrun (wp_later goroutine t)

theorem wp_removeMember (req : RemoveMemberReq) :
    wp ((removeMember req).run (exec out)) (fun _ t => t.Gone req.conversationId req.removeUUID)
      (fun _ _ => True) db := by
  rw [removeMember]
  split
  · trivial
  rw [Prog.wp_run_bind]
  refine wp_requireMember (fun _ _ => ?_) trivial
  rw [Prog.wp_run_bind]
  refine wp_requireMember (fun mem hmem => ?_) trivial
  have hkey : mem.conversationID = req.conversationId ∧ mem.userUUID = req.removeUUID := by
    simpa using List.find?_some hmem
  have hgone : (exec out (.deleteMember mem.id) db).2.Gone req.conversationId req.removeUUID := by
    refine ⟨{ mem with deleted := true },?_,rfl,hkey.1,hkey.2⟩
    exact List.mem_map.mpr ⟨mem,(live_of_member hmem).1,if_pos rfl⟩
  rw [Prog.wp_run_bind,wp_ask]
  exact wp_mono (wp_later _ _) (fun _ t hlater => hgone.later hlater) fun _ _ _ => trivial

theorem gone_of_removed {rem : RemoveMemberReq} {before between : List Request}
    (h : (Request.operation (.removeMember rem)).result out parse
      (runRequests out parse db before) = .ok .none) :
    (runRequests out parse db (before ++ .operation (.removeMember rem) :: between)).Gone
      rem.conversationId rem.removeUUID := by
  obtain ⟨goroutine,t,hrun,hlater⟩ := Request.result_ok h
  have hgone : t.Gone rem.conversationId rem.removeUUID :=
    wp_ok (Q := fun _ t => t.Gone rem.conversationId rem.removeUUID) (wp_removeMember rem) hrun
  rw [runRequests,List.foldl_append,List.foldl_cons]
  exact (hgone.later hlater).later (later_runRequests between _)

/-- A call of `RemoveMember` that removes somebody names both. -/
theorem removeMember_valid {rem : RemoveMemberReq} {response : Response}
    (h : (Request.operation (.removeMember rem)).result out parse db = .ok response) :
    rem.conversationId ≠ 0 ∧ rem.removeUUID ≠ "" := by
  have hvalid : ¬ (rem.uuid = "" ∨ rem.conversationId = 0 ∨ rem.removeUUID = "") := by
    intro hinvalid
    simp only [Request.result,Request.main,Operation.main,removeMember,if_pos hinvalid] at h
    cases h
  tauto

end Gone

section NewUUIDs
variable {there uuids : List String} {u : String}

theorem mem_foldl_newUUIDs (added : List String) :
    u ∈ uuids.foldl (fun added u => if u = "" ∨ u ∈ there ∨ u ∈ added then added
      else added ++ [u]) added ↔ u ∈ added ∨ (u ∈ uuids ∧ u ≠ "" ∧ u ∉ there) := by
  induction uuids generalizing added with
  | nil => simp
  | cons v uuids ih =>
    rw [List.foldl_cons,ih]
    by_cases hv : v = "" ∨ v ∈ there ∨ v ∈ added
    · rw [if_pos hv]
      constructor
      · rintro (hu | ⟨hu,hne⟩)
        · exact Or.inl hu
        · exact Or.inr ⟨List.mem_cons_of_mem v hu,hne⟩
      · rintro (hu | ⟨hu,hne,hnot⟩)
        · exact Or.inl hu
        · rcases List.mem_cons.mp hu with rfl | hu
          · tauto
          · exact Or.inr ⟨hu,hne,hnot⟩
    · rw [if_neg hv,List.mem_append,List.mem_singleton,List.mem_cons]
      constructor
      · rintro ((hu | rfl) | ⟨hu,hne⟩)
        · exact Or.inl hu
        · exact Or.inr (by tauto)
        · exact Or.inr ⟨Or.inr hu,hne⟩
      · tauto

theorem mem_newUUIDs : u ∈ newUUIDs there uuids ↔ u ∈ uuids ∧ u ≠ "" ∧ u ∉ there := by
  rw [newUUIDs,mem_foldl_newUUIDs]
  simp

theorem nodup_newUUIDs : (newUUIDs there uuids).Nodup := by
  suffices hall : ∀ us added : List String, added.Nodup → (us.foldl (fun added u =>
      if u = "" ∨ u ∈ there ∨ u ∈ added then added else added ++ [u]) added).Nodup from
    hall uuids [] List.nodup_nil
  intro us
  induction us with
  | nil => exact fun added hadded => hadded
  | cons v us ih =>
    intro added hadded
    rw [List.foldl_cons]
    refine ih _ ?_
    split
    · exact hadded
    · rename_i hnew
      refine List.nodup_append.mpr ⟨hadded,List.nodup_singleton v,?_⟩
      rintro a ha b hb rfl
      exact hnew (Or.inr (Or.inr (List.mem_singleton.mp hb ▸ ha)))

end NewUUIDs

section AddAgain
variable {out : Outer} {parse : String → Option Int} {db : Database} {u : String}

/-- The insert is refused as a whole, and `AddMembers` with it. -/
theorem wp_addMembers_gone (out : Outer) (req : AddMembersReq) (hkeyed : Keyed db)
    (hgone : db.Gone req.conversationId u) (hne : u ≠ "") (hu : u ∈ req.memberUUIDs) :
    wp ((addMembers req).run (exec out)) (fun _ _ => False)
      (fun e t => t.members = db.members ∧ (req.uuid ≠ "" → req.conversationId ≠ 0 →
        db.IsMember req.conversationId req.uuid → e = .dataCreateFail .duplicatedKey)) db := by
  rw [addMembers]
  split
  · rename_i hinvalid
    refine ⟨rfl,fun huuid hconv _ => ?_⟩
    have hlist : req.memberUUIDs ≠ [] := List.ne_nil_of_mem hu
    tauto
  have hstranger : db.member req.conversationId req.uuid = none →
      ¬ db.IsMember req.conversationId req.uuid := find_live_eq_none
  rw [Prog.wp_run_bind,requireMember,Prog.wp_run_bind,wp_ask,exec_takeMember]
  cases hmem : db.live.find? (fun m => m.conversationID = req.conversationId ∧
      m.userUUID = req.uuid) with
  | none => exact ⟨rfl,fun _ _ hmember => (hstranger hmem hmember).elim⟩
  | some mem =>
    generalize hus : newUUIDs ((db.live.filter fun m =>
      m.conversationID = req.conversationId).map (·.userUUID)) req.memberUUIDs = us
    change wp (Prog.run (exec out) (insertMembers req.conversationId
      (db.live.filter fun m => m.conversationID = req.conversationId).length (newUUIDs
        ((db.live.filter fun m => m.conversationID = req.conversationId).map (·.userUUID))
        req.memberUUIDs))) _ _ db
    have hin : u ∈ us := by
      rw [← hus,mem_newUUIDs]
      refine ⟨hu,hne,fun hlive => ?_⟩
      obtain ⟨m,hm,huser⟩ := List.mem_map.mp hlive
      obtain ⟨hm,hconv⟩ := List.mem_filter.mp hm
      refine hgone.not_member hkeyed ⟨m,List.mem_of_mem_filter hm,deleted_of_live hm,?_,huser⟩
      simpa using hconv
    have hdup : ¬ (db.members ++ us.map (memberRow req.conversationId)).Pairwise
        fun m m' => ¬ sameKey m m' := by
      intro hkeys
      obtain ⟨m,hm,-,hconv,huser⟩ := hgone
      exact (List.pairwise_append.mp hkeys).2.2 m hm _ (List.mem_map_of_mem hin) ⟨hconv,huser⟩
    rw [hus,insertMembers,if_neg (List.ne_nil_of_mem hin),Prog.wp_run_bind,wp_ask]
    have hexec : exec out (.createMembers (us.map (memberRow req.conversationId))) db =
        (.error .duplicatedKey,{ db with
          nextMember := db.nextMember+(us.map (memberRow req.conversationId)).length
          tick := db.tick+1 }) := by
      rw [exec,Database.createMembers,if_neg hdup]
    rw [hexec]
    exact ⟨rfl,fun _ _ _ => rfl⟩

/-- Once somebody was removed from a conversation, every call of `AddMembers` that
lists the user fails, whoever makes it and whoever else is in the list, and the
user is not a member after it. -/
theorem removed_member_never_comes_back (out : Outer) (parse : String → Option Int)
    (before between : List Request) (rem : RemoveMemberReq) (add : AddMembersReq)
    (hremoved : (Request.operation (.removeMember rem)).result out parse
      (runRequests out parse emptyDatabase before) = .ok .none)
    (hconv : add.conversationId = rem.conversationId) (hlist : rem.removeUUID ∈ add.memberUUIDs) :
    let db := runRequests out parse emptyDatabase
      (before ++ .operation (.removeMember rem) :: between)
    (∃ e, (Request.operation (.addMembers add)).result out parse db = .error e) ∧
      (add.uuid ≠ "" → db.IsMember add.conversationId add.uuid →
        (Request.operation (.addMembers add)).result out parse db =
          .error (.dataCreateFail .duplicatedKey)) ∧
      ¬ ((Request.operation (.addMembers add)).apply out parse db).IsMember add.conversationId
        rem.removeUUID := by
  intro db
  have hkeyed : Keyed db := keyed_runRequests _ keyed_empty
  have hgone : db.Gone rem.conversationId rem.removeUUID := gone_of_removed hremoved
  obtain ⟨hzero,hne⟩ := removeMember_valid hremoved
  rw [← hconv] at hgone hzero
  have hadd := wp_addMembers_gone out add hkeyed hgone hne hlist
  have hafter : Keyed ((Request.operation (.addMembers add)).apply out parse db) :=
    keyed_runRequests [_] hkeyed
  refine ⟨?_,?_,(hgone.later (later_runRequests [_] db)).not_member hafter⟩
  · cases hrun : (addMembers add).run (exec out) db with
    | ok reply t => exact (wp_ok hadd hrun).elim
    | error e t => exact ⟨e,by simp only [Request.result,Request.main,Operation.main,hrun]⟩
  · intro huuid hmember
    cases hrun : (addMembers add).run (exec out) db with
    | ok reply t => exact (wp_ok hadd hrun).elim
    | error e t =>
      have he := (wp_error hadd hrun).2 huuid hzero hmember
      simp only [Request.result,Request.main,Operation.main,hrun,he]

end AddAgain

def removeB : Request := .operation (.removeMember ⟨"a",1,"b"⟩)

theorem removed_member_never_comes_back_alone :
    (∃ e, (Request.operation addB).result countingOuter noTimes (runRequests countingOuter noTimes
      emptyDatabase [.operation newGroup,.operation addB,removeB]) = .error e) ∧
    ¬ ((Request.operation addB).apply countingOuter noTimes (runRequests countingOuter noTimes
      emptyDatabase [.operation newGroup,.operation addB,removeB])).IsMember 1 "b" := by
  have h := removed_member_never_comes_back countingOuter noTimes
    [.operation newGroup,.operation addB] [] ⟨"a",1,"b"⟩ ⟨"a",1,["b"]⟩ rfl rfl
    (List.mem_singleton_self _)
  exact ⟨h.1,h.2.2⟩

/-- `b` is added, removed and added again: `a` is a member and is told that the row
is there already. -/
theorem removed_member_refused :
    removeB.result countingOuter noTimes (runRequests countingOuter noTimes emptyDatabase
      [.operation newGroup,.operation addB]) = .ok .none ∧
    (runRequests countingOuter noTimes emptyDatabase
      [.operation newGroup,.operation addB,removeB]).live.map (·.userUUID) = ["a"] ∧
    (runRequests countingOuter noTimes emptyDatabase
      [.operation newGroup,.operation addB,removeB]).conversations.map (·.type) = [2] ∧
    (Request.operation addB).result countingOuter noTimes (runRequests countingOuter noTimes
      emptyDatabase [.operation newGroup,.operation addB,removeB]) =
        .error (.dataCreateFail .duplicatedKey) ∧
    (runRequests countingOuter noTimes emptyDatabase
      [.operation newGroup,.operation addB,removeB,.operation addB]).live.map (·.userUUID) =
        ["a"] := by
  refine ⟨rfl,rfl,rfl,rfl,rfl⟩

end Imy.Chat
