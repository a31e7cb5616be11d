import Imy.Lib.Lists
import Imy.Lib.Paging
import Imy.Chat.Writes
set_option autoImplicit false

namespace Imy.Chat
open Imy.Lib

abbrev Pages := List (List MessageInfo)

section Reader
variable (u : String) (c : Nat) (limit : Int64)

def askPage (beforeId afterId : Nat) : ChatM (List MessageInfo) := do
  let reply ← getMessages ⟨u,c,beforeId,afterId,limit⟩
  match reply.1 with
  | .messages page => return page
  | _ => return []

/-- Back from the last page, each time to before the smallest ID of the page, until a
page is empty. `calls` bounds the number of calls. -/
def pageBack : Nat → Nat → Pages → ChatM Pages
  | 0, _, pages => return pages
  | calls+1, beforeId, pages => do
    let page ← askPage u c limit beforeId 0
    match (page.map (·.id)).min? with
    | none => return pages
    | some id => pageBack calls id (pages ++ [page])

def pollOn : Nat → Nat → Pages → ChatM Pages
  | 0, _, news => return news
  | polls+1, afterId, news => do
    let page ← askPage u c limit 0 afterId
    pollOn polls ((page.map (·.id)).max?.getD afterId) (news ++ [page])

def largestSeen (pages : Pages) : Nat := (pages.flatten.map (·.id)).max?.getD 0

def readHistory (calls polls : Nat) : ChatM (Pages × Pages) := do
  let pages ← pageBack u c limit calls 0 []
  let news ← pollOn u c limit polls (largestSeen pages) []
  return (pages,news)

end Reader

/-- A reader, and what the others send meanwhile. -/
structure Browsing (ι : Type) where
  uuid : String
  conversationId : Nat
  limit : Int64
  calls : Nat
  polls : Nat
  sends : ι → SendMessageReq

section Browsing
variable {ι : Type} (r : Browsing ι) (out : Outer) (db : Database)

def startReading : Pool (Option ι) Stmt Stmt.Answer ErrCode (Pages × Pages) Database where
  state := db
  threads
    | none => readHistory r.uuid r.conversationId r.limit r.calls r.polls
    | some i => do
      serve (sendMessage (r.sends i))
      return ([],[])
  log := []

variable [DecidableEq ι] (s : List (Option ι))

def runReading : Pool (Option ι) Stmt Stmt.Answer ErrCode (Pages × Pages) Database :=
  (startReading r db).run (exec out) s

/-- The history of the conversation after a schedule. -/
def historyAfter : List ChatMessage := (runReading r out db s).state.history r.conversationId

end Browsing

/-- The number of messages on a full page. -/
def pageLimit (limit : Int64) : Nat := (clampedLimit limit 20).toNatClampNeg

theorem pageLimit_pos (limit : Int64) : 0 < pageLimit limit := by
  have := (clampedLimit_bounds limit (by decide : (0 : Int64) < 20)).1
  rw [pageLimit,Int64.toNatClampNeg]
  omega

/-- What a call returns, as messages. -/
def GetMessagesReq.page (req : GetMessagesReq) (db : Database) : List ChatMessage :=
  req.pageMode.ascending (db.findMessages req.conversationId req.pageMode (pageLimit req.limit))

section History
variable {out : Outer} {db : Database} {c : Nat}

theorem history_eq (h : Keyed db) (c : Nat) :
    db.history c = db.messages.filter fun m => m.conversationID = c := by
  refine List.Pairwise.insertionSort_eq ?_
  exact List.Pairwise.sublist List.filter_sublist (h.messageIDs.imp fun hlt => hlt.le)

theorem history_sorted (h : Keyed db) (c : Nat) :
    (db.history c).Pairwise fun m m' => m.id < m'.id := by
  rw [history_eq h]
  exact List.Pairwise.sublist List.filter_sublist h.messageIDs

theorem history_positive (h : Keyed db) {m : ChatMessage} (hm : m ∈ db.history c) : 0 < m.id := by
  rw [history_eq h] at hm
  exact h.messagePositive m (List.mem_of_mem_filter hm)

def Stmt.Feeds : Stmt → Prop
  | .deleteMember _ | .updateMessage _ _ => False
  | _ => True

theorem messages_feeds (out : Outer) (db : Database) {q : Stmt} (hq : q.Feeds) :
    (exec out q db).2.messages = db.messages ∨
      ∃ m, (exec out q db).2.messages = db.messages ++ [m] := by
  cases q with
  | createMessage row =>
    change (db.createMessage out row).2.messages = db.messages ∨
      ∃ m, (db.createMessage out row).2.messages = db.messages ++ [m]
    rw [Database.createMessage]
    split
    · exact Or.inl rfl
    · exact Or.inr ⟨_,rfl⟩
  | createConversation row =>
    refine Or.inl ?_
    change (db.createConversation row).2.messages = db.messages
    rw [Database.createConversation]
    split <;> rfl
  | createMembers rows => exact Or.inl (createMembers_frame out db rows).1
  | updateMessage row cols => exact hq.elim
  | _ => exact Or.inl rfl

theorem history_grows (h : Keyed db) {q : Stmt} (hq : q.Feeds) (c : Nat) :
    ∃ more, (exec out q db).2.history c = db.history c ++ more := by
  rw [history_eq (h.exec out q),history_eq h]
  rcases messages_feeds out db hq with hsame | ⟨m,hmore⟩
  · exact ⟨[],by rw [hsame,List.append_nil]⟩
  · exact ⟨_,by rw [hmore,List.filter_append]⟩

theorem isMember_feeds {q : Stmt} (hq : q.Feeds) {u : String} (h : db.IsMember c u) :
    (exec out q db).2.IsMember c u := by
  obtain ⟨m,hm,hlive,hconv,huser⟩ := h
  cases q with
  | createConversation row =>
    change (db.createConversation row).2.IsMember c u
    rw [Database.createConversation]
    split <;> exact ⟨m,hm,hlive,hconv,huser⟩
  | createMembers rows =>
    exact ⟨m,(createMembers_frame out db rows).2.2 m hm,hlive,hconv,huser⟩
  | updateMember row cols =>
    have hsame := sameMember_update row cols m
    exact ⟨_,List.mem_map_of_mem hm,hsame.deleted.trans hlive,
      hsame.conversationID.trans hconv,hsame.userUUID.trans huser⟩
  | createMessage row =>
    change (db.createMessage out row).2.IsMember c u
    rw [Database.createMessage]
    split <;> exact ⟨m,hm,hlive,hconv,huser⟩
  | deleteMember id => exact hq.elim
  | _ => exact ⟨m,hm,hlive,hconv,huser⟩

theorem ascending_latest (n : Nat) :
    PageMode.latest.ascending (db.findMessages c .latest n) = (db.history c).rtake n := by
  rw [List.rtake_eq_reverse_take_reverse]
  rfl

theorem ascending_before (id n : Nat) :
    (PageMode.before id).ascending (db.findMessages c (.before id) n) =
      ((db.history c).filter fun m => m.id < id).rtake n := by
  rw [List.rtake_eq_reverse_take_reverse]
  rfl

theorem ascending_after (id n : Nat) :
    (PageMode.after id).ascending (db.findMessages c (.after id) n) =
      ((db.history c).filter fun m => id < m.id).take n := rfl

end History

section Stages
variable (u : String) (c : Nat) (limit : Int64) (total : Nat)

def fetchPage (beforeId afterId : Nat) : ChatM (List MessageInfo) := do
  let mode := GetMessagesReq.pageMode ⟨u,c,beforeId,afterId,limit⟩
  match ← ask (.findMessages c mode (pageLimit limit)) with
  | .error e => .fail (.dataQueryFail e)
  | .ok list => return (mode.ascending list).map (·.info)

inductive Reader where
  | back (calls beforeId : Nat) (pages : Pages)
  | backQuery (calls beforeId : Nat) (pages : Pages)
  | poll (polls afterId : Nat) (pages news : Pages)
  | pollQuery (polls afterId : Nat) (pages news : Pages)

def goBack (calls : Nat) (pages : Pages) (page : List MessageInfo) : ChatM Pages :=
  match (page.map (·.id)).min? with
  | none => return pages
  | some id => pageBack u c limit calls id (pages ++ [page])

def Reader.program : Reader → ChatM (Pages × Pages)
  | .back calls beforeId pages => do
    let pages ← pageBack u c limit calls beforeId pages
    let news ← pollOn u c limit total (largestSeen pages) []
    return (pages,news)
  | .backQuery calls beforeId pages => do
    let page ← fetchPage u c limit beforeId 0
    let pages ← goBack u c limit calls pages page
    let news ← pollOn u c limit total (largestSeen pages) []
    return (pages,news)
  | .poll polls afterId pages news => do
    let news ← pollOn u c limit polls afterId news
    return (pages,news)
  | .pollQuery polls afterId pages news => do
    let page ← fetchPage u c limit 0 afterId
    let news ← pollOn u c limit polls ((page.map (·.id)).max?.getD afterId) (news ++ [page])
    return (pages,news)

variable {u c limit total}

/-- A call asks for the caller's row and goes on to the query. -/
theorem Reader.program_check (hu : u ≠ "") (hc : c ≠ 0) :
    (∀ calls beforeId pages, ∃ k,
      Reader.program u c limit total (.back (calls+1) beforeId pages) = .ask (.takeMember c u) k ∧
        ∀ mem, k (.ok mem) = Reader.program u c limit total (.backQuery calls beforeId pages)) ∧
    ∀ polls afterId pages news, ∃ k,
      Reader.program u c limit total (.poll (polls+1) afterId pages news) =
        .ask (.takeMember c u) k ∧
        ∀ mem, k (.ok mem) = Reader.program u c limit total
          (.pollQuery polls afterId pages news) := by
  have hvalid : ¬ (u = "" ∨ c = 0) := not_or.mpr ⟨hu,hc⟩
  constructor
  · intro calls beforeId pages
    simp only [Reader.program,pageBack,askPage,getMessages,if_neg hvalid]
    refine ⟨_,rfl,fun mem => congrArg (Prog.ask _) (funext fun answer => ?_)⟩
    cases answer <;> rfl
  · intro polls afterId pages news
    simp only [Reader.program,pollOn,askPage,getMessages,if_neg hvalid]
    refine ⟨_,rfl,fun mem => congrArg (Prog.ask _) (funext fun answer => ?_)⟩
    cases answer <;> rfl

theorem Reader.program_query :
    (∀ calls beforeId pages, ∃ k,
      Reader.program u c limit total (.backQuery calls beforeId pages) =
        .ask (.findMessages c (GetMessagesReq.pageMode ⟨u,c,beforeId,0,limit⟩)
          (pageLimit limit)) k ∧
        ∀ list, k (.ok list) = do
          let pages ← goBack u c limit calls pages
            (((GetMessagesReq.pageMode ⟨u,c,beforeId,0,limit⟩).ascending list).map (·.info))
          Reader.program u c limit total (.poll total (largestSeen pages) pages [])) ∧
    ∀ polls afterId pages news, ∃ k,
      Reader.program u c limit total (.pollQuery polls afterId pages news) =
        .ask (.findMessages c (GetMessagesReq.pageMode ⟨u,c,0,afterId,limit⟩) (pageLimit limit)) k ∧
        ∀ list page, page = (((GetMessagesReq.pageMode ⟨u,c,0,afterId,limit⟩).ascending list).map
          (·.info) : List MessageInfo) → k (.ok list) = Reader.program u c limit total
            (.poll polls ((page.map (·.id)).max?.getD afterId) pages (news ++ [page])) := by
  constructor
  · exact fun calls beforeId pages => ⟨_,rfl,fun list => rfl⟩
  · refine fun polls afterId pages news => ⟨_,rfl,fun list page hpage => ?_⟩
    rw [hpage]
    rfl

end Stages

section Progress
variable {ι : Type} [DecidableEq ι]

def FirstSeen (H : List (Option ι) → List ChatMessage) (s : List (Option ι))
    (first : List ChatMessage) : Prop :=
  ∃ before after, s = before ++ none :: after ∧ before.count none = 1 ∧ H before = first

def Remaining (H : List (Option ι) → List ChatMessage) (s : List (Option ι))
    (calls beforeId : Nat) (pages : Pages) : Prop :=
  (pages = [] ∧ beforeId = 0) ∨
    ∃ first rest m seen, FirstSeen H s first ∧ first <+: H s ∧ first = rest ++ m :: seen ∧
      pages.reverse.flatten = (m :: seen).map (·.info) ∧ beforeId = m.id ∧ rest.length < calls

/-- On the way on: the pages hold what came after the first history, up to the largest
ID, and each was the next one of its time. -/
structure Following (H : List (Option ι) → List ChatMessage) (n : Nat) (first : List ChatMessage)
    (s : List (Option ι)) (afterId : Nat) (pages news : Pages) : Prop where
  shown : ∃ got rest, H s = first ++ got ++ rest ∧ news.flatten = got.map (·.info) ∧
    ∃ front m, first ++ got = front ++ [m] ∧ afterId = m.id
  each : ∀ k page, news[k]? = some page → ∀ before after, s = before ++ none :: after →
    before.count none = 2*(pages.length+1)+2*k+1 →
    page = (((H before).drop (first.length+(news.take k).flatten.length)).take n).map (·.info)

def Polled (H : List (Option ι) → List ChatMessage) (n : Nat) (s : List (Option ι))
    (afterId : Nat) (pages news : Pages) : Prop :=
  ∃ first, FirstSeen H s first ∧ first <+: H s ∧ pages.reverse.flatten = first.map (·.info) ∧
    (first ≠ [] → Following H n first s afterId pages news)

def Reader.Progress (H : List (Option ι) → List ChatMessage) (n calls₀ total : Nat)
    (s : List (Option ι)) : Reader → Prop
  | .back calls beforeId pages =>
    s.count none = 2*pages.length ∧ calls+pages.length = calls₀ ∧ 0 < calls ∧
      Remaining H s calls beforeId pages
  | .backQuery calls beforeId pages =>
    s.count none = 2*pages.length+1 ∧ calls+1+pages.length = calls₀ ∧
      Remaining H s (calls+1) beforeId pages
  | .poll polls afterId pages news =>
    2*(pages.length+1)+2*news.length ≤ s.count none ∧
      (0 < polls → s.count none = 2*(pages.length+1)+2*news.length) ∧
      pages.length < calls₀ ∧ polls+news.length = total ∧ Polled H n s afterId pages news
  | .pollQuery polls afterId pages news =>
    s.count none = 2*(pages.length+1)+2*news.length+1 ∧ pages.length < calls₀ ∧
      polls+1+news.length = total ∧ Polled H n s afterId pages news

variable {H : List (Option ι) → List ChatMessage} {n calls₀ total : Nat} {s : List (Option ι)}
  {j : Option ι} {more first : List ChatMessage} {calls beforeId polls afterId : Nat}
  {pages news : Pages}

theorem FirstSeen.concat (h : FirstSeen H s first) : FirstSeen H (s ++ [j]) first := by
  obtain ⟨before,after,hsplit,hcount,hfirst⟩ := h
  exact ⟨before,after ++ [j],by simp [hsplit],hcount,hfirst⟩

theorem FirstSeen.unique {first' : List ChatMessage} (h : FirstSeen H s first)
    (h' : FirstSeen H s first') : first = first' := by
  obtain ⟨before,after,hsplit,hcount,rfl⟩ := h
  obtain ⟨before',after',hsplit',hcount',rfl⟩ := h'
  rw [turn_unique hsplit hsplit' (hcount.trans hcount'.symm)]

theorem Remaining.concat (h : Remaining H s calls beforeId pages)
    (hH : H (s ++ [j]) = H s ++ more) :
    Remaining H (s ++ [j]) calls beforeId pages := by
  rcases h with h | ⟨first,rest,m,seen,hfirst,hgrown,hrest⟩
  · exact Or.inl h
  · refine Or.inr ⟨first,rest,m,seen,hfirst.concat,?_,hrest⟩
    rw [hH]
    exact hgrown.trans (List.prefix_append _ _)

/-- A turn at which no page of `news` was read. -/
theorem Following.concat (h : Following H n first s afterId pages news)
    (hH : H (s ++ [j]) = H s ++ more)
    (hturn : j = none → ∀ k < news.length, s.count none ≠ 2*(pages.length+1)+2*k+1) :
    Following H n first (s ++ [j]) afterId pages news := by
  constructor
  · obtain ⟨got,rest,hs,hgot⟩ := h.shown
    exact ⟨got,rest ++ more,by rw [hH,hs,List.append_assoc],hgot⟩
  · intro k page hpage before after hsplit hcount
    rcases turn_concat hsplit with ⟨after',hsplit'⟩ | ⟨rfl,rfl⟩
    · exact h.each k page hpage before after' hsplit' hcount
    · obtain ⟨hk,-⟩ := List.getElem?_eq_some_iff.mp hpage
      exact (hturn rfl k hk hcount).elim

theorem Polled.concat (h : Polled H n s afterId pages news) (hH : H (s ++ [j]) = H s ++ more)
    (hturn : j = none → ∀ k < news.length, s.count none ≠ 2*(pages.length+1)+2*k+1) :
    Polled H n (s ++ [j]) afterId pages news := by
  obtain ⟨first,hfirst,hgrown,hpages,hnews⟩ := h
  refine ⟨first,hfirst.concat,?_,hpages,fun hne => (hnews hne).concat hH hturn⟩
  rw [hH]
  exact hgrown.trans (List.prefix_append _ _)

theorem Reader.Progress.other {st : Reader} {i : ι} (h : st.Progress H n calls₀ total s)
    (hH : H (s ++ [some i]) = H s ++ more) : st.Progress H n calls₀ total (s ++ [some i]) := by
  have hcount : (s ++ [some i]).count none = s.count none := by simp
  cases st with
  | back calls beforeId pages =>
    exact ⟨hcount.trans h.1,h.2.1,h.2.2.1,h.2.2.2.concat hH⟩
  | backQuery calls beforeId pages => exact ⟨hcount.trans h.1,h.2.1,h.2.2.concat hH⟩
  | poll polls afterId pages news =>
    obtain ⟨hle,heq,hcalls,htotal,hpolled⟩ := h
    exact ⟨hcount.symm ▸ hle,fun hpos => hcount.trans (heq hpos),hcalls,htotal,
      hpolled.concat hH (by simp)⟩
  | pollQuery polls afterId pages news =>
    exact ⟨hcount.trans h.1,h.2.1,h.2.2.1,h.2.2.2.concat hH (by simp)⟩

theorem Reader.Progress.checkBack (h : (Reader.back (calls+1) beforeId pages).Progress
    H n calls₀ total s)
    (hH : H (s ++ [none]) = H s ++ more) :
    (Reader.backQuery calls beforeId pages).Progress H n calls₀ total (s ++ [none]) := by
  obtain ⟨hcount,hcalls,-,hremaining⟩ := h
  exact ⟨by simp [hcount],hcalls,hremaining.concat hH⟩

theorem Reader.Progress.checkPoll
    (h : (Reader.poll (polls+1) afterId pages news).Progress H n calls₀ total s)
    (hH : H (s ++ [none]) = H s ++ more) :
    (Reader.pollQuery polls afterId pages news).Progress H n calls₀ total (s ++ [none]) := by
  obtain ⟨-,hcount,hcalls,htotal,hpolled⟩ := h
  have hcount := hcount (Nat.succ_pos polls)
  refine ⟨by simp [hcount],hcalls,htotal,hpolled.concat hH fun _ k _ => ?_⟩
  omega

theorem Reader.Progress.ended (h : (Reader.poll 0 afterId pages news).Progress H n calls₀ total s)
    (hH : H (s ++ [none]) = H s ++ more) :
    (Reader.poll 0 afterId pages news).Progress H n calls₀ total (s ++ [none]) := by
  obtain ⟨hle,-,hcalls,htotal,hpolled⟩ := h
  refine ⟨by simp; omega,by simp,hcalls,htotal,hpolled.concat hH fun _ k hk => ?_⟩
  omega

theorem info_ids (page : List ChatMessage) : (page.map (·.info)).map (·.id) = page.map (·.id) := by
  rw [List.map_map]
  rfl

def Reader.afterBack (calls total : Nat) (pages : Pages) : List ChatMessage → Reader
  | [] => .poll total (largestSeen pages) pages []
  | m :: page => .back calls m.id (pages ++ [(m :: page).map (·.info)])

theorem Reader.Progress.pageBack {rest seen : List ChatMessage} (hn : 0 < n)
    (hcount : s.count none = 2*pages.length+1) (hcalls : calls+1+pages.length = calls₀)
    (hfirst : FirstSeen H (s ++ [none]) first) (hgrown : first <+: H (s ++ [none]))
    (hsorted : first.Pairwise fun m m' => m.id < m'.id) (hsplit : first = rest ++ seen)
    (hpages : pages.reverse.flatten = seen.map (·.info)) (hrest : rest.length < calls+1) :
    (Reader.afterBack calls total pages (rest.rtake n)).Progress H n calls₀ total
      (s ++ [none]) := by
  cases hpage : rest.rtake n with
  | nil =>
    obtain rfl := eq_nil_of_rtake hn hpage
    rw [List.nil_append] at hsplit
    subst hsplit
    refine ⟨by simp [hcount]; omega,fun _ => by simp [hcount]; omega,by omega,by simp,?_⟩
    refine ⟨first,hfirst,hgrown,hpages,fun hne => ⟨?_,by simp⟩⟩
    obtain ⟨more,hmore⟩ := hgrown
    obtain ⟨front,m,hlast⟩ := List.eq_nil_or_concat first |>.resolve_left hne
    rw [List.concat_eq_append] at hlast
    refine ⟨[],more,by rw [List.append_nil,hmore],rfl,front,m,by rw [List.append_nil,hlast],?_⟩
    rw [hlast] at hsorted
    have hids : ∀ k, k ∈ pages.flatten.map (·.id) ↔ k ∈ (front ++ [m]).map (·.id) := by
      intro k
      rw [← hlast,← info_ids,← hpages]
      simp [List.mem_map,List.mem_flatten]
    rw [largestSeen,max_key (fun m : ChatMessage => m.id) hsorted hids]
    rfl
  | cons m page =>
    have hwhole := rdrop_append_rtake rest n
    have hshorter := length_rdrop_lt (show rest.rtake n ≠ [] by simp [hpage])
    rw [hpage] at hwhole
    refine ⟨by simp [hcount]; omega,by simp; omega,by omega,Or.inr ?_⟩
    refine ⟨first,rest.rdrop n,m,page ++ seen,hfirst,hgrown,?_,?_,rfl,by omega⟩
    · rw [hsplit,← hwhole,List.append_assoc,List.cons_append]
      rw [hwhole]
    · rw [List.reverse_append,List.reverse_singleton,List.singleton_append,List.flatten_cons,hpages,
        ← List.map_append,List.cons_append]

theorem Reader.Progress.pagePoll
    (h : (Reader.pollQuery polls afterId pages news).Progress H n calls₀ total s)
    (hH : H (s ++ [none]) = H s ++ more) (hsorted : (H s).Pairwise fun m m' => m.id < m'.id)
    (page : List ChatMessage) (hpage : ∀ m ∈ H s, m.id = afterId →
      page = ((H s).filter fun m' => afterId < m'.id).take n) :
    (Reader.poll polls ((page.map (·.id)).max?.getD afterId) pages
      (news ++ [page.map (·.info)])).Progress H n calls₀ total (s ++ [none]) := by
  obtain ⟨hcount,hcalls,htotal,first,hfirst,hgrown,hpages,hnews⟩ := h
  have hcount' : (s ++ [none]).count none = 2*(pages.length+1)+2*(news ++ [page.map
      ChatMessage.info]).length := by
    simp [hcount]
    omega
  refine ⟨hcount'.ge,fun _ => hcount',hcalls,by simp; omega,first,hfirst.concat,?_,hpages,
    fun hne => ?_⟩
  · rw [hH]
    exact hgrown.trans (List.prefix_append _ _)
  obtain ⟨got,rest,hs,hgot,front,m,hlast,hafter⟩ := (hnews hne).shown
  have hs' : H s = front ++ m :: rest := by rw [hs,hlast,List.append_assoc]; rfl
  have hpage' : page = rest.take n := by
    rw [hpage m (by simp [hs']) hafter.symm,hafter,hs']
    rw [hs'] at hsorted
    rw [filter_lt_key (fun m : ChatMessage => m.id) hsorted]
  subst hpage'
  constructor
  · refine ⟨got ++ rest.take n,rest.drop n ++ more,?_,by simp [hgot],?_⟩
    · rw [hH,hs]
      simp only [List.append_assoc]
      rw [← List.append_assoc (rest.take n),List.take_append_drop]
    · rcases List.eq_nil_or_concat (rest.take n) with hnil | ⟨page',m',hconcat⟩
      · rw [hnil]
        exact ⟨front,m,by rw [List.append_nil,hlast],by simpa using hafter⟩
      · rw [List.concat_eq_append] at hconcat
        refine ⟨first ++ got ++ page',m',by rw [hconcat]; simp,?_⟩
        have hpart : (rest.take n).Pairwise fun m m' => m.id < m'.id := by
          rw [hs'] at hsorted
          refine List.Pairwise.sublist (List.take_sublist n rest) ?_
          exact (List.pairwise_cons.mp (List.pairwise_append.mp hsorted).2.1).2
        rw [hconcat] at hpart ⊢
        rw [max_key (fun m : ChatMessage => m.id) hpart fun k => Iff.rfl]
        rfl
  · intro k pg hpg before after hsplit hturn
    rcases getElem?_concat_some hpg with hold | ⟨rfl,rfl⟩
    · obtain ⟨hk,-⟩ := List.getElem?_eq_some_iff.mp hold
      rw [List.take_append_of_le_length hk.le]
      rcases turn_concat hsplit with ⟨after',hsplit'⟩ | ⟨rfl,-⟩
      · exact (hnews hne).each k pg hold before after' hsplit' hturn
      · omega
    · rcases turn_concat hsplit with ⟨after',hsplit'⟩ | ⟨rfl,-⟩
      · -- this turn would be earlier than all turns so far
        have hlater : before.count none < s.count none := by
          rw [hsplit']
          simp
        omega
      · have hlength : news.flatten.length = got.length := by rw [hgot,List.length_map]
        rw [List.take_left,hs,hlength,List.drop_append_of_le_length (by simp),← List.length_append,
          List.drop_length,List.nil_append]

end Progress

section Queries
variable {u : String} {c : Nat} {limit : Int64}

theorem reads_askPage (beforeId afterId : Nat) :
    (askPage u c limit beforeId afterId).Yields Stmt.Reads fun _ => True := by
  refine Prog.Yields.bind (reads_getMessages ⟨u,c,beforeId,afterId,limit⟩) fun reply _ => ?_
  split <;> exact trivial

theorem reads_pageBack (calls beforeId : Nat) (pages : Pages) :
    (pageBack u c limit calls beforeId pages).Yields Stmt.Reads fun _ => True := by
  induction calls generalizing beforeId pages with
  | zero => exact trivial
  | succ calls ih =>
    refine (reads_askPage beforeId 0).bind fun page _ => ?_
    split
    · exact trivial
    · exact ih _ _

theorem reads_pollOn (polls afterId : Nat) (news : Pages) :
    (pollOn u c limit polls afterId news).Yields Stmt.Reads fun _ => True := by
  induction polls generalizing afterId news with
  | zero => exact trivial
  | succ polls ih => exact (reads_askPage 0 afterId).bind fun page _ => ih _ _

theorem Stmt.Reads.feeds {q : Stmt} (h : q.Reads) : q.Feeds := by
  cases q <;> first | exact trivial | exact h.elim

variable {db : Database}

theorem takeMember_of_isMember (out : Outer) (h : db.IsMember c u) :
    ∃ mem, (exec out (.takeMember c u) db).1 = .ok mem := by
  rw [exec_takeMember]
  cases hmem : db.live.find? fun m => m.conversationID = c ∧ m.userUUID = u with
  | none => exact (find_live_eq_none hmem h).elim
  | some mem => exact ⟨mem,rfl⟩

/-- The reader's next step after the query of a page on the way back. -/
theorem Reader.program_afterBack (total calls : Nat) (pages : Pages) {page : List ChatMessage}
    (hsorted : page.Pairwise fun m m' => m.id < m'.id) :
    (do
      let pages ← goBack u c limit calls pages (page.map (·.info))
      Reader.program u c limit total (.poll total (largestSeen pages) pages [])) =
      Reader.program u c limit total (Reader.afterBack calls total pages page) := by
  cases page with
  | nil => rfl
  | cons m page =>
    have hmin := min_key (fun m : ChatMessage => m.id) hsorted
    rw [goBack,info_ids,hmin]
    rfl

variable {ι : Type} [DecidableEq ι]

/-- The query on the way back, at the first page and at the later ones. -/
theorem Remaining.page {H : List (Option ι) → List ChatMessage} {s : List (Option ι)}
    {calls beforeId : Nat} {pages : Pages} (h : Remaining H s (calls+1) beforeId pages)
    (hkeyed : Keyed db) (hs : H s = db.history c) (hcount : s.count none = 2*pages.length+1)
    (hroom : s.count none = 1 → (H s).length < calls+1+pages.length)
    (hnext : H s <+: H (s ++ [none])) :
    ∃ first rest seen, FirstSeen H (s ++ [none]) first ∧ first <+: H (s ++ [none]) ∧
      first.Pairwise (fun m m' => m.id < m'.id) ∧ first = rest ++ seen ∧
      pages.reverse.flatten = seen.map (·.info) ∧ rest.length < calls+1 ∧
      GetMessagesReq.page ⟨u,c,beforeId,0,limit⟩ db = rest.rtake (pageLimit limit) := by
  have hsorted := history_sorted hkeyed c
  rcases h with ⟨rfl,rfl⟩ | ⟨first,rest,m,seen,hfirst,hgrown,hsplit,hpages,rfl,hrest⟩
  · refine ⟨H s,H s,[],⟨s,[],rfl,hcount,rfl⟩,hnext,hs ▸ hsorted,by simp,rfl,hroom hcount,?_⟩
    rw [hs]
    exact ascending_latest _
  · obtain ⟨more,hmore⟩ := hgrown
    have hwhole : db.history c = rest ++ m :: (seen ++ more) := by
      rw [← hs,← hmore,hsplit,List.append_assoc,List.cons_append]
    have hpositive : 0 < m.id := history_positive (c := c) hkeyed (by simp [hwhole])
    have hmode : GetMessagesReq.pageMode ⟨u,c,m.id,0,limit⟩ = .before m.id := by
      simp [GetMessagesReq.pageMode,hpositive]
    refine ⟨first,rest,m :: seen,hfirst.concat,?_,?_,hsplit,hpages,hrest,?_⟩
    · exact List.IsPrefix.trans ⟨more,hmore⟩ hnext
    · refine List.Pairwise.sublist ?_ (hs ▸ hsorted : (H s).Pairwise _)
      rw [← hmore]
      exact List.sublist_append_left first more
    · rw [GetMessagesReq.page,hmode,ascending_before,hwhole]
      rw [hwhole] at hsorted
      rw [filter_key_lt (fun m : ChatMessage => m.id) hsorted]

end Queries

section Run
variable {ι : Type} (r : Browsing ι) (out : Outer) {db : Database}

theorem feeds_reading (db : Database) (i : Option ι) :
    ((startReading r db).threads i).Traced Stmt.Fits (fun _ q => q.Feeds) (fun _ _ => True) [] := by
  cases i with
  | none =>
    have hreads : (readHistory r.uuid r.conversationId r.limit r.calls r.polls).Yields Stmt.Reads
        fun _ => True :=
      (reads_pageBack r.calls 0 []).bind fun pages _ =>
        (reads_pollOn r.polls (largestSeen pages) []).bind fun _ _ => trivial
    exact (hreads.traced (I := fun _ => True) (fun _ _ _ hq => hq.feeds) (fun _ _ _ => trivial)
      trivial).imp fun _ _ _ => trivial
  | some i =>
    refine ((traced_request noTimes (.operation (.sendMessage (r.sends i)))).mono
      fun h q hq => ?_).bind fun _ _ _ => trivial
    rcases hq with hq | rfl | ⟨row,rfl,-⟩ | ⟨mem,cnt,-,rfl⟩
    · exact hq.feeds
    · exact trivial
    · exact trivial
    · exact trivial

variable [DecidableEq ι]

theorem runReading_concat (s : List (Option ι)) (j : Option ι) :
    runReading r out db (s ++ [j]) = (runReading r out db s).next (exec out) j :=
  Pool.run_concat (exec out) s j _

theorem keyed_reading (h : Keyed db) (s : List (Option ι)) :
    Keyed (runReading r out db s).state :=
  Pool.run_state (exec out) (fun q _ hs => hs.exec out q) h s

theorem isMember_reading (h : db.IsMember r.conversationId r.uuid) (s : List (Option ι)) :
    (runReading r out db s).state.IsMember r.conversationId r.uuid :=
  Pool.run_traced_state (exec out) (exec_fits out) (feeds_reading r db)
    (I := fun t => t.IsMember r.conversationId r.uuid) h
    (fun _ _ _ _ hq hs => isMember_feeds hq hs) s

theorem historyAfter_concat (h : Keyed db) (s : List (Option ι)) (j : Option ι) :
    ∃ more, historyAfter r out db (s ++ [j]) = historyAfter r out db s ++ more := by
  rw [historyAfter,runReading_concat]
  rcases Pool.asks_or_stays (exec out) (runReading r out db s) j with ⟨q,k,hask⟩ | hstays
  · obtain ⟨-,hq,-⟩ := Pool.traced_ask (exec out) (exec_fits out) (feeds_reading r db) hask
    rw [Pool.next_of_ask (exec out) hask]
    exact history_grows (keyed_reading r out h s) hq r.conversationId
  · rw [hstays]
    exact ⟨[],(List.append_nil _).symm⟩

def Underway (db : Database) (s : List (Option ι)) : Prop :=
  ∃ st : Reader, (runReading r out db s).threads none =
    st.program r.uuid r.conversationId r.limit r.polls ∧
    st.Progress (historyAfter r out db) (pageLimit r.limit) r.calls r.polls s

variable {r out}

theorem Underway.own {s : List (Option ι)} (h : Underway r out db s) (hkeyed : Keyed db)
    (hmember : db.IsMember r.conversationId r.uuid) (hu : r.uuid ≠ "") (hc : r.conversationId ≠ 0)
    (hroom : s.count none = 1 → (historyAfter r out db s).length < r.calls) :
    Underway r out db (s ++ [none]) := by
  obtain ⟨more,hmore⟩ := historyAfter_concat r out hkeyed s none
  have hkeyed' := keyed_reading r out hkeyed s
  have hsorted := history_sorted hkeyed' r.conversationId
  obtain ⟨mem,hmem⟩ := takeMember_of_isMember out (isMember_reading r out hmember s)
  obtain ⟨st,hst,hprogress⟩ := h
  rw [Underway,runReading_concat]
  cases st with
  | back calls beforeId pages =>
    obtain ⟨calls,rfl⟩ := Nat.exists_eq_add_of_lt hprogress.2.2.1
    rw [Nat.zero_add] at hst hprogress
    obtain ⟨k,hk,hnext⟩ := (Reader.program_check hu hc).1 calls beforeId pages
    refine ⟨_,?_,hprogress.checkBack hmore⟩
    rw [Pool.next_threads_self (exec out) (hst.trans hk),hmem,hnext mem]
  | backQuery calls beforeId pages =>
    obtain ⟨k,hk,hnext⟩ := Reader.program_query.1 calls beforeId pages
    obtain ⟨hcount,hcalls,hremaining⟩ := hprogress
    obtain ⟨first,rest,seen,hfirst,hgrown,hfirstSorted,hsplit,hpages,hrest,hpage⟩ :=
      hremaining.page hkeyed' rfl hcount (hcalls ▸ hroom) ⟨more,hmore.symm⟩
    refine ⟨_,?_,Reader.Progress.pageBack (pageLimit_pos r.limit) hcount hcalls hfirst hgrown
      hfirstSorted hsplit hpages hrest⟩
    have hrestSorted : (rest.rtake (pageLimit r.limit)).Pairwise fun m m' => m.id < m'.id := by
      rw [hsplit] at hfirstSorted
      refine List.Pairwise.sublist ?_ (List.pairwise_append.mp hfirstSorted).1
      exact List.drop_sublist _ _
    rw [Pool.next_threads_self (exec out) (hst.trans hk),
      ← Reader.program_afterBack r.polls calls pages hrestSorted,← hpage]
    exact hnext _
  | poll polls afterId pages news =>
    cases polls with
    | zero =>
      rw [Pool.next_of_ended (exec out) fun q k hq => by rw [hst] at hq; cases hq]
      exact ⟨_,hst,hprogress.ended hmore⟩
    | succ polls =>
      obtain ⟨k,hk,hnext⟩ := (Reader.program_check hu hc).2 polls afterId pages news
      refine ⟨_,?_,hprogress.checkPoll hmore⟩
      rw [Pool.next_threads_self (exec out) (hst.trans hk),hmem,hnext mem]
  | pollQuery polls afterId pages news =>
    obtain ⟨k,hk,hnext⟩ := Reader.program_query.2 polls afterId pages news
    refine ⟨_,?_,hprogress.pagePoll hmore hsorted
      (GetMessagesReq.page ⟨r.uuid,r.conversationId,0,afterId,r.limit⟩
        (runReading r out db s).state)
      fun m hm hid => ?_⟩
    · rw [Pool.next_threads_self (exec out) (hst.trans hk),← info_ids]
      exact hnext _ _ rfl
    · have hpositive : 0 < afterId := hid ▸ history_positive hkeyed' hm
      rw [GetMessagesReq.page,GetMessagesReq.pageMode,if_pos hpositive,ascending_after]
      rfl

theorem reading_run {schedule : List (Option ι)} (hkeyed : Keyed db)
    (hmember : db.IsMember r.conversationId r.uuid) (hu : r.uuid ≠ "") (hc : r.conversationId ≠ 0)
    (hcalls : 0 < r.calls) (hroom : ∀ before after, schedule = before ++ none :: after →
      before.count none = 1 → (historyAfter r out db before).length < r.calls) :
    Underway r out db schedule := by
  induction schedule using List.reverseRecOn with
  | nil => exact ⟨.back r.calls 0 [],rfl,rfl,rfl,hcalls,Or.inl ⟨rfl,rfl⟩⟩
  | append_singleton s j ih =>
    have hs : Underway r out db s := by
      refine ih fun before after hsplit => hroom before (after ++ [j]) ?_
      rw [hsplit,List.append_assoc]
      rfl
    cases j with
    | none => exact hs.own hkeyed hmember hu hc (hroom s [] rfl)
    | some i =>
      obtain ⟨more,hmore⟩ := historyAfter_concat r out hkeyed s (some i)
      obtain ⟨st,hst,hprogress⟩ := hs
      refine ⟨st,?_,hprogress.other hmore⟩
      rw [runReading_concat,Pool.next_threads_other (exec out) _ (by simp),hst]

theorem Underway.ended {s : List (Option ι)} (h : Underway r out db s)
    (hturns : 2*(r.calls+r.polls) ≤ s.count none) :
    ∃ afterId pages news, (runReading r out db s).threads none = .ret (pages,news) ∧
      news.length = r.polls ∧
      Polled (historyAfter r out db) (pageLimit r.limit) s afterId pages news := by
  obtain ⟨st,hst,hprogress⟩ := h
  cases st with
  | back calls beforeId pages =>
    obtain ⟨hcount,hcalls,hpos,-⟩ := hprogress
    omega
  | backQuery calls beforeId pages =>
    obtain ⟨hcount,hcalls,-⟩ := hprogress
    omega
  | poll polls afterId pages news =>
    obtain ⟨-,hcount,hcalls,htotal,hpolled⟩ := hprogress
    cases polls with
    | zero => exact ⟨afterId,pages,news,hst,by omega,hpolled⟩
    | succ polls =>
      have := hcount (Nat.succ_pos polls)
      omega
  | pollQuery polls afterId pages news =>
    obtain ⟨hcount,hcalls,htotal,-⟩ := hprogress
    omega

/-- Back from the last page the reader sees every message that was there at the first
query, once and in order, and nothing else. If there was one, each further page holds
the next messages there are, up to the limit. -/
theorem history_read_in_pages (r : Browsing ι) (out : Outer) {db : Database}
    (schedule before after : List (Option ι)) (hkeyed : Keyed db)
    (hmember : db.IsMember r.conversationId r.uuid) (hu : r.uuid ≠ "") (hc : r.conversationId ≠ 0)
    (hsplit : schedule = before ++ none :: after) (hfirst : before.count none = 1)
    (hcalls : (historyAfter r out db before).length < r.calls)
    (hturns : 2*(r.calls+r.polls) ≤ schedule.count none) :
    ∃ pages news, (runReading r out db schedule).threads none = .ret (pages,news) ∧
      pages.reverse.flatten = (historyAfter r out db before).map (·.info) ∧
      (∀ page ∈ pages, page.Pairwise fun m m' => m.id < m'.id) ∧
      (historyAfter r out db before ≠ [] → news.length = r.polls ∧
        (∃ later, historyAfter r out db schedule = historyAfter r out db before ++ later ∧
          news.flatten <+: later.map (·.info)) ∧
        ∀ k page, news[k]? = some page → ∀ sofar rest, schedule = sofar ++ none :: rest →
          sofar.count none = 2*(pages.length+1)+2*k+1 →
          page = (((historyAfter r out db sofar).drop ((historyAfter r out db before).length+
            (news.take k).flatten.length)).take (pageLimit r.limit)).map (·.info)) := by
  have hrun : Underway r out db schedule := by
    refine reading_run hkeyed hmember hu hc (by omega) fun before' after' hsplit' hcount => ?_
    rwa [turn_unique hsplit' hsplit (hcount.trans hfirst.symm)]
  obtain ⟨afterId,pages,news,hret,hlength,first,hseen,-,hpages,hnews⟩ := hrun.ended hturns
  obtain rfl := hseen.unique ⟨before,after,hsplit,hfirst,rfl⟩
  have hsorted := history_sorted (keyed_reading r out hkeyed before) r.conversationId
  refine ⟨pages,news,hret,hpages,fun page hpage => ?_,fun hne => ⟨hlength,?_,(hnews hne).each⟩⟩
  · have hall : pages.reverse.flatten.Pairwise fun m m' => m.id < m'.id := by
      rw [hpages]
      exact List.pairwise_map.mpr hsorted
    exact List.Pairwise.sublist (List.sublist_flatten_of_mem (List.mem_reverse.mpr hpage)) hall
  · obtain ⟨got,rest,hs,hgot,-⟩ := (hnews hne).shown
    refine ⟨got ++ rest,by rw [hs,List.append_assoc],?_⟩
    rw [hgot,List.map_append]
    exact List.prefix_append _ _

end Run

/-- "a" reads one message at a time while "a" and "b" greet. -/
def browseOne : Browsing Bool := ⟨"a",1,1,3,2,greeting⟩

def fullSend (first : Bool) : List (Option Bool) := List.replicate 12 (some first)

/-- The reader's first query comes after one message and before the other. -/
theorem history_read_in_pages_one_message :
    (historyAfter browseOne countingOuter pairDatabase (fullSend true ++ [none])).map (·.id) = [1] ∧
      ∃ pages news, (runReading browseOne countingOuter pairDatabase (fullSend true ++ [none] ++
        none :: (fullSend false ++ List.replicate 8 none))).threads none = .ret (pages,news) ∧
        pages.reverse.flatten = (historyAfter browseOne countingOuter pairDatabase
          (fullSend true ++ [none])).map (·.info) ∧ news.length = 2 := by
  have hkeyed : Keyed pairDatabase := by constructor <;> decide
  have hmember : pairDatabase.IsMember 1 "a" :=
    ⟨_,List.mem_cons_self,rfl,rfl,rfl⟩
  obtain ⟨pages,news,hret,hpages,-,hnews⟩ := history_read_in_pages browseOne countingOuter
    _ (fullSend true ++ [none]) (fullSend false ++ List.replicate 8 none) hkeyed hmember (by decide)
    (by decide) rfl (by decide) (by decide) (by decide)
  exact ⟨by decide,pages,news,hret,hpages,(hnews (by decide)).1⟩

/-- When there is nothing at first, the reader goes on with ID 0, which asks for the
last page: the first of two messages is never on a page of one. -/
theorem first_message_never_read :
    historyAfter browseOne countingOuter pairDatabase [none] = [] ∧
      (historyAfter browseOne countingOuter pairDatabase ([none,none] ++ fullSend true ++
        fullSend false ++ List.replicate 8 none)).map (·.id) = [1,2] ∧
      ∃ news, (runReading browseOne countingOuter pairDatabase ([none,none] ++ fullSend true ++
        fullSend false ++ List.replicate 8 none)).threads none = .ret ([],news) ∧
        news.map (·.map (·.id)) = [[2],[]] :=
  ⟨rfl,by decide,_,rfl,rfl⟩

end Imy.Chat
