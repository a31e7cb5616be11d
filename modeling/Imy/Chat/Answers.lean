import Imy.Chat.LostSight
set_option autoImplicit false

namespace Imy.Chat
open Imy.Lib

def CreatePrivateConversationReq.Made (req : CreatePrivateConversationReq) (h : ChatTrace)
    (info : ConversationInfo) : Prop :=
  ∃ conv, info = conv.info ∧
    (⟨.takeConversation (privateKeyOf req.uuid req.peerUUID),.ok conv⟩ ∈ h ∨
      ∃ row, row.privateKey = privateKeyOf req.uuid req.peerUUID ∧
        ⟨.createConversation row,.ok conv⟩ ∈ h)

def Shown (h : ChatTrace) (list : List MessageInfo) : Prop :=
  ∃ c mode limit page, ⟨.findMessages c mode limit,.ok page⟩ ∈ h ∧
    ∀ info ∈ list, ∃ m ∈ page, info = m.info

def Request.Answers (h : ChatTrace) : Request → Stmt → Prop
  | .operation (.sendMessage req), .createMessage row => ¬ req.Invalid ∧ row = req.message
  | .operation (.createPrivateConversation req), .respond (.ok (.conversation info)) =>
    req.Made h info
  | .getMessages _, .respond (.ok (.messages list)) => Shown h list
  | _, _ => True

section Rules
variable {A : (q : Stmt) → q.Answer → Prop} {K : ChatTrace → Stmt → Prop} {h : ChatTrace}

theorem traced_response {main : ChatM Reply} (hmain : main.Traced Stmt.Fits K
      (fun h reply => K h (.respond (.ok reply.1)) ∧ Going K h reply) h)
    (herror : ∀ h e, K h (.respond (.error e))) :
    (serve main).Traced Stmt.Fits K (fun _ _ => True) h := by
  refine (Prog.traced_attempt hmain).bind fun h result hresult => ?_
  cases result with
  | error e => exact ⟨herror h e,fun _ _ => trivial⟩
  | ok reply =>
    obtain ⟨hresponse,hgoing⟩ := hresult reply rfl
    exact ⟨hresponse,fun _ _ => hgoing _ (List.subset_append_left _ _)⟩

theorem traced_any {α : Type} (p : ChatM α) (hK : ∀ h q, K h q) :
    p.Traced A K (fun _ _ => True) h := by
  induction p generalizing h with
  | ret a => exact trivial
  | fail e => exact trivial
  | ask q next ih => exact ⟨hK h q,fun r _ => ih r⟩

theorem traced_announceCreated (info : ConversationInfo) (us : List String)
    (hK : ∀ h u e, K h (.sendJSON u e)) :
    (announceCreated info us).Traced A K (fun _ _ => True) h :=
  Prog.traced_forM us trivial fun u _ h _ => ⟨hK h u _,fun _ _ => trivial⟩

theorem traced_completeMember {e : Sigma Stmt.Answer} (conv : ChatConversation) (u : String)
    (hK : ∀ h q, (∀ result, q ≠ .respond result) → K h q) (he : e ∈ h) :
    (completeMember conv u).Traced A K (fun h _ => e ∈ h) h := by
  refine ⟨hK h _ nofun,fun answer _ => ?_⟩
  rcases answer with (_ | _ | _) | mem
  · refine ⟨hK _ _ nofun,fun _ _ => ⟨hK _ _ nofun,fun _ _ => ?_⟩⟩
    exact List.mem_append_left _ (List.mem_append_left _ (List.mem_append_left _ he))
  · exact trivial
  · exact trivial
  · exact List.mem_append_left _ he

end Rules

section Calls
variable {A : (q : Stmt) → q.Answer → Prop} {h : ChatTrace}

theorem traced_findPair (req : CreatePrivateConversationReq) :
    (findPair req).Traced A
      (Request.Answers · (.operation (.createPrivateConversation req)))
      (fun h conv => req.Made h conv.info) h := by
  have hK : ∀ h q, (∀ result, q ≠ .respond result) →
      Request.Answers h (.operation (.createPrivateConversation req)) q := by
    intro h q hq
    cases q with
    | respond result => exact (hq result rfl).elim
    | _ => exact trivial
  refine ⟨trivial,fun answer _ => ?_⟩
  rcases answer with (_ | _ | _) | conv
  · refine ⟨trivial,fun answer _ => ?_⟩
    rcases answer with e | conv
    · exact trivial
    refine ⟨trivial,fun answer _ => ?_⟩
    rcases answer with e | _
    · exact trivial
    · refine ⟨conv,rfl,Or.inr ⟨_,?_,List.mem_append_left _ (List.mem_append_right _
        (List.mem_singleton_self _))⟩⟩
      rfl
  · exact trivial
  · exact trivial
  · refine (Prog.traced_forM (I := fun h => ⟨.takeConversation (privateKeyOf req.uuid req.peerUUID),
      .ok conv⟩ ∈ h) _ (List.mem_append_right _ (List.mem_singleton_self _))
      fun u _ h he => traced_completeMember conv u hK he).bind fun h _ he => ?_
    exact ⟨conv,rfl,Or.inl he⟩

theorem traced_insertMessage {req : SendMessageReq} (hvalid : ¬ req.Invalid) :
    (insertMessage req).Traced Stmt.Fits (Request.Answers · (.operation (.sendMessage req)))
      (Going (Request.Answers · (.operation (.sendMessage req)))) h := by
  refine ⟨⟨hvalid,rfl⟩,fun answer _ => ?_⟩
  rcases answer with e | msg
  · exact trivial
  refine ⟨trivial,fun _ _ h' _ => traced_broadcastMessage msg (fun h q hq => ?_)
    fun _ _ _ _ => trivial⟩
  cases q with
  | createMessage row => exact hq.elim
  | _ => exact trivial

theorem traced_sendMessage_answers (req : SendMessageReq) :
    (sendMessage req).Traced Stmt.Fits (Request.Answers · (.operation (.sendMessage req)))
      (Going (Request.Answers · (.operation (.sendMessage req)))) h := by
  rw [sendMessage]
  split
  · exact trivial
  rename_i hvalid
  refine ⟨trivial,fun answer _ => ?_⟩
  rcases answer with (_ | _ | _) | mem
  · exact trivial
  · exact trivial
  · exact trivial
  refine ⟨trivial,fun answer _ => ?_⟩
  rcases answer with (_ | _ | _) | exist
  · exact traced_insertMessage hvalid
  · exact trivial
  · exact trivial
  · exact fun _ _ => trivial

theorem traced_getMessages (req : GetMessagesReq) :
    (getMessages req).Traced Stmt.Fits (Request.Answers · (.getMessages req))
      (fun h reply => Request.Answers h (.getMessages req) (.respond (.ok reply.1)) ∧
        Going (Request.Answers · (.getMessages req)) h reply) h := by
  rw [getMessages]
  split
  · exact trivial
  refine ⟨trivial,fun answer _ => ?_⟩
  rcases answer with (_ | _ | _) | mem
  · exact trivial
  · exact trivial
  · exact trivial
  refine ⟨trivial,fun answer _ => ?_⟩
  rcases answer with e | list
  · exact trivial
  refine ⟨⟨_,_,_,list,List.mem_append_right _ (List.mem_singleton_self _),fun info hinfo => ?_⟩,
    fun _ _ => trivial⟩
  obtain ⟨m,hm,rfl⟩ := List.mem_map.mp hinfo
  exact ⟨m,mem_ascending.mp hm,rfl⟩

/-- Every call inserts and returns what `Request.Answers` says. -/
theorem traced_answers (parse : String → Option Int) (req : Request) :
    (serve (req.main parse)).Traced Stmt.Fits (Request.Answers · req) (fun _ _ => True) [] := by
  have hother : (∀ h q, Request.Answers h req q) → (serve (req.main parse)).Traced Stmt.Fits
      (Request.Answers · req) (fun _ _ => True) [] := traced_any _
  cases req with
  | operation op =>
    cases op with
    | sendMessage req => exact traced_serve (traced_sendMessage_answers req) fun _ _ => trivial
    | createPrivateConversation req =>
      refine traced_response ?_ fun _ _ => trivial
      change (createPrivateConversation req).Traced _ _ _ _
      rw [createPrivateConversation]
      split
      · exact trivial
      · refine (traced_findPair req).bind fun h conv hmade => ⟨hmade,fun h' _ => ?_⟩
        exact traced_announceCreated _ _ fun _ _ _ => trivial
    | _ => exact hother fun _ _ => trivial
  | getMessages req => exact traced_response (traced_getMessages req) fun _ _ => trivial
  | _ => exact hother fun _ _ => trivial

end Calls

section Run
variable {ι : Type} [DecidableEq ι] {out : Outer} {parse : String → Option Int} {db : Database}
  {reqs : ι → Request} {schedule : List ι} {i : ι}

theorem answers_of_log {q : Stmt} (hlog : (i,q) ∈ (runTogether out parse db reqs schedule).log) :
    ∃ h, Request.Answers h (reqs i) q ∧
      ∀ e ∈ h, Pool.Asked (exec out) (startTogether parse db reqs) schedule i e :=
  Pool.traced_logged (exec out) (exec_fits out) (fun i => traced_answers parse (reqs i)) rfl hlog

theorem answers_of_asked {e : Sigma Stmt.Answer}
    (h : Pool.Asked (exec out) (startTogether parse db reqs) schedule i e) :
    ∃ h, Request.Answers h (reqs i) e.1 := by
  obtain ⟨before,after,k,-,hask,-⟩ := h
  obtain ⟨trace,hanswers,-⟩ := Pool.traced_ask (exec out) (exec_fits out)
    (fun i => traced_answers parse (reqs i)) hask
  exact ⟨trace,hanswers⟩

theorem asked_later {p : Calls ι} {e : Sigma Stmt.Answer}
    (h : Pool.Asked (exec out) p schedule i e) :
    ∃ db', (exec out e.1 db').1 = e.2 ∧
      Later (exec out e.1 db').2 (p.run (exec out) schedule).state := by
  obtain ⟨before,after,k,rfl,hask,hanswer⟩ := h
  have hrest := later_run out ((p.run (exec out) before).next (exec out) i) after
  rw [Pool.next_of_ask (exec out) hask] at hrest
  refine ⟨_,hanswer,?_⟩
  rw [Pool.run_append]
  change Later _ (((p.run (exec out) before).next (exec out) i).run (exec out) after).state
  rw [Pool.next_of_ask (exec out) hask]
  exact hrest

theorem message_of_asked {c : Nat} {mode : PageMode} {limit : Nat} {page : List ChatMessage}
    (h : Pool.Asked (exec out) (startTogether parse db reqs) schedule i
      ⟨.findMessages c mode limit,.ok page⟩) {m : ChatMessage} (hm : m ∈ page) :
    ∃ m' ∈ (runTogether out parse db reqs schedule).state.messages, StillMessage m m' := by
  obtain ⟨db',hanswer,hlater⟩ := asked_later h
  obtain rfl := Except.ok.inj hanswer
  exact hlater.messages.mem (mem_findMessages hm).1

theorem message_of_insert {p : Calls ι} {row msg : ChatMessage}
    (h : Pool.Asked (exec out) p schedule i ⟨.createMessage row,.ok msg⟩) :
    (∃ id createdAt, msg = row.stored id createdAt) ∧
      ∃ m ∈ (p.run (exec out) schedule).state.messages, StillMessage msg m := by
  obtain ⟨db',hanswer,hlater⟩ := asked_later h
  change (db'.createMessage out row).1 = .ok msg at hanswer
  change Later (db'.createMessage out row).2 _ at hlater
  rw [Database.createMessage] at hanswer hlater
  split at hanswer
  · cases hanswer
  rename_i hfree
  rw [if_neg hfree] at hlater
  obtain rfl := Except.ok.inj hanswer
  exact ⟨⟨_,_,rfl⟩,hlater.messages.mem (List.mem_append_right _ (List.mem_singleton_self _))⟩

end Run

end Imy.Chat
