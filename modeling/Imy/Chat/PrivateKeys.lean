import Mathlib.Data.Sym.Sym2
import Imy.Lib.Alone
import Imy.Lib.Separated
import Imy.Chat.Answers
import Imy.Chat.Collation
set_option autoImplicit false

namespace Imy.Chat
open Imy.Lib

/-- The two pairs, each in order, are one text that is cut at two colons. -/
def CutApart (a b c d : String) : Prop :=
  ∃ x t w, s(a,b) = s(x,t ++ ":" ++ w) ∧ s(c,d) = s(x ++ ":" ++ t,w) ∧
    x < t ++ ":" ++ w ∧ x ++ ":" ++ t < w

structure Database.ConversationKeys (fold : String → String) (db : Database) : Prop where
  ids : db.conversations.Pairwise fun conv conv' => conv.id < conv'.id
  next : ∀ conv ∈ db.conversations, conv.id < db.nextConversation
  privateKeys : db.conversations.Pairwise fun conv conv' =>
    fold conv.privateKey ≠ fold conv'.privateKey

/-- However calls run side by side, those for the one pair and those for the other are
never answered with the same conversation. -/
def NeverTogether (fold : String → String) (a b c d : String) : Prop :=
  ∀ (ι : Type) [DecidableEq ι] (out : Outer) (parse : String → Option Int) (db : Database)
    (reqs : ι → Request) (schedule : List ι) (i j : ι) (info info' : ConversationInfo),
      db.ConversationKeys fold →
    reqs i = .operation (.createPrivateConversation ⟨a,b⟩) →
    reqs j = .operation (.createPrivateConversation ⟨c,d⟩) →
    (i,.respond (.ok (.conversation info))) ∈
      ((startTogether parse db reqs).run (execIn fold out) schedule).log →
    (j,.respond (.ok (.conversation info'))) ∈
      ((startTogether parse db reqs).run (execIn fold out) schedule).log →
    info.conversationId ≠ info'.conversationId

section Keys
variable {a b c d x y z w : String}

theorem privateKeyOf_of_lt (h : x < y) : privateKeyOf x y = "p:" ++ x ++ ":" ++ y := by
  rw [privateKeyOf,if_neg h.asymm]

theorem exists_ordered (h : a ≠ b) :
    ∃ x y, x < y ∧ s(a,b) = s(x,y) ∧ privateKeyOf a b = "p:" ++ x ++ ":" ++ y := by
  rcases lt_or_gt_of_ne h with hlt | hlt
  · exact ⟨a,b,hlt,rfl,privateKeyOf_of_lt hlt⟩
  · exact ⟨b,a,hlt,Sym2.eq_swap,(privateKeyOf_comm h).trans (privateKeyOf_of_lt hlt)⟩

theorem ordered_eq_iff (h : x < y) (h' : z < w) : s(x,y) = s(z,w) ↔ x = z ∧ y = w := by
  rw [Sym2.eq_iff]
  constructor
  · rintro (heq | ⟨rfl,rfl⟩)
    · exact heq
    · exact (h.asymm h').elim
  · exact Or.inl

theorem joined_eq_joined_iff : "p:" ++ x ++ ":" ++ y = "p:" ++ z ++ ":" ++ w ↔
    (x = z ∧ y = w) ∨ (∃ t, z = x ++ ":" ++ t ∧ y = t ++ ":" ++ w) ∨
      ∃ t, x = z ++ ":" ++ t ∧ w = t ++ ":" ++ y := by
  have hcolon : ":".toList = [':'] := rfl
  have hcut : ∀ x y z w : String, (∃ t, z.toList = x.toList ++ ':' :: t ∧
      y.toList = t ++ ':' :: w.toList) ↔ ∃ t, z = x ++ ":" ++ t ∧ y = t ++ ":" ++ w := by
    intro x y z w
    constructor
    · rintro ⟨t,hz,hy⟩
      exact ⟨String.ofList t,String.toList_injective (by simpa [hcolon] using hz),
        String.toList_injective (by simpa [hcolon] using hy)⟩
    · rintro ⟨t,rfl,rfl⟩
      exact ⟨t.toList,by simp [hcolon],by simp [hcolon]⟩
  rw [← hcut,← hcut,← String.toList_inj,← @String.toList_inj x,
    ← @String.toList_inj y,← cut_eq_cut_iff]
  simp [hcolon]

theorem cutApart_ordered (h : x < y) (h' : z < w) :
    CutApart x y z w ↔ ∃ t, z = x ++ ":" ++ t ∧ y = t ++ ":" ++ w := by
  constructor
  · rintro ⟨x',t,w',hpair,hpair',hlt,hlt'⟩
    obtain ⟨rfl,rfl⟩ := (ordered_eq_iff h hlt).mp hpair
    obtain ⟨rfl,rfl⟩ := (ordered_eq_iff h' hlt').mp hpair'
    exact ⟨t,rfl,rfl⟩
  · rintro ⟨t,rfl,rfl⟩
    exact ⟨x,t,w,rfl,rfl,h,h'⟩

theorem cutApart_congr {a' b' c' d' : String} (h : s(a,b) = s(a',b')) (h' : s(c,d) = s(c',d')) :
    CutApart a b c d ↔ CutApart a' b' c' d' := by rw [CutApart,CutApart,h,h']

theorem privateKeyOf_eq_iff (hab : a ≠ b) (hcd : c ≠ d) :
    privateKeyOf a b = privateKeyOf c d ↔
      s(a,b) = s(c,d) ∨ CutApart a b c d ∨ CutApart c d a b := by
  obtain ⟨x,y,hxy,hpair,hkey⟩ := exists_ordered hab
  obtain ⟨z,w,hzw,hpair',hkey'⟩ := exists_ordered hcd
  rw [hkey,hkey',hpair,hpair',cutApart_congr hpair hpair',cutApart_congr hpair' hpair,
    ordered_eq_iff hxy hzw,cutApart_ordered hxy hzw,cutApart_ordered hzw hxy,joined_eq_joined_iff]

theorem append_colon_ne (x t : String) : x ++ ":" ++ t ≠ x := by
  intro heq
  have hlength := congrArg (fun s : String => s.toList.length) heq
  simp only [String.toList_append,List.length_append] at hlength
  have hcolon : ":".toList.length = 1 := rfl
  omega

theorem CutApart.ne (h : CutApart a b c d) : s(a,b) ≠ s(c,d) := by
  obtain ⟨x,t,w,hpair,hpair',hlt,hlt'⟩ := h
  rw [hpair,hpair',ne_eq,ordered_eq_iff hlt hlt']
  exact fun hsame => append_colon_ne x t hsame.1.symm

theorem not_cutApart (hc : ':' ∉ c.toList) (hd : ':' ∉ d.toList) : ¬ CutApart a b c d := by
  rintro ⟨x,t,w,-,hpair,-,-⟩
  have hin : ':' ∈ (x ++ ":" ++ t).toList := by simp
  rcases Sym2.eq_iff.mp hpair with ⟨rfl,-⟩ | ⟨-,rfl⟩
  · exact hc hin
  · exact hd hin

end Keys

section Conversations
variable {fold : String → String} {out : Outer} {db : Database} {id : Nat} {key : String}

def Database.Names (db : Database) (id : Nat) (key : String) : Prop :=
  ∃ conv ∈ db.conversations, conv.id = id ∧ conv.privateKey = key

theorem conversations_createConversationIn (fold : String → String) (db : Database)
    (row : ChatConversation) :
    ((db.createConversationIn fold row).1 = .error .duplicatedKey ∧
        (db.createConversationIn fold row).2.conversations = db.conversations ∨
      (∀ conv ∈ db.conversations, fold conv.privateKey ≠ fold row.privateKey) ∧
        (db.createConversationIn fold row).1 = .ok { row with id := db.nextConversation } ∧
        (db.createConversationIn fold row).2.conversations =
          db.conversations ++ [{ row with id := db.nextConversation }]) ∧
    (db.createConversationIn fold row).2.nextConversation = db.nextConversation+1 := by
  rw [Database.createConversationIn,Database.createConversation]
  split
  · exact ⟨Or.inl ⟨rfl,rfl⟩,rfl⟩
  rename_i hfree
  simp only [List.any_eq_true,decide_eq_true_eq,not_exists,not_and] at hfree
  split
  · exact ⟨Or.inl ⟨rfl,rfl⟩,rfl⟩
  · exact ⟨Or.inr ⟨hfree,rfl,rfl⟩,rfl⟩

theorem conversations_execIn (fold : String → String) (out : Outer) (q : Stmt) (db : Database) :
    ((execIn fold out q db).2.conversations = db.conversations ∧
        db.nextConversation ≤ (execIn fold out q db).2.nextConversation) ∨
      (∃ f : ChatConversation → ChatConversation, (∀ conv, StillConversation conv (f conv)) ∧
        (execIn fold out q db).2.conversations = db.conversations.map f ∧
        (execIn fold out q db).2.nextConversation = db.nextConversation) ∨
      ∃ row : ChatConversation, row.id = db.nextConversation ∧
        (∀ conv ∈ db.conversations, fold conv.privateKey ≠ fold row.privateKey) ∧
        (execIn fold out q db).2.conversations = db.conversations ++ [row] ∧
        (execIn fold out q db).2.nextConversation = db.nextConversation+1 := by
  cases q with
  | createConversation row =>
    obtain ⟨⟨-,hsame⟩ | ⟨hfree,-,hnew⟩,hnext⟩ := conversations_createConversationIn fold db row
    · exact Or.inl ⟨hsame,hnext ▸ Nat.le_succ _⟩
    · exact Or.inr (Or.inr ⟨{ row with id := db.nextConversation },rfl,hfree,hnew,hnext⟩)
  | updateConversation row cols =>
    refine Or.inr (Or.inl ⟨_,fun conv => ?_,rfl,rfl⟩)
    split
    · exact stillConversation_copy row conv cols
    · exact StillConversation.refl conv
  | createMembers rows =>
    change ((db.createMembersIn fold out rows).2.conversations = _ ∧
      _ ≤ (db.createMembersIn fold out rows).2.nextConversation) ∨ _
    rw [Database.createMembersIn,Database.createMembers]
    refine Or.inl ?_
    split
    · split <;> exact ⟨rfl,le_rfl⟩
    · exact ⟨rfl,le_rfl⟩
  | createMessage row =>
    change ((db.createMessageIn fold out row).2.conversations = _ ∧
      _ ≤ (db.createMessageIn fold out row).2.nextConversation) ∨ _
    rw [Database.createMessageIn,Database.createMessage]
    refine Or.inl ?_
    split
    · exact ⟨rfl,le_rfl⟩
    · split <;> exact ⟨rfl,le_rfl⟩
  | _ => exact Or.inl ⟨rfl,le_rfl⟩

theorem Database.ConversationKeys.execIn (h : db.ConversationKeys fold) (out : Outer) (q : Stmt) :
    (execIn fold out q db).2.ConversationKeys fold := by
  rcases conversations_execIn fold out q db with ⟨hsame,hnext⟩ | ⟨f,hf,hmap,hnext⟩ | ⟨row,
    hid,hfree,hnew,hnext⟩
  · refine ⟨hsame ▸ h.ids,fun conv hconv => ?_,hsame ▸ h.privateKeys⟩
    rw [hsame] at hconv
    exact (h.next conv hconv).trans_le hnext
  · refine ⟨?_,fun conv hconv => ?_,?_⟩
    · rw [hmap,List.pairwise_map]
      exact h.ids.imp fun {conv conv'} hlt => by rwa [(hf conv).id,(hf conv').id]
    · rw [hmap] at hconv
      obtain ⟨old,hold,rfl⟩ := List.mem_map.mp hconv
      rw [hnext,(hf old).id]
      exact h.next old hold
    · rw [hmap,List.pairwise_map]
      refine h.privateKeys.imp fun {conv conv'} hne => ?_
      rwa [(hf conv).privateKey,(hf conv').privateKey]
  · refine ⟨?_,fun conv hconv => ?_,?_⟩
    · rw [hnew,List.pairwise_append]
      refine ⟨h.ids,List.pairwise_singleton _ _,fun conv hconv conv' hconv' => ?_⟩
      rw [List.mem_singleton.mp hconv',hid]
      exact h.next conv hconv
    · rw [hnew] at hconv
      rw [hnext]
      rcases List.mem_append.mp hconv with hconv | hconv
      · exact Nat.lt_succ_of_lt (h.next conv hconv)
      · rw [List.mem_singleton.mp hconv,hid]
        exact Nat.lt_succ_self _
    · rw [hnew,List.pairwise_append]
      refine ⟨h.privateKeys,List.pairwise_singleton _ _,fun conv hconv conv' hconv' => ?_⟩
      rw [List.mem_singleton.mp hconv']
      exact hfree conv hconv

theorem Database.Names.execIn (h : db.Names id key) (fold : String → String)
    (out : Outer) (q : Stmt) :
    (execIn fold out q db).2.Names id key := by
  obtain ⟨conv,hconv,rfl,rfl⟩ := h
  rcases conversations_execIn fold out q db with ⟨hsame,-⟩ | ⟨f,hf,hmap,-⟩ | ⟨row,-,-,hnew,-⟩
  · exact ⟨conv,hsame ▸ hconv,rfl,rfl⟩
  · exact ⟨f conv,hmap ▸ List.mem_map_of_mem hconv,(hf conv).id,(hf conv).privateKey⟩
  · exact ⟨conv,hnew ▸ List.mem_append_left _ hconv,rfl,rfl⟩

theorem Database.Names.unique (hkeys : db.ConversationKeys fold) {key' : String}
    (h : db.Names id key) (h' : db.Names id key') : key = key' := by
  obtain ⟨conv,hconv,rfl,rfl⟩ := h
  obtain ⟨conv',hconv',hid,rfl⟩ := h'
  rw [eq_of_increasing hkeys.ids hconv hconv' hid.symm]

theorem Database.Names.same (hkeys : db.ConversationKeys fold) {id' : Nat} {key' : String}
    (h : db.Names id key) (h' : db.Names id' key') (hfold : fold key = fold key') : id = id' := by
  obtain ⟨conv,hconv,rfl,rfl⟩ := h
  obtain ⟨conv',hconv',rfl,rfl⟩ := h'
  rw [eq_of_distinct hkeys.privateKeys hconv hconv' hfold]

section Calls
variable {h : ChatTrace}

theorem traced_made (parse : String → Option Int) (r : Request) :
    (serve (r.main parse)).Traced (fun _ _ => True)
      (fun h q => ∀ req, r = .operation (.createPrivateConversation req) → Request.Answers h r q)
      (fun _ _ => True) [] := by
  by_cases hpair : ∃ req, r = .operation (.createPrivateConversation req)
  · obtain ⟨req,rfl⟩ := hpair
    refine Prog.Traced.mono (K := fun h q =>
      Request.Answers h (.operation (.createPrivateConversation req)) q) ?_
      fun _ _ hq _ _ => hq
    change (serve (createPrivateConversation req)).Traced _ _ _ _
    have hmain : (createPrivateConversation req).Traced (fun _ _ => True)
        (fun h q => Request.Answers h (.operation (.createPrivateConversation req)) q)
        (fun h reply => Request.Answers h (.operation (.createPrivateConversation req))
          (.respond (.ok reply.1)) ∧
          ∀ h', reply.2.Traced (fun _ _ => True)
            (fun h q => Request.Answers h (.operation (.createPrivateConversation req)) q)
                (fun _ _ => True) h') [] := by
      rw [createPrivateConversation]
      split
      · exact trivial
      · refine (traced_findPair req).bind fun h conv hmade => ⟨hmade,fun h' => ?_⟩
        exact traced_announceCreated _ _ fun _ _ _ => trivial
    refine (Prog.traced_attempt hmain).bind fun h result hresult => ?_
    cases result with
    | error e => exact ⟨trivial,fun _ _ => trivial⟩
    | ok reply => exact ⟨(hresult reply rfl).1,fun _ _ => (hresult reply rfl).2 _⟩
  · exact traced_any _ fun _ _ req hreq => (hpair ⟨req,hreq⟩).elim

end Calls

section Runs
variable {ι : Type} [DecidableEq ι] {parse : String → Option Int} {reqs : ι → Request}
    {schedule : List ι} {i : ι}

theorem conversationKeys_run {p : Calls ι} (h : p.state.ConversationKeys fold) (schedule : List ι) :
    (p.run (execIn fold out) schedule).state.ConversationKeys fold :=
  Pool.run_state (execIn fold out) (fun q _ hs => hs.execIn out q) h schedule

theorem names_run {p : Calls ι} (h : p.state.Names id key) (schedule : List ι) :
    (p.run (execIn fold out) schedule).state.Names id key :=
  Pool.run_state (I := fun db => db.Names id key) (execIn fold out) (fun q _ hs =>
    hs.execIn fold out q) h schedule

theorem names_of_response {req : CreatePrivateConversationReq} {info : ConversationInfo}
    (hreq : reqs i = .operation (.createPrivateConversation req))
    (hlog : (i,.respond (.ok (.conversation info))) ∈
      ((startTogether parse db reqs).run (execIn fold out) schedule).log) :
    ∃ key, ((startTogether parse db reqs).run (execIn fold out) schedule).state.Names
      info.conversationId key ∧
      fold key = fold (privateKeyOf req.uuid req.peerUUID) := by
  obtain ⟨h,hmade,hasked⟩ :=
    Pool.traced_logged (execIn fold out) (A := fun _ _ => True) (fun _ _ => trivial)
    (p := startTogether parse db reqs) (fun i => traced_made parse (reqs i)) rfl hlog
  have hmade := hmade req hreq
  rw [hreq] at hmade
  obtain ⟨conv,rfl,htake | ⟨row,hkey,hcreate⟩⟩ := hmade
  · obtain ⟨before,after,k,rfl,-,hanswer⟩ := hasked _ htake
    have hfind := found_eq_ok.mp hanswer
    refine ⟨conv.privateKey,?_,by simpa using List.find?_some hfind⟩
    rw [Pool.run_append]
    exact names_run ⟨conv,List.mem_of_find?_eq_some hfind,rfl,rfl⟩ _
  · obtain ⟨before,after,k,rfl,hask,hanswer⟩ := hasked _ hcreate
    refine ⟨row.privateKey,?_,congrArg fold hkey⟩
    have hnames : ((startTogether parse db reqs).run (execIn fold out) (before ++ [i])).state.Names
        conv.id row.privateKey := by
      rw [Pool.run_concat,Pool.next_of_ask (execIn fold out) hask]
      change (Database.createConversationIn fold _ row).1 = .ok conv at hanswer
      obtain ⟨⟨hrefused,-⟩ | ⟨-,hok,hnew⟩,-⟩ := conversations_createConversationIn fold
        ((startTogether parse db reqs).run (execIn fold out) before).state row
      · rw [hrefused] at hanswer
        cases hanswer
      · rw [hok] at hanswer
        obtain rfl := Except.ok.inj hanswer
        exact ⟨_,hnew ▸ List.mem_append_right _ (List.mem_singleton_self _),rfl,rfl⟩
    rw [show before ++ i :: after = (before ++ [i]) ++ after by simp,Pool.run_append]
    exact names_run hnames _

theorem neverTogether_of_keys {a b c d : String}
    (h : fold (privateKeyOf a b) ≠ fold (privateKeyOf c d)) :
    NeverTogether fold a b c d := by
  intro ι _ out parse db reqs schedule i j info info' hkeys hi hj hlog hlog' hid
  obtain ⟨key,hnames,hkey⟩ := names_of_response hi hlog
  obtain ⟨key',hnames',hkey'⟩ := names_of_response hj hlog'
  rw [← hid] at hnames'
  rw [hnames.unique (conversationKeys_run (p := startTogether parse db reqs) hkeys schedule)
    hnames'] at hkey
  exact h (hkey.symm.trans hkey')

end Runs

section Together
variable {s : Database} {a b c d : String}

theorem completeMember_never_fails (fold : String → String) (out : Outer)
    (conv : ChatConversation) (u : String)
    (s : Database) :
    wp ((completeMember conv u).run (execIn fold out)) (fun _ _ => True) (fun _ _ => False) s := by
  change wp (Prog.run (execIn fold out)
    (Prog.bind (.ret (execIn fold out (.takeMember conv.id u) s).1) _)) _ _ s
  change wp (Prog.run (execIn fold out) (Prog.bind (.ret (found (s.live.find? _))) _)) _ _ s
  cases s.live.find? fun m => m.conversationID = conv.id ∧ fold m.userUUID = fold u with
  | none => exact trivial
  | some mem => exact trivial

theorem responds_named (out : Outer) (hkeys : s.ConversationKeys fold) (hnames : s.Names id key)
    (req : CreatePrivateConversationReq)
    (hvalid : ¬ (req.uuid = "" ∨ req.peerUUID = "" ∨ req.uuid = req.peerUUID))
    (hkey : fold key = fold (privateKeyOf req.uuid req.peerUUID)) :
    ∃ info, info.conversationId = id ∧ .respond (.ok (.conversation info)) ∈
      (serve (createPrivateConversation req)).asked (execIn fold out) s := by
  obtain ⟨conv,hfind⟩ : ∃ conv, s.conversations.find? (fun c =>
      fold c.privateKey = fold (privateKeyOf req.uuid req.peerUUID)) = some conv := by
    obtain ⟨conv,hconv,-,rfl⟩ := hnames
    exact Option.isSome_iff_exists.mp (List.find?_isSome.mpr ⟨conv,hconv,by simpa using hkey⟩)
  have hid : conv.id = id := by
    have hfound : s.Names conv.id conv.privateKey := ⟨conv,List.mem_of_find?_eq_some hfind,rfl,rfl⟩
    have hsame : fold conv.privateKey = fold (privateKeyOf req.uuid req.peerUUID) := by
      simpa using List.find?_some hfind
    exact hfound.same hkeys hnames (hsame.trans hkey.symm)
  have hmain : wp ((createPrivateConversation req).run (execIn fold out))
      (fun reply _ => reply.1 = .conversation conv.info) (fun _ _ => False) s := by
    have htake : execIn fold out (.takeConversation (privateKeyOf req.uuid req.peerUUID)) s =
        (.ok conv,s) :=
      congrArg (fun conv => (found conv,s)) hfind
    rw [createPrivateConversation,if_neg hvalid,Prog.wp_run_bind,findPair,Prog.wp_run_bind,ask,
      Prog.wp_run_query,htake]
    dsimp only
    rw [Prog.wp_run_bind,List.forM_cons,Prog.wp_run_bind]
    refine wp_mono (completeMember_never_fails fold out conv req.uuid s)
      (fun _ t _ => ?_) fun _ _ he => he
    rw [List.forM_cons,Prog.wp_run_bind]
    exact wp_mono (completeMember_never_fails fold out conv req.peerUUID t)
      (fun _ _ _ => rfl) fun _ _ he => he
  obtain ⟨⟨response,goroutine⟩,t,hrun,rfl⟩ := eq_ok_of_wp hmain
  exact ⟨conv.info,hid,Prog.mem_asked_bind (Prog.run_attempt_of_ok hrun) List.mem_cons_self⟩

def emptyPair (a b : String) : Database :=
  { emptyDatabase with
    conversations :=
      [{ (default : ChatConversation) with id := 1, type := 1, privateKey := privateKeyOf a b }]
    nextConversation := 2 }

theorem together_of_keys (hpair : ¬ (a = "" ∨ b = "" ∨ a = b))
    (hpair' : ¬ (c = "" ∨ d = "" ∨ c = d))
    (h : fold (privateKeyOf a b) = fold (privateKeyOf c d)) : ¬ NeverTogether fold a b c d := by
  intro hnever
  let reqs : Bool → Request :=
    fun first => .operation (.createPrivateConversation (if first then ⟨a,b⟩ else ⟨c,d⟩))
  let start := startTogether noTimes (emptyPair a b) reqs
  have hkeys : start.state.ConversationKeys fold := by
    constructor <;> simp [start,startTogether,emptyPair]
  have hnames : start.state.Names 1 (privateKeyOf a b) := ⟨_,List.mem_singleton_self _,rfl,rfl⟩
  obtain ⟨n,hasked,hwaits⟩ :=
    Pool.run_alone (execIn fold countingOuter) _ (rfl : start.threads true = _)
  obtain ⟨m,hasked',-⟩ := Pool.run_alone (execIn fold countingOuter) _ (hwaits false (by decide))
  obtain ⟨info,hid,hin⟩ := responds_named countingOuter hkeys hnames ⟨a,b⟩ hpair rfl
  obtain ⟨info',hid',hin'⟩ :=
    responds_named countingOuter (conversationKeys_run hkeys (List.replicate n true))
    (names_run hnames _) ⟨c,d⟩ hpair' h
  refine hnever Bool countingOuter noTimes (emptyPair a b) reqs
    (List.replicate n true ++ List.replicate m false)
    true false info info' hkeys rfl rfl ?_ ?_ (hid.trans hid'.symm)
  · rw [Pool.run_append]
    exact Pool.log_run (hasked _ hin) _
  · rw [Pool.run_append]
    exact hasked' _ hin'

end Together

/-- Keys tell pairs apart, and no two pairs share a conversation, exactly if the pairs are not
one text that is cut at two colons and the database takes no two keys for one. -/
theorem private_keys_identify_pairs_iff (fold : String → String) (a b c d : String)
    (hpair : ¬ (a = "" ∨ b = "" ∨ a = b)) (hpair' : ¬ (c = "" ∨ d = "" ∨ c = d)) :
    ((privateKeyOf a b = privateKeyOf c d ↔ s(a,b) = s(c,d)) ∧
      (s(a,b) ≠ s(c,d) → NeverTogether fold a b c d)) ↔
    (¬ CutApart a b c d ∧ ¬ CutApart c d a b) ∧
      (fold (privateKeyOf a b) = fold (privateKeyOf c d) →
        privateKeyOf a b = privateKeyOf c d) := by
  have hab : a ≠ b := fun heq => hpair (Or.inr (Or.inr heq))
  have hcd : c ≠ d := fun heq => hpair' (Or.inr (Or.inr heq))
  have hiff := privateKeyOf_eq_iff hab hcd
  constructor
  · rintro ⟨hkeys,hnever⟩
    refine ⟨⟨fun hcut => ?_,fun hcut => ?_⟩,fun hfold => by_contra fun hne => ?_⟩
    · exact hcut.ne (hkeys.mp (hiff.mpr (Or.inr (Or.inl hcut))))
    · exact hcut.ne (hkeys.mp (hiff.mpr (Or.inr (Or.inr hcut)))).symm
    · exact together_of_keys hpair hpair' hfold (hnever fun hsame => hne (hkeys.mpr hsame))
  · rintro ⟨⟨hno,hno'⟩,hfold⟩
    have hkeys : privateKeyOf a b = privateKeyOf c d ↔ s(a,b) = s(c,d) := by
      rw [hiff]
      simp [hno,hno']
    exact ⟨hkeys,fun hne => neverTogether_of_keys fun heq => hne (hkeys.mp (hfold heq))⟩

end Conversations

theorem private_keys_identify_pairs_iff_friends :
    (privateKeyOf "a" "B" = privateKeyOf "a" "c" ↔ s("a","B") = s("a","c")) ∧
      (s("a","B") ≠ s("a","c") → NeverTogether ignoringCase "a" "B" "a" "c") :=
  (private_keys_identify_pairs_iff ignoringCase "a" "B" "a" "c" (by decide) (by decide)).mpr
    ⟨⟨not_cutApart (by decide) (by decide),not_cutApart (by decide) (by decide)⟩,by decide⟩

def strangers (first : Bool) : Request :=
  .operation (.createPrivateConversation (if first then ⟨"a","b:c"⟩ else ⟨"c","a:b"⟩))

def inSuccession : List Bool := List.replicate 4 true ++ List.replicate 8 false

def sharedInfo : ConversationInfo := ⟨1,1,"p:a:b:c","",2,0,"",""⟩

/-- The two are given one key, and one conversation. -/
theorem strangers_share_conversation :
    s("a","b:c") ≠ s("c","a:b") ∧ privateKeyOf "a" "b:c" = privateKeyOf "c" "a:b" ∧
      ¬ NeverTogether id "a" "b:c" "c" "a:b" := by
  refine ⟨by decide,by decide,fun hnever => ?_⟩
  have hresponses :
    responses ((startTogether noTimes emptyDatabase strangers).run (execIn id countingOuter)
      inSuccession).log = [(true,.ok (.conversation sharedInfo)),
        (false,.ok (.conversation sharedInfo))] := rfl
  have hboth : ∀ i, (i,Stmt.respond (.ok (.conversation sharedInfo))) ∈
      ((startTogether noTimes emptyDatabase strangers).run
          (execIn id countingOuter) inSuccession).log := by
    intro i
    rw [← mem_responses,hresponses]
    cases i <;> simp
  exact hnever Bool countingOuter noTimes emptyDatabase strangers inSuccession true false sharedInfo
    sharedInfo (by constructor <;> simp [emptyDatabase]) rfl rfl (hboth true) (hboth false) rfl

end Imy.Chat
