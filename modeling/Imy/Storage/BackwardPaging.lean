import Imy.Lib.Paging
import Imy.Storage.AppendLog
set_option autoImplicit false

namespace Imy.Storage
open Imy.Lib

/-- The pages from a cursor back to the empty one; `none` says that `fuel` pages
were not enough. -/
def pageBack (env : Env) (convID : String) (limit : Int) :
    Nat → Int → StoreM (Option (List (List Message)))
  | 0, _ => pure none
  | fuel+1, beforeSeqID => do
    let page ← getConvMessages env convID limit beforeSeqID
    match page with
    | [] => pure (some [])
    | oldest :: _ =>
      let older ← pageBack env convID limit fuel oldest.seqID
      pure (older.map fun pages => page :: pages)

theorem collectBack_eq_take (limit before : Int) (older : List Message) (count : Int)
    (result : List Message) :
    collectBack limit before older count result =
      ((older.filter fun msg => before = 0 ∨ msg.seqID < before).take
        (limit-count).toNat).reverse ++ result := by
  induction older generalizing count result with
  | nil => simp [collectBack]
  | cons msg older ih =>
    unfold collectBack
    by_cases hlt : count < limit
    · have hroom : (limit-count).toNat = (limit-(count+1)).toNat+1 := by omega
      rw [if_pos hlt,ih,ih]
      by_cases hmsg : before = 0 ∨ msg.seqID < before
      · rw [if_pos hmsg,List.filter_cons_of_pos (by simpa using hmsg),hroom]
        simp
      · rw [if_neg hmsg,List.filter_cons_of_neg (by simpa using hmsg)]
    · have hfull : (limit-count).toNat = 0 := by omega
      rw [if_neg hlt,hfull]
      rfl

theorem collectBack_eq_rtake (limit before : Int) (msgs : List Message) :
    collectBack limit before msgs.reverse 0 [] =
      (msgs.filter fun msg => before = 0 ∨ msg.seqID < before).rtake limit.toNat := by
  rw [collectBack_eq_take,List.rtake_eq_reverse_take_reverse,← List.filter_reverse,List.append_nil,
    Int.sub_zero]

section Pages
variable {c : StoreConfig} {h : Host} {log : List (Entry TimelineRef Message)}
  {checkpoint : String → Int} {cv : String}

def CursorAt (before : Int) (done : List Message) : Prop :=
  (done = [] ∧ before = 0) ∨ ∃ oldest newer, done = oldest :: newer ∧ before = oldest.seqID

theorem CursorAt.filter {before : Int} {rest done : List Message} (hb : CursorAt before done)
    (hsorted : (rest ++ done).Pairwise fun m m' => m.seqID < m'.seqID)
    (hpos : ∀ m ∈ rest ++ done, 0 < m.seqID) :
    ((rest ++ done).filter fun msg => before = 0 ∨ msg.seqID < before) = rest := by
  rcases hb with ⟨rfl,rfl⟩ | ⟨oldest,newer,rfl,rfl⟩
  · simp
  · have hne : oldest.seqID ≠ 0 := by
      have := hpos oldest (by simp)
      omega
    simp only [hne,false_or]
    exact filter_key_lt (fun m : Message => m.seqID) hsorted

theorem wp_pageBack (env : Env) {limit : Int} (hlimit : 1 ≤ limit)
    (hc : (TimelineRef.mk .conv cv).Plain) (fuel : Nat) {before : Int} {rest done : List Message}
    (ht : Tracks c h log checkpoint) (hlog : topicLog log ⟨.conv,cv⟩ = rest ++ done)
    (hsorted : (rest ++ done).Pairwise fun m m' => m.seqID < m'.seqID)
    (hpos : ∀ m ∈ rest ++ done, 0 < m.seqID) (hb : CursorAt before done)
    (hfuel : rest.length < fuel) :
    wp (pageBack env cv limit fuel before)
      (fun pages _ => ∃ ps, pages = some ps ∧
        (∀ page ∈ ps, page.Pairwise fun m m' => m.seqID < m'.seqID) ∧ ps.reverse.flatten = rest)
      (fun _ _ => False) h := by
  induction fuel generalizing h before rest done with
  | zero => omega
  | succ fuel ih =>
    simp only [pageBack,wp_bind]
    refine wp_mono (wp_getConvMessages env cv limit before ht hc) ?_ (fun _ _ he => he)
    rintro page t ⟨htt,hpage⟩
    rw [collectBack_eq_rtake,hlog,hb.filter hsorted hpos] at hpage
    have hsplit := rdrop_append_rtake rest limit.toNat
    rw [← hpage] at hsplit
    cases page with
    | nil =>
      have hrest : rest = [] := eq_nil_of_rtake (by omega) hpage.symm
      exact ⟨[],rfl,by simp,by simp [hrest]⟩
    | cons oldest newer =>
      have hlt : (rest.rdrop limit.toNat).length < rest.length :=
        length_rdrop_lt (by rw [← hpage]; exact List.cons_ne_nil _ _)
      have hmore : rest.rdrop limit.toNat ++ (oldest :: newer ++ done) = rest ++ done := by
        rw [← List.append_assoc,hsplit]
      simp only [wp_bind,wp_pure]
      refine wp_mono (ih htt (hlog.trans hmore.symm) (by rwa [hmore]) (by rwa [hmore])
        (Or.inr ⟨oldest,newer ++ done,rfl,rfl⟩) (by omega)) ?_ (fun _ _ he => he)
      rintro pages u ⟨ps,rfl,hps,hflat⟩
      refine ⟨(oldest :: newer) :: ps,rfl,?_,?_⟩
      · intro page hp
        rcases List.mem_cons.mp hp with rfl | hp
        · rw [hpage]
          exact (List.pairwise_append.mp hsorted).1.sublist (List.drop_sublist _ _)
        · exact hps page hp
      · rw [List.reverse_cons,List.flatten_append,hflat,List.flatten_singleton,hsplit]

theorem numbered_sorted (calls : List SendCall) (times : List Int) :
    (numbered calls times).Pairwise fun m m' => m.seqID < m'.seqID := by
  rw [List.pairwise_iff_getElem]
  intro i j hi hj hij
  simp only [numbered,List.getElem_map,List.getElem_zipIdx]
  omega

theorem numbered_positive {calls : List SendCall} {times : List Int} {m : Message}
    (hm : m ∈ numbered calls times) : 0 < m.seqID := by
  obtain ⟨i,hi⟩ := List.mem_iff_getElem?.mp hm
  obtain ⟨s,t,-,-,rfl⟩ := numbered_getElem? hi
  simp only
  omega

end Pages

/-- Paging back through a conversation ends, and its pages, the last one first,
are the messages added to the conversation. -/
theorem pageBack_complete (env : Env) (c : StoreConfig) (disk : Path → Option FileData)
    (tick : Nat) (births : List (TimelineRef × Int)) (h t : Host) (ops : List StoreOp)
    (hopen : newStore env c disk tick births = .ok h) (hempty : EmptyDir c disk)
    (hplain : ∀ op ∈ ops, op.Plain) (hrun : runOps env ops h = .ok () t)
    (convID : String) (hconv : (TimelineRef.mk .conv convID).Plain) (limit : Int)
    (hlimit : 1 ≤ limit) :
    ∃ msgs : List Message, msgs.length = (sends ops).length ∧
      (∀ (i : Nat) s m, (sends ops)[i]? = some s → msgs[i]? = some m →
        m.seqID = (i : Int)+1 ∧ m.convID = s.convID ∧ m.senderID = s.senderID ∧ m.data = s.data) ∧
      ∃ fuel pages t', pageBack env convID limit fuel 0 t = .ok (some pages) t' ∧
        (∀ page ∈ pages, page.Pairwise fun m m' => m.seqID < m'.seqID) ∧
        pages.reverse.flatten = msgs.filter fun m => m.convID = convID := by
  obtain ⟨times,hl,ht⟩ := tracks_run env ops hplain (Tracks.newStore hopen hempty) hrun
  refine ⟨numbered (sends ops) times,numbered_length hl,?_,?_⟩
  · intro i s m hs hm
    obtain ⟨s',-,hs',-,rfl⟩ := numbered_getElem? hm
    cases hs.symm.trans hs'
    exact ⟨rfl,rfl,rfl,rfl⟩
  · have hlog := topicLog_conv (numbered_convIDs hl) convID
    have hsub := List.filter_sublist (p := fun m : Message => decide (m.convID = convID))
      (l := numbered (sends ops) times)
    generalize hrest : (numbered (sends ops) times).filter (fun m => m.convID = convID) = rest at *
    have hsorted : rest.Pairwise fun m m' => m.seqID < m'.seqID :=
      (numbered_sorted (sends ops) times).sublist hsub
    have hpos : ∀ m ∈ rest, 0 < m.seqID := fun m hm => numbered_positive (hsub.subset hm)
    have hnew : CursorAt 0 [] := Or.inl ⟨rfl,rfl⟩
    obtain ⟨pages,t',hpages,ps,rfl,hps,hflat⟩ := eq_ok_of_wp (wp_pageBack env hlimit hconv
      (rest.length+1) ht (by simpa using hlog) (by simpa using hsorted) (by simpa using hpos)
      hnew (by omega))
    exact ⟨rest.length+1,ps,t',hpages,hps,hflat⟩

/-- The messages to `c`, read one at a time. -/
theorem pageBack_complete_two_pages :
    ∃ t, runOps Env.steady threeSends (Host.steady smallBlocks) = .ok () t ∧
      ∃ msgs : List Message, msgs.length = 3 ∧
        ∃ fuel pages t', pageBack Env.steady "c" 1 fuel 0 t = .ok (some pages) t' ∧
          pages.reverse.flatten = msgs.filter fun m => m.convID = "c" := by
  have hrun : succeeds (runOps Env.steady threeSends) (Host.steady smallBlocks) = true := by
    decide +kernel
  have hplain : ∀ op ∈ threeSends, op.Plain := by decide
  obtain ⟨msgs,hlen,-,fuel,pages,t',hpages,-,hflat⟩ := pageBack_complete _ _ _ _ _ _ _ _
    (newStore_steady smallBlocks) (fun _ _ => rfl) hplain (eq_ok_of_succeeds hrun) "c" (by decide) 1
    (by decide)
  exact ⟨_,eq_ok_of_succeeds hrun,msgs,hlen,fuel,pages,t',hpages,hflat⟩

end Imy.Storage
