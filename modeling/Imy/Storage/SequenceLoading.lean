import Mathlib.Data.List.Nodup
import Imy.Lib.Transition
import Imy.Storage.Timeline
set_option autoImplicit false

/-!
The sequence generator while timelines are being loaded. `NextSeqID` is one atomic
addition and takes no lock. `loadTimelineMetadata` reads the generator, compares
and writes it in three steps; the timelines are loaded under `s.mu`, one at a time.
-/

namespace Imy.Storage
open Imy.Lib

/-- Where the load of a timeline whose metadata has this `LastSeqID` stands. -/
inductive LoadStage where
  | loading (lastSeqID : Int64)
  | comparing (lastSeqID generator : Int64)
  | storing (lastSeqID : Int64)
  deriving DecidableEq, Repr

/-- `load` belongs to the holder of `s.mu`. `highest` and `returned` are not in the
source: the highest value the generator has had and the numbers given out. -/
structure Sequencer where
  seqGenerator : Int64
  load : Option LoadStage
  highest : Int64
  returned : List Int64
  deriving DecidableEq, Repr

def Sequencer.new : Sequencer := ⟨0,none,0,[]⟩

inductive SeqOp where
  | nextSeqID
  | begin (lastSeqID : Int64)
  | load
  | compare
  | store
  deriving DecidableEq, Repr

def Sequencer.reach (s : Sequencer) (value : Int64) : Sequencer :=
  { s with seqGenerator := value, highest := if s.highest < value then value else s.highest }

def Sequencer.next (s : Sequencer) : SeqOp → Option Sequencer
  | .nextSeqID =>
    some { s.reach (s.seqGenerator+1) with returned := s.returned ++ [s.seqGenerator+1] }
  | .begin lastSeqID =>
    match s.load with
    | none => some { s with load := some (.loading lastSeqID) }
    | some _ => none
  | .load =>
    match s.load with
    | some (.loading lastSeqID) =>
      some { s with load := some (.comparing lastSeqID s.seqGenerator) }
    | _ => none
  | .compare =>
    match s.load with
    | some (.comparing lastSeqID generator) =>
      some { s with load := if lastSeqID > generator then some (.storing lastSeqID) else none }
    | _ => none
  | .store =>
    match s.load with
    | some (.storing lastSeqID) => some { s.reach lastSeqID with load := none }
    | _ => none

def loadSteps (lastSeqID generator : Int64) : List SeqOp :=
  if lastSeqID > generator then [.begin lastSeqID,.load,.compare,.store]
  else [.begin lastSeqID,.load,.compare]

/-- Without steps of others in between, a load does to the generator what
`raiseSeq` does. -/
theorem loadSteps_raiseSeq {s : Sequencer} (hidle : s.load = none) {store : Store}
    (hgen : store.seqGenerator = s.seqGenerator.toInt) (lastSeqID : Int64) :
    ∃ t, (loadSteps lastSeqID s.seqGenerator).foldlM Sequencer.next s = some t ∧ t.load = none ∧
      t.seqGenerator.toInt = (store.raiseSeq lastSeqID.toInt).seqGenerator := by
  unfold loadSteps
  by_cases h : lastSeqID > s.seqGenerator
  · simp [h,Sequencer.next,Sequencer.reach,hidle,hgen,Int64.lt_iff_toInt_lt.mp h]
  · simp [h,Sequencer.next,hidle,hgen,mt Int64.lt_iff_toInt_lt.mpr h]

/-- Before every `NextSeqID` of the run the state satisfies `P`. -/
def AtDraws (P : Sequencer → Prop) (ops : List SeqOp) (s : Sequencer) : Prop :=
  ∀ pre post, ops = pre ++ SeqOp.nextSeqID :: post → ∀ u, pre.foldlM Sequencer.next s = some u → P u

/-- No number is drawn with the generator at the end of its range. -/
def NeverFull (ops : List SeqOp) (s : Sequencer) : Prop :=
  AtDraws (fun u => u.seqGenerator ≠ Int64.maxValue) ops s

/-- Every number is drawn while the generator is at its highest value, and not at the end of
its range. -/
def NeverBack (ops : List SeqOp) (s : Sequencer) : Prop :=
  AtDraws (fun u => u.seqGenerator = u.highest ∧ u.seqGenerator ≠ Int64.maxValue) ops s

structure Covered (s : Sequencer) : Prop where
  top : s.seqGenerator ≤ s.highest
  below : ∀ n ∈ s.returned, n ≤ s.highest
  above : ∀ n, s.seqGenerator < n → n ≤ s.highest → n ∈ s.returned
  comparing : ∀ last g, s.load = some (.comparing last g) →
    g ≤ s.seqGenerator ∧ ∀ n, g < n → n ≤ s.highest → n ∈ s.returned
  storing : ∀ last, s.load = some (.storing last) →
    ∀ n, last < n → n ≤ s.highest → n ∈ s.returned

theorem Covered.new : Covered Sequencer.new := by
  refine ⟨Int64.le_refl _,by simp [Sequencer.new],?_,by simp [Sequencer.new],
    by simp [Sequencer.new]⟩
  intro n hlt hle
  simp only [Sequencer.new] at hlt hle
  grind

theorem Sequencer.le_reach (s : Sequencer) (value : Int64) :
    s.highest ≤ (s.reach value).highest ∧ value ≤ (s.reach value).highest := by
  unfold Sequencer.reach
  split <;> constructor <;> grind

theorem Sequencer.reach_highest {s : Sequencer} {value n : Int64}
    (h : n ≤ (s.reach value).highest) :
    n ≤ s.highest ∨ s.highest < n ∧ n ≤ value := by
  unfold Sequencer.reach at h
  split at h <;> grind

theorem lt_succ {g : Int64} (h : g ≠ Int64.maxValue) : g < g+1 := by
  have hlt := g.toInt_lt
  have hge := g.le_toInt
  have hne : g.toInt ≠ 2^63-1 := fun heq => h (Int64.toInt_inj.mp heq)
  rw [Int64.lt_iff_toInt_lt,Int64.toInt_add,Int64.toInt_one,Int.bmod_eq_of_le] <;> omega

theorem Covered.nextSeqID {s t : Sequencer} (hs : Covered s)
    (hfull : s.seqGenerator ≠ Int64.maxValue) (hstep : s.next .nextSeqID = some t) : Covered t := by
  cases hstep
  obtain ⟨hhigh,hdrawn⟩ := s.le_reach (s.seqGenerator+1)
  have hup := lt_succ hfull
  -- a number above the old highest value is the one that is given out now
  have hnew : ∀ n, (n ≤ s.highest → n ∈ s.returned) → n ≤ (s.reach (s.seqGenerator+1)).highest →
      n ∈ s.returned ++ [s.seqGenerator+1] := by
    intro n hold hle
    rw [List.mem_append,List.mem_singleton]
    rcases Sequencer.reach_highest hle with hn | ⟨hn,hle⟩
    · exact Or.inl (hold hn)
    · have := hs.top
      exact Or.inr (by grind)
  refine ⟨hdrawn,?_,?_,?_,?_⟩
  · intro n hn
    rcases List.mem_append.mp hn with hn | hn
    · exact Int64.le_trans (hs.below n hn) hhigh
    · rw [List.mem_singleton.mp hn]
      exact hdrawn
  · intro n hlt hle
    exact hnew n (fun hn => hs.above n (Int64.lt_trans hup hlt) hn) hle
  · intro last g hload
    obtain ⟨hg,hcov⟩ := hs.comparing last g hload
    refine ⟨Int64.le_trans hg (Int64.le_of_lt hup),fun n hlt hle => ?_⟩
    exact hnew n (hcov n hlt) hle
  · intro last hload n hlt hle
    exact hnew n (hs.storing last hload n hlt) hle

theorem Covered.next {s t : Sequencer} (hs : Covered s) (op : SeqOp)
    (hfull : op = .nextSeqID → s.seqGenerator ≠ Int64.maxValue) (hstep : s.next op = some t) :
    Covered t := by
  cases op with
  | nextSeqID => exact hs.nextSeqID (hfull rfl) hstep
  | begin lastSeqID =>
    simp only [Sequencer.next] at hstep
    split at hstep
    · cases hstep
      exact ⟨hs.top,hs.below,hs.above,by simp,by simp⟩
    · cases hstep
  | load =>
    simp only [Sequencer.next] at hstep
    split at hstep
    · cases hstep
      refine ⟨hs.top,hs.below,hs.above,?_,by simp⟩
      intro last g hload
      cases hload
      exact ⟨Int64.le_refl _,hs.above⟩
    · cases hstep
  | compare =>
    simp only [Sequencer.next] at hstep
    split at hstep
    · rename_i lastSeqID generator hload
      cases hstep
      obtain ⟨-,hcov⟩ := hs.comparing lastSeqID generator hload
      refine ⟨hs.top,hs.below,hs.above,?_,?_⟩
      · intro last g h
        simp only at h
        split at h <;> cases h
      · intro last h n hlt hle
        simp only at h
        split at h
        · rename_i hgt
          cases h
          exact hcov n (by grind) hle
        · cases h
    · cases hstep
  | store =>
    simp only [Sequencer.next] at hstep
    split at hstep
    · rename_i lastSeqID hload
      cases hstep
      obtain ⟨hhigh,hstored⟩ := s.le_reach lastSeqID
      refine ⟨hstored,fun n hn => Int64.le_trans (hs.below n hn) hhigh,?_,by simp,by simp⟩
      intro n hlt hle
      rcases Sequencer.reach_highest hle with hn | ⟨-,hn⟩
      · exact hs.storing lastSeqID hload n hlt hn
      · exact absurd hn (Int64.not_le.mpr hlt)
    · cases hstep

theorem covered_run {ops : List SeqOp} {s : Sequencer} (hfull : NeverFull ops Sequencer.new)
    (hrun : ops.foldlM Sequencer.next Sequencer.new = some s) : Covered s := by
  refine runs_keep (C := fun u op => op = .nextSeqID → u.seqGenerator ≠ Int64.maxValue) Covered.new
    (fun _ op _ hu hop hv => hu.next op hop hv) ops (fun pre op post hsplit u hu hop => ?_) hrun
  subst hop
  exact hfull pre post hsplit u hu

/-- Only `NextSeqID` gives out a number. -/
theorem Sequencer.next_returned {s t : Sequencer} {op : SeqOp} (hstep : s.next op = some t) :
    t.returned = s.returned ++ if op = .nextSeqID then [s.seqGenerator+1] else [] := by
  cases op with
  | nextSeqID =>
    cases hstep
    rfl
  | begin | load | compare | store =>
    simp only [Sequencer.next] at hstep
    split at hstep
    · cases hstep
      simp [Sequencer.reach]
    · cases hstep

theorem atDraws_concat {P : Sequencer → Prop} {ops : List SeqOp} {op : SeqOp} {s u : Sequencer}
    (hbefore : ops.foldlM Sequencer.next s = some u) :
    AtDraws P (ops ++ [op]) s ↔ AtDraws P ops s ∧ (op = .nextSeqID → P u) := by
  constructor
  · intro h
    refine ⟨fun pre post hsplit => ?_,?_⟩
    · exact h pre (post ++ [op]) (by simp [hsplit])
    · rintro rfl
      exact h ops [] rfl u hbefore
  · rintro ⟨hold,hnew⟩ pre post hsplit v hv
    rcases List.eq_nil_or_concat post with rfl | ⟨post,last,rfl⟩
    · obtain ⟨rfl,hop⟩ := List.append_inj' hsplit rfl
      cases hop
      cases hbefore.symm.trans hv
      exact hnew rfl
    · rw [List.concat_eq_append,← List.cons_append,← List.append_assoc] at hsplit
      exact hold pre post (List.append_inj' hsplit rfl).1 v hv

/-- The next number was given out before, just if the generator is below its highest value. -/
theorem Covered.succ_mem_iff {s : Sequencer} (hs : Covered s)
    (hfull : s.seqGenerator ≠ Int64.maxValue) :
    s.seqGenerator+1 ∈ s.returned ↔ s.seqGenerator ≠ s.highest := by
  have hup := lt_succ hfull
  have htop := hs.top
  constructor
  · intro h
    have hle := hs.below _ h
    grind
  · intro h
    exact hs.above _ hup (by grind)

/-- The numbers of a run are distinct, and none is drawn at the end of the range, if and only
if each of them is drawn while the generator is at the highest value it has had and not at the
end: a store that puts it back has been made good before the next number. -/
theorem returned_nodup_iff (ops : List SeqOp) (s : Sequencer)
    (hrun : ops.foldlM Sequencer.next Sequencer.new = some s) :
    s.returned.Nodup ∧ NeverFull ops Sequencer.new ↔ NeverBack ops Sequencer.new := by
  induction ops using List.reverseRecOn generalizing s with
  | nil =>
    cases hrun
    simp [Sequencer.new,NeverBack,NeverFull,AtDraws]
  | append_singleton ops op ih =>
    rw [runs_concat,Option.bind_eq_some_iff] at hrun
    obtain ⟨u,hbefore,hstep⟩ := hrun
    rw [NeverFull,NeverBack,atDraws_concat hbefore,atDraws_concat hbefore,← NeverFull,
      ← NeverBack,← ih u hbefore,
      Sequencer.next_returned hstep]
    by_cases hop : op = .nextSeqID
    · simp only [hop,if_true,forall_true_left]
      rw [List.nodup_append]
      constructor
      · rintro ⟨⟨hnodup,-,hdisj⟩,hfull,hlast⟩
        refine ⟨⟨hnodup,hfull⟩,?_,hlast⟩
        by_contra hne
        have hmem := ((covered_run hfull hbefore).succ_mem_iff hlast).mpr hne
        exact hdisj _ hmem _ (List.mem_singleton_self _) rfl
      · rintro ⟨⟨hnodup,hfull⟩,htop,hlast⟩
        refine ⟨⟨hnodup,List.nodup_singleton _,?_⟩,hfull,hlast⟩
        rintro a ha b hb rfl
        rw [List.mem_singleton.mp hb] at ha
        exact ((covered_run hfull hbefore).succ_mem_iff hlast).mp ha htop
    · simp [hop]

/-- Three numbers, and each load is done before the next one. -/
def quietLoad : List SeqOp :=
  [.nextSeqID,.begin 5,.load,.compare,.store,.nextSeqID,.begin 3,.load,.compare,.nextSeqID]

theorem returned_nodup_iff_quietLoad : ∃ s, quietLoad.foldlM Sequencer.next Sequencer.new = some s ∧
    NeverBack quietLoad Sequencer.new := by
  have hrun : quietLoad.foldlM Sequencer.next Sequencer.new = some ⟨7,none,7,[1,6,7]⟩ := by decide
  have hfull : ∀ pre ∈ quietLoad.inits, ∀ u ∈ pre.foldlM Sequencer.next Sequencer.new,
      u.seqGenerator ≠ Int64.maxValue := by
    decide
  refine ⟨_,hrun,(returned_nodup_iff quietLoad _ hrun).mp
    ⟨by decide,fun pre post hsplit u hu => ?_⟩⟩
  exact hfull pre ((List.mem_inits _ _).mpr ⟨_,hsplit.symm⟩) u hu

/-- The load finds the generator below 5; by the time it stores the 5, six numbers
have been given out, and the sixth is given out again. -/
theorem number_given_out_twice :
    ¬ (∀ (ops : List SeqOp) s, ops.foldlM Sequencer.next Sequencer.new = some s →
      s.returned.Nodup) ∧
    ([.begin 5,.load,.compare,.nextSeqID,.nextSeqID,.nextSeqID,.nextSeqID,.nextSeqID,.nextSeqID,
      .store,.nextSeqID] : List SeqOp).foldlM Sequencer.next Sequencer.new =
        some ⟨6,none,6,[1,2,3,4,5,6,6]⟩ := by
  have hrun : ([.begin 5,.load,.compare,.nextSeqID,.nextSeqID,.nextSeqID,.nextSeqID,.nextSeqID,
      .nextSeqID,.store,.nextSeqID] : List SeqOp).foldlM Sequencer.next Sequencer.new =
        some ⟨6,none,6,[1,2,3,4,5,6,6]⟩ := by decide +kernel
  exact ⟨fun hall => absurd (hall _ _ hrun) (by decide),hrun⟩

end Imy.Storage
