import Mathlib.Data.List.Count
set_option autoImplicit false

namespace Imy.Lib

structure Entry (τ μ : Type) where
  body : μ
  topics : List τ
  deriving DecidableEq, Repr

variable {τ μ : Type} [DecidableEq τ]

/-- What a reader of one topic sees. -/
def topicLog (log : List (Entry τ μ)) (t : τ) : List μ :=
  log.flatMap fun e => List.replicate (e.topics.count t) e.body

@[simp] theorem topicLog_nil (t : τ) : topicLog ([] : List (Entry τ μ)) t = [] := rfl

@[simp] theorem topicLog_append (log more : List (Entry τ μ)) (t : τ) :
    topicLog (log ++ more) t = topicLog log t ++ topicLog more t := by
  simp [topicLog]

@[simp] theorem topicLog_singleton (e : Entry τ μ) (t : τ) :
    topicLog [e] t = List.replicate (e.topics.count t) e.body := by
  simp [topicLog]

theorem count_concat_of_ne {topics : List τ} {t t' : τ} (h : t' ≠ t) :
    (topics ++ [t]).count t' = topics.count t' := by
  have hc : List.count t' [t] = 0 := List.count_eq_zero.mpr (by simpa using h)
  rw [List.count_append,hc,Nat.add_zero]

theorem mem_topicLog {log : List (Entry τ μ)} {t : τ} {m : μ} :
    m ∈ topicLog log t ↔ ∃ e ∈ log, t ∈ e.topics ∧ e.body = m := by
  simp only [topicLog,List.mem_flatMap,List.mem_replicate]
  constructor
  · rintro ⟨e,he,hc,rfl⟩
    exact ⟨e,he,List.count_pos_iff.mp (Nat.pos_of_ne_zero hc),rfl⟩
  · rintro ⟨e,he,ht,rfl⟩
    exact ⟨e,he,Nat.ne_of_gt (List.count_pos_iff.mpr ht),rfl⟩

end Imy.Lib
