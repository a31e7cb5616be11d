import Imy.Lib.Command
set_option autoImplicit false

/-!
A history kept beside the state of a program: the program neither reads it nor
changes it, so that leaving it out gives the program back.
-/

namespace Imy.Lib

variable {ε σ γ α β : Type}

def beside (x : EStateM ε σ α) : EStateM ε (σ × γ) α := onPart Prod.fst (fun t s => (t,s.2)) id x

def note (f : γ → γ) : EStateM ε (σ × γ) PUnit := fun s => .ok ⟨⟩ (s.1,f s.2)

@[simp] theorem wp_beside (x : EStateM ε σ α) (Q : α → σ × γ → Prop) (E : ε → σ × γ → Prop)
    (s : σ × γ) :
    wp (beside x) Q E s = wp x (fun a t => Q a (t,s.2)) (fun e t => E e (t,s.2)) s.1 :=
  wp_onPart _ _ _ x Q E s

@[simp] theorem wp_note (f : γ → γ) (Q : PUnit → σ × γ → Prop) (E : ε → σ × γ → Prop) (s : σ × γ) :
    wp (note f) Q E s = Q ⟨⟩ (s.1,f s.2) := rfl

def forget : EStateM.Result ε (σ × γ) α → EStateM.Result ε σ α
  | .ok a s => .ok a s.1
  | .error e s => .error e s.1

def Erases (x : EStateM ε (σ × γ) α) (y : EStateM ε σ α) : Prop := ∀ s, forget (x s) = y s.1

theorem Erases.beside (x : EStateM ε σ α) : Erases (beside x : EStateM ε (σ × γ) α) x := by
  intro s
  simp only [Lib.beside,onPart]
  cases x s.1 <;> rfl

/-- Touches the history only. -/
def Silent (x : EStateM ε (σ × γ) PUnit) : Prop := ∀ s, ∃ g, x s = .ok ⟨⟩ (s.1,g)

theorem silent_note (f : γ → γ) : Silent (note f : EStateM ε (σ × γ) PUnit) := fun s => ⟨f s.2,rfl⟩

theorem Silent.get {f : σ × γ → EStateM ε (σ × γ) PUnit} (h : ∀ s, Silent (f s)) :
    Silent (get >>= f) := fun s => h s s

theorem Erases.pure (a : α) : Erases (pure a : EStateM ε (σ × γ) α) (pure a) := fun _ => rfl

theorem Erases.bind {x : EStateM ε (σ × γ) α} {y : EStateM ε σ α} {f : α → EStateM ε (σ × γ) β}
    {g : α → EStateM ε σ β} (hx : Erases x y) (hf : ∀ a, Erases (f a) (g a)) :
    Erases (x >>= f) (y >>= g) := by
  intro s
  have h := hx s
  simp only [Bind.bind,EStateM.bind]
  cases hs : x s with
  | ok a t =>
    rw [hs] at h
    rw [← h]
    exact hf a t
  | error e t =>
    rw [hs] at h
    rw [← h]
    rfl

theorem Erases.get {f : σ × γ → EStateM ε (σ × γ) α} {y : EStateM ε σ α} (h : ∀ s, Erases (f s) y) :
    Erases (get >>= f) y := fun s => h s s

theorem Erases.before {x : EStateM ε (σ × γ) PUnit} (hx : Silent x) {z : EStateM ε (σ × γ) α}
    {y : EStateM ε σ α} (hz : Erases z y) : Erases (x >>= fun _ => z) y := by
  intro s
  obtain ⟨g,hg⟩ := hx s
  have h := hz (s.1,g)
  simpa only [Bind.bind,EStateM.bind,hg] using h

theorem Erases.after {x : EStateM ε (σ × γ) PUnit} {y : EStateM ε σ PUnit} (hx : Erases x y)
    {z : EStateM ε (σ × γ) PUnit} (hz : Silent z) : Erases (x >>= fun _ => z) y := by
  intro s
  have h := hx s
  simp only [Bind.bind,EStateM.bind]
  cases hs : x s with
  | ok a t =>
    obtain ⟨g,hg⟩ := hz t
    rw [hs] at h
    simp only [hg]
    exact h
  | error e t =>
    rw [hs] at h
    exact h

theorem Erases.forM {f : α → EStateM ε (σ × γ) PUnit} {g : α → EStateM ε σ PUnit}
    (h : ∀ a, Erases (f a) (g a)) (xs : List α) : Erases (forM xs f) (forM xs g) := by
  induction xs with
  | nil => exact Erases.pure _
  | cons x xs ih =>
    rw [List.forM_cons,List.forM_cons]
    exact (h x).bind fun _ => ih

theorem Erases.final {x : EStateM ε (σ × γ) α} {y : EStateM ε σ α} (h : Erases x y) (s : σ × γ) :
    (final x s).1 = final y s.1 := by
  have hs := h s
  simp only [Lib.final,← hs]
  cases x s <;> rfl

/-- What `y` does, `x` does beside its history. -/
theorem Erases.wp {x : EStateM ε (σ × γ) α} {y : EStateM ε σ α} (h : Erases x y)
    {Q : α → σ → Prop} {E : ε → σ → Prop} {s : σ × γ} (hy : wp y Q E s.1) :
    wp x (fun a t => Q a t.1) (fun e t => E e t.1) s := by
  have hs := h s
  unfold Lib.wp at *
  cases hx : x s with
  | ok a t =>
    rw [hx] at hs
    rw [← hs] at hy
    exact hy
  | error e t =>
    rw [hx] at hs
    rw [← hs] at hy
    exact hy

end Imy.Lib
