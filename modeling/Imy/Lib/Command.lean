import Mathlib.Data.List.Basic
set_option autoImplicit false

namespace Imy.Lib

variable {ε σ α β : Type}

/-- What a command does from `s`: a return satisfies `Q` together with the state
it leaves, and so does a failure with `E`. A failure keeps the state reached so
far, nothing is rolled back. -/
def wp (x : EStateM ε σ α) (Q : α → σ → Prop) (E : ε → σ → Prop) (s : σ) : Prop :=
  match x s with
  | .ok a t => Q a t
  | .error e t => E e t

@[simp] theorem wp_pure (a : α) (Q : α → σ → Prop) (E : ε → σ → Prop) (s : σ) :
    wp (pure a) Q E s = Q a s := rfl

@[simp] theorem wp_throw (e : ε) (Q : α → σ → Prop) (E : ε → σ → Prop) (s : σ) :
    wp (throw e) Q E s = E e s := rfl

@[simp] theorem wp_get (Q : σ → σ → Prop) (E : ε → σ → Prop) (s : σ) :
    wp get Q E s = Q s s := rfl

@[simp] theorem wp_set (t : σ) (Q : PUnit → σ → Prop) (E : ε → σ → Prop) (s : σ) :
    wp (set t) Q E s = Q ⟨⟩ t := rfl

@[simp] theorem wp_modify (f : σ → σ) (Q : PUnit → σ → Prop) (E : ε → σ → Prop) (s : σ) :
    wp (modify f) Q E s = Q ⟨⟩ (f s) := rfl

@[simp] theorem wp_bind (x : EStateM ε σ α) (f : α → EStateM ε σ β)
    (Q : β → σ → Prop) (E : ε → σ → Prop) (s : σ) :
    wp (x >>= f) Q E s = wp x (fun a t => wp (f a) Q E t) E s := by
  simp only [wp,bind,EStateM.bind]
  cases x s <;> rfl

theorem get_apply (s : σ) : (get : EStateM ε σ σ) s = .ok s s := rfl

theorem set_apply (t s : σ) : (set t : EStateM ε σ PUnit) s = .ok ⟨⟩ t := rfl

theorem modify_apply (f : σ → σ) (s : σ) : (modify f : EStateM ε σ PUnit) s = .ok ⟨⟩ (f s) := rfl

theorem throw_apply (e : ε) (s : σ) : (throw e : EStateM ε σ α) s = .error e s := rfl

theorem wp_ite (c : Prop) [Decidable c] (x y : EStateM ε σ α)
    (Q : α → σ → Prop) (E : ε → σ → Prop) (s : σ) :
    wp (if c then x else y) Q E s = if c then wp x Q E s else wp y Q E s := by
  split <;> rfl

theorem wp_mono {x : EStateM ε σ α} {Q Q' : α → σ → Prop} {E E' : ε → σ → Prop} {s : σ}
    (h : wp x Q E s) (hQ : ∀ a t, Q a t → Q' a t) (hE : ∀ e t, E e t → E' e t) :
    wp x Q' E' s := by
  unfold wp at *
  cases hx : x s with
  | ok a t => rw [hx] at h; exact hQ a t h
  | error e t => rw [hx] at h; exact hE e t h

theorem wp_ok {x : EStateM ε σ α} {Q : α → σ → Prop} {E : ε → σ → Prop} {s t : σ} {a : α}
    (h : wp x Q E s) (hx : x s = .ok a t) : Q a t := by
  simpa only [wp,hx] using h

theorem wp_error {x : EStateM ε σ α} {Q : α → σ → Prop} {E : ε → σ → Prop} {s t : σ} {e : ε}
    (h : wp x Q E s) (hx : x s = .error e t) : E e t := by
  simpa only [wp,hx] using h

theorem eq_ok_of_wp {x : EStateM ε σ α} {Q : α → σ → Prop} {s : σ}
    (h : wp x Q (fun _ _ => False) s) : ∃ a t, x s = .ok a t ∧ Q a t := by
  cases hx : x s with
  | ok a t => exact ⟨a,t,rfl,wp_ok h hx⟩
  | error e t => exact (wp_error h hx).elim

theorem eq_ok_of_wp_eq {x : EStateM ε σ α} {s t : σ} {a : α}
    (h : wp x (fun b u => b = a ∧ u = t) (fun _ _ => False) s) : x s = .ok a t := by
  obtain ⟨b,u,hx,rfl,rfl⟩ := eq_ok_of_wp h
  exact hx

theorem wp_of_any (x : EStateM ε σ α) (s : σ) : wp x (fun _ _ => True) (fun _ _ => True) s := by
  unfold wp
  cases x s <;> trivial

theorem wp_of_eq_ok {x : EStateM ε σ α} {Q : α → σ → Prop} {E : ε → σ → Prop} {s t : σ} {a : α}
    (hx : x s = .ok a t) (h : Q a t) : wp x Q E s := by
  simpa only [wp,hx] using h

theorem wp_of_eq_error {x : EStateM ε σ α} {Q : α → σ → Prop} {E : ε → σ → Prop} {s t : σ} {e : ε}
    (hx : x s = .error e t) (h : E e t) : wp x Q E s := by
  simpa only [wp,hx] using h

theorem wp_and {x : EStateM ε σ α} {Q Q' : α → σ → Prop} {E E' : ε → σ → Prop} {s : σ}
    (h : wp x Q E s) (h' : wp x Q' E' s) :
    wp x (fun a t => Q a t ∧ Q' a t) (fun e t => E e t ∧ E' e t) s := by
  unfold wp at *
  cases hx : x s <;> simp only [hx] at h h' <;> exact ⟨h,h'⟩

/-- The loop rule. `I` sees the elements already handled, so that the same
invariant covers the loop as a whole and any point at which it stops. -/
theorem wp_forM {f : α → EStateM ε σ PUnit} {I : List α → σ → Prop} {E : ε → σ → Prop}
    (xs : List α) {s : σ} (start : I [] s)
    (next : ∀ done x rest t, xs = done ++ x :: rest → I done t →
      wp (f x) (fun _ u => I (done ++ [x]) u) E t) :
    wp (forM xs f) (fun _ t => I xs t) E s := by
  suffices h : ∀ rest done t, xs = done ++ rest → I done t →
      wp (forM rest f) (fun _ u => I xs u) E t from h xs [] s rfl start
  intro rest
  induction rest with
  | nil =>
    intro done t hxs hI
    have hd : xs = done := by simpa using hxs
    simpa [hd] using hI
  | cons x rest ih =>
    intro done t hxs hI
    rw [List.forM_cons,wp_bind]
    refine wp_mono (next done x rest t hxs hI) ?_ (fun _ _ h => h)
    intro _ u hu
    exact ih (done ++ [x]) u (by simpa using hxs) hu

/-- The loop rule for a loop that collects something on the way. -/
theorem wp_foldlM {f : β → α → EStateM ε σ β} {I : List α → β → σ → Prop} {E : ε → σ → Prop}
    (xs : List α) {b : β} {s : σ} (start : I [] b s)
    (next : ∀ done x rest b t, xs = done ++ x :: rest → I done b t →
      wp (f b x) (fun b' u => I (done ++ [x]) b' u) E t) :
    wp (xs.foldlM f b) (fun b' t => I xs b' t) E s := by
  suffices h : ∀ rest done b t, xs = done ++ rest → I done b t →
      wp (rest.foldlM f b) (fun b' u => I xs b' u) E t from h xs [] b s rfl start
  intro rest
  induction rest with
  | nil =>
    intro done b t hxs hI
    have hd : xs = done := by simpa using hxs
    simpa [hd] using hI
  | cons x rest ih =>
    intro done b t hxs hI
    rw [List.foldlM_cons,wp_bind]
    refine wp_mono (next done x rest b t hxs hI) ?_ (fun _ _ h => h)
    intro b' u hu
    exact ih (done ++ [x]) b' u (by simpa using hxs) hu

def ignoreError (x : EStateM ε σ PUnit) : EStateM ε σ PUnit := fun s =>
  match x s with
  | .ok _ t => .ok ⟨⟩ t
  | .error _ t => .ok ⟨⟩ t

@[simp] theorem wp_ignoreError (x : EStateM ε σ PUnit) (Q : PUnit → σ → Prop)
    (E : ε → σ → Prop) (s : σ) :
    wp (ignoreError x) Q E s = wp x Q (fun _ t => Q ⟨⟩ t) s := by
  simp only [wp,ignoreError]
  cases x s <;> rfl

def onPart {ε' τ : Type} (part : σ → τ) (put : τ → σ → σ) (wrap : ε → ε') (x : EStateM ε τ α) :
    EStateM ε' σ α := fun s =>
  match x (part s) with
  | .ok a t => .ok a (put t s)
  | .error e t => .error (wrap e) (put t s)

@[simp] theorem wp_onPart {ε' τ : Type} (part : σ → τ) (put : τ → σ → σ) (wrap : ε → ε')
    (x : EStateM ε τ α) (Q : α → σ → Prop) (E : ε' → σ → Prop) (s : σ) :
    wp (onPart part put wrap x) Q E s =
      wp x (fun a t => Q a (put t s)) (fun e t => E (wrap e) (put t s)) (part s) := by
  simp only [wp,onPart]
  cases x (part s) <;> rfl

/-- The state a command leaves, whether it returned or failed. -/
def final (x : EStateM ε σ α) (s : σ) : σ :=
  match x s with
  | .ok _ t => t
  | .error _ t => t

theorem final_bind_of_ok {x : EStateM ε σ α} {f : α → EStateM ε σ β} {s t : σ} {a : α}
    (hx : x s = .ok a t) : final (x >>= f) s = final (f a) t := by
  simp only [final,bind,EStateM.bind,hx]

theorem final_bind_of_error {x : EStateM ε σ α} {f : α → EStateM ε σ β} {s t : σ} {e : ε}
    (hx : x s = .error e t) : final (x >>= f) s = t := by
  simp only [final,bind,EStateM.bind,hx]

theorem final_bind_pure (x : EStateM ε σ α) (b : β) (s : σ) :
    final (x >>= fun _ => pure b) s = final x s := by
  simp only [final,bind,EStateM.bind]
  cases x s <;> rfl

def succeeds (x : EStateM ε σ α) (s : σ) : Bool :=
  match x s with
  | .ok _ _ => true
  | .error _ _ => false

theorem eq_ok_of_succeeds {x : EStateM ε σ PUnit} {s : σ} (h : succeeds x s = true) :
    x s = .ok ⟨⟩ (final x s) := by
  unfold succeeds at h
  unfold final
  cases hx : x s with
  | ok a t => rfl
  | error e t => simp [hx] at h

/-- What a command returned, if it did. -/
def answer (x : EStateM ε σ α) (s : σ) : Option α :=
  match x s with
  | .ok a _ => some a
  | .error _ _ => none

theorem eq_ok_of_answer {x : EStateM ε σ α} {s : σ} {a : α} (h : answer x s = some a) :
    x s = .ok a (final x s) := by
  unfold answer at h
  unfold final
  cases hx : x s with
  | ok b t => simpa [hx] using h
  | error e t => simp [hx] at h

theorem eq_error_of_fails {x : EStateM ε σ α} {s : σ} (h : succeeds x s = false) :
    ∃ e, x s = .error e (final x s) := by
  unfold succeeds at h
  unfold final
  cases hx : x s with
  | ok a t => simp [hx] at h
  | error e t => exact ⟨e,rfl⟩

theorem succeeds_iff_of_wp {x : EStateM ε σ α} {s : σ} {p : Prop}
    (h : wp x (fun _ _ => p) (fun _ _ => ¬ p) s) : succeeds x s = true ↔ p := by
  unfold wp at h
  unfold succeeds
  cases hx : x s <;> simp only [hx] at h <;> simp [h]

theorem any_answer_iff_of_wp {x : EStateM ε σ α} {s : σ} {q : α → Bool} {p : Prop}
    (h : wp x (fun a _ => q a = true ↔ p) (fun _ _ => ¬ p) s) : (answer x s).any q = true ↔ p := by
  unfold wp at h
  unfold answer
  cases hx : x s <;> simp only [hx] at h <;> simp [h]

/-- The error of a command, if it fails. -/
def fault (x : EStateM ε σ α) (s : σ) : Option ε :=
  match x s with
  | .ok _ _ => none
  | .error e _ => some e

theorem eq_error_of_fault {x : EStateM ε σ α} {s : σ} {e : ε} (h : fault x s = some e) :
    x s = .error e (final x s) := by
  unfold fault at h
  unfold final
  cases hx : x s with
  | ok a t => simp [hx] at h
  | error e' t => simpa [hx] using h

theorem final_of_wp {x : EStateM ε σ α} {P : σ → Prop} {s : σ}
    (h : wp x (fun _ t => P t) (fun _ t => P t) s) : P (final x s) := by
  unfold wp at h
  unfold final
  cases hx : x s <;> simpa only [hx] using h

theorem wp_final (x : EStateM ε σ α) (s : σ) :
    wp x (fun _ t => t = final x s) (fun _ t => t = final x s) s := by
  unfold wp final
  cases x s <;> rfl

theorem wp_of_final {x : EStateM ε σ α} {P : σ → Prop} {s : σ} (h : P (final x s)) :
    wp x (fun _ t => P t) (fun _ t => P t) s :=
  wp_mono (wp_final x s) (fun _ _ ht => ht ▸ h) (fun _ _ ht => ht ▸ h)

end Imy.Lib
