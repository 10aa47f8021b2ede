import Mathlib.Data.List.Basic
import Intake.Entity.Compile
/-!
# Computations that may fail

A computation that ends well is taken apart into its stages, each of which ended well.
-/

namespace Intake

theorem bind_eq_ok {ε α β : Type} {x : Except ε α} {f : α → Except ε β} {b : β} :
    x >>= f = .ok b ↔ ∃ a, x = .ok a ∧ f a = .ok b := by
  cases x with
  | error e => simp [bind, Except.bind]
  | ok a => simp [bind, Except.bind]

theorem map_eq_ok {ε α β : Type} {f : α → β} {x : Except ε α} {b : β} :
    x.map f = .ok b ↔ ∃ a, x = .ok a ∧ f a = b := by
  cases x with
  | error e => simp [Except.map]
  | ok a => simp [Except.map]

/-- Other errors, the same results. -/
theorem mapError_eq_ok {ε ε' α : Type} {f : ε → ε'} {x : Except ε α} {a : α} :
    x.mapError f = .ok a ↔ x = .ok a := by
  cases x with
  | error e => simp [Except.mapError]
  | ok b => simp [Except.mapError]

theorem toOption_bind {ε α β : Type} (x : Except ε α) (f : α → Except ε β) :
    (x >>= f).toOption = x.toOption.bind fun a => (f a).toOption := by
  cases x <;> rfl

theorem toOption_mapError {ε ε' α : Type} (f : ε → ε') (x : Except ε α) :
    (x.mapError f).toOption = x.toOption := by
  cases x <;> rfl

/-- What every step keeps holds at the end. -/
theorem foldlM_keeps {ε σ α : Type} {f : σ → α → Except ε σ} {P : σ → Prop} {l : List α}
    (step : ∀ a ∈ l, ∀ s s', P s → f s a = .ok s' → P s') {s s' : σ} (hs : P s)
    (h : l.foldlM f s = .ok s') : P s' := by
  induction l generalizing s with
  | nil => exact Except.ok.inj h ▸ hs
  | cons a rest ih =>
    rw [List.foldlM_cons, bind_eq_ok] at h
    obtain ⟨next, hnext, hrest⟩ := h
    have hkept := step a List.mem_cons_self s next hs hnext
    exact ih (fun b hb => step b (List.mem_cons_of_mem _ hb)) hkept hrest

/-- How a computation may end: well with a good result, or with an error that is due. -/
def Ends {ε α : Type} (good : α → Prop) (due : ε → Prop) : Except ε α → Prop
  | .ok a => good a
  | .error e => due e

namespace Ends

variable {ε σ α β : Type} {due : ε → Prop}

theorem bind {P : α → Prop} {good : β → Prop} {x : Except ε α} {f : α → Except ε β}
    (h : Ends P due x) (hf : ∀ a, P a → Ends good due (f a)) : Ends good due (x >>= f) := by
  cases x with
  | error e => exact h
  | ok a => exact hf a h

theorem imp {good good' : α → Prop} {due' : ε → Prop}
    {x : Except ε α} (h : Ends good due x) (hgood : ∀ a, good a → good' a)
    (hdue : ∀ e, due e → due' e) : Ends good' due' x := by
  cases x with
  | error e => exact hdue e h
  | ok a => exact hgood a h

/-- A good result is one that comes out. -/
theorem and_eq {good : α → Prop} {x : Except ε α} (h : Ends good due x) :
    Ends (fun a => good a ∧ x = .ok a) due x := by
  cases x with
  | error e => exact h
  | ok a => exact ⟨h, rfl⟩

theorem foldlM {good : σ → Prop} {f : σ → α → Except ε σ} {l : List α}
    (step : ∀ a ∈ l, ∀ s, good s → Ends good due (f s a)) {s : σ} (h : good s) :
    Ends good due (l.foldlM f s) := by
  induction l generalizing s with
  | nil => exact h
  | cons a rest ih =>
    rw [List.foldlM_cons]
    exact (step a List.mem_cons_self s h).bind fun _ hnext =>
      ih (fun b hb => step b (List.mem_cons_of_mem _ hb)) hnext

end Ends

/-- A fold that ends well keeps what every step keeps, and collects what every step adds. -/
theorem foldlM_ok {ε σ α : Type} {f : σ → α → Except ε σ} (Grows : σ → σ → Prop)
    (Added : α → σ → Prop) (refl : ∀ s, Grows s s)
    (trans : ∀ s s' s'', Grows s s' → Grows s' s'' → Grows s s'')
    (mono : ∀ a s s', Added a s → Grows s s' → Added a s') {l : List α}
    (step : ∀ a ∈ l, ∀ s s', f s a = .ok s' → Grows s s' ∧ Added a s') {s s' : σ}
    (h : l.foldlM f s = .ok s') : Grows s s' ∧ ∀ a ∈ l, Added a s' := by
  induction l generalizing s with
  | nil =>
    obtain rfl := Except.ok.inj h
    exact ⟨refl s, by simp⟩
  | cons a rest ih =>
    rw [List.foldlM_cons, bind_eq_ok] at h
    obtain ⟨next, hnext, hrest⟩ := h
    obtain ⟨hgrows, hadded⟩ := step a List.mem_cons_self s next hnext
    obtain ⟨hgrows', hall⟩ := ih (fun b hb => step b (List.mem_cons_of_mem _ hb)) hrest
    refine ⟨trans _ _ _ hgrows hgrows', fun b hb => ?_⟩
    rcases List.mem_cons.1 hb with rfl | hb
    · exact mono _ _ _ hadded hgrows'
    · exact hall b hb

namespace CompileM

variable {α β : Type} {n n' : Nat}

theorem bind_eq_ok {x : CompileM α} {f : α → CompileM β} {b : β} :
    (x >>= f) n = .ok (b, n') ↔ ∃ a k, x n = .ok (a, k) ∧ f a k = .ok (b, n') := by
  change (x n >>= fun out => f out.1 out.2) = .ok (b, n') ↔ _
  rw [Intake.bind_eq_ok]
  exact ⟨fun ⟨out, hx, hf⟩ => ⟨out.1, out.2, hx, hf⟩, fun ⟨a, k, hx, hf⟩ => ⟨(a, k), hx, hf⟩⟩

theorem ends_bind {due : BuildError → Prop} {P : α × Nat → Prop} {good : β × Nat → Prop}
    {x : CompileM α} {f : α → CompileM β} (h : Ends P due (x n))
    (hf : ∀ a k, P (a, k) → Ends good due (f a k)) : Ends good due ((x >>= f) n) :=
  Ends.bind (f := fun out => f out.1 out.2) h fun out => hf out.1 out.2

theorem ends_ofExcept {due : BuildError → Prop} {good : α → Prop} {r : Except BuildError α}
    (h : Ends good due r) : Ends (fun out => good out.1) due (ofExcept r n) := by
  cases r with
  | error e => exact h
  | ok a => exact h

theorem pure_eq_ok {a b : α} : (pure a : CompileM α) n = .ok (b, n') ↔ a = b ∧ n = n' := by
  change Except.ok (a, n) = .ok (b, n') ↔ _
  simp

theorem map_eq_ok {f : α → β} {x : CompileM α} {b : β} :
    (f <$> x) n = .ok (b, n') ↔ ∃ a, x n = .ok (a, n') ∧ f a = b := by
  rw [map_eq_pure_bind, bind_eq_ok]
  simp only [pure_eq_ok]
  exact ⟨fun ⟨a, k, hx, hf, hk⟩ => ⟨a, hk ▸ hx, hf⟩, fun ⟨a, hx, hf⟩ => ⟨a, n', hx, hf, rfl⟩⟩

theorem ofExcept_eq_ok {r : Except BuildError α} {a : α} :
    ofExcept r n = .ok (a, n') ↔ r = .ok a ∧ n = n' := by
  cases r with
  | error e => simp [ofExcept, Except.map]
  | ok v => simp [ofExcept, Except.map]

end CompileM

end Intake
