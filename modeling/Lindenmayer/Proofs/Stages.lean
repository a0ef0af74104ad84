/-!
# Stages that may fail

What a result that came about in stages says of each of them: all succeeded, or the first that
failed gave its error. That a result is there can be evaluated even where what it holds cannot, such
as the sines and cosines in a drawing.
-/
namespace Lindenmayer

variable {ε α β : Type} {x : Except ε α} {f : α → Except ε β}

/-- Two stages succeed if the first does and the second does with its result. -/
theorem bind_ok {b : β} (h : (x >>= f) = .ok b) : ∃ a, x = .ok a ∧ f a = .ok b := by
  cases x with
  | error e => cases h
  | ok a => exact ⟨a, rfl, h⟩

theorem bind_error {e : ε} (h : (x >>= f) = .error e) :
    x = .error e ∨ ∃ a, x = .ok a ∧ f a = .error e := by
  cases x with
  | error fault => exact Or.inl (congrArg Except.error (Except.error.inj h))
  | ok a => exact Or.inr ⟨a, rfl, h⟩

theorem map_ok {g : α → β} {b : β} (h : x.map g = .ok b) : ∃ a, x = .ok a ∧ g a = b := by
  cases x with
  | error e => cases h
  | ok a => exact ⟨a, rfl, Except.ok.inj h⟩

theorem mapError_ok {g : ε → β} {a : α} (h : x.mapError g = .ok a) : x = .ok a := by
  cases x with
  | error fault => cases h
  | ok a => exact congrArg Except.ok (Except.ok.inj h)

theorem error_of_mapError {g : ε → β} {e : β} (h : x.mapError g = .error e) :
    ∃ fault, x = .error fault ∧ g fault = e := by
  cases x with
  | error fault => exact ⟨fault, rfl, Except.error.inj h⟩
  | ok a => cases h

theorem exists_ok_of_isOk (h : x.isOk = true) : ∃ a, x = .ok a := by
  cases x with
  | error e => cases h
  | ok a => exact ⟨a, rfl⟩

/-! The same of a stage that leaves a state behind, however it ends. -/

theorem exists_eq_ok_of_isOk {σ : Type} {r : Except ε α × σ} (h : r.1.isOk = true) :
    ∃ a, r = (.ok a, r.2) := by
  obtain ⟨a, ha⟩ := exists_ok_of_isOk h
  exact ⟨a, Prod.ext ha rfl⟩

theorem exists_eq_error_of_isOk {σ : Type} {r : Except ε α × σ} (h : r.1.isOk = false) :
    ∃ e, r = (.error e, r.2) := by
  obtain ⟨x, s⟩ := r
  cases x with
  | error e => exact ⟨e, rfl⟩
  | ok a => cases h

/-- Two stages that fail with the same error or come to results that are related. -/
inductive Alike {α' : Type} (R : α → α' → Prop) : Except ε α → Except ε α' → Prop
  | failed (e : ε) : Alike R (.error e) (.error e)
  | came {a : α} {a' : α'} (h : R a a') : Alike R (.ok a) (.ok a')

section Alike

variable {α' β' : Type} {R : α → α' → Prop} {S : β → β' → Prop} {y : Except ε α'}
  {f' : α' → Except ε β'}

theorem Alike.bind (h : Alike R x y) (hf : ∀ {a a'}, R a a' → Alike S (f a) (f' a')) :
    Alike S (x >>= f) (y >>= f') := by
  cases h with
  | failed e => exact .failed e
  | came hr => exact hf hr

theorem Alike.map {g : α → β} {g' : α' → β'} (h : Alike R x y)
    (hg : ∀ {a a'}, R a a' → S (g a) (g' a')) : Alike S (x.map g) (y.map g') := by
  cases h with
  | failed e => exact .failed e
  | came hr => exact .came (hg hr)

theorem Alike.mapError {ε' : Type} (h : Alike R x y) (g : ε → ε') :
    Alike R (x.mapError g) (y.mapError g) := by
  cases h with
  | failed e => exact .failed (g e)
  | came hr => exact .came hr

theorem alike_map {g : α → β} {g' : α → β'} (hg : ∀ a, S (g a) (g' a)) :
    Alike S (x.map g) (x.map g') := by
  cases x with
  | error e => exact .failed e
  | ok a => exact .came (hg a)

end Alike

end Lindenmayer
