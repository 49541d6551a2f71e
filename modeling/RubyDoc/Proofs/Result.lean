import Mathlib.Data.List.Forall2

/-!
# Results of steps in a row

A row of steps gives a result if each of them does, and ends in what the first that fails ends
in. Steps may change a state; then the next one goes on from what the one before it left.
-/

namespace RubyDoc

variable {ε α β : Type}

/-- What comes out of one result after another comes out of the last, behind one of the
first. -/
theorem exists_of_bind_eq_ok {result : Except ε α} {f : α → Except ε β} {y : β}
    (h : result >>= f = .ok y) : ∃ x, result = .ok x ∧ f x = .ok y := by
  cases result with
  | error e => cases h
  | ok x => exact ⟨x, rfl, h⟩

/-- What is made of each of a row of things is made of them one by one. -/
theorem forall₂_of_mapM {f : α → Except ε β} {xs : List α} {ys : List β}
    (h : xs.mapM f = .ok ys) : List.Forall₂ (fun x y => f x = .ok y) xs ys := by
  induction xs generalizing ys with
  | nil =>
    rw [← Except.ok.inj h]
    exact .nil
  | cons x xs ih =>
    rw [List.mapM_cons] at h
    obtain ⟨y, hx, h⟩ := exists_of_bind_eq_ok h
    obtain ⟨rest, hxs, h⟩ := exists_of_bind_eq_ok h
    rw [← Except.ok.inj h]
    exact .cons hx (ih hxs)

/-- Something is made of all of them if something is made of each. -/
theorem exists_mapM_eq_ok {f : α → Except ε β} {xs : List α} (h : ∀ x ∈ xs, ∃ y, f x = .ok y) :
    ∃ ys, xs.mapM f = .ok ys := by
  induction xs with
  | nil => exact ⟨[], rfl⟩
  | cons x xs ih =>
    obtain ⟨⟨y, hx⟩, hrest⟩ := List.forall_mem_cons.mp h
    obtain ⟨ys, hxs⟩ := ih hrest
    refine ⟨y :: ys, ?_⟩
    rw [List.mapM_cons, hx, hxs]
    rfl

/-! ### Steps that change a state -/

section State

variable {σ : Type} {s s' : σ}

/-- A step goes on where the one before it gave a result. -/
theorem run_bind_ok {a : ExceptT ε (StateM σ) α} {x : α} (h : a.run.run s = (.ok x, s'))
    (f : α → ExceptT ε (StateM σ) β) : (a >>= f).run.run s = (f x).run.run s' := by
  rw [ExceptT.run_bind, StateT.run_bind, h]
  rfl

/-- Nothing follows a step that fails. -/
theorem run_bind_error {a : ExceptT ε (StateM σ) α} {e : ε} (h : a.run.run s = (.error e, s'))
    (f : α → ExceptT ε (StateM σ) β) : (a >>= f).run.run s = (.error e, s') := by
  rw [ExceptT.run_bind, StateT.run_bind, h]
  rfl

/-- What one step after another comes to is what the second does from where the first did. -/
theorem run_bind (a : ExceptT ε (StateM σ) α) (f : α → ExceptT ε (StateM σ) β) (s : σ) :
    (a >>= f).run.run s =
      match a.run.run s with
      | (.ok x, s') => (f x).run.run s'
      | (.error e, s') => (.error e, s') := by
  cases h : a.run.run s with
  | mk result s' =>
    cases result with
    | ok x => exact run_bind_ok h f
    | error e => exact run_bind_error h f

/-- What is done about a failure is done from the state that it left. -/
theorem run_tryCatch (a : ExceptT ε (StateM σ) α) (f : ε → ExceptT ε (StateM σ) α) (s : σ) :
    (tryCatch a f).run.run s =
      match a.run.run s with
      | (.ok x, s') => (.ok x, s')
      | (.error e, s') => (f e).run.run s' := by
  simp only [tryCatch, tryCatchThe, MonadExceptOf.tryCatch, ExceptT.tryCatch, ExceptT.mk,
    ExceptT.run, StateT.run, bind, StateT.bind]
  cases a s with
  | mk result s' => cases result <;> rfl

end State

end RubyDoc
