import RubyDoc.Reading

/-!
# Readings that do not look at the log

A reading adds to the log and never looks at it, so what it gives is the same
whatever was logged before. Each way to make a reading keeps this, and so it is with
readings that end without a fault. What a reading logs is not said here.
-/

namespace RubyDoc.Reading

variable {α β : Type}

theorem runWith_bind (a : Reading α) (f : α → Reading β) (log : Log) :
    (a >>= f).runWith log =
      match a.runWith log with
      | (.ok x, log') => (f x).runWith log'
      | (.error fault, log') => (.error fault, log') := by
  have hrun : (a >>= f).runWith log = ((ExceptT.run (a >>= f)).run log) := rfl
  rw [hrun, ExceptT.run_bind, StateT.run_bind]
  have hfirst : a.runWith log = (ExceptT.run a).run log := rfl
  rw [hfirst]
  cases h : (StateT.run (ExceptT.run a) log) with
  | mk result log' => cases result <;> rfl

/-- The result of one reading after another is one of the last, behind one of the first. -/
theorem exists_of_bind_ok {a : Reading α} {f : α → Reading β} {log : Log} {y : β}
    (h : ((a >>= f).runWith log).1 = .ok y) :
    ∃ x log', (a.runWith log).1 = .ok x ∧ ((f x).runWith log').1 = .ok y := by
  rw [runWith_bind] at h
  cases ha : a.runWith log with
  | mk result log' =>
    rw [ha] at h
    cases result with
    | error fault => cases h
    | ok x => exact ⟨x, log', rfl, h⟩

/-- A reading behind one that gave a result goes on with it. -/
theorem runWith_bind_of_ok {a : Reading α} {log : Log} {x : α} (h : (a.runWith log).1 = .ok x)
    (f : α → Reading β) : (a >>= f).runWith log = (f x).runWith (a.runWith log).2 := by
  rw [runWith_bind]
  cases ha : a.runWith log with
  | mk result log' =>
    rw [ha] at h
    dsimp only at h
    rw [h]

theorem ofExcept_ok_bind (a : α) (f : α → Reading β) : ofExcept (.ok a) >>= f = f a :=
  pure_bind a f

/-- Two readings give the same, whatever was logged before each of them. -/
def Agree (a b : Reading α) : Prop := ∀ log log', (a.runWith log).1 = (b.runWith log').1

/-- What a reading gives is the same whatever was logged before. -/
def IsSteady (a : Reading α) : Prop := ∀ log log', (a.runWith log).1 = (a.runWith log').1

/-- Readings one after the other give the same if each gives the same as its counterpart. -/
theorem Agree.bind {a b : Reading α} {f g : α → Reading β} (hab : Agree a b)
    (hfg : ∀ x, Agree (f x) (g x)) : Agree (a >>= f) (b >>= g) := by
  intro log log'
  have hsame := hab log log'
  rw [runWith_bind, runWith_bind]
  cases h : a.runWith log with
  | mk result rest =>
    cases h' : b.runWith log' with
    | mk result' rest' =>
      rw [h, h'] at hsame
      dsimp only at hsame
      subst hsame
      cases result with
      | ok x => exact hfg x rest rest'
      | error fault => rfl

theorem isSteady_pure (a : α) : IsSteady (pure a) := fun _ _ => rfl

theorem isSteady_throw (fault : Fault) : IsSteady (throw fault : Reading α) := fun _ _ => rfl

theorem isSteady_note (level : Level) (channel : Channel) (message : String) :
    IsSteady (note level channel message) := fun _ _ => rfl

theorem isSteady_ofExcept (result : Except Fault α) : IsSteady (ofExcept result) := by
  cases result with
  | ok a => exact isSteady_pure a
  | error fault => exact isSteady_throw fault

/-- Readings one after the other give the same if each of them does. -/
theorem IsSteady.bind {a : Reading α} {f : α → Reading β} (ha : IsSteady a)
    (hf : ∀ x, IsSteady (f x)) : IsSteady (a >>= f) :=
  Agree.bind ha hf

/-- Steady readings agree if they give the same after an empty log. -/
theorem IsSteady.agree {a b : Reading α} (ha : IsSteady a) (hb : IsSteady b)
    (h : (a.runWith []).1 = (b.runWith []).1) : Agree a b :=
  fun log log' => (ha log []).trans (h.trans (hb [] log'))

/-- A reading ends without a fault, whatever was logged before. -/
def Succeeds (a : Reading α) : Prop := ∀ log, ∃ x, (a.runWith log).1 = .ok x

theorem succeeds_pure (a : α) : Succeeds (pure a) := fun _ => ⟨a, rfl⟩

/-- Readings one after the other end without a fault if each of them does. -/
theorem Succeeds.bind {a : Reading α} {f : α → Reading β} (ha : Succeeds a)
    (hf : ∀ x, Succeeds (f x)) : Succeeds (a >>= f) := by
  intro log
  obtain ⟨x, hx⟩ := ha log
  rw [runWith_bind_of_ok hx]
  exact hf x (a.runWith log).2

end RubyDoc.Reading
