import RubyDoc.Records

/-!
# Running actions

Taking an action on records gives a result and the records after it. This module
says what each primitive action does to records, so that larger actions are run
by rewriting. The log is one of the records; that it only grows is not said here.
-/

namespace RubyDoc.Action

variable {α β : Type}

/-- The result of an action on records, and the records after it. -/
def runOn (a : Action α) (r : Records) : Except Fault α × Records := a.run.run r

@[simp] theorem runOn_pure (a : α) (r : Records) : runOn (pure a) r = (.ok a, r) := rfl

@[simp] theorem runOn_throw (fault : Fault) (r : Records) :
    runOn (throw fault : Action α) r = (.error fault, r) := rfl

theorem runOn_bind (a : Action α) (f : α → Action β) (r : Records) :
    runOn (a >>= f) r =
      match runOn a r with
      | (.ok x, r') => runOn (f x) r'
      | (.error fault, r') => (.error fault, r') := by
  unfold runOn
  rw [ExceptT.run_bind, StateT.run_bind]
  cases h : (StateT.run (ExceptT.run a) r) with
  | mk result r' => cases result <;> rfl

/-- An action goes on where the one before it gave a result. -/
theorem runOn_bind_ok {a : Action α} {r r' : Records} {x : α} (h : runOn a r = (.ok x, r'))
    (f : α → Action β) : runOn (a >>= f) r = runOn (f x) r' := by
  rw [runOn_bind, h]

/-- An action that ends in a fault ends what it begins. -/
theorem runOn_bind_error {a : Action α} {r r' : Records} {fault : Fault}
    (h : runOn a r = (.error fault, r')) (f : α → Action β) :
    runOn (a >>= f) r = (.error fault, r') := by
  rw [runOn_bind, h]

/-- What one action after another comes to is what the second does from where the first did. -/
theorem exists_of_runOn_bind_ok {a : Action α} {f : α → Action β} {r r'' : Records} {y : β}
    (h : runOn (a >>= f) r = (.ok y, r'')) :
    ∃ x r', runOn a r = (.ok x, r') ∧ runOn (f x) r' = (.ok y, r'') := by
  rw [runOn_bind] at h
  cases ha : runOn a r with
  | mk result r' =>
    rw [ha] at h
    cases result with
    | error fault => cases h
    | ok x => exact ⟨x, r', rfl, h⟩

/-- What is made of the result of an action. -/
theorem runOn_map_ok {a : Action α} {r r' : Records} {x : α} (h : runOn a r = (.ok x, r'))
    (f : α → β) : runOn (f <$> a) r = (.ok (f x), r') := by
  rw [map_eq_pure_bind, runOn_bind_ok h, runOn_pure]

@[simp] theorem runOn_get (r : Records) : runOn get r = (.ok r, r) := rfl

@[simp] theorem runOn_set (r r' : Records) : runOn (set r') r = (.ok (), r') := rfl

@[simp] theorem runOn_modify (f : Records → Records) (r : Records) :
    runOn (modify f) r = (.ok (), f r) := rfl

@[simp] theorem runOn_note (level : Level) (channel : Channel) (message : String) (r : Records) :
    runOn (note level channel message) r =
      (.ok (), { r with log := r.log ++ [{ level, channel, message }] }) := rfl

@[simp] theorem runOn_ofExcept (result : Except Fault α) (r : Records) :
    runOn (ofExcept result) r = (result, r) := by
  cases result <;> rfl

@[simp] theorem runOn_inStore (f : Store → α) (r : Records) :
    runOn (inStore f) r = (.ok (f r.store), r) := rfl

@[simp] theorem runOn_changeStore (f : Store → Store) (r : Records) :
    runOn (changeStore f) r = (.ok (), { r with store := f r.store }) := rfl

/-- A reading gives its result and adds to the log. -/
@[simp] theorem runOn_ofReading (reading : Reading α) (r : Records) :
    runOn (ofReading reading) r =
      ((reading.runWith r.log).1, { r with log := (reading.runWith r.log).2 }) := by
  have hr : runOn (ofReading reading) r =
      runOn (ofExcept (reading.runWith r.log).1) { r with log := (reading.runWith r.log).2 } := rfl
  rw [hr, runOn_ofExcept]

/-- A guarded action always gives a result; a fault is one log entry more. -/
theorem runOn_guarded (channel : Channel) (message : String) (action : Action Unit) (r : Records) :
    runOn (guarded channel message action) r =
      match runOn action r with
      | (.ok (), r') => (.ok (), r')
      | (.error _, r') =>
        (.ok (), { r' with log := r'.log ++ [{ level := .warning, channel, message }] }) := by
  unfold guarded runOn
  simp only [tryCatch, tryCatchThe, MonadExceptOf.tryCatch, ExceptT.tryCatch, ExceptT.mk,
    ExceptT.run, StateT.run, bind, StateT.bind]
  cases action r with
  | mk result r' => cases result <;> rfl

/-- Registering an entity attaches it to the store, which may fail. -/
theorem runOn_register (e : Entity) (known : Bool) (r : Records) :
    runOn (register e known) r =
      match r.store.attach e with
      | .error fault => (.error fault, r)
      | .ok store =>
        (.ok (), { r with
          store
          log := if !known && r.store.contains e.path then
            r.log ++ [{ level := .debug, channel := .store
                        message := "Replacing documentation object " ++ e.path }]
            else r.log }) := by
  unfold register
  rw [runOn_bind_ok (runOn_get r)]
  cases hattach : r.store.attach e with
  | error fault => rw [runOn_bind_error (runOn_ofExcept _ r)]
  | ok store =>
    rw [runOn_bind_ok (runOn_ofExcept _ r)]
    split <;> rfl

/-- Revising a method changes it in the store and gives it changed. -/
@[simp] theorem runOn_revise (method : Entity) (f : Entity → Entity) (r : Records) :
    runOn (revise method f) r =
      (.ok (f method), { r with store := r.store.editMethod method.path f }) := rfl

end RubyDoc.Action
