import RubyDoc.Logging.Logger
import RubyDoc.Proofs.Lookup
import RubyDoc.Proofs.Result

/-!
# Writing of records

Records can be written, and handlers taken away, where every handler says what to do with a
record and every bound of a buffer is one that numbers compare to. Such a step gives a result.
It changes what is written and what handlers keep back, but no logger and no handler.
-/

namespace RubyDoc.Logging

/-! ### Running steps -/

namespace Step

variable {α β : Type}

/-- The result of a step on loggers, and the loggers after it. -/
def runOn (a : Step α) (ls : Loggers) : Except Problem α × Loggers := a.run.run ls

@[simp] theorem runOn_pure (a : α) (ls : Loggers) : runOn (pure a) ls = (.ok a, ls) := rfl

@[simp] theorem runOn_throw (problem : Problem) (ls : Loggers) :
    runOn (throw problem : Step α) ls = (.error problem, ls) := rfl

@[simp] theorem runOn_set (ls' ls : Loggers) : runOn (set ls') ls = (.ok (), ls') := rfl

@[simp] theorem runOn_modify (f : Loggers → Loggers) (ls : Loggers) :
    runOn (modify f) ls = (.ok (), f ls) := rfl

/-- What is known without the loggers leaves them alone. -/
@[simp] theorem runOn_lift (result : Except Problem α) (ls : Loggers) :
    runOn (liftM result : Step α) ls = (result, ls) := rfl

/-- To look at the loggers first changes nothing. -/
@[simp] theorem runOn_get_bind (f : Loggers → Step α) (ls : Loggers) :
    runOn (get >>= f) ls = runOn (f ls) ls := rfl

theorem runOn_bind (a : Step α) (f : α → Step β) (ls : Loggers) :
    runOn (a >>= f) ls =
      match runOn a ls with
      | (.ok x, ls') => runOn (f x) ls'
      | (.error problem, ls') => (.error problem, ls') := by
  unfold runOn
  rw [run_bind]
  cases a.run.run ls with
  | mk result ls' => cases result <;> rfl

/-- A step goes on where the one before it gave a result. -/
theorem runOn_bind_ok {a : Step α} {ls ls' : Loggers} {x : α} (h : runOn a ls = (.ok x, ls'))
    (f : α → Step β) : runOn (a >>= f) ls = runOn (f x) ls' := by
  rw [runOn_bind, h]

/-- A step that meets a problem ends what it begins. -/
theorem runOn_bind_error {a : Step α} {ls ls' : Loggers} {problem : Problem}
    (h : runOn a ls = (.error problem, ls')) (f : α → Step β) :
    runOn (a >>= f) ls = (.error problem, ls') := by
  rw [runOn_bind, h]

/-- A problem that is caught is dealt with where it was met. -/
theorem runOn_tryCatch (a : Step α) (handle : Problem → Step α) (ls : Loggers) :
    runOn (tryCatch a handle) ls =
      match runOn a ls with
      | (.ok x, ls') => (.ok x, ls')
      | (.error problem, ls') => runOn (handle problem) ls' := by
  unfold runOn
  rw [run_tryCatch]
  cases a.run.run ls with
  | mk result ls' => cases result <;> rfl

end Step

/-! ### Loggers that can write -/

/-- Whether numbers compare to a value. -/
def isBound : Value → Bool
  | .int _ | .bool _ | .real _ => true
  | _ => false

theorem exists_reaches {v : Value} (h : isBound v = true) (n : Nat) :
    ∃ due, reaches? n v = some due := by
  cases v <;> first | exact ⟨_, rfl⟩ | cases h

/-- Whether it can be told when a buffer is due. -/
def Buffer.isBounded (b : Buffer) : Bool := isBound b.capacity && b.urgency.all isBound

theorem Buffer.exists_isDue {b : Buffer} (h : b.isBounded = true) (count : Nat) (r : Record) :
    ∃ due, b.isDue? count r = some due := by
  rw [isBounded, Bool.and_eq_true] at h
  obtain ⟨full, hfull⟩ := exists_reaches h.1 count
  rw [isDue?, hfull]
  cases full with
  | true => exact ⟨true, rfl⟩
  | false =>
    cases hlevel : b.urgency with
    | none => exact ⟨false, rfl⟩
    | some level =>
      rw [hlevel] at h
      exact exists_reaches h.2 r.level

/-- Whether it is said what to do with records, so that it can be done. -/
def Outlet.canWrite : Outlet → Bool
  | errorStream | elsewhere => true
  | buffer b => b.isBounded
  | undefined => false

/-- All handlers of a logger can write. -/
def Logger.CanWrite (l : Logger) : Prop := ∀ h ∈ l.handlers, h.outlet.canWrite = true

/-- All handlers can write. -/
structure Loggers.CanWrite (ls : Loggers) : Prop where
  /-- The handlers of the root. -/
  root : ls.root.CanWrite
  /-- The handlers of the other loggers. -/
  named : ∀ e ∈ ls.named, e.2.CanWrite
  /-- The handlers that records are handed on to. -/
  targets : ∀ e ∈ ls.handlers, e.2.outlet.canWrite = true

/-- Two states of logging differ in what is written and what is kept back only. -/
structure Loggers.SameSettings (ls ls' : Loggers) : Prop where
  /-- The roots are the same. -/
  root : ls.root = ls'.root
  /-- The other loggers are the same. -/
  named : ls.named = ls'.named
  /-- The handlers are the same. -/
  handlers : ls.handlers = ls'.handlers

namespace Loggers

variable {ls ls' : Loggers}

theorem SameSettings.refl (ls : Loggers) : ls.SameSettings ls := ⟨rfl, rfl, rfl⟩

theorem SameSettings.trans {ls'' : Loggers} (h : ls.SameSettings ls') (h' : ls'.SameSettings ls'') :
    ls.SameSettings ls'' :=
  ⟨h.root.trans h'.root, h.named.trans h'.named, h.handlers.trans h'.handlers⟩

theorem sameSettings_putWaiting (ls : Loggers) (key : Value) (records : List Record) :
    ls.SameSettings (ls.putWaiting key records) := ⟨rfl, rfl, rfl⟩

theorem CanWrite.of_same (h : ls.CanWrite) (hsame : ls.SameSettings ls') : ls'.CanWrite where
  root := hsame.root ▸ h.root
  named := hsame.named ▸ h.named
  targets := hsame.handlers ▸ h.targets

/-- Loggers that nothing is configured for can write. -/
theorem canWrite_ofNames (names : List String) : (ofNames names).CanWrite where
  root := nofun
  named := fun e he => by
    obtain ⟨n, -, rfl⟩ := List.mem_map.mp he
    exact nofun
  targets := nofun

/-- The logger of a name has handlers that can write. -/
theorem CanWrite.get (h : ls.CanWrite) (name : String) : (ls.get name).CanWrite := by
  rw [Loggers.get]
  split
  · exact h.root
  · cases hfound : ls.named.lookup name with
    | none => exact nofun
    | some l => exact h.named _ (mem_of_lookup_eq_some hfound)

/-- So have the loggers that a record goes up through. -/
theorem CanWrite.chain (h : ls.CanWrite) (name : String) : ∀ l ∈ ls.chain name, l.CanWrite := by
  intro l hl
  rw [Loggers.chain] at hl
  split at hl
  · rw [List.mem_singleton.mp hl]
    exact h.root
  · rcases List.mem_append.mp hl with hl | hl
    · rcases List.mem_cons.mp hl with rfl | hl
      · exact h.get name
      · obtain ⟨n, -, hfound⟩ := List.mem_filterMap.mp hl
        exact h.named _ (mem_of_lookup_eq_some hfound)
    · rw [List.mem_singleton.mp hl]
      exact h.root

/-- The handlers that are met on the way up are handlers of its loggers. -/
theorem exists_of_mem_handlersOn {handler : Handler} {chain : List Logger}
    (h : handler ∈ handlersOn chain) : ∃ l ∈ chain, handler ∈ l.handlers := by
  induction chain with
  | nil => cases h
  | cons l above ih =>
    rw [handlersOn] at h
    rcases List.mem_append.mp h with h | h
    · exact ⟨l, List.mem_cons_self, h⟩
    · split at h
      · obtain ⟨l', hl', hmem⟩ := ih h
        exact ⟨l', List.mem_cons_of_mem _ hl', hmem⟩
      · cases h

end Loggers

/-! ### Steps that only write -/

namespace Step

variable {α β : Type} {ls : Loggers}

/-- On some loggers a step gives a result and changes no logger and no handler. -/
def WritesOn (a : Step α) (ls : Loggers) : Prop :=
  ∃ x ls', runOn a ls = (.ok x, ls') ∧ ls.SameSettings ls'

/-- A step that does so on all loggers that can write. -/
def OnlyWrites (a : Step α) : Prop := ∀ ls : Loggers, ls.CanWrite → WritesOn a ls

theorem onlyWrites_pure (a : α) : OnlyWrites (pure a) := fun ls _ => ⟨a, ls, rfl, .refl ls⟩

theorem onlyWrites_modify {f : Loggers → Loggers} (h : ∀ ls : Loggers, ls.SameSettings (f ls)) :
    OnlyWrites (modify f) := fun ls _ => ⟨(), f ls, rfl, h ls⟩

theorem OnlyWrites.bind {a : Step α} {f : α → Step β} (ha : OnlyWrites a)
    (hf : ∀ x, OnlyWrites (f x)) : OnlyWrites (a >>= f) := by
  intro ls hls
  obtain ⟨x, ls₁, hrun, hsame⟩ := ha ls hls
  obtain ⟨y, ls₂, hrun', hsame'⟩ := hf x ls₁ (hls.of_same hsame)
  exact ⟨y, ls₂, (runOn_bind_ok hrun f).trans hrun', hsame.trans hsame'⟩

theorem onlyWrites_forM {items : List α} {f : α → Step Unit} (h : ∀ x ∈ items, OnlyWrites (f x)) :
    OnlyWrites (items.forM f) := by
  induction items with
  | nil => exact onlyWrites_pure ()
  | cons x rest ih =>
    obtain ⟨hx, hrest⟩ := List.forall_mem_cons.mp h
    exact hx.bind fun _ => ih hrest

theorem OnlyWrites.when {a : Step Unit} (ha : OnlyWrites a) (c : Bool) :
    OnlyWrites (if c = true then a else pure ()) := by
  split
  · exact ha
  · exact onlyWrites_pure ()

end Step

open Logging.Step

section Buffers

variable {write : Handler → Record → Step Unit} {b : Buffer}
  (hwrite : ∀ (target : Handler) (r : Record), target.outlet.canWrite = true →
    OnlyWrites (write target r))

include hwrite

/-- A buffer hands its records on. -/
theorem onlyWrites_handOn (key : Value) : OnlyWrites (b.handOn write key) := by
  intro ls hls
  rw [Buffer.handOn, WritesOn, runOn_get_bind]
  split
  · exact onlyWrites_pure () ls hls
  · next target htarget =>
    obtain ⟨k, -, hfound⟩ := Option.bind_eq_some_iff.mp htarget
    have hcan := hls.targets _ (mem_of_lookup_eq_some hfound)
    have hall : OnlyWrites ((ls.waitingFor key).forM fun r =>
        if target.lets r = true then write target r else pure ()) :=
      onlyWrites_forM fun r _ => (hwrite target r hcan).when _
    exact hall.bind (fun _ => onlyWrites_modify fun ls => ls.sameSettings_putWaiting key []) ls hls

/-- A buffer takes a record if it can be told when it is due. -/
theorem onlyWrites_take (hb : b.isBounded = true) (key : Value) (r : Record) :
    OnlyWrites (b.take write key r) := by
  intro ls hls
  have hsame := ls.sameSettings_putWaiting key (ls.waitingFor key ++ [r])
  obtain ⟨due, hdue⟩ := b.exists_isDue hb (ls.waitingFor key ++ [r]).length r
  rw [Buffer.take, WritesOn, runOn_get_bind, runOn_bind_ok (runOn_set _ ls), hdue]
  obtain ⟨x, ls', hrun, hsame'⟩ := (onlyWrites_handOn hwrite key).when due _ (hls.of_same hsame)
  exact ⟨x, ls', hrun, hsame.trans hsame'⟩

end Buffers

namespace Handler

/-- A handler that can write deals with a record, however far it may be handed on. -/
theorem onlyWrites_emit (fuel : Nat) {h : Handler} (hcan : h.outlet.canWrite = true) (r : Record) :
    OnlyWrites (h.emit fuel r) := by
  induction fuel generalizing h r with
  | zero => exact onlyWrites_pure ()
  | succ fuel ih =>
    rw [emit]
    cases hout : h.outlet with
    | errorStream => exact onlyWrites_modify fun _ => ⟨rfl, rfl, rfl⟩
    | elsewhere => exact onlyWrites_pure ()
    | undefined =>
      rw [hout] at hcan
      cases hcan
    | buffer b =>
      rw [hout] at hcan
      exact onlyWrites_take (fun target r htarget => ih htarget r) hcan h.key r

theorem onlyWrites_handle {h : Handler} (hcan : h.outlet.canWrite = true) (r : Record) :
    OnlyWrites (h.handle r) := by
  rw [handle]
  split
  · intro ls hls
    rw [WritesOn, runOn_get_bind]
    exact onlyWrites_emit _ hcan r ls hls
  · exact onlyWrites_pure ()

/-- A handler is taken away; what it keeps back goes to handlers that can write. -/
theorem onlyWrites_close (h : Handler) : OnlyWrites h.close := by
  rw [close]
  split
  · next b _ =>
    intro ls hls
    have hwrite : ∀ (target : Handler) (r : Record), target.outlet.canWrite = true →
        OnlyWrites (emit ls.handlers.length target r) := fun _ r htarget =>
      onlyWrites_emit _ htarget r
    split
    · exact onlyWrites_handOn hwrite h.key ls hls
    · exact onlyWrites_pure () ls hls
  · exact onlyWrites_pure ()

end Handler

namespace Loggers

/-- Records are written. -/
theorem onlyWrites_write (r : Record) : OnlyWrites (write r) := by
  intro ls hls
  have hlast : Handler.lastResort.outlet.canWrite = true := rfl
  have hmet : ∀ h ∈ handlersOn (ls.chain r.logger), h.outlet.canWrite = true := by
    intro h hmem
    obtain ⟨l, hl, hh⟩ := exists_of_mem_handlersOn hmem
    exact hls.chain r.logger l hl h hh
  rw [WritesOn, write]
  dsimp only [getThe, runOn_get_bind]
  rw [← WritesOn]
  refine OnlyWrites.when ?_ (ls.takes r) ls hls
  split
  · split
    · exact Handler.onlyWrites_handle hlast r
    · exact onlyWrites_pure ()
  · refine onlyWrites_forM fun h hh => ?_
    split
    · exact Handler.onlyWrites_handle (hmet h hh) r
    · exact onlyWrites_pure ()

theorem onlyWrites_writeAll (log : Log) : OnlyWrites (writeAll log) :=
  onlyWrites_forM fun _ _ => onlyWrites_write _

end Loggers

end RubyDoc.Logging
