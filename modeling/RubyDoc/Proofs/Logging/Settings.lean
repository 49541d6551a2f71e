import RubyDoc.Proofs.Logging.Sections

/-!
# Following settings

Settings that are followed, as far as they can be, leave loggers that can write, if the handlers
that they describe can. What cannot be followed is a problem that writing in the long format
meets.
-/

namespace RubyDoc.Logging

namespace Step

variable {α β : Type}

/-- On some loggers a step leads to loggers that can write, and to contained problems only. -/
def StaysOn (a : Step α) (ls : Loggers) : Prop :=
  (runOn a ls).2.CanWrite ∧ FailsContained (runOn a ls).1

/-- A step that does so on all loggers that can write. -/
def StaysWritable (a : Step α) : Prop := ∀ ls : Loggers, ls.CanWrite → StaysOn a ls

theorem staysWritable_pure (x : α) : StaysWritable (pure x) := fun _ hls =>
  ⟨hls, failsContained_ok x⟩

theorem staysWritable_throw {problem : Problem} (h : problem.isContained = true) :
    StaysWritable (throw problem : Step α) := fun _ hls => ⟨hls, failsContained_error h⟩

theorem staysWritable_throw_bind {problem : Problem} (h : problem.isContained = true)
    (f : α → Step β) : StaysWritable (throw problem >>= f) := by
  intro ls hls
  rw [StaysOn, runOn_bind_error (runOn_throw problem ls)]
  exact ⟨hls, failsContained_error h⟩

theorem staysWritable_lift {result : Except Problem α} (h : FailsContained result) :
    StaysWritable (liftM result : Step α) := fun _ hls => ⟨hls, h⟩

theorem staysWritable_modify {f : Loggers → Loggers}
    (h : ∀ ls : Loggers, ls.CanWrite → (f ls).CanWrite) : StaysWritable (modify f) :=
  fun ls hls => ⟨h ls hls, failsContained_ok ()⟩

theorem StaysOn.bind {a : Step α} {f : α → Step β} {ls : Loggers} (ha : StaysOn a ls)
    (hf : ∀ x, (runOn a ls).1 = .ok x → StaysWritable (f x)) : StaysOn (a >>= f) ls := by
  obtain ⟨hcan, hcontained⟩ := ha
  cases hrun : runOn a ls with
  | mk result ls' =>
    rw [hrun] at hcan hcontained hf
    cases result with
    | error problem =>
      rw [StaysOn, runOn_bind_error hrun]
      exact ⟨hcan, failsContained_error (hcontained problem rfl)⟩
    | ok x =>
      rw [StaysOn, runOn_bind_ok hrun]
      exact hf x rfl ls' hcan

theorem StaysWritable.bind {a : Step α} {f : α → Step β} (ha : StaysWritable a)
    (hf : ∀ x, StaysWritable (f x)) : StaysWritable (a >>= f) := fun ls hls =>
  (ha ls hls).bind fun x _ => hf x

end Step

open Logging.Step

namespace Logger

variable {sections : Sections} {l : Logger}

theorem canWrite_addHandler {h : Handler} (hl : l.CanWrite) (hh : h.outlet.canWrite = true) :
    (l.addHandler h).CanWrite := by
  rw [addHandler]
  split
  · exact hl
  · intro other hmem
    rcases List.mem_append.mp hmem with hmem | hmem
    · exact hl other hmem
    · rw [List.mem_singleton.mp hmem]
      exact hh

theorem canWrite_addHandlers (hsections : sections.CanWrite) (hl : l.CanWrite) (keys : List Value) :
    (l.addHandlers sections keys).1.CanWrite := by
  induction keys generalizing l with
  | nil => exact hl
  | cons key rest ih =>
    rw [addHandlers]
    split
    · next h hfound =>
      obtain ⟨k, hmem⟩ := mem_of_underKey? hfound
      exact ih (canWrite_addHandler hl (hsections _ hmem))
    · exact hl

theorem handlers_addFilters (l : Logger) (keys : List Value) :
    (l.addFilters sections keys).1.handlers = l.handlers := by
  induction keys generalizing l with
  | nil => rfl
  | cons key rest ih =>
    rw [addFilters]
    split
    · exact ih _
    · rfl

/-- A logger that is changed has handlers of its own or of the sections. -/
theorem canWrite_follow (hsections : sections.CanWrite) (hl : l.CanWrite) (levelOnly : Bool)
    (config : Value) : (l.follow sections levelOnly config).1.CanWrite := by
  rw [follow.eq_def]
  split
  · split
    · exact hl
    · next level _ =>
      split
      · exact hl
      · have hbare : Logger.CanWrite { l with level := level.getD l.level, handlers := [] } := nofun
        dsimp only
        split
        · exact hbare
        · next keys _ =>
          have hadded := canWrite_addHandlers hsections hbare keys
          split
          · exact hadded
          · split
            · exact hadded
            · rw [CanWrite, handlers_addFilters]
              exact hadded
  · exact hl

end Logger

namespace Loggers

variable {ls : Loggers}

theorem mem_putNamed {name : String} {l : Logger} {entries : List (String × Logger)}
    {e : String × Logger} (h : e ∈ putNamed name l entries) : e ∈ entries ∨ e.2 = l := by
  induction entries with
  | nil =>
    rw [List.mem_singleton.mp h]
    exact .inr rfl
  | cons first rest ih =>
    rw [putNamed] at h
    split at h
    · rcases List.mem_cons.mp h with rfl | h
      · exact .inr rfl
      · exact .inl (List.mem_cons_of_mem _ h)
    · rcases List.mem_cons.mp h with rfl | h
      · exact .inl List.mem_cons_self
      · exact (ih h).imp_left (List.mem_cons_of_mem _)

theorem CanWrite.put (h : ls.CanWrite) {l : Logger} (hl : l.CanWrite) (name : String) :
    (ls.put name l).CanWrite := by
  rw [Loggers.put]
  split
  · exact ⟨hl, h.named, h.targets⟩
  · refine ⟨h.root, fun e he => ?_, h.targets⟩
    rcases mem_putNamed he with he | he
    · exact h.named e he
    · rw [he]
      exact hl

end Loggers

theorem staysWritable_followLogger {sections : Sections} (hsections : sections.CanWrite)
    (levelOnly : Bool) (key config : Value) :
    StaysWritable (followLogger sections levelOnly key config) := by
  intro ls hls
  rw [followLogger.eq_def]
  split
  · exact staysWritable_throw rfl ls hls
  · next name _ =>
    have hcan := Logger.canWrite_follow hsections (hls.get name) levelOnly config
    rw [StaysOn, runOn_get_bind]
    dsimp only
    split
    · rw [runOn_set]
      refine ⟨hls.put ?_ name, failsContained_ok ()⟩
      exact hcan
    · exact ⟨hls.put hcan name, failsContained_error rfl⟩

theorem staysWritable_followLoggers {sections : Sections} (hsections : sections.CanWrite)
    (levelOnly : Bool) (entries : List (Value × Value)) :
    StaysWritable (followLoggers sections levelOnly entries) := by
  induction entries with
  | nil => exact staysWritable_pure ()
  | cons e rest ih =>
    exact (staysWritable_followLogger hsections levelOnly e.1 e.2).bind fun _ => ih

theorem staysWritable_followRoot {sections : Sections} (hsections : sections.CanWrite)
    (levelOnly : Bool) (entries : List (Value × Value)) :
    StaysWritable (followRoot sections levelOnly entries) := by
  intro ls hls
  rw [followRoot]
  split
  · exact staysWritable_pure () ls hls
  · next config _ =>
    have hcan := Logger.canWrite_follow hsections hls.root levelOnly config
    have hnext : Loggers.CanWrite
        { ls with root := (ls.root.follow sections levelOnly config).1 } :=
      ⟨hcan, hls.named, hls.targets⟩
    rw [StaysOn, runOn_get_bind]
    dsimp only
    rw [runOn_bind_ok (runOn_set _ ls)]
    split
    · exact ⟨hnext, failsContained_error rfl⟩
    · exact ⟨hnext, failsContained_ok ()⟩

/-- A logger that was there before keeps its handlers or loses them. -/
theorem canWrite_settleExisting {l : Logger} (hl : l.CanWrite) (named : List String)
    (disable : Bool) (name : String) : (settleExisting named disable name l).CanWrite := by
  rw [settleExisting]
  split
  · exact hl
  · split
    · exact nofun
    · exact hl

/-- **Following settings.** Loggers that can write stay so, if the handlers that the settings
describe can write, and what cannot be followed is a contained problem. -/
theorem staysWritable_follow (w : Workspace) {entries : List (Value × Value)}
    (hdescribe : DescribeWriters entries) : StaysWritable (follow w entries) := by
  have hnone : Sections.CanWrite {} := nofun
  rw [follow]
  split
  · exact staysWritable_throw_bind rfl _
  dsimp only
  split
  · refine (staysWritable_lift (failsContained_sectionEntries _ _)).bind fun inner => ?_
    have hrest : StaysWritable (do
        followLoggers {} true (← sectionEntries entries "loggers")
        followRoot {} true entries) :=
      (staysWritable_lift (failsContained_sectionEntries _ _)).bind fun loggers =>
        (staysWritable_followLoggers hnone true loggers).bind fun _ =>
          staysWritable_followRoot hnone true entries
    split
    · exact staysWritable_throw_bind rfl _
    · exact hrest
  · intro ls hls
    rw [StaysOn, runOn_get_bind]
    refine StaysOn.bind (staysWritable_lift (failsContained_readSections w entries) ls hls) ?_
    intro sections hread
    have hsections := canWrite_of_readSections hdescribe hread
    refine StaysWritable.bind (staysWritable_modify ?_) fun _ => ?_
    · exact fun ls hls => ⟨hls.root, hls.named, hsections⟩
    refine (staysWritable_lift (failsContained_sectionEntries _ _)).bind fun loggers => ?_
    refine (staysWritable_followLoggers hsections false loggers).bind fun _ => ?_
    refine StaysWritable.bind (staysWritable_modify fun ls hls => ⟨hls.root, ?_, hls.targets⟩)
      fun _ => staysWritable_followRoot hsections false entries
    intro e he
    obtain ⟨old, hold, rfl⟩ := List.mem_map.mp he
    split
    · exact canWrite_settleExisting (hls.named old hold) _ _ _
    · exact hls.named old hold

end RubyDoc.Logging
