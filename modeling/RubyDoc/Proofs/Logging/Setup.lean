import RubyDoc.Proofs.Logging.Override

/-!
# Setting up logging

Logging is set up as the settings say, or in the long format where they cannot be followed.
A request comes to neither if the level is the name of another setting, or if the file cannot be
given a value for other reasons than bad bytes or unknown words. Where a level is to be put into
the settings there are three more reasons: the loggers are named by a place that there is not,
are a map that gets longer while it is gone through, or the handlers are no map.
-/

namespace RubyDoc.Logging

open Logging.Step

variable {word : String} {load : Yaml.Load} {d : Yaml.Document}

/-! ### Words for levels -/

/-- The words in capitals that name settings of other kinds than levels. -/
def foreignWords : List String := ["BASIC_FORMAT", "_STYLES"]

/-- The name of a level is a word in capitals. -/
theorem of_ofName? {name : String} (h : (Level.ofName? name).isSome = true) :
    capitals name = name ∧ name ∉ foreignWords ∧ name ≠ "" := by
  unfold Level.ofName? at h
  split at h
  any_goals decide +kernel
  cases h

theorem exists_basicLevel (h : capitals word ∉ foreignWords) :
    ∃ level, basicLevel word = .ok level := by
  rw [basicLevel]
  split
  · next heq => exact absurd (heq ▸ List.mem_cons_self) h
  · next heq => exact absurd (heq ▸ List.mem_cons_of_mem _ List.mem_cons_self) h
  · exact ⟨_, rfl⟩

theorem exists_basicLevel_eq_error (h : capitals word ∈ foreignWords) :
    ∃ problem, basicLevel word = .error problem := by
  rw [basicLevel]
  rcases List.mem_pair.mp h with heq | heq <;> rw [heq] <;> exact ⟨_, rfl⟩

/-- The word that stands for none is not such a word. -/
theorem capitals_wordOr_mem_iff (word : String) :
    capitals (wordOr word) ∈ foreignWords ↔ capitals word ∈ foreignWords := by
  rw [wordOr]
  split
  · next hempty =>
    rw [beq_iff_eq.mp hempty]
    decide +kernel
  · exact Iff.rfl

/-! ### Writing in the long format -/

/-- The root writes all records of a level in the long format. -/
structure Loggers.WritesLong (level : Level) (ls : Loggers) : Prop where
  /-- The level of the root. -/
  level : ls.root.level = .ofLevel level
  /-- Its one handler. -/
  handlers : ls.root.handlers = [{ format := some longFormat }]

variable {ls : Loggers}

/-- The handlers of the root are taken away, and then the word has to stand for a level. -/
theorem runOn_writeLong (word : String) (hls : ls.CanWrite) :
    ∃ ls₁ : Loggers, ls₁.CanWrite ∧ runOn (writeLong word) ls =
      match basicLevel word with
      | .error problem => (.error problem, ls₁)
      | .ok level =>
        (.ok (), { ls₁ with
          root := { ls₁.root with
            level := .ofLevel level, handlers := [{ format := some longFormat }] } }) := by
  have hbare : Loggers.CanWrite { ls with root := { ls.root with handlers := [] } } :=
    ⟨nofun, hls.named, hls.targets⟩
  have hclosed : OnlyWrites (ls.root.handlers.forM Handler.close) :=
    onlyWrites_forM fun h _ => Handler.onlyWrites_close h
  obtain ⟨_, ls₁, hrun, hsame⟩ := hclosed _ hbare
  refine ⟨ls₁, hbare.of_same hsame, ?_⟩
  rw [writeLong, runOn_get_bind]
  dsimp only
  rw [runOn_bind_ok (runOn_modify _ ls), runOn_bind_ok hrun]
  cases basicLevel word <;> rfl

/-- The root is let write in the long format where the word stands for a level. -/
theorem exists_runOn_writeLong {level : Level} (hlevel : basicLevel word = .ok level)
    (hls : ls.CanWrite) :
    ∃ ls', runOn (writeLong word) ls = (.ok (), ls') ∧ ls'.CanWrite ∧ ls'.WritesLong level := by
  obtain ⟨ls₁, hcan, hrun⟩ := runOn_writeLong word hls
  rw [hlevel] at hrun
  refine ⟨_, hrun, ⟨fun h hmem => ?_, hcan.named, hcan.targets⟩, ⟨rfl, rfl⟩⟩
  rw [List.mem_singleton.mp hmem]
  rfl

/-- A word that names another setting is a problem. -/
theorem exists_runOn_writeLong_error (h : capitals word ∈ foreignWords) (hls : ls.CanWrite) :
    ∃ problem ls', runOn (writeLong word) ls = (.error problem, ls') := by
  obtain ⟨problem, hlevel⟩ := exists_basicLevel_eq_error h
  obtain ⟨ls₁, -, hrun⟩ := runOn_writeLong word hls
  rw [hlevel] at hrun
  exact ⟨problem, ls₁, hrun⟩

/-- After a contained problem the root writes in the long format. -/
theorem runOn_relent {problem : Problem} (hcontained : problem.isContained = true) {level : Level}
    (hlevel : basicLevel (wordOr word) = .ok level) (hls : ls.CanWrite) :
    ∃ ls', runOn (relent word problem) ls = (.ok (), ls') ∧ ls'.CanWrite ∧
      ls'.WritesLong level := by
  obtain ⟨ls₁, hrun, hcan, hlong⟩ := exists_runOn_writeLong hlevel hls
  rw [relent, if_pos hcontained, runOn_bind_ok hrun]
  obtain ⟨_, ls₂, hwrite, hsame⟩ := Loggers.onlyWrites_write _ ls₁ hcan
  refine ⟨ls₂, hwrite, hcan.of_same hsame, ⟨?_, ?_⟩⟩
  · rw [← hsame.root]
    exact hlong.level
  · rw [← hsame.root]
    exact hlong.handlers

/-- A problem remains where it is not contained, or the word stands for no level. -/
theorem runOn_relent_error {problem : Problem}
    (h : problem.isContained = false ∨ capitals (wordOr word) ∈ foreignWords) (hls : ls.CanWrite) :
    ∃ problem' ls', runOn (relent word problem) ls = (.error problem', ls') := by
  rw [relent]
  split
  · next hcontained =>
    rcases h with h | h
    · rw [h] at hcontained
      cases hcontained
    · obtain ⟨problem', ls', hrun⟩ := exists_runOn_writeLong_error h hls
      exact ⟨problem', ls', runOn_bind_error hrun _⟩
  · exact ⟨problem, ls, rfl⟩

/-! ### Requests -/

/-- The settings of a request are followed, with the level that is asked for. -/
def Request.Follows (w : Workspace) (load : Yaml.Load) (r : Request) (ls ls' : Loggers) : Prop :=
  r.isBasic = false ∧ ∃ d word, prepare w r load = .ok (d, word) ∧
    runOn (followWithLevel w d word) ls = (.ok (), ls')

/-- Logging is set up: by the settings if these can be followed, and then at most a record is
written, or else in the long format and at the level that is asked for. -/
structure Request.IsSetUp (w : Workspace) (load : Yaml.Load) (r : Request) (ls ls' : Loggers) :
    Prop where
  /-- By the settings. -/
  followed : ∀ mid, r.Follows w load ls mid → mid.SameSettings ls'
  /-- In the long format. -/
  long : (¬ ∃ mid, r.Follows w load ls mid) →
    ∃ level, basicLevel (wordOr r.level) = .ok level ∧ ls'.WritesLong level

/-- Requests that come to nothing. -/
inductive Request.Fails (w : Workspace) (load : Yaml.Load) (r : Request) : Prop
  /-- The level names another setting. -/
  | foreignWord (h : capitals r.level ∈ foreignWords)
  /-- The file has no value, for a reason that is not met. -/
  | noValue {fault : Yaml.Fault} (hbasic : r.isBasic = false)
      (h : r.origin.document w load = .error (.noValue fault))
      (hfault : fault ≠ .badValue ∧ fault ≠ .unknownWord)
  /-- A level is to be put into settings that refuse it. -/
  | refusesLevel {d : Yaml.Document} (hbasic : r.isBasic = false)
      (hlevel : (Level.ofName? (capitals r.level)).isSome = true)
      (h : r.origin.document w load = .ok d) (hrefuses : RefusesLevel d)

variable {w : Workspace} {r : Request}

/-- What is prepared are the settings, and no word or the name of a level. -/
theorem of_prepare_eq_ok (h : prepare w r load = .ok (d, word)) :
    r.origin.document w load = .ok d ∧
      ((r.level = "" ∧ word = "") ∨
        (Level.ofName? (capitals r.level)).isSome = true ∧ word = capitals r.level) := by
  rw [prepare] at h
  split at h
  · cases h
  · next found hfound =>
    split at h
    · next hnone =>
      obtain ⟨rfl, rfl⟩ := Prod.mk.inj (Except.ok.inj h)
      exact ⟨hfound, .inl ⟨beq_iff_eq.mp hnone, rfl⟩⟩
    · split at h
      · next hlevel =>
        obtain ⟨rfl, rfl⟩ := Prod.mk.inj (Except.ok.inj h)
        exact ⟨hfound, .inr ⟨hlevel, rfl⟩⟩
      · cases h

/-- The word that is prepared stands for the level that is asked for. -/
theorem basicLevel_of_prepare (h : (r.level = "" ∧ word = "") ∨
    (Level.ofName? (capitals r.level)).isSome = true ∧ word = capitals r.level) :
    basicLevel (wordOr word) = basicLevel (wordOr r.level) := by
  rcases h with ⟨hempty, rfl⟩ | ⟨hname, rfl⟩
  · rw [hempty]
  · obtain ⟨hcapitals, -, hne⟩ := of_ofName? hname
    have hasked : r.level ≠ "" := fun hempty => by
      rw [hempty] at hne
      exact hne (by decide +kernel)
    rw [wordOr, wordOr, if_neg (by simpa using hne), if_neg (by simpa using hasked), basicLevel,
      basicLevel, hcapitals]

/-- What cannot be prepared is a contained problem, unless a scalar has no value. -/
theorem isContained_of_prepare {problem : Problem} (hfails : ¬ r.Fails w load)
    (hbasic : r.isBasic = false) (h : prepare w r load = .error problem) :
    problem.isContained = true := by
  rw [prepare] at h
  split at h
  · next fault hfault =>
    rw [← Except.error.inj h]
    cases fault with
    | noValue fault =>
      rw [Problem.isContained, Bool.or_eq_true, beq_iff_eq, beq_iff_eq]
      by_contra hother
      exact hfails (.noValue hbasic hfault (not_or.mp hother))
    | _ => rfl
  · split at h
    · cases h
    · split at h
      · cases h
      · rw [← Except.error.inj h]
        rfl

/-- Settings are followed with a level, or what cannot be followed is a contained problem. -/
theorem staysWritable_followWithLevel (hdescribe : DescribeWriters d.entries)
    (haccept : word = "" ∨ ¬ RefusesLevel d) : StaysWritable (followWithLevel w d word) := by
  rw [followWithLevel]
  split
  · exact staysWritable_follow w hdescribe
  · next hword =>
    intro ls hls
    rcases overrideLevel_cases word d with ⟨-, d', hput, hsame⟩ | ⟨problem, hproblem, hcontained⟩
    · rw [hput]
      exact staysWritable_follow w (hsame.describeWriters hdescribe) ls hls
    · rcases haccept with rfl | haccept
      · exact absurd rfl hword
      · rw [hproblem]
        refine staysWritable_throw_bind ?_ _ ls hls
        rw [← Bool.not_eq_false, hcontained]
        exact haccept

/-- A request that does not fail sets logging up. -/
theorem exists_runOn_setUp (hfails : ¬ r.Fails w load)
    (hdescribe : ∀ d, r.origin.document w load = .ok d → DescribeWriters d.entries)
    (hls : ls.CanWrite) :
    ∃ ls', runOn (setUp w r load) ls = (.ok (), ls') ∧ ls'.CanWrite ∧
      r.IsSetUp w load ls ls' := by
  have hword : capitals (wordOr r.level) ∉ foreignWords := fun h =>
    hfails (.foreignWord ((capitals_wordOr_mem_iff _).mp h))
  obtain ⟨level, hlevel⟩ := exists_basicLevel hword
  rw [setUp]
  cases hbasic : r.isBasic with
  | true =>
    obtain ⟨ls', hrun, hcan, hlong⟩ := exists_runOn_writeLong hlevel hls
    refine ⟨ls', hrun, hcan, ⟨fun mid hmid => ?_, fun _ => ⟨level, hlevel, hlong⟩⟩⟩
    rw [hmid.1] at hbasic
    cases hbasic
  | false =>
    rw [if_neg Bool.false_ne_true]
    cases hprepare : prepare w r load with
    | error problem =>
      obtain ⟨ls', hrun, hcan, hlong⟩ :=
        runOn_relent (isContained_of_prepare hfails hbasic hprepare) hlevel hls
      refine ⟨ls', hrun, hcan, ⟨fun mid hmid => ?_, fun _ => ⟨level, hlevel, hlong⟩⟩⟩
      obtain ⟨-, d, word, hok, -⟩ := hmid
      rw [hprepare] at hok
      cases hok
    | ok prepared =>
      obtain ⟨d, word⟩ := prepared
      obtain ⟨hdocument, hasked⟩ := of_prepare_eq_ok hprepare
      have haccept : word = "" ∨ ¬ RefusesLevel d := by
        rcases hasked with ⟨-, hnone⟩ | ⟨hname, -⟩
        · exact .inl hnone
        · exact .inr fun hrefuses => hfails (.refusesLevel hbasic hname hdocument hrefuses)
      obtain ⟨hcan, hcontained⟩ :=
        staysWritable_followWithLevel (hdescribe d hdocument) haccept ls hls
      cases hfollow : runOn (followWithLevel w d word) ls with
      | mk result mid =>
        rw [hfollow] at hcan hcontained
        have honly : ∀ mid', r.Follows w load ls mid' → result = .ok () ∧ mid = mid' := by
          rintro mid' ⟨-, d', word', hprepare', hfollow'⟩
          obtain ⟨rfl, rfl⟩ := Prod.mk.inj (Except.ok.inj (hprepare.symm.trans hprepare'))
          exact Prod.mk.inj (hfollow.symm.trans hfollow')
        dsimp only
        rw [runOn_tryCatch]
        cases result with
        | ok _ =>
          obtain ⟨_, ls', hwrite, hsame⟩ := Loggers.onlyWrites_write _ mid hcan
          refine ⟨ls', ?_, hcan.of_same hsame, ⟨fun mid' hmid' => ?_, fun hnone => ?_⟩⟩
          · rw [runOn_bind_ok hfollow, announce, hwrite]
          · rw [← (honly mid' hmid').2]
            exact hsame
          · exact absurd ⟨mid, hbasic, d, word, hprepare, hfollow⟩ hnone
        | error problem =>
          have hlevel' : basicLevel (wordOr word) = .ok level := by
            rw [basicLevel_of_prepare hasked]
            exact hlevel
          obtain ⟨ls', hrun, hcan', hlong⟩ := runOn_relent (hcontained problem rfl) hlevel' hcan
          refine ⟨ls', ?_, hcan', ⟨fun mid' hmid' => ?_, fun _ => ⟨level, hlevel, hlong⟩⟩⟩
          · rw [runOn_bind_error hfollow]
            exact hrun
          · cases (honly mid' hmid').1

/-- A request that fails comes to a problem. -/
theorem exists_runOn_setUp_error (hfails : r.Fails w load) (hls : ls.CanWrite) :
    ∃ problem ls', runOn (setUp w r load) ls = (.error problem, ls') := by
  rw [setUp]
  cases hfails with
  | foreignWord hforeign =>
    have hword := (capitals_wordOr_mem_iff _).mpr hforeign
    split
    · exact exists_runOn_writeLong_error hword hls
    · cases hprepare : prepare w r load with
      | error problem => exact runOn_relent_error (.inr hword) hls
      | ok prepared =>
        obtain ⟨-, ⟨hempty, -⟩ | ⟨hname, -⟩⟩ := of_prepare_eq_ok hprepare
        · rw [hempty] at hforeign
          exact absurd hforeign (by decide +kernel)
        · exact absurd hforeign (of_ofName? hname).2.1
  | noValue hbasic hfault hother =>
    rw [hbasic, if_neg Bool.false_ne_true, prepare, hfault]
    refine runOn_relent_error (.inl ?_) hls
    rw [Problem.isContained, Bool.or_eq_false_iff, beq_eq_false_iff_ne, beq_eq_false_iff_ne]
    exact hother
  | @refusesLevel d hbasic hname hdocument hrefuses =>
    obtain ⟨hnot, -⟩ | ⟨problem, hoverride, hproblem⟩ := overrideLevel_cases (capitals r.level) d
    · exact absurd hrefuses hnot
    have hword : capitals r.level ≠ "" := (of_ofName? hname).2.2
    have hasked : r.level ≠ "" := fun hempty => by
      rw [hempty] at hname
      exact absurd hname (by decide +kernel)
    have hprepare : prepare w r load = .ok (d, capitals r.level) := by
      rw [prepare, hdocument]
      dsimp only
      rw [if_neg (by simpa using hasked), if_pos hname]
    have hfollow : runOn (followWithLevel w d (capitals r.level)) ls =
        (.error problem, ls) := by
      rw [followWithLevel, if_neg (by simpa using hword), hoverride]
      exact runOn_bind_error (runOn_lift _ ls) _
    obtain ⟨problem', ls', hrun⟩ := runOn_relent_error (.inl (hproblem.mpr hrefuses)) hls
    rw [hbasic, if_neg Bool.false_ne_true, hprepare]
    dsimp only
    rw [runOn_tryCatch, runOn_bind_error hfollow]
    exact ⟨problem', ls', hrun⟩

/-- Settings with a list of handlers. -/
def listedHandlers : Yaml.Document where
  cells := #[.map [(.text "version", .plain (.int 1)), (.text "handlers", .shared 1)],
    .list [.plain (.text "console")]]
  root := .shared 0

/-- A file with them. -/
def listedWorkspace : Workspace where
  entries := [(["logging.yaml"],
    .file "version: 1\nhandlers: [console]\n".toByteArray fun _ => .rejected)]

/-- Set up logging from the file. -/
def listedRequest (level : String) : Request :=
  { origin := .file (PathName.ofText "logging.yaml"), level }

end RubyDoc.Logging
