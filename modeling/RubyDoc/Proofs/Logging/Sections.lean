import RubyDoc.Logging.Setup
import RubyDoc.Proofs.Logging.Writing
import RubyDoc.Proofs.Result

/-!
# Handlers that settings describe

Handlers are read from a section that describes them, in an order of their keys. They can write
if what the section describes can. Sections that cannot be read are a problem that writing in
the long format meets.
-/

namespace RubyDoc.Logging

/-! ### Handlers that settings describe -/

/-- Whether a handler that a value describes can write: it is of a kind that says what to do
with records, and if it keeps them back then its bounds are ones that numbers compare to. -/
def describesWriter : Value → Bool
  | .map entries =>
    match HandlerKind.ofEntries? entries with
    | some kind =>
      kind.name != "Handler" &&
        (!kind.required.contains "capacity" ||
          (Value.under entries "capacity").all isBound &&
            (Value.under entries "flushLevel").all isBound)
    | none => true
  | _ => true

/-- All handlers that settings describe can write. -/
def DescribeWriters (entries : List (Value × Value)) : Prop :=
  ∀ inner, Value.under entries "handlers" = some (.map inner) →
    ∀ e ∈ inner, describesWriter e.2 = true

namespace HandlerKind

/-- Kinds of handlers that keep records back need to be told how many. -/
theorem needsCapacity : ∀ kind ∈ all, kind.name = "MemoryHandler" ∨ kind.name = "BufferingHandler" →
    kind.required.contains "capacity" = true := by
  decide +kernel

theorem mem_all_of_ofEntries? {entries : List (Value × Value)} {kind : HandlerKind}
    (h : ofEntries? entries = some kind) : kind ∈ all := by
  rw [ofEntries?] at h
  split at h
  · exact List.mem_of_find?_eq_some h
  · exact List.mem_of_find?_eq_some h
  · cases h

end HandlerKind

/-- All handlers of some sections can write. -/
def Sections.CanWrite (sections : Sections) : Prop :=
  ∀ e ∈ sections.handlers, e.2.outlet.canWrite = true

theorem mem_of_underKey? {α : Type} {entries : List (Value × α)} {key : Value} {a : α}
    (h : underKey? entries key = some a) : ∃ k, (k, a) ∈ entries := by
  obtain ⟨⟨k, a'⟩, hfound, rfl⟩ := Option.map_eq_some_iff.mp h
  exact ⟨k, List.mem_of_find?_eq_some hfound⟩

theorem canWrite_of_readFile? {w : Workspace} {entries : List (Value × Value)} {outlet : Outlet}
    (h : readFile? w entries = some outlet) : outlet.canWrite = true := by
  rw [readFile?] at h
  split at h
  · split at h
    · rw [← Option.some.inj h]
      rfl
    · cases h
  · cases h

theorem canWrite_of_readStream? {stream : Option Value} {outlet : Outlet}
    (h : readStream? stream = some outlet) : outlet.canWrite = true := by
  unfold readStream? at h
  grind [Outlet.canWrite]

/-- A buffer is bounded if the settings that give its bounds are. -/
theorem canWrite_of_readBuffer? {handlers : List (Value × Handler)}
    {entries : List (Value × Value)} {outlet : Outlet}
    (h : readBuffer? handlers entries = some outlet)
    (hcapacity : (Value.under entries "capacity").isSome = true)
    (hbounds : (Value.under entries "capacity").all isBound = true ∧
      (Value.under entries "flushLevel").all isBound = true) : outlet.canWrite = true := by
  have hbuffer : ∃ target flushesAtEnd, outlet = .buffer {
      capacity := (Value.under entries "capacity").getD .null
      urgency := (Value.under entries "flushLevel").getD (.int Level.error.rank)
      target, flushesAtEnd } := by
    rw [readBuffer?] at h
    split at h
    · exact ⟨none, _, (Option.some.inj h).symm⟩
    · split at h
      · cases h
      · obtain ⟨target, -, houtlet⟩ := Option.bind_eq_some_iff.mp h
        exact ⟨target, _, (Option.some.inj houtlet).symm⟩
  obtain ⟨target, flushesAtEnd, rfl⟩ := hbuffer
  rw [Outlet.canWrite, Buffer.isBounded, Bool.and_eq_true]
  obtain ⟨capacity, hfound⟩ := Option.isSome_iff_exists.mp hcapacity
  constructor
  · rw [hfound] at hbounds ⊢
    exact hbounds.1
  · cases hlevel : Value.under entries "flushLevel" with
    | none => rfl
    | some level =>
      rw [hlevel] at hbounds
      exact hbounds.2

/-- What a handler does with records can be done, if the entries describe a handler that can
write and have what its kind needs. -/
theorem canWrite_of_readOutlet? {w : Workspace} {handlers : List (Value × Handler)}
    {kind : HandlerKind} {entries : List (Value × Value)} {outlet : Outlet}
    (hkind : HandlerKind.ofEntries? entries = some kind)
    (hdescribes : describesWriter (.map entries) = true) (hfits : kind.fits entries = true)
    (h : readOutlet? w handlers kind entries = some outlet) : outlet.canWrite = true := by
  rw [describesWriter, hkind, Bool.and_eq_true, bne_iff_ne] at hdescribes
  obtain ⟨hname, hbounds⟩ := hdescribes
  have hneeds : kind.name = "MemoryHandler" ∨ kind.name = "BufferingHandler" →
      (Value.under entries "capacity").isSome = true ∧
      (Value.under entries "capacity").all isBound = true ∧
      (Value.under entries "flushLevel").all isBound = true := by
    intro hbuffer
    have hmem := HandlerKind.mem_all_of_ofEntries? hkind
    have hcapacity := HandlerKind.needsCapacity kind hmem hbuffer
    rw [hcapacity, Bool.not_true, Bool.false_or, Bool.and_eq_true] at hbounds
    rw [HandlerKind.fits, Bool.and_eq_true, List.all_eq_true] at hfits
    exact ⟨hfits.2 _ (List.contains_iff_mem.mp hcapacity), hbounds⟩
  rw [readOutlet?] at h
  split at h
  · exact canWrite_of_readFile? h
  · split at h
    · next hhandler => exact absurd hhandler hname
    · exact canWrite_of_readStream? h
    · next hmemory =>
      obtain ⟨hcapacity, hall⟩ := hneeds (.inl hmemory)
      exact canWrite_of_readBuffer? h hcapacity hall
    · next hbuffering =>
      obtain ⟨hcapacity, hall, -⟩ := hneeds (.inr hbuffering)
      obtain ⟨capacity, hfound⟩ := Option.isSome_iff_exists.mp hcapacity
      rw [hfound] at h hall
      rw [← Option.some.inj h, Outlet.canWrite, Buffer.isBounded]
      exact Bool.and_eq_true_iff.mpr ⟨hall, rfl⟩
    · split at h
      · cases h
      · rw [← Option.some.inj h]
        rfl
    · rw [← Option.some.inj h]
      rfl

/-- A handler that is read is of the kind that its entries ask for. -/
theorem of_readHandler? {w : Workspace} {sections : Sections} {key : Value}
    {entries : List (Value × Value)} {h : Handler}
    (hread : readHandler? w sections key (.map entries) = some h) :
    ∃ kind, HandlerKind.ofEntries? entries = some kind ∧ kind.fits entries = true ∧
      readOutlet? w sections.handlers kind entries = some h.outlet := by
  rw [readHandler?] at hread
  split at hread
  all_goals
    simp only [Option.bind_eq_bind, Option.bind_eq_some_iff] at hread
    obtain ⟨format, -, level, -, kind, hkind, outlet, houtlet, keys, -, filters, -, hmade⟩ := hread
    split at hmade
    · next hgood =>
      rw [← Option.some.inj hmade]
      exact ⟨kind, hkind, (Bool.and_eq_true_iff.mp hgood).1, houtlet⟩
    · cases hmade

/-- A handler that is read from a value that describes one that can write. -/
theorem canWrite_of_readHandler? {w : Workspace} {sections : Sections} {key v : Value} {h : Handler}
    (hread : readHandler? w sections key v = some h) (hdescribes : describesWriter v = true) :
    h.outlet.canWrite = true := by
  cases v with
  | map entries =>
    obtain ⟨kind, hkind, hfits, houtlet⟩ := of_readHandler? hread
    exact canWrite_of_readOutlet? hkind hdescribes hfits houtlet
  | _ => cases hread

/-- Handlers that are read one by one can write, and those that are put off are some of them. -/
theorem canWrite_of_readHandlers? {w : Workspace} {all inner late : List (Value × Value)}
    {sections sections' : Sections} (hsections : sections.CanWrite)
    (hdescribe : ∀ e ∈ inner, describesWriter e.2 = true)
    (h : readHandlers? w all sections inner = some (sections', late)) :
    sections'.CanWrite ∧ ∀ e ∈ late, describesWriter e.2 = true := by
  induction inner generalizing sections late with
  | nil =>
    obtain ⟨rfl, rfl⟩ := Prod.mk.inj (Option.some.inj h)
    exact ⟨hsections, nofun⟩
  | cons e rest ih =>
    obtain ⟨key, v⟩ := e
    obtain ⟨hv, hrest⟩ := List.forall_mem_cons.mp hdescribe
    rw [readHandlers?] at h
    split at h
    · obtain ⟨⟨read, off⟩, hread, heq⟩ := Option.map_eq_some_iff.mp h
      obtain ⟨rfl, rfl⟩ := Prod.mk.inj heq
      obtain ⟨hcan, hoff⟩ := ih hsections hrest hread
      exact ⟨hcan, List.forall_mem_cons.mpr ⟨hv, hoff⟩⟩
    · obtain ⟨handler, hhandler, hread⟩ := Option.bind_eq_some_iff.mp h
      refine ih (fun e he => ?_) hrest hread
      rcases List.mem_append.mp he with he | he
      · exact hsections e he
      · rw [List.mem_singleton.mp he]
        exact canWrite_of_readHandler? hhandler hv

/-- The entries of a section are none, or those of the map that is given. -/
theorem of_sectionEntries {entries inner : List (Value × Value)} {name : String}
    (h : sectionEntries entries name = .ok inner) :
    inner = [] ∨ Value.under entries name = some (.map inner) := by
  rw [sectionEntries] at h
  split at h
  · exact .inl (Except.ok.inj h).symm
  · next hfound =>
    rw [← Except.ok.inj h]
    exact .inr hfound
  · split at h
    · exact .inl (Except.ok.inj h).symm
    · cases h
    · cases h

/-- Sections with handlers that can write are read from settings that describe such. -/
theorem canWrite_of_readSections {w : Workspace} {entries : List (Value × Value)}
    {sections : Sections} (hdescribe : DescribeWriters entries)
    (h : readSections w entries = .ok sections) : sections.CanWrite := by
  rw [readSections] at h
  obtain ⟨formatEntries, -, h⟩ := exists_of_bind_eq_ok h
  obtain ⟨formats, -, h⟩ := exists_of_bind_eq_ok h
  obtain ⟨filterEntries, -, h⟩ := exists_of_bind_eq_ok h
  obtain ⟨filters, -, h⟩ := exists_of_bind_eq_ok h
  obtain ⟨sortable, -, h⟩ := exists_of_bind_eq_ok h
  obtain ⟨inner, hinner, h⟩ := exists_of_bind_eq_ok h
  have hall : ∀ e ∈ inner, describesWriter e.2 = true := by
    rcases of_sectionEntries hinner with rfl | hfound
    · exact nofun
    · exact hdescribe inner hfound
  split at h
  · next read hread =>
    rw [← Except.ok.inj h]
    obtain ⟨⟨first, late⟩, hfirst, hread⟩ := Option.bind_eq_some_iff.mp hread
    obtain ⟨⟨second, never⟩, hsecond, hread⟩ := Option.bind_eq_some_iff.mp hread
    have hsorted : ∀ e ∈ inner.mergeSort comesBefore, describesWriter e.2 = true := fun e he =>
      hall e (List.mem_mergeSort.mp he)
    have hnone : Sections.CanWrite { formats, filters } := nofun
    obtain ⟨hcan, hlate⟩ := canWrite_of_readHandlers? hnone hsorted hfirst
    obtain ⟨hcan', -⟩ := canWrite_of_readHandlers? hcan hlate hsecond
    dsimp only at hread
    split at hread
    · rw [← Option.some.inj hread]
      exact hcan'
    · cases hread
  · cases h

/-! ### Problems with settings -/

section Results

variable {α β : Type}

/-- A result is a problem only if writing in the long format meets it. -/
def FailsContained (result : Except Problem α) : Prop :=
  ∀ problem, result = .error problem → problem.isContained = true

theorem failsContained_ok (x : α) : FailsContained (.ok x) := nofun

theorem failsContained_error {problem : Problem} (h : problem.isContained = true) :
    FailsContained (.error problem : Except Problem α) := fun _ heq => Except.error.inj heq ▸ h

theorem FailsContained.bind {result : Except Problem α} {f : α → Except Problem β}
    (h : FailsContained result) (hf : ∀ x, FailsContained (f x)) :
    FailsContained (result >>= f) := by
  cases result with
  | error problem => exact failsContained_error (h problem rfl)
  | ok x => exact hf x

end Results

theorem failsContained_sectionEntries (entries : List (Value × Value)) (name : String) :
    FailsContained (sectionEntries entries name) := by
  rw [sectionEntries]
  split
  · exact failsContained_ok _
  · exact failsContained_ok _
  · split
    · exact failsContained_ok _
    · exact failsContained_error rfl
    · exact failsContained_error rfl

theorem failsContained_readSection {α : Type} (read? : Value → Option α)
    (inner : List (Value × Value)) : FailsContained (readSection read? inner) := by
  rw [readSection]
  split
  · exact failsContained_ok _
  · exact failsContained_error rfl

theorem failsContained_requireSortable (entries : List (Value × Value)) (name : String) :
    FailsContained (requireSortable entries name) := by
  rw [requireSortable]
  split
  · split
    · exact failsContained_ok _
    · exact failsContained_error rfl
  · exact failsContained_ok _

theorem failsContained_readSections (w : Workspace) (entries : List (Value × Value)) :
    FailsContained (readSections w entries) := by
  refine (failsContained_sectionEntries _ _).bind fun inner => ?_
  refine (failsContained_readSection _ inner).bind fun formats => ?_
  refine (failsContained_sectionEntries _ _).bind fun inner => ?_
  refine (failsContained_readSection _ inner).bind fun filters => ?_
  refine (failsContained_requireSortable _ _).bind fun _ => ?_
  refine (failsContained_sectionEntries _ _).bind fun inner => ?_
  split
  · exact failsContained_ok _
  · exact failsContained_error rfl

end RubyDoc.Logging
