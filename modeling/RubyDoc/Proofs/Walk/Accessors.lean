import RubyDoc.Proofs.Walk.Standing
import RubyDoc.Proofs.Walk.Visible

/-!
# Entries that accessor macros put in

An accessor macro goes through the attributes that it names. For each it registers the
accessors that it declares and gives the attribute an entry with these alone, whatever entry
there was before. In a namespace that stands, with a table for the scope, none of this ends in a
fault; only a name that cannot be read ends the macro before it has come to all.
-/

namespace RubyDoc

open RubyDoc.Action ObjectPath

/-- A declaration that leaves an attribute with its namespace, of a kind, and its accessors. -/
structure Declaration.Spares (d : Declaration) (a : Attribute) (kind : String) : Prop where
  /-- It leaves room for a namespace. -/
  room : d.LeavesRoom a.home.path
  /-- At the path of the namespace it is for a placeholder, or for a namespace of its kind. -/
  space : d.path = a.home.path → d.kind = .placeholder ∨ d.kind.made = kind
  /-- At the paths of the accessors it is for a method. -/
  accessors : d.path = a.reader ∨ d.path = a.writer → d.kind = .method

instance (d : Declaration) (path : String) : Decidable (d.LeavesRoom path) :=
  decidable_of_iff
    (d.path ≠ "" ∧ (d.kind ≠ .constant → d.kind ≠ .method → Text.beginsWith "::" d.path = false) ∧
      (d.path = path → d.kind ≠ .constant ∧ d.kind ≠ .method))
    ⟨fun h => ⟨h.1, h.2.1, h.2.2⟩, fun h => ⟨h.ne_empty, h.anchored, h.free⟩⟩

instance (d : Declaration) (a : Attribute) (kind : String) : Decidable (d.Spares a kind) :=
  decidable_of_iff
    (d.LeavesRoom a.home.path ∧
      (d.path = a.home.path → d.kind = .placeholder ∨ d.kind.made = kind) ∧
      (d.path = a.reader ∨ d.path = a.writer → d.kind = .method))
    ⟨fun h => ⟨h.1, h.2.1, h.2.2⟩, fun h => ⟨h.room, h.space, h.accessors⟩⟩

namespace Attribute

variable {a : Attribute} {kind : String} {s s' : Store}

/-- Whether methods stand at the paths of the accessors that are declared: reader, writer. -/
structure HasAccessors (a : Attribute) (m : Bool × Bool) (s : Store) : Prop where
  /-- A reader that is declared is there. -/
  reader : m.1 = true → s.HasMethod a.reader
  /-- A writer that is declared is there. -/
  writer : m.2 = true → s.HasMethod a.writer

/-- Accessors stay where declarations spare them. -/
theorem HasAccessors.changes {m : Bool × Bool} (h : a.HasAccessors m s) (hk : s.IsKeyed)
    (hc : s.Changes (·.Spares a kind) s') : a.HasAccessors m s' :=
  ⟨fun hm => (h.reader hm).changes hk
      (fun _ hd => ⟨hd.room.anchored, fun hp => hd.accessors (.inl hp)⟩) hc,
    fun hm => (h.writer hm).changes hk
      (fun _ hd => ⟨hd.room.anchored, fun hp => hd.accessors (.inr hp)⟩) hc⟩

/-- The namespace of an attribute stands after changes that spare it. -/
theorem stands_changes (hs : s.Stands a.home kind) (hc : s.Changes (·.Spares a kind) s') :
    s'.Stands a.home kind :=
  hs.changes (fun _ hd => ⟨hd.room, hd.space⟩) hc

/-- Changes that spare the namespace of an attribute and are edits that do not put it in leave
its entry. -/
theorem entryIn_changes {V : Option Visibility → Prop} {T : Handle → Scope → String → Prop}
    (hs : s.Stands a.home kind) (hc : s.Changes (·.Spares a kind) s')
    (hedits : Relation.ReflTransGen (Store.Edit V T) s s')
    (hT : ∀ handle : Handle, handle.path = a.home.path → handle.serial = a.home.serial →
      ¬ T handle a.scope a.name) : a.entryIn s' = a.entryIn s := by
  obtain ⟨m, hm, -⟩ := (stands_changes hs hc).exists_membersOf
  exact Store.Edits.entryIn hedits hs.serial hT (by rw [hm, Option.isSome_some])

end Attribute

/-- The attribute of a name in the namespace and scope of a context. -/
def Context.attribute (c : Context) (name : String) : Attribute := ⟨c.home, c.scope, name⟩

/-- What an accessor macro came to that may name an attribute, where there was an entry before:
the entry is that one still, or it has the accessors of the macro alone and these are there. -/
structure Accessed (a : Attribute) (m : Bool × Bool) (named sound : Prop) (before : Option Slots)
    (outcome : Except Fault Unit × Records) : Prop where
  /-- There are two entries that it may come to. -/
  entry : a.entryIn outcome.2.store = before ∨
    a.entryIn outcome.2.store = some (a.slots m.1 m.2) ∧ a.HasAccessors m outcome.2.store
  /-- If all is read, there is a result, and a name is never passed over. -/
  reached : sound → (∃ x, outcome.1 = .ok x) ∧
    (named → a.entryIn outcome.2.store = some (a.slots m.1 m.2) ∧ a.HasAccessors m outcome.2.store)

/-- What a macro came to is said again of one that names and reads no more. -/
theorem Accessed.imp {a : Attribute} {m : Bool × Bool} {named named' sound sound' : Prop}
    {before before' : Option Slots} {outcome : Except Fault Unit × Records}
    (h : Accessed a m named sound before outcome) (hnamed : named' → named)
    (hsound : sound' → sound) (hbefore : before = before') :
    Accessed a m named' sound' before' outcome :=
  ⟨hbefore ▸ h.entry, fun hs => (h.reached (hsound hs)).imp_right fun hboth hn =>
    hboth (hnamed hn)⟩

namespace Action

section Macro

variable {c : Context} {known kind : String} {r : Records}
  (hr : r.store.Stands c.home kind)

include hr

/-- An accessor is registered, and leaves the entry. -/
theorem exists_runOn_accessor {name : String}
    (hd : (Declaration.ofMethod c.home.path name c.scope).Spares (c.attribute known) kind)
    (n : Node) (docstring source : String) (parameters : List (String × Option String)) :
    ∃ r', runOn (register (c.declaredAt n (accessorMethod c name docstring source parameters))) r =
        (.ok (), r') ∧ r'.store.Stands c.home kind ∧
      (c.attribute known).entryIn r'.store = (c.attribute known).entryIn r.store := by
  obtain ⟨home, m, hfind, hm, -⟩ := hr.space
  have hshape : r.store.shapeAt c.home.path = some .namespace := by
    rw [Store.shapeAt, hfind, Option.map_some, home.isNamespace_iff.mp ⟨m, hm⟩]
  generalize hmethod : c.declaredAt n (accessorMethod c name docstring source parameters) = e
  have hregisters : r.store.Registers (·.Spares (c.attribute known) kind) e :=
    hmethod ▸ .newMethod rfl hd
  have hhome : e.home = c.home.path := hmethod ▸ rfl
  obtain ⟨r', hrun⟩ := register_ok (hhome ▸ hshape)
  have hchanges := changesFrom_register hregisters false r rfl
  have hedits := edits_register (V := fun _ => True) (T := fun _ _ _ => False) trivial false
    (e := e) r
  rw [hrun] at hchanges hedits
  exact ⟨r', hrun, Attribute.stands_changes hr hchanges,
    Attribute.entryIn_changes hr hchanges hedits fun _ _ _ => id⟩

variable (htable : c.home.scopes.contains c.scope = true)

include htable

/-- An attribute is put in where there is a table for it. -/
theorem exists_runOn_putAttribute (name : String) (slots : Slots) :
    ∃ r', runOn (c.putAttribute name slots) r = (.ok (), r') ∧
      (c.attribute known).entryIn r'.store =
        if known = name then some slots else (c.attribute known).entryIn r.store := by
  obtain ⟨m, hm, hhandle⟩ := hr.exists_membersOf
  have hscope : m.scopes.contains c.scope = true := by
    rw [← htable, ← hhandle]
    rfl
  unfold Context.putAttribute
  dsimp only
  rw [htable, Bool.not_true, if_neg Bool.false_ne_true]
  refine ⟨_, rfl, ?_⟩
  have hmembers := Store.membersOf_editMembers r.store c.home
    (fun m => m.serial_putAttribute c.scope name slots) c.home
  rw [if_pos ⟨rfl, rfl⟩, hm, Option.map_some] at hmembers
  have hbefore : (c.attribute known).entryIn r.store = m.slotsOf c.scope known := by
    rw [Attribute.entryIn, Context.attribute, hm, Option.bind_some]
  rw [hbefore, ← m.slotsOf_putAttribute hscope name slots known]
  exact congrArg (Option.bind · _) hmembers

variable (n : Node) (docstring source : String) (read write : Bool)

/-- The accessors of one attribute are registered, and its entry has these alone. -/
theorem exists_runOn_defineAccessors {name : String}
    (hd : ∀ m ∈ Node.accessorsNamed read write name,
      (Declaration.ofMethod c.home.path m c.scope).Spares (c.attribute known) kind) :
    ∃ r', runOn (defineAccessors c n docstring source read write name) r = (.ok (), r') ∧
      r'.store.Stands c.home kind ∧
      (c.attribute known).entryIn r'.store =
        if known = name then some ((c.attribute name).slots read write)
        else (c.attribute known).entryIn r.store := by
  have hchanges := changesFrom_defineAccessors (D := (·.Spares (c.attribute known) kind)) c n
    docstring source read write name hd r rfl
  suffices hrun : ∃ r',
      runOn (defineAccessors c n docstring source read write name) r = (.ok (), r') ∧
      (c.attribute known).entryIn r'.store =
        if known = name then some ((c.attribute name).slots read write)
        else (c.attribute known).entryIn r.store by
    obtain ⟨r', hrun, hentry⟩ := hrun
    rw [hrun] at hchanges
    exact ⟨r', hrun, Attribute.stands_changes (a := c.attribute known) hr hchanges, hentry⟩
  unfold defineAccessors
  dsimp only
  generalize (if docstring == "" then _ else docstring) = readerDocstring
  cases read with
  | false =>
    rw [if_neg Bool.false_ne_true]
    cases write with
    | false => exact exists_runOn_putAttribute hr htable name _
    | true =>
      obtain ⟨r₁, hfirst, hstands, hsame⟩ :=
        exists_runOn_accessor hr (hd (name ++ "=") (by simp [Node.accessorsNamed])) n _ source _
      rw [if_pos rfl, runOn_bind_ok hfirst, ← hsame]
      exact exists_runOn_putAttribute hstands htable name _
  | true =>
    obtain ⟨r₁, hfirst, hstands, hsame⟩ :=
      exists_runOn_accessor hr (hd name (by simp [Node.accessorsNamed])) n _ source _
    rw [if_pos rfl, runOn_bind_ok hfirst, ← hsame]
    cases write with
    | false => exact exists_runOn_putAttribute hstands htable name _
    | true =>
      obtain ⟨r₂, hsecond, hstands', hsame'⟩ := exists_runOn_accessor hstands
        (hd (name ++ "=") (by simp [Node.accessorsNamed])) n _ source _
      rw [if_pos rfl, runOn_bind_ok hsecond, ← hsame']
      exact exists_runOn_putAttribute hstands' htable name _

omit htable in
/-- The accessors that one attribute is left with. -/
theorem hasAccessors_of_runOn_defineAccessors {r' : Records}
    (hrun : runOn (defineAccessors c n docstring source read write known) r = (.ok (), r')) :
    (c.attribute known).HasAccessors (read, write) r'.store := by
  have hshows : ∀ m ∈ Node.accessorsNamed read write known,
      r'.store.HasMethod (Entity.newMethod c.home.path m c.scope).path := by
    intro m hm
    obtain ⟨e, hfind, hvisible⟩ := shows_defineAccessors c n docstring source read write known hm r
      hr.room.isKeyed () r' hrun
    obtain ⟨parameters, hshape⟩ := e.isMethod_iff.mp (Entity.isMethod_of_visibility? hvisible)
    exact ⟨parameters, by rw [Store.shapeAt, hfind, Option.map_some, hshape]⟩
  constructor
  · rintro rfl
    exact hshows known (by simp [Node.accessorsNamed])
  · rintro rfl
    exact hshows (known ++ "=") (by simp [Node.accessorsNamed])

/-- A macro goes through its names one after the other. -/
theorem accessed_defineAccessorsOfAll {arguments : List Node}
    (hd : ∀ m ∈ Node.definedAccessors read write arguments,
      (Declaration.ofMethod c.home.path m c.scope).Spares (c.attribute known) kind) :
    Accessed (c.attribute known) (read, write) (known ∈ Node.accessed arguments)
      (∀ x ∈ arguments, ∃ name, x.symbolName = .ok name)
      ((c.attribute known).entryIn r.store)
      (runOn (defineAccessorsOfAll c n docstring source read write arguments) r) := by
  induction arguments generalizing r with
  | nil => exact ⟨.inl rfl, fun _ => ⟨⟨(), rfl⟩, fun hnamed => absurd hnamed List.not_mem_nil⟩⟩
  | cons x rest ih =>
    have hrest : ∀ {r : Records}, r.store.Stands c.home kind → _ := fun hr =>
      ih hr fun m hm => hd m (Node.mem_definedAccessors_cons x hm)
    rw [defineAccessorsOfAll]
    dsimp only
    split
    · next hkind =>
      cases hname : x.symbolName with
      | error fault =>
        rw [runOn_bind_error (runOn_ofExcept _ r)]
        refine ⟨.inl rfl, fun hsound => ?_⟩
        obtain ⟨name, hread⟩ := hsound x List.mem_cons_self
        rw [hname] at hread
        cases hread
      | ok name =>
        have hown := fun m hm =>
          hd m (Node.mem_definedAccessors_of_name rest hkind hname hm)
        obtain ⟨r₁, hrun, hstands, hentry⟩ :=
          exists_runOn_defineAccessors hr htable n docstring source read write hown
        rw [runOn_bind_ok (runOn_ofExcept _ r), runOn_bind_ok hrun]
        have hafter := hrest hstands
        have hnames : Node.accessed (x :: rest) = name :: Node.accessed rest := by
          rw [Node.accessed_cons, if_pos hkind, hname]
          rfl
        by_cases hknown : known = name
        · -- What comes behind leaves the accessors, and the entry but for one of the same.
          rw [if_pos hknown, ← hknown] at hentry
          rw [← hknown] at hrun
          have hthere := hasAccessors_of_runOn_defineAccessors hr n docstring source read write hrun
          have hchanges := changesFrom_defineAccessorsOfAll
            (D := (·.Spares (c.attribute known) kind)) c n docstring source read write rest
            (fun m hm => hd m (Node.mem_definedAccessors_cons x hm)) r₁ rfl
          have hboth := hafter.entry.elim (fun h => ⟨h.trans hentry,
            hthere.changes hstands.room.isKeyed hchanges⟩) id
          refine ⟨.inr hboth, fun hsound => ⟨(hafter.reached fun y hy => ?_).1, fun _ => hboth⟩⟩
          exact hsound y (List.mem_cons_of_mem _ hy)
        · rw [if_neg hknown] at hentry
          refine hafter.imp (fun hnamed => ?_) (fun hsound y hy =>
            hsound y (List.mem_cons_of_mem _ hy)) hentry
          rw [hnames] at hnamed
          exact (List.mem_cons.mp hnamed).resolve_left hknown
    · next hkind =>
      refine (hrest hr).imp (fun hnamed => ?_) (fun hsound y hy =>
        hsound y (List.mem_cons_of_mem _ hy)) rfl
      rwa [Node.accessed_cons, if_neg hkind, List.nil_append] at hnamed

/-- A macro of a legible node in a source with legible comments reads all of its names. -/
theorem accessed_processAccessors
    (hd : ∀ m ∈ Node.definedAccessors read write n.positionalArguments,
      (Declaration.ofMethod c.home.path m c.scope).Spares (c.attribute known) kind) :
    Accessed (c.attribute known) (read, write) (known ∈ Node.accessed n.positionalArguments)
      (n.IsLegible ∧ c.source.HasLegibleComments) ((c.attribute known).entryIn r.store)
      (runOn (processAccessors c n read write) r) := by
  have hunread : ∀ {r' : Records} (fault : Fault), r'.store = r.store →
      ¬ (n.IsLegible ∧ c.source.HasLegibleComments) →
        Accessed (c.attribute known) (read, write) (known ∈ Node.accessed n.positionalArguments)
          (n.IsLegible ∧ c.source.HasLegibleComments) ((c.attribute known).entryIn r.store)
          (.error fault, r') := fun fault hsame hunsound =>
    ⟨.inl (congrArg (c.attribute known).entryIn hsame), fun hsound => absurd hsound hunsound⟩
  unfold processAccessors
  obtain ⟨log, hlog⟩ := isQuiet_docstringOf c n r
  cases hdocstring : runOn (c.docstringOf n) r with
  | mk result r₁ =>
    rw [hdocstring] at hlog
    subst hlog
    cases result with
    | error fault =>
      rw [runOn_bind_error hdocstring]
      refine hunread fault rfl fun hsound => ?_
      rw [runOn_docstringOf hsound.2] at hdocstring
      cases congrArg Prod.fst hdocstring
    | ok docstring =>
      rw [runOn_bind_ok hdocstring, Node.read]
      cases hsource : n.legible with
      | error fault =>
        rw [runOn_bind_error (runOn_ofExcept _ _)]
        refine hunread fault rfl fun hsound => ?_
        rw [hsound.1.legible_eq] at hsource
        cases hsource
      | ok source =>
        rw [runOn_bind_ok (runOn_ofExcept _ _)]
        refine (accessed_defineAccessorsOfAll (r := { r with log }) hr htable n docstring source read
          write hd).imp id (fun hsound x hx => ?_) rfl
        exact (hsound.1.of_mem_arguments (List.mem_filter.mp hx).1).symbolName_ok

end Macro

end Action

end RubyDoc
