import RubyDoc.Proofs.Field
import RubyDoc.Proofs.TypeExpr.Legible
import RubyDoc.Proofs.Walk.Handlers

/-!
# The field that a declaration declares

The record of a field is told from its declaration, the source, and the docstrings
given to nodes before, and a legible declaration with a usable name is read as that
record. Whether it is kept is a matter of the fields recorded before. A reader is
declared either way, unless the field is not kept.
-/

namespace RubyDoc.FieldForm

variable {n : Node} (h : n.IsLegible)

include h

/-- The options of a legible declaration are read. -/
theorem options_ok (form : FieldForm) :
    ∃ keywords, form.options n = .ok keywords ∧ Node.LegibleValues keywords := by
  refine Node.pairsByName_ok fun p hp => ?_
  obtain ⟨a, ha, hmem⟩ := List.mem_flatMap.mp hp
  have hlegible : a.1.IsLegible := h.of_mem_arguments (List.fst_mem_of_mem_zipIdx ha)
  split at hmem
  · rwa [List.mem_singleton.mp hmem]
  · split at hmem
    · exact hlegible.of_mem_hashPairs hmem
    · cases hmem

/-- The type of a legible declaration is found, and is legible. -/
theorem typeNode_ok (form : FieldForm) :
    ∃ node, form.typeNode n = .ok node ∧ ∀ m ∈ node, m.IsLegible := by
  cases form with
  | positional =>
    refine ⟨_, rfl, fun m hm => ?_⟩
    have hget := (Option.filter_eq_some_iff.mp hm).1
    exact h.of_mem_arguments (List.mem_of_getElem? hget)
  | keyword =>
    obtain ⟨keywords, hk, hl⟩ := options_ok h .keyword
    rw [typeNode, hk]
    exact ⟨_, rfl, fun m hm => hl.of_lookup hm⟩

/-- The form of a legible declaration is found. -/
theorem detect_ok : ∃ form, detect n = .ok form := by
  obtain ⟨first, hfirst, -⟩ := typeNode_ok h .positional
  obtain ⟨second, hsecond, -⟩ := typeNode_ok h .keyword
  rw [detect, hfirst, hsecond]
  cases first <;> exact ⟨_, rfl⟩

end RubyDoc.FieldForm

namespace RubyDoc.Node

/-- Whether a legible declaration names a field is found out. -/
theorem IsLegible.fieldName_ok {n : Node} (h : n.IsLegible) : ∃ name, n.fieldName = .ok name := by
  rw [fieldName]
  split
  · next first hf =>
    have hmem := (List.mem_filter.mp (List.mem_of_head? hf)).1
    obtain ⟨name, hname⟩ := (h.of_mem_arguments hmem).symbolName_ok
    split
    · rw [hname]
      exact ⟨_, rfl⟩
    · exact ⟨_, rfl⟩
  · exact ⟨_, rfl⟩

end RubyDoc.Node

namespace RubyDoc

open RubyDoc.Action

variable {declared : List Declaration}

namespace Node

/-- The form in which a field is declared. -/
def fieldForm (n : Node) : FieldForm := (FieldForm.detect n).toOption.getD .positional

/-- The options of a field declaration. -/
def fieldOptions (n : Node) : Keywords := (n.fieldForm.options n).toOption.getD []

/-- The type expression of a field declaration. -/
def fieldType? (n : Node) : Option Node := (n.fieldForm.typeNode n).toOption.join

end Node

/-- The field that a declaration with a name declares in a namespace. -/
def Source.declaredField (source : Source) (overridden : List (NodeKey × String)) (home : String)
    (n : Node) (isProp : Bool) (name : String) : FieldRecord :=
  { home, name
    types := TypeExpr.documented n.fieldType?
    doc := source.docText overridden n
    source := n.written
    default := (n.fieldOptions.lookup "default").map Node.written
    mutable := isProp && !((n.fieldOptions.lookup "immutable").any fun v => v.written == "true") }

section Legible

variable {c : Context} {n : Node} (hn : n.IsLegible) (hc : c.source.HasLegibleComments)

include hn hc

/-- A legible declaration is read as the field that it declares. -/
theorem readField_ok (isProp : Bool) (name : String) (r : Records) :
    ∃ log, runOn (readField c n n.fieldForm isProp name) r =
      (.ok (c.source.declaredField r.overridden c.home.path n isProp name), { r with log }) := by
  obtain ⟨type, htype, hlegible⟩ := FieldForm.typeNode_ok hn n.fieldForm
  obtain ⟨options, hoptions, hvalues⟩ := FieldForm.options_ok hn n.fieldForm
  have htype? : n.fieldType? = type := by
    rw [Node.fieldType?, htype]
    rfl
  have hoptions? : n.fieldOptions = options := by
    rw [Node.fieldOptions, hoptions]
    rfl
  have hread := runOn_ofReading (convertOptional type) r
  rw [TypeExpr.convertOptional_ok hlegible] at hread
  generalize ((convertOptional type).runWith r.log).2 = log at hread
  unfold readField
  rw [htype, runOn_bind_ok (runOn_ofExcept _ r), runOn_bind_ok hread, hoptions,
    runOn_bind_ok (runOn_ofExcept _ _)]
  refine ⟨log, ?_⟩
  generalize hr : ({ r with log } : Records) = r'
  have hdoc : runOn (c.docstringOf n) r' = (.ok (c.source.docText r.overridden n), r') := by
    rw [runOn_docstringOf hc n r', ← hr]
  have hrest : ∀ (immutable : Bool) (default : Action (Option String)),
      runOn default r' = (.ok ((options.lookup "default").map Node.written), r') → runOn (do
        let doc ← c.docstringOf n
        let source ← n.read
        let default ← default
        return ({ home := c.home.path, name, types := TypeExpr.documented type, doc, source, default
                  mutable := isProp && !immutable } : FieldRecord)) r' =
        (.ok { home := c.home.path, name, types := TypeExpr.documented type
               doc := c.source.docText r.overridden n, source := n.written
               default := (options.lookup "default").map Node.written
               mutable := isProp && !immutable }, r') := by
    intro immutable default hdefault
    rw [runOn_bind_ok hdoc, runOn_bind_ok (runOn_read hn r'), runOn_bind_ok hdefault]
    rfl
  have hdefault : ∀ value, options.lookup "default" = some value →
      runOn (some <$> value.read) r' = (.ok (some value.written), r') := fun value hvalue =>
    runOn_map_ok (runOn_read (hvalues.of_lookup hvalue) r') some
  rw [Source.declaredField, hoptions?, htype?]
  dsimp only
  -- What follows a choice is put into its branches, so that there is one branch for each.
  cases hl : options.lookup "default" with
  | none =>
    rw [hl] at hrest
    cases isProp with
    | false => exact hrest false _ rfl
    | true =>
      rw [if_pos rfl]
      cases hi : options.lookup "immutable" with
      | none => exact hrest false _ rfl
      | some flag =>
        dsimp only
        rw [runOn_bind_ok (runOn_map_ok (runOn_read (hvalues.of_lookup hi) r') _)]
        exact hrest _ _ rfl
  | some value =>
    rw [hl] at hrest
    cases isProp with
    | false => exact hrest false _ (hdefault value hl)
    | true =>
      rw [if_pos rfl]
      cases hi : options.lookup "immutable" with
      | none => exact hrest false _ (hdefault value hl)
      | some flag =>
        dsimp only
        rw [runOn_bind_ok (runOn_map_ok (runOn_read (hvalues.of_lookup hi) r') _)]
        exact hrest _ _ (hdefault value hl)

end Legible

/-- Beyond recording a field, its reader is declared. -/
theorem defineField_spec (c : Context) (n : Node) (form : FieldForm) (f : FieldRecord)
    (hd : .ofMethod f.home f.name c.scope ∈ declared) {r : Records} (hk : r.store.IsKeyed) :
    ({ r with fields := r.fields.append f } : Records).ChangedBy declared
      (runOn (defineField c n form f) r).2 := by
  unfold defineField
  rw [runOn_bind_ok (runOn_modify _ r)]
  refine Declares.bind (declares_register hd ?_ ?_ _) (fun _ _ => ?_) _ hk
  · rfl
  · exact .inl rfl
  · exact (declares_putAttribute c _ _).bind fun _ _ => declares_note _ _ _

/-- The fields after a declaration: the field is recorded if it has a usable name and
the run keeps it. -/
def Context.fieldsAfter (c : Context) (n : Node) (isProp : Bool) (r : Records) : Ledger :=
  match n.usableName? with
  | some name =>
    c.config.keep r.fields (c.source.declaredField r.overridden c.home.path n isProp name)
  | none => r.fields

/-- Beyond recording its field, a legible declaration declares a reader. -/
theorem processField_spec {c : Context} {n : Node} (hn : n.IsLegible)
    (hc : c.source.HasLegibleComments) (isProp : Bool)
    (hd : ∀ name ∈ n.usableName?, .ofMethod c.home.path name c.scope ∈ declared)
    {r : Records} (hk : r.store.IsKeyed) :
    ({ r with fields := c.fieldsAfter n isProp r } : Records).ChangedBy declared
      (runOn (processField c n isProp) r).2 := by
  obtain ⟨form, hform⟩ := FieldForm.detect_ok hn
  obtain ⟨name?, hname⟩ := hn.fieldName_ok
  have hform? : n.fieldForm = form := by
    rw [Node.fieldForm, hform]
    rfl
  have hname? : n.usableName? = name? := by
    rw [Node.usableName?, hname]
    rfl
  unfold processField Context.fieldsAfter
  rw [hform, runOn_bind_ok (runOn_ofExcept _ r), hname, runOn_bind_ok (runOn_ofExcept _ r), hname?]
  cases name? with
  | none => exact ⟨.refl hk, rfl, rfl⟩
  | some name =>
    obtain ⟨log, hread⟩ := readField_ok hn hc isProp name r
    have hreader := hd name hname?
    rw [hform?] at hread
    dsimp only
    rw [runOn_bind_ok hread, runOn_bind_ok (runOn_get _), Config.keep]
    obtain ⟨f, hf⟩ : ∃ f, f = c.source.declaredField r.overridden c.home.path n isProp name :=
      ⟨_, rfl⟩
    have hhome : f.home = c.home.path := congrArg FieldRecord.home hf
    have hfield : f.name = name := congrArg FieldRecord.name hf
    rw [← hf]
    rw [← hhome, ← hfield] at hreader
    have hdefine : ∀ log, ({ r with fields := r.fields.append f } : Records).ChangedBy declared
        (runOn (defineField c n form f) { r with log }).2 := fun log =>
      .of_log (defineField_spec c n form f hreader (r := { r with log }) hk)
    cases hrepeated : r.fields.hasField f.home f.name with
    | false => exact hdefine log
    | true =>
      cases hallow : c.config.allowDuplicateFields with
      | false => exact ⟨.refl hk, rfl, rfl⟩
      | true => exact hdefine _

end RubyDoc
