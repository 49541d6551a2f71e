import RubyDoc.Proofs.TypeExpr.Legible
import RubyDoc.Proofs.Walk.Context
import RubyDoc.Walk.Signature

/-!
# What a signature leaves behind

A signature declares nothing and records no field. It gives the definition after it
a docstring, and which one is told here from the source and the docstrings given
before, whatever is stored or logged. The docstring of a method that is registered
already may change in the store, which is not tracked.
-/

namespace RubyDoc

open RubyDoc.Action Reading

namespace SignatureFacts

theorem isSteady_readParams (keywords : Keywords) : IsSteady (readParams keywords) := by
  induction keywords with
  | nil => exact isSteady_pure _
  | cons entry rest ih =>
    exact (TypeExpr.isSteady_convert _).bind fun _ => ih.bind fun _ => isSteady_pure _

/-- What one site of a block says does not depend on the log. -/
theorem isSteady_meet (facts : SignatureFacts) (s : Site) : IsSteady (facts.meet s) := by
  unfold meet
  refine (isSteady_ofExcept _).bind fun word => ?_
  split
  · split
    · exact (isSteady_ofExcept _).bind fun _ => (isSteady_readParams _).bind fun _ => isSteady_pure _
    · exact isSteady_pure _
  · split
    · exact (TypeExpr.isSteady_convertOptional _).bind fun _ => isSteady_pure _
    · exact isSteady_pure _
  · exact isSteady_pure _
  · exact isSteady_pure _
  · exact isSteady_pure _

theorem isSteady_meetAll (facts : SignatureFacts) (sites : List Site) :
    IsSteady (facts.meetAll sites) := by
  induction sites generalizing facts with
  | nil => exact isSteady_pure _
  | cons s rest ih => exact (isSteady_meet facts s).bind fun more => ih more

theorem isSteady_ofBlock (block : Site) : IsSteady (ofBlock block) := by
  unfold ofBlock
  dsimp only
  refine (isSteady_meetAll _ _).bind fun facts => ?_
  split
  · exact isSteady_throw _
  · exact isSteady_pure _

/-- Keyword arguments with legible values are read. -/
theorem succeeds_readParams {keywords : Keywords} (h : Node.LegibleValues keywords) :
    Succeeds (readParams keywords) := by
  induction keywords with
  | nil => exact succeeds_pure _
  | cons entry rest ih =>
    have hvalue : entry.2.IsLegible := h entry List.mem_cons_self
    have hrest := ih fun e he => h e (List.mem_cons_of_mem _ he)
    rw [readParams]
    refine (TypeExpr.succeeds_convertOptional fun n hn => Option.some.inj hn ▸ hvalue).bind ?_
    exact fun types => hrest.bind fun _ => succeeds_pure _

/-- A legible site is read. -/
theorem succeeds_meet (facts : SignatureFacts) {s : Site} (h : s.node.IsLegible) :
    Succeeds (facts.meet s) := by
  have hword : ∃ word, wordAt s = .ok word := by
    rw [wordAt, h.legible_eq, h.callName_eq]
    split
    · exact ⟨_, rfl⟩
    · split <;> exact ⟨_, rfl⟩
  obtain ⟨word, hword⟩ := hword
  rw [meet, hword, ofExcept_ok_bind]
  split
  · split
    · obtain ⟨keywords, hkeywords, hvalues⟩ := h.keywordArguments_ok
      rw [hkeywords, ofExcept_ok_bind]
      exact (succeeds_readParams hvalues).bind fun _ => succeeds_pure _
    · exact succeeds_pure _
  · split
    · refine (TypeExpr.succeeds_convertOptional fun n hn => ?_).bind fun _ => succeeds_pure _
      rcases List.mem_append.mp (List.mem_of_head? hn) with hn | hn
      · exact h.of_mem_arguments (List.mem_filter.mp hn).1
      · exact h.of_mem_arguments hn
    · exact succeeds_pure _
  · exact succeeds_pure _
  · exact succeeds_pure _
  · exact succeeds_pure _

theorem succeeds_meetAll (facts : SignatureFacts) {sites : List Site}
    (h : ∀ s ∈ sites, s.node.IsLegible) : Succeeds (facts.meetAll sites) := by
  induction sites generalizing facts with
  | nil => exact succeeds_pure _
  | cons s rest ih =>
    have hrest : ∀ t ∈ rest, t.node.IsLegible := fun t ht => h t (List.mem_cons_of_mem _ ht)
    exact (succeeds_meet facts (h s List.mem_cons_self)).bind fun more => ih more hrest

/-- A legible block is read. -/
theorem succeeds_ofBlock {block : Site} (h : block.node.IsLegible) : Succeeds (ofBlock block) := by
  obtain ⟨hall, hend⟩ := Site.levelOrder_legible h
  rw [ofBlock]
  dsimp only
  rw [hend]
  exact (succeeds_meetAll {} hall).bind fun facts => succeeds_pure _

end SignatureFacts

/-- What a signature block says does not depend on the log. -/
theorem isSteady_applySignature (block : Site) (d : Docstring) : IsSteady (applySignature block d) :=
  (SignatureFacts.isSteady_ofBlock block).bind fun _ => isSteady_pure _

/-- What a legible signature block says is written into every docstring. -/
theorem succeeds_applySignature {block : Site} (h : block.node.IsLegible) (d : Docstring) :
    Succeeds (applySignature block d) :=
  (SignatureFacts.succeeds_ofBlock h).bind fun _ => succeeds_pure _

namespace Source

/-- The docstring of the definition that a signature is about; none if its block
cannot be read. -/
def signedDocstring? (source : Source) (overridden : List (NodeKey × String))
    (s following target block : Site) : Option String :=
  let known := [s.node, following.node, target.node].map (source.docText overridden)
  let (docstring, directives) := extractDirectives ((known.find? fun text => text != "").getD "")
  ((applySignature block docstring).runWith []).1.toOption.map fun signed =>
    addDirectives signed.print directives

/-- The docstrings that nodes have been given after a signature. -/
def overridesAfter (source : Source) (overridden : List (NodeKey × String)) (s block : Site) :
    List (NodeKey × String) :=
  match signatureTargets s with
  | .error _ => overridden
  | .ok (following, target) =>
    match source.signedDocstring? overridden s following target block with
    | some docstring => (target.node.key, docstring) :: overridden
    | none => overridden

end Source

variable {declared : List Declaration}

/-- Giving a registered method the docstring of its signature declares nothing. -/
theorem declares_updateDocstring (c : Context) (target : Node) (docstring : String) :
    Declares declared (updateDocstring c target docstring) := by
  unfold updateDocstring
  split
  · split
    · refine (declares_ofExcept _).bind fun name _ => ?_
      refine declares_changeStore fun s hs => Store.changedBy_editMethod hs fun e _ => ?_
      split <;> exact ⟨rfl, rfl⟩
    · exact declares_pure _
  · exact declares_pure _

section Legible

variable {c : Context} (hc : c.source.HasLegibleComments)

include hc

/-- The first docstring that is not empty is found. -/
theorem runOn_firstNonEmpty (ns : List Node) (r : Records) :
    runOn (firstNonEmpty (ns.map c.docstringOf)) r =
      (.ok (((ns.map (c.source.docText r.overridden)).find? fun text => text != "").getD ""), r) := by
  induction ns with
  | nil => rfl
  | cons n rest ih =>
    have hfirst := runOn_docstringOf hc n r
    cases rest with
    | nil =>
      rw [List.map_cons, List.map_nil, firstNonEmpty, hfirst, List.map_cons, List.map_nil,
        List.find?_cons]
      by_cases he : c.source.docText r.overridden n = ""
      · rw [he]
        rfl
      · rw [bne_iff_ne.mpr he]
        rfl
    | cons m rest =>
      rw [List.map_cons, List.map_cons, firstNonEmpty, runOn_bind_ok hfirst, List.map_cons,
        List.find?_cons]
      · by_cases he : c.source.docText r.overridden n = ""
        · rw [he, if_pos (beq_self_eq_true _)]
          exact ih
        · rw [if_neg (by simpa using he), bne_iff_ne.mpr he]
          rfl
      · exact List.cons_ne_nil _ _

/-- Beyond giving a node the docstring that is told from the source, a signature
declares nothing. -/
theorem processSignature_spec (s block : Site) {r : Records} (hk : r.store.IsKeyed) :
    ({ r with overridden := c.source.overridesAfter r.overridden s block } : Records).ChangedBy
      declared (runOn (processSignature c s block) r).2 := by
  unfold processSignature Source.overridesAfter
  cases ht : signatureTargets s with
  | error fault =>
    dsimp only
    split
    · exact ⟨.refl hk, rfl, rfl⟩
    · exact ⟨.refl hk, rfl, rfl⟩
  | ok targets =>
    obtain ⟨following, target⟩ := targets
    dsimp only
    have hknown := runOn_firstNonEmpty hc [s.node, following.node, target.node] r
    rw [List.map_cons, List.map_cons, List.map_cons, List.map_nil] at hknown
    rw [runOn_bind_ok hknown, Source.signedDocstring?]
    dsimp only
    generalize extractDirectives (Option.getD _ "") = parts
    have hreading := runOn_ofReading (applySignature block parts.1) r
    rw [isSteady_applySignature block parts.1 r.log []] at hreading
    cases hresult : ((applySignature block parts.1).runWith []).1 with
    | error fault =>
      rw [hresult] at hreading
      rw [runOn_bind_error hreading]
      exact ⟨.refl hk, rfl, rfl⟩
    | ok signed =>
      rw [hresult] at hreading
      rw [runOn_bind_ok hreading, runOn_bind_ok (runOn_modify _ _)]
      exact .of_log (declares_updateDocstring c target.node _ _ hk)

end Legible

end RubyDoc
