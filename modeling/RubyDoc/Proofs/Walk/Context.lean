import RubyDoc.Proofs.Source
import RubyDoc.Proofs.Walk.Declaration
import RubyDoc.Walk.Context

/-!
# What reading in a context declares

Asking for the docstring of a statement declares nothing, and in a legible source
it is found. Putting an attribute into a table declares nothing either; that the
table has the attribute afterwards is not said here.
-/

namespace RubyDoc

open RubyDoc.Action

variable {declared : List Declaration}

/-- A legible node is read. -/
theorem runOn_read {n : Node} (h : n.IsLegible) (r : Records) :
    runOn n.read r = (.ok n.written, r) := by
  rw [Node.read, runOn_ofExcept, h.legible_eq]

/-- A text that is read is that of the node, and nothing happens. -/
theorem of_runOn_read {n : Node} {text : String} {r r' : Records}
    (h : runOn n.read r = (.ok text, r')) : text = n.written ∧ r' = r := by
  rw [Node.read, runOn_ofExcept, Prod.mk.injEq] at h
  exact ⟨(Node.written_of_legible h.1).symm, h.2.symm⟩

/-- A docstring that is found is that of the source, and nothing happens. -/
theorem of_runOn_docstringOf {c : Context} {n : Node} {docstring : String} {r r' : Records}
    (h : runOn (c.docstringOf n) r = (.ok docstring, r')) :
    c.source.docstringOf r.overridden n = .ok docstring ∧ r' = r := by
  unfold Context.docstringOf at h
  rw [runOn_bind_ok (runOn_get r), runOn_ofExcept, Prod.mk.injEq] at h
  exact ⟨h.1, h.2.symm⟩

/-- The docstring of a statement of a legible source is found. -/
theorem runOn_docstringOf {c : Context} (hc : c.source.HasLegibleComments) (n : Node) (r : Records) :
    runOn (c.docstringOf n) r = (.ok (c.source.docText r.overridden n), r) := by
  unfold Context.docstringOf
  rw [runOn_bind_ok (runOn_get r), runOn_ofExcept, Source.docstringOf_eq hc]

theorem declares_get : Declares declared (get : Action Records) := fun _ hk => .refl hk

/-- Asking for a docstring declares nothing. -/
theorem declares_docstringOf (c : Context) (n : Node) : Declares declared (c.docstringOf n) :=
  declares_get.bind fun _ _ => declares_ofExcept _

/-- Putting an attribute into a table declares nothing. -/
theorem declares_putAttribute (c : Context) (name : String) (slots : Slots) :
    Declares declared (c.putAttribute name slots) := by
  have hput : Declares declared
      (changeStore fun s => s.editMembers c.home fun m => m.putAttribute c.scope name slots) :=
    declares_changeStore fun s hs => Store.changedBy_editMembers hs _ _
  unfold Context.putAttribute
  dsimp only
  split
  · exact (declares_throw _).bind fun _ _ => hput
  · exact hput

end RubyDoc
