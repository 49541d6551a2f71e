import Mathlib.Data.List.Basic
import RubyDoc.Proofs.Walk.Step

/-!
# The order of events

The events of a tree read each statement at namespace level once, in the order of the
source. A statement in the body of a class is followed by the closing of that class,
unless the path is opened as a module too. Statements in the body of a module are
followed by no closing of it.
-/

namespace RubyDoc

namespace Event

/-- The statement that is read, if the event is that one is. -/
def statement? : Event → Option Placed
  | .statement p => some p
  | .closing _ => none

theorem filterMap_statement (p : Placed) (es : List Event) :
    (statement p :: es).filterMap statement? = p :: es.filterMap statement? := rfl

theorem filterMap_closing (path : String) (es : List Event) :
    (closing path :: es).filterMap statement? = es.filterMap statement? := rfl

end Event

/-- Behind the statements inside a statement no other is read. -/
theorem Placed.filterMap_closings (p : Placed) : p.closings.filterMap Event.statement? = [] := by
  rw [closings]
  split
  · cases p.opens? <;> rfl
  · rfl

/-- The events of a statement are that it is read, and those of the statements inside it. -/
theorem Placed.filterMap_events (p : Placed) :
    p.events.filterMap Event.statement? = p.statements := by
  induction p using induction_nested with
  | nested p ih =>
    have hnested : (p.nested.flatMap events).filterMap Event.statement? =
        p.nested.flatMap statements := by
      rw [List.filterMap_flatMap]
      exact List.flatMap_congr ih
    rw [events_eq, statements_eq, Event.filterMap_statement, List.filterMap_append,
      filterMap_closings, List.append_nil, hnested]

/-- The statements that are read are those at namespace level, each once and in order. -/
theorem Node.filterMap_events (root : Node) :
    root.events.filterMap Event.statement? = root.placed := by
  rw [events, placed, List.filterMap_flatMap]
  exact List.flatMap_congr fun p _ => p.filterMap_events

/-- A statement among the events of a tree is one of the tree. -/
theorem Node.mem_placed_of_mem_events {root : Node} {p : Placed}
    (h : .statement p ∈ root.events) : p ∈ root.placed := by
  rw [← filterMap_events]
  exact List.mem_filterMap.mpr ⟨_, h, rfl⟩

/-- Every statement in a body of the namespace at a path is followed by the closing of a
class at that path. -/
def Closes (path : String) : List Event → Prop
  | [] => True
  | .statement p :: es => (p.home = path → .closing path ∈ es) ∧ Closes path es
  | .closing _ :: es => Closes path es

section Closes

variable {path : String}

theorem Closes.append {es es' : List Event} (h : Closes path es) (h' : Closes path es') :
    Closes path (es ++ es') := by
  induction es with
  | nil => exact h'
  | cons e es ih =>
    cases e with
    | statement p =>
      rw [Closes] at h
      rw [List.cons_append, Closes]
      exact ⟨fun hhome => List.mem_append_left _ (h.1 hhome), ih h.2⟩
    | closing other =>
      rw [Closes] at h
      rw [List.cons_append, Closes]
      exact ih h

/-- A closing at the end follows every statement. -/
theorem closes_append_closing (path : String) (es : List Event) :
    Closes path (es ++ [.closing path]) := by
  induction es with
  | nil => exact trivial
  | cons e es ih =>
    cases e with
    | statement p =>
      rw [List.cons_append, Closes]
      exact ⟨fun _ => List.mem_append_right _ (List.mem_singleton_self _), ih⟩
    | closing other =>
      rw [List.cons_append, Closes]
      exact ih

theorem closes_flatMap {ps : List Placed} (h : ∀ p ∈ ps, Closes path p.events) :
    Closes path (ps.flatMap Placed.events) := by
  induction ps with
  | nil => exact trivial
  | cons p ps ih =>
    obtain ⟨hp, hps⟩ := List.forall_mem_cons.mp h
    rw [List.flatMap_cons]
    exact hp.append (ih hps)

namespace Placed

theorem closes_closings (path : String) (p : Placed) : Closes path p.closings := by
  rw [closings]
  split
  · cases p.opens? <;> exact trivial
  · exact trivial

/-- A statement right inside another stands in the namespace that this one opens, or in
the same one. -/
theorem home_of_mem_nested {p q : Placed} (h : q ∈ p.nested) :
    q.home = p.opens?.getD p.home := by
  rw [nested] at h
  split at h
  · next opened hopens =>
    obtain ⟨s, -, rfl⟩ := List.mem_map.mp h
    rw [hopens]
    rfl
  · next hopens =>
    rw [hopens]
    split at h
    · obtain ⟨s, -, rfl⟩ := List.mem_map.mp h
      rfl
    · split at h
      · obtain ⟨s, -, rfl⟩ := List.mem_map.mp h
        rfl
      · cases h

/-- What opens a namespace is a class or a module. -/
theorem form_of_opens? {p : Placed} (h : p.opens? = some path) :
    Form.ofNode p.node = .classBody ∨ Form.ofNode p.node = .moduleBody := by
  rw [opens?] at h
  split at h
  · next hopens =>
    rw [opensNamespace, Bool.or_eq_true, beq_iff_eq, beq_iff_eq] at hopens
    rw [Form.ofNode]
    rcases hopens with hkind | hkind <;> rw [hkind]
    · exact .inl rfl
    · exact .inr rfl
  · cases h

/-- In the events of a statement outside the namespace at a path, the bodies of that
namespace close, if it is opened as a class only. -/
theorem closes_events {p : Placed} (hhome : p.home ≠ path)
    (hmodule : ∀ q ∈ p.statements, Form.ofNode q.node = .moduleBody → q.opens? ≠ some path) :
    Closes path p.events := by
  induction p using induction_nested with
  | nested p ih =>
    rw [statements_eq, List.forall_mem_cons] at hmodule
    obtain ⟨hself, hinside⟩ := hmodule
    rw [events_eq, Closes]
    refine ⟨fun he => absurd he hhome, ?_⟩
    by_cases hopens : p.opens? = some path
    · have hclass := (form_of_opens? hopens).resolve_right fun hm => hself hm hopens
      have hclosings : p.closings = [.closing path] := by
        rw [closings, hclass, hopens]
        rfl
      rw [hclosings]
      exact closes_append_closing path _
    · refine (closes_flatMap fun q hq => ?_).append (closes_closings path p)
      refine ih q hq ?_ fun x hx => hinside x (List.mem_flatMap.mpr ⟨q, hq, hx⟩)
      rw [home_of_mem_nested hq]
      cases ho : p.opens? with
      | none => exact hhome
      | some other =>
        rw [ho] at hopens
        exact fun he => hopens (congrArg some he)

end Placed

/-- In the events of a tree the bodies of a namespace close, if it is opened as a class
only. -/
theorem Node.closes_events {root : Node} (hpath : path ≠ "")
    (hmodule : ∀ p ∈ root.placed, Form.ofNode p.node = .moduleBody → p.opens? ≠ some path) :
    Closes path root.events := by
  refine closes_flatMap fun p hp => ?_
  have hhome : p.home = "" := by
    obtain ⟨s, -, rfl⟩ := List.mem_map.mp hp
    rfl
  refine Placed.closes_events (fun he => hpath (he.symm.trans hhome)) fun q hq => ?_
  exact hmodule q (List.mem_flatMap.mpr ⟨p, hp, hq⟩)

end Closes

end RubyDoc
