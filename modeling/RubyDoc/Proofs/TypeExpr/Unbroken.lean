import RubyDoc.Node.Source
import RubyDoc.Proofs.TypeExpr.Listed

/-!
# Converted types never break a line

A type always has a documentation type, and none of its documentation types holds a
line break, whatever the tree and its texts are. So a list of them stays on the line
of its tag. Only a text that cuts a character is a fault.
-/

namespace RubyDoc.TypeExpr

open RubyDoc.Text

/-! ### Every type has a documentation type

One string is printed for most expressions, whatever is in them. Parentheses and unions
print the types of what they hold, and a union is only made of some arguments. -/

theorem print_withText_ne_nil (n : Node) {make : String → TypeExpr}
    (h : ∀ text, (make text).print ≠ []) : (withText n make).print ≠ [] := by
  rw [withText]
  split
  · exact h _
  · simp [print]

theorem print_ofOther_ne_nil (n : Node) : (ofOther n).print ≠ [] :=
  print_withText_ne_nil n fun text => by simp [print]

theorem print_union_ne_nil {member : TypeExpr} (h : member.print ≠ [])
    (others : List TypeExpr) : (union (member :: others)).print ≠ [] := by
  rw [print, printAll, List.flatten_cons]
  exact List.append_ne_nil_of_left_ne_nil h _

theorem print_ofMethod_ne_nil (n : Node) (name : Option String) {arguments : List TypeExpr}
    (h : ∀ t ∈ arguments, t.print ≠ []) (first : Option Node) :
    (ofMethod n name arguments first).print ≠ [] := by
  unfold ofMethod
  split
  · simp [print]
  · exact print_union_ne_nil (h _ List.mem_cons_self) _
  · simp [print]
  · simp [print]
  · exact print_withText_ne_nil _ fun text => by simp [print]
  · split
    · exact print_withText_ne_nil n fun text => by simp [print]
    · exact print_withText_ne_nil n fun text => by simp [print]
  · exact print_withText_ne_nil n fun text => by simp [print]

theorem print_ofContainer_ne_nil (container : String) (members : List TypeExpr) :
    (ofContainer container members).print ≠ [] := by
  rw [ofContainer.eq_def]
  split
  · simp [print]
  · simp [print]
  · split <;> simp [print]
  · simp [print]

/-- What a node writes has a documentation type. -/
theorem Writes.print_ne_nil {n : Node} {t : TypeExpr} (h : Writes n t) : t.print ≠ [] := by
  induction h with
  | @reference n hk => exact print_withText_ne_nil n fun text => by simp [print]
  | @otherCall n hk hr => exact print_withText_ne_nil n fun text => by simp [print]
  | @typeCall n name hk hr hs ih =>
    exact print_ofMethod_ne_nil n name (List.forall_mem_map.mpr ih) _
  | container hk ho hl hs ih => exact print_ofContainer_ne_nil _ _
  | group hk hi hs ih => rwa [print]
  | other => exact print_ofOther_ne_nil _
  | illegibleCall | procedure | missing | illegibleObject | tuple | shape | nilLiteral
  | boolLiteral => simp [print]

/-! ### The only fault -/

/-- The only fault of a conversion is a text that cuts a character. -/
theorem eq_illegible_of_convert_error {n : Node} {log : Log} {fault : Fault}
    (h : ((convert n).runWith log).1 = .error fault) : fault = .illegible := by
  have hreport := report_eq (ofNode n).issues log
  rw [convert, Reading.runWith_bind] at h
  cases hr : (report (ofNode n).issues).runWith log with
  | mk result log' =>
    rw [hr] at h hreport
    cases result with
    | ok u => cases h
    | error raised =>
      dsimp only at h hreport
      split at hreport
      · rw [← Except.error.inj h]
        exact Except.error.inj hreport
      · cases hreport

/-- A converted type, whether it is there or left out, has at least one string, and no string
has a line break in it. If there is a fault, the type or a part of it has a text that cuts a
character, and this is the fault. -/
theorem unbroken_convertOptional (type : Option Node) (log : Log) :
    (∃ types, ((convertOptional type).runWith log).1 = .ok types ∧ types ≠ [] ∧
      ∀ s ∈ types, SingleLine s) ∨
    (((convertOptional type).runWith log).1 = .error .illegible ∧
      ∃ n ∈ type, ¬ n.IsLegible) := by
  cases type with
  | none => exact .inl ⟨[anyType], rfl, by simp, by decide⟩
  | some n =>
    rw [convertOptional]
    cases hresult : ((convert n).runWith log).1 with
    | ok types =>
      have htypes := eq_of_convert_ok hresult
      rw [htypes]
      exact .inl ⟨_, rfl, (writes_ofNode n).print_ne_nil, singleLine_print_ofNode n⟩
    | error fault =>
      refine .inr ⟨congrArg _ (eq_illegible_of_convert_error hresult), n, rfl, fun hlegible => ?_⟩
      have hsome : ∀ m ∈ some n, m.IsLegible := by simpa using hlegible
      have hok : ((convert n).runWith log).1 = .ok (documented (some n)) :=
        convertOptional_ok hsome log
      rw [hresult] at hok
      cases hok

/-- A name that is the first of the two bytes of a character. -/
def cutConstant : Node :=
  ⟨"constant", true, none, 0, 1, ⟨0, 0⟩, ⟨0, 1⟩, Node.textIn "é".toUTF8 0 1, []⟩

/-- It has no text and is not converted. -/
example : ((convertOptional (some cutConstant)).runWith []).1 = .error .illegible := by cbv

end RubyDoc.TypeExpr
