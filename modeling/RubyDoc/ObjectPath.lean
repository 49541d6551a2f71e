import RubyDoc.Text.Blank

/-!
# Paths of documented objects

Namespaces and constants are named by segments with a double colon between
them; the root namespace has the empty path. This module puts such paths
together, takes the last segment off, and resolves a name as it is written in
source against the namespace around it.
-/

namespace RubyDoc.ObjectPath

open RubyDoc.Text

/-- The path of a member of a namespace. -/
def join (home name : String) : String := if home == "" then name else home ++ "::" ++ name

/-- On a reversed path: the reversed last segment and the reversed rest, if
there is a separator. -/
def cutReversed : List Char → Option (List Char × List Char)
  | [] => none
  | ':' :: ':' :: cs => some ([], cs)
  | c :: cs => (cutReversed cs).map fun r => (c :: r.1, r.2)

/-- The path of the namespace around and the last segment. -/
def split (path : String) : String × String :=
  match cutReversed path.toList.reverse with
  | some (name, home) => (String.ofList home.reverse, String.ofList name.reverse)
  | none => ("", path)

/-- Resolve a written name: blanks are dropped, and a leading double colon
anchors it at the root. -/
def qualify (home written : String) : String :=
  let name := withoutBlanks written
  if beginsWith "::" name then withoutStart "::" name else join home name

/-- What is cut off is shorter than the whole. -/
theorem length_cutReversed (cs name home : List Char) (h : cutReversed cs = some (name, home)) :
    home.length < cs.length := by
  fun_induction cutReversed cs generalizing name home with
  | case1 => simp at h
  | case2 cs =>
    simp only [Option.some.injEq, Prod.mk.injEq] at h
    simp only [List.length_cons, ← h.2]
    omega
  | case3 c cs _ ih =>
    simp only [Option.map_eq_some_iff, Prod.mk.injEq, Prod.exists] at h
    obtain ⟨a, b, found, _, rfl⟩ := h
    have := ih a b found
    simp only [List.length_cons]
    omega

/-- The namespace around a path that is not empty has a shorter path. -/
theorem length_split_fst (path : String) (h : path ≠ "") :
    (split path).1.length < path.length := by
  unfold split
  split
  · next name home found =>
    have := length_cutReversed _ _ _ found
    simp only [List.length_reverse] at this
    simpa [← String.length_toList] using this
  · have : path.toList ≠ [] := fun empty => h (String.toList_eq_nil_iff.mp empty)
    simpa [← String.length_toList] using List.length_pos_iff.mpr this

end RubyDoc.ObjectPath
