/-!
# Markup in printed texts

Printed texts may hold tags in square brackets, such as `[red]`. A text that
is to be printed as it is has a backslash put before everything that would be
read as a tag; backslashes that stand before it already are doubled.
-/

namespace RubyDoc.Report

/-- Whether a character can begin a tag: a small letter, a hash, a slash or an
at sign. -/
def beginsTag (c : Char) : Bool := ('a' ≤ c && c ≤ 'z') || c == '#' || c == '/' || c == '@'

/-- Read up to the closing bracket of a tag, which comes before any opening
one: what is read, bracket included, and what is left. -/
def tagEnd : List Char → Option (List Char × List Char)
  | [] => none
  | c :: cs =>
    if c == ']' then some ([c], cs)
    else if c == '[' then none
    else (tagEnd cs).map fun r => (c :: r.1, r.2)

/-- Read a tag behind its opening bracket. -/
def tag? : List Char → Option (List Char × List Char)
  | [] => none
  | c :: cs => if beginsTag c then (tagEnd cs).map fun r => (c :: r.1, r.2) else none

theorem length_tagEnd {cs inside after : List Char} (h : tagEnd cs = some (inside, after)) :
    after.length < cs.length := by
  induction cs generalizing inside after with
  | nil => cases h
  | cons c cs ih =>
    unfold tagEnd at h
    split at h
    · cases h; simp
    · split at h
      · cases h
      · simp only [Option.map_eq_some_iff, Prod.mk.injEq, Prod.exists] at h
        obtain ⟨_, _, found, _, rfl⟩ := h
        have := ih found
        simp only [List.length_cons]; omega

theorem length_tag? {cs inside after : List Char} (h : tag? cs = some (inside, after)) :
    after.length < cs.length := by
  cases cs with
  | nil => cases h
  | cons c cs =>
    rw [tag?] at h
    by_cases begins : beginsTag c = true
    · simp only [begins, if_true, Option.map_eq_some_iff, Prod.mk.injEq, Prod.exists] at h
      obtain ⟨_, _, found, _, rfl⟩ := h
      have := length_tagEnd found
      simp only [List.length_cons]; omega
    · simp [begins] at h

/-- Escape from left to right; the number counts the backslashes just passed. -/
def escapeFrom (slashes : Nat) : List Char → List Char
  | [] => List.replicate slashes '\\'
  | c :: cs =>
    if c == '\\' then escapeFrom (slashes + 1) cs
    else if c == '[' then
      match _ : tag? cs with
      | some (inside, after) =>
        List.replicate (2 * slashes + 1) '\\' ++ '[' :: (inside ++ escapeFrom 0 after)
      | none => List.replicate slashes '\\' ++ '[' :: escapeFrom 0 cs
    else List.replicate slashes '\\' ++ c :: escapeFrom 0 cs
termination_by cs => cs.length
decreasing_by
  · simp
  · exact Nat.lt_succ_of_lt (length_tag? ‹_›)
  · simp
  · simp

/-- A single backslash at the end is doubled, so that it escapes nothing that
is printed behind it. -/
def closeSlash (cs : List Char) : List Char :=
  match cs.reverse with
  | '\\' :: '\\' :: _ => cs
  | '\\' :: _ => cs ++ ['\\']
  | _ => cs

/-- A text that is printed as it is. -/
def escape (s : String) : String := String.ofList (closeSlash (escapeFrom 0 s.toList))

end RubyDoc.Report
