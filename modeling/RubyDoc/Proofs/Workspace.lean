import RubyDoc.Proofs.Node.Legible
import RubyDoc.Proofs.Text.Trim
import RubyDoc.Workspace

/-!
# Looking for paths

What looking for a path in a workspace comes upon. A nul character is found in paths only that
hold one, and what is inside a directory has none in its path if no name has one. A name of
more than 255 bytes is too long, be there anything of that name or not. A file that is found
is one of the workspace.
-/

namespace RubyDoc

/-- What joined texts hold is held by one of them, or by the separator. -/
theorem mem_toList_intercalate {c : Char} {sep : String} (hsep : c ∉ sep.toList)
    (parts : List String) :
    c ∈ (sep.intercalate parts).toList ↔ ∃ part ∈ parts, c ∈ part.toList := by
  induction parts with
  | nil => simp
  | cons part rest ih =>
    cases rest with
    | nil => simp
    | cons next others =>
      rw [String.intercalate_cons_cons, String.toList_append, String.toList_append,
        List.mem_append, List.mem_append, ih]
      simp only [List.mem_cons, exists_eq_or_imp, hsep, or_false]

namespace PathName

/-- The text of a path name holds what its root and its components hold. -/
theorem nul_mem_toText_iff (p : PathName) :
    '\x00' ∈ p.toText.toList ↔
      '\x00' ∈ p.root.toList ∨ ∃ part ∈ p.parts, '\x00' ∈ part.toList := by
  have hjoined : '\x00' ∈ (p.root ++ String.intercalate "/" p.parts).toList ↔
      '\x00' ∈ p.root.toList ∨ ∃ part ∈ p.parts, '\x00' ∈ part.toList := by
    rw [String.toList_append, List.mem_append, mem_toList_intercalate (by decide)]
  rw [toText]
  split
  · next hempty =>
    rw [beq_iff_eq.mp hempty] at hjoined
    rw [← hjoined]
    decide
  · exact hjoined

/-- Something inside a directory has no nul character in its path if neither the path of the
directory nor its name has one. -/
theorem nul_notMem_append {p : PathName} {inner : List String}
    (hp : '\x00' ∉ p.toText.toList) (hinner : ∀ part ∈ inner, '\x00' ∉ part.toList) :
    '\x00' ∉ (p.append inner).toText.toList := by
  rw [nul_mem_toText_iff, not_or] at hp ⊢
  refine ⟨hp.1, fun ⟨part, hpart, hnul⟩ => ?_⟩
  rcases List.mem_append.mp hpart with hbefore | hbehind
  · exact hp.2 ⟨part, hbefore, hnul⟩
  · exact hinner part hbehind hnul

/-- A text without slashes is one component. -/
theorem components_of_notMem {name : String} (hslash : '/' ∉ name.toList) :
    components name = [name] := by
  have hcut : ∀ cs : List Char, '/' ∉ cs → cutAtSlashes cs = [cs] := by
    intro cs hcs
    induction cs with
    | nil => rfl
    | cons c rest ih =>
      obtain ⟨hc, hrest⟩ := not_or.mp (List.mem_cons.not.mp hcs)
      rw [cutAtSlashes, if_neg (by simpa using Ne.symm hc), ih hrest]
  rw [components, hcut _ hslash, List.map_singleton, String.ofList_toList]

end PathName

namespace Workspace

variable {w : Workspace}

/-- No name in the workspace holds a nul character. -/
def HasPathNames (w : Workspace) : Prop := ∀ e ∈ w.entries, ∀ part ∈ e.1, '\x00' ∉ part.toList

instance (w : Workspace) : Decidable w.HasPathNames :=
  inferInstanceAs (Decidable (∀ e ∈ w.entries, ∀ part ∈ e.1, '\x00' ∉ part.toList))

/-- The text of every file, if it can be decoded, is refused by the parser or has a legible
tree. -/
def HasLegibleTrees (w : Workspace) : Prop :=
  ∀ e ∈ w.entries, ∀ content parse, e.2 = .file content parse →
    ∀ text root hasErrors, decodeLines content = .ok text → parse text = .tree root hasErrors →
      root.IsLegible

/-- Following components comes upon no nul character. -/
theorem follow_ne_nulInPath (here parts : List String) :
    w.follow here parts ≠ .error .nulInPath := by
  induction parts generalizing here with
  | nil =>
    rw [follow]
    split <;> exact fun h => by cases h
  | cons part rest ih =>
    rw [follow]
    split
    · exact fun h => by cases h
    · exact fun h => by cases h
    · split
      · exact ih here
      · split
        · exact ih here.dropLast
        · split
          · exact fun h => by cases h
          · exact ih (here ++ [part])

/-- A path has a nul character if and only if looking for it finds one. -/
theorem resolve_eq_nulInPath_iff {path : String} :
    w.resolve path = .error .nulInPath ↔ '\x00' ∈ path.toList := by
  rw [resolve, ← List.contains_iff_mem]
  split
  · next hnul => exact ⟨fun _ => hnul, fun _ => rfl⟩
  · next hnul =>
    refine ⟨fun h => ?_, fun h => absurd h hnul⟩
    split at h
    · cases h
    · split at h
      · cases h
      · split at h
        · next cause hfollow =>
          rw [Except.error.inj h] at hfollow
          exact absurd hfollow (follow_ne_nulInPath _ _)
        · split at h <;> cases h

/-- The bytes at a path are looked for unless it has a nul character. -/
theorem bytesAt_eq_nulInPath_iff {path : String} :
    w.bytesAt path = .error .nulInPath ↔ '\x00' ∈ path.toList := by
  rw [← resolve_eq_nulInPath_iff, bytesAt]
  cases w.resolve path with
  | error cause =>
    dsimp only
    rw [Except.error.injEq, Except.error.injEq]
  | ok found =>
    obtain ⟨parts, item⟩ := found
    cases item with
    | directory => exact ⟨nofun, nofun⟩
    | file content parse => exact ⟨nofun, nofun⟩

/-- A file that a path leads to is one of the workspace. -/
theorem mem_entries_of_resolve {path : String} {parts : List String} {content : ByteArray}
    {parse : String → ParseOutcome} (h : w.resolve path = .ok (parts, .file content parse)) :
    (parts, .file content parse) ∈ w.entries := by
  have hat : w.at? parts = some (.file content parse) := by
    rw [resolve] at h
    split at h
    · cases h
    · split at h
      · cases h
      · split at h
        · cases h
        · split at h
          · cases h
          · next followed _ =>
            split at h
            · next item hitem =>
              obtain ⟨rfl, rfl⟩ := Prod.mk.inj (Except.ok.inj h)
              exact hitem
            · cases h
  rw [at?] at hat
  split at hat
  · cases hat
  · exact mem_of_lookup_eq_some hat

/-- A name of more than 255 bytes is too long, whatever there is. -/
theorem resolve_of_longName {name : String} (hlong : 255 < name.utf8ByteSize)
    (hslash : '/' ∉ name.toList) (hnul : '\x00' ∉ name.toList) :
    w.resolve name = .error .nameTooLong := by
  have hne : ∀ short : String, short.utf8ByteSize ≤ 255 → (name == short) = false := by
    intro short hshort
    refine beq_eq_false_iff_ne.mpr fun heq => ?_
    rw [heq] at hlong
    omega
  have hrelative : (name == "" || Text.beginsWith "/" name) = false := by
    have hmark : "/".toList = ['/'] := rfl
    rw [hne "" (by decide), Bool.false_or, Text.beginsWith_mark hmark]
    exact beq_eq_false_iff_ne.mpr fun hfirst => hslash (List.mem_of_head? hfirst)
  have hbelow : (name == "" || name == ".") = false := by
    rw [hne "" (by decide), hne "." (by decide), Bool.or_false]
  have hfollow : w.follow [] [name] = .error .nameTooLong := by
    have htop : w.at? [] = some .directory := rfl
    rw [follow, htop]
    dsimp only
    rw [hbelow, hne ".." (by decide), if_neg Bool.false_ne_true, if_neg Bool.false_ne_true,
      if_pos hlong]
  rw [resolve, if_neg (by simpa using hnul), hrelative, PathName.components_of_notMem hslash,
    hfollow]
  split <;> rfl

end Workspace

end RubyDoc
