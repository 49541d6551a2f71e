import RubyDoc.Proofs.Report.Tree
import RubyDoc.Report.Console

/-!
# Printing reports

Texts of a report are marked up in a few ways: they have no brackets, or are escaped, or have a
tag and its closing tag around a part of them. A console that reads markup takes these. What is
left are texts that a report has as they are in the sources: the path of an object, the file that
it is declared in, and its superclass. They come in the first item of a report only. So a report
is printed as a whole or not at all.
-/

namespace RubyDoc.Report

/-- The styles that tags name in reports. -/
def styles : List String := ["bold blue", "cyan", "dim", "green", "red"]

/-- A text between a tag and its closing tag. -/
def marked (style text : String) : String :=
  ("[" ++ style ++ "]") ++ text ++ ("[/" ++ style ++ "]")

/-- A text without brackets. -/
def IsPlain (s : String) : Prop := '[' ∉ s.toList

instance (s : String) : Decidable (IsPlain s) := inferInstanceAs (Decidable ('[' ∉ s.toList))

/-- Texts whose markup can be read. -/
inductive WellMarked : String → Prop
  /-- There is no markup. -/
  | plain {s : String} (h : IsPlain s) : WellMarked s
  /-- What looks like markup is escaped. -/
  | escaped (s : String) : WellMarked (escape s)
  /-- A part has a tag and its closing tag around it. No backslash stands before the tag. -/
  | styled {before style text after : String} (hstyle : style ∈ styles) (hbefore : IsPlain before)
      (hlast : before.toList.getLast? ≠ some '\\')
      (htext : IsPlain text ∨ ∃ s, text = escape s) (hafter : WellMarked after) :
      WellMarked (before ++ marked style text ++ after)

/-- The texts of what stands in a frame. -/
def Content.texts : Content → List String
  | .text s => [s]
  | .rows table => table.flatMap fun row => [row.1, row.2]

/-- The texts of an item. -/
def Item.texts : Item → List String
  | text s => [s]
  | tree root => root.labels
  | panel content title _ => title :: content.texts

/-- The markup of an item can be read. -/
def Item.IsWellMarked (item : Item) : Prop := ∀ s ∈ item.texts, WellMarked s

/-- A console reads markup: it takes what has markup that can be read. -/
structure Console.ReadsMarkup (console : Console) : Prop where
  /-- Items whose markup can be read are not refused. -/
  takes : ∀ item : Item, item.IsWellMarked → console.refuses item = false

/-! ### Texts of reports -/

theorem IsPlain.append {s t : String} (hs : IsPlain s) (ht : IsPlain t) : IsPlain (s ++ t) := by
  rw [IsPlain, String.toList_append, List.mem_append]
  exact not_or.mpr ⟨hs, ht⟩

theorem isPlain_toString (n : Nat) : IsPlain (toString n) := by
  intro h
  have hdigit := Nat.isDigit_of_mem_toDigits (by decide) (by decide) (Nat.toList_repr ▸ h)
  cases hdigit

theorem isPlain_name (kind : EntityKind) : IsPlain kind.name := by
  cases kind <;> (rw [EntityKind.name]; decide)

/-- Text behind a marked part of it is marked well if it is so by itself. -/
theorem WellMarked.behind {style text after : String} (hstyle : style ∈ styles)
    (htext : IsPlain text ∨ ∃ s, text = escape s) (hafter : WellMarked after) :
    WellMarked (marked style text ++ after) := by
  have h := styled hstyle (show IsPlain "" by decide) (by decide) htext hafter
  rwa [String.empty_append] at h

theorem wellMarked_marked {style text : String} (hstyle : style ∈ styles)
    (htext : IsPlain text ∨ ∃ s, text = escape s) : WellMarked (marked style text) := by
  have h := WellMarked.behind hstyle htext (.plain (show IsPlain "" by decide))
  rwa [String.append_empty] at h

/-- The line that says how many objects there are. -/
theorem wellMarked_count (n : Nat) :
    WellMarked ("\n[green]" ++ toString n ++ " object(s) documented[/green]") := by
  have htext : IsPlain (toString n ++ " object(s) documented") :=
    (isPlain_toString n).append (by decide)
  have heq : "\n[green]" ++ toString n ++ " object(s) documented[/green]" =
      "\n" ++ marked "green" (toString n ++ " object(s) documented") :=
    calc "\n[green]" ++ toString n ++ " object(s) documented[/green]"
      _ = "\n" ++ "[green]" ++ toString n ++ (" object(s) documented" ++ "[/green]") := rfl
      _ = "\n" ++ ("[green]" ++ (toString n ++ " object(s) documented") ++ "[/green]") := by
        simp only [String.append_assoc]
      _ = "\n" ++ marked "green" (toString n ++ " object(s) documented") := rfl
  rw [heq, ← String.append_empty (s := "\n" ++ _)]
  exact .styled (by decide) (by decide) (by decide) (.inl htext) (.plain (by decide))

/-- A kind in front of a text with markup that can be read. -/
theorem WellMarked.behind_kind {path after : String} (h : WellMarked (" " ++ path ++ after))
    (kind : EntityKind) : WellMarked ("[cyan]" ++ kind.name ++ "[/cyan] " ++ path ++ after) := by
  have heq : "[cyan]" ++ kind.name ++ "[/cyan] " ++ path ++ after =
      marked "cyan" kind.name ++ (" " ++ path ++ after) :=
    calc "[cyan]" ++ kind.name ++ "[/cyan] " ++ path ++ after
      _ = "[cyan]" ++ kind.name ++ ("[/cyan]" ++ " ") ++ path ++ after := rfl
      _ = "[cyan]" ++ kind.name ++ "[/cyan]" ++ (" " ++ path ++ after) := by
        simp only [String.append_assoc]
      _ = marked "cyan" kind.name ++ (" " ++ path ++ after) := rfl
  rw [heq]
  exact .behind (by decide) (.inl (isPlain_name kind)) h

/-- An escaped text in dim letters behind one without brackets. -/
theorem IsPlain.wellMarked_dim {before : String} (h : IsPlain before) (s : String) :
    WellMarked (before ++ (" [dim]" ++ escape s ++ "[/dim]")) := by
  have heq : before ++ (" [dim]" ++ escape s ++ "[/dim]") =
      before ++ " " ++ marked "dim" (escape s) ++ "" :=
    calc before ++ (" [dim]" ++ escape s ++ "[/dim]")
      _ = before ++ (" " ++ "[dim]" ++ escape s ++ "[/dim]") := rfl
      _ = before ++ " " ++ ("[dim]" ++ escape s ++ "[/dim]") ++ "" := by
        simp only [String.append_assoc, String.append_empty]
      _ = before ++ " " ++ marked "dim" (escape s) ++ "" := rfl
  rw [heq]
  refine .styled (by decide) (h.append (by decide)) ?_ (.inr ⟨s, rfl⟩) (.plain (by decide))
  rw [String.toList_append, List.getLast?_append]
  change some ' ' ≠ some '\\'
  decide

/-- The label of an entity whose path has no brackets. -/
theorem wellMarked_label {e : Entity} (h : IsPlain e.path) (verbose : Bool) :
    WellMarked (label verbose e) := by
  have hpath : IsPlain (" " ++ e.path) := (show IsPlain " " by decide).append h
  refine WellMarked.behind_kind ?_ e.kind
  split
  · exact hpath.wellMarked_dim _
  · exact .plain (hpath.append (by decide))

/-! ### Items of reports -/

theorem isWellMarked_countItem (n : Nat) : (countItem n).IsWellMarked :=
  List.forall_mem_singleton.mpr (wellMarked_count n)

/-- A tree has markup that can be read if its branches have. -/
theorem isWellMarked_treeItem {top : List Branch} (h : ∀ s ∈ labelsOf top, WellMarked s) :
    (treeItem top).IsWellMarked := by
  have hroot : WellMarked (marked "bold blue" "Documented objects") :=
    wellMarked_marked (by decide) (.inl (by decide))
  exact List.forall_mem_cons.mpr ⟨hroot, h⟩

/-- A frame of a text has markup that can be read if the text has, under a title without
brackets. -/
theorem isWellMarked_panel {text title : String} (htext : WellMarked text) (htitle : IsPlain title)
    (border : String) : (Item.panel (.text text) title border).IsWellMarked :=
  List.forall_mem_cons.mpr ⟨.plain htitle, List.forall_mem_singleton.mpr htext⟩

/-- Of what is shown of an object only the first frame may have other markup. -/
theorem exists_ofEntity_eq (e : Entity) :
    ∃ first rest, ofEntity e = first :: rest ∧ ∀ item ∈ rest, item.IsWellMarked := by
  have hdocstring : WellMarked
      (if e.docstring == "" then "[dim](undocumented)[/dim]" else escape e.docstring) := by
    split
    · have hmarked : WellMarked (marked "dim" "(undocumented)") :=
        wellMarked_marked (by decide) (.inl (by decide))
      exact hmarked
    · exact .escaped e.docstring
  refine ⟨_, _, rfl, List.forall_mem_cons.mpr
    ⟨isWellMarked_panel hdocstring (by decide) "green", ?_⟩⟩
  cases e.source with
  | none => exact List.forall_mem_nil _
  | some source =>
    dsimp only
    split
    · exact List.forall_mem_nil _
    · exact List.forall_mem_singleton.mpr
        (isWellMarked_panel (.escaped source) (by decide) "blue")

/-- A report of a store is a tree and a count. -/
theorem exists_of_ofStore_eq_ok {s : Store} {verbose : Bool} {items : List Item}
    (h : ofStore s verbose = .ok items) :
    ∃ first rest, items = first :: rest ∧ ∀ item ∈ rest, item.IsWellMarked := by
  obtain ⟨top, -, hitems⟩ := exists_of_bind_eq_ok h
  exact ⟨treeItem top, [countItem s.size], (Except.ok.inj hitems).symm,
    List.forall_mem_singleton.mpr (isWellMarked_countItem s.size)⟩

/-! ### Printing -/

namespace Console

variable {console : Console} {item : Item} {items : List Item}

/-- Items are printed where none is refused. -/
theorem print_of_forall (h : ∀ item ∈ items, console.refuses item = false) :
    console.print items = { items } := by
  induction items with
  | nil => rfl
  | cons item rest ih =>
    obtain ⟨hitem, hrest⟩ := List.forall_mem_cons.mp h
    rw [print, hitem, ih hrest]
    rfl

/-- Where only the first item can be refused, all items are printed or none is. -/
theorem print_cons_of_forall (h : ∀ item ∈ items, console.refuses item = false) (item : Item) :
    console.print (item :: items) =
      if console.refuses item then { refused := some item } else { items := item :: items } := by
  rw [print, print_of_forall h]

end Console

/-- **Printing a store.** The report of a store that is a tree is printed as a whole, unless the
console refuses the tree. Then nothing is printed. A tree is never refused if the paths of all
objects have no brackets. -/
theorem Console.ReadsMarkup.exists_printStore {console : Console} (hconsole : console.ReadsMarkup)
    {s : Store} (h : s.IsTree) (verbose : Bool) :
    ∃ top, ofStore s verbose = .ok [treeItem top, countItem s.size] ∧
      (labelsOf top).Perm (s.entities.map (label verbose)) ∧ (labelsOf top).length = s.size ∧
      console.printStore s verbose = .ok (if console.refuses (treeItem top) then
        { refused := some (treeItem top) } else { items := [treeItem top, countItem s.size] }) ∧
      ((∀ e ∈ s.entities, IsPlain e.path) → console.refuses (treeItem top) = false) := by
  obtain ⟨top, hreport, hlabels, hlength⟩ := exists_ofStore h verbose
  refine ⟨top, hreport, hlabels, hlength, ?_, fun hplain => ?_⟩
  · have hcount : ∀ item ∈ [countItem s.size], console.refuses item = false :=
      List.forall_mem_singleton.mpr (hconsole.takes _ (isWellMarked_countItem s.size))
    rw [printStore, hreport]
    exact congrArg Except.ok (console.print_cons_of_forall hcount (treeItem top))
  · refine hconsole.takes _ (isWellMarked_treeItem fun s hs => ?_)
    obtain ⟨e, he, rfl⟩ := List.mem_map.mp (hlabels.mem_iff.mp hs)
    exact wellMarked_label (hplain e he) verbose

end RubyDoc.Report
