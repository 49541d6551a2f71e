import RubyDoc.Config.Schema
import RubyDoc.Proofs.Result
import RubyDoc.Proofs.Run.Files

/-!
# Extensions of documented files

A configuration accepts whatever begins with a dot and goes on as an extension. A file in a
directory is looked at from the last dot of its name on. So the two agree on extensions with
one dot: every file that has one of them behind something else is documented. An extension
with dots further in counts for what it has from the last of them on, and one that ends in a
dot counts for nothing. No file is documented that does not end in an accepted extension.
Names of files are told of here if their characters are among the first 128.
-/

namespace RubyDoc

namespace Text

/-- All characters are among the first 128. -/
def IsAscii (s : String) : Prop := ∀ c ∈ s.toList, c.toNat < 128

instance (s : String) : Decidable (IsAscii s) :=
  inferInstanceAs (Decidable (∀ c ∈ s.toList, c.toNat < 128))

/-- The lower case of such a text is that of its characters. -/
theorem toList_lower {s : String} (h : IsAscii s) :
    (lower s).toList = s.toList.map Char.toLower := by
  have hfrom : ∀ (cs before : List Char), (∀ c ∈ cs, c.toNat < 128) →
      lowerFrom before cs = cs.map Char.toLower := by
    intro cs
    induction cs with
    | nil => exact fun _ _ => rfl
    | cons c cs ih =>
      intro before hcs
      obtain ⟨hc, hrest⟩ := List.forall_mem_cons.mp hcs
      rw [lowerFrom, lowerChar, if_pos hc, ih _ hrest, List.map_cons, List.singleton_append]
  rw [lower, String.toList_ofList, hfrom _ _ h]

/-- Only the dot has the dot as its lower case. -/
theorem toLower_eq_dot_iff (c : Char) : c.toLower = '.' ↔ c = '.' := by
  refine ⟨fun h => ?_, fun h => by rw [h]; decide⟩
  unfold Char.toLower at h
  split at h
  · next hcapital =>
    have hlow : 65 ≤ c.val.toNat := UInt32.le_iff_toNat_le.mp hcapital.1
    have hhigh : c.val.toNat ≤ 90 := UInt32.le_iff_toNat_le.mp hcapital.2
    have hval : c.val + ('a'.val - 'A'.val) = '.'.val := congrArg Char.val h
    have hsum := congrArg UInt32.toNat hval
    have hshift : ('a'.val - 'A'.val).toNat = 32 := by decide
    have hdot : '.'.val.toNat = 46 := by decide
    rw [UInt32.toNat_add, hshift, hdot] at hsum
    omega
  · exact h

/-- The parts in front of the last dot and behind it have their lower case apart. -/
theorem toList_lower_of_last_dot {s : String} (h : IsAscii s) {before ending : List Char}
    (hcut : s.toList = before ++ '.' :: ending) (hdot : '.' ∉ ending) :
    (lower s).toList = before.map Char.toLower ++ '.' :: ending.map Char.toLower ∧
      '.' ∉ ending.map Char.toLower := by
  constructor
  · rw [toList_lower h, hcut, List.map_append, List.map_cons]
    rfl
  · intro hmem
    obtain ⟨c, hc, hlower⟩ := List.mem_map.mp hmem
    exact hdot ((toLower_eq_dot_iff c).mp hlower ▸ hc)

end Text

namespace PathName

/-- A list with a dot can be cut at the last one. -/
theorem exists_last_dot {cs : List Char} (h : '.' ∈ cs) :
    ∃ before ending, cs = before ++ '.' :: ending ∧ '.' ∉ ending := by
  obtain ⟨behind, front, hsplit, hbehind⟩ := List.eq_append_cons_of_mem (List.mem_reverse.mpr h)
  refine ⟨front.reverse, behind.reverse, ?_, fun hmem => hbehind (List.mem_reverse.mp hmem)⟩
  rw [← List.reverse_reverse cs, hsplit]
  simp

/-- There is one last dot only. -/
theorem eq_of_last_dot {before before' ending ending' : List Char} (hdot : '.' ∉ ending)
    (hdot' : '.' ∉ ending') (h : before ++ '.' :: ending = before' ++ '.' :: ending') :
    ending = ending' := by
  have hreversed := congrArg List.reverse h
  simp only [List.reverse_append, List.reverse_cons, List.append_assoc, List.singleton_append]
    at hreversed
  have hmark : ∀ cs : List Char, '.' ∉ cs → ∀ c ∈ cs.reverse, ¬ c = '.' := fun cs hcs c hc heq =>
    hcs (heq ▸ List.mem_reverse.mp hc)
  obtain ⟨hsame, -, -⟩ :=
    Entity.eq_of_append_cons_eq (· = '.') rfl rfl (hmark _ hdot) (hmark _ hdot') hreversed
  exact List.reverse_injective hsame

/-- The extension of a name that is cut at its last dot. -/
theorem extensionOf_eq {name : String} {before ending : List Char}
    (h : name.toList = before ++ '.' :: ending) (hdot : '.' ∉ ending) :
    extensionOf name =
      if ending.isEmpty || before.isEmpty then "" else String.ofList ('.' :: ending) := by
  have hreversed : name.toList.reverse = ending.reverse ++ '.' :: before.reverse := by
    rw [h]
    simp
  have hplain : ∀ c ∈ ending.reverse, (c != '.') = true := by
    intro c hc
    exact bne_iff_ne.mpr fun heq => hdot (heq ▸ List.mem_reverse.mp hc)
  have htake : name.toList.reverse.takeWhile (· != '.') = ending.reverse := by
    rw [hreversed, List.takeWhile_append_of_pos hplain, List.takeWhile_cons_of_neg (by decide),
      List.append_nil]
  have hdrop : name.toList.reverse.dropWhile (· != '.') = '.' :: before.reverse := by
    rw [hreversed, List.dropWhile_append_of_pos hplain, List.dropWhile_cons_of_neg (by decide)]
  rw [extensionOf, htake, hdrop, List.reverse_reverse, List.drop_one, List.tail_cons,
    List.isEmpty_reverse]

/-- A name without an extension has the empty one; any other name is cut at its last dot. -/
theorem extensionOf_cases (name : String) :
    extensionOf name = "" ∨ ∃ before ending, name.toList = before ++ '.' :: ending ∧
      extensionOf name = String.ofList ('.' :: ending) := by
  by_cases hdot : '.' ∈ name.toList
  · obtain ⟨before, ending, hcut, hlast⟩ := exists_last_dot hdot
    rw [extensionOf_eq hcut hlast]
    split
    · exact .inl rfl
    · exact .inr ⟨before, ending, hcut, rfl⟩
  · refine .inl ?_
    have hdrop : name.toList.reverse.dropWhile (· != '.') = [] := by
      refine List.dropWhile_eq_nil_iff.mpr fun c hc => bne_iff_ne.mpr fun heq => hdot ?_
      exact heq ▸ List.mem_reverse.mp hc
    rw [extensionOf, hdrop, List.drop_nil, List.isEmpty_nil, Bool.or_true, if_pos rfl]

end PathName

/-! ### What is accepted as an extension -/

/-- A text that begins with a dot and goes on. -/
def IsExtension (e : String) : Prop := ∃ rest, e.toList = '.' :: rest ∧ rest ≠ []

namespace Config

/-- What is normalised without a misfit is an extension. -/
theorem isExtension_of_normaliseExtension {text e : String}
    (h : normaliseExtension text = .ok e) : IsExtension e := by
  rw [normaliseExtension] at h
  split at h
  · next hgood =>
    rw [Except.ok.inj h, Bool.and_eq_true, Text.beginsWith] at hgood
    obtain ⟨rest, hrest⟩ := List.isPrefixOf_iff_prefix.mp hgood.1
    have hlist : e.toList = '.' :: rest := hrest.symm
    refine ⟨rest, hlist, fun hnil => ?_⟩
    have hlength := of_decide_eq_true hgood.2
    rw [hlist, hnil] at hlength
    exact absurd hlength (by decide)
  · cases h

/-- The extensions that are read are at least one, and are extensions. -/
theorem isExtension_of_readExtensions {v : Value} {extensions : List String}
    (h : readExtensions v = .ok extensions) :
    extensions ≠ [] ∧ ∀ e ∈ extensions, IsExtension e := by
  rw [readExtensions] at h
  split at h
  · cases h
  · next items hne _ =>
    split at h
    · cases h
    · next texts htexts =>
      cases hnormal : texts.mapM normaliseExtension with
      | error misfit =>
        rw [hnormal] at h
        cases h
      | ok found =>
        rw [hnormal] at h
        obtain rfl : found = extensions := Except.ok.inj h
        have hitems := forall₂_of_mapM htexts
        have hfound := forall₂_of_mapM hnormal
        refine ⟨fun hnil => ?_, fun e he => ?_⟩
        · rw [hnil, List.forall₂_nil_right_iff] at hfound
          rw [hfound, List.forall₂_nil_right_iff] at hitems
          exact hne hitems
        · obtain ⟨i, hi, rfl⟩ := List.mem_iff_getElem.mp he
          have hnormalised := (List.forall₂_iff_get.mp hfound).2 i (hfound.length_eq ▸ hi) hi
          exact isExtension_of_normaliseExtension hnormalised
  · cases h

/-- The extensions of a configuration that is accepted. -/
theorem isExtension_of_ofEntries {entries : List (Value × Value)} {config : Config}
    (h : ofEntries entries = .ok config) :
    config.extensions ≠ [] ∧ ∀ e ∈ config.extensions, IsExtension e := by
  rw [ofEntries] at h
  split at h
  · next extensions _ _ _ hread _ _ _ _ =>
    rw [← Except.ok.inj h]
    rw [readSetting] at hread
    split at hread
    · exact isExtension_of_readExtensions hread
    · rw [← Except.ok.inj hread]
      refine ⟨List.cons_ne_nil _ _, fun e he => ?_⟩
      rcases List.mem_pair.mp he with rfl | rfl
      · exact ⟨['r', 'b'], rfl, List.cons_ne_nil _ _⟩
      · exact ⟨['r', 'b', 'i'], rfl, List.cons_ne_nil _ _⟩
  · cases h

end Config

/-! ### Files in a directory -/

namespace Config

/-- An extension is honoured if what it has from its last dot on is an accepted extension. -/
def Honours (config : Config) (e : String) : Prop :=
  ∃ before ending, e.toList = before ++ '.' :: ending ∧ '.' ∉ ending ∧
    String.ofList ('.' :: ending) ∈ config.extensions

variable {config : Config}

theorem honours_iff {e : String} {before ending : List Char}
    (hcut : e.toList = before ++ '.' :: ending) (hdot : '.' ∉ ending) :
    config.Honours e ↔ String.ofList ('.' :: ending) ∈ config.extensions := by
  constructor
  · rintro ⟨before', ending', hcut', hdot', hmem⟩
    rw [hcut] at hcut'
    rwa [PathName.eq_of_last_dot hdot hdot' hcut']
  · exact fun hmem => ⟨before, ending, hcut, hdot, hmem⟩

/-- Where extensions are given, a file is supported if its own is one of them. -/
theorem isSupported_iff (hne : config.extensions ≠ []) (f : PathName) :
    f.isSupported config.extensions = true ↔ Text.lower f.fileExtension ∈ config.extensions := by
  rw [PathName.isSupported, if_neg fun hempty => hne (List.isEmpty_iff.mp hempty),
    List.contains_iff_mem]

section Accepted

variable (hextensions : ∀ e ∈ config.extensions, IsExtension e)

include hextensions

/-- Neither the empty text nor a dot alone is an accepted extension. -/
theorem empty_and_dot_notMem : "" ∉ config.extensions ∧ "." ∉ config.extensions := by
  constructor
  · intro he
    obtain ⟨rest, hrest, -⟩ := hextensions _ he
    cases hrest
  · intro he
    obtain ⟨rest, hrest, hne⟩ := hextensions _ he
    exact hne (List.cons.inj hrest).2.symm

/-- Accepted extensions with one dot are honoured. -/
theorem honours_of_notMem {e : String} (he : e ∈ config.extensions) (hdot : '.' ∉ e.toList.tail) :
    config.Honours e := by
  obtain ⟨rest, hrest, -⟩ := hextensions e he
  rw [hrest, List.tail_cons] at hdot
  have hcut : e.toList = [] ++ '.' :: rest := hrest
  rw [honours_iff hcut hdot, ← hrest, String.ofList_toList]
  exact he

/-- A file whose name ends in an accepted extension, behind something else and in whatever letter
case, is supported if and only if the extension is honoured. -/
theorem isSupported_iff_honours (hne : config.extensions ≠ []) {f : PathName}
    {stem ending : String} (hname : f.fileName = stem ++ ending)
    (hascii : Text.IsAscii f.fileName) (hstem : stem ≠ "")
    (hmem : Text.lower ending ∈ config.extensions) :
    f.isSupported config.extensions = true ↔ config.Honours (Text.lower ending) := by
  have hinside : Text.IsAscii ending := fun c hc => hascii c (by
    rw [hname, String.toList_append]
    exact List.mem_append_right _ hc)
  have hdot : '.' ∈ ending.toList := by
    obtain ⟨rest, hrest, -⟩ := hextensions _ hmem
    rw [Text.toList_lower hinside] at hrest
    obtain ⟨c, hc, hlower⟩ := List.mem_map.mp (hrest ▸ List.mem_cons_self)
    exact (Text.toLower_eq_dot_iff c).mp hlower ▸ hc
  obtain ⟨before, last, hcut, hlast⟩ := PathName.exists_last_dot hdot
  have hwhole : f.fileName.toList = (stem.toList ++ before) ++ '.' :: last := by
    rw [hname, String.toList_append, hcut, List.append_assoc]
  have hfront : (stem.toList ++ before).isEmpty = false := by
    rw [List.isEmpty_eq_false_iff]
    exact List.append_ne_nil_of_left_ne_nil (fun hnil => hstem (String.toList_eq_nil_iff.mp hnil)) _
  obtain ⟨hlower, hlowerLast⟩ := Text.toList_lower_of_last_dot hinside hcut hlast
  rw [isSupported_iff hne, honours_iff hlower hlowerLast, PathName.fileExtension,
    PathName.extensionOf_eq hwhole hlast, hfront, Bool.or_false]
  cases last with
  | nil =>
    obtain ⟨hempty, halone⟩ := empty_and_dot_notMem hextensions
    exact ⟨fun h => absurd h hempty, fun h => absurd h halone⟩
  | cons c cs =>
    have hascii' : Text.IsAscii (String.ofList ('.' :: c :: cs)) := fun d hd => hinside d (by
      rw [String.toList_ofList] at hd
      rw [hcut]
      exact List.mem_append_right _ hd)
    have hcase : Text.lower (String.ofList ('.' :: c :: cs)) =
        String.ofList ('.' :: (c :: cs).map Char.toLower) := by
      rw [← String.toList_inj, Text.toList_lower hascii', String.toList_ofList,
        String.toList_ofList]
      rfl
    rw [List.isEmpty_cons, if_neg Bool.false_ne_true, hcase]

/-- A file that is supported ends in an accepted extension. -/
theorem exists_of_isSupported (hne : config.extensions ≠ []) {f : PathName}
    (hascii : Text.IsAscii f.fileName) (h : f.isSupported config.extensions = true) :
    ∃ e ∈ config.extensions, e.toList <:+ (Text.lower f.fileName).toList := by
  have hmem := (isSupported_iff hne f).mp h
  refine ⟨_, hmem, ?_⟩
  rw [PathName.fileExtension] at hmem ⊢
  rcases PathName.extensionOf_cases f.fileName with hnone | ⟨before, ending, hcut, hfound⟩
  · rw [hnone] at hmem
    exact absurd hmem (empty_and_dot_notMem hextensions).1
  · have hascii' : Text.IsAscii (PathName.extensionOf f.fileName) := fun c hc => hascii c (by
      rw [hfound, String.toList_ofList] at hc
      rw [hcut]
      exact List.mem_append_right _ hc)
    rw [Text.toList_lower hascii', Text.toList_lower hascii, hfound, String.toList_ofList, hcut,
      List.map_append]
    exact List.suffix_append _ _

end Accepted

end Config

namespace Run

/-- The files that are collected from a directory are the supported ones below it. -/
theorem mem_filesBelow_iff {w : Workspace} {config : Config} {p : PathName}
    {directory : List String} {f : PathName} :
    f ∈ filesBelow w config p directory ↔
      (∃ inner ∈ w.filesIn directory, p.append inner = f) ∧
        f.isSupported config.extensions = true := by
  rw [filesBelow, List.mem_mergeSort, List.mem_filter, List.mem_map]

end Run

/-- A file of the workspace is inside every directory that its components begin with. -/
theorem Workspace.mem_filesIn {w : Workspace} {directory inner : List String}
    {content : ByteArray} {parse : String → ParseOutcome}
    (h : (directory ++ inner, FileItem.file content parse) ∈ w.entries) :
    inner ∈ w.filesIn directory := by
  refine List.mem_filterMap.mpr ⟨_, h, ?_⟩
  dsimp only
  rw [if_pos (List.isPrefixOf_iff_prefix.mpr (List.prefix_append _ _)), List.drop_left]

namespace Run

/-- **Which files of a directory are documented.** With a configuration that is accepted, a file
below a directory whose name ends in an accepted extension behind something else, in whatever
letter case, is collected if and only if the extension is honoured. Accepted extensions with
one dot are. No file is collected that does not end in an accepted extension. -/
theorem collectFiles_honours {entries : List (Value × Value)} {config : Config}
    (hconfig : Config.ofEntries entries = .ok config) {w : Workspace} {p : PathName}
    {directory : List String} (hdirectory : w.resolve p.toText = .ok (directory, .directory))
    (hwalk : w.isOverlong p = false) (run : Run) (hrun : run.config = config) :
    ∃ files run₁, (collectFiles w p).run.run run = (.ok files, run₁) ∧
      (∀ inner content parse stem ending,
        (directory ++ inner, FileItem.file content parse) ∈ w.entries →
        (p.append inner).fileName = stem ++ ending → Text.IsAscii (p.append inner).fileName →
        stem ≠ "" → Text.lower ending ∈ config.extensions →
        (p.append inner ∈ files ↔ config.Honours (Text.lower ending))) ∧
      (∀ e ∈ config.extensions, '.' ∉ e.toList.tail → config.Honours e) ∧
      ∀ f ∈ files, Text.IsAscii f.fileName →
        ∃ e ∈ config.extensions, e.toList <:+ (Text.lower f.fileName).toList := by
  obtain ⟨hne, hextensions⟩ := Config.isExtension_of_ofEntries hconfig
  obtain ⟨run₁, hcollect, -⟩ := exists_run_collectFiles hwalk run
  rw [hrun, Workspace.collected, hdirectory] at hcollect
  refine ⟨_, run₁, hcollect, ?_, fun e => Config.honours_of_notMem hextensions, ?_⟩
  · intro inner content parse stem ending hfile hname hascii hstem hmem
    have hiff := Config.isSupported_iff_honours hextensions hne hname hascii hstem hmem
    rw [mem_filesBelow_iff, ← hiff]
    exact and_iff_right ⟨inner, Workspace.mem_filesIn hfile, rfl⟩
  · intro f hf hascii
    exact Config.exists_of_isSupported hextensions hne hascii (mem_filesBelow_iff.mp hf).2

/-! ### A directory of templates -/

/-- Settings with an extension of one dot and one of two dots. -/
def templateSettings : List (Value × Value) :=
  [(.text "file_extensions", .list [.text " .RB", .text ".html.erb"])]

/-- What they are read as. -/
def templateConfig : Config := { extensions := [".rb", ".html.erb"] }

/-- A directory with a source and a template. -/
def templateDirectory : Workspace where
  entries := [
    (["lib"], .directory),
    (["lib", "page.Rb"], .file "".toByteArray fun _ => .rejected),
    (["lib", "page.html.erb"], .file "".toByteArray fun _ => .rejected)]

/-- The source is collected, and the template is not, though its extension is accepted. -/
theorem collectFiles_templateDirectory :
    Config.ofEntries templateSettings = .ok templateConfig ∧
    templateDirectory.resolve "lib" = .ok (["lib"], .directory) ∧
    templateDirectory.isOverlong (PathName.ofText "lib") = false ∧
    ∃ files run₁, (collectFiles templateDirectory (PathName.ofText "lib")).run.run
        (start templateConfig none) = (.ok files, run₁) ∧
      PathName.ofText "lib/page.Rb" ∈ files ∧ PathName.ofText "lib/page.html.erb" ∉ files := by
  have hconfig : Config.ofEntries templateSettings = .ok templateConfig := by decide +kernel
  have hdirectory : templateDirectory.resolve "lib" = .ok (["lib"], .directory) := by rfl
  have hwalk : templateDirectory.isOverlong (PathName.ofText "lib") = false := by decide +kernel
  obtain ⟨files, run₁, hcollect, hiff, hhonours, -⟩ :=
    collectFiles_honours hconfig hdirectory hwalk (start templateConfig none) rfl
  refine ⟨hconfig, hdirectory, hwalk, files, run₁, hcollect, ?_, ?_⟩
  · have hascii : Text.IsAscii "page.Rb" := by simp [Text.IsAscii]
    have hfound := hiff ["page.Rb"] "".toByteArray (fun _ => .rejected) "page" ".Rb"
      (List.mem_cons_of_mem _ List.mem_cons_self) (by rfl) hascii (by decide) (by decide +kernel)
    exact hfound.mpr (hhonours _ (by decide +kernel) (by decide +kernel))
  · have hascii : Text.IsAscii "page.html.erb" := by simp [Text.IsAscii]
    have hfound := hiff ["page.html.erb"] "".toByteArray (fun _ => .rejected) "page" ".html.erb"
      (List.mem_cons_of_mem _ (List.mem_cons_of_mem _ List.mem_cons_self)) (by rfl) hascii
      (by decide) (by decide +kernel)
    have hcut : (Text.lower ".html.erb").toList = ".html".toList ++ '.' :: "erb".toList := by
      decide +kernel
    intro hmem
    have hhonoured := (Config.honours_iff hcut (by decide +kernel)).mp (hfound.mp hmem)
    exact absurd hhonoured (by decide +kernel)

end Run

end RubyDoc
