import RubyDoc.Config.Basic
import RubyDoc.Value
import RubyDoc.Text.LetterCase
import RubyDoc.Text.Quoted

/-!
# The schema of the configuration

A configuration is a map of known settings; what is not given keeps its
default, and unknown settings are refused. All misfits are told, settings in
their own order before the unknown keys. Extensions are trimmed and lower-cased
and begin with a dot.
-/

namespace RubyDoc

open RubyDoc.Text

/-- A step of the way to a misfit. -/
inductive Locus where
  | key (name : String)
  | index (n : Int)
deriving DecidableEq

/-- A misfit and where it is. -/
structure Complaint where
  /-- The way to the value. -/
  locus : List Locus
  /-- What is wrong with it. -/
  misfit : Misfit
deriving DecidableEq

namespace Config

/-- Trim and lower-case an extension; it has to begin with a dot and go on. -/
def normaliseExtension (extension : String) : Except Misfit String :=
  let normal := lower (strip extension)
  if beginsWith "." normal && 2 ≤ normal.toList.length then .ok normal
  else .error (.valueError
    ("Value error, File extension must start with '.': " ++ quoted normal))

/-- The complaints about the items of a list that are no texts. -/
def nonTexts : Nat → List Value → List Complaint
  | _, [] => []
  | index, item :: items =>
    (match item.toText with
      | .ok _ => []
      | .error misfit => [⟨[.key "file_extensions", .index index], misfit⟩]) ++
      nonTexts (index + 1) items

/-- Read the extensions. -/
def readExtensions (v : Value) : Except (List Complaint) (List String) :=
  match v.items? with
  | some [] => .error [⟨[.key "file_extensions"], .tooShort⟩]
  | some items =>
    match items.mapM Value.toText with
    | .error _ => .error (nonTexts 0 items)
    | .ok texts =>
      (texts.mapM normaliseExtension).mapError fun misfit => [⟨[.key "file_extensions"], misfit⟩]
  | none => .error [⟨[.key "file_extensions"], .listType⟩]

/-- Read the size limit, which is positive. -/
def readMaxFileSize (v : Value) : Except Misfit Nat := do
  let n ← v.toInt
  if 0 < n then return n.toNat else throw .greaterThan

/-- The markup of a name. -/
def markupOfName? : String → Option Markup
  | "markdown" => some .markdown
  | "rdoc" => some .rdoc
  | _ => none

/-- The names of the settings. -/
def settings : List String :=
  ["file_extensions", "max_file_size", "allow_duplicate_fields", "markup"]

/-- Read one setting, which keeps its default if it is not given. -/
def readSetting {α : Type} (entries : List (Value × Value)) (name : String) (default : α)
    (read : Value → Except (List Complaint) α) : Except (List Complaint) α :=
  match Value.under entries name with
  | some v => read v
  | none => .ok default

/-- Complain about one setting. -/
def complain {α : Type} (name : String) (result : Except Misfit α) : Except (List Complaint) α :=
  result.mapError fun misfit => [⟨[.key name], misfit⟩]

/-- The complaints of a reading. -/
def complaints {α : Type} : Except (List Complaint) α → List Complaint
  | .ok _ => []
  | .error found => found

/-- One byte as it is shown among others: printable characters as they are. -/
def shownByte (b : UInt8) : List Char :=
  let c := Char.ofNat b.toNat
  if b.toNat < 128 then quoteChar '\'' c else '\\' :: 'x' :: hexDigits 2 b.toNat

/-- A key that is no text as it is shown. -/
def shownKey : Value → String
  | .bool b => if b then "True" else "False"
  | .int n => toString n
  | .real x => x.text
  | .date d => d.shown
  | .moment m => m.shown
  | .bytes content => "b'" ++ String.ofList (content.flatMap shownByte) ++ "'"
  | _ => "None"

/-- The way to the entry under a key. Keys that are whole numbers of 64 bits are
numbers there, and all others texts. -/
def locusOf (key : Value) : Locus :=
  match key with
  | .text name => .key name
  | .int n => if Value.isShort n then .index n else .key (shownKey key)
  | .bool b => .index (if b then 1 else 0)
  | _ => .key (shownKey key)

/-- The complaint about a key that is no setting. -/
def keyComplaint (entry : Value × Value) : List Complaint :=
  match entry.1 with
  | .text name => if settings.contains name then [] else [⟨[.key name], .extraForbidden⟩]
  | key => [⟨[locusOf key], .invalidKey⟩]

/-- Read a configuration from the entries of a map. -/
def ofEntries (entries : List (Value × Value)) : Except (List Complaint) Config :=
  let defaults : Config := {}
  let extensions := readSetting entries "file_extensions" defaults.extensions readExtensions
  let size := readSetting entries "max_file_size" defaults.maxFileSize
    fun v => complain "max_file_size" (readMaxFileSize v)
  let duplicates := readSetting entries "allow_duplicate_fields" defaults.allowDuplicateFields
    fun v => complain "allow_duplicate_fields" v.toBool
  let markup := readSetting entries "markup" defaults.markup
    fun v => complain "markup" (v.toWord markupOfName?)
  match extensions, size, duplicates, markup, entries.flatMap keyComplaint with
  | .ok extensions, .ok maxFileSize, .ok allowDuplicateFields, .ok markup, [] =>
    .ok { extensions, maxFileSize, allowDuplicateFields, markup }
  | _, _, _, _, others =>
    .error (complaints extensions ++ complaints size ++ complaints duplicates ++
      complaints markup ++ others)

end Config

end RubyDoc
