import RubyDoc.Report.Basic
import RubyDoc.Text.Lines

/-!
# Reports as plain lines

The items of a report as lines without frames and colours. A branch is indented
by two spaces more than the one that it grows from, and what stands in a frame
by two spaces more than the title.
-/

namespace RubyDoc.Report

open RubyDoc.Text

/-- A line two spaces further in. -/
def indented (line : String) : String := "  " ++ line

mutual

/-- The lines of a branch. -/
def Branch.plainLines : Branch → List String
  | .node label branches => label :: (plainLinesOf branches).map indented

/-- The lines of some branches, one after the other. -/
def plainLinesOf : List Branch → List String
  | [] => []
  | b :: rest => b.plainLines ++ plainLinesOf rest

end

/-- The lines of what stands in a frame. -/
def Content.plainLines : Content → List String
  | .text s => lines s
  | .rows entries => entries.flatMap fun e => lines (e.1 ++ ": " ++ e.2)

/-- The lines of an item. -/
def Item.plainLines : Item → List String
  | .text s => lines s
  | .tree root => root.plainLines
  | .panel content title _ => title :: content.plainLines.map indented

end RubyDoc.Report
