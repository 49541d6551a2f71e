import RubyDoc.Bundle
import RubyDoc.CommandLine.Basic
import RubyDoc.Report.Plain
import RubyDoc.Yaml.Node.Value

/-!
# The program

Reads a bundle of files from the standard input and does with it what the
arguments ask for. The report is printed, log lines go to the error stream.
-/

namespace RubyDoc

/-- Read a stream to its end. -/
partial def readAll (stream : IO.FS.Stream) (text : String) : IO String := do
  let line ← stream.getLine
  if line.isEmpty then return text
  readAll stream (text ++ line)

/-- Write out what the program leaves behind. -/
def writeOutcome (outcome : CommandLine.Outcome) : IO UInt32 := do
  for line in outcome.logged do
    IO.eprintln line
  for line in outcome.printed.flatMap Report.Item.plainLines do
    IO.println line
  if let some escape := outcome.escape then
    IO.eprintln escape.message
  return outcome.status.toUInt32

end RubyDoc

/-- Run the program on the bundle that it is given. -/
def main (arguments : List String) : IO UInt32 := do
  let text ← RubyDoc.readAll (← IO.getStdin) ""
  match (RubyDoc.Yaml.parse text).toOption.bind RubyDoc.Bundle.workspace? with
  | some workspace => RubyDoc.writeOutcome (RubyDoc.CommandLine.run workspace arguments)
  | none => do
    IO.eprintln "The standard input is no bundle of files."
    return 2
