import RubyDoc.Text.Blank
import RubyDoc.Text.Lines
import RubyDoc.Text.Word
import RubyDoc.Text.LetterCase
import RubyDoc.Text.Quoted
import RubyDoc.Text.Numeral
import RubyDoc.Docstring.Basic
import RubyDoc.Docstring.TypeList
import RubyDoc.Docstring.Parser
import RubyDoc.Docstring.Directives
import RubyDoc.ObjectPath
import RubyDoc.PathName
import RubyDoc.Fault
import RubyDoc.Log
import RubyDoc.Node.Basic
import RubyDoc.Node.Source
import RubyDoc.Node.Call
import RubyDoc.Node.LevelOrder
import RubyDoc.TypeExpr.Basic
import RubyDoc.Reading
import RubyDoc.TypeExpr.Printer
import RubyDoc.Entity
import RubyDoc.Store
import RubyDoc.Field
import RubyDoc.Config.Basic
import RubyDoc.Outline
import RubyDoc.Records
import RubyDoc.Walk.Context
import RubyDoc.Walk.Signature
import RubyDoc.Walk.Methods
import RubyDoc.Walk.Constants
import RubyDoc.Walk.Fields
import RubyDoc.Walk.Constructor
import RubyDoc.Walk.Namespaces
import RubyDoc.Walk.Basic
import RubyDoc.Workspace
import RubyDoc.Run
import RubyDoc.Report.Markup
import RubyDoc.Report.Basic
import RubyDoc.Report.Console
import RubyDoc.Binary64
import RubyDoc.Date
import RubyDoc.Value
import RubyDoc.Config.Schema
import RubyDoc.Entity.Reader
import RubyDoc.Yaml.Document
import RubyDoc.Yaml.Cursor
import RubyDoc.Yaml.Token.Basic
import RubyDoc.Yaml.Token.Quoted
import RubyDoc.Yaml.Token.Plain
import RubyDoc.Yaml.Token.Block
import RubyDoc.Yaml.Token.Property
import RubyDoc.Yaml.Token.Stream
import RubyDoc.Yaml.Node.Basic
import RubyDoc.Yaml.Scalar
import RubyDoc.Yaml.Node.Parser
import RubyDoc.Yaml.Node.Value
import RubyDoc.Config.Reader
import RubyDoc.Document
import RubyDoc.Logging.Record
import RubyDoc.Logging.Format.Column
import RubyDoc.Logging.Format.Percent
import RubyDoc.Logging.Format.Braces
import RubyDoc.Logging.Format.Dollars
import RubyDoc.Logging.Format
import RubyDoc.Logging.Problem
import RubyDoc.Logging.Levels
import RubyDoc.Logging.Handler
import RubyDoc.Logging.Logger
import RubyDoc.Logging.Sections
import RubyDoc.Logging.Settings
import RubyDoc.Logging.Setup
import RubyDoc.CommandLine.Arguments
import RubyDoc.CommandLine.Basic
import RubyDoc.Bundle
import RubyDoc.Report.Plain
import RubyDoc.Main
import RubyDoc.Proofs.Text.Trim
import RubyDoc.Proofs.Text.Lines
import RubyDoc.Proofs.Text.OuterLines
import RubyDoc.Proofs.Text.Newlines
import RubyDoc.Proofs.Text.Word
import RubyDoc.Proofs.Docstring.TypeList
import RubyDoc.Proofs.Docstring.Passage
import RubyDoc.Proofs.Docstring.TagLine
import RubyDoc.Proofs.Docstring.NormalForm
import RubyDoc.Proofs.Docstring.RoundTrip
import RubyDoc.Proofs.Docstring.Parsed
import RubyDoc.Proofs.Docstring.Reread
import RubyDoc.Proofs.Walk.ConstructorDocstring
import RubyDoc.Proofs.Result
import RubyDoc.Proofs.Lookup
import RubyDoc.Proofs.Action
import RubyDoc.Proofs.Store
import RubyDoc.Proofs.Walk.Constructor
import RubyDoc.Proofs.ObjectPath
import RubyDoc.Proofs.Field
import RubyDoc.Proofs.Node.Legible
import RubyDoc.Proofs.Reading
import RubyDoc.Proofs.TypeExpr.Kinds
import RubyDoc.Proofs.TypeExpr.Legible
import RubyDoc.Proofs.Docstring.Sealed
import RubyDoc.Proofs.Docstring.SplitTypes
import RubyDoc.Proofs.Docstring.StandardForm
import RubyDoc.Proofs.Docstring.Rewrite
import RubyDoc.Proofs.Docstring.TagChanges
import RubyDoc.Proofs.Docstring.Upsert
import RubyDoc.Proofs.TypeExpr.Printer
import RubyDoc.Proofs.TypeExpr.OneLine
import RubyDoc.Proofs.TypeExpr.Listed
import RubyDoc.Proofs.Source
import RubyDoc.Proofs.Source.Block
import RubyDoc.Proofs.Source.Candidates
import RubyDoc.Proofs.Walk.Declaration
import RubyDoc.Proofs.Walk.Context
import RubyDoc.Proofs.Walk.Placed
import RubyDoc.Proofs.Walk.Handlers
import RubyDoc.Proofs.Walk.Namespaces
import RubyDoc.Proofs.Walk.Signature
import RubyDoc.Proofs.Walk.NestedTypes
import RubyDoc.Proofs.Walk.SignedTags
import RubyDoc.Proofs.Walk.ConstructorContent
import RubyDoc.Proofs.Walk.Fields
import RubyDoc.Proofs.Walk.Closing
import RubyDoc.Proofs.Walk.Step
import RubyDoc.Proofs.Walk.Basic
import RubyDoc.Proofs.Walk.Documentable
import RubyDoc.Proofs.Walk.Events
import RubyDoc.Proofs.Run.Basic
import RubyDoc.Proofs.Run.Fields
import RubyDoc.Proofs.Run.Constructors
import RubyDoc.Proofs.Walk.Change
import RubyDoc.Proofs.Walk.Rules
import RubyDoc.Proofs.Walk.Blind
import RubyDoc.Proofs.Workspace
import RubyDoc.Proofs.Walk.Opening
import RubyDoc.Proofs.Walk.Sound
import RubyDoc.Proofs.Walk.Handled
import RubyDoc.Proofs.Run.Sound
import RubyDoc.Proofs.Run.Files
import RubyDoc.Proofs.Store.Tree
import RubyDoc.Proofs.Walk.Tree
import RubyDoc.Proofs.Walk.Coherent
import RubyDoc.Proofs.Walk.Room
import RubyDoc.Proofs.Walk.Given
import RubyDoc.Proofs.Walk.Mention
import RubyDoc.Proofs.Walk.Reopening
import RubyDoc.Proofs.Walk.Placeholders
import RubyDoc.Proofs.Walk.Account
import RubyDoc.Proofs.Walk.Root
import RubyDoc.Proofs.Walk.Edit
import RubyDoc.Proofs.Walk.Visibility
import RubyDoc.Proofs.Walk.Visible
import RubyDoc.Proofs.Walk.Attributes
import RubyDoc.Proofs.Walk.Standing
import RubyDoc.Proofs.Walk.Accessors
import RubyDoc.Proofs.Walk.Entries
import RubyDoc.Proofs.Report.Tree
import RubyDoc.Proofs.Report.Console
import RubyDoc.Proofs.Report.Markup
import RubyDoc.Proofs.Run.Tree
import RubyDoc.Proofs.Run.Reopening
import RubyDoc.Proofs.Run.Placeholders
import RubyDoc.Proofs.Run.Visibility
import RubyDoc.Proofs.Run.Attributes
import RubyDoc.Proofs.TypeExpr.Nil
import RubyDoc.Proofs.Walk.LevelOrder
import RubyDoc.Proofs.Walk.FieldParts
import RubyDoc.Proofs.Walk.NilDefault
import RubyDoc.Proofs.Walk.EnumValues
import RubyDoc.Proofs.Walk.Inside
import RubyDoc.Proofs.Walk.History
import RubyDoc.Proofs.Walk.Origin
import RubyDoc.Proofs.Run.Signatures
import RubyDoc.Proofs.Walk.Levels
import RubyDoc.Proofs.Run.Extensions
import RubyDoc.Proofs.Logging.Writing
import RubyDoc.Proofs.Logging.Sections
import RubyDoc.Proofs.Logging.Settings
import RubyDoc.Proofs.Value
import RubyDoc.Proofs.Yaml.Document
import RubyDoc.Proofs.Logging.Levels
import RubyDoc.Proofs.Logging.Override
import RubyDoc.Proofs.Logging.Setup
import RubyDoc.Proofs.Walk.Nesting
import RubyDoc.Proofs.Run.Report
import RubyDoc.Proofs.CommandLine
import RubyDoc.Proofs.Walk.Resolved
import RubyDoc.Proofs.TypeExpr.Unbroken
