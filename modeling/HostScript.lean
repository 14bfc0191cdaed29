import HostScript.Adapt
import HostScript.Adapt.Cached
import HostScript.Analysis
import HostScript.Analysis.Section
import HostScript.Api
import HostScript.Api.Form
import HostScript.Body.ObjC
import HostScript.Body.ObjC.Library
import HostScript.Body.ObjC.Send
import HostScript.Body.Scope
import HostScript.Body.Statement
import HostScript.Body.Swift
import HostScript.Body.Swift.Binding
import HostScript.Body.Swift.Closure
import HostScript.Body.Swift.Control
import HostScript.Body.Swift.Interpolation
import HostScript.Body.Swift.Library
import HostScript.Body.Swift.Types
import HostScript.Cache
import HostScript.Cli
import HostScript.Cli.Arguments
import HostScript.Cli.Handler
import HostScript.Cli.Screen
import HostScript.Cli.Style
import HostScript.Declaration
import HostScript.Declaration.ObjC
import HostScript.Declaration.Reading
import HostScript.Declaration.Swift
import HostScript.Digest.Sha256
import HostScript.Downlevel
import HostScript.Fault
import HostScript.Grammar
import HostScript.Grammar.Binding
import HostScript.Grammar.Expression
import HostScript.Grammar.Lexer
import HostScript.Grammar.Parser
import HostScript.Grammar.Regex
import HostScript.Grammar.Statement
import HostScript.Harness
import HostScript.Json
import HostScript.Json.Reader
import HostScript.Listing
import HostScript.Listing.Jvm
import HostScript.Listing.Llvm
import HostScript.Listing.Smali
import HostScript.Listing.Symbolic
import HostScript.Listing.Wat
import HostScript.Main
import HostScript.Number.Binary
import HostScript.Number.Reading
import HostScript.Number.Scalar
import HostScript.Number.Shortest
import HostScript.Optimize
import HostScript.Optimize.Cached
import HostScript.Optimize.Folding
import HostScript.Settings
import HostScript.Pattern
import HostScript.Pattern.Match
import HostScript.Polyfill
import HostScript.Profile
import HostScript.Profile.Bundled
import HostScript.Profile.Sheet
import HostScript.Proofs.Adapt.Guard
import HostScript.Proofs.Adapt.Shrink
import HostScript.Proofs.Adapt.Verdict
import HostScript.Proofs.Adapt.Wrap
import HostScript.Proofs.Analysis
import HostScript.Proofs.Body.Coalescing
import HostScript.Proofs.Body.Interpolation
import HostScript.Proofs.Body.Keep
import HostScript.Proofs.Body.Labels
import HostScript.Proofs.Body.Marks
import HostScript.Proofs.Body.NestedSend
import HostScript.Proofs.Body.Numeral
import HostScript.Proofs.Body.Send
import HostScript.Proofs.Body.SimpleCode
import HostScript.Proofs.Body.Steps
import HostScript.Proofs.Body.SwiftBindings
import HostScript.Proofs.Body.SwiftClosures
import HostScript.Proofs.Body.SwiftControl
import HostScript.Proofs.Body.SwiftLibrary
import HostScript.Proofs.Body.SwiftLines
import HostScript.Proofs.Body.SwiftLiterals
import HostScript.Proofs.Body.SwiftLoops
import HostScript.Proofs.Body.SwiftOptionals
import HostScript.Proofs.Cache
import HostScript.Proofs.Cache.Recency
import HostScript.Proofs.Declaration.Distinct
import HostScript.Proofs.Declaration.MethodLine
import HostScript.Proofs.Declaration.Methods
import HostScript.Proofs.Declaration.Signature
import HostScript.Proofs.Declaration.SwiftReading
import HostScript.Proofs.Declaration.SwiftHead
import HostScript.Proofs.Declaration.SideBySide
import HostScript.Proofs.Declaration.SwiftBrace
import HostScript.Proofs.Downlevel.Arrow
import HostScript.Proofs.Downlevel.Interpolation
import HostScript.Proofs.Downlevel.Nested
import HostScript.Proofs.Listing.Comments
import HostScript.Proofs.Listing.Constant
import HostScript.Proofs.Listing.Declared
import HostScript.Proofs.Listing.Lowered
import HostScript.Proofs.Listing.Folded
import HostScript.Proofs.Listing.Jvm
import HostScript.Proofs.Listing.Literal
import HostScript.Proofs.Listing.Names
import HostScript.Proofs.Listing.Params
import HostScript.Proofs.Listing.Slots
import HostScript.Proofs.Listing.StackMachine
import HostScript.Proofs.Listing.Wat
import HostScript.Proofs.Numeral
import HostScript.Proofs.Optimize.Repeat
import HostScript.Proofs.Optimize.DeadCode
import HostScript.Proofs.Optimize.Folding
import HostScript.Proofs.Optimize.FoldingEnds
import HostScript.Proofs.Optimize.HotLoop
import HostScript.Proofs.Optimize.Jump
import HostScript.Proofs.Optimize.LiteralRun
import HostScript.Proofs.Optimize.LoopAgain
import HostScript.Proofs.Optimize.LoopGaps
import HostScript.Proofs.Optimize.LoopHeader
import HostScript.Proofs.Optimize.LoopPieces
import HostScript.Proofs.Optimize.Mapped
import HostScript.Proofs.Optimize.Moved
import HostScript.Proofs.Optimize.Unreachable
import HostScript.Proofs.Outcome
import HostScript.Proofs.Pattern.Covered
import HostScript.Proofs.Pattern.Forms
import HostScript.Proofs.Pattern.Longer
import HostScript.Proofs.Pattern.Plain
import HostScript.Proofs.Pattern.Ways
import HostScript.Proofs.Pattern.Found
import HostScript.Proofs.Pattern.Spelled
import HostScript.Proofs.Refusal
import HostScript.Proofs.Rewriting
import HostScript.Proofs.Routine.Execution
import HostScript.Proofs.Routine.Header
import HostScript.Proofs.Routine.Lines
import HostScript.Proofs.Sandbox.Outcome
import HostScript.Proofs.Script.Chunked
import HostScript.Proofs.Script.Collapse
import HostScript.Proofs.Script.Concat
import HostScript.Proofs.Script.Divided
import HostScript.Proofs.Script.Expression
import HostScript.Proofs.Script.FreeName
import HostScript.Proofs.Script.Inserted
import HostScript.Proofs.Script.Layout
import HostScript.Proofs.Script.Mark
import HostScript.Proofs.Script.PieceRuns
import HostScript.Proofs.Script.Pieces
import HostScript.Proofs.Script.Reword
import HostScript.Proofs.Script.Recast
import HostScript.Proofs.Script.Rename
import HostScript.Proofs.Script.Rescan
import HostScript.Proofs.Script.Restore
import HostScript.Proofs.Script.Runs
import HostScript.Proofs.Script.Shown
import HostScript.Proofs.Script.Spans
import HostScript.Proofs.Script.Strip
import HostScript.Proofs.Script.Tame
import HostScript.Proofs.Service.Requests
import HostScript.Proofs.Source.Block
import HostScript.Render
import HostScript.Render.Context
import HostScript.Render.Free
import HostScript.Render.TypeMembers
import HostScript.Routine
import HostScript.Sandbox
import HostScript.Sandbox.Conformance
import HostScript.Script.Masked
import HostScript.Service
import HostScript.Service.Basic
import HostScript.Service.Compile
import HostScript.Source.Block
import HostScript.Source.Bracket
import HostScript.Text.Basic
import HostScript.Text.Case
import HostScript.Text.Emoji
import HostScript.Text.Quoted
import HostScript.Text.ScriptChar
import HostScript.Text.WordChar
import HostScript.Text.Wrap
import HostScript.Yaml
import HostScript.Yaml.Moment
import HostScript.Yaml.Node
import HostScript.Yaml.Written
import HostScript.Yaml.Scalar
import HostScript.Yaml.Token
import HostScript.Yaml.Value
import HostScript.Proofs.Render.EnumValues
import HostScript.Proofs.Render.Inheritance
import HostScript.Proofs.Render.SuperCall
import HostScript.Proofs.Source.Text
import HostScript.Proofs.Cache.Canonical
import HostScript.Proofs.Script.Bounds
import HostScript.Proofs.Downlevel.Settled
