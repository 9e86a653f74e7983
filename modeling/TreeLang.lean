import TreeLang.CommandLine.Arguments
import TreeLang.CommandLine.Config
import TreeLang.CommandLine.Execution
import TreeLang.CommandLine.FilePath
import TreeLang.CommandLine.FileTree
import TreeLang.Compilation
import TreeLang.Definitions
import TreeLang.Fault
import TreeLang.Import.Failure
import TreeLang.Import.Loading
import TreeLang.Import.Resolver
import TreeLang.Json.Encoding
import TreeLang.Json.Printer
import TreeLang.Json.Reader
import TreeLang.Json.Value
import TreeLang.Keyword
import TreeLang.Macro.Binding
import TreeLang.Macro.Definition
import TreeLang.Macro.Marks
import TreeLang.Macro.Parameter
import TreeLang.Macro.Registry
import TreeLang.Macro.Signature
import TreeLang.Main
import TreeLang.Node.Basic
import TreeLang.Node.Equality
import TreeLang.Node.Path
import TreeLang.Node.Printer
import TreeLang.Node.Walk
import TreeLang.Operator.Basic
import TreeLang.Operator.Clause
import TreeLang.Operator.Registry
import TreeLang.Options
import TreeLang.Parse.Expansion
import TreeLang.Parse.File
import TreeLang.Parse.State
import TreeLang.Parse.Statement
import TreeLang.Parse.Value
import TreeLang.Priority.Basic
import TreeLang.Priority.Printing
import TreeLang.Priority.Reading
import TreeLang.Report.Basic
import TreeLang.Report.Cause
import TreeLang.Report.Render
import TreeLang.Shape
import TreeLang.Shared
import TreeLang.Source
import TreeLang.Text.Blank
import TreeLang.Text.Hexadecimal
import TreeLang.Text.WordChar
import TreeLang.Token.Basic
import TreeLang.Token.Lexer
import TreeLang.Token.Place
import TreeLang.Token.Stream
import TreeLang.Yaml.Layout
import TreeLang.Yaml.Node
import TreeLang.Yaml.Place
import TreeLang.Yaml.Scalar
import TreeLang.Yaml.Tag
import TreeLang.Yaml.Token
import TreeLang.Proofs.Lookahead
import TreeLang.Proofs.Making
import TreeLang.Proofs.Phrase
import TreeLang.Proofs.Reading
import TreeLang.Proofs.Scanning
import TreeLang.Proofs.Following
import TreeLang.Proofs.Completeness
import TreeLang.Proofs.Denotation
import TreeLang.Proofs.Operators
import TreeLang.Proofs.Precedence
import TreeLang.Proofs.Spelling
import TreeLang.Proofs.RoundTrip
import TreeLang.Proofs.Sources
import TreeLang.Proofs.Moving
import TreeLang.Proofs.Totality
import TreeLang.Proofs.Numbers
import TreeLang.Proofs.Invoking
import TreeLang.Proofs.Marking
import TreeLang.Proofs.Carrying
import TreeLang.Proofs.Relocating
import TreeLang.Proofs.Alone
import TreeLang.Proofs.Templates
import TreeLang.Proofs.Substituting
import TreeLang.Proofs.Applying
import TreeLang.Proofs.Hearing
import TreeLang.Proofs.Expanding
import TreeLang.Proofs.Defining
import TreeLang.Proofs.Calls
import TreeLang.Proofs.Keeping
import TreeLang.Proofs.Nesting
import TreeLang.Proofs.Progress
import TreeLang.Proofs.Advancing
import TreeLang.Proofs.Blindness
import TreeLang.Proofs.Harmony
import TreeLang.Proofs.Evolving
import TreeLang.Proofs.Shelving
import TreeLang.Proofs.Precompiling
import TreeLang.Proofs.Sessions
import TreeLang.Proofs.Conforming
import TreeLang.Proofs.Joining
import TreeLang.Proofs.Abreast
import TreeLang.Proofs.Persisting
import TreeLang.Proofs.Appending
import TreeLang.Proofs.Drifting
import TreeLang.Proofs.Faulting
import TreeLang.Proofs.Handing
import TreeLang.Proofs.Enclosing
import TreeLang.Proofs.Escaping
import TreeLang.Proofs.Muffling
import TreeLang.Proofs.Isolating
import TreeLang.Proofs.Gathering
import TreeLang.Proofs.Importing
import TreeLang.Proofs.Tiling
import TreeLang.Proofs.Registering
import TreeLang.Proofs.Trailing
import TreeLang.Proofs.Growing
import TreeLang.Proofs.Barring
import TreeLang.Proofs.Upholding
import TreeLang.Proofs.Repeating
import TreeLang.Proofs.Accounting
import TreeLang.Proofs.Buffering
import TreeLang.Proofs.Iterating
import TreeLang.Proofs.Tracing
import TreeLang.Proofs.Conserving
import TreeLang.Proofs.Munching
import TreeLang.Proofs.Fitting
import TreeLang.Proofs.Replacing
import TreeLang.Proofs.Addressing
import TreeLang.Proofs.Covering
import TreeLang.Proofs.Deferring
import TreeLang.Proofs.Recursing
import TreeLang.Proofs.Copying
import TreeLang.Proofs.Withdrawing
import TreeLang.Proofs.Choosing
import TreeLang.Proofs.Visiting
import TreeLang.Proofs.Equating
import TreeLang.Proofs.Mistaking
import TreeLang.Proofs.Reporting
import TreeLang.Proofs.Locating
import TreeLang.Proofs.Pointing
import TreeLang.Proofs.Summarizing
import TreeLang.Proofs.Skipping
import TreeLang.Proofs.Rereading
import TreeLang.Proofs.Numbering
import TreeLang.Proofs.Entering
import TreeLang.Proofs.Quoting
import TreeLang.Proofs.Leaving
