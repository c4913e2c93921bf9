import YamlNavigator.Ansi.Color
import YamlNavigator.Ansi.Escape
import YamlNavigator.Ansi.Palette
import YamlNavigator.Ansi.Style
import YamlNavigator.CommandLine.Flag
import YamlNavigator.CommandLine.Log
import YamlNavigator.CommandLine.Request
import YamlNavigator.CommandLine.Usage
import YamlNavigator.Config.Apply
import YamlNavigator.Config.Load
import YamlNavigator.Config.Location
import YamlNavigator.Config.Settings
import YamlNavigator.Config.Value
import YamlNavigator.Decimal.Binary64
import YamlNavigator.Decimal.Shortest
import YamlNavigator.Document.Compose
import YamlNavigator.Document.Node
import YamlNavigator.Document.Parsed
import YamlNavigator.Document.Path
import YamlNavigator.Document.Query
import YamlNavigator.Document.Tiling
import YamlNavigator.Document.Token
import YamlNavigator.Environment
import YamlNavigator.Files
import YamlNavigator.Main
import YamlNavigator.Navigator
import YamlNavigator.Program
import YamlNavigator.Proofs.Ansi.Codes
import YamlNavigator.Proofs.Ansi.Escape
import YamlNavigator.Proofs.Ansi.Faults
import YamlNavigator.Proofs.CommandLine.Values
import YamlNavigator.Proofs.Config.Layers
import YamlNavigator.Proofs.Config.Loading
import YamlNavigator.Proofs.Document.Abutting
import YamlNavigator.Proofs.Document.Address
import YamlNavigator.Proofs.Document.Aggregation
import YamlNavigator.Proofs.Document.Aliases
import YamlNavigator.Proofs.Document.Carriers
import YamlNavigator.Proofs.Document.Collecting
import YamlNavigator.Proofs.Document.Colons
import YamlNavigator.Proofs.Document.Completions
import YamlNavigator.Proofs.Document.Composition
import YamlNavigator.Proofs.Document.Dangling
import YamlNavigator.Proofs.Document.Enclosing
import YamlNavigator.Proofs.Document.Ending
import YamlNavigator.Proofs.Document.Excerpt
import YamlNavigator.Proofs.Document.Growth
import YamlNavigator.Proofs.Document.Introducing
import YamlNavigator.Proofs.Document.Leading
import YamlNavigator.Proofs.Document.Leaves
import YamlNavigator.Proofs.Document.Markers
import YamlNavigator.Proofs.Document.Matches
import YamlNavigator.Proofs.Document.MirrorQuery
import YamlNavigator.Proofs.Document.MirrorTokens
import YamlNavigator.Proofs.Document.MirrorTree
import YamlNavigator.Proofs.Document.Naming
import YamlNavigator.Proofs.Document.Neighbours
import YamlNavigator.Proofs.Document.Nesting
import YamlNavigator.Proofs.Document.Openers
import YamlNavigator.Proofs.Document.Outline
import YamlNavigator.Proofs.Document.Ownership
import YamlNavigator.Proofs.Document.Placement
import YamlNavigator.Proofs.Document.Positions
import YamlNavigator.Proofs.Document.Properties
import YamlNavigator.Proofs.Document.Reading
import YamlNavigator.Proofs.Document.Route
import YamlNavigator.Proofs.Document.Search
import YamlNavigator.Proofs.Document.Sizes
import YamlNavigator.Proofs.Document.Spanning
import YamlNavigator.Proofs.Document.Suggestions
import YamlNavigator.Proofs.Document.Tiles
import YamlNavigator.Proofs.Document.Totality
import YamlNavigator.Proofs.Document.Values
import YamlNavigator.Proofs.Document.Weaving
import YamlNavigator.Proofs.Navigator
import YamlNavigator.Proofs.Outcome
import YamlNavigator.Proofs.Program.Complaints
import YamlNavigator.Proofs.Program.Console
import YamlNavigator.Proofs.Program.Exit
import YamlNavigator.Proofs.Program.Input
import YamlNavigator.Proofs.Program.Window
import YamlNavigator.Proofs.Render.Alignment
import YamlNavigator.Proofs.Render.Indicators
import YamlNavigator.Proofs.Render.Lines
import YamlNavigator.Proofs.Render.MapKeys
import YamlNavigator.Proofs.Render.Margins
import YamlNavigator.Proofs.Render.MirrorLayout
import YamlNavigator.Proofs.Render.Numbering
import YamlNavigator.Proofs.Render.Pieces
import YamlNavigator.Proofs.Render.Respelling
import YamlNavigator.Proofs.Render.Strokes
import YamlNavigator.Proofs.Render.Styles
import YamlNavigator.Proofs.Text.Casing
import YamlNavigator.Proofs.Text.Dedent
import YamlNavigator.Proofs.Text.Lines
import YamlNavigator.Proofs.Text.Parts
import YamlNavigator.Proofs.Text.Spelling
import YamlNavigator.Proofs.Yaml.Derivation
import YamlNavigator.Proofs.Yaml.Division
import YamlNavigator.Proofs.Yaml.EventOrder
import YamlNavigator.Proofs.Yaml.Failing
import YamlNavigator.Proofs.Yaml.Gaps
import YamlNavigator.Proofs.Yaml.Inline
import YamlNavigator.Proofs.Yaml.Marks
import YamlNavigator.Proofs.Yaml.Mirror
import YamlNavigator.Proofs.Yaml.MirrorGrammar
import YamlNavigator.Proofs.Yaml.MirrorStream
import YamlNavigator.Proofs.Yaml.MirrorUnit
import YamlNavigator.Proofs.Yaml.Order
import YamlNavigator.Proofs.Yaml.Refusing
import YamlNavigator.Proofs.Yaml.Step
import YamlNavigator.Proofs.Yaml.Trailing
import YamlNavigator.Proofs.Yaml.Unit
import YamlNavigator.Render.Category
import YamlNavigator.Render.Layout
import YamlNavigator.Render.Printer
import YamlNavigator.Text.Blank
import YamlNavigator.Text.Dedent
import YamlNavigator.Text.Digit
import YamlNavigator.Text.Integer
import YamlNavigator.Text.Lines
import YamlNavigator.Text.LowerCase
import YamlNavigator.Text.Printable
import YamlNavigator.Text.Quoted
import YamlNavigator.Text.StandIn
import YamlNavigator.Text.Utf8
import YamlNavigator.Toml.Document
import YamlNavigator.Toml.Reader
import YamlNavigator.Yaml.Cursor
import YamlNavigator.Yaml.Event
import YamlNavigator.Yaml.Event.Grammar
import YamlNavigator.Yaml.Lexeme
import YamlNavigator.Yaml.Lexeme.Block
import YamlNavigator.Yaml.Lexeme.Directive
import YamlNavigator.Yaml.Lexeme.Name
import YamlNavigator.Yaml.Lexeme.Plain
import YamlNavigator.Yaml.Lexeme.Quoted
import YamlNavigator.Yaml.Lexeme.Stream
import YamlNavigator.Yaml.Problem
import YamlNavigator.Yaml.Resolve
import YamlNavigator.Yaml.Scan
