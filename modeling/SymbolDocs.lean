import SymbolDocs.Code.Highlight
import SymbolDocs.Code.Stylesheet
import SymbolDocs.Command.Arguments
import SymbolDocs.Command.Run
import SymbolDocs.Decimal.Double
import SymbolDocs.Decimal.Literal
import SymbolDocs.Decimal.Shortest
import SymbolDocs.Digest
import SymbolDocs.Documentation.Basic
import SymbolDocs.Documentation.Codec
import SymbolDocs.Documentation.Grammar
import SymbolDocs.Documentation.Markup
import SymbolDocs.Documentation.Render
import SymbolDocs.Fault
import SymbolDocs.Files
import SymbolDocs.Flags
import SymbolDocs.Graph.Basic
import SymbolDocs.Graph.Load
import SymbolDocs.Graph.Reach
import SymbolDocs.Json.Reader
import SymbolDocs.Json.Writer
import SymbolDocs.Kind
import SymbolDocs.Link.Host
import SymbolDocs.Link.Href
import SymbolDocs.Link.Join
import SymbolDocs.Link.Target
import SymbolDocs.Main
import SymbolDocs.Markdown.Block
import SymbolDocs.Markdown.Element
import SymbolDocs.Markdown.Inline
import SymbolDocs.Markdown.Render
import SymbolDocs.Markdown.Source
import SymbolDocs.Markdown.Table
import SymbolDocs.Markup.Entity
import SymbolDocs.Markup.Escape
import SymbolDocs.Markup.Strip
import SymbolDocs.Members.Group
import SymbolDocs.Members.Order
import SymbolDocs.Navigation
import SymbolDocs.Options
import SymbolDocs.Packages
import SymbolDocs.Packages.Bundled
import SymbolDocs.Page.Body
import SymbolDocs.Page.Frame
import SymbolDocs.Page.Name
import SymbolDocs.Page.Plan
import SymbolDocs.Path
import SymbolDocs.Printing.Layout
import SymbolDocs.Printing.Render
import SymbolDocs.Printing.Rules
import SymbolDocs.Proofs.Addresses
import SymbolDocs.Proofs.Admissible
import SymbolDocs.Proofs.Aliases
import SymbolDocs.Proofs.Ancestry
import SymbolDocs.Proofs.Anchors
import SymbolDocs.Proofs.Arranging
import SymbolDocs.Proofs.Building
import SymbolDocs.Proofs.Calls
import SymbolDocs.Proofs.CanonicalText
import SymbolDocs.Proofs.Codec
import SymbolDocs.Proofs.Coherence
import SymbolDocs.Proofs.Depth
import SymbolDocs.Proofs.Described
import SymbolDocs.Proofs.Direct
import SymbolDocs.Proofs.DocGrammar
import SymbolDocs.Proofs.Encoding
import SymbolDocs.Proofs.Endings
import SymbolDocs.Proofs.Exploring
import SymbolDocs.Proofs.Faults
import SymbolDocs.Proofs.FlatNames
import SymbolDocs.Proofs.Following
import SymbolDocs.Proofs.Forms
import SymbolDocs.Proofs.Grouping
import SymbolDocs.Proofs.Guards
import SymbolDocs.Proofs.Headings
import SymbolDocs.Proofs.Heights
import SymbolDocs.Proofs.InPlace
import SymbolDocs.Proofs.Indexes
import SymbolDocs.Proofs.JsonText
import SymbolDocs.Proofs.Lineage
import SymbolDocs.Proofs.Loading
import SymbolDocs.Proofs.Lockstep
import SymbolDocs.Proofs.Lookup
import SymbolDocs.Proofs.Mappings
import SymbolDocs.Proofs.Merging
import SymbolDocs.Proofs.Navigating
import SymbolDocs.Proofs.Nesting
import SymbolDocs.Proofs.PageTwins
import SymbolDocs.Proofs.Parts
import SymbolDocs.Proofs.PlainMarkup
import SymbolDocs.Proofs.PlainText
import SymbolDocs.Proofs.Planning
import SymbolDocs.Proofs.Prose
import SymbolDocs.Proofs.Publishing
import SymbolDocs.Proofs.ReadBack
import SymbolDocs.Proofs.Reading
import SymbolDocs.Proofs.RecordOrder
import SymbolDocs.Proofs.References
import SymbolDocs.Proofs.Reflecting
import SymbolDocs.Proofs.Refusing
import SymbolDocs.Proofs.RenderOrder
import SymbolDocs.Proofs.Rendering
import SymbolDocs.Proofs.Resolution
import SymbolDocs.Proofs.RoundTrip
import SymbolDocs.Proofs.SameSite
import SymbolDocs.Proofs.Surveying
import SymbolDocs.Proofs.Swapping
import SymbolDocs.Proofs.Tables
import SymbolDocs.Proofs.Trails
import SymbolDocs.Proofs.Twins
import SymbolDocs.Proofs.Unbounded
import SymbolDocs.Proofs.Visible
import SymbolDocs.Proofs.VisibleText
import SymbolDocs.Proofs.Walk
import SymbolDocs.Proofs.WellFormed
import SymbolDocs.Proofs.Work
import SymbolDocs.Proofs.Wrappers
import SymbolDocs.Publish
import SymbolDocs.Session
import SymbolDocs.Settings.Basic
import SymbolDocs.Settings.Canonical
import SymbolDocs.Settings.Merge
import SymbolDocs.Summary.Codec
import SymbolDocs.Summary.Reader
import SymbolDocs.Summary.Record
import SymbolDocs.Summary.Serialize
import SymbolDocs.Template
import SymbolDocs.Text.Blank
import SymbolDocs.Text.Digit
import SymbolDocs.Text.Printable
import SymbolDocs.Text.Quoted
import SymbolDocs.Text.Search
import SymbolDocs.Value.Basic
import SymbolDocs.Value.Text
import SymbolDocs.Warning
import SymbolDocs.Yaml.Reader
import SymbolDocs.Yaml.Scalar
import SymbolDocs.Yaml.Token
