import DomBuilder.Namespace
import DomBuilder.NodeId
import DomBuilder.DomError
import DomBuilder.Operation
import DomBuilder.Name
import DomBuilder.Name.Qualified
import DomBuilder.Tag
import DomBuilder.Text.Split
import DomBuilder.Text.Quoted
import DomBuilder.Text.Printable
import DomBuilder.Decimal.Binary
import DomBuilder.Decimal.Shortest
import DomBuilder.Decimal.Layout
import DomBuilder.Scalar
import DomBuilder.SymbolTable
import DomBuilder.Attribute
import DomBuilder.AttributeMap
import DomBuilder.PrefixTable
import DomBuilder.Argument
import DomBuilder.Json.Reading
import DomBuilder.Json.StringLiteral
import DomBuilder.Json.NumberLiteral
import DomBuilder.Json.Skipped
import DomBuilder.Json.Members
import DomBuilder.Config
import DomBuilder.Config.Json
import DomBuilder.Node
import DomBuilder.Document.Basic
import DomBuilder.Document.Create
import DomBuilder.Document.Walk
import DomBuilder.Document.Append
import DomBuilder.Document.Write
import DomBuilder.Markup.Escape
import DomBuilder.Markup.Writer
import DomBuilder.Event
import DomBuilder.AttributeKey
import DomBuilder.Builder
import DomBuilder.Proofs.Naming
import DomBuilder.Proofs.Qualified
import DomBuilder.Proofs.Links
import DomBuilder.Proofs.Walk
import DomBuilder.Proofs.Append
import DomBuilder.Proofs.Arrangement
import DomBuilder.Proofs.Forest
import DomBuilder.Proofs.Edit
import DomBuilder.Proofs.Reachable
import DomBuilder.Proofs.Ancestry
import DomBuilder.Proofs.Move
import DomBuilder.Proofs.Refusal
import DomBuilder.Proofs.Sameness
import DomBuilder.Proofs.Absorption
import DomBuilder.Proofs.Numbering
import DomBuilder.Proofs.InsertionOrder
import DomBuilder.Proofs.Lasting
import DomBuilder.Proofs.GivenName
import DomBuilder.Proofs.Attributes
import DomBuilder.Proofs.Identity
import DomBuilder.Proofs.Lookup
import DomBuilder.Proofs.Spanning
import DomBuilder.Proofs.Build.Leaves
import DomBuilder.Proofs.Build.Calls
import DomBuilder.Proofs.Build.Effect
import DomBuilder.Proofs.Build.Places
import DomBuilder.Proofs.Build.Markup
import DomBuilder.Proofs.Build.Attributes
import DomBuilder.Proofs.Build.Result
import DomBuilder.Proofs.Build.Adoption
import DomBuilder.Proofs.Build.Order
import DomBuilder.Proofs.Frame
import DomBuilder.Proofs.Markup.Entities
import DomBuilder.Proofs.Markup.Escape
import DomBuilder.Proofs.Markup.Fragment
import DomBuilder.Proofs.Markup.Names
import DomBuilder.Proofs.Markup.Legible
import DomBuilder.Proofs.Markup.Alike
import DomBuilder.Proofs.Json.Grammar
import DomBuilder.Proofs.Json.Strings
import DomBuilder.Proofs.Json.Values
import DomBuilder.Proofs.Json.Written
import DomBuilder.Proofs.Config.Members
import DomBuilder.Proofs.Config.RoundTrip
import DomBuilder.Proofs.Config.Canonical
import DomBuilder.Proofs.Decimal.Value
import DomBuilder.Proofs.Decimal.Shortest
import DomBuilder.Proofs.Decimal.Notation
import DomBuilder.Proofs.Decimal.PageText
