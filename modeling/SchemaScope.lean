import SchemaScope.Collection.Forest
import SchemaScope.Collection.Table
import SchemaScope.Declaration
import SchemaScope.Journal
import SchemaScope.Literal.Binary
import SchemaScope.Literal.Conversion
import SchemaScope.Literal.Decimal
import SchemaScope.Literal.Digit
import SchemaScope.Literal.Integer
import SchemaScope.Name
import SchemaScope.Navigation
import SchemaScope.Proofs.Declaration.Building
import SchemaScope.Proofs.Declaration.Numbering
import SchemaScope.Proofs.Declaration.Placement
import SchemaScope.Proofs.Literal.Blanks
import SchemaScope.Proofs.Literal.Hexadecimal
import SchemaScope.Proofs.Literal.Long
import SchemaScope.Proofs.Literal.Reading
import SchemaScope.Proofs.Name.Dotted
import SchemaScope.Proofs.Name.Forms
import SchemaScope.Proofs.Name.Relation
import SchemaScope.Proofs.Navigation.FullNames
import SchemaScope.Proofs.Navigation.Precedence
import SchemaScope.Proofs.Registry.Allocation
import SchemaScope.Proofs.Registry.Consistency
import SchemaScope.Proofs.Registry.Frame
import SchemaScope.Proofs.Registry.Ledger
import SchemaScope.Proofs.Registry.Updates
import SchemaScope.Proofs.Scope.Catalogue
import SchemaScope.Proofs.Scope.Closure
import SchemaScope.Proofs.Scope.Course
import SchemaScope.Proofs.Scope.Coverage
import SchemaScope.Proofs.Scope.Descriptor
import SchemaScope.Proofs.Scope.Exposure
import SchemaScope.Proofs.Scope.Filtering
import SchemaScope.Proofs.Scope.Growth
import SchemaScope.Proofs.Scope.Identity
import SchemaScope.Proofs.Scope.Levels
import SchemaScope.Proofs.Scope.Locality
import SchemaScope.Proofs.Scope.Reachable
import SchemaScope.Proofs.Scope.Retrace
import SchemaScope.Proofs.Scope.Termination
import SchemaScope.Proofs.Symbol.Lookup
import SchemaScope.Proofs.Symbol.Merge
import SchemaScope.Proofs.Symbol.Refinement
import SchemaScope.Proofs.Text.Trimming
import SchemaScope.Registry
import SchemaScope.Schema.Builder
import SchemaScope.Schema.File
import SchemaScope.Scope.Catalogue
import SchemaScope.Scope.Offers
import SchemaScope.Scope.Walk
import SchemaScope.Settings
import SchemaScope.Source
import SchemaScope.Symbol.Index
import SchemaScope.Text
