import TreeSyntax.Main
import TreeSyntax.Proofs.Derivation
import TreeSyntax.Proofs.Depth
import TreeSyntax.Proofs.Order
import TreeSyntax.Proofs.Limit
import TreeSyntax.Proofs.Edit
import TreeSyntax.Proofs.Locality
import TreeSyntax.Proofs.Coverage
import TreeSyntax.Proofs.Transparency
import TreeSyntax.Proofs.Likeness
import TreeSyntax.Proofs.KeyOrder
import TreeSyntax.Proofs.FreeText
import TreeSyntax.Proofs.EventLog
import TreeSyntax.Proofs.Origin
import TreeSyntax.Proofs.Printed
import TreeSyntax.Proofs.Reports
import TreeSyntax.Proofs.Stages
import TreeSyntax.Proofs.Primitive
import TreeSyntax.Proofs.Keys
import TreeSyntax.Proofs.Repair
import TreeSyntax.Proofs.Tower
import TreeSyntax.Proofs.Concatenation
import TreeSyntax.Proofs.Pointer
import TreeSyntax.Proofs.Wire
import TreeSyntax.Proofs.Manifest
import TreeSyntax.Proofs.LibrarySources
import TreeSyntax.Proofs.Fixture
import TreeSyntax.Proofs.Documents
import TreeSyntax.Proofs.Leaves
import TreeSyntax.Proofs.Accumulation
import TreeSyntax.Proofs.Lookup
import TreeSyntax.Proofs.FixtureRun
