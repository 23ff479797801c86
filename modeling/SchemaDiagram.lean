import SchemaDiagram.Command.Run
import SchemaDiagram.Diagram.Integrity
import SchemaDiagram.Diagram.Json
import SchemaDiagram.Diagram.Markup
import SchemaDiagram.Main
import SchemaDiagram.Proofs.Command.Checking
import SchemaDiagram.Proofs.Command.Formatting
import SchemaDiagram.Proofs.Diagram.Finite
import SchemaDiagram.Proofs.Diagram.Issues
import SchemaDiagram.Proofs.Diagram.Membership
import SchemaDiagram.Proofs.Document.Complete
import SchemaDiagram.Proofs.Document.Filing
import SchemaDiagram.Proofs.Document.Rearranged
import SchemaDiagram.Proofs.Document.Recovery
import SchemaDiagram.Proofs.Document.Reports
import SchemaDiagram.Proofs.Document.Uncommented
import SchemaDiagram.Proofs.Markup.Defaults
import SchemaDiagram.Proofs.Markup.Parentheses
import SchemaDiagram.Proofs.Source.Lookup
import SchemaDiagram.Proofs.Token.BlockComments
import SchemaDiagram.Report
