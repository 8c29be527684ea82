import Augment.CommandLine
import Augment.Json.Settings
import Augment.Main
import Augment.Session
import Augment.Source.Outline
import Augment.Proofs.Interning
import Augment.Proofs.Names
import Augment.Proofs.Modifiers
import Augment.Proofs.Session
import Augment.Proofs.WellFormed
import Augment.Proofs.Processing
import Augment.Proofs.Report
import Augment.Proofs.Diagnostics
import Augment.Proofs.Isolation
import Augment.Proofs.Source.Grammar
import Augment.Proofs.Json
import Augment.Proofs.NormalForm
import Augment.Proofs.Appending
import Augment.Proofs.Atomicity
import Augment.Proofs.Skeleton
import Augment.Proofs.Preorder
import Augment.Proofs.PointUpdate
import Augment.Proofs.Source.Expression
import Augment.Proofs.Source.LineListing
import Augment.Proofs.Source.Insertion
import Augment.Proofs.Source.Clean
import Augment.Proofs.Traversal
