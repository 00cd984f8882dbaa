import RefinementTypes.Evaluation.SampleHost
import RefinementTypes.Proofs.Application
import RefinementTypes.Proofs.Declaration.Batch
import RefinementTypes.Proofs.Declaration.Leaves
import RefinementTypes.Proofs.Evaluation.Coexistence
import RefinementTypes.Proofs.Evaluation.Ends
import RefinementTypes.Proofs.Evaluation.Extension
import RefinementTypes.Proofs.Evaluation.Holding
import RefinementTypes.Proofs.Evaluation.LiteralConversion
import RefinementTypes.Proofs.Evaluation.Nesting
import RefinementTypes.Proofs.Evaluation.Obligation
import RefinementTypes.Proofs.Evaluation.Resolution
import RefinementTypes.Proofs.Evaluation.SampleHost
import RefinementTypes.Proofs.Evaluation.Simulation
import RefinementTypes.Proofs.Schema.Descriptor
import RefinementTypes.Proofs.Schema.Field
import RefinementTypes.Proofs.Schema.Term
import RefinementTypes.Proofs.Service.Body
import RefinementTypes.Proofs.Service.Derivation
import RefinementTypes.Proofs.Service.Exchange
import RefinementTypes.Proofs.Shape.Capture
import RefinementTypes.Proofs.Shape.Grammar
import RefinementTypes.Proofs.Shape.Verdict
import RefinementTypes.Proofs.Source.ExplicitChain
import RefinementTypes.Proofs.Source.Literal
import RefinementTypes.Proofs.Source.Partition
import RefinementTypes.Proofs.Source.ShortSignature
import RefinementTypes.Proofs.Source.Unambiguous
import RefinementTypes.Proofs.Source.Whole
import RefinementTypes.Proofs.Source.Writable
import RefinementTypes.Proofs.Term.Dangling
import RefinementTypes.Proofs.Text.Whole
import RefinementTypes.Service.Exchange
