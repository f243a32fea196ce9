import Unpacking.Main
import Unpacking.Proofs.Text.Lines
import Unpacking.Proofs.Text.NameSet
import Unpacking.Proofs.Text.Reading
import Unpacking.Proofs.Line.Signature
import Unpacking.Proofs.Line.Basic
import Unpacking.Proofs.Package.Facts
import Unpacking.Proofs.Reflection.Term
import Unpacking.Proofs.Reflection.Placeholder
import Unpacking.Proofs.Reflection.Pass
import Unpacking.Proofs.Reflection.Run
import Unpacking.Proofs.Reflection.Worklist
import Unpacking.Proofs.Reflection.Soundness
import Unpacking.Proofs.Reflection.Blocks
import Unpacking.Proofs.Reflection.Balance
import Unpacking.Proofs.Reflection.Propagation
import Unpacking.Proofs.Reflection.Taint
import Unpacking.Proofs.Reflection.Idempotence
import Unpacking.Proofs.Reflection.Provenance
import Unpacking.Proofs.Analysis.Dependencies
import Unpacking.Proofs.Analysis.Consistency
import Unpacking.Proofs.Package.Packing
import Unpacking.Proofs.Text.Pattern
import Unpacking.Proofs.Reflection.Inert
import Unpacking.Proofs.Reflection.Revision
import Unpacking.Proofs.Renaming.Fresh
import Unpacking.Proofs.Renaming.Distinct
import Unpacking.Proofs.Renaming.Inert
import Unpacking.Proofs.Stage.Inert
import Unpacking.Proofs.Substitution.Inert
import Unpacking.Proofs.Unpacker.Synthesis
import Unpacking.Proofs.Unpacker.Agreement
import Unpacking.Proofs.Analysis.Independence
import Unpacking.Proofs.Analysis.Verdict
import Unpacking.Proofs.Stage.StaticMember
import Unpacking.Proofs.Stage.Balance
import Unpacking.Proofs.Renaming.Patch
import Unpacking.Proofs.Renaming.Edit
import Unpacking.Proofs.Renaming.Protected
import Unpacking.Proofs.Renaming.Relabel
import Unpacking.Proofs.Renaming.Rule
import Unpacking.Proofs.Renaming.Use
import Unpacking.Proofs.Renaming.Qualified
import Unpacking.Proofs.Stage.PlatformImport
import Unpacking.Proofs.Unpacker.Imports
import Unpacking.Proofs.File.Path
import Unpacking.Proofs.File.Tree
import Unpacking.Proofs.Batch.Artifacts
import Unpacking.Proofs.Discovery.Stem
import Unpacking.Proofs.Discovery.Blacklist
import Unpacking.Proofs.File.Work
import Unpacking.Proofs.Batch.Scheduling
import Unpacking.Proofs.Report.Reading
import Unpacking.Proofs.Batch.Summary
import Unpacking.Proofs.Batch.Results
import Unpacking.Proofs.Stage.Idempotence
import Unpacking.Proofs.Text.WholeWord
import Unpacking.Proofs.Stage.EntryPoint
import Unpacking.Proofs.Substitution.ClassLoader
import Unpacking.Proofs.Renaming.Reversal
import Unpacking.Proofs.Stage.ClassName
import Unpacking.Proofs.Reflection.Profile
import Unpacking.Proofs.Reflection.Failure
import Unpacking.Proofs.Text.Order
import Unpacking.Proofs.Analysis.EntryClass
import Unpacking.Proofs.Substitution.Literal
import Unpacking.Proofs.Text.Cuts
import Unpacking.Proofs.Substitution.InstalledPlace
