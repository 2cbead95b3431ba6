import PluralForms.Balance
import PluralForms.Main
import PluralForms.Native.Arm
import PluralForms.Program.Builder
import PluralForms.Prompt
import PluralForms.Proofs.Arm.Simulation
import PluralForms.Proofs.Caching
import PluralForms.Proofs.Completeness
import PluralForms.Proofs.Engine
import PluralForms.Proofs.FatalErrors
import PluralForms.Proofs.Faults
import PluralForms.Proofs.Forward
import PluralForms.Proofs.Installation
import PluralForms.Proofs.Recency
import PluralForms.Proofs.Registry
import PluralForms.Proofs.RunLength
import PluralForms.Proofs.X86.Simulation
import PluralForms.SyntaxTree.Debug
import PluralForms.Proofs.Reachability
import PluralForms.Proofs.Convergence
import PluralForms.Proofs.Shape
import PluralForms.Proofs.Trimming
import PluralForms.Proofs.TrimmingPasses
import PluralForms.Proofs.Elision
import PluralForms.Proofs.Fusion
import PluralForms.Proofs.Rest
import PluralForms.Proofs.SelectionCompleteness
import PluralForms.Proofs.Printing
import PluralForms.Proofs.FaultPlaces
import PluralForms.Proofs.NativeCode
import PluralForms.Proofs.Enclosure
import PluralForms.Proofs.HeaderLayout
import PluralForms.Proofs.CountRange
import PluralForms.Proofs.Balance
import PluralForms.Proofs.Session
import PluralForms.Proofs.HeaderParts
import PluralForms.Proofs.HeaderLines
import PluralForms.Proofs.Loading
import PluralForms.Proofs.WrittenTokens
import PluralForms.Proofs.Relocation
import PluralForms.Proofs.Arm.Constants
