import Collation.Assembler.Request
import Collation.Comparator.Registry
import Collation.Main
import Collation.Proofs.Descriptor
import Collation.Proofs.Matching
import Collation.Proofs.ClassFile.Reading
import Collation.Proofs.Typing.Conformance
import Collation.Proofs.Typing.Acceptance
import Collation.Proofs.Typing.FrameSteps
import Collation.Proofs.Typing.Soundness
import Collation.Proofs.Typing.Entry
import Collation.Proofs.Typing.Calls
import Collation.Proofs.Typing.Fields
import Collation.Proofs.Text.ModifiedUtf8
import Collation.Proofs.ClassFile.Written
import Collation.Proofs.ClassFile.Attributes
import Collation.Proofs.Code.Spelling
import Collation.Proofs.Assembler.Writing
import Collation.Proofs.Assembler.Emission
import Collation.Proofs.Typing.Passing
import Collation.Proofs.Machine.Execution
import Collation.Proofs.Comparator.Text
import Collation.Proofs.Comparator.Checked
import Collation.Proofs.Comparator.Loaded
import Collation.Proofs.Comparator.Agreement
import Collation.Proofs.Comparator.Compilable
import Collation.Proofs.Comparator.Registry
import Collation.Proofs.Assembler.RoundTrip
import Collation.Proofs.Machine.Dispatch
import Collation.Proofs.Typing.StackRoom
import Collation.Proofs.Typing.Static
import Collation.Proofs.Assembler.Atomicity
import Collation.Proofs.Assembler.Steps
import Collation.Proofs.Assembler.Journal
import Collation.Proofs.Assembler.Bounds
import Collation.Proofs.Assembler.Places
import Collation.Proofs.Assembler.Backpatch
import Collation.Proofs.Assembler.Sealing
import Collation.Proofs.Comparator.Unset
import Collation.Proofs.ClassFile.Delimited
import Collation.Proofs.Comparator.Order
import Collation.Proofs.Comparator.Domain
import Collation.Proofs.Typing.Linking
import Collation.Proofs.Text.Canonical
import Collation.Proofs.Descriptor.Grammar
import Collation.Proofs.Machine.Forward
import Collation.Proofs.Layout
import Collation.Proofs.ClassFile.Resolution
import Collation.Proofs.Code.Tiling
import Collation.Proofs.Bytes.Patching
