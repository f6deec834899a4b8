import Membrane.Config.Reader
import Membrane.Dispatch
import Membrane.Holding
import Membrane.Proofs.Sort.Inquiry
import Membrane.Proofs.Sort.Order
import Membrane.Proofs.Deeds
import Membrane.Proofs.Parts
import Membrane.Proofs.Quiet
import Membrane.Proofs.Walk
import Membrane.Proofs.Pass
import Membrane.Proofs.ListFunction
import Membrane.Proofs.Release
import Membrane.Proofs.Visits
import Membrane.Proofs.Narrowing
import Membrane.Proofs.Sort.Sign
import Membrane.Proofs.Storage
import Membrane.Proofs.Crossing
import Membrane.Proofs.Kinds
import Membrane.Proofs.Removal
import Membrane.Proofs.Refusal
import Membrane.Proofs.Equality
import Membrane.Proofs.Recognition
import Membrane.Proofs.Dictionary
import Membrane.Proofs.MapTraps
import Membrane.Proofs.Resolution
import Membrane.Proofs.Members
import Membrane.Proofs.Captures
import Membrane.Proofs.Enumeration
import Membrane.Proofs.Naming
import Membrane.Proofs.Copying
import Membrane.Proofs.FiniteTexts
import Membrane.Proofs.Writing
import Membrane.Proofs.Exposure
import Membrane.Proofs.Receivers
import Membrane.Proofs.Slots
import Membrane.Proofs.Sparing
import Membrane.Proofs.Privacy
import Membrane.Proofs.Components
import Membrane.Proofs.Calling
import Membrane.Proofs.Callbacks
import Membrane.Proofs.Safety
import Membrane.Proofs.FunctionParts
import Membrane.Proofs.Reading
import Membrane.Proofs.Soundness
import Membrane.Proofs.Suiting
import Membrane.Proofs.Events
import Membrane.Proofs.Arrays
import Membrane.Proofs.Iterators
import Membrane.Proofs.Snapshots
import Membrane.Proofs.Formatting
import Membrane.Proofs.SharedList
import Membrane.Proofs.NearestDeclaration
import Membrane.Proofs.Variants
import Membrane.Proofs.IndexKeys
import Membrane.Proofs.Visiting
import Membrane.Proofs.Readers
import Membrane.Proofs.MemberHistory
import Membrane.Proofs.HeldMembers
import Membrane.Proofs.SharedSet
import Membrane.Proofs.Locations
import Membrane.Proofs.FieldStore
import Membrane.Proofs.RoundTrip
import Membrane.Proofs.SmallForms
import Membrane.Proofs.Describing
import Membrane.Proofs.BeanProperties
import Membrane.Proofs.Statics
import Membrane.Proofs.SharedStatics
import Membrane.Proofs.Proceeding
import Membrane.Proofs.ArrayCopies
import Membrane.Proofs.ReadingBack
import Membrane.Proofs.DescriptorCache
import Membrane.Proofs.Ranges
import Membrane.Proofs.WordArithmetic
import Membrane.Proofs.BlockMoves
import Membrane.Proofs.Splices
import Membrane.Proofs.Searching
import Membrane.Proofs.Turns
import Membrane.Proofs.Folding
import Membrane.Proofs.Stopping
import Membrane.Proofs.Asking
import Membrane.Proofs.Deciding
import Membrane.Proofs.Sort.Natural
import Membrane.Proofs.ItemIndices
import Membrane.Proofs.KeyGrammar
import Membrane.Proofs.LowBits
import Membrane.Proofs.Hashing
