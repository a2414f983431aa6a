import ObjectBroker.Builder.SequenceValue
import ObjectBroker.Builder.StructValue
import ObjectBroker.Builder.UnionValue
import ObjectBroker.Codec.Decode
import ObjectBroker.Codec.Encode
import ObjectBroker.Naming
import ObjectBroker.Proofs.Builder.Conformance
import ObjectBroker.Proofs.Builder.Parts
import ObjectBroker.Proofs.Builder.RoundTrip
import ObjectBroker.Proofs.Builder.Sequences
import ObjectBroker.Proofs.Builder.Transmission
import ObjectBroker.Proofs.Builder.UnionRuns
import ObjectBroker.Proofs.Builder.Zero
import ObjectBroker.Proofs.Codec.Acceptance
import ObjectBroker.Proofs.Codec.Atomic
import ObjectBroker.Proofs.Codec.Canonical
import ObjectBroker.Proofs.Codec.Collapse
import ObjectBroker.Proofs.Codec.Depth
import ObjectBroker.Proofs.Codec.Described
import ObjectBroker.Proofs.Codec.Locality
import ObjectBroker.Proofs.Codec.Soundness
import ObjectBroker.Proofs.Codec.Transparency
import ObjectBroker.Proofs.Codec.Unions
import ObjectBroker.Proofs.Codec.Volume
import ObjectBroker.Proofs.Session.Binding
import ObjectBroker.Proofs.Session.Conversation
import ObjectBroker.Proofs.Session.Correlation
import ObjectBroker.Proofs.Session.LifeCycle
import ObjectBroker.Proofs.Session.RoundTrip
import ObjectBroker.Proofs.Session.Routing
import ObjectBroker.Proofs.TypeCode.Collapse
import ObjectBroker.Proofs.TypeCode.RoundTrip
import ObjectBroker.Proofs.Typed.Interface
import ObjectBroker.Proofs.Types.Compatible
import ObjectBroker.Proofs.Types.Preorder
import ObjectBroker.Proofs.Types.Rewriting
import ObjectBroker.Session.Broker
import ObjectBroker.Types.Assignable
import ObjectBroker.Types.Substitution
import ObjectBroker.Values.Conformance
import ObjectBroker.Values.Equality
import ObjectBroker.Values.Zero
import ObjectBroker.Wire.Stream
import ObjectBroker.Proofs.Builder.BranchNames
import ObjectBroker.Proofs.Codec.Periodicity
import ObjectBroker.Proofs.Wire.Streams
