import ClassStub.Main
import ClassStub.Text.Quoted
import ClassStub.Files.FileSystem
import ClassStub.Proofs.Irrelevance
import ClassStub.Proofs.HiddenParts
import ClassStub.Proofs.SurfaceAttempts
import ClassStub.Proofs.VerifiedReading
import ClassStub.Proofs.AssembledClasses
import ClassStub.Proofs.Truncation
import ClassStub.Proofs.ReserializedPools
import ClassStub.Proofs.DecodingFailures
import ClassStub.Proofs.InternedPools
import ClassStub.Proofs.Traces
import ClassStub.Proofs.AssemblyFailures
import ClassStub.Proofs.StubFailures
import ClassStub.Proofs.StringEncoding
import ClassStub.Proofs.StubBodies
import ClassStub.Proofs.ExactLengths
import ClassStub.Proofs.AnnotationOrder
import ClassStub.Proofs.AssemblyProtocol
import ClassStub.Proofs.InterleavedEvents
import ClassStub.Proofs.FileTrees
import ClassStub.Proofs.FollowedPaths
import ClassStub.Proofs.GrownOutputs
import ClassStub.Proofs.BatchWalks
import ClassStub.Proofs.StubbedTrees
import ClassStub.Proofs.InterruptedReplays
import ClassStub.Proofs.NestedValues
import ClassStub.Proofs.StoredValues
