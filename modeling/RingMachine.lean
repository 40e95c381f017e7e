import RingMachine.Main
import RingMachine.Proofs.Block
import RingMachine.Proofs.Layout
import RingMachine.Proofs.Pairing
import RingMachine.Proofs.BracketScan
import RingMachine.Proofs.Session
import RingMachine.Proofs.TextSafety
import RingMachine.Proofs.StructuredRun
import RingMachine.Proofs.HostTiming
import RingMachine.Proofs.Faults
import RingMachine.Proofs.Account
import RingMachine.Proofs.StepLimits
import RingMachine.Proofs.Lockstep
import RingMachine.Proofs.StreamDevices
import RingMachine.Proofs.StreamFailures
import RingMachine.Proofs.Verdict
import RingMachine.Proofs.Comments
import RingMachine.Proofs.Transparency
import RingMachine.Proofs.Rotation
import RingMachine.Proofs.Grammar
import RingMachine.Proofs.ImageBuild
import RingMachine.Proofs.Ledger
import RingMachine.Proofs.IdealScan
import RingMachine.Proofs.ScanInverse
import RingMachine.Proofs.ReadAhead
import RingMachine.Proofs.FailStop
import RingMachine.Proofs.AddressMoves
import RingMachine.Proofs.RamCopy
import RingMachine.Proofs.ScanCounts
import RingMachine.Proofs.ListingReader
