import GuestMemory.Address
import GuestMemory.Text.Hex
import GuestMemory.Saturation
import GuestMemory.Bytes
import GuestMemory.Table
import GuestMemory.Code.Outcome
import GuestMemory.Code.Tree
import GuestMemory.Decode.Cursor
import GuestMemory.Decode.MicroOp
import GuestMemory.Fusion.Config
import GuestMemory.Fusion.Toolchain
import GuestMemory.Fusion.Branch
import GuestMemory.Fusion.Run
import GuestMemory.Fusion.Combine
import GuestMemory.Block.Store
import GuestMemory.Block.Lazy
import GuestMemory.Block.Ram
import GuestMemory.Block.CodeCache
import GuestMemory.Block.Basic
import GuestMemory.Memory.Error
import GuestMemory.Memory.Directory
import GuestMemory.Memory.Arena
import GuestMemory.Memory.Transfer
import GuestMemory.Memory.CodeRequest
import GuestMemory.Memory.Basic
import GuestMemory.Machine
import GuestMemory.Proofs.Block.Access
import GuestMemory.Proofs.Block.Code
import GuestMemory.Proofs.Block.Currency
import GuestMemory.Proofs.Code.Parts
import GuestMemory.Proofs.Fusion.Building
import GuestMemory.Proofs.Fusion.Dispatch
import GuestMemory.Proofs.Fusion.Extent
import GuestMemory.Proofs.Fusion.Geometry
import GuestMemory.Proofs.Fusion.Shape
import GuestMemory.Proofs.Fusion.Toy
import GuestMemory.Proofs.Machine.Currency
import GuestMemory.Proofs.Memory.Cells
import GuestMemory.Proofs.Memory.Currency
import GuestMemory.Proofs.Memory.Flat
import GuestMemory.Proofs.Memory.Related
import GuestMemory.Proofs.Memory.Writes
import GuestMemory.Proofs.Memory.Bytewise
import GuestMemory.Proofs.Memory.Request
import GuestMemory.Proofs.Memory.Eviction
import GuestMemory.Proofs.Memory.Reuse
import GuestMemory.Proofs.Machine.Effect
import GuestMemory.Proofs.Machine.Lifetime
import GuestMemory.Proofs.Fusion.Exactness
import GuestMemory.Proofs.Memory.Reads
import GuestMemory.Proofs.Machine.Firmware
import GuestMemory.Proofs.Machine.Straddling
import GuestMemory.Proofs.Block.Alike
import GuestMemory.Proofs.Memory.Alike
import GuestMemory.Proofs.Machine.Conversion
import GuestMemory.Proofs.Fusion.Hull
import GuestMemory.Proofs.Fusion.Resolutions
import GuestMemory.Proofs.Fusion.DepthLimit
import GuestMemory.Proofs.Memory.Map
import GuestMemory.Proofs.Memory.Wiring
import GuestMemory.Proofs.Machine.Counters
import GuestMemory.Proofs.Machine.Wiring
import GuestMemory.Proofs.Memory.Window
import GuestMemory.Proofs.Machine.Image
import GuestMemory.Proofs.Fusion.Projection
import GuestMemory.Proofs.Fusion.Effort
import GuestMemory.Proofs.Fusion.Arithmetic
import GuestMemory.Proofs.Code.Visits
import GuestMemory.Proofs.Memory.Clearing
import GuestMemory.Proofs.Block.Deferred
import GuestMemory.Proofs.Machine.Redirection
import GuestMemory.Proofs.Block.Contract
import GuestMemory.Proofs.Block.Invalidation
import GuestMemory.Proofs.Fusion.TrailingBranch
import GuestMemory.Proofs.Decode.Reading
