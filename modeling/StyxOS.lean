import StyxOS.Library.Run
import StyxOS.Task.Basic
import StyxOS.Sched.Basic
import StyxOS.Sched.Safety
import StyxOS.Cap.Basic
import StyxOS.Library.ByteMem
import StyxOS.Ipc.Basic
import StyxOS.Cap.History
import StyxOS.Cap.Provenance
import StyxOS.Cap.Revocation
import StyxOS.Sched.Space
import StyxOS.Ipc.Delivery
import StyxOS.Heap.Basic
import StyxOS.Library.Tiling
import StyxOS.Heap.Chain
import StyxOS.Heap.Alloc
import StyxOS.Heap.History
import StyxOS.Crypto.Aes
import StyxOS.Crypto.Gcm
import StyxOS.Crypto.Xts
import StyxOS.Library.Sha512
import StyxOS.Crypto.Sha512
import StyxOS.Storage.Merkle
import StyxOS.Storage.ReadAfterWrite
import StyxOS.Library.Layout
import StyxOS.Snapshot.Format
import StyxOS.Snapshot.Paging
import StyxOS.Snapshot.Store
import StyxOS.Snapshot.Session
import StyxOS.Snapshot.Commit
import StyxOS.Snapshot.Binding
import StyxOS.Snapshot.Restore
import StyxOS.Crypto.ChaCha20
import StyxOS.Library.Access
import StyxOS.Net.Frame
import StyxOS.Syscall.Machine
import StyxOS.Syscall.Network
import StyxOS.Syscall.Dispatch
import StyxOS.Syscall.Confinement
import StyxOS.Library.Bitmap
import StyxOS.Pmm.Basic
import StyxOS.Pmm.Soundness
import StyxOS.Library.Radix
import StyxOS.Vmm.Basic
import StyxOS.Vmm.Tables
import StyxOS.Vmm.Refine
import StyxOS.Vmm.Translate
import StyxOS.Elf.Basic
import StyxOS.Elf.Spaces
import StyxOS.Elf.Isolation
import StyxOS.Elf.Image
import StyxOS.Library.PathTree
import StyxOS.Oram.Basic
import StyxOS.Oram.Device
import StyxOS.Oram.Flaky
import StyxOS.Oram.Usb
import StyxOS.Oram.Invariant
import StyxOS.Oram.BlockStore
import StyxOS.Oram.Durability
import StyxOS.Oram.Transcript
import StyxOS.Oram.Hiding
import StyxOS.Snapshot.Nonce
import StyxOS.Syscall.Authority
import StyxOS.Ipc.Wakeup
import StyxOS.Irq.Acknowledge
import StyxOS.Storage.RootHash
import StyxOS.Storage.Coverage
import StyxOS.Fs.Fat32
import StyxOS.Fs.Volume
import StyxOS.Fs.Image
import StyxOS.Auth.Counter
import StyxOS.Library.Journal
import StyxOS.Storage.Trace
import StyxOS.Storage.Regions
import StyxOS.Storage.Mode
import StyxOS.Boot.Flow
import StyxOS.Boot.Contents
import StyxOS.Snapshot.Key
import StyxOS.Snapshot.Create
import StyxOS.Snapshot.Resume
import StyxOS.Snapshot.Frames
import StyxOS.Snapshot.Complete
import StyxOS.Library.CycleRing
import StyxOS.Xhci.Ring
import StyxOS.Library.IndexRing
import StyxOS.Net.TxRing
import StyxOS.Auth.Destruct
import StyxOS.Auth.Lockout
import StyxOS.Net.Tcp
import StyxOS.Net.FailClosed
import StyxOS.Storage.BulkOnly
import StyxOS.Xhci.Completion
import StyxOS.Auth.Fido2
import StyxOS.Auth.Preboot
import StyxOS.Sched.Handover
import StyxOS.Sched.Processor
import StyxOS.Tpm.Tis
import StyxOS.Tpm.Attestation
import StyxOS.Elf.Manifest
import StyxOS.Net.Cell
import StyxOS.Net.Padding
import StyxOS.Syscall.Pqc
import StyxOS.Sched.Switch
import StyxOS.Heap.Exact
import StyxOS.Elf.Bounds
import StyxOS.Heap.Live
import StyxOS.Pmm.Pool
import StyxOS.Task.Launch
import StyxOS.Task.Release
import StyxOS.Task.Creation
import StyxOS.Snapshot.Bounds
import StyxOS.Fs.Reading
import StyxOS.Fs.Termination
import StyxOS.Fs.Names
import StyxOS.Fs.Lookup
import StyxOS.Crypto.XtsSector
import StyxOS.Crypto.Sha512Stream
import StyxOS.Crypto.GcmMemory
import StyxOS.Crypto.GcmBuffers
import StyxOS.Crypto.Hkdf
import StyxOS.Library.OnesComplement
import StyxOS.Net.WireFormat
import StyxOS.Library.CyclicNames
import StyxOS.Net.Ports
import StyxOS.Crypto.Ghash
import StyxOS.Crypto.AesArray
import StyxOS.Net.Rotation
import StyxOS.User.Arena
import StyxOS.Cap.Derivation
import StyxOS.Cap.Pool
import StyxOS.Heap.Reuse
import StyxOS.Elf.Shared
import StyxOS.Library.ByteWriter
import StyxOS.Library.TpmWire
import StyxOS.Tpm.Commands
import StyxOS.Library.Sha256
import StyxOS.Tpm.SoftwarePcr
import StyxOS.Library.RoundRobin
import StyxOS.Sched.Fairness
import StyxOS.Library.Simulation
import StyxOS.Library.BoundedQueue
import StyxOS.Net.RxRing
import StyxOS.Vmm.Boot
import StyxOS.Console.Framebuffer
import StyxOS.Console.Terminal
import StyxOS.Console.Keyboard
import StyxOS.Console.Shell
import StyxOS.Library.X86
import StyxOS.Cpu.Tables
import StyxOS.Cpu.Entry
import StyxOS.Cpu.Syscall
import StyxOS.Library.OutputStream
import StyxOS.Library.Xoshiro
import StyxOS.Crypto.Csprng
import StyxOS.Cpu.Ring3
import StyxOS.Library.ConfigSpace
import StyxOS.Pci.Config
