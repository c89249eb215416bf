import BaremetalCrt.Launch.Transfer
import BaremetalCrt.Launch.Discipline
import BaremetalCrt.Launch.Polling
import BaremetalCrt.Launch.CommArea
import BaremetalCrt.Launch.Receive
import BaremetalCrt.Runtime.DeviceMemory
import BaremetalCrt.Launch.DataFlow
import BaremetalCrt.Launch.Image
import BaremetalCrt.Launch.Decode
import BaremetalCrt.Lib.Hex
import BaremetalCrt.Lib.Rsp
import BaremetalCrt.Gdb.Link
import BaremetalCrt.Gdb.Pieces
import BaremetalCrt.Gdb.Frame
import BaremetalCrt.Gdb.Integrity
import BaremetalCrt.Gdb.Stub
import BaremetalCrt.Gdb.Requests
import BaremetalCrt.Gdb.DeadLink
import BaremetalCrt.Gdb.Peer
import BaremetalCrt.Gdb.Dialogs
import BaremetalCrt.Gdb.Session
import BaremetalCrt.Lib.Chain
import BaremetalCrt.Runtime.Registry
import BaremetalCrt.Lib.Ledger
import BaremetalCrt.Runtime.Handles
import BaremetalCrt.Lib.Layout
import BaremetalCrt.Elf.Load
import BaremetalCrt.Elf.Phases
import BaremetalCrt.Elf.Bounds
import BaremetalCrt.Elf.Format
import BaremetalCrt.Elf.Accept
import BaremetalCrt.Elf.Limits
import BaremetalCrt.Elf.Classes
import BaremetalCrt.Lib.Overwrite
import BaremetalCrt.Runtime.Arguments
import BaremetalCrt.Launch.Arguments
import BaremetalCrt.Runtime.Buffers
import BaremetalCrt.Launch.Bounds
import BaremetalCrt.Launch.Aliasing
import BaremetalCrt.Lib.Lockstep
import BaremetalCrt.Launch.Capture
import BaremetalCrt.Elf.Reads
import BaremetalCrt.Runtime.Blind
import BaremetalCrt.Api.Process
import BaremetalCrt.Api.Capture
import BaremetalCrt.Api.TwoRuns
import BaremetalCrt.Pci.Sysfs
import BaremetalCrt.Lib.Copy
import BaremetalCrt.Pci.Copy
import BaremetalCrt.Pci.Windows
import BaremetalCrt.Lib.Register
import BaremetalCrt.Pci.Sizing
import BaremetalCrt.Pci.Bars
import BaremetalCrt.Pci.Decode
import BaremetalCrt.Pci.Mapping
import BaremetalCrt.Gdb.Resync
import BaremetalCrt.Runtime.Discovery
import BaremetalCrt.Lib.Holding
import BaremetalCrt.Runtime.Lives
import BaremetalCrt.Pci.Lives
import BaremetalCrt.Gdb.Lives
import BaremetalCrt.Runtime.Drivers
import BaremetalCrt.Runtime.StartUp
import BaremetalCrt.Lib.Lines
import BaremetalCrt.Pci.DeviceList
import BaremetalCrt.Pci.Enum
import BaremetalCrt.Api.Chunks
import BaremetalCrt.Lib.Simulation
import BaremetalCrt.Launch.Simulation
import BaremetalCrt.Launch.Target
import BaremetalCrt.Gdb.Board
import BaremetalCrt.Gdb.OverWire
import BaremetalCrt.Api.Simulation
import BaremetalCrt.Launch.Call
import BaremetalCrt.Lib.Follow
import BaremetalCrt.Gdb.Noise
import BaremetalCrt.Lib.Window
import BaremetalCrt.Pci.Memory
import BaremetalCrt.Launch.Executable
import BaremetalCrt.Lib.Spares
import BaremetalCrt.Api.Frames
import BaremetalCrt.Api.Remote
