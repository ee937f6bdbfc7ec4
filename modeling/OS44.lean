import OS44.Library.Runs
import OS44.Library.LinkedTree
import OS44.Library.LittleEndian
import OS44.Library.FirstFit
import OS44.Library.PoolList
import OS44.Library.ByteRange
import OS44.Library.Ram
import OS44.Library.X86
import OS44.BootInfo
import OS44.Kernel.String
import OS44.Mem.Pmm
import OS44.Mem.PmmRun
import OS44.Mem.Alloc
import OS44.Mem.AllocExact
import OS44.Mem.Paging
import OS44.Mem.PageTables
import OS44.Mem.PagingMap
import OS44.Mem.PagingRun
import OS44.Mem.PagingBytes
import OS44.Mem.TablesOnBytes
import OS44.Mem.PagingOnBytes
import OS44.Mem.FirmwareTables
import OS44.Mem.PagingCpu
import OS44.Mem.Vmm
import OS44.Mem.VmmPages
import OS44.Mem.VmmList
import OS44.Mem.VmmRun
import OS44.Mem.MapFrames
import OS44.Mem.VmmFrames
import OS44.Mem.VmmOnBytes
import OS44.Mem.VmmPool
import OS44.Mem.VmmIdentity
import OS44.Mem.MapFailure
import OS44.Mem.VmmResult
import OS44.Mem.VmmAddress
import OS44.Mem.MemInit
import OS44.Boot.HandOff
import OS44.Boot.LoadKernel
import OS44.Boot.LoadReads
import OS44.Interrupts.Isr
import OS44.Keyboard.Keyboard
import OS44.Process.Process
import OS44.Process.Pids
import OS44.Process.Create
import OS44.Process.Kill
import OS44.Process.RunTime
import OS44.Pci.Pci
import OS44.Pci.Enumeration
import OS44.Pci.Registers
import OS44.Ide.Ide
import OS44.Ide.Polls
import OS44.Ide.Identify
import OS44.Ide.Init
import OS44.Ide.Presence
import OS44.Ide.Ports
import OS44.Ide.IdentifyLayout
import OS44.Ide.Ata
import OS44.Ide.Requests
import OS44.Framebuffer.Font
import OS44.Framebuffer.Framebuffer
import OS44.Framebuffer.Screen
import OS44.Framebuffer.DoubleBuffer
import OS44.Framebuffer.Clear
import OS44.Framebuffer.Once
import OS44.Shell.Text
import OS44.Interrupts.Panic
import OS44.Shell.Shell
import OS44.Shell.Leftover
import OS44.Shell.Lines
import OS44.Shell.Editor
import OS44.Shell.History
import OS44.Library.Words
import OS44.Sysinfo.Features
import OS44.Library.Numerals
import OS44.Library.BoundedText
import OS44.Shell.Digits
import OS44.Panels.Appends
import OS44.Panels.AppendsAt
import OS44.Panels.Lines
import OS44.Library.I8259
import OS44.Interrupts.Pic
import OS44.Keyboard.Controller
import OS44.Timer.Pit
import OS44.Interrupts.Irq
import OS44.Library.CLayout
import OS44.Library.Reading
import OS44.Interrupts.Idt
import OS44.Boot.BootRecord
import OS44.Interrupts.PanicText
import OS44.Ide.Store
import OS44.Process.Stacks
import OS44.Sysinfo.Sysinfo
import OS44.Panels.Texts
import OS44.Panels.DebugPanel
import OS44.Panels.PanelSteps
import OS44.Panels.PanelText
import OS44.Panels.PanelScreen
import OS44.Kernel.Main
