import Storm.Library.Transition
import Storm.Library.DoublyLinked
import Storm.Library.ByteMemory
import Storm.Library.I386
import Storm.Library.Agreement
import Storm.Library.Interrupt
import Storm.Library.InterruptController
import Storm.Library.IntervalTimer
import Storm.Library.Extent
import Storm.Library.Allocation
import Storm.Library.RoundRobin
import Storm.Library.Device
import Storm.Library.SerialPort
import Storm.Library.Segment
import Storm.Lib.Basic
import Storm.Lib.List
import Storm.Lib.Printf
import Storm.Lib.PrintfText
import Storm.Lib.PrintfInteger
import Storm.Lib.PrintfHash
import Storm.Lib.PrintfFormat
import Storm.Lib.PrintfString
import Storm.Arch.ThreadAsm
import Storm.Arch.InterruptsAsm
import Storm.Arch.I8259
import Storm.Arch.I8259Chips
import Storm.Arch.Interrupts
import Storm.Arch.IrqHistory
import Storm.Arch.IrqBounds
import Storm.Arch.IrqSystem
import Storm.Arch.IrqRegistration
import Storm.Arch.InService
import Storm.Arch.Idt
import Storm.Arch.InterruptDelivery
import Storm.Arch.Gdt
import Storm.Arch.Cpu
import Storm.Arch.I8254
import Storm.Arch.Sleep
import Storm.Arch.Uart
import Storm.Arch.Devices
import Storm.Kernel.Heap
import Storm.Kernel.Thread
import Storm.Kernel.SetupStack
import Storm.Kernel.ContextSwitch
import Storm.Kernel.System
import Storm.Kernel.ThreadHeap
import Storm.Kernel.HeapBlocks
import Storm.Kernel.HeapRuns
import Storm.Kernel.HeapList
import Storm.Kernel.RunQueue
import Storm.Kernel.Scheduling
import Storm.Kernel.Runs
import Storm.Kernel.InitialFrame
import Storm.Kernel.Lifecycle
import Storm.Kernel.Scheduler
import Storm.Kernel.Idling
import Storm.Kernel.HeapLayout
import Storm.Kernel.StackPointers
import Storm.Kernel.ListedHeap
import Storm.Kernel.Panic
import Storm.Kernel.Main
import Storm.Kernel.Running
import Storm.Kernel.Exceptions
