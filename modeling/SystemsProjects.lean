import SystemsProjects.Lib.Bytes
import SystemsProjects.Lib.Links
import SystemsProjects.Lib.Heap
import SystemsProjects.Vm.Machine
import SystemsProjects.Vm.Paging
import SystemsProjects.Vm.Driver
import SystemsProjects.Vm.Fields
import SystemsProjects.Vm.SwapQueue
import SystemsProjects.Vm.Invariant
import SystemsProjects.Vm.Eviction
import SystemsProjects.Vm.Freeing
import SystemsProjects.Lib.Loops
import SystemsProjects.Vm.Access
import SystemsProjects.Vm.Checker
import SystemsProjects.Vm.Output
import SystemsProjects.Vm.FlatMemory
import SystemsProjects.Vm.Policies
import SystemsProjects.Vm.Wraparound
import SystemsProjects.Chat.Membership
import SystemsProjects.Lib.Answers
import SystemsProjects.Lib.Counting
import SystemsProjects.Sched.Delivery
import SystemsProjects.Sched.Sequential
import SystemsProjects.Sched.Shortest
import SystemsProjects.Sched.Wakeups
import SystemsProjects.Chat.Broadcasts
import SystemsProjects.Chat.Framing
import SystemsProjects.Chat.Handshake
import SystemsProjects.Sched.Aging
import SystemsProjects.Vm.FrameZero
import SystemsProjects.Lc.Assembly
import SystemsProjects.Lc.Isa
import SystemsProjects.Lc.Lines
import SystemsProjects.Lc.Linking
import SystemsProjects.Irq.Alone
import SystemsProjects.Irq.Transparency
import SystemsProjects.Sched.ReadyQueue
import SystemsProjects.Sched.Accounting
import SystemsProjects.Vm.SecondChance
import SystemsProjects.Lc.Acceptance
import SystemsProjects.Lc.Ascii
import SystemsProjects.Lc.Concatenation
import SystemsProjects.Lc.Debugger
import SystemsProjects.Lc.Losses
import SystemsProjects.Pow.Run
import SystemsProjects.Vm.Calls
import SystemsProjects.Vm.History
import SystemsProjects.Vm.Residency
import SystemsProjects.Chat.Closing
import SystemsProjects.Chat.Deliveries
import SystemsProjects.Chat.Attribution
import SystemsProjects.Lc.Memory
import SystemsProjects.Lc.Operands
import SystemsProjects.Sched.Waits
import SystemsProjects.Cpu.Prj2
