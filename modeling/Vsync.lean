import Vsync.Machine
import Vsync.Rtos.ObjectOps
import Vsync.Rtos.CurrentTask
import Vsync.Rtos.Handshake
import Vsync.Rtos.Preemption
import Vsync.Rtos.Wakeups
import Vsync.Rtos.FirstRun
import Vsync.Rtos.RoundRobin
import Vsync.Rtos.Inheritance
import Vsync.Posix.ThreadCreate
import Vsync.Posix.ExitYield
import Vsync.Posix.QueueCalls
import Vsync.Posix.MutexCalls
import Vsync.Posix.SemCalls
import Vsync.Core.BusAccess
import Vsync.Core.CsrAccess
import Vsync.Core.Agreement
import Vsync.Core.Interrupt
import Vsync.Core.Misaligned
import Vsync.Core.Pipeline
import Vsync.Core.PreciseSwitch
import Vsync.Bus.Completion
import Vsync.Bus.DataMemory
import Vsync.Core.FetchStage
import Vsync.Bus.MasterProtocol
import Vsync.Bus.ApbTransactions
import Vsync.Posix.FdTable
import Vsync.Posix.CallHandshake
import Vsync.Bus.Fabric
import Vsync.Bus.Unmapped
import Vsync.Bus.SharedApb
import Vsync.Bus.HyperFlat
import Vsync.Posix.UartWrite
import Vsync.Posix.LibraryCalls
import Vsync.Posix.FailedCalls
import Vsync.Posix.PeriphCalls
import Vsync.Core.Rv32m
import Vsync.Rtos.Selection
import Vsync.Rtos.SemLaw
import Vsync.Boot.TrapStack
import Vsync.Bus.Plic
import Vsync.Bus.UartInterrupt
import Vsync.Bus.Loopback
import Vsync.Rtos.PmpUnit
import Vsync.Rtos.PmpLock
import Vsync.Rtos.Napot
import Vsync.Rtos.MutexLaw
import Vsync.Rtos.QueueLaw
import Vsync.Rtos.SwitchRoundTrip
import Vsync.Rtos.TimerTick
import Vsync.Rtos.BoostWrite
import Vsync.Core.Legal
import Vsync.Core.DataPath
import Vsync.Core.CsrLaw
import Vsync.Bus.Gpio
import Vsync.CString
import Vsync.Shell.Div64
import Vsync.Shell.DecimalText
import Vsync.Shell.HexText
import Vsync.Shell.Readline
import Vsync.Shell.ParseArgs
import Vsync.Bus.UartFifo
import Vsync.Core.Retired
import Vsync.Bus.HyperShape
import Vsync.Bus.UartSampling
import Vsync.Rtos.AxiWrite
