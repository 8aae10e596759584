import KernelModules.CompleteMonitor.IndexConsistency
import KernelModules.CompleteMonitor.HeldRecords
import KernelModules.CompleteMonitor.TimeOrder
import KernelModules.CompleteMonitor.Stop
import KernelModules.CompleteMonitor.BoundedLog
import KernelModules.CompleteMonitor.ActiveCount
import KernelModules.CompleteMonitor.LifetimeExtremes
import KernelModules.CompleteMonitor.FilterChanges
import KernelModules.CompleteMonitor.FilterText
import KernelModules.CompleteMonitor.FilterCommands
import KernelModules.CompleteMonitor.Lifetime
import KernelModules.CompleteMonitor.Reports
import KernelModules.CompleteMonitor.ListingText
import KernelModules.CompleteMonitor.Unload
import KernelModules.Agreement
import KernelModules.Handlers
import KernelModules.ConcurrencyControl.Queue
import KernelModules.ConcurrencyControl.Locks
import KernelModules.ConcurrencyControl.Workers
import KernelModules.ConcurrencyControl.WorkerLoop
import KernelModules.ConcurrencyControl.Readers
import KernelModules.ConcurrencyControl.Memory
import KernelModules.ConcurrencyControl.Values
import KernelModules.ConcurrencyControl.Report
import KernelModules.ConcurrencyControl.Completion
import KernelModules.ConcurrencyControl.Walks
import KernelModules.ConcurrencyControl.Serial
import KernelModules.KernelList.Commands
import KernelModules.KernelList.Log
import KernelModules.KernelList.Writers
import KernelModules.KernelList.Memory
import KernelModules.KernelList.ListText
import KernelModules.KernelList.Shows
import KernelModules.Loading
import KernelModules.Probes
import KernelModules.ProcInterface.Message
import KernelModules.ProcInterface.Writers
import KernelModules.ProcInterface.Counter
import KernelModules.ProcInterface.Info
import KernelModules.ProcessMonitor.Memory
import KernelModules.ProcessMonitor.ReportText
import KernelModules.SyscallIntercept.Counts
