import LinuxProgramming.Foundation.Machine
import LinuxProgramming.Foundation.Monitor
import LinuxProgramming.SharedStack.Operations
import LinuxProgramming.SharedStack.Linearizable
import LinuxProgramming.Foundation.Tally
import LinuxProgramming.ProducerConsumer.Program
import LinuxProgramming.ProducerConsumer.Sending
import LinuxProgramming.ProducerConsumer.Bound
import LinuxProgramming.ProducerConsumer.Counting
import LinuxProgramming.ProducerConsumer.Delivery
import LinuxProgramming.ProducerConsumer.Accounting
import LinuxProgramming.Foundation.CString
import LinuxProgramming.Foundation.Stdio
import LinuxProgramming.Dictionary.Convert
import LinuxProgramming.Dictionary.LinearLookup
import LinuxProgramming.Dictionary.MappedLookup
import LinuxProgramming.Dictionary.Remote
import LinuxProgramming.Dictionary.Conversation
import LinuxProgramming.Foundation.Descriptors
import LinuxProgramming.Foundation.Process
import LinuxProgramming.Shell.Pipeline
import LinuxProgramming.Shell.Wiring
import LinuxProgramming.Shell.Redirection
import LinuxProgramming.Foundation.Fuel
import LinuxProgramming.Foundation.Siblings
import LinuxProgramming.ProcessTree.Sorting
import LinuxProgramming.ProcessTree.Printing
import LinuxProgramming.ProcessTree.Completeness
import LinuxProgramming.Foundation.Signals
import LinuxProgramming.Signals.SystemV
import LinuxProgramming.FileCopy.Copiers
import LinuxProgramming.Signals.PingPong
import LinuxProgramming.Foundation.Lineage
import LinuxProgramming.Shell.Command
import LinuxProgramming.Foundation.Family
import LinuxProgramming.Shell.Foreground
import LinuxProgramming.Dictionary.Server
import LinuxProgramming.Shell.AnyChild
import LinuxProgramming.Dictionary.Datagrams
import LinuxProgramming.Foundation.Strtok
import LinuxProgramming.Shell.Parse
import LinuxProgramming.Shell.Dispatch
import LinuxProgramming.SharedStack.Headcount
import LinuxProgramming.SharedStack.Wakeup
import LinuxProgramming.Dictionary.Agreement
import LinuxProgramming.Shell.Tokens
import LinuxProgramming.ProcessTree.Pointers
import LinuxProgramming.ProcessTree.ChildLists
import LinuxProgramming.Shell.FailedRedirection
import LinuxProgramming.Shell.Malformed
import LinuxProgramming.Shell.Background
import LinuxProgramming.FileTail.Tail
import LinuxProgramming.SequenceServer.Fifo
import LinuxProgramming.Coprocess.Client
import LinuxProgramming.CustomPopen.Streams
import LinuxProgramming.ToUpper.Pipes
import LinuxProgramming.Shell.Echo
import LinuxProgramming.Dictionary.Client
import LinuxProgramming.Dictionary.Fields
import LinuxProgramming.Signals.Pause
import LinuxProgramming.Coprocess.Chunks
import LinuxProgramming.ProducerConsumer.Batches
import LinuxProgramming.CustomPopen.Ends
import LinuxProgramming.Dictionary.Vanished
import LinuxProgramming.Foundation.Records
import LinuxProgramming.Inotify.Display
import LinuxProgramming.ProcFs.Entries
import LinuxProgramming.ProcFs.OpenFiles
import LinuxProgramming.ProcFs.UserProcess
import LinuxProgramming.Foundation.Splits
import LinuxProgramming.MessageQueue.Servers
import LinuxProgramming.FifoServer.Nonblocking
import LinuxProgramming.Transfer.Semaphore
import LinuxProgramming.Foundation.Caller
import LinuxProgramming.SharedStack.Processes
import LinuxProgramming.Signals.ErrorDetect
import LinuxProgramming.BatchSum.Modify
import LinuxProgramming.BlockTransfer.Program
import LinuxProgramming.BlockTransfer.Delivery
import LinuxProgramming.BlockTransfer.Completion
import LinuxProgramming.SequenceServer.Ranges
import LinuxProgramming.Foundation.Simulation
import LinuxProgramming.Signals.Suspend
import LinuxProgramming.Signals.MultiSigchld
import LinuxProgramming.MessageQueue.Program
import LinuxProgramming.MessageQueue.Rounds
import LinuxProgramming.MessageQueue.Delivery
import LinuxProgramming.MessageQueue.Completion
import LinuxProgramming.Shell.Session
import LinuxProgramming.Foundation.Numerals
import LinuxProgramming.GetNum.GetInt
import LinuxProgramming.SemaphoreInit.Good
import LinuxProgramming.Foundation.Announcement
import LinuxProgramming.Threads.Multijoin
import LinuxProgramming.Threads.ProdCondvar
import LinuxProgramming.Threads.Incr
import LinuxProgramming.Threads.IncrMutex
import LinuxProgramming.Foundation.Arrivals
import LinuxProgramming.Sockets.ReadLine
import LinuxProgramming.Sockets.ReadWriteN
