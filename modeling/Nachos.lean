import Nachos.Library.Run
import Nachos.Library.Queues
import Nachos.Library.Places
import Nachos.Library.Histories
import Nachos.Library.Numbering
import Nachos.Library.Words
import Nachos.Library.Allocation
import Nachos.Library.Programs
import Nachos.Library.Least
import Nachos.Library.Bits
import Nachos.Library.DataTypes
import Nachos.Library.Chains
import Nachos.Library.Coroutines
import Nachos.Server.Tables
import Nachos.Server.Loop
import Nachos.Server.Served
import Nachos.Server.Trace
import Nachos.Server.Exclusion
import Nachos.Server.Accounting
import Nachos.Server.Ownership
import Nachos.Server.Handles
import Nachos.Server.Destruction
import Nachos.Group.Basic
import Nachos.Group.CreateLock
import Nachos.Group.Deliveries
import Nachos.Group.Agreement
import Nachos.Group.Transparency
import Nachos.Userprog.BitMap
import Nachos.Memory.Basic
import Nachos.Memory.Frames
import Nachos.Memory.Isolation
import Nachos.Memory.Coherence
import Nachos.Memory.Stored
import Nachos.Memory.Swap
import Nachos.Memory.Growth
import Nachos.Memory.Release
import Nachos.Memory.Addresses
import Nachos.Memory.UserPages
import Nachos.Memory.Copyin
import Nachos.Memory.Copyout
import Nachos.Memory.Loading
import Nachos.Library.DoubleWords
import Nachos.Library.Events
import Nachos.Library.Locks
import Nachos.Library.Waiting
import Nachos.Machine.Interrupts
import Nachos.Monitor.Basic
import Nachos.Monitor.Exclusion
import Nachos.Monitor.Mesa
import Nachos.Monitor.Code
import Nachos.Monitor.Conditions
import Nachos.Monitor.Broadcast
import Nachos.Monitor.SynchList
import Nachos.Monitor.Turns
import Nachos.Monitor.Views
import Nachos.Monitor.Semaphore
import Nachos.Server.Conditions
import Nachos.Memory.Locking
import Nachos.Processes.Basic
import Nachos.Processes.Stacks
import Nachos.Processes.Positions
import Nachos.Processes.Statements
import Nachos.Processes.Bookkeeping
import Nachos.Processes.Calls
import Nachos.Client.Mailboxes
import Nachos.Client.Stubs
import Nachos.Client.Encoding
import Nachos.Client.Counter
import Nachos.Filesys.Basic
import Nachos.Filesys.OpenFile
import Nachos.Filesys.Tables
import Nachos.Filesys.Layout
import Nachos.Filesys.Operations
import Nachos.Filesys.Runs
import Nachos.Filesys.Sizes
import Nachos.Filesys.Descriptors
import Nachos.Filesys.SynchDisk
import Nachos.Machine.Decode
import Nachos.Machine.Basic
import Nachos.Machine.Restart
import Nachos.Machine.Multiplication
import Nachos.Machine.Architecture
import Nachos.Machine.Results
import Nachos.Machine.PageFaults
import Nachos.Office.Basic
import Nachos.Office.Programs
import Nachos.Office.System
import Nachos.Office.Phases
import Nachos.Office.Keeps
import Nachos.Office.Locks
import Nachos.Office.Steps
import Nachos.Office.Numbers
import Nachos.Office.Senators
import Nachos.Office.Stages
import Nachos.Office.Handshake
import Nachos.Office.Payments
import Nachos.Office.Money
import Nachos.Office.Order
import Nachos.Bin.Coff2noff
import Nachos.Threads.Lines
import Nachos.Threads.LinkedList
import Nachos.Threads.Scheduler
import Nachos.Threads.Levels
import Nachos.Simulation.Programs
import Nachos.Simulation.Steps
import Nachos.Simulation.Visits
import Nachos.Simulation.Books
import Nachos.Simulation.Accounts
import Nachos.Simulation.Assertions
