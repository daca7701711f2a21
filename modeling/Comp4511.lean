import Comp4511.Runs
import Comp4511.ListTable
import Comp4511.SchedTask
import Comp4511.SchedRq
import Comp4511.SchedTs
import Comp4511.SchedCore
import Comp4511.SchedStep
import Comp4511.SchedFrame
import Comp4511.SchedQueue
import Comp4511.SchedInv
import Comp4511.SchedEffect
import Comp4511.SchedReach
import Comp4511.SchedPolicy
import Comp4511.SchedPick
import Comp4511.SchedPreempt
import Comp4511.SchedSlice
import Comp4511.SchedRestore
import Comp4511.LimFlow
import Comp4511.LimRate
import Comp4511.LimCount
import Comp4511.LimWrap
import Comp4511.LimIsolate
import Comp4511.LimHeader
import Comp4511.Loops
import Comp4511.SchedHotplug
import Comp4511.Fd
import Comp4511.XmCall
import Comp4511.XmCopy
import Comp4511.XmDeliver
import Comp4511.XmStep
import Comp4511.XmClean
import Comp4511.XmReport
import Comp4511.XmLoop
import Comp4511.XmUser
import Comp4511.XmFront
import Comp4511.Wait
import Comp4511.Sh2Status
import Comp4511.Sh3Step
import Comp4511.ShellReap
import Comp4511.ShellFds
import Comp4511.Sh3Wiring
import Comp4511.Sh3Groups
import Comp4511.Sh3Array
import Comp4511.CStr
import Comp4511.Strtok
import Comp4511.ShellLine
import Comp4511.Sh2Parse
import Comp4511.Sh2Special
import Comp4511.Cuts
import Comp4511.Sh2Replace
import Comp4511.ShellMain
import Comp4511.Sh2Jobs
import Comp4511.Sh3Token
import Comp4511.Sh3Redirect
import Comp4511.Sh3Jobs
import Comp4511.Scanf
import Comp4511.PsScan
import Comp4511.PsStat
import Comp4511.PsTime
import Comp4511.PsRows
import Comp4511.SchedTurn
import Comp4511.SchedWait
import Comp4511.SchedCpu
import Comp4511.LimTime
import Comp4511.XmProgram
import Comp4511.Blocks
import Comp4511.PrioArray
import Comp4511.RtClass
import Comp4511.RtInv
import Comp4511.RtOrder
import Comp4511.RtBooks
import Comp4511.RtFifo
import Comp4511.Sh2Heap
import Comp4511.Sh2Main
import Comp4511.Sh2Session
import Comp4511.Sh3List
import Comp4511.Sh3Session
import Comp4511.Sh3Streams
