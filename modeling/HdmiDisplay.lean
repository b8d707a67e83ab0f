import HdmiDisplay.Lib.Clocked
import HdmiDisplay.Lib.BitSeq
import HdmiDisplay.Lib.RasterScan
import HdmiDisplay.Lib.SignalRuns
import HdmiDisplay.Lib.AlarmClock
import HdmiDisplay.Lib.Block
import HdmiDisplay.Lib.Zipper
import HdmiDisplay.Lib.Screen
import HdmiDisplay.Lib.ApbProtocol
import HdmiDisplay.Lib.Transition
import HdmiDisplay.Lib.Strtol
import HdmiDisplay.Lib.Ring
import HdmiDisplay.Tmds.Encoder
import HdmiDisplay.Tmds.Symbol
import HdmiDisplay.Tmds.Disparity
import HdmiDisplay.Tmds.Decode
import HdmiDisplay.Tmds.Serial
import HdmiDisplay.Tmds.RunLength
import HdmiDisplay.Tmds.DigitalSum
import HdmiDisplay.Video.Timing
import HdmiDisplay.Video.Raster
import HdmiDisplay.Video.Line
import HdmiDisplay.Video.Recovery
import HdmiDisplay.Top.VideoMode
import HdmiDisplay.Top.Lanes
import HdmiDisplay.Top.Wire
import HdmiDisplay.Top.FrameBudget
import HdmiDisplay.Top.PowerOnReset
import HdmiDisplay.Apb.Slave
import HdmiDisplay.Apb.Framing
import HdmiDisplay.Apb.Delivery
import HdmiDisplay.Apb.Stores
import HdmiDisplay.Rtos.Kernel
import HdmiDisplay.Rtos.Timer
import HdmiDisplay.Rtos.Expiry
import HdmiDisplay.Rtos.ReadyTable
import HdmiDisplay.Rtos.Scheduler
import HdmiDisplay.Rtos.Runs
import HdmiDisplay.Rtos.Refinement
import HdmiDisplay.Rtos.ContextSwitch
import HdmiDisplay.Rtos.KService
import HdmiDisplay.Rtos.RtList
import HdmiDisplay.Rtos.TimerList
import HdmiDisplay.Game.Uart
import HdmiDisplay.Game.Threads
import HdmiDisplay.Game.Phases
import HdmiDisplay.Game.Characters
import HdmiDisplay.Game.Handover
import HdmiDisplay.Game.Pong
import HdmiDisplay.Shell.Commands
import HdmiDisplay.Shell.Msh
import HdmiDisplay.Shell.Completion
import HdmiDisplay.Shell.LineEditor
import HdmiDisplay.Shell.Terminal
import HdmiDisplay.Shell.Session
import HdmiDisplay.Top.Display
import HdmiDisplay.Lib.Turns
import HdmiDisplay.Rtos.RoundRobin
