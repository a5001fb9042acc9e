import SysServer.Library.Machine
import SysServer.Library.Fair
import SysServer.Library.Census
import SysServer.Library.Fifo
import SysServer.Library.Circle
import SysServer.Library.Segment
import SysServer.Library.Rings
import SysServer.Library.Chain
import SysServer.Library.Ownership
import SysServer.Library.Cstring
import SysServer.Library.Lexical
import SysServer.Library.Padding
import SysServer.Library.Delimited
import SysServer.Library.Flags
import SysServer.Library.Residue
import SysServer.Library.Crc
import SysServer.Net.Request
import SysServer.Net.Webroot
import SysServer.Net.Reply
import SysServer.Net.Query
import SysServer.Net.Interfaces
import SysServer.Net.Listening
import SysServer.Net.Boot
import SysServer.Inc.Dlist
import SysServer.Inc.Lists
import SysServer.Inc.Crc16
import SysServer.Task.Queues
import SysServer.Task.Stores
import SysServer.Device.Registry
import SysServer.Device.Views
import SysServer.Task.Schedule
import SysServer.Task.Pipeline
import SysServer.Task.Custody
import SysServer.Task.Accounting
import SysServer.Task.Settling
import SysServer.Task.Starvation
import SysServer.Task.Conservation
import SysServer.Task.Order
import SysServer.Task.WellFormed
import SysServer.Task.Excute
import SysServer.Task.Startup
import SysServer.Task.Serving
import SysServer.Task.Traffic
import SysServer.Pool.Threadpool
import SysServer.Pool.Moves
import SysServer.Pool.Lock
import SysServer.Pool.Queue
import SysServer.Pool.Teardown
import SysServer.Pool.Works
import SysServer.Pool.Wakeup
import SysServer.Pool.Drain
import SysServer.Pool.Atomic
import SysServer.Pool.Effort
import SysServer.Pool.Shutdown
import SysServer.Pool.Once
import SysServer.Task.Threads
import SysServer.Task.Finishing
import SysServer.Serial.Event
import SysServer.Serial.Descriptor
import SysServer.Serial.Overlap
import SysServer.Serial.Message
import SysServer.Serial.Termios
import SysServer.Serial.Settings
import SysServer.Serial.Opening
