import Libtorque.Events.Retrieve
import Libtorque.Events.Signal
import Libtorque.Hardware.Arch
import Libtorque.Hardware.Lookup
import Libtorque.Hardware.Types
import Libtorque.Hardware.Apic
import Libtorque.Hardware.Places
import Libtorque.Hardware.AmdCaches
import Libtorque.Hardware.Enumeration
import Libtorque.Schedule.Shutdown
import Libtorque.Session.Armed
import Libtorque.Session.Resumed
import Libtorque.Session.Closes
import Libtorque.Session.Mappings
import Libtorque.Protos.SslShutdown
import Libtorque.Protos.DnsWatched
import Libtorque.Dispatch.Register
import Libtorque.Dispatch.Connector
import Libtorque.Dispatch.Exclusive
import Libtorque.Dispatch.Expirations
import Libtorque.Startup.Undone
import Libtorque.Startup.Pagesizes
import Libtorque.Startup.Insertions
import Libtorque.Architecture.Freed
import Libtorque.Hardware.Brandname
import Libtorque.Protos.SslLocks
import Libtorque.Schedule.Ring
import Libtorque.Schedule.Numeric
import Libtorque.Alloc
import Libtorque.Schedule.Spawned
import Libtorque.Torquehost.Returns
import Libtorque.Torquehost.Targets
import Libtorque.Archdetect.Report
import Libtorque.Startup.BigPage
import Libtorque.Testing.Echoserver
import Libtorque.Testing.Torquessl
