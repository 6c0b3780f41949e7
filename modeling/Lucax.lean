import Lucax.Driver.Session
import Lucax.Driver.Wait
import Lucax.Target.Encoding
import Lucax.Target.Controller
import Lucax.Target.Boundary
import Lucax.Target.Late
import Lucax.Firmware.BufferUse
import Lucax.Firmware.LastOp
import Lucax.Firmware.InFlight
import Lucax.Firmware.Returns
import Lucax.Host.WriteResult
import Lucax.Host.ReadResult
import Lucax.Host.PageTransfer
import Lucax.Host.Completeness
import Lucax.Host.ReadPaths
import Lucax.Host.SingleBank
import Lucax.Common.CStrings
import Lucax.Host.ByteKind
import Lucax.Host.PageBounds
import Lucax.Host.StatusBytes
import Lucax.Driver.ClockSetup
import Lucax.Driver.Statements
import Lucax.Cable.OwnPackets
import Lucax.Files.Fileio
import Lucax.Files.IntelHexChecks
import Lucax.Files.IntelHexStores
import Lucax.Files.Loading
import Lucax.Host.AvrBytes
import Lucax.Host.Dumps
