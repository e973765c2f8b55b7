import Dibbler.Entities
import Dibbler.Store
import Dibbler.KeyInvariant
import Dibbler.Occupancy
import Dibbler.Lookup
import Dibbler.Release
import Dibbler.LeaseView
import Dibbler.Refinement
import Dibbler.FailedCalls
import Dibbler.Timers
import Dibbler.Interfaces
import Dibbler.CString
import Dibbler.Search
import Dibbler.Text
import Dibbler.TextRoundTrip
import Dibbler.Reader
import Dibbler.Writer
import Dibbler.Attributes
import Dibbler.ReaderSafety
import Dibbler.Admissible
import Dibbler.Lines
import Dibbler.Normalise
import Dibbler.Blocks
import Dibbler.RoundTrip
import Dibbler.CounterLine
import Dibbler.Replay
import Dibbler.Daemon
