import RustImap.Framing
import RustImap.Session
import RustImap.Send
import RustImap.Classification
import RustImap.Injection
import RustImap.FailedSend
import RustImap.Intake
import RustImap.Synchronisation
import RustImap.Sorting
import RustImap.MailboxSorting
import RustImap.NothingLost
import RustImap.Idle
import RustImap.IdleTalk
import RustImap.IdleSteps
import RustImap.IdleDiscipline
import RustImap.IdleStart
import RustImap.SelectAnswer
import RustImap.Unilateral
import RustImap.Append
import RustImap.ByteServer
import RustImap.ClientBuilder
import RustImap.Insertion
import RustImap.ExtendedNames
import RustImap.Astring
import RustImap.MailboxName
import RustImap.Authenticate
import RustImap.Watch
import RustImap.DebugMode
import RustImap.DebugIdle
import RustImap.DebugRuns
import RustImap.IdleRounds
import RustImap.IdleFraming
import RustImap.Scanner
import RustImap.IdleUpdates
import RustImap.IdleLosses
import RustImap.SelfDelimiting
import RustImap.Quoting
import RustImap.LetterCase
import RustImap.Capabilities
import RustImap.RangeInclusive
import RustImap.Deleted
import RustImap.ExpungeAnswer
import RustImap.StatusAnswer
import RustImap.Siblings
import RustImap.Assertions
import RustImap.IdleDispatch
import RustImap.ManyInto
import RustImap.Collectors
import RustImap.ExactlyOne
import RustImap.SelectOrder
import RustImap.Rights
import RustImap.SortText
import RustImap.AppendFlags
import RustImap.Handing
import RustImap.Draining
import RustImap.Panics
import RustImap.Dialogue
import RustImap.Speaking
import RustImap.Lateness
import RustImap.Transcript
import RustImap.Downgrade
import RustImap.Legibility
import RustImap.Remote
import RustImap.Interleaving
import RustImap.Provenance
import RustImap.Skipping
