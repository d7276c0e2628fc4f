import Faceplate.Lib.Runs
import Faceplate.Lib.Assignments
import Faceplate.Lib.Refs
import Faceplate.Lib.Interleave
import Faceplate.Shl.Ring
import Faceplate.Shl.Eloop
import Faceplate.Shl.Dispatch
import Faceplate.Pty.Basic
import Faceplate.Pty.Delivery
import Faceplate.Pty.Stream
import Faceplate.Pty.Respawn
import Faceplate.Lib.CString
import Faceplate.Lib.Claims
import Faceplate.HostSession.Packet
import Faceplate.HostSession.Bounds
import Faceplate.HostSession.Pack
import Faceplate.HostSession.RoundTrip
import Faceplate.HostSession.Login
import Faceplate.Feed.File
import Faceplate.Feed.Events
import Faceplate.Feed.Entries
import Faceplate.Feed.EventsFormat
import Faceplate.Feed.Status
import Faceplate.Feed.StatusFormat
import Faceplate.Feed.Sources
import Faceplate.Feed.Timestamps
import Faceplate.Feed.Manifest
import Faceplate.Feed.Confinement
import Faceplate.Feed.SystemFile
import Faceplate.Feed.SourceOrder
import Faceplate.Feed.Refresh
import Faceplate.Feed.EventTexts
import Faceplate.Collector.Basic
import Faceplate.Collector.Accepted
import Faceplate.Collector.BootedSlot
import Faceplate.Video.Display
import Faceplate.Video.Drm
import Faceplate.Video.Drm2d
import Faceplate.Video.Books
import Faceplate.Video.FlipRefs
import Faceplate.Video.ModeAgreement
import Faceplate.Render.Text
import Faceplate.Render.Blend
import Faceplate.Render.Layout
import Faceplate.Render.Bbulk
import Faceplate.Render.Tracking
import Faceplate.Render.Upto
import Faceplate.Render.Incremental
import Faceplate.Terminal.Screen
import Faceplate.Terminal.Redraw
import Faceplate.Terminal.Basic
import Faceplate.Terminal.Mode
import Faceplate.Terminal.Input
import Faceplate.Terminal.Handlers
import Faceplate.Terminal.Frame
import Faceplate.Terminal.Lock
import Faceplate.Terminal.FailClosed
import Faceplate.Terminal.Simulation
import Faceplate.Terminal.Panes
import Faceplate.Terminal.View
import Faceplate.Terminal.GridSize
import Faceplate.Terminal.Vte
import Faceplate.Terminal.Console
import Faceplate.Terminal.FeedDisplay
import Faceplate.Input.Keyboard
import Faceplate.Input.Repeat
import Faceplate.Input.Devices
import Faceplate.Input.Pointer
import Faceplate.Uterm.Vt
import Faceplate.Uterm.Balance
import Faceplate.Conf.Option
import Faceplate.Conf.Basic
import Faceplate.Conf.Assigned
import Faceplate.Conf.Types
import Faceplate.Conf.Precedence
import Faceplate.Conf.FileLines
import Faceplate.Conf.LineBytes
import Faceplate.Conf.Grab
import Faceplate.Conf.GrabBlanks
import Faceplate.Conf.Parsers
import Faceplate.Conf.Login
import Faceplate.Conf.Quoting
import Faceplate.Conf.SplitCommand
import Faceplate.Seat.Basic
import Faceplate.Seat.Displays
import Faceplate.Seat.Awake
import Faceplate.Seat.Handlers
import Faceplate.Seat.OneAwake
import Faceplate.Seat.Screens
import Faceplate.Seat.Consistent
import Faceplate.Lib.LittleEndian
import Faceplate.Font.Genunifont
import Faceplate.Font.Unifont
import Faceplate.Font.Blocks
import Faceplate.Font.Lookup
import Faceplate.Font.HexFile
import Faceplate.Font.RoundTrip
import Faceplate.Lib.Rounding
import Faceplate.Misc.Strtod
import Faceplate.Misc.Asciinema
import Faceplate.Misc.Casts
import Faceplate.Misc.CastStrings
import Faceplate.Misc.JsonStrings
import Faceplate.Misc.Playback
import Faceplate.Render.Rotation
import Faceplate.Render.BlendBytes
import Faceplate.Render.BorderFit
import Faceplate.Render.Pointer
import Faceplate.Render.Damage
import Faceplate.Render.Chrome
import Faceplate.Render.Gltex
import Faceplate.Render.Status
import Faceplate.Render.OnScreen
import Faceplate.Lib.Layers
import Faceplate.Render.Picture
import Faceplate.Render.Marks
import Faceplate.Render.Clips
import Faceplate.Lib.CheckedInt
import Faceplate.Video.Dither
import Faceplate.Video.DumbBuffers
import Faceplate.Video.PflipTimeout
import Faceplate.Lib.Heap
import Faceplate.Lib.Dlist
import Faceplate.Lib.Refinement
import Faceplate.Shl.RingMemory
import Faceplate.Shl.RingFifo
import Faceplate.Shl.Registration
import Faceplate.Shl.Lru
import Faceplate.Shl.LruRefines
import Faceplate.Lib.Walk
import Faceplate.Shl.Hook
import Faceplate.Shl.HookMemory
import Faceplate.Shl.HookCall
import Faceplate.Shl.HookPrograms
import Faceplate.Font.Psf
import Faceplate.Conf.SplitString
import Faceplate.Lib.Scan
import Faceplate.Lib.Snprintf
import Faceplate.Feed.DisplayLines
import Faceplate.Misc.AddrBook
import Faceplate.Misc.IpList
import Faceplate.Misc.IssueEscapes
import Faceplate.Misc.IssueExpand
import Faceplate.Misc.IssueFiles
import Faceplate.Lib.Probing
import Faceplate.Shl.Htable
import Faceplate.Shl.HtableBits
import Faceplate.Shl.HtableTable
import Faceplate.Shl.HtableLookup
import Faceplate.Shl.HtableChanges
import Faceplate.Shl.HtableRuns
import Faceplate.Shl.Hashtable
import Faceplate.Shl.HashtableRuns
import Faceplate.Shl.HashtableFree
import Faceplate.Render.GltexAtlas
import Faceplate.Lib.Announcements
import Faceplate.Video.Stays
import Faceplate.Video.Hotplug
import Faceplate.Video.HotplugRounds
import Faceplate.Video.HotplugRuns
import Faceplate.Lib.Entries
import Faceplate.Seat.DeviceHolds
import Faceplate.Seat.DeviceLinks
import Faceplate.Seat.DeviceRuns
import Faceplate.Seat.DeviceVideos
import Faceplate.Seat.DeviceInputs
