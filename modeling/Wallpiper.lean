import Wallpiper.Foundations.Runs
import Wallpiper.Foundations.Histories
import Wallpiper.Foundations.Precedence
import Wallpiper.Foundations.Table
import Wallpiper.Foundations.Claims
import Wallpiper.Foundations.CText
import Wallpiper.Foundations.Forest
import Wallpiper.Foundations.Interning
import Wallpiper.Foundations.FirstFit
import Wallpiper.Foundations.BigEndian
import Wallpiper.Foundations.PathSpelling
import Wallpiper.Foundations.Bindings
import Wallpiper.Foundations.Programs
import Wallpiper.Foundations.Doubles
import Wallpiper.Foundations.DoubleText
import Wallpiper.Foundations.ResidualBits
import Wallpiper.Foundations.DoubleRounding
import Wallpiper.Foundations.WrittenNumbers
import Wallpiper.Foundations.QuotedKeys
import Wallpiper.Foundations.Sizes
import Wallpiper.Foundations.LittleEndian
import Wallpiper.Foundations.Unicode
import Wallpiper.Foundations.Utf16
import Wallpiper.Foundations.Comparators
import Wallpiper.Foundations.NaturalOrder
import Wallpiper.Foundations.RingBuffer
import Wallpiper.Foundations.Substrings
import Wallpiper.Foundations.Inodes
import Wallpiper.Tray.Entry
import Wallpiper.Tray.MenuLayout
import Wallpiper.Tray.MenuTree
import Wallpiper.Tray.DbusIds
import Wallpiper.Tray.IdStability
import Wallpiper.Tray.SeparatorKeys
import Wallpiper.Tray.MenuDump
import Wallpiper.Tray.DumpTruncation
import Wallpiper.Tray.Refresh
import Wallpiper.Tray.RefreshSoundness
import Wallpiper.Tray.Revisions
import Wallpiper.Tray.IconFile
import Wallpiper.Tray.IconRoundTrip
import Wallpiper.Tray.MenuViews
import Wallpiper.Ctl.MonitorGeometry
import Wallpiper.Ctl.GeometryNumbers
import Wallpiper.Ctl.Listener
import Wallpiper.Ctl.ReplyMatching
import Wallpiper.Ctl.ResponseText
import Wallpiper.Ctl.Delivery
import Wallpiper.Capture.WireFormat
import Wallpiper.Capture.WireRoundTrip
import Wallpiper.Capture.Layer
import Wallpiper.Capture.LayerSteps
import Wallpiper.Capture.Channels
import Wallpiper.Capture.ChannelAllocator
import Wallpiper.Capture.SlotHistory
import Wallpiper.Capture.SlotDestruction
import Wallpiper.Capture.Receivers
import Wallpiper.Capture.HeaderBuffer
import Wallpiper.Capture.InPlaceParsing
import Wallpiper.Capture.Receiving
import Wallpiper.Portal.State
import Wallpiper.Portal.OutputSteps
import Wallpiper.Portal.FrameLoop
import Wallpiper.Portal.ChannelBinding
import Wallpiper.Portal.Descriptors
import Wallpiper.Portal.Binding
import Wallpiper.Portal.Placement
import Wallpiper.Portal.SharedMemory
import Wallpiper.Capture.StreamPlacement
import Wallpiper.Capture.SurfaceTable
import Wallpiper.Kde.Coordinator
import Wallpiper.Kde.CaptureItem
import Wallpiper.Kde.ItemDescriptors
import Wallpiper.Gnome.Channels
import Wallpiper.Loader.WaitObject
import Wallpiper.Foundations.BoundedText
import Wallpiper.Foundations.FormatStrings
import Wallpiper.Foundations.TextParts
import Wallpiper.Foundations.MappedMemory
import Wallpiper.Loader.Formatter
import Wallpiper.Loader.FormatTruncation
import Wallpiper.Loader.FormatStandard
import Wallpiper.Loader.ImportTable
import Wallpiper.Loader.ImportPatching
import Wallpiper.Loader.Spawn
import Wallpiper.Loader.TriggerFiles
import Wallpiper.Fonts.NameTable
import Wallpiper.Fonts.Sfnt
import Wallpiper.Fonts.Layout
import Wallpiper.Fonts.TablePreservation
import Wallpiper.Fonts.Checksums
import Wallpiper.Fonts.Redirects
import Wallpiper.Fonts.RedirectRoundTrip
import Wallpiper.Fonts.SizedReading
import Wallpiper.Fonts.NameTableForm
import Wallpiper.Fonts.Transcoding
import Wallpiper.Fsutil.FileSystem
import Wallpiper.Fsutil.SyncDirTree
import Wallpiper.Fsutil.Answers
import Wallpiper.Fsutil.Trees
import Wallpiper.Fsutil.Walk
import Wallpiper.Fsutil.TreeMerge
import Wallpiper.Fsutil.Interrupted
import Wallpiper.Fsutil.MakeDirectories
import Wallpiper.Steam.Proton
import Wallpiper.Steam.Resolvers
import Wallpiper.Overlay.FrameStats
import Wallpiper.Daemon.Processes
import Wallpiper.Foundations.Ledgers
import Wallpiper.I3.Portal
import Wallpiper.I3.OutputSteps
import Wallpiper.I3.Resources
import Wallpiper.Foundations.KeyedLists
import Wallpiper.I3.ChannelBinding
import Wallpiper.Ctl.DaemonCommands
import Wallpiper.Gnome.ActorStacking
import Wallpiper.Tray.Mirroring
import Wallpiper.Foundations.BoundedMaps
import Wallpiper.Capture.Devices
import Wallpiper.Foundations.WatchedThings
import Wallpiper.Tray.MenuWatcher
import Wallpiper.Tray.IconWatcher
import Wallpiper.Foundations.TextLines
import Wallpiper.Foundations.Obligations
import Wallpiper.Daemon.Renderers
import Wallpiper.Loader.CursorPath
import Wallpiper.Loader.NotifyBuffer
import Wallpiper.Loader.TriggerWatcher
import Wallpiper.Loader.Bootstrap
import Wallpiper.Foundations.Rasters
import Wallpiper.Overlay.Drawing
import Wallpiper.Overlay.ReadingBack
import Wallpiper.Ctl.Connections
import Wallpiper.Ctl.PortalExchange
import Wallpiper.Ctl.ControlTool
