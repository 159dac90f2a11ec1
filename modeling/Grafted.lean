import Grafted.Base.Transition
import Grafted.Base.Fallible
import Grafted.Base.Traced
import Grafted.Base.ByteMemory
import Grafted.Base.Enumeration
import Grafted.Base.CStrings
import Grafted.Base.Chain
import Grafted.Base.X86
import Grafted.Base.X86Operands
import Grafted.Base.X86Asm
import Grafted.Base.Utf8
import Grafted.Base.Buffer
import Grafted.Base.Descent
import Grafted.Base.Holding
import Grafted.Kernel.Syscall
import Grafted.Loader.Macho
import Grafted.Loader.MachoFile
import Grafted.Loader.Mapper
import Grafted.Loader.ChainedFixups
import Grafted.Loader.FixupRuns
import Grafted.Loader.Parsing
import Grafted.Dyld.Resolver
import Grafted.Dyld.Linker
import Grafted.Dyld.LoadRuns
import Grafted.Dyld.LoadClosure
import Grafted.Dyld.LoadedImages
import Grafted.Loader.ImageRanges
import Grafted.Loader.Recovery
import Grafted.Loader.SegmentImage
import Grafted.Loader.SegmentEntry
import Grafted.Loader.SelectorBytes
import Grafted.Loader.SelectorPage
import Grafted.Loader.FixupBounds
import Grafted.Loader.FixupReads
import Grafted.Loader.FixupBlob
import Grafted.Dyld.ImageLayout
import Grafted.Dyld.LoadedSymbols
import Grafted.Dyld.SearchOrder
import Grafted.Dyld.SearchPaths
import Grafted.Dyld.Initializers
import Grafted.Dyld.AddrInfo
import Grafted.Dyld.Bindings
import Grafted.Dyld.NlSymbolPtrs
import Grafted.Loader.Executor
import Grafted.Dyld.Shims
import Grafted.Dyld.SyscallPaths
import Grafted.Dyld.Errno
import Grafted.Dyld.Sigaction
import Grafted.Dyld.Selector
import Grafted.Dyld.SelectorRuns
import Grafted.Dyld.ThreadLocals
import Grafted.Dyld.Trampoline
import Grafted.Loader.SigsysHandler
import Grafted.Loader.CrashSkip
import Grafted.Loader.CrashReport
import Grafted.Loader.MainEntry
import Grafted.Loader.ProcessStack
import Grafted.Loader.StackBounds
import Grafted.Dyld.MachIpc
import Grafted.Dyld.MachPorts
import Grafted.Dyld.MachNames
import Grafted.Dyld.MachMessages
import Grafted.Dyld.MachRights
import Grafted.Dyld.MachDeadNames
import Grafted.Dyld.MachLimits
import Grafted.Dyld.MachFailures
import Grafted.Dyld.PthreadOnce
import Grafted.Cf.RunLoop
import Grafted.Cf.RunLoopRules
import Grafted.Cf.RunLoopModes
import Grafted.Cf.RunLoopBrackets
import Grafted.Cf.RunLoopObservers
import Grafted.Cf.RunLoopSources
import Grafted.Cf.RunLoopRegistry
import Grafted.Cf.RunLoopModeNames
import Grafted.Cf.RunLoopTimers
import Grafted.Cf.RunLoopStop
import Grafted.Cf.RunLoopWaits
import Grafted.Foundation.Notification
import Grafted.Foundation.NotificationPosts
import Grafted.Registry.Once
import Grafted.Appkit.Pasteboard
import Grafted.Base.Utf16
import Grafted.Cf.Strings
import Grafted.Foundation.Strings
import Grafted.Cf.Objects
import Grafted.Cf.Ownership
import Grafted.Cf.Leaks
import Grafted.Objc.Runtime
import Grafted.Objc.Lookup
import Grafted.Objc.Metadata
import Grafted.Objc.MsgSend
import Grafted.Dyld.ClassCache
import Grafted.Cg.Context
import Grafted.Base.Blocks
import Grafted.Dyld.ProcessInfo
import Grafted.Dyld.ProcessAnswers
import Grafted.Base.Brackets
import Grafted.Cg.DrawState
import Grafted.Cg.StrokeRect
import Grafted.Ws.Display
import Grafted.Cg.Lifetimes
import Grafted.Base.Forests
import Grafted.Appkit.View
import Grafted.Appkit.Window
import Grafted.Appkit.WindowClose
import Grafted.Appkit.Application
import Grafted.Ct.Font
import Grafted.Base.CLayout
import Grafted.Base.Ioctl
import Grafted.Kernel.Device
import Grafted.Loader.MachTraps
import Grafted.Base.PartialMaps
import Grafted.Ws.Windows
import Grafted.Base.PackedBytes
import Grafted.Swift.Strings
import Grafted.Swift.LocalizedStringKey
import Grafted.Base.ByteRanges
import Grafted.Swift.LifecyclePatches
import Grafted.Base.Slides
import Grafted.Swift.ClassMetadata
import Grafted.Swift.SingletonMetadata
import Grafted.Base.Interning
import Grafted.Swift.MangledNames
import Grafted.Dyld.RuneLocale
import Grafted.Cf.Containers
import Grafted.Objc.ClassTables
import Grafted.Registry.FrameworkClasses
import Grafted.Base.Records
import Grafted.Dyld.FileInfo
import Grafted.Base.X86Syscalls
import Grafted.Loader.GoTls
import Grafted.Appkit.Menu
import Grafted.Appkit.MenuItems
