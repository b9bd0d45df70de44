import Toys.Lib.ByteMemory
import Toys.Lib.U64
import Toys.Lib.Linked
import Toys.Lib.Scan
import Toys.Lib.TextCursor
import Toys.Lib.Nibbles
import Toys.Lib.Outcome
import Toys.Lib.ListedSet
import Toys.Lib.X86
import Toys.FileSystem.Block
import Toys.FileSystem.Disk
import Toys.FileSystem.Layout
import Toys.FileSystem.Find
import Toys.FileSystem.Create
import Toys.FileSystem.Delete
import Toys.FileSystem.Write
import Toys.FileSystem.Bound
import Toys.FileSystem.WellFormed
import Toys.FileSystem.Read
import Toys.FileSystem.Refinement
import Toys.FileSystem.Reads
import Toys.FileSystem.OutOfSpace
import Toys.FileSystem.Cursor
import Toys.FileSystem.Entries
import Toys.Os.Records
import Toys.Os.Processes
import Toys.Os.SystemCalls
import Toys.Os.Bound
import Toys.Os.Handler
import Toys.Os.Frames
import Toys.Os.Traversal
import Toys.Os.Effects
import Toys.Os.Steps
import Toys.Os.Chain
import Toys.Os.ChildRun
import Toys.Os.Nesting
import Toys.Os.FailedCalls
import Toys.Os.SequentialReads
import Toys.Os.OpenFiles
import Toys.Os.PageTables
import Toys.Os.Listing
import Toys.Os.Output
import Toys.Boot.Loader
import Toys.Edit.MemCopy
import Toys.Edit.Editor
import Toys.Snake.Game
import Toys.Snake.Board
import Toys.Shell.Script
import Toys.Tools.MakeFatFs
import Toys.Tools.MakeToysImg
import Toys.Tools.MakeToysFs
import Toys.Tools.DumpToysFs
import Toys.Toyc.Scanner
import Toys.Toyc.Tokens
import Toys.Toyc.Characters
import Toys.Toyc.Tokenizer
import Toys.Toyc.Backend
import Toys.Toyc.Placeholders
import Toys.Toyc.Encoding
import Toys.FileSystem.Positions
import Toys.Os.Opening
import Toys.Os.Transfers
import Toys.Commands.Base
import Toys.Commands.Copy
import Toys.Commands.List
