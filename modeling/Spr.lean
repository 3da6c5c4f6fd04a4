import Spr.Framework.Unicode
import Spr.Framework.Chain
import Spr.Framework.Words
import Spr.Framework.Bytes
import Spr.Framework.Forest
import Spr.Framework.Registry
import Spr.Framework.Locks
import Spr.Framework.Ledger
import Spr.Framework.Buffers
import Spr.Framework.Checks
import Spr.Framework.Simulation
import Spr.Framework.Files
import Spr.Errors.Codes
import Spr.Filesys.PathToWchar
import Spr.Filesys.PathAliases
import Spr.Filesys.WinPathCalls
import Spr.Filesys.DirRead
import Spr.Filesys.DirPaths
import Spr.Filesys.Glob
import Spr.Filesys.PathBounds
import Spr.Filesys.FileWrite
import Spr.Filesys.FileCalls
import Spr.Filesys.FileStore
import Spr.Filesys.FileTransfers
import Spr.Strings.Atoi
import Spr.Strings.Search
import Spr.Strings.Compare
import Spr.Strings.Copies
import Spr.Errors.Strerror
import Spr.Errors.WinStrerror
import Spr.Threads.Wrappers
import Spr.LinkedList.Model
import Spr.LinkedList.Deque
import Spr.LinkedList.Clear
import Spr.LinkedList.Memory
import Spr.LinkedList.Pooled
import Spr.LinkedList.Deques
import Spr.MemPool.Clear
import Spr.MemPool.Links
import Spr.MemPool.Release
import Spr.MemPool.FirstAlloc
import Spr.MemPool.Blocks
import Spr.MemPool.Contents
import Spr.MemPool.Rounds
import Spr.MemPool.Threads
import Spr.MemPool.Search
import Spr.MemPool.Placement
import Spr.MemPool.Registrations
import Spr.MemPool.Invocations
import Spr.MemPool.Locks
import Spr.MemPool.Frames
import Spr.MemPool.Reach
import Spr.MemPool.Records
import Spr.MemPool.Keeps
import Spr.MemPool.Owners
import Spr.Strings.Pooled
import Spr.Strings.Texts
import Spr.Arrays.Clear
import Spr.Arrays.Products
