import Sealloc.Library.Prog
import Sealloc.Chunk.History
import Sealloc.Chunk.Lookup
import Sealloc.Run.Bitmap
import Sealloc.Run.History
import Sealloc.Run.Tags
import Sealloc.InternalAllocator.Canonical
import Sealloc.InternalAllocator.FirstFit
import Sealloc.InternalAllocator.Twins
import Sealloc.InternalAllocator.AnySize
import Sealloc.World.Blocks
import Sealloc.World.Session
import Sealloc.World.Live
import Sealloc.World.Dead
import Sealloc.World.Contents
import Sealloc.World.Exhausted
import Sealloc.World.Layout
import Sealloc.World.Classes
import Sealloc.World.Guard
import Sealloc.SizeClass.Rounding
import Sealloc.ContainerLl
import Sealloc.Platform.Probe
import Sealloc.World.Starts
import Sealloc.World.Balance
import Sealloc.World.Refinement
import Sealloc.World.Sizes
import Sealloc.World.Pruned
import Sealloc.MallocApi.Process
import Sealloc.MallocApi.Statistics
