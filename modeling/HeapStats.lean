import HeapStats.Region
import HeapStats.Memory
import HeapStats.FindChildClass
import HeapStats.PushNewChildClass
import HeapStats.Header
import HeapStats.Container
import HeapStats.ClassContainer
import HeapStats.Operations
import HeapStats.Ownership
import HeapStats.Destructor
import HeapStats.ChildRun
import HeapStats.ChildRace
import HeapStats.Pool
import HeapStats.PoolRun
import HeapStats.PoolRace
import HeapStats.Counting
