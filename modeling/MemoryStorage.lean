import MemoryStorage.Basic
import MemoryStorage.OrderedIndex
import MemoryStorage.SimpleFastStorage
import MemoryStorage.IndexedStorage
import MemoryStorage.IndexedStorageInv
import MemoryStorage.IndexedStorageMap
import MemoryStorage.TtlIndex
import MemoryStorage.TtlKeys
import MemoryStorage.TtlItems
import MemoryStorage.TtlPurge
import MemoryStorage.Backoff
import MemoryStorage.TxManager
import MemoryStorage.MemoryLimit
import MemoryStorage.SinceFile
import MemoryStorage.BitmapStorage
import MemoryStorage.BitmapWorld
import MemoryStorage.ScanPrefix
import MemoryStorage.BackupSchedule
import MemoryStorage.BitmapRedis
import MemoryStorage.BitmapRedisSystem
import MemoryStorage.BitmapRedisShared
import MemoryStorage.TtlVersions
import MemoryStorage.IndexedStorageCompact
