import KVStore.GoString
import KVStore.Index
import KVStore.Scan
import KVStore.KeyOrder
import KVStore.Service
import KVStore.Memory
import KVStore.File.Command
import KVStore.Json.Encode
import KVStore.Json.Decode
import KVStore.Json.RoundTrip
import KVStore.File.Wal
import KVStore.File.Server
import KVStore.File.Crash
import KVStore.File.Replay
import KVStore.Sqlite.Wire
import KVStore.Sqlite.Command
import KVStore.Sqlite.Server
import KVStore.Refinement
import KVStore.Mutex
import KVStore.Client.Line
import KVStore.Client.Session
import KVStore.Client.Input
import KVStore.Client.Cli
