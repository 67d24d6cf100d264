import FluentBit.Msgpack.Object
import FluentBit.Msgpack.Pack
import FluentBit.Msgpack.Unpack
import FluentBit.Msgpack.RoundTrip
import FluentBit.Msgpack.Count
import FluentBit.Mp.Header
import FluentBit.Mp.Accessor
import FluentBit.Ra.Pattern
import FluentBit.Mp.KeysRemove
import FluentBit.Mp.MatchTable
import FluentBit.Mp.Removal
import FluentBit.Output.Coro
import FluentBit.Output.Completion
import FluentBit.Output.Lifecycle
