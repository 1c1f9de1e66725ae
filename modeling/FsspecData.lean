import FsspecData.Stream.Refinement
import FsspecData.Stream.Ended
import FsspecData.Stream.ByteLimit
import FsspecData.Plan.Execute
import FsspecData.Plan.Nulls
import FsspecData.Plan.Permissive
import FsspecData.Plan.Idle
import FsspecData.Plan.Compose
import FsspecData.Plan.Streamed
import FsspecData.Codec.SharedReader
import FsspecData.Json.Meaning
import FsspecData.Python.Agreement
import FsspecData.Python.Defaults
import FsspecData.Python.Requested
import FsspecData.Avro.Reject
import FsspecData.Avro.Queue
import FsspecData.Plan.ByName
import FsspecData.Plan.Permuted
import FsspecData.Plan.Renamed
import FsspecData.Plan.Metadata
import FsspecData.Stream.Ahead
import FsspecData.Stream.Cancelled
import FsspecData.Library.Text
import FsspecData.Python.Converters
import FsspecData.Json.Structural
import FsspecData.Library.Numeral
import FsspecData.Library.Percent
import FsspecData.Library.Url
import FsspecData.Python.Confluent
import FsspecData.Python.Sizes
import FsspecData.Avro.Retry
import FsspecData.Stream.Counters
import FsspecData.Plan.Defects
import FsspecData.Library.Linearizable
import FsspecData.Stream.Concurrent
import FsspecData.Avro.ValueEncoder
import FsspecData.Library.Output
import FsspecData.Codec.Error
import FsspecData.Codec.Sink
import FsspecData.Codec.Writer
import FsspecData.Codec.NativeWriter
import FsspecData.Codec.FailingSink
import FsspecData.Codec.PythonReader
import FsspecData.Codec.Registry
import FsspecData.Python.Native
import FsspecData.Python.Pipeline
import FsspecData.Python.SlotCast
import FsspecData.Python.Rows
import FsspecData.Python.Table
import FsspecData.Python.Converted
import FsspecData.Library.Base64
import FsspecData.Library.Dict
import FsspecData.Library.Client
import FsspecData.Python.ConfluentRequest
import FsspecData.Python.ConfluentDocument
import FsspecData.Python.ConfluentRegistry
import FsspecData.Python.ConfluentServed
import FsspecData.Python.ConfluentSecrets
