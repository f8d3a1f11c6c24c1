import MultiThreadLog.Lib.Bytes
import MultiThreadLog.Lib.Runs
import MultiThreadLog.LogStream.FixedBuffer
import MultiThreadLog.Lib.Numeral
import MultiThreadLog.LogStream.Convert
import MultiThreadLog.LogStream.Insert
import MultiThreadLog.LogStream.Accept
import MultiThreadLog.Lib.Calendar
import MultiThreadLog.Time.Tm
import MultiThreadLog.LogFile.Basic
import MultiThreadLog.LogFile.Contents
import MultiThreadLog.LogFile.Rolling
import MultiThreadLog.AsyncLogging.Basic
import MultiThreadLog.AsyncLogging.Invariant
import MultiThreadLog.AsyncLogging.Ledger
import MultiThreadLog.AsyncLogging.Delivery
import MultiThreadLog.AsyncLogging.Stop
import MultiThreadLog.AsyncLogging.Leftover
import MultiThreadLog.Lib.Bisection
import MultiThreadLog.Time.TimeZone
import MultiThreadLog.Logging.Format
import MultiThreadLog.Logging.TimeCache
import MultiThreadLog.Logging.Logger
import MultiThreadLog.Lib.CondVar
import MultiThreadLog.ThreadPool.Basic
import MultiThreadLog.ThreadPool.Moves
import MultiThreadLog.ThreadPool.Queue
import MultiThreadLog.ThreadPool.Wakeups
import MultiThreadLog.ThreadPool.Stop
import MultiThreadLog.AsyncLogging.Shutdown
import MultiThreadLog.Lib.CInt
import MultiThreadLog.Time.Date
import MultiThreadLog.Time.UtcTime
import MultiThreadLog.Lib.Reader
import MultiThreadLog.Time.ZoneFile
import MultiThreadLog.Lib.Steps
import MultiThreadLog.Time.Lookup
import MultiThreadLog.Time.LocalTime
import MultiThreadLog.LogFile.Accounting
import MultiThreadLog.LogFile.FlushDelay
import MultiThreadLog.LogStream.Numerals
import MultiThreadLog.Lib.FieldOrder
import MultiThreadLog.LogStream.StringPiece
import MultiThreadLog.Time.TextOrder
import MultiThreadLog.FileUtil.ReadSmallFile
import MultiThreadLog.Sync.Mutex
import MultiThreadLog.Sync.CountDownLatch
import MultiThreadLog.Lib.Monitor
import MultiThreadLog.LogFile.Shared
import MultiThreadLog.Lib.Countdown
import MultiThreadLog.AsyncLogging.Progress
import MultiThreadLog.LogFile.Files
import MultiThreadLog.AsyncLogging.Latency
import MultiThreadLog.AsyncLogging.Disk
import MultiThreadLog.ThreadPool.Progress
import MultiThreadLog.Logging.Record
import MultiThreadLog.Logging.Program
import MultiThreadLog.Sync.LatchProgress
import MultiThreadLog.Sync.Thread
import MultiThreadLog.Sync.ThreadStart
import MultiThreadLog.Logging.AsyncProgram
import MultiThreadLog.Logging.FileProgram
import MultiThreadLog.Sync.CurrentThread
