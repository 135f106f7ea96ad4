import AsyncEventLoop.FixedArray
import AsyncEventLoop.Runs
import AsyncEventLoop.LineReader
import AsyncEventLoop.HeaderReader
import AsyncEventLoop.ArduinoLoop
import AsyncEventLoop.DoWhile
import AsyncEventLoop.CatchUpLoop
import AsyncEventLoop.ArduinoRuns
import AsyncEventLoop.ArduinoRemoval
import AsyncEventLoop.ArduinoTimers
import AsyncEventLoop.JsonGrammar
import AsyncEventLoop.JsonNesting
import AsyncEventLoop.JsonReader
import AsyncEventLoop.JsonFraming
import AsyncEventLoop.JsonInvariant
import AsyncEventLoop.JsonUnended
import AsyncEventLoop.JsonLanguage
import AsyncEventLoop.JsonNumberCheck
import AsyncEventLoop.JsonRecovery
import AsyncEventLoop.EventLoop
import AsyncEventLoop.EventLoopWiring
import AsyncEventLoop.LibeventLoop
import AsyncEventLoop.LibeventRuns
import AsyncEventLoop.LibeventTimers
import AsyncEventLoop.LinuxEventLoop
import AsyncEventLoop.ArduinoEventLoop
import AsyncEventLoop.EventLoopReclaim
import AsyncEventLoop.EventLoopHandles
import AsyncEventLoop.EventLoopFull
import AsyncEventLoop.TcpLineServer
import AsyncEventLoop.TcpLineIsolation
import AsyncEventLoop.LinuxTcpServer
import AsyncEventLoop.TcpSlotOwnership
import AsyncEventLoop.LinuxTcpCallbacks
import AsyncEventLoop.LinuxTcpShutdown
import AsyncEventLoop.TcpLineClient
import AsyncEventLoop.LinuxTcpClient
import AsyncEventLoop.LinuxTcpSockets
import AsyncEventLoop.RingArray
import AsyncEventLoop.ArduinoTcpOutput
import AsyncEventLoop.ArduinoTcpServer
import AsyncEventLoop.TcpLineWriter
import AsyncEventLoop.TcpReadLine
import AsyncEventLoop.PeriodicTimer
import AsyncEventLoop.TcpBackpressure
import AsyncEventLoop.Micros32Extender
import AsyncEventLoop.MemoryByteStream
import AsyncEventLoop.SlotArray
import AsyncEventLoop.TcpConnectionRegistry
import AsyncEventLoop.CallbackTaskRuns
import AsyncEventLoop.PinEventSources
import AsyncEventLoop.PinEventDrain
import AsyncEventLoop.PinEventTimes
import AsyncEventLoop.MemoryPinEventSource
import AsyncEventLoop.CallbackLiveness
import AsyncEventLoop.PinEventWithdrawal
import AsyncEventLoop.DecimalText
import AsyncEventLoop.LinuxFilePins
import AsyncEventLoop.StreamReader
import AsyncEventLoop.FixedFrameReader
import AsyncEventLoop.ReaderDelivery
import AsyncEventLoop.TcpLineDelivery
import AsyncEventLoop.ArduinoPasses
import AsyncEventLoop.TestScheduler
import AsyncEventLoop.JsonDivision
import AsyncEventLoop.JsonAccounting
import AsyncEventLoop.ArduinoTcpClient
import AsyncEventLoop.ResourceLedger
import AsyncEventLoop.DottedQuad
import AsyncEventLoop.LinuxDescriptors
import AsyncEventLoop.GpiodHandles
import AsyncEventLoop.Mailbox
import AsyncEventLoop.UdpDatagrams
import AsyncEventLoop.ArduinoWiFi
import AsyncEventLoop.TcpFixedHeader
import AsyncEventLoop.SignalKServer
import AsyncEventLoop.LinuxTcpServerSockets
import AsyncEventLoop.CStrings
import AsyncEventLoop.NmeaSentences
import AsyncEventLoop.NmeaBridge
