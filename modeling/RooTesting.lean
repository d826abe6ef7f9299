import RooTesting.Transition
import RooTesting.Threads
import RooTesting.OrderedTables
import RooTesting.AlarmService
import RooTesting.AlarmTable
import RooTesting.AlarmDelay
import RooTesting.AlarmAccounts
import RooTesting.AlarmPunctuality
import RooTesting.DelayContract
import RooTesting.AlarmSections
import RooTesting.AlarmThreads
import RooTesting.AlarmInvocations
import RooTesting.ConcurrentDelays
import RooTesting.StrandedAlarms
import RooTesting.AlarmSignals
import RooTesting.AlarmWorker
import RooTesting.FadeEngine
import RooTesting.FadeDelivery
import RooTesting.FadeDrainer
import RooTesting.FadeGenerations
import RooTesting.LedcDriver
import RooTesting.LedcThreads
import RooTesting.LedcGate
import RooTesting.LedcContract
import RooTesting.OrderedMaps
import RooTesting.NvsJson
import RooTesting.NvsStorage
import RooTesting.NvsTokens
import RooTesting.NvsRoundTrip
import RooTesting.NvsLoading
import RooTesting.NvsParser
import RooTesting.NvsStore
import RooTesting.NvsDurability
import RooTesting.NvsHandles
import RooTesting.NvsCapacity
import RooTesting.InterruptWords
import RooTesting.InterruptController
import RooTesting.InterruptLedger
import RooTesting.InterruptSections
import RooTesting.InterruptContract
import RooTesting.Checks
import RooTesting.PicoBoard
import RooTesting.PicoMachine
import RooTesting.PicoEffects
import RooTesting.PicoOwnership
import RooTesting.PicoPublication
import RooTesting.FadeDuty
import RooTesting.LedcCalls
import RooTesting.LedcErrors
import RooTesting.FadeInterpolation
import RooTesting.FadeCancel
import RooTesting.LedcDurations
import RooTesting.LedcAgreement
import RooTesting.DiscrepancySearch
import RooTesting.OneWire
import RooTesting.OneWireCrc
import RooTesting.OneWireCommands
import RooTesting.OneWireSearch
import RooTesting.OneWireSelect
import RooTesting.EspTimer
import RooTesting.EspTimerSteps
import RooTesting.EspTimerStages
import RooTesting.EspTimerContract
import RooTesting.EspWords
import RooTesting.EspAdapter
import RooTesting.EspTables
import RooTesting.EspContract
import RooTesting.WifiDriver
import RooTesting.WifiStates
import RooTesting.WifiInterfaces
import RooTesting.WifiStreams
import RooTesting.WifiEvents
import RooTesting.LeapCalendar
import RooTesting.RtcRegisters
import RooTesting.RtcClock
import RooTesting.RtcCalendar
import RooTesting.RtcBursts
import RooTesting.WaitTable
import RooTesting.ConditionVariable
import RooTesting.ArduinoLedc
import RooTesting.ArduinoCallbacks
import RooTesting.SntpClient
import RooTesting.SntpDeliveries
import RooTesting.SntpNetif
import RooTesting.SntpSessions
import RooTesting.RelayOutputs
import RooTesting.EventQueue
import RooTesting.DisplayPanels
import RooTesting.DisplayOperands
import RooTesting.DisplayResets
import RooTesting.DisplayChunks
import RooTesting.RecursiveMutex
import RooTesting.SpiReservations
import RooTesting.Lifecycles
import RooTesting.Periman
import RooTesting.LedcOwnership
import RooTesting.ArduinoLedcCalls
import RooTesting.LedcReadings
import RooTesting.PinRouting
import RooTesting.PinAgreement
import RooTesting.WifiScans
import RooTesting.ScanCompletions
import RooTesting.Esp32Spi
import RooTesting.ArduinoSpi
import RooTesting.SpiPixels
import RooTesting.SpiBits
import RooTesting.VoltageSignals
import RooTesting.VoltageAnalysis
import RooTesting.PicoPwm
import RooTesting.SpiClock
import RooTesting.PicoFiles
import RooTesting.DeadlineTicks
import RooTesting.IdfSpi
import RooTesting.PicoSpi
import RooTesting.SntpWallClock
import RooTesting.SleepTicks
import RooTesting.InterruptedWait
import RooTesting.SocketWaits
import RooTesting.WireBuffer
import RooTesting.PicoI2c
import RooTesting.ArduinoPicoSpi
import RooTesting.PicoUart
import RooTesting.PairingAgreement
import RooTesting.WifiStaticAddress
import RooTesting.StableSort
import RooTesting.ScheduledChanges
import RooTesting.OneWireThermometer
import RooTesting.GridOrientations
import RooTesting.DisplayWindows
import RooTesting.DisplayColors
import RooTesting.FlexViewport
import RooTesting.Stopwatch
import RooTesting.ArduinoTimer
import RooTesting.TouchPanels
import RooTesting.TouchEvents
import RooTesting.FrameListener
import RooTesting.SdSpiCard
import RooTesting.SdSpiFrames
import RooTesting.HostEvents
import RooTesting.HostDeliveries
import RooTesting.EspNow
import RooTesting.EspNowDeliveries
import RooTesting.EspNowSends
import RooTesting.Answers
import RooTesting.KeyedLists
import RooTesting.EspNowPeers
import RooTesting.RingBuffers
import RooTesting.PicoSerial
import RooTesting.ConsoleUart
import RooTesting.ConsoleOutput
import RooTesting.UartCables
import RooTesting.SerialLinks
import RooTesting.KernelTicks
import RooTesting.IdleClock
import RooTesting.IdleWaits
import RooTesting.IdfI2c
import RooTesting.ThreadJoins
import RooTesting.NvsValues
