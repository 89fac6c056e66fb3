import Brenlib.Base.PaddedRows
import Brenlib.Base.Utf8
import Brenlib.Base.TransitionSystem
import Brenlib.Base.Population
import Brenlib.Base.Registry
import Brenlib.Base.NestedMap
import Brenlib.Base.WhileLoop
import Brenlib.Bren.StdLibrary
import Brenlib.Bren.StdNumbers
import Brenlib.Bren.Table
import Brenlib.Bren.ReadCSV
import Brenlib.Bren.CsvScanner
import Brenlib.Bren.CsvLayout
import Brenlib.Bren.ReadCSVTable
import Brenlib.Bren.ReadCSVRefinement
import Brenlib.Bren.CsvText
import Brenlib.Bren.ReadCSVDecoding
import Brenlib.Bren.CsvRecords
import Brenlib.Bren.ReadCSVDefects
import Brenlib.Bren.ReadCSVRejection
import Brenlib.Bren.ReadCSVLastLine
import Brenlib.Bren.ReadCSVLoss
import Brenlib.Bren.ReadCSVFirstField
import Brenlib.Bren.CsvWriter
import Brenlib.Bren.CsvWriterText
import Brenlib.Bren.CsvRoundTrip
import Brenlib.Bren.StateMachine
import Brenlib.Bren.StateMachineSections
import Brenlib.Bren.StateGraph
import Brenlib.Bren.StateMachineClient
import Brenlib.Bren.StateMachineThreads
import Brenlib.Bren.StateMachineSolo
import Brenlib.Bren.StateMachineExclusion
import Brenlib.Bren.StateMachineEdges
import Brenlib.Bren.Semaphore
import Brenlib.Bren.SemaphoreSections
import Brenlib.Bren.SemaphoreDestruction
import Brenlib.Bren.Observable
import Brenlib.Bren.ObservableRegistration
import Brenlib.Bren.ObservableThreads
import Brenlib.Bren.ObservableBroadcast
import Brenlib.Bren.ObservableDelivery
import Brenlib.Bren.ObservableRemoval
import Brenlib.Bren.ObservableSolo
import Brenlib.Bren.ConnPool
import Brenlib.Bren.ConnPoolOwnership
import Brenlib.Bren.ConnPoolExclusion
import Brenlib.Bren.ConnPoolEntries
import Brenlib.Bren.CsvWriterCalls
import Brenlib.Bren.CsvWriterRows
import Brenlib.Bren.CsvWriterHeader
import Brenlib.Bren.ReadCSVMisreading
import Brenlib.Bren.CsvUnquoted
import Brenlib.Base.GrowingMatrix
import Brenlib.Bren.TableMatrix
import Brenlib.Bren.TableLimits
import Brenlib.Base.DistinctNames
import Brenlib.Bren.HeaderedTable
import Brenlib.Bren.HeaderedTableLookup
import Brenlib.Bren.HeaderedTableCache
import Brenlib.Bren.HeaderedTableHeaders
import Brenlib.Base.BitString
import Brenlib.Bren.Base64
import Brenlib.Bren.Base64Encoding
import Brenlib.Bren.Base64Decoding
import Brenlib.Bren.Base64Rejection
import Brenlib.Bren.StateMachineExceptions
import Brenlib.Bren.StateMachineNames
import Brenlib.Bren.StateMachineArrivals
import Brenlib.Bren.StateMachineObservers
import Brenlib.Base.Gregorian
import Brenlib.Bren.NaiveDate
import Brenlib.Bren.NaiveDateWeekday
import Brenlib.Bren.NaiveDateOrder
import Brenlib.Bren.NaiveDateText
import Brenlib.Bren.NaiveDateCalls
import Brenlib.Bren.NaiveTime
import Brenlib.Bren.TimespecOps
import Brenlib.Bren.TimespecText
import Brenlib.Bren.Logger
import Brenlib.Bren.IOctxtWrapper
import Brenlib.Bren.HtmlCharEntRefs
import Brenlib.Bren.HtmlReplacement
import Brenlib.Bren.Run
import Brenlib.Bren.Roman
import Brenlib.Bren.RomanNumerals
import Brenlib.Bren.Child
import Brenlib.Bren.ChildEnvironment
import Brenlib.Bren.ChildProfile
import Brenlib.Bren.ChildCapture
import Brenlib.Bren.ReadCSVBounds
import Brenlib.Base.Words
import Brenlib.Bren.Tokenize
import Brenlib.Bren.RomanReading
import Brenlib.Base.LockOrder
import Brenlib.Bren.Singleton
import Brenlib.Bren.SingletonThreads
import Brenlib.Bren.SingletonExit
import Brenlib.Bren.SemaphorePermits
import Brenlib.Bren.ChildExec
import Brenlib.Bren.ChildSession
import Brenlib.Bren.CsvNamedCells
import Brenlib.Bren.ReadCSVPositions
import Brenlib.Bren.CsvRewriting
import Brenlib.Bren.StateMachineDigraph
import Brenlib.Bren.NaiveTimeCalls
import Brenlib.Bren.NaiveTimeOrder
import Brenlib.Base.Lexicographic
import Brenlib.Bren.NaiveTextOrder
import Brenlib.Bren.StateMachineRest
import Brenlib.Bren.LoggerOutput
import Brenlib.Bren.Base64Blocks
