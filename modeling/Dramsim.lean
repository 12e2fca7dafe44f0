import Dramsim.Library.EarliestTime
import Dramsim.Library.Except
import Dramsim.Library.Outcome
import Dramsim.Library.Agree
import Dramsim.Library.Since
import Dramsim.Library.System
import Dramsim.Library.Window
import Dramsim.Library.Stretch
import Dramsim.Library.Tiling
import Dramsim.Library.Strict
import Dramsim.Library.BitFields
import Dramsim.Library.BitPlacement
import Dramsim.Library.Queues
import Dramsim.Library.Ranking
import Dramsim.Library.Ordered
import Dramsim.Library.Counter
import Dramsim.Library.Tally
import Dramsim.Library.Episodes
import Dramsim.Library.Numerals
import Dramsim.Library.InputStream
import Dramsim.Library.Fields
import Dramsim.Model.Common
import Dramsim.Model.Config
import Dramsim.Model.Timing
import Dramsim.Model.BankState
import Dramsim.Model.ChannelState
import Dramsim.Model.CommandQueue
import Dramsim.Model.Refresh
import Dramsim.Model.Controller
import Dramsim.Model.DramSystem
import Dramsim.Model.IdealDram
import Dramsim.Model.GenPimTrace
import Dramsim.Model.AddressMapping
import Dramsim.Model.Hmc
import Dramsim.Model.SimpleStats
import Dramsim.Model.Cpu
import Dramsim.Model.CommandTrace
import Dramsim.Model.Capacity
import Dramsim.Model.Thermal
import Dramsim.Channel.Updates
import Dramsim.Channel.Runs
import Dramsim.Channel.Legality
import Dramsim.Channel.ActivationWindow
import Dramsim.Channel.Columns
import Dramsim.Channel.Bursts
import Dramsim.Channel.Awake
import Dramsim.Channel.Readiness
import Dramsim.Queue.Selection
import Dramsim.Queue.RankFlags
import Dramsim.Controller.Effects
import Dramsim.Controller.Steps
import Dramsim.Controller.Frame
import Dramsim.Controller.Runs
import Dramsim.Controller.Accounting
import Dramsim.Controller.History
import Dramsim.Controller.Conservation
import Dramsim.Controller.Ticks
import Dramsim.Controller.Scheduling
import Dramsim.Controller.Discards
import Dramsim.Controller.Ordering
import Dramsim.Controller.Refinement
import Dramsim.Controller.RefreshRecovery
import Dramsim.Controller.RowHistory
import Dramsim.Controller.RowTiming
import Dramsim.Controller.Awake
import Dramsim.Controller.RefreshTimer
import Dramsim.Controller.RefreshOrder
import Dramsim.Controller.RankRefresh
import Dramsim.Controller.BankRefresh
import Dramsim.Controller.SelfRefresh
import Dramsim.Controller.SelectionOrder
import Dramsim.Controller.RowHits
import Dramsim.Controller.RowLimit
import Dramsim.Controller.TimingBound
import Dramsim.Controller.Twins
import Dramsim.Controller.Statistics
import Dramsim.Controller.Histograms
import Dramsim.Controller.Reprints
import Dramsim.Controller.CommandTrace
import Dramsim.Controller.Progress
import Dramsim.Controller.Turns
import Dramsim.Controller.RefreshLatency
import Dramsim.Controller.Work
import Dramsim.Controller.Drain
import Dramsim.Memory.Runs
import Dramsim.Memory.IdealMemory
import Dramsim.Memory.Cuts
import Dramsim.Memory.Addresses
import Dramsim.Memory.AddressMapping
import Dramsim.Memory.AddressUnmapping
import Dramsim.Memory.Answers
import Dramsim.Memory.Dispatch
import Dramsim.Memory.Lockstep
import Dramsim.Memory.MixedTraffic
import Dramsim.Memory.Nest
import Dramsim.Memory.Replay
import Dramsim.Memory.OutputTiles
import Dramsim.Memory.Words
import Dramsim.Memory.Encoding
import Dramsim.Memory.Regions
import Dramsim.Memory.Layout
import Dramsim.Memory.ReleaseGate
import Dramsim.Memory.TraceReplay
import Dramsim.Memory.Capacity
import Dramsim.Memory.Liveness
import Dramsim.Hmc.Loops
import Dramsim.Hmc.Vaults
import Dramsim.Hmc.AgeOrder
import Dramsim.Hmc.Conservation
import Dramsim.Hmc.Phases
import Dramsim.Hmc.StallAge
import Dramsim.Hmc.Buffers
import Dramsim.Hmc.Callbacks
import Dramsim.Thermal.Floorplan
import Dramsim.Thermal.RefreshRows
import Dramsim.Thermal.Locations
