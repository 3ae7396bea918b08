import Matchbook.Foundation.BoundedLoop
import Matchbook.Foundation.IntrusiveList
import Matchbook.Foundation.OrderedMap
import Matchbook.LevelBitmap
import Matchbook.Types
import Matchbook.Pool
import Matchbook.Engine.State
import Matchbook.Engine.Matching
import Matchbook.Engine.Operations
import Matchbook.ReferenceEngine
import Matchbook.Foundation.Transitions
import Matchbook.Market.Steps
import Matchbook.Market.Valid
import Matchbook.Market.Reference
import Matchbook.Market.ReferenceSteps
import Matchbook.Market.ReferenceRuns
import Matchbook.Engine.Heap
import Matchbook.Engine.HeapMoves
import Matchbook.Engine.Mirror
import Matchbook.Engine.Lockstep
import Matchbook.Engine.LockstepStops
import Matchbook.Engine.LockstepOperations
import Matchbook.Engine.Walk
import Matchbook.Engine.LockstepEntry
import Matchbook.Engine.LockstepAuction
import Matchbook.Engine.Refinement
import Matchbook.Engine.Invariant
import Matchbook.Market.History
import Matchbook.Engine.Journal
import Matchbook.Engine.Uncrossed
import Matchbook.Foundation.ArrivalStamps
import Matchbook.Market.Priority
import Matchbook.Market.Mandates
import Matchbook.Engine.Guarantees
import Matchbook.Engine.Refusals
import Matchbook.Market.Origins
import Matchbook.Market.SelfTrade
import Matchbook.Market.StopPump
import Matchbook.Engine.ArmedStops
import Matchbook.Market.Ladder
import Matchbook.Market.Fills
import Matchbook.Market.Register
import Matchbook.Market.PostOnly
import Matchbook.Market.Icebergs
import Matchbook.Engine.Lifetimes
import Matchbook.Market.OpenQuantity
import Matchbook.Market.Ledger
import Matchbook.Engine.Conservation
import Matchbook.Foundation.CallAuction
import Matchbook.Market.Auction
import Matchbook.Engine.Equilibrium
import Matchbook.Market.Determinism
import Matchbook.Market.Reflection
import Matchbook.Engine.Symmetry
import Matchbook.Engine.Reentrant
import Matchbook.Engine.SerialSchedule
import Matchbook.Gate.RiskGate
import Matchbook.Foundation.BoundedQueue
import Matchbook.Feed.SpscRing
import Matchbook.Feed.Pipeline
import Matchbook.Foundation.BigEndian
import Matchbook.Feed.ItchParser
import Matchbook.Feed.MoldUdp64
import Matchbook.Feed.Mcast
import Matchbook.Foundation.NumberedStream
import Matchbook.Feed.MoldCodec
import Matchbook.Feed.McastDelivery
import Matchbook.Feed.McastMalformed
import Matchbook.Engine.Calls
import Matchbook.Feed.BookBuilder
import Matchbook.Feed.Isolation
import Matchbook.Feed.Routing
import Matchbook.Feed.Projection
import Matchbook.Feed.HaltMirror
import Matchbook.Engine.Handlers
import Matchbook.Gate.Transparency
import Matchbook.Market.Caps
import Matchbook.Gate.Caps
import Matchbook.Ouch.Codec
import Matchbook.Ouch.Gateway
import Matchbook.Ouch.Tokens
import Matchbook.Ouch.Stream
import Matchbook.Market.Reports
import Matchbook.Ouch.Coupling
import Matchbook.Ouch.Conformance
import Matchbook.Foundation.Framing
import Matchbook.Ouch.RoundTrip
import Matchbook.Ouch.Canonical
import Matchbook.Feed.ItchEncode
import Matchbook.Feed.ItchRoundTrip
import Matchbook.Gate.Admission
import Matchbook.Engine.Visits
import Matchbook.Market.Withdrawals
import Matchbook.Gate.Flatten
import Matchbook.Engine.OpenOrders
import Matchbook.Market.Frame
import Matchbook.Feed.OrderChains
import Matchbook.Market.FillOrKill
import Matchbook.Engine.FillOrKill
import Matchbook.Foundation.WrappingSums
import Matchbook.Engine.Aggregates
import Matchbook.Market.Screen
import Matchbook.Foundation.NumberedAccounts
import Matchbook.Feed.Publisher
import Matchbook.Feed.Shadow
import Matchbook.Feed.ShadowRuns
import Matchbook.Engine.CrossAndPump
import Matchbook.Feed.ExactShadow
import Matchbook.Feed.CrossPrint
import Matchbook.CheckedBitmap
import Matchbook.Feed.MoldGrammar
import Matchbook.Gate.Positions
import Matchbook.Market.SelfStops
import Matchbook.Ouch.Announced
import Matchbook.Ouch.Sessions
import Matchbook.Ouch.ClientView
import Matchbook.Feed.Follower
import Matchbook.Feed.Rebuilt
import Matchbook.Feed.RebuiltSteps
import Matchbook.Feed.RebuiltRuns
import Matchbook.Feed.BookRoundTrip
import Matchbook.Feed.Numbering
import Matchbook.Feed.AuctionRoundTrip
import Matchbook.Feed.Snapshot
import Matchbook.Feed.LateJoin
import Matchbook.Feed.Joined
import Matchbook.Feed.Distribution
import Matchbook.Engine.MarketData
import Matchbook.Feed.Quoted
import Matchbook.Engine.StopQueue
import Matchbook.Feed.AutoBand
import Matchbook.Feed.Replay
import Matchbook.Foundation.NumberedLedger
import Matchbook.Feed.Lawful
import Matchbook.Feed.ItchGen
import Matchbook.Engine.Bands
import Matchbook.Engine.Gathering
import Matchbook.Engine.Records
import Matchbook.Market.StopFree
import Matchbook.Strategy.MarketMaker
import Matchbook.Strategy.Inventory
import Matchbook.Gate.Killed
import Matchbook.Gate.Budget
import Matchbook.Ouch.Reporting
import Matchbook.Bindings.PyEngine
import Matchbook.Feed.OwnPriceAuctions
import Matchbook.Market.Firings
import Matchbook.Engine.TableGrowth
import Matchbook.Engine.SideTable
