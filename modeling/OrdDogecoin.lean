import OrdDogecoin.Lib.KeyTable
import OrdDogecoin.Lib.LittleEndian
import OrdDogecoin.Lib.Run
import OrdDogecoin.Lib.Procedure
import OrdDogecoin.Lib.SortByKey
import OrdDogecoin.Lib.Utf8
import OrdDogecoin.Lib.AtomicBatch
import OrdDogecoin.Lib.Rollback
import OrdDogecoin.Lib.GuardedRows
import OrdDogecoin.Lib.RangeQueue
import OrdDogecoin.Lib.ReadProgram
import OrdDogecoin.Chain.Transaction
import OrdDogecoin.Chain.Utxo
import OrdDogecoin.Sats.Height
import OrdDogecoin.Sats.SatRange
import OrdDogecoin.Sats.SatIndex
import OrdDogecoin.Sats.SatLookup
import OrdDogecoin.Sats.Fifo
import OrdDogecoin.Sats.Refinement
import OrdDogecoin.Sats.Conserved
import OrdDogecoin.Index.Reorg
import OrdDogecoin.Index.AddressIndex
import OrdDogecoin.Index.AddressRows
import OrdDogecoin.Index.AddressListing
import OrdDogecoin.Index.HashLinked
import OrdDogecoin.Drc20.Num
import OrdDogecoin.Drc20.Ledger
import OrdDogecoin.Drc20.Accounting
import OrdDogecoin.Drc20.Atomicity
import OrdDogecoin.Drc20.LedgerInvariant
import OrdDogecoin.Drc20.Holders
import OrdDogecoin.Dunes.Dunestone
import OrdDogecoin.Dunes.Encipher
import OrdDogecoin.Dunes.DuneUpdater
import OrdDogecoin.Dunes.Amounts
import OrdDogecoin.Dunes.Edicts
import OrdDogecoin.Dunes.Bookkeeping
import OrdDogecoin.Dunes.Conservation
import OrdDogecoin.Dunes.Registry
import OrdDogecoin.Dunes.MintTerms
import OrdDogecoin.Dunes.Wallet
import OrdDogecoin.Dunes.Processing
import OrdDogecoin.Dunes.WalletSend
import OrdDogecoin.Dunes.WalletCommands
import OrdDogecoin.Tap.Json
import OrdDogecoin.Tap.Kv
import OrdDogecoin.Tap.Store
import OrdDogecoin.Tap.Tokens
import OrdDogecoin.Tap.Trades
import OrdDogecoin.Tap.Supply
import OrdDogecoin.Tap.Conservation
import OrdDogecoin.Tap.Transferable
import OrdDogecoin.Tap.Elements
import OrdDogecoin.Tap.DmtMints
import OrdDogecoin.Tap.Dogemap
import OrdDogecoin.Tap.DogemapRows
import OrdDogecoin.Tap.DogemapOwnership
import OrdDogecoin.Tap.Dispatch
import OrdDogecoin.Tap.DispatchEffects
import OrdDogecoin.Tap.SingleUse
import OrdDogecoin.Tap.Authority
import OrdDogecoin.Tap.Staking
import OrdDogecoin.Tap.StakingSolvency
import OrdDogecoin.Tap.Locks
import OrdDogecoin.Tap.Amm
import OrdDogecoin.Tap.Obligations
import OrdDogecoin.Tap.Releases
import OrdDogecoin.Tap.Settlements
import OrdDogecoin.Tap.LockSafety
import OrdDogecoin.Tap.AmmEffects
import OrdDogecoin.Tap.AmmInvariant
import OrdDogecoin.Tap.Sale
import OrdDogecoin.Tap.SaleSolvency
import OrdDogecoin.Tap.Redeem
import OrdDogecoin.Tap.RedeemAtomicity
import OrdDogecoin.Tap.Delegation
import OrdDogecoin.Tap.DelegationSafety
import OrdDogecoin.Inscriptions.Envelope
import OrdDogecoin.Inscriptions.Updater
import OrdDogecoin.Inscriptions.Indexing
import OrdDogecoin.Inscriptions.Location
import OrdDogecoin.Inscriptions.Inputs
import OrdDogecoin.Inscriptions.Pass
import OrdDogecoin.Inscriptions.Reveals
import OrdDogecoin.Inscriptions.Assignment
import OrdDogecoin.Inscriptions.Transactions
import OrdDogecoin.Inscriptions.Operations
import OrdDogecoin.Inscriptions.LocationInvariant
import OrdDogecoin.Inscriptions.Values
import OrdDogecoin.Tap.CanonicalJson
import OrdDogecoin.Lib.PrefixCode
import OrdDogecoin.Tap.CertifiedControl
import OrdDogecoin.Tap.ControlQuorum
import OrdDogecoin.Lib.ByteText
import OrdDogecoin.Feed.Wire
import OrdDogecoin.Feed.Journal
import OrdDogecoin.Feed.JournalCoverage
import OrdDogecoin.Feed.Paging
import OrdDogecoin.Index.ReorgStore
import OrdDogecoin.Index.ReorgHandling
import OrdDogecoin.Chain.Blocks
import OrdDogecoin.Drc20.Messages
import OrdDogecoin.Drc20.Availability
import OrdDogecoin.Lib.Walk
import OrdDogecoin.Inscriptions.Queue
import OrdDogecoin.Inscriptions.Tracking
import OrdDogecoin.Inscriptions.MoveLog
import OrdDogecoin.Inscriptions.MoveHistory
import OrdDogecoin.Drc20.Resolution
import OrdDogecoin.Tap.FillAccounting
import OrdDogecoin.Tap.AmmPricing
import OrdDogecoin.Tap.Privileges
import OrdDogecoin.Tap.PrivilegeMessages
import OrdDogecoin.Lib.Utf16
import OrdDogecoin.Tap.JsStrings
import OrdDogecoin.Tap.JsLiterals
import OrdDogecoin.Tap.JsStringModel
import OrdDogecoin.Tap.ValueCodec
import OrdDogecoin.Tap.ValueReading
import OrdDogecoin.Tap.StoredValues
import OrdDogecoin.Server.Inventories
import OrdDogecoin.Server.Snapshots
import OrdDogecoin.Lib.Results
import OrdDogecoin.Lib.Slices
import OrdDogecoin.Lib.Apportion
import OrdDogecoin.Lib.FixedCodec
import OrdDogecoin.Inscriptions.PushDecoders
import OrdDogecoin.Inscriptions.EnvelopeParser
import OrdDogecoin.Dunes.ReportedSupply
import OrdDogecoin.Dunes.SplitEdicts
import OrdDogecoin.Feed.RecordCodec
import OrdDogecoin.Feed.Rfc8785
import OrdDogecoin.Feed.EventsHash
import OrdDogecoin.Tap.PerpFees
import OrdDogecoin.Tap.PerpEntry
import OrdDogecoin.Lib.KeyedLog
import OrdDogecoin.Tap.VerifiedItems
import OrdDogecoin.Tap.PrivilegeLists
import OrdDogecoin.Lib.StampedCache
import OrdDogecoin.Tap.RouteIndex
import OrdDogecoin.Tap.Routing
import OrdDogecoin.Tap.RouteFamilies
import OrdDogecoin.Tap.RouteChanges
import OrdDogecoin.Tap.RouteAgreement
import OrdDogecoin.Lib.BijectiveBase
import OrdDogecoin.Lib.Pages
import OrdDogecoin.Lib.PrefixRange
import OrdDogecoin.Lib.Intervals
import OrdDogecoin.Dunes.Names
import OrdDogecoin.Dunes.SpacedNames
import OrdDogecoin.Dunes.Minimum
import OrdDogecoin.Dunes.Decimals
import OrdDogecoin.Drc20.Keys
import OrdDogecoin.Sats.SatHeight
import OrdDogecoin.Wallet.SatSearch
import OrdDogecoin.Index.AddressRepair
import OrdDogecoin.Index.RepairRun
import OrdDogecoin.Lib.NewtonRoot
import OrdDogecoin.Tap.SquareRoot
import OrdDogecoin.Dunes.Varints
import OrdDogecoin.Lib.DecimalDigits
import OrdDogecoin.Tap.AmountTexts
