import IreBlockchain.Foundation.Runs
import IreBlockchain.Foundation.Ledger
import IreBlockchain.Foundation.ConstantProduct
import IreBlockchain.Foundation.Results
import IreBlockchain.Foundation.Text
import IreBlockchain.Foundation.KVStore
import IreBlockchain.Foundation.PrefixStore
import IreBlockchain.Foundation.EncodedStore
import IreBlockchain.Foundation.EventLoop
import IreBlockchain.Foundation.Interpretation
import IreBlockchain.Foundation.Search
import IreBlockchain.Foundation.WorkerPool
import IreBlockchain.Foundation.Slots
import IreBlockchain.Foundation.Ranking
import IreBlockchain.Foundation.Paths
import IreBlockchain.Foundation.Protobuf
import IreBlockchain.Foundation.Wire
import IreBlockchain.Foundation.Messages
import IreBlockchain.Foundation.Url
import IreBlockchain.Foundation.Json
import IreBlockchain.Foundation.JsonStrings
import IreBlockchain.Foundation.JsonRoundTrip
import IreBlockchain.Foundation.JsonSteps
import IreBlockchain.Foundation.JsonTexts
import IreBlockchain.Foundation.JsonSpaces
import IreBlockchain.Foundation.JsonPlain
import IreBlockchain.Foundation.ByteTexts
import IreBlockchain.Foundation.Sha256
import IreBlockchain.Foundation.JsNumbers
import IreBlockchain.Foundation.Coercions
import IreBlockchain.Foundation.Lengths
import IreBlockchain.Foundation.Shell
import IreBlockchain.Foundation.Html
import IreBlockchain.Foundation.HtmlNewlines
import IreBlockchain.LiquidityToken.Contract
import IreBlockchain.LiquidityToken.Calls
import IreBlockchain.LiquidityToken.Effects
import IreBlockchain.LiquidityToken.Conservation
import IreBlockchain.LiquidityToken.FeeLaw
import IreBlockchain.LiquidityToken.FeeArithmetic
import IreBlockchain.LiquidityToken.Launch
import IreBlockchain.LiquidityToken.Reentrancy
import IreBlockchain.LiquidityToken.Ownership
import IreBlockchain.LiquidityToken.Sells
import IreBlockchain.LiquidityToken.SwapQuote
import IreBlockchain.LiquidityToken.SwapPage
import IreBlockchain.LiquidityToken.Holdings
import IreBlockchain.TokenFactory.Types
import IreBlockchain.TokenFactory.Bank
import IreBlockchain.TokenFactory.Keeper
import IreBlockchain.TokenFactory.Keys
import IreBlockchain.TokenFactory.MsgServer
import IreBlockchain.TokenFactory.Genesis
import IreBlockchain.TokenFactory.Denoms
import IreBlockchain.TokenFactory.Effects
import IreBlockchain.TokenFactory.ValidateBasic
import IreBlockchain.TokenFactory.LedgerBank
import IreBlockchain.TokenFactory.Bech32
import IreBlockchain.TokenFactory.Supply
import IreBlockchain.TokenFactory.Isolation
import IreBlockchain.TokenFactory.ModuleAccounts
import IreBlockchain.TokenFactory.Accounting
import IreBlockchain.TokenFactory.GenesisMetadata
import IreBlockchain.TokenFactory.Spelling
import IreBlockchain.TokenFactory.Registry
import IreBlockchain.TokenFactory.Indices
import IreBlockchain.TokenFactory.StoreRoundTrip
import IreBlockchain.TokenFactory.DenomRoundTrip
import IreBlockchain.TokenFactory.Migrator
import IreBlockchain.TokenFactory.Restarts
import IreBlockchain.TokenFactory.Simulation
import IreBlockchain.TokenFactory.SimulationRuns
import IreBlockchain.TokenFactory.Generated
import IreBlockchain.TokenFactory.ByteStore
import IreBlockchain.TokenFactory.ByteKeeper
import IreBlockchain.TokenFactory.Queries
import IreBlockchain.IreCw20.Contract
import IreBlockchain.Brokers.Records
import IreBlockchain.Brokers.Page
import IreBlockchain.Brokers.Handlers
import IreBlockchain.Brokers.OnePayment
import IreBlockchain.Brokers.PayingWallet
import IreBlockchain.Brokers.Verifications
import IreBlockchain.Brokers.Desk
import IreBlockchain.Brokers.Tickets
import IreBlockchain.Brokers.OwnerScan
import IreBlockchain.Brokers.Traits
import IreBlockchain.Brokers.Sha256Pure
import IreBlockchain.Brokers.LongStrings
import IreBlockchain.Brokers.Mandates
import IreBlockchain.Brokers.Skills
import IreBlockchain.Brokers.HashPaths
import IreBlockchain.Explorer.Inscription
import IreBlockchain.Explorer.ObjectScan
import IreBlockchain.Explorer.ObjectTexts
import IreBlockchain.Explorer.Grammar
import IreBlockchain.Explorer.Transaction
import IreBlockchain.Explorer.Addresses
import IreBlockchain.Explorer.BankSend
import IreBlockchain.Explorer.Markets
import IreBlockchain.Explorer.Mempool
import IreBlockchain.Explorer.BetMemos
import IreBlockchain.Explorer.Board
import IreBlockchain.Explorer.BoardLoops
import IreBlockchain.Explorer.Pledges
import IreBlockchain.Explorer.MarketsTick
import IreBlockchain.Explorer.BlockWindow
import IreBlockchain.Explorer.ListingOrder
import IreBlockchain.Explorer.MapPool
import IreBlockchain.Explorer.RawTransactions
import IreBlockchain.Explorer.CreateForms
import IreBlockchain.Explorer.RoundTrip
import IreBlockchain.Explorer.CreatedMemos
import IreBlockchain.Explorer.Profile
import IreBlockchain.Explorer.ProfileParser
import IreBlockchain.Explorer.ProfileForm
import IreBlockchain.Explorer.MemoBytes
import IreBlockchain.Explorer.Commands
import IreBlockchain.Explorer.MarketCommands
import IreBlockchain.Explorer.Escaping
import IreBlockchain.Explorer.BoardMarkup
import IreBlockchain.Explorer.Keywords
import IreBlockchain.Explorer.Points
import IreBlockchain.Explorer.Leaderboard
import IreBlockchain.Explorer.Wallet
import IreBlockchain.Explorer.SentAmount
import IreBlockchain.Explorer.WalletRows
import IreBlockchain.Explorer.WalletPage
import IreBlockchain.Explorer.ShownBalance
import IreBlockchain.Explorer.Server
import IreBlockchain.Explorer.MempoolPage
