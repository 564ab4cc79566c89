import ExecutionZone.Circuit.Binding
import ExecutionZone.Transaction.Authority
import ExecutionZone.Transaction.Isolation
import ExecutionZone.Transaction.Validate
import ExecutionZone.Circuit.Accepted
import ExecutionZone.Circuit.Delegation
import ExecutionZone.Circuit.Entries
import ExecutionZone.Lib.NotePool
import ExecutionZone.Lib.Run
import ExecutionZone.State.Commitments
import ExecutionZone.Transaction.Runs
import ExecutionZone.Transaction.Notes
import ExecutionZone.Transaction.Conservation
import ExecutionZone.Transaction.DoubleSpend
import ExecutionZone.Circuit.Kept
import ExecutionZone.Transaction.Kept
import ExecutionZone.Transaction.Faucet
import ExecutionZone.Transaction.Vault
import ExecutionZone.Transaction.Nonces
import ExecutionZone.Transaction.Unowned
import ExecutionZone.Transaction.Membership
import ExecutionZone.Lib.Replay
import ExecutionZone.Programs.Clock
import ExecutionZone.Transaction.Clock
import ExecutionZone.Node.Block
import ExecutionZone.Node.IndexerDb
import ExecutionZone.Node.Breakpoints
import ExecutionZone.Lib.InPlace
import ExecutionZone.Node.IndexerStore
import ExecutionZone.Node.SequencerStore
import ExecutionZone.Node.InitialState
import ExecutionZone.Node.Sequencer
import ExecutionZone.Node.Agreement
import ExecutionZone.Lib.Borsh
import ExecutionZone.Programs.Token
import ExecutionZone.Programs.TokenEffects
import ExecutionZone.Lib.ConstantProduct
import ExecutionZone.Programs.Amm
import ExecutionZone.Programs.SampleAmm
import ExecutionZone.Programs.Pools
import ExecutionZone.Lib.Fifo
import ExecutionZone.Node.Admission
import ExecutionZone.Node.ClockTracking
import ExecutionZone.Lib.Postings
import ExecutionZone.Node.AccountHistory
import ExecutionZone.Programs.TokenSupply
import ExecutionZone.Transaction.Supply
import ExecutionZone.Lib.Enumeration
import ExecutionZone.Wallet.ChainIndex
import ExecutionZone.Wallet.KeyTree
import ExecutionZone.Wallet.TreeGrowth
import ExecutionZone.Wallet.KeyChain
import ExecutionZone.Wallet.Sync
import ExecutionZone.Programs.NewPools
import ExecutionZone.Programs.TokenFormats
import ExecutionZone.Transaction.NullifierSet
import ExecutionZone.Transaction.Journal
import ExecutionZone.Circuit.PdaBinding
import ExecutionZone.Transaction.CallBudget
import ExecutionZone.Programs.TokenDefinitions
import ExecutionZone.Transaction.TokenAuthority
import ExecutionZone.Transaction.Windows
import ExecutionZone.Node.BlockPaging
import ExecutionZone.Node.BlockBuilding
import ExecutionZone.Wallet.KeyNodes
import ExecutionZone.Wallet.KeyTreeShape
import ExecutionZone.Wallet.KeyTreeIndex
import ExecutionZone.Wallet.SyncReturns
import ExecutionZone.Lib.Collections
import ExecutionZone.State.Persistence
import ExecutionZone.Transaction.Restored
import ExecutionZone.Node.Restart
import ExecutionZone.Lib.Accumulator
import ExecutionZone.Lib.Decimal
import ExecutionZone.Wallet.ChainIndexText
import ExecutionZone.Node.TransactionLookup
import ExecutionZone.Wallet.WalletKeys
import ExecutionZone.Wallet.CompleteTrees
import ExecutionZone.Wallet.Persistence
import ExecutionZone.Lib.WireFormat
import ExecutionZone.Node.Wire
import ExecutionZone.Lib.HashChain
import ExecutionZone.Node.ChainCommitment
import ExecutionZone.Lib.Channel
import ExecutionZone.Node.Ingestion
import ExecutionZone.Programs.Ata
import ExecutionZone.Transaction.AssociatedTokens
