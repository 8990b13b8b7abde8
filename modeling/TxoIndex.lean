import TxoIndex.Address
import TxoIndex.Block.Rows
import TxoIndex.BlockFile
import TxoIndex.Bytes.Width
import TxoIndex.Chain
import TxoIndex.Cli.Run
import TxoIndex.Config.File
import TxoIndex.Electrum
import TxoIndex.Files.Tree
import TxoIndex.Json.Parser
import TxoIndex.Json.Printer
import TxoIndex.Main
import TxoIndex.Network
import TxoIndex.Preload
import TxoIndex.Preload.Files
import TxoIndex.Report
import TxoIndex.Script.Destination
import TxoIndex.Store.Open
import TxoIndex.Store.Write
import TxoIndex.Proofs.Block.Spelling
import TxoIndex.Proofs.Block.Walking
import TxoIndex.Proofs.Block.Agreement
import TxoIndex.Proofs.Store.Record
import TxoIndex.Proofs.Store.Index
import TxoIndex.Proofs.Store.Representation
import TxoIndex.Proofs.Store.Transactions
import TxoIndex.Proofs.Store.Attempts
import TxoIndex.Proofs.Store.Operations
import TxoIndex.Proofs.Preload.Effects
import TxoIndex.Proofs.Store.Consistency
import TxoIndex.Proofs.Store.Listing
import TxoIndex.Proofs.Store.History
import TxoIndex.Proofs.Preload.Passes
import TxoIndex.Proofs.BlockFile.Records
import TxoIndex.Proofs.Chain.Heights
import TxoIndex.Proofs.Chain.Traversal
import TxoIndex.Proofs.Preload.Reference
import TxoIndex.Proofs.Preload.Resumption
import TxoIndex.Proofs.Preload.Correctness
import TxoIndex.Proofs.Preload.Growth
import TxoIndex.Proofs.Preload.Commutation
import TxoIndex.Proofs.Preload.Barrier
import TxoIndex.Proofs.BlockFile.Framing
import TxoIndex.Proofs.BlockFile.Draining
import TxoIndex.Proofs.BlockFile.RoundTrip
import TxoIndex.Proofs.BlockFile.Headers
import TxoIndex.Proofs.BlockFile.Resync
import TxoIndex.Proofs.Store.Ledger
import TxoIndex.Proofs.Query.Balance
import TxoIndex.Proofs.Block.RoundTrip
import TxoIndex.Proofs.Store.Independence
import TxoIndex.Proofs.Chain.Ending
import TxoIndex.Proofs.Chain.Linking
import TxoIndex.Proofs.Store.Spending
import TxoIndex.Proofs.Store.Tally
import TxoIndex.Proofs.Preload.Accounting
import TxoIndex.Proofs.Preload.Counting
import TxoIndex.Proofs.Preload.StoredChain
import TxoIndex.Proofs.Chain.Iterations
import TxoIndex.Proofs.Chain.Lines
import TxoIndex.Proofs.Wire.Truncation
import TxoIndex.Proofs.Block.Truncation
import TxoIndex.Proofs.Block.Witnesses
import TxoIndex.Proofs.Query.Order
import TxoIndex.Proofs.BlockFile.Seeking
import TxoIndex.Proofs.BlockFile.Placement
import TxoIndex.Proofs.Store.Layout
import TxoIndex.Proofs.Store.HeaderListing
import TxoIndex.Proofs.Store.MapSize
import TxoIndex.Proofs.Script.Templates
import TxoIndex.Proofs.Hash.Display
import TxoIndex.Proofs.Query.Text
import TxoIndex.Proofs.Wire.Minimality
