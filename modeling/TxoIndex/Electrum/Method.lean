import TxoIndex.Text.Quoted

/-!
# Methods of the Electrum protocol

Every method of the protocol has a name, whether the index serves it or not.
-/

namespace TxoIndex.Electrum

inductive Method where
  | blockHeader
  | blockHeaders
  | estimateFee
  | headersSubscribe
  | relayFee
  | scriptHashGetBalance
  | scriptHashGetHistory
  | scriptHashGetMempool
  | scriptHashHistory
  | scriptHashListUnspent
  | scriptHashSubscribe
  | scriptHashUtxos
  | transactionBroadcast
  | transactionGet
  | transactionGetMerkle
  | transactionIdFromPos
  | mempoolChanges
  | mempoolGetFeeHistogram
  | serverAddPeer
  | serverBanner
  | serverDonationAddress
  | serverFeatures
  | serverPeersSubscribe
  | serverPing
  | serverVersion
  deriving DecidableEq, Repr

namespace Method

def all : List Method :=
  [blockHeader, blockHeaders, estimateFee, headersSubscribe, relayFee, scriptHashGetBalance,
    scriptHashGetHistory, scriptHashGetMempool, scriptHashHistory, scriptHashListUnspent,
    scriptHashSubscribe, scriptHashUtxos, transactionBroadcast, transactionGet,
    transactionGetMerkle, transactionIdFromPos, mempoolChanges, mempoolGetFeeHistogram,
    serverAddPeer, serverBanner, serverDonationAddress, serverFeatures, serverPeersSubscribe,
    serverPing, serverVersion]

def name : Method → String
  | blockHeader => "blockchain.block.header"
  | blockHeaders => "blockchain.block.headers"
  | estimateFee => "blockchain.estimatefee"
  | headersSubscribe => "blockchain.headers.subscribe"
  | relayFee => "blockchain.relayfee"
  | scriptHashGetBalance => "blockchain.scripthash.get_balance"
  | scriptHashGetHistory => "blockchain.scripthash.get_history"
  | scriptHashGetMempool => "blockchain.scripthash.get_mempool"
  | scriptHashHistory => "blockchain.scripthash.history"
  | scriptHashListUnspent => "blockchain.scripthash.listunspent"
  | scriptHashSubscribe => "blockchain.scripthash.subscribe"
  | scriptHashUtxos => "blockchain.scripthash.utxos"
  | transactionBroadcast => "blockchain.transaction.broadcast"
  | transactionGet => "blockchain.transaction.get"
  | transactionGetMerkle => "blockchain.transaction.get_merkle"
  | transactionIdFromPos => "blockchain.transaction.id_from_pos"
  | mempoolChanges => "mempool.changes"
  | mempoolGetFeeHistogram => "mempool.get_fee_histogram"
  | serverAddPeer => "server.add_peer"
  | serverBanner => "server.banner"
  | serverDonationAddress => "server.donation_address"
  | serverFeatures => "server.features"
  | serverPeersSubscribe => "server.peers.subscribe"
  | serverPing => "server.ping"
  | serverVersion => "server.version"

/-- The name in one word. -/
def title : Method → String
  | blockHeader => "BlockHeader"
  | blockHeaders => "BlockHeaders"
  | estimateFee => "EstimateFee"
  | headersSubscribe => "HeadersSubscribe"
  | relayFee => "RelayFee"
  | scriptHashGetBalance => "ScriptHashGetBalance"
  | scriptHashGetHistory => "ScriptHashGetHistory"
  | scriptHashGetMempool => "ScriptHashGetMempool"
  | scriptHashHistory => "ScriptHashHistory"
  | scriptHashListUnspent => "ScriptHashListUnspent"
  | scriptHashSubscribe => "ScriptHashSubscribe"
  | scriptHashUtxos => "ScriptHashUtxos"
  | transactionBroadcast => "TransactionBroadcast"
  | transactionGet => "TransactionGet"
  | transactionGetMerkle => "TransactionGetMerkle"
  | transactionIdFromPos => "TransactionIdFromPos"
  | mempoolChanges => "MempoolChanges"
  | mempoolGetFeeHistogram => "MempoolGetFeeHistogram"
  | serverAddPeer => "ServerAddPeer"
  | serverBanner => "ServerBanner"
  | serverDonationAddress => "ServerDonationAddress"
  | serverFeatures => "ServerFeatures"
  | serverPeersSubscribe => "ServerPeersSubscribe"
  | serverPing => "ServerPing"
  | serverVersion => "ServerVersion"

def ofName? (text : String) : Option Method :=
  all.find? fun m ↦ m.name = text

theorem mem_all (m : Method) : m ∈ all := by
  cases m <;> decide

end Method

end TxoIndex.Electrum
