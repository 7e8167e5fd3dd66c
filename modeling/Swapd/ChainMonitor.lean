import Swapd.ChainRepository
import Swapd.Interaction
import Swapd.MemChain
import Swapd.Services

/-!
# The chain monitor

The monitor keeps the chain tables up to date with bitcoind. A block is
processed in two calls: which of the addresses it pays are watched, and the
transaction that stores it. A sync asks for the best tip, walks back until it
meets the chain it has in memory, undoes what is not on the new branch, and
processes the new branch block by block.

The monitor talks to bitcoind and to its repository; `ChainCall` is what it
may ask of them. That it is cancelled is one more thing it asks. `never` is the
call without an answer, which stands for a panic and for a walk back that does
not end: the walk is given a number of headers it may look at, and every run
of the source is one for some number.
-/

namespace Swapd

/-! ## Blocks -/

/-- **A block**, as far as the monitor looks into it. Its transactions have
inputs, and no more inputs or outputs than can be counted in thirty-two bits; a
height in a coinbase is a script number of at most four bytes. -/
structure Block where
  hash : BlockHash
  prev : BlockHash
  /-- `bip34_block_height`, unless it fails. -/
  bip34Height : Option UInt64
  txdata : List Transaction
  inputs_ne_nil : ∀ tx ∈ txdata, tx.input ≠ []
  inputs_lt : ∀ tx ∈ txdata, tx.input.length < 2 ^ 32
  outputs_lt : ∀ tx ∈ txdata, tx.output.length < 2 ^ 32
  height_lt : ∀ height ∈ bip34Height, height.toNat < 2 ^ 31
deriving DecidableEq

/-- What the monitor computes with libraries. -/
structure ChainCodec where
  /-- `compute_txid`. -/
  computeTxid : Transaction → Txid
  /-- Whether `Address::from_script` succeeds. -/
  standard : ScriptBuf → Bool

/-- An output of a block, at the address it pays. -/
structure BlockOutput where
  address : Address
  outpoint : OutPoint
  txOut : TxOut
deriving DecidableEq

namespace ChainCodec

variable (codec : ChainCodec)

/-- The outputs of a transaction that pay an address. -/
def outputsOf (tx : Transaction) : List BlockOutput :=
  tx.output.zipIdx.filterMap (fun (output, vout) =>
    (Address.fromScript codec.standard output.scriptPubkey).map (fun address =>
      ⟨address, ⟨codec.computeTxid tx, UInt32.ofNat vout⟩, output⟩))

/-- The spends of a transaction. -/
def spendsOf (tx : Transaction) : List SpentTxo :=
  tx.input.zipIdx.map (fun (input, vin) =>
    ⟨input.previousOutput, codec.computeTxid tx, UInt32.ofNat vin⟩)

/-- The outputs of a block that pay an address. -/
def outputs (block : Block) : List BlockOutput := block.txdata.flatMap codec.outputsOf

/-- The spends of a block. -/
def spentTxos (block : Block) : List SpentTxo := block.txdata.flatMap codec.spendsOf

end ChainCodec

/-- The header of a block, at a height. -/
def Block.header (block : Block) (height : UInt64) : BlockHeader :=
  ⟨block.hash, height, block.prev⟩

/-- The outputs of a block at the addresses that are watched, address by
address. -/
def ChainCodec.watchUtxos (codec : ChainCodec) (block : Block) (height : UInt64)
    (watchAddresses : List Address) : List AddressUtxo :=
  watchAddresses.flatMap (fun address =>
    ((codec.outputs block).filter (fun o => o.address = address)).map (fun o =>
      ⟨address, ⟨block.hash, height, o.outpoint, o.txOut⟩⟩))

/-! ## What the monitor asks -/

/-- The calls of the monitor. -/
inductive ChainCall where
  | getTipHash
  | getBlockHeader (hash : BlockHash)
  | getBlock (hash : BlockHash)
  | getBlockHeaders
  | filterWatchAddresses (addresses : List Address)
  | addBlock (block : BlockHeader) (txOutputs : List AddressUtxo) (txInputs : List SpentTxo)
  | undoBlock (hash : BlockHash)
  | isCancelled
  | never
deriving DecidableEq

/-- The replies to the calls of the monitor. What `add_block` returns is only
logged. -/
@[reducible] def ChainCall.Reply : ChainCall → Type
  | getTipHash => Except ChainError BlockHash
  | getBlockHeader _ => Except ChainError BlockHeader
  | getBlock _ => Except ChainError Block
  | getBlockHeaders => Except ChainRepositoryError (List BlockHeader)
  | filterWatchAddresses _ => Except ChainRepositoryError (List Address)
  | addBlock _ _ _ => Except ChainRepositoryError Unit
  | undoBlock _ => Except ChainRepositoryError Unit
  | isCancelled => Bool
  | never => Empty

/-- **The services of the monitor.** -/
@[reducible] def ChainServices : Interface where
  Call := ChainCall
  Reply := ChainCall.Reply

/-- The programs of the monitor. -/
abbrev Monitoring (α : Type) : Type := ExceptT ChainError (Prog ChainServices) α

namespace ChainMonitor

/-- A computation that would panic has no result. -/
def unwrap {α : Type} : Option α → Monitoring α
  | some a => pure a
  | none => do
    let e : Empty ← Prog.ask (I := ChainServices) .never
    nomatch e

variable (codec : ChainCodec)

/-- `process_block`. -/
def processBlock (block : Block) : Monitoring Unit :=
  match block.bip34Height with
  | none => throw .general
  | some height => do
    let watchAddresses ← orFail .database (Prog.perform (I := ChainServices)
      (.filterWatchAddresses ((codec.outputs block).map BlockOutput.address)))
    orFail .database (Prog.perform (I := ChainServices)
      (.addBlock (block.header height) (codec.watchUtxos block height watchAddresses)
        (codec.spentTxos block)))

/-- The loop that walks back from the tip to the chain that is known. There is
no chain if it is cancelled. -/
def walkBack (existing : Chain) : ℕ → BlockHeader → Chain → Monitoring (Option Chain)
  | 0, _, _ => unwrap none
  | n + 1, current, new => do
    if ← Prog.ask (I := ChainServices) .isCancelled then
      pure none
    else if existing.containsBlock current.hash then
      pure (some new)
    else
      let header ← orFail id (Prog.perform (I := ChainServices) (.getBlockHeader current.prev))
      let (new, result) ← unwrap (new.prepend header)
      let () ← Prog.ofExcept result
      walkBack existing n header new

/-- The loop that undoes blocks, up to one of the new chain. It says whether it
came to its end. -/
def undoBlocks (new : Chain) : List BlockHeader → Monitoring Bool
  | [] => pure true
  | block :: blocks => do
    if ← Prog.ask (I := ChainServices) .isCancelled then
      pure false
    else if new.containsBlock block.hash then
      pure true
    else
      orFail .database (Prog.perform (I := ChainServices) (.undoBlock block.hash))
      undoBlocks new blocks

/-- The loop that processes the new blocks. It says whether it came to its
end. -/
def addBlocks : List BlockHeader → Monitoring Bool
  | [] => pure true
  | header :: headers => do
    if ← Prog.ask (I := ChainServices) .isCancelled then
      pure false
    else
      let block ← orFail id (Prog.perform (I := ChainServices) (.getBlock header.hash))
      processBlock codec block
      addBlocks headers

/-- The blocks that are not on the new chain are undone. -/
def undoReorged (existing new : Chain) : Monitoring Bool := do
  let base ← unwrap new.baseHeader
  let tip ← unwrap existing.tipHeader
  if base = tip then
    pure true
  else
    let blocks ← unwrap existing.iterBackwards
    undoBlocks new blocks

/-- The new blocks are processed and the chain in memory is moved to the new
tip. -/
def extend (existing new : Chain) : Monitoring (Option Chain) := do
  let headers ← unwrap new.iterForwards
  if ← addBlocks codec headers then
    let (chain, result) ← unwrap (existing.retip new)
    let () ← Prog.ofExcept result
    pure (some chain)
  else
    pure none

/-- **`do_sync`**, with as many headers to look at as are given. It returns the
chain in memory as it is left, or nothing when it was cancelled and left it
alone. -/
def doSync (steps : ℕ) (existing : Chain) : Monitoring (Option Chain) := do
  let tipHash ← orFail id (Prog.perform (I := ChainServices) .getTipHash)
  let header ← orFail id (Prog.perform (I := ChainServices) (.getBlockHeader tipHash))
  match ← walkBack existing steps header (Chain.new header) with
  | none => pure none
  | some new =>
    if ← undoReorged existing new then
      extend codec existing new
    else
      pure none

/-- The birthday of an empty index, so many blocks before a block. -/
def walkToBirthday : ℕ → BlockHeader → Monitoring BlockHeader
  | 0, header => pure header
  | n + 1, header => do
    let prev ← orFail id (Prog.perform (I := ChainServices) (.getBlockHeader header.prev))
    walkToBirthday n prev

/-- The chain that `start` begins with: what is stored, or the birthday. -/
def loadChain : Monitoring Chain := do
  let blocks ← orFail .database (Prog.perform (I := ChainServices) .getBlockHeaders)
  match ← unwrap (Chain.tryFrom blocks) with
  | .ok chain => pure chain
  | .error .emptyChain =>
    let tipHash ← orFail id (Prog.perform (I := ChainServices) .getTipHash)
    let tip ← orFail id (Prog.perform (I := ChainServices) (.getBlockHeader tipHash))
    let birthday ← walkToBirthday 20 tip
    orFail .database (Prog.perform (I := ChainServices) (.addBlock birthday [] []))
    pure (Chain.new birthday)
  | .error e => throw e

/-- `start_tip_sync`, for so many rounds. -/
def startTipSync (steps : ℕ) : ℕ → Chain → Monitoring Unit
  | 0, _ => pure ()
  | n + 1, chain => do
    if ← Prog.ask (I := ChainServices) .isCancelled then
      pure ()
    else
      match ← doSync codec steps chain with
      | some chain => startTipSync steps n chain
      | none => startTipSync steps n chain

/-- `start_full_sync`, for so many rounds: each begins at the birthday. -/
def startFullSync (steps : ℕ) (birthdayChain : Chain) : ℕ → Monitoring Unit
  | 0 => pure ()
  | n + 1 => do
    if ← Prog.ask (I := ChainServices) .isCancelled then
      pure ()
    else
      let _ ← doSync codec steps birthdayChain
      startFullSync steps birthdayChain n

end ChainMonitor

/-! ## The outputs of a block -/

namespace ChainCodec

variable {codec : ChainCodec} {block : Block} {tx : Transaction}

/-- **The outputs of a transaction**, by their position. -/
theorem mem_outputsOf {o : BlockOutput} :
    o ∈ codec.outputsOf tx ↔ ∃ vout, tx.output[vout]? = some o.txOut ∧
      Address.fromScript codec.standard o.txOut.scriptPubkey = some o.address ∧
      o.outpoint = ⟨codec.computeTxid tx, UInt32.ofNat vout⟩ := by
  simp only [outputsOf, List.mem_filterMap, Prod.exists, List.mem_zipIdx_iff_getElem?,
    Option.map_eq_some_iff]
  constructor
  · rintro ⟨txOut, vout, hget, address, haddress, rfl⟩
    exact ⟨vout, hget, haddress, rfl⟩
  · rintro ⟨vout, hget, haddress, hpoint⟩
    exact ⟨o.txOut, vout, hget, o.address, haddress, by rw [← hpoint]⟩

theorem mem_outputs {o : BlockOutput} :
    o ∈ codec.outputs block ↔ ∃ tx ∈ block.txdata, o ∈ codec.outputsOf tx :=
  List.mem_flatMap

/-- **The spends of a block**, by their position. -/
theorem mem_spentTxos {s : SpentTxo} :
    s ∈ codec.spentTxos block ↔ ∃ tx ∈ block.txdata, ∃ vin input,
      tx.input[vin]? = some input ∧
        s = ⟨input.previousOutput, codec.computeTxid tx, UInt32.ofNat vin⟩ := by
  simp only [spentTxos, spendsOf, List.mem_flatMap, List.mem_map, Prod.exists,
    List.mem_zipIdx_iff_getElem?]
  constructor
  · rintro ⟨tx, htx, input, vin, hget, rfl⟩
    exact ⟨tx, htx, vin, input, hget, rfl⟩
  · rintro ⟨tx, htx, vin, input, hget, rfl⟩
    exact ⟨tx, htx, input, vin, hget, rfl⟩

/-- The outputs at watched addresses. -/
theorem mem_watchUtxos {height : UInt64} {watchAddresses : List Address} {u : AddressUtxo} :
    u ∈ codec.watchUtxos block height watchAddresses ↔ u.address ∈ watchAddresses ∧
      ⟨u.address, u.utxo.outpoint, u.utxo.txOut⟩ ∈ codec.outputs block ∧
      u.utxo.blockHash = block.hash ∧ u.utxo.blockHeight = height := by
  simp only [watchUtxos, List.mem_flatMap, List.mem_map, List.mem_filter, decide_eq_true_eq]
  constructor
  · rintro ⟨a, ha, ⟨_, point, out⟩, ⟨ho, rfl⟩, rfl⟩
    exact ⟨ha, ho, rfl, rfl⟩
  · obtain ⟨a, ⟨hash, h, point, out⟩⟩ := u
    rintro ⟨ha, ho, rfl, rfl⟩
    exact ⟨a, ha, ⟨a, point, out⟩, ⟨ho, rfl⟩, rfl⟩

/-- Every transaction of a block spends something. -/
theorem exists_mem_spentTxos (htx : tx ∈ block.txdata) :
    ∃ s ∈ codec.spentTxos block, s.spendingTx = codec.computeTxid tx := by
  obtain ⟨input, rest, hinput⟩ := List.exists_cons_of_ne_nil (block.inputs_ne_nil tx htx)
  refine ⟨⟨input.previousOutput, codec.computeTxid tx, UInt32.ofNat 0⟩, ?_, rfl⟩
  exact mem_spentTxos.mpr ⟨tx, htx, 0, input, by rw [hinput]; rfl, rfl⟩

end ChainCodec

end Swapd
