import Swapd.ChainMonitor

/-!
# The blocks there are

What the index of the chain can be right about: the blocks that bitcoind has,
on any of its branches. A hash names one block. A transaction id commits to
the inputs and the outputs of its transaction, so it determines them and no
transaction spends itself; and the same id is in one block of a branch at
most.

`ChainTables.Sound` says that the rows of the chain tables come from such
blocks, whichever blocks were indexed and undone before. Storing a block and
undoing one keep it so.
-/

namespace Swapd

/-- **The blocks of bitcoind.** -/
structure BlockTree (codec : ChainCodec) where
  /-- The block with a hash. -/
  block : BlockHash → Option Block
  block_hash : ∀ {hash b}, block hash = some b → b.hash = hash
  /-- A transaction id determines the outputs and the inputs. -/
  txid_determines : ∀ {b b' tx tx'}, block b.hash = some b → block b'.hash = some b' →
    tx ∈ b.txdata → tx' ∈ b'.txdata → codec.computeTxid tx = codec.computeTxid tx' →
    tx.output = tx'.output ∧
      tx.input.map TxIn.previousOutput = tx'.input.map TxIn.previousOutput
  /-- No transaction spends itself. -/
  txid_acyclic : ∀ {b tx input}, block b.hash = some b → tx ∈ b.txdata → input ∈ tx.input →
    input.previousOutput.txid ≠ codec.computeTxid tx
  /-- A transaction is in one block of a branch. -/
  txid_once : ∀ {bs : List Block}, (∀ b ∈ bs, block b.hash = some b) →
    bs.IsChain (fun a b => b.prev = a.hash) → ∀ b ∈ bs, ∀ b' ∈ bs, ∀ tx ∈ b.txdata,
    ∀ tx' ∈ b'.txdata, codec.computeTxid tx = codec.computeTxid tx' → b = b'

namespace BlockTree

variable {codec : ChainCodec} (tree : BlockTree codec)

/-- The tree has this block. -/
def Has (b : Block) : Prop := tree.block b.hash = some b

variable {tree} {b b' : Block}

theorem has_of_block {hash : BlockHash} (h : tree.block hash = some b) : tree.Has b := by
  rw [Has, tree.block_hash h]
  exact h

/-- Positions in thirty-two bits. -/
theorem ofNat_inj {m n : ℕ} (hm : m < 2 ^ 32) (hn : n < 2 ^ 32)
    (h : UInt32.ofNat m = UInt32.ofNat n) : m = n := by
  have := congrArg UInt32.toNat h
  rwa [UInt32.toNat_ofNat_of_lt' hm, UInt32.toNat_ofNat_of_lt' hn] at this

/-- **An outpoint determines its output.** -/
theorem output_unique (hb : tree.Has b) (hb' : tree.Has b') {o o' : BlockOutput}
    (ho : o ∈ codec.outputs b) (ho' : o' ∈ codec.outputs b') (h : o.outpoint = o'.outpoint) :
    o = o' := by
  obtain ⟨tx, htx, hmem⟩ := ChainCodec.mem_outputs.mp ho
  obtain ⟨tx', htx', hmem'⟩ := ChainCodec.mem_outputs.mp ho'
  obtain ⟨vout, hget, haddress, hpoint⟩ := ChainCodec.mem_outputsOf.mp hmem
  obtain ⟨vout', hget', haddress', hpoint'⟩ := ChainCodec.mem_outputsOf.mp hmem'
  rw [hpoint, hpoint', OutPoint.mk.injEq] at h
  have hlt : vout < 2 ^ 32 :=
    (List.getElem?_eq_some_iff.mp hget).1.trans (b.outputs_lt tx htx)
  have hlt' : vout' < 2 ^ 32 :=
    (List.getElem?_eq_some_iff.mp hget').1.trans (b'.outputs_lt tx' htx')
  have hvout := ofNat_inj hlt hlt' h.2
  rw [(tree.txid_determines hb hb' htx htx' h.1).1, hvout, hget'] at hget
  have htxOut := Option.some.inj hget
  rw [← htxOut, haddress'] at haddress
  have hpoint_eq : o.outpoint = o'.outpoint := by rw [hpoint, hpoint', h.1, h.2]
  cases o
  cases o'
  simp_all

/-- **The position of an input determines its spend.** -/
theorem spend_unique (hb : tree.Has b) (hb' : tree.Has b') {s s' : SpentTxo}
    (hs : s ∈ codec.spentTxos b) (hs' : s' ∈ codec.spentTxos b') (h : s.key = s'.key) :
    s = s' := by
  obtain ⟨tx, htx, vin, input, hget, rfl⟩ := ChainCodec.mem_spentTxos.mp hs
  obtain ⟨tx', htx', vin', input', hget', rfl⟩ := ChainCodec.mem_spentTxos.mp hs'
  have hid : codec.computeTxid tx = codec.computeTxid tx' := congrArg Prod.fst h
  have hlt : vin < 2 ^ 32 :=
    (List.getElem?_eq_some_iff.mp hget).1.trans (b.inputs_lt tx htx)
  have hlt' : vin' < 2 ^ 32 :=
    (List.getElem?_eq_some_iff.mp hget').1.trans (b'.inputs_lt tx' htx')
  have hvin : vin = vin' := ofNat_inj hlt hlt' (congrArg Prod.snd h)
  have hmap : (tx.input.map TxIn.previousOutput)[vin]? = some input.previousOutput := by
    rw [List.getElem?_map, hget, Option.map_some]
  have hmap' : (tx'.input.map TxIn.previousOutput)[vin]? = some input'.previousOutput := by
    rw [List.getElem?_map, hvin, hget', Option.map_some]
  rw [(tree.txid_determines hb hb' htx htx' hid).2, hmap'] at hmap
  rw [Option.some.inj hmap, hid, hvin]

/-- An output of a transaction is one of every block that has a transaction of
the same id. -/
theorem outputs_of_txid (hb : tree.Has b) (hb' : tree.Has b') {o : BlockOutput}
    (ho : o ∈ codec.outputs b) {tx' : Transaction} (htx' : tx' ∈ b'.txdata)
    (h : codec.computeTxid tx' = o.outpoint.txid) : o ∈ codec.outputsOf tx' := by
  obtain ⟨tx, htx, hmem⟩ := ChainCodec.mem_outputs.mp ho
  obtain ⟨vout, hget, haddress, hpoint⟩ := ChainCodec.mem_outputsOf.mp hmem
  have hid : codec.computeTxid tx' = codec.computeTxid tx := by rw [h, hpoint]
  rw [← (tree.txid_determines hb' hb htx' htx hid).1] at hget
  exact ChainCodec.mem_outputsOf.mpr ⟨vout, hget, haddress, by rw [hpoint, hid]⟩

/-- A spend of a transaction is one of every block that has a transaction of
the same id. -/
theorem spends_of_txid (hb : tree.Has b) (hb' : tree.Has b') {i : SpentTxo}
    (hi : i ∈ codec.spentTxos b) {tx' : Transaction} (htx' : tx' ∈ b'.txdata)
    (h : codec.computeTxid tx' = i.spendingTx) : i ∈ codec.spentTxos b' := by
  obtain ⟨tx, htx, vin, input, hget, rfl⟩ := ChainCodec.mem_spentTxos.mp hi
  have hmap : (tx'.input.map TxIn.previousOutput)[vin]? = some input.previousOutput := by
    rw [(tree.txid_determines hb' hb htx' htx h).2, List.getElem?_map, hget, Option.map_some]
  rw [List.getElem?_map] at hmap
  obtain ⟨input', hget', hprev⟩ := Option.map_eq_some_iff.mp hmap
  refine ChainCodec.mem_spentTxos.mpr ⟨tx', htx', vin, input', hget', ?_⟩
  rw [hprev, h]

end BlockTree

/-- The row an output is stored in. -/
def BlockOutput.row (o : BlockOutput) : TxOutputRow := ⟨o.outpoint, o.address, o.txOut.value⟩

namespace ChainTables

variable {codec : ChainCodec} (tree : BlockTree codec) (db : ChainTables)

/-- **The rows come from blocks.** -/
structure Sound : Prop where
  blocks : ∀ x ∈ db.blocks, ∃ b, tree.Has b ∧ b.bip34Height = some x.height ∧
    x = b.header x.height
  nodup_blocks : (db.blocks.map BlockHeader.hash).Nodup
  txOutputs : ∀ r ∈ db.txOutputs, ∃ b, tree.Has b ∧ ∃ o ∈ codec.outputs b, r = o.row
  nodup_txOutputs : (db.txOutputs.map TxOutputRow.outpoint).Nodup
  txInputs : ∀ i ∈ db.txInputs, ∃ b, tree.Has b ∧ i ∈ codec.spentTxos b
  txBlocks : ∀ tb ∈ db.txBlocks, ∃ b, tree.Has b ∧ tb.blockHash = b.hash ∧
    ∃ tx ∈ b.txdata, codec.computeTxid tx = tb.txId
  nodup_txBlocks : db.txBlocks.Nodup

/-- What is stored of a block when it is processed. -/
def stored (codec : ChainCodec) (block : Block) (height : UInt64) (watched : List Address)
    (db : ChainTables) : ChainTables :=
  db.addBlock (block.header height) (codec.watchUtxos block height watched)
    (codec.spentTxos block)

variable {tree} {db} {block : Block} {height : UInt64} {watched : List Address}

/-! ## What storing a block adds -/

/-- The transactions that are correlated with a block are its own. -/
theorem mem_txns {txid : Txid} :
    txid ∈ dedup ((codec.watchUtxos block height watched).map (fun o => o.utxo.outpoint.txid)
        ++ (codec.spentTxos block).map SpentTxo.spendingTx)
      ↔ ∃ tx ∈ block.txdata, codec.computeTxid tx = txid := by
  rw [mem_dedup, List.mem_append, List.mem_map, List.mem_map]
  constructor
  · rintro (⟨u, hu, rfl⟩ | ⟨s, hs, rfl⟩)
    · obtain ⟨-, ho, -⟩ := ChainCodec.mem_watchUtxos.mp hu
      obtain ⟨tx, htx, ho⟩ := ChainCodec.mem_outputs.mp ho
      obtain ⟨vout, -, -, hpoint⟩ := ChainCodec.mem_outputsOf.mp ho
      exact ⟨tx, htx, (congrArg OutPoint.txid hpoint).symm⟩
    · obtain ⟨tx, htx, vin, input, -, rfl⟩ := ChainCodec.mem_spentTxos.mp hs
      exact ⟨tx, htx, rfl⟩
  · rintro ⟨tx, htx, rfl⟩
    obtain ⟨s, hs, hid⟩ := ChainCodec.exists_mem_spentTxos htx
    exact Or.inr ⟨s, hs, hid⟩

/-- The new rows of `tx_outputs`. -/
theorem mem_newOutputs {r : TxOutputRow} {ws : List Address} :
    r ∈ ((codec.watchUtxos block height watched).filter (fun u => u.address ∈ ws)).map
        (fun u => (⟨u.utxo.outpoint, u.address, u.utxo.txOut.value⟩ : TxOutputRow))
      ↔ ∃ o ∈ codec.outputs block, o.address ∈ watched ∧ o.address ∈ ws ∧ r = o.row := by
  rw [List.mem_map]
  constructor
  · rintro ⟨u, hu, rfl⟩
    obtain ⟨hu, hws⟩ := List.mem_filter.mp hu
    obtain ⟨hwatched, ho, -⟩ := ChainCodec.mem_watchUtxos.mp hu
    exact ⟨_, ho, hwatched, of_decide_eq_true hws, rfl⟩
  · rintro ⟨⟨a, point, txOut⟩, ho, hwatched, hws, rfl⟩
    refine ⟨⟨a, ⟨block.hash, height, point, txOut⟩⟩, List.mem_filter.mpr ⟨?_, ?_⟩, rfl⟩
    · exact ChainCodec.mem_watchUtxos.mpr ⟨hwatched, ho, rfl, rfl⟩
    · exact decide_eq_true hws

@[simp] theorem stored_watchAddresses :
    (db.stored codec block height watched).watchAddresses = db.watchAddresses := rfl

theorem stored_blocks : (db.stored codec block height watched).blocks
    = Table.insertIgnore BlockHeader.hash db.blocks (block.header height) := rfl

/-- **The outputs stored with a block** are those at watched addresses. -/
theorem mem_stored_txOutputs (h : db.Sound tree) (hb : tree.Has block) {r : TxOutputRow} :
    r ∈ (db.stored codec block height watched).txOutputs ↔ r ∈ db.txOutputs ∨
      ∃ o ∈ codec.outputs block, o.address ∈ watched ∧ o.address ∈ db.watchAddresses ∧
        r = o.row := by
  refine (Table.mem_insertAll ?_).trans (or_congr_right mem_newOutputs)
  intro r hr r' hr' hkey
  obtain ⟨o, ho, -, -, rfl⟩ := mem_newOutputs.mp hr
  rcases hr' with hr' | hr'
  · obtain ⟨b', hb', o', ho', rfl⟩ := h.txOutputs r' hr'
    rw [BlockTree.output_unique hb' hb ho' ho hkey]
  · obtain ⟨o', ho', -, -, rfl⟩ := mem_newOutputs.mp hr'
    rw [BlockTree.output_unique hb hb ho' ho hkey]

/-- **The spends stored with a block** are those of stored outputs. -/
theorem mem_stored_txInputs (h : db.Sound tree) (hb : tree.Has block) {i : SpentTxo} :
    i ∈ (db.stored codec block height watched).txInputs ↔ i ∈ db.txInputs ∨
      (i ∈ codec.spentTxos block ∧ i.outpoint ∈
        (db.stored codec block height watched).txOutputs.map TxOutputRow.outpoint) := by
  show i ∈ Table.insertAll SpentTxo.key db.txInputs
    ((codec.spentTxos block).filter (fun i => i.outpoint ∈
      (db.stored codec block height watched).txOutputs.map TxOutputRow.outpoint)) ↔ _
  rw [Table.mem_insertAll, List.mem_filter, decide_eq_true_eq]
  intro s hs s' hs' hkey
  have hs := List.mem_of_mem_filter hs
  rcases hs' with hs' | hs'
  · obtain ⟨b', hb', hmem⟩ := h.txInputs s' hs'
    exact BlockTree.spend_unique hb' hb hmem hs hkey
  · exact BlockTree.spend_unique hb hb (List.mem_of_mem_filter hs') hs hkey

/-- **The transactions correlated with a block** are its own, where an output
of theirs is stored or some stored input spends its own transaction. -/
theorem mem_stored_txBlocks {tb : TxBlockRow} :
    tb ∈ (db.stored codec block height watched).txBlocks ↔ tb ∈ db.txBlocks ∨
      (tb.blockHash = block.hash ∧ (∃ tx ∈ block.txdata, codec.computeTxid tx = tb.txId) ∧
        (db.stored codec block height watched).isCorrelated tb.txId) := by
  have hcorrelated (txid : Txid) :
      (db.stored codec block height watched).isCorrelated txid
        = (((db.insertBlock (block.header height)).addUtxos
            (codec.watchUtxos block height watched)).markSpent
              (codec.spentTxos block)).isCorrelated txid := rfl
  refine Table.mem_insertAll_id.trans (or_congr_right ?_)
  simp only [List.mem_map, List.mem_filter, ← hcorrelated]
  constructor
  · rintro ⟨txid, ⟨hmem, hc⟩, rfl⟩
    exact ⟨rfl, mem_txns.mp hmem, hc⟩
  · obtain ⟨txid, hash⟩ := tb
    rintro ⟨rfl, htx, hc⟩
    exact ⟨txid, ⟨mem_txns.mpr htx, hc⟩, rfl⟩

/-! ## The rows stay sound -/

/-- **Storing a block keeps the rows sound.** -/
theorem Sound.stored (h : db.Sound tree) (hb : tree.Has block)
    (hheight : block.bip34Height = some height) :
    (db.stored codec block height watched).Sound tree where
  blocks := fun x hx => by
    rw [stored_blocks, Table.mem_insertIgnore] at hx
    rcases hx with hx | ⟨rfl, -⟩
    · exact h.blocks x hx
    · exact ⟨block, hb, hheight, rfl⟩
  nodup_blocks := by
    rw [stored_blocks]
    exact Table.nodup_insertIgnore h.nodup_blocks
  txOutputs := fun r hr => by
    rcases (mem_stored_txOutputs h hb).mp hr with hr | ⟨o, ho, -, -, rfl⟩
    · exact h.txOutputs r hr
    · exact ⟨block, hb, o, ho, rfl⟩
  nodup_txOutputs := Table.nodup_insertAll h.nodup_txOutputs
  txInputs := fun i hi => by
    rcases (mem_stored_txInputs h hb).mp hi with hi | ⟨hi, -⟩
    · exact h.txInputs i hi
    · exact ⟨block, hb, hi⟩
  txBlocks := fun tb htb => by
    rcases mem_stored_txBlocks.mp htb with htb | ⟨hhash, htx, -⟩
    · exact h.txBlocks tb htb
    · exact ⟨block, hb, hhash, htx⟩
  nodup_txBlocks := Table.nodup_insertAll_id h.nodup_txBlocks

/-- **Undoing a block keeps the rows sound.** -/
theorem Sound.undoBlock (h : db.Sound tree) (hash : BlockHash) :
    (db.undoBlock hash).Sound tree where
  blocks := fun x hx => h.blocks x (List.mem_of_mem_filter hx)
  nodup_blocks := h.nodup_blocks.sublist (List.filter_sublist.map _)
  txOutputs := h.txOutputs
  nodup_txOutputs := h.nodup_txOutputs
  txInputs := h.txInputs
  txBlocks := fun tb htb => h.txBlocks tb (List.mem_of_mem_filter htb)
  nodup_txBlocks := h.nodup_txBlocks.filter _

/-! ## Confirmed outputs -/

/-- A row is confirmed in the blocks that have its transaction. -/
theorem Sound.output_of_mem_blocksOf (h : db.Sound tree) {r : TxOutputRow}
    (hr : r ∈ db.txOutputs) {x : BlockHeader} (hx : x ∈ db.blocksOf r.outpoint.txid) :
    ∃ b, tree.Has b ∧ x = b.header x.height ∧ ∃ o ∈ codec.outputs b, r = o.row := by
  obtain ⟨b₀, hb₀, o, ho, rfl⟩ := h.txOutputs r hr
  obtain ⟨hmem, htb⟩ := mem_blocksOf.mp hx
  obtain ⟨b, hb, hhash, tx, htx, hid⟩ := h.txBlocks _ htb
  obtain ⟨b', hb', -, hheader⟩ := h.blocks x hmem
  have hbb' : b = b' := by
    have hhash' : b'.hash = b.hash := by rw [← hhash, hheader]; rfl
    rw [BlockTree.Has, hhash', hb] at hb'
    exact Option.some.inj hb'
  have houtput := BlockTree.outputs_of_txid hb₀ hb ho htx hid
  exact ⟨b, hb, hbb' ▸ hheader, o, ChainCodec.mem_outputs.mpr ⟨tx, htx, houtput⟩, rfl⟩

/-- The output of a row, as it is read back. -/
theorem mapTxo_row {b : Block} {o : BlockOutput} (ho : o ∈ codec.outputs b) (x : BlockHeader) :
    mapTxo o.row x = ⟨x.hash, x.height, o.outpoint, o.txOut⟩ := by
  obtain ⟨tx, -, ho⟩ := ChainCodec.mem_outputs.mp ho
  obtain ⟨vout, -, haddress, -⟩ := ChainCodec.mem_outputsOf.mp ho
  rw [mapTxo, BlockOutput.row, Address.scriptPubkey_of_fromScript haddress]

end ChainTables

/-! ## A tree from a list of blocks -/

/-- Whether blocks have no two transactions of one id, and none that spends
itself. -/
def ChainCodec.wellFormed (codec : ChainCodec) (blocks : List Block) : Bool :=
  blocks.all (fun b => b.txdata.all (fun tx =>
    tx.input.all (fun input => input.previousOutput.txid ≠ codec.computeTxid tx) &&
      blocks.all (fun b' => b'.txdata.all (fun tx' =>
        codec.computeTxid tx = codec.computeTxid tx' → b = b' ∧ tx = tx'))))

namespace BlockTree

variable {codec : ChainCodec} {blocks : List Block}

/-- **The tree of given blocks.** -/
def ofBlocks (codec : ChainCodec) (blocks : List Block) (h : codec.wellFormed blocks) :
    BlockTree codec where
  block := fun hash => blocks.find? (fun b => b.hash = hash)
  block_hash := fun hb => by
    have := List.find?_some hb
    exact of_decide_eq_true this
  txid_determines := fun {b b' tx tx'} hb hb' htx htx' hid => by
    simp only [ChainCodec.wellFormed, List.all_eq_true, Bool.and_eq_true,
      decide_eq_true_eq] at h
    obtain ⟨-, rfl⟩ := (h b (List.mem_of_find?_eq_some hb) tx htx).2 b'
      (List.mem_of_find?_eq_some hb') tx' htx' hid
    exact ⟨rfl, rfl⟩
  txid_acyclic := fun {b tx input} hb htx hinput => by
    simp only [ChainCodec.wellFormed, List.all_eq_true, Bool.and_eq_true,
      decide_eq_true_eq] at h
    exact (h b (List.mem_of_find?_eq_some hb) tx htx).1 input hinput
  txid_once := fun {bs} hbs _ b hb b' hb' tx htx tx' htx' hid => by
    simp only [ChainCodec.wellFormed, List.all_eq_true, Bool.and_eq_true,
      decide_eq_true_eq] at h
    exact ((h b (List.mem_of_find?_eq_some (hbs b hb)) tx htx).2 b'
      (List.mem_of_find?_eq_some (hbs b' hb')) tx' htx' hid).1

end BlockTree

namespace Sample

/-- Transaction ids are counted by the versions, and every script has an
address. -/
def chainCodec : ChainCodec where
  computeTxid := fun tx => Bytes32.ofByte tx.version.toUInt8
  standard := fun _ => true

/-- An address that is watched. -/
def watchedAddress : Address := ⟨[0x51]⟩

/-- A transaction that pays the watched address. -/
def deposit : Transaction where
  version := 1
  lockTime := 0
  input := [⟨⟨Bytes32.ofByte 100, 0⟩, [], 0, []⟩]
  output := [⟨50000, watchedAddress.scriptPubkey⟩]

/-- A transaction that spends the deposit, to an address nobody watches. -/
def withdrawal : Transaction where
  version := 2
  lockTime := 0
  input := [⟨⟨Bytes32.ofByte 1, 0⟩, [], 0, []⟩]
  output := [⟨49000, [0x52]⟩]

/-- The block with the deposit. -/
def depositBlock : Block where
  hash := Bytes32.ofByte 1
  prev := Bytes32.ofByte 0
  bip34Height := some 100
  txdata := [deposit]
  inputs_ne_nil := by decide
  inputs_lt := by decide
  outputs_lt := by decide
  height_lt := by simp

/-- The block with the withdrawal. -/
def withdrawalBlock : Block where
  hash := Bytes32.ofByte 2
  prev := Bytes32.ofByte 1
  bip34Height := some 101
  txdata := [withdrawal]
  inputs_ne_nil := by decide
  inputs_lt := by decide
  outputs_lt := by decide
  height_lt := by simp

/-- The two blocks. -/
def blockTree : BlockTree chainCodec :=
  .ofBlocks chainCodec [depositBlock, withdrawalBlock] (by decide)

end Sample

end Swapd
