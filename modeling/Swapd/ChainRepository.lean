import Mathlib.Algebra.BigOperators.Group.List.Basic
import Swapd.Integer
import Swapd.Table
import Swapd.Types

/-!
# The chain tables

The index of the chain: blocks, the outputs that pay a watched address, the
inputs that spend such an output, and – in `tx_blocks` – which transaction was
seen in which block. Undoing a block deletes its row and, by the cascade, its
rows in `tx_blocks`; outputs and inputs stay, and count as confirmed only as
long as their transaction is in some indexed block. Every query therefore goes
through `blocksOf`.

Integers survive the round trip through the signed columns of the database, so
the rows hold the values themselves. Only an ordering by height looks at the
column, and compares signed.
-/

namespace Swapd

/-- An output that pays a watched address. -/
structure AddressUtxo where
  address : Address
  utxo : Txo
deriving DecidableEq

/-- An input of a transaction, as the spend of an output. -/
structure SpentTxo where
  outpoint : OutPoint
  spendingTx : Txid
  spendingInputIndex : UInt32
deriving DecidableEq

/-- A row of `tx_outputs`. -/
structure TxOutputRow where
  outpoint : OutPoint
  address : Address
  amount : UInt64
deriving DecidableEq

/-- A row of `tx_blocks`. -/
structure TxBlockRow where
  txId : Txid
  blockHash : BlockHash
deriving DecidableEq

/-- **The chain tables.** A row of `blocks` is a header and a row of
`tx_inputs` is a `SpentTxo`. -/
structure ChainTables where
  blocks : List BlockHeader
  watchAddresses : List Address
  txOutputs : List TxOutputRow
  txInputs : List SpentTxo
  txBlocks : List TxBlockRow
deriving DecidableEq

/-- The primary key of `tx_inputs`. -/
def SpentTxo.key (i : SpentTxo) : Txid × UInt32 := (i.spendingTx, i.spendingInputIndex)

/-- The text of a transaction id as it is compared: the bytes in the order in
which they are displayed. -/
def Txid.display (txid : Txid) : Bytes := txid.bytes.reverse

/-- `ORDER BY height, tx_id, output_index`. -/
def Txo.orderedBefore (a b : Txo) : Prop :=
  a.blockHeight.asI64 < b.blockHeight.asI64 ∨
    (a.blockHeight = b.blockHeight ∧
      (Txid.display a.outpoint.txid < Txid.display b.outpoint.txid ∨
        (a.outpoint.txid = b.outpoint.txid ∧ a.outpoint.vout ≤ b.outpoint.vout)))

instance : DecidableRel Txo.orderedBefore := fun a b => by
  unfold Txo.orderedBefore; infer_instance

/-- `txo.confirmations(current_height)`. -/
def Txo.confirmations (txo : Txo) (currentHeight : UInt64) : UInt64 :=
  (currentHeight.saturatingAdd 1).saturatingSub txo.blockHeight

theorem Txo.toNat_confirmations_le (txo : Txo) (currentHeight : UInt64) :
    (txo.confirmations currentHeight).toNat
      ≤ currentHeight.toNat + 1 - txo.blockHeight.toNat := by
  have hone : (1 : UInt64).toNat = 1 := rfl
  rw [confirmations, UInt64.toNat_saturatingSub, UInt64.toNat_saturatingAdd, hone]
  exact Nat.sub_le_sub_right (Nat.min_le_left _ _) _

namespace ChainTables

variable (db : ChainTables)

/-! ## Queries -/

/-- The indexed blocks a transaction was seen in: the join of `tx_blocks` and
`blocks`. -/
def blocksOf (txid : Txid) : List BlockHeader :=
  (db.txBlocks.filter (fun tb => tb.txId = txid)).flatMap
    (fun tb => db.blocks.filter (fun b => b.hash = tb.blockHash))

/-- `map_txo`. -/
def mapTxo (o : TxOutputRow) (b : BlockHeader) : Txo where
  blockHash := b.hash
  blockHeight := b.height
  outpoint := o.outpoint
  txOut := ⟨o.amount, o.address.scriptPubkey⟩

/-- `get_txos_for_address`. -/
def getTxosForAddress (address : Address) : List Txo :=
  Table.orderBy Txo.orderedBefore
    ((db.txOutputs.filter (fun o => o.address = address)).flatMap
      (fun o => (db.blocksOf o.outpoint.txid).map (mapTxo o)))

/-- Whether an output is spent by a transaction of an indexed block. -/
def isSpent (outpoint : OutPoint) : Bool :=
  db.txInputs.any (fun i =>
    i.outpoint = outpoint && !(db.blocksOf i.spendingTx).isEmpty)

/-- `get_utxos`. The addresses are ordered by their scripts, in the place of
their text forms. -/
def getUtxos : List AddressUtxo :=
  Table.orderBy (fun a b =>
      a.address.scriptPubkey < b.address.scriptPubkey ∨
        (a.address = b.address ∧ Txo.orderedBefore a.utxo b.utxo))
    ((db.txOutputs.filter (fun o => !db.isSpent o.outpoint)).flatMap
      (fun o => (db.blocksOf o.outpoint.txid).map (fun b => ⟨o.address, mapTxo o b⟩)))

/-- `get_block_headers`: `ORDER BY height DESC`. -/
def getBlockHeaders : List BlockHeader :=
  Table.orderBy (fun a b => b.height.asI64 ≤ a.height.asI64) db.blocks

/-- `filter_watch_addresses`. -/
def filterWatchAddresses (addresses : List Address) : List Address :=
  db.watchAddresses.filter (fun a => a ∈ addresses)

/-! ## Statements -/

/-- `add_watch_address`. -/
def addWatchAddress (address : Address) : ChainTables :=
  { db with watchAddresses := Table.insertIgnore id db.watchAddresses address }

/-- The row of a block is inserted. -/
def insertBlock (block : BlockHeader) : ChainTables :=
  { db with blocks := Table.insertIgnore BlockHeader.hash db.blocks block }

/-- `add_utxos`: the outputs at watched addresses are inserted. -/
def addUtxos (txOutputs : List AddressUtxo) : ChainTables :=
  { db with
    txOutputs := Table.insertAll TxOutputRow.outpoint db.txOutputs
      ((txOutputs.filter (fun u => u.address ∈ db.watchAddresses)).map
        (fun u => ⟨u.utxo.outpoint, u.address, u.utxo.txOut.value⟩)) }

/-- `mark_spent`: the inputs that spend a stored output are inserted. -/
def markSpent (txos : List SpentTxo) : ChainTables :=
  { db with
    txInputs := Table.insertAll SpentTxo.key db.txInputs
      (txos.filter (fun i => i.outpoint ∈ db.txOutputs.map TxOutputRow.outpoint)) }

/-- `Vec::dedup`: runs of equal elements are shortened to one. -/
def dedup : List Txid → List Txid
  | [] => []
  | [x] => [x]
  | x :: y :: xs => if x = y then dedup (y :: xs) else x :: dedup (y :: xs)

/-- The condition under which a transaction is correlated with its block. In
the second subquery the row of the outer query is written `i.tx_id`, but there
`i` is the `tx_inputs` of the subquery itself: what is asked is whether any
input row spends an output of its own transaction. -/
def isCorrelated (txid : Txid) : Bool :=
  db.txOutputs.any (fun o => o.outpoint.txid = txid)
    || db.txInputs.any (fun i => i.spendingTx = i.outpoint.txid)

/-- The transactions are correlated with the block. -/
def correlate (txns : List Txid) (blockHash : BlockHash) : ChainTables :=
  { db with
    txBlocks := Table.insertAll id db.txBlocks
      ((txns.filter db.isCorrelated).map (fun txid => ⟨txid, blockHash⟩)) }

/-- `add_block`. -/
def addBlock (block : BlockHeader) (txOutputs : List AddressUtxo)
    (txInputs : List SpentTxo) : ChainTables :=
  let db₁ := db.insertBlock block
  let db₂ := db₁.addUtxos txOutputs
  let db₃ := db₂.markSpent txInputs
  let txns := dedup (txOutputs.map (fun o => o.utxo.outpoint.txid)
    ++ txInputs.map SpentTxo.spendingTx)
  db₃.correlate txns block.hash

/-- `undo_block`: the rows of `tx_blocks` go with the block. -/
def undoBlock (hash : BlockHash) : ChainTables :=
  { db with
    blocks := db.blocks.filter (fun b => b.hash ≠ hash)
    txBlocks := db.txBlocks.filter (fun tb => tb.blockHash ≠ hash) }

/-! ## What the queries return -/

variable {db}

theorem mem_blocksOf {txid : Txid} {b : BlockHeader} :
    b ∈ db.blocksOf txid ↔ b ∈ db.blocks ∧ ⟨txid, b.hash⟩ ∈ db.txBlocks := by
  simp only [blocksOf, List.mem_flatMap, List.mem_filter, decide_eq_true_eq]
  constructor
  · rintro ⟨⟨t, h⟩, ⟨htb, rfl⟩, hb, rfl⟩
    exact ⟨hb, htb⟩
  · rintro ⟨hb, htb⟩
    exact ⟨⟨txid, b.hash⟩, ⟨htb, rfl⟩, hb, rfl⟩

/-- **The outputs of an address**: the stored outputs at the address, in the
indexed blocks of their transactions. -/
theorem mem_getTxosForAddress {address : Address} {txo : Txo} :
    txo ∈ db.getTxosForAddress address ↔
      ∃ o ∈ db.txOutputs, o.address = address ∧
        ∃ b ∈ db.blocksOf o.outpoint.txid, txo = mapTxo o b := by
  simp only [getTxosForAddress, Table.mem_orderBy, List.mem_flatMap,
    List.mem_filter, decide_eq_true_eq, List.mem_map, and_assoc, eq_comm (a := txo)]

theorem isSpent_iff {outpoint : OutPoint} :
    db.isSpent outpoint ↔
      ∃ i ∈ db.txInputs, i.outpoint = outpoint ∧ ∃ b, b ∈ db.blocksOf i.spendingTx := by
  simp [isSpent, List.eq_nil_iff_forall_not_mem]

/-- **The unspent outputs**: the stored outputs in the indexed blocks of their
transactions, unless an indexed transaction spends them. -/
theorem mem_getUtxos {u : AddressUtxo} :
    u ∈ db.getUtxos ↔
      ∃ o ∈ db.txOutputs, db.isSpent o.outpoint = false ∧
        ∃ b ∈ db.blocksOf o.outpoint.txid, u = ⟨o.address, mapTxo o b⟩ := by
  simp only [getUtxos, Table.mem_orderBy, List.mem_flatMap, List.mem_filter,
    Bool.not_eq_true', List.mem_map, and_assoc, eq_comm (a := u)]

/-- **Distinct outpoints.** With distinct rows in `tx_outputs`, and every
transaction in at most one indexed block, no outpoint is listed twice. -/
theorem nodup_flatMap_blocksOf {γ : Type} {rows : List TxOutputRow}
    {f : TxOutputRow → BlockHeader → γ} {point : γ → OutPoint}
    (hpoint : ∀ o b, point (f o b) = o.outpoint)
    (hrows : (rows.map TxOutputRow.outpoint).Nodup)
    (hone : ∀ o ∈ rows, (db.blocksOf o.outpoint.txid).length ≤ 1) :
    ((rows.flatMap (fun o => (db.blocksOf o.outpoint.txid).map (f o))).map
      point).Nodup := by
  rw [List.map_flatMap, List.nodup_flatMap]
  constructor
  · intro o ho
    have hlen : (((db.blocksOf o.outpoint.txid).map (f o)).map point).length ≤ 1 := by
      simpa using hone o ho
    match h : ((db.blocksOf o.outpoint.txid).map (f o)).map point, hlen with
    | [], _ => exact List.nodup_nil
    | [_], _ => exact List.nodup_singleton _
  · refine (List.pairwise_map.mp hrows).imp (fun {o o'} hne => ?_)
    simp only [Function.onFun, List.map_map]
    intro k hk hk'
    obtain ⟨b, -, rfl⟩ := List.mem_map.mp hk
    obtain ⟨b', -, hb'⟩ := List.mem_map.mp hk'
    exact hne (by simpa [hpoint] using hb'.symm)

/-- **A transaction is in at most one block**, where its blocks have one hash. -/
theorem length_blocksOf_le_one {txid : Txid} (hblocks : (db.blocks.map BlockHeader.hash).Nodup)
    (htxBlocks : db.txBlocks.Nodup)
    (hone : ∀ b ∈ db.blocksOf txid, ∀ b' ∈ db.blocksOf txid, b.hash = b'.hash) :
    (db.blocksOf txid).length ≤ 1 := by
  have hnodup : ((db.blocksOf txid).map BlockHeader.hash).Nodup := by
    unfold blocksOf
    rw [List.map_flatMap, List.nodup_flatMap]
    constructor
    · intro tb _
      exact hblocks.sublist (List.filter_sublist.map _)
    · refine (htxBlocks.filter _).imp_of_mem (fun {tb tb'} htb htb' hne => ?_)
      simp only [Function.onFun]
      intro k hk hk'
      obtain ⟨b, hb, rfl⟩ := List.mem_map.mp hk
      obtain ⟨b', hb', hbb'⟩ := List.mem_map.mp hk'
      simp only [List.mem_filter, decide_eq_true_eq] at hb hb' htb htb'
      cases tb
      cases tb'
      simp_all
  match hb : db.blocksOf txid with
  | [] => simp
  | [_] => simp
  | b :: b' :: bs =>
    have heq : b.hash = b'.hash := hone b (by simp [hb]) b' (by simp [hb])
    simp [hb, heq] at hnodup

/-- The most there can be: twenty-one million coins, in satoshis. -/
def maxMoneySat : ℕ := 21000000 * 100000000

/-- **Tables of one chain**: the primary keys hold, no transaction is in two
indexed blocks, and the confirmed outputs are worth no more than there is. -/
structure OfOneChain (db : ChainTables) : Prop where
  nodup_blocks : (db.blocks.map BlockHeader.hash).Nodup
  nodup_txOutputs : (db.txOutputs.map TxOutputRow.outpoint).Nodup
  nodup_txBlocks : db.txBlocks.Nodup
  unique_tx : ∀ {txid b b'}, b ∈ db.blocksOf txid → b' ∈ db.blocksOf txid →
    b.hash = b'.hash
  total_le : ((db.txOutputs.filter
    (fun o => !(db.blocksOf o.outpoint.txid).isEmpty)).map
      (fun o => o.amount.toNat)).sum ≤ maxMoneySat

theorem OfOneChain.length_blocksOf (h : db.OfOneChain) (txid : Txid) :
    (db.blocksOf txid).length ≤ 1 :=
  length_blocksOf_le_one h.nodup_blocks h.nodup_txBlocks (fun _ hb _ hb' => h.unique_tx hb hb')

theorem OfOneChain.nodup_getTxosForAddress (h : db.OfOneChain) (address : Address) :
    ((db.getTxosForAddress address).map Txo.outpoint).Nodup :=
  Table.nodup_map_orderBy.mpr (nodup_flatMap_blocksOf (fun _ _ => rfl)
    (h.nodup_txOutputs.sublist (List.filter_sublist.map _))
    (fun o _ => h.length_blocksOf o.outpoint.txid))

/-- The outputs of an address are worth no more than there is. -/
theorem OfOneChain.sum_getTxosForAddress_le (h : db.OfOneChain) (address : Address) :
    ((db.getTxosForAddress address).map (fun t => t.txOut.value.toNat)).sum
      ≤ maxMoneySat := by
  refine le_trans (le_of_eq (Table.orderBy_perm.map _).sum_eq) (le_trans ?_ h.total_le)
  induction db.txOutputs with
  | nil => simp
  | cons o rows ih =>
    have hlen := h.length_blocksOf o.outpoint.txid
    match hb : db.blocksOf o.outpoint.txid, hlen with
    | [], _ =>
      by_cases ha : o.address = address <;> simpa [ha, hb] using ih
    | [b], _ =>
      by_cases ha : o.address = address
      · simpa [ha, hb, mapTxo] using ih
      · simp only [List.filter_cons, ha, decide_false, Bool.false_eq_true, if_false,
          hb, List.isEmpty_cons, Bool.not_false, if_true, List.map_cons, List.sum_cons]
        omega

/-- `Vec::dedup` drops no element for good. -/
theorem mem_dedup {x : Txid} {xs : List Txid} : x ∈ dedup xs ↔ x ∈ xs := by
  induction xs using dedup.induct with
  | case1 => rfl
  | case2 y => rfl
  | case3 y xs ih => rw [dedup, if_pos rfl, ih]; simp
  | case4 y z xs hne ih => rw [dedup, if_neg hne, List.mem_cons, ih, ← List.mem_cons]

end ChainTables

end Swapd
