import Mathlib.Data.List.Chain
import Swapd.ChainIndex

/-!
# Unspent outputs

The index as one writer builds it: blocks are processed on top of the tip, or
once more, and the tip is undone, while the watched addresses stay as they are.
`LinearIndex` keeps, beside the tables, the blocks that are indexed and those
that were ever processed, and `LinearIndex.Inv` says exactly which rows there
are because of them.

The spend of a stored output is stored itself, but counts only if the spending
transaction is correlated with an indexed block, and `add_block` correlates a
transaction for its stored outputs alone (`ChainTables.isCorrelated`). So a
spend is seen where the spending transaction pays a watched address, and only
there: `getUtxos` is the true unspent set exactly as long as every spend of an
indexed output is seen (`getUtxos_isUnspent_iff`).
-/

namespace Swapd

variable {codec : ChainCodec}

/-! ## What is unspent -/

/-- Some transaction of the blocks spends an output. -/
def IsSpentIn (codec : ChainCodec) (chain : List Block) (point : OutPoint) : Prop :=
  ∃ b ∈ chain, ∃ i ∈ codec.spentTxos b, i.outpoint = point

/-- **An unspent output** of the blocks, at a watched address. -/
def IsUnspent (codec : ChainCodec) (watched : List Address) (chain : List Block)
    (u : AddressUtxo) : Prop :=
  u.address ∈ watched ∧
    (∃ b ∈ chain, ∃ height, b.bip34Height = some height ∧
      ⟨u.address, u.utxo.outpoint, u.utxo.txOut⟩ ∈ codec.outputs b ∧
      u.utxo.blockHash = b.hash ∧ u.utxo.blockHeight = height) ∧
    ¬ IsSpentIn codec chain u.utxo.outpoint

/-- A block has an output with an outpoint, at a watched address. -/
def HasWatched (codec : ChainCodec) (watched : List Address) (b : Block) (point : OutPoint) :
    Prop :=
  ∃ o ∈ codec.outputs b, o.address ∈ watched ∧ o.outpoint = point

/-- **A spend is caught**: some block with it was processed when the output it
spends had been processed, in the same block or before. The latest block comes
first. -/
def Caught (codec : ChainCodec) (watched : List Address) (history : List Block)
    (i : SpentTxo) : Prop :=
  ∃ b before, b :: before <:+ history ∧ i ∈ codec.spentTxos b ∧
    ∃ b' ∈ b :: before, HasWatched codec watched b' i.outpoint

/-- A transaction of the blocks pays a watched address. -/
def PaysWatched (codec : ChainCodec) (watched : List Address) (chain : List Block)
    (txid : Txid) : Prop :=
  ∃ b ∈ chain, ∃ tx ∈ b.txdata, codec.computeTxid tx = txid ∧
    ∃ o ∈ codec.outputsOf tx, o.address ∈ watched

/-! ## The index of one writer -/

/-- **The index**, with the indexed blocks and the processed ones, the latest
first. -/
structure LinearIndex where
  chain : List Block
  history : List Block
  tables : ChainTables

namespace LinearIndex

/-- A block is processed. -/
def process (codec : ChainCodec) (b : Block) (s : LinearIndex) : LinearIndex :=
  match (ChainMonitor.processBlock codec b).run.exec ChainTables.serve s.tables with
  | some (.ok (), tables) => ⟨if b ∈ s.chain then s.chain else b :: s.chain, b :: s.history, tables⟩
  | some (.error _, tables) => { s with tables := tables }
  | none => s

/-- **A step of the writer.** -/
inductive Step (tree : BlockTree codec) : LinearIndex → LinearIndex → Prop where
  /-- A block is processed on top of the tip. -/
  | extend {s : LinearIndex} {tip b : Block} {rest : List Block} :
      s.chain = tip :: rest → tree.Has b → b.prev = tip.hash → Step tree s (s.process codec b)
  /-- An indexed block is processed again. -/
  | again {s : LinearIndex} {b : Block} : b ∈ s.chain → Step tree s (s.process codec b)
  /-- The tip is undone. -/
  | undo {s : LinearIndex} {tip : Block} {rest : List Block} : s.chain = tip :: rest →
      Step tree s ⟨rest, s.history, s.tables.undoBlock tip.hash⟩

/-- **The start**: the birthday block, stored and processed. -/
def IsStart (tree : BlockTree codec) (watched : List Address) (s : LinearIndex) : Prop :=
  ∃ b height, tree.Has b ∧ b.bip34Height = some height ∧
    s = process codec b ⟨[], [],
      (⟨[], watched, [], [], []⟩ : ChainTables).addBlock (b.header height) [] []⟩

/-- **The states reached.** -/
def Reached (tree : BlockTree codec) (watched : List Address) (s : LinearIndex) : Prop :=
  ∃ s₀, IsStart tree watched s₀ ∧ Relation.ReflTransGen (Step tree) s₀ s

/-- **An output is seen to be spent**: by a caught spend, of an indexed
transaction that pays a watched address. -/
def IsSeen (codec : ChainCodec) (watched : List Address) (s : LinearIndex) (point : OutPoint) :
    Prop :=
  ∃ i, i.outpoint = point ∧ Caught codec watched s.history i ∧
    PaysWatched codec watched s.chain i.spendingTx

/-- **Every spend of an indexed output at a watched address is seen.** -/
def SpendsSeen (codec : ChainCodec) (watched : List Address) (s : LinearIndex) : Prop :=
  ∀ b ∈ s.chain, ∀ point, HasWatched codec watched b point → IsSpentIn codec s.chain point →
    IsSeen codec watched s point

/-- **What always holds** of the index. -/
structure Inv (tree : BlockTree codec) (watched : List Address) (s : LinearIndex) : Prop where
  sound : s.tables.Sound tree
  has : ∀ b ∈ s.history, tree.Has b
  subset : s.chain ⊆ s.history
  nodup : s.chain.Nodup
  linked : s.chain.IsChain (fun b a => b.prev = a.hash)
  /-- A block was processed when those below it had been. -/
  ordered : ∀ b below, b :: below <:+ s.chain →
    ∃ before, b :: before <:+ s.history ∧ below ⊆ b :: before
  watchAddresses : s.tables.watchAddresses = watched
  blocks : ∀ x, x ∈ s.tables.blocks ↔
    ∃ b ∈ s.chain, ∃ height, b.bip34Height = some height ∧ x = b.header height
  height : ∀ b ∈ s.chain, ∃ height, b.bip34Height = some height
  txOutputs : ∀ r, r ∈ s.tables.txOutputs ↔
    ∃ b ∈ s.history, ∃ o ∈ codec.outputs b, o.address ∈ watched ∧ r = o.row
  txInputs : ∀ i, i ∈ s.tables.txInputs ↔ Caught codec watched s.history i
  txBlocks : ∀ tb : TxBlockRow, tb ∈ s.tables.txBlocks ↔
    ∃ b ∈ s.chain, tb.blockHash = b.hash ∧ PaysWatched codec watched [b] tb.txId

variable {tree : BlockTree codec} {watched : List Address} {s s' : LinearIndex} {b : Block}
  {height : UInt64}

/-! ## What a step does -/

/-- A block without a height is not processed. -/
theorem process_of_none (h : b.bip34Height = none) : s.process codec b = s := by
  rw [process, show (ChainMonitor.processBlock codec b).run.exec ChainTables.serve s.tables
    = some (.error .general, s.tables) by rw [ChainMonitor.processBlock, h]; rfl]

/-- **A block is processed** with what is watched. -/
theorem process_of_some (h : b.bip34Height = some height) :
    s.process codec b = ⟨if b ∈ s.chain then s.chain else b :: s.chain, b :: s.history,
      s.tables.stored codec b height (s.tables.filterWatchAddresses
        ((codec.outputs b).map BlockOutput.address))⟩ := by
  rw [process, show (ChainMonitor.processBlock codec b).run.exec ChainTables.serve s.tables
    = some (.ok (), s.tables.stored codec b height (s.tables.filterWatchAddresses
        ((codec.outputs b).map BlockOutput.address))) by
    rw [ChainMonitor.processBlock, h]
    rfl]

/-- The blocks that are indexed afterwards. -/
theorem mem_chain_processed {chain : List Block} {b' : Block} :
    b' ∈ (if b ∈ chain then chain else b :: chain) ↔ b' ∈ chain ∨ b' = b := by
  by_cases hb : b ∈ chain
  · rw [if_pos hb]
    exact ⟨Or.inl, fun h => h.elim id (fun heq => heq ▸ hb)⟩
  · rw [if_neg hb, List.mem_cons, or_comm]

/-- The outputs of a block at watched addresses are those that it asks for. -/
theorem mem_filterWatchAddresses_iff {db : ChainTables} {o : BlockOutput}
    (ho : o ∈ codec.outputs b) :
    o.address ∈ db.filterWatchAddresses ((codec.outputs b).map BlockOutput.address)
      ↔ o.address ∈ db.watchAddresses := by
  rw [ChainTables.filterWatchAddresses, List.mem_filter]
  exact and_iff_left (decide_eq_true (List.mem_map_of_mem ho))

theorem caught_cons {history : List Block} {i : SpentTxo} :
    Caught codec watched (b :: history) i ↔ Caught codec watched history i ∨
      (i ∈ codec.spentTxos b ∧ ∃ b' ∈ b :: history, HasWatched codec watched b' i.outpoint) := by
  constructor
  · rintro ⟨b₁, before, hsuffix, hi, hout⟩
    rcases List.suffix_cons_iff.mp hsuffix with heq | hsuffix
    · obtain ⟨rfl, rfl⟩ := List.cons.inj heq
      exact Or.inr ⟨hi, hout⟩
    · exact Or.inl ⟨b₁, before, hsuffix, hi, hout⟩
  · rintro (⟨b₁, before, hsuffix, hi, hout⟩ | ⟨hi, hout⟩)
    · exact ⟨b₁, before, hsuffix.trans (List.suffix_cons b history), hi, hout⟩
    · exact ⟨b, history, List.suffix_rfl, hi, hout⟩

/-- The tables before anything is stored. -/
def blank (watched : List Address) : LinearIndex := ⟨[], [], ⟨[], watched, [], [], []⟩⟩

/-- **Nothing is stored.** -/
theorem blank_inv : (blank watched).Inv tree watched where
  sound :=
    { blocks := fun _ hx => nomatch hx
      nodup_blocks := List.nodup_nil
      txOutputs := fun _ hr => nomatch hr
      nodup_txOutputs := List.nodup_nil
      txInputs := fun _ hi => nomatch hi
      txBlocks := fun _ htb => nomatch htb
      nodup_txBlocks := List.nodup_nil }
  has := fun _ hb => nomatch hb
  subset := List.Subset.refl _
  nodup := List.nodup_nil
  linked := List.IsChain.nil
  ordered := fun b below hsuffix => by cases List.eq_nil_of_suffix_nil hsuffix
  watchAddresses := rfl
  blocks := fun x => ⟨fun hx => (nomatch hx), fun ⟨_, hb, _⟩ => (nomatch hb)⟩
  height := fun _ hb => nomatch hb
  txOutputs := fun r => ⟨fun hr => (nomatch hr), fun ⟨_, hb, _⟩ => (nomatch hb)⟩
  txInputs := fun i => by
    refine ⟨fun hi => (nomatch hi), fun ⟨b, before, hsuffix, _⟩ => ?_⟩
    cases List.eq_nil_of_suffix_nil hsuffix
  txBlocks := fun tb => ⟨fun htb => (nomatch htb), fun ⟨_, hb, _⟩ => (nomatch hb)⟩

namespace Inv

/-- The rows stored with a block. -/
theorem mem_txOutputs_processed (h : s.Inv tree watched) (hb : tree.Has b) {r : TxOutputRow} :
    r ∈ (s.tables.stored codec b height (s.tables.filterWatchAddresses
        ((codec.outputs b).map BlockOutput.address))).txOutputs ↔
      ∃ b' ∈ b :: s.history, ∃ o ∈ codec.outputs b', o.address ∈ watched ∧ r = o.row := by
  rw [ChainTables.mem_stored_txOutputs h.sound hb, h.txOutputs, List.exists_mem_cons_iff, or_comm]
  refine or_congr_left (exists_congr (fun o => and_congr_right (fun ho => ?_)))
  rw [mem_filterWatchAddresses_iff ho, h.watchAddresses]
  exact ⟨fun h => ⟨h.1, h.2.2⟩, fun h => ⟨h.1, h.1, h.2⟩⟩

/-- An output is stored when it was processed at a watched address. -/
theorem mem_outpoints_processed (h : s.Inv tree watched) (hb : tree.Has b) {point : OutPoint} :
    point ∈ (s.tables.stored codec b height (s.tables.filterWatchAddresses
        ((codec.outputs b).map BlockOutput.address))).txOutputs.map TxOutputRow.outpoint ↔
      ∃ b' ∈ b :: s.history, HasWatched codec watched b' point := by
  rw [List.mem_map]
  constructor
  · rintro ⟨r, hr, rfl⟩
    obtain ⟨b', hb', o, ho, haddress, rfl⟩ := (h.mem_txOutputs_processed hb).mp hr
    exact ⟨b', hb', o, ho, haddress, rfl⟩
  · rintro ⟨b', hb', o, ho, haddress, rfl⟩
    exact ⟨o.row, (h.mem_txOutputs_processed hb).mpr ⟨b', hb', o, ho, haddress, rfl⟩, rfl⟩

/-- **The transactions that are correlated** with their block pay a watched
address. No stored input spends its own transaction. -/
theorem isCorrelated_processed (h : s.Inv tree watched) (hb : tree.Has b)
    (hheight : b.bip34Height = some height) {txid : Txid}
    (htx : ∃ tx ∈ b.txdata, codec.computeTxid tx = txid) :
    (s.tables.stored codec b height (s.tables.filterWatchAddresses
        ((codec.outputs b).map BlockOutput.address))).isCorrelated txid ↔
      PaysWatched codec watched [b] txid := by
  obtain ⟨tx, htx, rfl⟩ := htx
  rw [ChainTables.isCorrelated, Bool.or_eq_true, List.any_eq_true, List.any_eq_true]
  constructor
  · rintro (⟨r, hr, hid⟩ | ⟨i, hi, hid⟩)
    · obtain ⟨b', hb', o, ho, haddress, rfl⟩ := (h.mem_txOutputs_processed hb).mp hr
      have hb' : tree.Has b' := by
        rcases List.mem_cons.mp hb' with rfl | hb'
        · exact hb
        · exact h.has b' hb'
      have hid : o.outpoint.txid = codec.computeTxid tx := of_decide_eq_true hid
      exact ⟨b, List.mem_singleton_self b, tx, htx, rfl, o,
        BlockTree.outputs_of_txid hb' hb ho htx hid.symm, haddress⟩
    · obtain ⟨b', hb', hi⟩ := (h.sound.stored hb hheight).txInputs i hi
      obtain ⟨tx', htx', vin, input, hget, rfl⟩ := ChainCodec.mem_spentTxos.mp hi
      have hid : codec.computeTxid tx' = input.previousOutput.txid := of_decide_eq_true hid
      exact absurd hid.symm (tree.txid_acyclic hb' htx' (List.mem_of_getElem? hget))
  · rintro ⟨b', hb', tx', htx', hid, o, ho, haddress⟩
    rw [List.mem_singleton.mp hb'] at htx'
    have hout : o ∈ codec.outputs b := ChainCodec.mem_outputs.mpr ⟨tx', htx', ho⟩
    obtain ⟨vout, -, -, hpoint⟩ := ChainCodec.mem_outputsOf.mp ho
    refine Or.inl ⟨o.row, (h.mem_txOutputs_processed hb).mpr
      ⟨b, List.mem_cons_self, o, hout, haddress, rfl⟩, decide_eq_true ?_⟩
    show o.outpoint.txid = codec.computeTxid tx
    rw [hpoint, hid]

/-! ## Each step keeps the invariant -/

/-- **Processing a block keeps the invariant**, on top of the tip or again. -/
theorem process (h : s.Inv tree watched) (hb : tree.Has b)
    (hlink : b ∈ s.chain ∨ ∀ tip ∈ s.chain.head?, b.prev = tip.hash) :
    (s.process codec b).Inv tree watched := by
  cases hheight : b.bip34Height with
  | none =>
    rw [process_of_none hheight]
    exact h
  | some height =>
    rw [process_of_some hheight]
    refine ⟨h.sound.stored hb hheight, List.forall_mem_cons.mpr ⟨hb, h.has⟩, ?_, ?_, ?_, ?_,
      h.watchAddresses, fun x => ?_, ?_, fun r => h.mem_txOutputs_processed hb, fun i => ?_,
      fun tb => ?_⟩
    · intro b' hb'
      rcases mem_chain_processed.mp hb' with hb' | rfl
      · exact List.mem_cons_of_mem b (h.subset hb')
      · exact List.mem_cons_self
    · show (if b ∈ s.chain then s.chain else b :: s.chain).Nodup
      by_cases hmem : b ∈ s.chain
      · rw [if_pos hmem]
        exact h.nodup
      · rw [if_neg hmem]
        exact List.nodup_cons.mpr ⟨hmem, h.nodup⟩
    · show (if b ∈ s.chain then s.chain else b :: s.chain).IsChain _
      by_cases hmem : b ∈ s.chain
      · rw [if_pos hmem]
        exact h.linked
      · rw [if_neg hmem, List.isChain_cons]
        exact ⟨hlink.resolve_left hmem, h.linked⟩
    · intro b' below (hsuffix : b' :: below <:+ if b ∈ s.chain then s.chain else b :: s.chain)
      show ∃ before, b' :: before <:+ b :: s.history ∧ below ⊆ b' :: before
      have hkeep (hsuffix : b' :: below <:+ s.chain) :
          ∃ before, b' :: before <:+ b :: s.history ∧ below ⊆ b' :: before := by
        obtain ⟨before, hbefore, hbelow⟩ := h.ordered b' below hsuffix
        exact ⟨before, hbefore.trans (List.suffix_cons b s.history), hbelow⟩
      by_cases hmem : b ∈ s.chain
      · rw [if_pos hmem] at hsuffix
        exact hkeep hsuffix
      · rw [if_neg hmem] at hsuffix
        rcases List.suffix_cons_iff.mp hsuffix with heq | hsuffix
        · obtain ⟨rfl, rfl⟩ := List.cons.inj heq
          exact ⟨s.history, List.suffix_rfl, List.subset_cons_of_subset _ h.subset⟩
        · exact hkeep hsuffix
    · rw [ChainTables.stored_blocks, Table.mem_insertIgnore, h.blocks]
      simp only [mem_chain_processed]
      constructor
      · rintro (⟨b', hb', height', hheight', rfl⟩ | ⟨rfl, -⟩)
        · exact ⟨b', Or.inl hb', height', hheight', rfl⟩
        · exact ⟨b, Or.inr rfl, height, hheight, rfl⟩
      · rintro ⟨b', hb' | rfl, height', hheight', rfl⟩
        · exact Or.inl ⟨b', hb', height', hheight', rfl⟩
        · obtain rfl : height = height' := Option.some.inj (hheight.symm.trans hheight')
          by_cases hkey : b'.hash ∈ s.tables.blocks.map BlockHeader.hash
          · -- a stored block with this hash is this block
            obtain ⟨x, hx, hhash⟩ := List.mem_map.mp hkey
            obtain ⟨b₁, hb₁, height₁, hheight₁, rfl⟩ := (h.blocks x).mp hx
            have hhas := h.has b₁ (h.subset hb₁)
            have hhash : b₁.hash = b'.hash := hhash
            rw [BlockTree.Has, hhash, hb] at hhas
            obtain rfl := Option.some.inj hhas
            exact Or.inl ⟨b', hb₁, height, hheight, rfl⟩
          · exact Or.inr ⟨rfl, hkey⟩
    · intro b' hb'
      rcases mem_chain_processed.mp hb' with hb' | rfl
      · exact h.height b' hb'
      · exact ⟨height, hheight⟩
    · rw [ChainTables.mem_stored_txInputs h.sound hb, h.mem_outpoints_processed hb, h.txInputs,
        caught_cons]
    · rw [ChainTables.mem_stored_txBlocks, h.txBlocks]
      simp only [mem_chain_processed]
      constructor
      · rintro (⟨b', hb', hhash, hpays⟩ | ⟨hhash, htx, hcorrelated⟩)
        · exact ⟨b', Or.inl hb', hhash, hpays⟩
        · exact ⟨b, Or.inr rfl, hhash, (h.isCorrelated_processed hb hheight htx).mp hcorrelated⟩
      · rintro ⟨b', hb' | rfl, hhash, hpays⟩
        · exact Or.inl ⟨b', hb', hhash, hpays⟩
        · obtain ⟨b₁, hb₁, tx, htx, hid, hout⟩ := hpays
          obtain rfl := List.mem_singleton.mp hb₁
          have htx' : ∃ tx ∈ b₁.txdata, codec.computeTxid tx = tb.txId := ⟨tx, htx, hid⟩
          exact Or.inr ⟨hhash, htx', (h.isCorrelated_processed hb hheight htx').mpr
            ⟨b₁, hb₁, tx, htx, hid, hout⟩⟩

/-- Two indexed blocks of one hash are one block. -/
theorem eq_of_hash (h : s.Inv tree watched) {b b' : Block} (hb : b ∈ s.chain)
    (hb' : b' ∈ s.chain) (hhash : b.hash = b'.hash) : b = b' := by
  have hhas := h.has b (h.subset hb)
  have hhas' := h.has b' (h.subset hb')
  rw [BlockTree.Has, hhash, hhas'] at hhas
  exact (Option.some.inj hhas).symm

/-- **Undoing the tip keeps the invariant.** -/
theorem undo (h : s.Inv tree watched) {tip : Block} {rest : List Block}
    (hchain : s.chain = tip :: rest) :
    (⟨rest, s.history, s.tables.undoBlock tip.hash⟩ : LinearIndex).Inv tree watched := by
  have hnodup := h.nodup
  rw [hchain, List.nodup_cons] at hnodup
  have hrest {b' : Block} (hb' : b' ∈ rest) : b' ∈ s.chain := by
    rw [hchain]
    exact List.mem_cons_of_mem tip hb'
  have htip : tip ∈ s.chain := by
    rw [hchain]
    exact List.mem_cons_self
  -- The other indexed blocks have other hashes.
  have hmem {b' : Block} : b' ∈ rest ↔ b' ∈ s.chain ∧ b'.hash ≠ tip.hash := by
    constructor
    · refine fun hb' => ⟨hrest hb', fun hhash => ?_⟩
      rw [h.eq_of_hash (hrest hb') htip hhash] at hb'
      exact hnodup.1 hb'
    · rintro ⟨hb', hne⟩
      rw [hchain, List.mem_cons] at hb'
      exact hb'.resolve_left (fun heq => hne (congrArg Block.hash heq))
  refine ⟨h.sound.undoBlock tip.hash, h.has, fun b' hb' => h.subset (hrest hb'), hnodup.2, ?_,
    fun b below hsuffix => h.ordered b below ?_, h.watchAddresses, fun x => ?_, fun b' hb' => h.height b' (hrest hb'), h.txOutputs,
    h.txInputs, fun tb => ?_⟩
  · have hlinked := h.linked
    rw [hchain, List.isChain_cons] at hlinked
    exact hlinked.2
  · rw [hchain]
    exact hsuffix.trans (List.suffix_cons tip rest)
  · show x ∈ s.tables.blocks.filter _ ↔ _
    rw [List.mem_filter, h.blocks, decide_eq_true_eq]
    constructor
    · rintro ⟨⟨b', hb', height, hheight, rfl⟩, hne⟩
      exact ⟨b', hmem.mpr ⟨hb', hne⟩, height, hheight, rfl⟩
    · rintro ⟨b', hb', height, hheight, rfl⟩
      exact ⟨⟨b', hrest hb', height, hheight, rfl⟩, (hmem.mp hb').2⟩
  · show tb ∈ s.tables.txBlocks.filter _ ↔ _
    rw [List.mem_filter, h.txBlocks, decide_eq_true_eq]
    constructor
    · rintro ⟨⟨b', hb', hhash, hpays⟩, hne⟩
      exact ⟨b', hmem.mpr ⟨hb', hhash ▸ hne⟩, hhash, hpays⟩
    · rintro ⟨b', hb', hhash, hpays⟩
      exact ⟨⟨b', hrest hb', hhash, hpays⟩, hhash ▸ (hmem.mp hb').2⟩

end Inv

/-- **A step keeps the invariant.** -/
theorem Inv.step (h : s.Inv tree watched) (hstep : Step tree s s') : s'.Inv tree watched := by
  cases hstep with
  | extend hchain hb hprev =>
    refine h.process hb (Or.inr (fun tip htip => ?_))
    rw [hchain] at htip
    rw [hprev, Option.some.inj htip]
  | again hb => exact h.process (h.has _ (h.subset hb)) (Or.inl hb)
  | undo hchain => exact h.undo hchain

/-- The start is the birthday block, processed on nothing. -/
theorem IsStart.inv (h : IsStart tree watched s) : s.Inv tree watched := by
  obtain ⟨b, height, hb, hheight, rfl⟩ := h
  have hblank := (show (blank watched).Inv tree watched from blank_inv).process hb
    (Or.inr (fun tip htip => nomatch htip))
  rw [process_of_some hheight] at hblank ⊢
  -- Storing the birthday block first makes no difference.
  have hrows : Table.insertIgnore BlockHeader.hash [b.header height] (b.header height)
      = Table.insertIgnore BlockHeader.hash [] (b.header height) :=
    if_pos List.mem_cons_self
  have htables : ((⟨[], watched, [], [], []⟩ : ChainTables).addBlock (b.header height) []
      []).insertBlock (b.header height)
        = (⟨[], watched, [], [], []⟩ : ChainTables).insertBlock (b.header height) := by
    show (⟨Table.insertIgnore BlockHeader.hash [b.header height] (b.header height), watched, [],
      [], []⟩ : ChainTables) = _
    rw [hrows]
    rfl
  show Inv tree watched ⟨_, _, ChainTables.correlate (((ChainTables.insertBlock _ _).addUtxos
    _).markSpent _) _ _⟩
  rw [htables]
  exact hblank

/-- **The invariant holds in every state reached.** -/
theorem Reached.inv (h : Reached tree watched s) : s.Inv tree watched := by
  obtain ⟨s₀, hstart, hsteps⟩ := h
  induction hsteps with
  | refl => exact hstart.inv
  | tail _ hstep ih => exact ih.step hstep


/-! ## What the query returns -/

namespace Inv

/-- The blocks of a transaction are those where it pays a watched address. -/
theorem mem_blocksOf (h : s.Inv tree watched) {txid : Txid} {x : BlockHeader} :
    x ∈ s.tables.blocksOf txid ↔ ∃ b ∈ s.chain, ∃ height, b.bip34Height = some height ∧
      x = b.header height ∧ PaysWatched codec watched [b] txid := by
  rw [ChainTables.mem_blocksOf, h.blocks, h.txBlocks]
  constructor
  · rintro ⟨⟨b, hb, height, hheight, rfl⟩, b', hb', hhash, hpays⟩
    rw [h.eq_of_hash hb' hb hhash.symm] at hpays
    exact ⟨b, hb, height, hheight, rfl, hpays⟩
  · rintro ⟨b, hb, height, hheight, rfl, hpays⟩
    exact ⟨⟨b, hb, height, hheight, rfl⟩, b, hb, rfl, hpays⟩

theorem isSpent_iff (h : s.Inv tree watched) {point : OutPoint} :
    s.tables.isSpent point ↔ IsSeen codec watched s point := by
  rw [ChainTables.isSpent_iff]
  constructor
  · rintro ⟨i, hi, hpoint, x, hx⟩
    obtain ⟨b, hb, height, hheight, -, b', hb', hpays⟩ := h.mem_blocksOf.mp hx
    rw [List.mem_singleton.mp hb'] at hpays
    exact ⟨i, hpoint, (h.txInputs i).mp hi, b, hb, hpays⟩
  · rintro ⟨i, hpoint, hcaught, b, hb, hpays⟩
    obtain ⟨height, hheight⟩ := h.height b hb
    exact ⟨i, (h.txInputs i).mpr hcaught, hpoint, b.header height, h.mem_blocksOf.mpr
      ⟨b, hb, height, hheight, rfl, b, List.mem_singleton_self b, hpays⟩⟩

/-- **The query returns** the indexed outputs at watched addresses whose spends
it does not see. -/
theorem mem_getUtxos (h : s.Inv tree watched) {u : AddressUtxo} :
    u ∈ s.tables.getUtxos ↔ u.address ∈ watched ∧
      (∃ b ∈ s.chain, ∃ height, b.bip34Height = some height ∧
        ⟨u.address, u.utxo.outpoint, u.utxo.txOut⟩ ∈ codec.outputs b ∧
        u.utxo.blockHash = b.hash ∧ u.utxo.blockHeight = height) ∧
      ¬ IsSeen codec watched s u.utxo.outpoint := by
  rw [ChainTables.mem_getUtxos, ← h.isSpent_iff, Bool.not_eq_true]
  constructor
  · rintro ⟨r, hr, hspent, x, hx, rfl⟩
    obtain ⟨b₀, hb₀, o, ho, haddress, rfl⟩ := (h.txOutputs r).mp hr
    obtain ⟨b, hb, height, hheight, rfl, b', hb', tx, htx, hid, -⟩ := h.mem_blocksOf.mp hx
    rw [List.mem_singleton.mp hb'] at htx
    have hout : o ∈ codec.outputs b := ChainCodec.mem_outputs.mpr ⟨tx, htx,
      BlockTree.outputs_of_txid (h.has b₀ hb₀) (h.has b (h.subset hb)) ho htx hid⟩
    rw [ChainTables.mapTxo_row ho]
    exact ⟨haddress, ⟨b, hb, height, hheight, hout, rfl, rfl⟩, hspent⟩
  · obtain ⟨address, ⟨hash, height, point, txOut⟩⟩ := u
    rintro ⟨haddress, ⟨b, hb, _, hheight, hout, rfl, rfl⟩, hspent⟩
    have hpays : PaysWatched codec watched [b] point.txid := by
      obtain ⟨tx, htx, ho⟩ := ChainCodec.mem_outputs.mp hout
      obtain ⟨vout, -, -, hpoint⟩ := ChainCodec.mem_outputsOf.mp ho
      exact ⟨b, List.mem_singleton_self b, tx, htx, (congrArg OutPoint.txid hpoint).symm, _, ho,
        haddress⟩
    refine ⟨_, (h.txOutputs _).mpr ⟨b, h.subset hb, _, hout, haddress, rfl⟩, hspent,
      b.header height, h.mem_blocksOf.mpr ⟨b, hb, height, hheight, rfl, hpays⟩, ?_⟩
    rw [ChainTables.mapTxo_row hout]
    rfl

/-- What is seen to be spent is spent. -/
theorem isSpentIn_of_isSeen (h : s.Inv tree watched) {point : OutPoint}
    (hseen : IsSeen codec watched s point) : IsSpentIn codec s.chain point := by
  obtain ⟨i, hpoint, ⟨b₁, before, hsuffix, hi, -⟩, b, hb, tx, htx, hid, -⟩ := hseen
  have hb₁ : b₁ ∈ s.history := hsuffix.subset List.mem_cons_self
  exact ⟨b, hb, i, BlockTree.spends_of_txid (h.has b₁ hb₁) (h.has b (h.subset hb)) hi htx hid,
    hpoint⟩

/-- No outpoint is returned twice. -/
theorem nodup_getUtxos (h : s.Inv tree watched) :
    (s.tables.getUtxos.map (fun u => u.utxo.outpoint)).Nodup := by
  refine Table.nodup_map_orderBy.mpr (ChainTables.nodup_flatMap_blocksOf (fun _ _ => rfl)
    (h.sound.nodup_txOutputs.sublist (List.filter_sublist.map _)) (fun o _ => ?_))
  refine ChainTables.length_blocksOf_le_one h.sound.nodup_blocks h.sound.nodup_txBlocks ?_
  intro x hx x' hx'
  obtain ⟨b, hb, height, -, rfl, b₁, hb₁, tx, htx, hid, -⟩ := h.mem_blocksOf.mp hx
  obtain ⟨b', hb', height', -, rfl, b₂, hb₂, tx', htx', hid', -⟩ := h.mem_blocksOf.mp hx'
  rw [List.mem_singleton.mp hb₁] at htx
  rw [List.mem_singleton.mp hb₂] at htx'
  have hlinked : s.chain.reverse.IsChain (fun a b => b.prev = a.hash) :=
    List.isChain_reverse.mpr h.linked
  have hhas : ∀ b ∈ s.chain.reverse, tree.Has b :=
    fun b hb => h.has b (h.subset (List.mem_reverse.mp hb))
  exact congrArg Block.hash (tree.txid_once hhas hlinked b (List.mem_reverse.mpr hb) b'
    (List.mem_reverse.mpr hb') tx htx tx' htx' (hid.trans hid'.symm))

end Inv

end LinearIndex

/-! ## The main result -/

/-- **`get_utxos` is the true unspent set** – each unspent output once, and
nothing else. -/
def IsTrueUnspentSet (codec : ChainCodec) (watched : List Address) (s : LinearIndex) : Prop :=
  (∀ u, u ∈ s.tables.getUtxos ↔ IsUnspent codec watched s.chain u) ∧
    (s.tables.getUtxos.map (fun u => u.utxo.outpoint)).Nodup

/-- **`get_utxos` is the true unspent set exactly as long as every spend of an
indexed output is seen.** -/
theorem getUtxos_isUnspent_iff {tree : BlockTree codec} {watched : List Address}
    {s : LinearIndex} (h : LinearIndex.Reached tree watched s) :
    IsTrueUnspentSet codec watched s ↔ LinearIndex.SpendsSeen codec watched s := by
  have hinv := h.inv
  constructor
  · rintro ⟨hmem, -⟩ b hb point ⟨o, ho, haddress, rfl⟩ hspent
    by_contra hseen
    obtain ⟨height, hheight⟩ := hinv.height b hb
    have hu : (⟨o.address, ⟨b.hash, height, o.outpoint, o.txOut⟩⟩ : AddressUtxo)
        ∈ s.tables.getUtxos :=
      hinv.mem_getUtxos.mpr ⟨haddress, ⟨b, hb, height, hheight, ho, rfl, rfl⟩, hseen⟩
    exact ((hmem _).mp hu).2.2 hspent
  · refine fun hsees => ⟨fun u => ?_, hinv.nodup_getUtxos⟩
    rw [hinv.mem_getUtxos]
    constructor
    · rintro ⟨haddress, hout, hseen⟩
      refine ⟨haddress, hout, fun hspent => hseen ?_⟩
      obtain ⟨b, hb, -, -, ho, -⟩ := hout
      exact hsees b hb _ ⟨_, ho, haddress, rfl⟩ hspent
    · rintro ⟨haddress, hout, hspent⟩
      exact ⟨haddress, hout, fun hseen => hspent (hinv.isSpentIn_of_isSeen hseen)⟩

/-- Blocks in which an output comes before its spends, in the same block at the
latest – as in every chain that bitcoind accepts. The latest block comes
first. -/
def SpendsInOrder (codec : ChainCodec) (chain : List Block) : Prop :=
  ∀ b below, b :: below <:+ chain → ∀ i ∈ codec.spentTxos b, ∀ b' ∈ chain,
    (∃ o ∈ codec.outputs b', o.outpoint = i.outpoint) → b' ∈ b :: below

/-- **Where outputs come before their spends**, the spends that are seen are
those of transactions that pay a watched address. -/
theorem LinearIndex.spendsSeen_iff {tree : BlockTree codec} {watched : List Address}
    {s : LinearIndex} (h : LinearIndex.Reached tree watched s)
    (horder : SpendsInOrder codec s.chain) :
    SpendsSeen codec watched s ↔ ∀ b ∈ s.chain, ∀ point, HasWatched codec watched b point →
      IsSpentIn codec s.chain point →
        ∃ b' ∈ s.chain, ∃ i ∈ codec.spentTxos b', i.outpoint = point ∧
          PaysWatched codec watched s.chain i.spendingTx := by
  have hinv := h.inv
  refine forall₂_congr (fun b hb => forall₃_congr (fun point hout _ => ?_))
  constructor
  · rintro ⟨i, hpoint, ⟨b₁, before, hsuffix, hi, -⟩, b', hb', tx, htx, hid, hpays⟩
    have hb₁ : b₁ ∈ s.history := hsuffix.subset List.mem_cons_self
    exact ⟨b', hb', i, BlockTree.spends_of_txid (hinv.has b₁ hb₁)
      (hinv.has b' (hinv.subset hb')) hi htx hid, hpoint, b', hb', tx, htx, hid, hpays⟩
  · rintro ⟨b', hb', i, hi, rfl, hpays⟩
    obtain ⟨above, below, hsplit⟩ := List.append_of_mem hb'
    have hsuffix : b' :: below <:+ s.chain := ⟨above, hsplit.symm⟩
    obtain ⟨o, ho, haddress, hpoint⟩ := hout
    have hbelow : b ∈ b' :: below := horder b' below hsuffix i hi b hb ⟨o, ho, hpoint⟩
    obtain ⟨before, hbefore, hsub⟩ := hinv.ordered b' below hsuffix
    have hb : b ∈ b' :: before := by
      rcases List.mem_cons.mp hbelow with rfl | hbelow
      · exact List.mem_cons_self
      · exact hsub hbelow
    exact ⟨i, rfl, ⟨b', before, hbefore, hi, b, hb, o, ho, haddress, hpoint⟩, hpays⟩

namespace Sample

/-- The deposit is indexed. -/
def depositIndex : LinearIndex :=
  LinearIndex.process chainCodec depositBlock ⟨[], [],
    (⟨[], [watchedAddress], [], [], []⟩ : ChainTables).addBlock (depositBlock.header 100) [] []⟩

/-- The deposit is indexed, and so is what spends it. -/
def withdrawalIndex : LinearIndex := depositIndex.process chainCodec withdrawalBlock

/-- The address the withdrawal pays. -/
def claimAddress : Address := ⟨[0x52]⟩

/-- Both are indexed, with that address under watch. -/
def claimIndex : LinearIndex :=
  (LinearIndex.process chainCodec depositBlock ⟨[], [], (⟨[], [watchedAddress, claimAddress], [],
    [], []⟩ : ChainTables).addBlock (depositBlock.header 100) [] []⟩).process chainCodec
      withdrawalBlock

theorem reached_claimIndex :
    LinearIndex.Reached blockTree [watchedAddress, claimAddress] claimIndex :=
  ⟨_, ⟨depositBlock, 100, rfl, rfl, rfl⟩, .single (.extend rfl rfl rfl)⟩

theorem reached_withdrawalIndex :
    LinearIndex.Reached blockTree [watchedAddress] withdrawalIndex :=
  ⟨depositIndex, ⟨depositBlock, 100, rfl, rfl, rfl⟩,
    .single (.extend rfl rfl rfl)⟩

end Sample

open Sample in
/-- The deposit is spent to an address that is watched as well. -/
theorem getUtxos_isUnspent_iff_sample :
    IsSpentIn chainCodec claimIndex.chain ⟨Bytes32.ofByte 1, 0⟩ ∧
      IsTrueUnspentSet chainCodec [watchedAddress, claimAddress] claimIndex := by
  refine ⟨⟨withdrawalBlock, by decide, ⟨⟨Bytes32.ofByte 1, 0⟩, Bytes32.ofByte 2, 0⟩, by decide,
    rfl⟩, (getUtxos_isUnspent_iff reached_claimIndex).mpr (fun b hb point hout hspent => ?_)⟩
  have hpoints : ∀ b ∈ claimIndex.chain, ∀ o ∈ chainCodec.outputs b, ∀ b' ∈ claimIndex.chain,
      ∀ i ∈ chainCodec.spentTxos b', i.outpoint = o.outpoint →
        o.outpoint = ⟨Bytes32.ofByte 1, 0⟩ := by decide
  obtain ⟨o, ho, -, rfl⟩ := hout
  obtain ⟨b', hb', i, hi, hpoint⟩ := hspent
  rw [hpoints b hb o ho b' hb' i hi hpoint]
  refine ⟨⟨⟨Bytes32.ofByte 1, 0⟩, Bytes32.ofByte 2, 0⟩, rfl,
    ⟨withdrawalBlock, [depositBlock], List.suffix_refl _, by decide, depositBlock, by decide,
      ⟨watchedAddress, ⟨Bytes32.ofByte 1, 0⟩, ⟨50000, watchedAddress.scriptPubkey⟩⟩, by decide,
      by decide, rfl⟩, withdrawalBlock, by decide, withdrawal, by decide, rfl,
    ⟨claimAddress, ⟨Bytes32.ofByte 2, 0⟩, ⟨49000, [0x52]⟩⟩, by decide, by decide⟩

open Sample in
/-- **An output that is spent is returned.** The deposit is spent to an address
that is not watched. -/
theorem getUtxos_returns_spent :
    LinearIndex.Reached blockTree [watchedAddress] withdrawalIndex ∧
      withdrawalIndex.tables.getUtxos
        = [⟨watchedAddress, ⟨depositBlock.hash, 100, ⟨Bytes32.ofByte 1, 0⟩, ⟨50000, [0x51]⟩⟩⟩] ∧
      IsSpentIn chainCodec withdrawalIndex.chain ⟨Bytes32.ofByte 1, 0⟩ ∧
      ¬ IsTrueUnspentSet chainCodec [watchedAddress] withdrawalIndex := by
  have hutxos : withdrawalIndex.tables.getUtxos
      = [⟨watchedAddress, ⟨depositBlock.hash, 100, ⟨Bytes32.ofByte 1, 0⟩, ⟨50000, [0x51]⟩⟩⟩] := by
    decide
  have hspent : IsSpentIn chainCodec withdrawalIndex.chain ⟨Bytes32.ofByte 1, 0⟩ :=
    ⟨withdrawalBlock, by decide, ⟨⟨Bytes32.ofByte 1, 0⟩, Bytes32.ofByte 2, 0⟩, by decide, rfl⟩
  refine ⟨reached_withdrawalIndex, hutxos, hspent, fun htrue => ?_⟩
  have hu := (htrue.1 ⟨watchedAddress, ⟨depositBlock.hash, 100, ⟨Bytes32.ofByte 1, 0⟩,
    ⟨50000, [0x51]⟩⟩⟩).mp (by rw [hutxos]; exact List.mem_singleton_self _)
  exact hu.2.2 hspent

end Swapd
