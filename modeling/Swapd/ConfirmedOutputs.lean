import Swapd.ChainIndex

/-!
# Confirmed outputs are sound, and complete after a rescan

What `get_txos_for_address` returns, along every run of the index that keeps
the blocks a single chain. `IndexState.Inv` is the invariant: the rows come
from blocks of bitcoind, and a block that was stored by a thread that had read
an address as watched has all its outputs at that address stored – and
correlated with it, while it is indexed.
-/

namespace Swapd

variable {codec : ChainCodec} {tree : BlockTree codec}

/-- **An output at an address in an indexed block**, with that block's hash and
height. -/
def BlockTree.Confirms (tree : BlockTree codec) (rows : List BlockHeader) (a : Address)
    (txo : Txo) : Prop :=
  ∃ x ∈ rows, ∃ b, tree.Has b ∧ x = b.header x.height ∧
    ⟨a, txo.outpoint, txo.txOut⟩ ∈ codec.outputs b ∧
    txo.blockHash = x.hash ∧ txo.blockHeight = x.height

namespace IndexState

/-- **What always holds** of the index. -/
structure Inv (tree : BlockTree codec) (s : IndexState) : Prop where
  sound : s.tables.Sound tree
  oneChain : OneChain s.tables.blocks
  /-- What was read as watched is stored. -/
  stored : ∀ p ∈ s.processed, ∀ b, tree.Has b → b.hash = p.1 → ∀ o ∈ codec.outputs b,
    o.address ∈ p.2 → o.row ∈ s.tables.txOutputs
  /-- What is stored of an indexed block is correlated with it. -/
  correlated : ∀ p ∈ s.processed, ∀ b, tree.Has b → b.hash = p.1 →
    p.1 ∈ s.tables.blocks.map BlockHeader.hash → ∀ o ∈ codec.outputs b, o.address ∈ p.2 →
    ⟨o.outpoint.txid, b.hash⟩ ∈ s.tables.txBlocks

variable {s s' : IndexState} {b : Block} {height : UInt64} {i j : ℕ}

/-! ## Each step keeps the invariant -/

/-- A stored output of a block is correlated when the block is stored. -/
theorem correlated_of_row {db : ChainTables} {watched : List Address} {o : BlockOutput}
    (ho : o ∈ codec.outputs b) (hrow : o.row ∈ (db.stored codec b height watched).txOutputs) :
    ⟨o.outpoint.txid, b.hash⟩ ∈ (db.stored codec b height watched).txBlocks := by
  refine ChainTables.mem_stored_txBlocks.mpr (Or.inr ⟨rfl, ?_, ?_⟩)
  · obtain ⟨tx, htx, hmem⟩ := ChainCodec.mem_outputs.mp ho
    obtain ⟨vout, -, -, hpoint⟩ := ChainCodec.mem_outputsOf.mp hmem
    exact ⟨tx, htx, (congrArg OutPoint.txid hpoint).symm⟩
  · rw [ChainTables.isCorrelated, Bool.or_eq_true, List.any_eq_true]
    exact Or.inl ⟨o.row, hrow, decide_eq_true rfl⟩

/-- **Storing a block keeps the invariant**, for what was read as watched and
still is. -/
theorem Inv.committed (h : s.Inv tree) (hb : tree.Has b) (hheight : b.bip34Height = some height)
    (hwatched : s.lastRead i ⊆ s.tables.watchAddresses)
    (hone : OneChain (s.tables.insertBlock (b.header height)).blocks) :
    (s.committed i (b.header height) (s.tables.stored codec b height
      ((s.lastRead i).filter
        (fun a => a ∈ (codec.outputs b).map BlockOutput.address)))).Inv tree := by
  set watched := (s.lastRead i).filter
    (fun a => a ∈ (codec.outputs b).map BlockOutput.address) with hdef
  have hstored : ∀ p ∈ (b.hash, s.lastRead i) :: s.processed, ∀ b', tree.Has b' →
      b'.hash = p.1 → ∀ o ∈ codec.outputs b', o.address ∈ p.2 →
      o.row ∈ (s.tables.stored codec b height watched).txOutputs := by
    intro p hp b' hb' hhash o ho haddress
    rw [ChainTables.mem_stored_txOutputs h.sound hb]
    rcases List.mem_cons.mp hp with rfl | hp
    · have hbb' : b' = b := by
        rw [BlockTree.Has, hhash, hb] at hb'
        exact (Option.some.inj hb').symm
      rw [hbb'] at ho
      refine Or.inr ⟨o, ho, ?_, hwatched haddress, rfl⟩
      rw [hdef, List.mem_filter]
      exact ⟨haddress, decide_eq_true (List.mem_map_of_mem ho)⟩
    · exact Or.inl (h.stored p hp b' hb' hhash o ho haddress)
  refine ⟨h.sound.stored hb hheight, hone, hstored, ?_⟩
  intro p hp b' hb' hhash hindexed o ho haddress
  by_cases hbb' : b'.hash = b.hash
  · have heq : b' = b := by
      rw [BlockTree.Has, hbb', hb] at hb'
      exact (Option.some.inj hb').symm
    rw [heq] at ho hb' hhash ⊢
    exact correlated_of_row ho (hstored p hp b hb' hhash o ho haddress)
  · rcases List.mem_cons.mp hp with rfl | hp
    · exact absurd hhash hbb'
    · refine ChainTables.mem_stored_txBlocks.mpr (Or.inl ?_)
      refine h.correlated p hp b' hb' hhash ?_ o ho haddress
      rcases Table.mem_keys_insertIgnore.mp hindexed with hindexed | hnew
      · exact hindexed
      · exact absurd (hhash.trans hnew) hbb'

/-- **Undoing a block keeps the invariant.** -/
theorem Inv.undone (h : s.Inv tree) {hash : BlockHash}
    (hone : OneChain (s.tables.undoBlock hash).blocks) :
    Inv tree { s with tables := s.tables.undoBlock hash } := by
  refine ⟨h.sound.undoBlock hash, hone, h.stored, ?_⟩
  intro p hp b' hb' hhash hindexed o ho haddress
  obtain ⟨x, hx, hxp⟩ := List.mem_map.mp hindexed
  obtain ⟨hx, hne⟩ := List.mem_filter.mp hx
  have hne : x.hash ≠ hash := of_decide_eq_true hne
  refine List.mem_filter.mpr ⟨?_, decide_eq_true ?_⟩
  · exact h.correlated p hp b' hb' hhash (hxp ▸ List.mem_map_of_mem hx) o ho haddress
  · show b'.hash ≠ hash
    rw [hhash, ← hxp]
    exact hne

/-! ## What is read stays -/

theorem lastRead_cons_self (s : IndexState) (i : ℕ) (ws : List Address) :
    lastRead { s with reads := (i, ws) :: s.reads } i = ws := by
  rw [lastRead, List.find?_cons_of_pos (by simp)]
  rfl

theorem lastRead_cons_of_ne (s : IndexState) (ws : List Address) (hij : i ≠ j) :
    lastRead { s with reads := (i, ws) :: s.reads } j = s.lastRead j := by
  rw [lastRead, List.find?_cons_of_neg (by simpa using hij)]
  rfl

end IndexState

/-! ## The discipline -/

/-- **The discipline of the index**: a thread relies on what it read, and on
addresses staying watched. -/
@[reducible] def indexing (tree : BlockTree codec) : Discipline (chainIndex tree) where
  permits := keepsOneChain tree
  inv := fun s => s.Inv tree
  rely := fun i _ s s' => s'.lastRead i = s.lastRead i ∧
    s.tables.watchAddresses ⊆ s'.tables.watchAddresses
  guar := fun i _ _ s s' => (∀ j, i ≠ j → s'.lastRead j = s.lastRead j) ∧
    s.tables.watchAddresses ⊆ s'.tables.watchAddresses
  later := fun _ _ => True
  post := fun _ _ _ _ => True

theorem indexing_stable : (indexing tree).Stable where
  rely_refl := fun _ _ _ => ⟨rfl, List.Subset.refl _⟩
  rely_trans := fun h₁ h₂ => ⟨h₂.1.trans h₁.1, List.Subset.trans h₁.2 h₂.2⟩

section Programs

variable {i : ℕ} {t : IndexJob} {s : IndexState} {b : Block}

/-- A thread is done with any result. -/
theorem indexing_ret {o : Except ChainError Unit} :
    (indexing tree).Safe i t (fun _ _ => True) (.ret o) s :=
  fun _ _ _ => trivial

/-- **`process_block`** stores what was watched when it asked. -/
theorem safe_processBlock (hb : tree.Has b) :
    (indexing tree).Safe i t (fun _ _ => True) (ChainMonitor.processBlock codec b).run s := by
  unfold ChainMonitor.processBlock
  cases hheight : b.bip34Height with
  | none => exact indexing_ret
  | some height =>
    intro s₁ _ hs₁ _ ch r s₂ hserve
    have hfail (hserve : some (Except.error ChainRepositoryError.general, s₁) = some (r, s₂)) :
        s₂.Inv tree ∧ (indexing tree).guar i t (.filterWatchAddresses
          ((codec.outputs b).map BlockOutput.address)) s₁ s₂ ∧ r = .error .general := by
      cases hserve
      exact ⟨hs₁, ⟨fun _ _ => rfl, List.Subset.refl _⟩, rfl⟩
    cases ch with
    | fail =>
      obtain ⟨hinv, hguar, rfl⟩ := hfail hserve
      exact ⟨hinv, hguar, indexing_ret⟩
    | lost =>
      obtain ⟨hinv, hguar, rfl⟩ := hfail hserve
      exact ⟨hinv, hguar, indexing_ret⟩
    | ok =>
      cases hserve
      refine ⟨⟨hs₁.sound, hs₁.oneChain, hs₁.stored, hs₁.correlated⟩,
        ⟨fun j hij => IndexState.lastRead_cons_of_ne s₁ _ hij, List.Subset.refl _⟩, ?_⟩
      intro s₃ hrely hs₃ hone ch r s₄ hserve
      have hread : s₃.lastRead i = s₁.tables.watchAddresses := by
        rw [hrely.1, IndexState.lastRead_cons_self]
      have hcommitted : (s₃.committed i (b.header height) (s₃.tables.stored codec b height
          (s₁.tables.filterWatchAddresses
            ((codec.outputs b).map BlockOutput.address)))).Inv tree := by
        have hwatched : s₃.lastRead i ⊆ s₃.tables.watchAddresses := by
          rw [hread]
          exact hrely.2
        have hinv := hs₃.committed hb hheight hwatched hone
        rw [hread] at hinv
        exact hinv
      cases ch <;> cases hserve
      · exact ⟨hcommitted, ⟨fun _ _ => rfl, List.Subset.refl _⟩, indexing_ret⟩
      · exact ⟨hs₃, ⟨fun _ _ => rfl, List.Subset.refl _⟩, indexing_ret⟩
      · exact ⟨hcommitted, ⟨fun _ _ => rfl, List.Subset.refl _⟩, indexing_ret⟩

/-- **`undo_block`.** -/
theorem safe_undoBlock {hash : BlockHash} :
    (indexing tree).Safe i t (fun _ _ => True) (orFail ChainError.database
      (Prog.perform (I := ChainServices) (.undoBlock hash))).run s := by
  intro s₁ _ hs₁ hone ch r s₂ hserve
  cases ch <;> cases hserve
  · exact ⟨hs₁.undone hone, ⟨fun _ _ => rfl, List.Subset.refl _⟩, indexing_ret⟩
  · exact ⟨hs₁, ⟨fun _ _ => rfl, List.Subset.refl _⟩, indexing_ret⟩
  · exact ⟨hs₁.undone hone, ⟨fun _ _ => rfl, List.Subset.refl _⟩, indexing_ret⟩

end Programs

/-- **The discipline of the index is sound.** -/
theorem indexing_sound : (indexing tree).Sound where
  toStable := indexing_stable
  later_refl := fun _ => trivial
  later_trans := fun _ _ => trivial
  guar_rely := fun hij _ _ h => ⟨h.1 _ hij, h.2⟩
  guar_later := fun _ _ _ => trivial
  drift := fun {address s s'} hs h => by
    cases h
    refine ⟨⟨{ hs.sound with }, hs.oneChain, hs.stored, hs.correlated⟩, fun i t => ⟨rfl, ?_⟩,
      trivial⟩
    intro a ha
    exact Table.mem_insertIgnore.mpr (Or.inl ha)
  spawn := fun {job n s t p s'} hs h => by
    obtain ⟨p₀, hp', heq⟩ := Option.map_eq_some_iff.mp h
    obtain ⟨⟨rfl, rfl⟩, rfl⟩ := heq
    refine ⟨hs, fun _ _ _ => ⟨rfl, List.Subset.refl _⟩, trivial, ?_⟩
    have hsafe : (indexing tree).Safe n job (fun _ _ => True) p s := by
      cases job with
      | process hash =>
        obtain ⟨b, hb, rfl⟩ := Option.map_eq_some_iff.mp hp'
        exact safe_processBlock (BlockTree.has_of_block hb)
      | undo hash =>
        cases hp'
        exact safe_undoBlock
    exact hsafe.mono (fun _ _ _ _ _ _ _ => trivial)
  halt := fun hs h => by
    cases h
    exact ⟨hs, fun _ _ _ => ⟨rfl, List.Subset.refl _⟩, trivial⟩

/-- The start of the index satisfies the invariant. -/
theorem IndexState.IsInitial.inv {s : IndexState} (h : s.IsInitial tree) : s.Inv tree := by
  obtain ⟨⟨blocks, watchAddresses, txOutputs, txInputs, txBlocks⟩, reads, processed⟩ := s
  obtain ⟨hblocks, hbirthday, rfl, rfl, rfl, rfl, rfl⟩ := h
  have hempty : ∀ {α : Type} {P : α → Prop}, ∀ x ∈ ([] : List α), P x := fun x hx => nomatch hx
  refine ⟨⟨hblocks, ?_, hempty, List.nodup_nil, hempty, hempty, List.nodup_nil⟩, ?_, hempty,
    hempty⟩
  · match blocks, hbirthday with
    | [], _ => exact List.nodup_nil
    | [_], _ => exact List.nodup_singleton _
  · match blocks, hbirthday with
    | [], _ => exact List.IsChain.nil
    | [_], _ => exact List.IsChain.singleton _

/-! ## What the query returns -/

namespace IndexState

variable {s : IndexState} {a : Address} {txo : Txo}

/-- What is returned is confirmed. -/
theorem Inv.confirms (h : s.Inv tree) (ht : txo ∈ s.tables.getTxosForAddress a) :
    tree.Confirms s.tables.blocks a txo := by
  obtain ⟨r, hr, haddress, x, hx, rfl⟩ := ChainTables.mem_getTxosForAddress.mp ht
  obtain ⟨b, hb, hheader, o, ho, rfl⟩ := h.sound.output_of_mem_blocksOf hr hx
  rw [ChainTables.mapTxo_row ho]
  refine ⟨x, (ChainTables.mem_blocksOf.mp hx).1, b, hb, hheader, ?_, rfl, rfl⟩
  rw [← haddress]
  exact ho

/-- No outpoint is returned twice. -/
theorem Inv.nodup_txos (h : s.Inv tree) :
    ((s.tables.getTxosForAddress a).map Txo.outpoint).Nodup :=
  Table.nodup_map_orderBy.mpr (ChainTables.nodup_flatMap_blocksOf (fun _ _ => rfl)
    (h.sound.nodup_txOutputs.sublist (List.filter_sublist.map _))
    (fun o _ => h.sound.length_blocksOf_le_one h.oneChain o.outpoint.txid))

/-- What is confirmed is returned, once its block has been processed with the
address watched. -/
theorem Inv.mem_txos (h : s.Inv tree)
    (hall : ∀ x ∈ s.tables.blocks, ∃ p ∈ s.processed, p.1 = x.hash ∧ a ∈ p.2)
    (hc : tree.Confirms s.tables.blocks a txo) : txo ∈ s.tables.getTxosForAddress a := by
  obtain ⟨x, hx, b, hb, hheader, ho, hhash, hheight⟩ := hc
  obtain ⟨p, hp, hpx, ha⟩ := hall x hx
  have hbp : b.hash = p.1 := by
    rw [hpx, hheader]
    rfl
  have hrow := h.stored p hp b hb hbp _ ho ha
  have hindexed : p.1 ∈ s.tables.blocks.map BlockHeader.hash := by
    rw [hpx]
    exact List.mem_map_of_mem hx
  have htb := h.correlated p hp b hb hbp hindexed _ ho ha
  rw [hbp, hpx] at htb
  refine ChainTables.mem_getTxosForAddress.mpr ⟨_, hrow, rfl, x,
    ChainTables.mem_blocksOf.mpr ⟨hx, htb⟩, ?_⟩
  rw [ChainTables.mapTxo_row ho, ← hhash, ← hheight]

end IndexState

/-! ## Processing a block again -/

/-- Inserting rows whose keys are there changes nothing. -/
theorem insertAll_of_subset {α κ : Type} [DecidableEq κ] {key : α → κ} {rows new : List α}
    (h : ∀ r ∈ new, key r ∈ rows.map key) : Table.insertAll key rows new = rows := by
  induction new with
  | nil => rfl
  | cons r rs ih =>
    obtain ⟨hr, hrs⟩ := List.forall_mem_cons.mp h
    rw [Table.insertAll_cons, Table.insertIgnore, if_pos hr]
    exact ih hrs

/-- Inserting rows again changes nothing. -/
theorem insertAll_insertAll {α κ : Type} [DecidableEq κ] (key : α → κ) (rows new : List α) :
    Table.insertAll key (Table.insertAll key rows new) new = Table.insertAll key rows new :=
  insertAll_of_subset (fun _ hr =>
    Table.mem_keys_insertAll.mpr (Or.inr (List.mem_map_of_mem hr)))

/-- **Storing a block again changes nothing.** -/
theorem ChainTables.addBlock_addBlock (db : ChainTables) (block : BlockHeader)
    (txOutputs : List AddressUtxo) (txInputs : List SpentTxo) :
    (db.addBlock block txOutputs txInputs).addBlock block txOutputs txInputs
      = db.addBlock block txOutputs txInputs := by
  set db₁ := db.addBlock block txOutputs txInputs with hdb₁
  have hblocks : db₁.insertBlock block = db₁ := by
    have hrows : Table.insertIgnore BlockHeader.hash db₁.blocks block = db₁.blocks :=
      insertAll_insertAll BlockHeader.hash db.blocks [block]
    rw [insertBlock, hrows]
  have houtputs : db₁.addUtxos txOutputs = db₁ := by
    have hrows : Table.insertAll TxOutputRow.outpoint db₁.txOutputs
        ((txOutputs.filter (fun u => u.address ∈ db₁.watchAddresses)).map
          (fun u => ⟨u.utxo.outpoint, u.address, u.utxo.txOut.value⟩)) = db₁.txOutputs :=
      insertAll_insertAll TxOutputRow.outpoint db.txOutputs _
    rw [addUtxos, hrows]
  have hinputs : db₁.markSpent txInputs = db₁ := by
    have hrows : Table.insertAll SpentTxo.key db₁.txInputs
        (txInputs.filter (fun i => i.outpoint ∈ db₁.txOutputs.map TxOutputRow.outpoint))
          = db₁.txInputs :=
      insertAll_insertAll SpentTxo.key db.txInputs _
    rw [markSpent, hrows]
  have hrows : Table.insertAll id db₁.txBlocks
      (((dedup (txOutputs.map (fun o => o.utxo.outpoint.txid)
        ++ txInputs.map SpentTxo.spendingTx)).filter db₁.isCorrelated).map
          (fun txid => ⟨txid, block.hash⟩)) = db₁.txBlocks :=
    insertAll_insertAll id db.txBlocks _
  rw [addBlock, hblocks, houtputs, hinputs]
  show db₁.correlate _ block.hash = db₁
  rw [correlate, hrows]

/-- **Processing a block again**, with the same watched addresses, changes
nothing. -/
theorem exec_processBlock_twice {b : Block} {r r' : Except ChainError Unit}
    {db db₁ db₂ : ChainTables}
    (h₁ : (ChainMonitor.processBlock codec b).run.exec ChainTables.serve db = some (r, db₁))
    (h₂ : (ChainMonitor.processBlock codec b).run.exec ChainTables.serve db₁ = some (r', db₂)) :
    db₂ = db₁ := by
  unfold ChainMonitor.processBlock at h₁ h₂
  cases hheight : b.bip34Height with
  | none =>
    rw [hheight] at h₁ h₂
    exact (Prod.mk.inj (Option.some.inj h₂)).2.symm
  | some height =>
    rw [hheight] at h₁ h₂
    have hdb₁ := (Prod.mk.inj (Option.some.inj h₁)).2
    have hdb₂ := (Prod.mk.inj (Option.some.inj h₂)).2
    have hwatched : db₁.filterWatchAddresses ((codec.outputs b).map BlockOutput.address)
        = db.filterWatchAddresses ((codec.outputs b).map BlockOutput.address) := by
      rw [← hdb₁]
      rfl
    rw [← hdb₂]
    show db₁.addBlock _ (codec.watchUtxos b height (db₁.filterWatchAddresses _)) _ = db₁
    rw [hwatched, ← hdb₁]
    exact ChainTables.addBlock_addBlock _ _ _ _

/-! ## The main result -/

/-- The start of the index, with no thread. -/
def IsIndexStart (tree : BlockTree codec) (S : (chainIndex tree).Config) : Prop :=
  S.state.IsInitial tree ∧ S.threads = []

theorem indexing_ok {S : (chainIndex tree).Config} (h : IsIndexStart tree S) :
    (indexing tree).Ok S := by
  refine ⟨h.1.inv, fun i T hT => ?_⟩
  rw [h.2] at hT
  cases hT

/-- **Confirmed outputs are sound, and complete after a rescan.** In every run
of the index that keeps the blocks a single chain, what is returned for an
address are outputs at the address in indexed blocks, no outpoint twice, and
they are all of them once every indexed block has been processed with the
address watched. Processing a block twice is processing it once. -/
theorem getTxosForAddress_confirms {S : (chainIndex tree).Config}
    (h : Machine.ReachableIf (keepsOneChain tree) (IsIndexStart tree) S) (a : Address) :
    (∀ txo ∈ S.state.tables.getTxosForAddress a,
        tree.Confirms S.state.tables.blocks a txo) ∧
      ((S.state.tables.getTxosForAddress a).map Txo.outpoint).Nodup ∧
      ((∀ x ∈ S.state.tables.blocks, ∃ p ∈ S.state.processed, p.1 = x.hash ∧ a ∈ p.2) →
        ∀ txo, txo ∈ S.state.tables.getTxosForAddress a ↔
          tree.Confirms S.state.tables.blocks a txo) ∧
      ∀ (b : Block) (r r' : Except ChainError Unit) (db db₁ db₂ : ChainTables),
        (ChainMonitor.processBlock codec b).run.exec ChainTables.serve db = some (r, db₁) →
        (ChainMonitor.processBlock codec b).run.exec ChainTables.serve db₁ = some (r', db₂) →
        db₂ = db₁ := by
  have hinv : S.state.Inv tree :=
    (indexing_sound.reachable (fun _ hS => indexing_ok hS) h).1
  refine ⟨fun txo ht => hinv.confirms ht, hinv.nodup_txos, fun hall txo => ?_, ?_⟩
  · exact ⟨fun ht => hinv.confirms ht, fun hc => hinv.mem_txos hall hc⟩
  · exact fun b r r' db db₁ db₂ h₁ h₂ => exec_processBlock_twice h₁ h₂

namespace Sample

/-- The start of the index at the block of the deposit. -/
def indexStart : (chainIndex blockTree).Config where
  state :=
    { tables := ⟨[depositBlock.header 100], [], [], [], []⟩
      reads := []
      processed := [] }
  threads := []

theorem isIndexStart_indexStart : IsIndexStart blockTree indexStart := by
  refine ⟨⟨fun x hx => ?_, Nat.le_refl 1, rfl, rfl, rfl, rfl, rfl⟩, rfl⟩
  rw [List.mem_singleton.mp hx]
  exact ⟨depositBlock, rfl, rfl, rfl⟩

/-- The address is watched, the block of the deposit is processed again, and
the next one is. -/
def indexSchedule : List (chainIndex blockTree).Action :=
  [.drift watchedAddress, .spawn (.process depositBlock.hash), .run 0 .ok, .run 0 .ok,
    .spawn (.process withdrawalBlock.hash), .run 1 .ok, .run 1 .ok]

/-- What the schedule leads to. -/
def indexed : (chainIndex blockTree).Config :=
  Machine.after (keepsOneChain blockTree) indexStart indexSchedule

end Sample

open Sample in
theorem getTxosForAddress_confirms_sample :
    indexed.state.tables.getTxosForAddress watchedAddress
        = [⟨depositBlock.hash, 100, ⟨Bytes32.ofByte 1, 0⟩, ⟨50000, [0x51]⟩⟩] ∧
      (∀ x ∈ indexed.state.tables.blocks,
        ∃ p ∈ indexed.state.processed, p.1 = x.hash ∧ watchedAddress ∈ p.2) ∧
      ∀ txo, txo ∈ indexed.state.tables.getTxosForAddress watchedAddress ↔
        blockTree.Confirms indexed.state.tables.blocks watchedAddress txo := by
  have hreach : Machine.ReachableIf (keepsOneChain blockTree) (IsIndexStart blockTree)
      indexed :=
    ⟨indexStart, isIndexStart_indexStart, Machine.reflTransGen_after _ _⟩
  have hall : ∀ x ∈ indexed.state.tables.blocks,
      ∃ p ∈ indexed.state.processed, p.1 = x.hash ∧ watchedAddress ∈ p.2 := by
    decide
  exact ⟨by decide, hall, (getTxosForAddress_confirms hreach watchedAddress).2.2.1 hall⟩

end Swapd
