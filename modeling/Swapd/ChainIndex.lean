import Swapd.BlockTree
import Swapd.Interference

/-!
# The index of confirmed outputs

Any number of `process_block` and `undo_block` calls work on the chain tables
side by side, each at the granularity of its calls to the repository, while
addresses are added to those watched. What a thread read as watched may be out
of date when it stores its block.

What is stored of an output is right, and stays when its block is undone: it
counts as confirmed again once its transaction is correlated with an indexed
block. So what has been processed with an address watched is found at that
address for as long as its block is indexed, whoever stored the block last.

The state remembers what each thread read as watched, and which blocks were
stored by a thread that had read which addresses.
-/

namespace Swapd

/-- A block follows another. -/
def BlockHeader.Follows (a b : BlockHeader) : Prop :=
  b.prev = a.hash ∧ b.height.toNat = a.height.toNat + 1

instance (a b : BlockHeader) : Decidable (a.Follows b) := by
  unfold BlockHeader.Follows
  infer_instance

/-- The rows of `blocks` in the order of their heights. -/
def byHeight (rows : List BlockHeader) : List BlockHeader :=
  Table.orderBy (fun a b => a.height ≤ b.height) rows

/-- **One chain**: in the order of their heights, each block follows the one
before. -/
def OneChain (rows : List BlockHeader) : Prop := (byHeight rows).IsChain BlockHeader.Follows

instance (rows : List BlockHeader) : Decidable (OneChain rows) := by
  unfold OneChain
  infer_instance

/-- How a call to the repository is resolved: it succeeds, it fails without
effect, or it commits and its answer is lost. -/
inductive Answer where
  | ok
  | fail
  | lost
deriving DecidableEq

/-- A call of the monitor to the repository, served. -/
def ChainTables.serve : (c : ChainCall) → ChainTables → Option (c.Reply × ChainTables)
  | .getBlockHeaders, db => some (.ok db.getBlockHeaders, db)
  | .filterWatchAddresses addresses, db => some (.ok (db.filterWatchAddresses addresses), db)
  | .addBlock block txOutputs txInputs, db =>
    some (.ok (), db.addBlock block txOutputs txInputs)
  | .undoBlock hash, db => some (.ok (), db.undoBlock hash)
  | _, _ => none

/-- **The state of the index.** -/
structure IndexState where
  tables : ChainTables
  /-- What was watched when a thread asked. -/
  reads : List (ℕ × List Address)
  /-- The blocks stored, each with what was watched when its thread asked. -/
  processed : List (BlockHash × List Address)
deriving DecidableEq

namespace IndexState

/-- What was watched when a thread asked last. -/
def lastRead (s : IndexState) (i : ℕ) : List Address :=
  ((s.reads.find? (fun r => r.1 = i)).map Prod.snd).getD []

/-- A block has been stored by a thread. -/
def committed (i : ℕ) (block : BlockHeader) (tables : ChainTables) (s : IndexState) :
    IndexState :=
  { s with tables := tables, processed := (block.hash, s.lastRead i) :: s.processed }

/-- Serving a call of a thread. -/
def serve (i : ℕ) : (c : ChainCall) → Answer → IndexState → Option (c.Reply × IndexState)
  | .filterWatchAddresses addresses, ch, s =>
    match ch with
    | .ok => some (.ok (s.tables.filterWatchAddresses addresses),
        { s with reads := (i, s.tables.watchAddresses) :: s.reads })
    | _ => some (.error .general, s)
  | .addBlock block txOutputs txInputs, ch, s =>
    let s' := s.committed i block (s.tables.addBlock block txOutputs txInputs)
    match ch with
    | .ok => some (.ok (), s')
    | .fail => some (.error .general, s)
    | .lost => some (.error .general, s')
  | .undoBlock hash, ch, s =>
    let s' := { s with tables := s.tables.undoBlock hash }
    match ch with
    | .ok => some (.ok (), s')
    | .fail => some (.error .general, s)
    | .lost => some (.error .general, s')
  | _, _, _ => none

end IndexState

/-- What threads of the index are there for. -/
inductive IndexJob where
  | process (hash : BlockHash)
  | undo (hash : BlockHash)
deriving DecidableEq

section Machine

variable {codec : ChainCodec} (tree : BlockTree codec)

/-- The program of a job: a block that bitcoind has is processed, or a block is
undone. -/
def IndexJob.program : IndexJob → Option (Prog ChainServices (Except ChainError Unit))
  | .process hash => (tree.block hash).map (fun b => (ChainMonitor.processBlock codec b).run)
  | .undo hash => some (orFail ChainError.database
      (Prog.perform (I := ChainServices) (.undoBlock hash))).run

/-- **The index**, as a machine. -/
@[reducible] def chainIndex : Machine ChainServices where
  State := IndexState
  Task := IndexJob
  Result := Except ChainError Unit
  Choice := Answer
  Spawn := IndexJob
  Halt := List ℕ
  Drift := Address
  serve := fun i _ c ch s => s.serve i c ch
  spawn := fun job _ s => (job.program tree).map (fun p => ((job, p), s))
  stops := fun threads i _ => i ∈ threads
  halt := fun _ s => some s
  drift := fun address s => some { s with tables := s.tables.addWatchAddress address }

/-- **The table of blocks is kept a single chain**: the condition on the calls
that change it. -/
def keepsOneChain : (chainIndex tree).Condition := fun _ _ c s =>
  match c with
  | .addBlock block _ _ => OneChain (s.tables.insertBlock block).blocks
  | .undoBlock hash => OneChain (s.tables.undoBlock hash).blocks
  | _ => True

instance (i : ℕ) (t : IndexJob) (c : ChainCall) (s : IndexState) :
    Decidable (keepsOneChain tree i t c s) := by
  cases c <;> unfold keepsOneChain <;> infer_instance

/-- The start of the index: the birthday block, if any, and nothing else. -/
structure IndexState.IsInitial (s : IndexState) : Prop where
  blocks : ∀ x ∈ s.tables.blocks, ∃ b, tree.Has b ∧ b.bip34Height = some x.height ∧
    x = b.header x.height
  birthday : s.tables.blocks.length ≤ 1
  txOutputs : s.tables.txOutputs = []
  txInputs : s.tables.txInputs = []
  txBlocks : s.tables.txBlocks = []
  reads : s.reads = []
  processed : s.processed = []

end Machine

/-! ## One chain -/

theorem byHeight_perm (rows : List BlockHeader) : (byHeight rows).Perm rows :=
  Table.orderBy_perm

section Sound

variable {codec : ChainCodec} {tree : BlockTree codec} {db : ChainTables}

/-- The blocks of rows. -/
theorem ChainTables.Sound.exists_blocks (h : db.Sound tree) {rows : List BlockHeader}
    (hrows : ∀ x ∈ rows, x ∈ db.blocks) :
    ∃ bs : List Block, (∀ b ∈ bs, tree.Has b) ∧
      List.Forall₂ (fun (x : BlockHeader) (b : Block) => x = b.header x.height) rows bs := by
  induction rows with
  | nil => exact ⟨[], fun _ hb => (nomatch hb), List.Forall₂.nil⟩
  | cons x rows ih =>
    obtain ⟨b, hb, -, hx⟩ := h.blocks x (hrows x List.mem_cons_self)
    obtain ⟨bs, hbs, hall⟩ := ih (fun y hy => hrows y (List.mem_cons_of_mem x hy))
    refine ⟨b :: bs, ?_, List.Forall₂.cons hx hall⟩
    exact List.forall_mem_cons.mpr ⟨hb, hbs⟩

/-- A row is the header of its block. -/
theorem exists_block_of_mem {rows : List BlockHeader} {bs : List Block}
    (hall : List.Forall₂ (fun (x : BlockHeader) (b : Block) => x = b.header x.height) rows bs)
    {x : BlockHeader} (hx : x ∈ rows) : ∃ b ∈ bs, x = b.header x.height := by
  induction hall with
  | nil => cases hx
  | @cons y b rows bs hy _ ih =>
    rcases List.mem_cons.mp hx with rfl | hx
    · exact ⟨b, List.mem_cons_self, hy⟩
    · obtain ⟨b', hb', hxb⟩ := ih hx
      exact ⟨b', List.mem_cons_of_mem b hb', hxb⟩

/-- Blocks whose headers are linked are linked. -/
theorem isChain_of_forall₂ {rows : List BlockHeader} {bs : List Block}
    (hall : List.Forall₂ (fun (x : BlockHeader) (b : Block) => x = b.header x.height) rows bs)
    (hchain : Linked rows) : bs.IsChain (fun a b => b.prev = a.hash) := by
  induction hall with
  | nil => exact List.IsChain.nil
  | cons hx hrest ih =>
    cases hrest with
    | nil => exact List.IsChain.singleton _
    | cons hy hrest =>
      obtain ⟨hprev, htail⟩ := List.isChain_cons_cons.mp hchain
      refine List.isChain_cons_cons.mpr ⟨?_, ih htail⟩
      rw [hx, hy] at hprev
      exact hprev

/-- **In linked rows a transaction is in one block.** -/
theorem ChainTables.Sound.length_blocksOf_le_one_of_linked (h : db.Sound tree)
    {rows : List BlockHeader} (hrows : db.blocks.Perm rows) (hlinked : Linked rows) (txid : Txid) :
    (db.blocksOf txid).length ≤ 1 := by
  refine ChainTables.length_blocksOf_le_one h.nodup_blocks h.nodup_txBlocks ?_
  intro x hx x' hx'
  obtain ⟨bs, hbs, hall⟩ := h.exists_blocks
    (fun y (hy : y ∈ rows) => hrows.mem_iff.mpr hy)
  have hchain := isChain_of_forall₂ hall hlinked
  -- The block of a row is in the chain.
  have hmem {y : BlockHeader} (hy : y ∈ db.blocksOf txid) :
      ∃ b ∈ bs, y.hash = b.hash ∧ ∃ tx ∈ b.txdata, codec.computeTxid tx = txid := by
    obtain ⟨hyrow, htb⟩ := ChainTables.mem_blocksOf.mp hy
    obtain ⟨b, hb, hhash, htx⟩ := h.txBlocks _ htb
    obtain ⟨b', hb', hy'⟩ := exists_block_of_mem hall (hrows.mem_iff.mp hyrow)
    have hhash' : y.hash = b'.hash := by rw [hy']; rfl
    have hbb' : b = b' := by
      have := hbs b' hb'
      rw [BlockTree.Has, ← hhash', show y.hash = b.hash from hhash, hb] at this
      exact Option.some.inj this
    exact ⟨b', hb', hhash', hbb' ▸ htx⟩
  obtain ⟨b, hb, hxb, tx, htx, hid⟩ := hmem hx
  obtain ⟨b', hb', hxb', tx', htx', hid'⟩ := hmem hx'
  rw [hxb, hxb', tree.txid_once hbs hchain b hb b' hb' tx htx tx' htx' (hid.trans hid'.symm)]

/-- **In one chain a transaction is in one block.** -/
theorem ChainTables.Sound.length_blocksOf_le_one (h : db.Sound tree)
    (hone : OneChain db.blocks) (txid : Txid) : (db.blocksOf txid).length ≤ 1 :=
  h.length_blocksOf_le_one_of_linked (byHeight_perm _).symm
    (hone.imp (fun _ _ hfollows => hfollows.1)) txid

end Sound

end Swapd
