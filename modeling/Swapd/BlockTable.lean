import Swapd.ChainMonitor

/-!
# The table of blocks, as one chain

The rows of `blocks` are one chain from the birthday when they can be put in a row,
each one height above the one before, whose hash it names. They are listed from the
tip down then, and `Chain::try_from` loads them.

A block that is stored keeps them so exactly when it is stored already or goes on top
of the first that is listed; a block that is undone, when it is not stored or is the
first that is listed (`singleChain_written_iff`).
-/

namespace Swapd

/-- One block is stored right above another. -/
def BlockHeader.IsAbove (b a : BlockHeader) : Prop :=
  b.prev = a.hash ∧ b.height.asI64 = a.height.asI64 + 1

instance (b a : BlockHeader) : Decidable (b.IsAbove a) := by
  unfold BlockHeader.IsAbove
  infer_instance

/-- **A chain from the birthday**, from below. -/
structure ChainFrom (base : BlockHeader) (hs : List BlockHeader) : Prop where
  linked : hs.IsChain (fun a b => b.IsAbove a)
  head : hs.head? = some base
  nodup : (hs.map BlockHeader.hash).Nodup

/-- **The rows are one chain** from the birthday. -/
def SingleChain (base : BlockHeader) (rows : List BlockHeader) : Prop :=
  ∃ hs, ChainFrom base hs ∧ rows.Perm hs

namespace ChainFrom

variable {base : BlockHeader} {hs ps : List BlockHeader} {x : BlockHeader}

/-- Heights grow along a chain. -/
theorem pairwise_height (h : ChainFrom base hs) :
    hs.Pairwise (fun a b => a.height.asI64 < b.height.asI64) := by
  have hchain : hs.IsChain (fun a b => a.height.asI64 < b.height.asI64) :=
    h.linked.imp (fun a b hab => by rw [hab.2]; exact Int.lt_succ _)
  exact List.isChain_iff_pairwise.mp hchain

/-- Rows are one chain at most. -/
theorem eq_of_perm {hs' : List BlockHeader} (h : ChainFrom base hs) (h' : ChainFrom base hs')
    (hperm : hs.Perm hs') : hs = hs' :=
  hperm.eq_of_pairwise (fun _ _ _ _ hab hba => absurd hba (lt_asymm hab)) h.pairwise_height
    h'.pairwise_height

/-- **The headers are listed from the tip down.** -/
theorem getBlockHeaders_eq (h : ChainFrom base hs) {db : ChainTables}
    (hrows : db.blocks.Perm hs) : db.getBlockHeaders = hs.reverse := by
  have hperm : db.getBlockHeaders.Perm hs.reverse :=
    (Table.orderBy_perm.trans hrows).trans (List.reverse_perm hs).symm
  have hsorted : db.getBlockHeaders.Pairwise (fun a b => b.height.asI64 ≤ a.height.asI64) :=
    Table.pairwise_orderBy (fun a b => le_total _ _) (fun _ _ _ hab hbc => hbc.trans hab)
  have hreverse : hs.reverse.Pairwise (fun a b => b.height.asI64 ≤ a.height.asI64) :=
    List.pairwise_reverse.mpr (h.pairwise_height.imp (fun hlt => hlt.le))
  refine List.Perm.eq_of_pairwise (fun a b ha hb hab hba => ?_) hsorted hreverse hperm
  have hnodup : (hs.map (fun x => x.height.asI64)).Nodup :=
    List.pairwise_map.mpr (h.pairwise_height.imp (fun hlt => hlt.ne))
  exact List.inj_on_of_nodup_map hnodup (List.mem_reverse.mp (hperm.mem_iff.mp ha))
    (List.mem_reverse.mp hb) (le_antisymm hba hab)

/-- The first header listed is the last of the chain. -/
theorem head?_getBlockHeaders (h : ChainFrom base hs) {db : ChainTables}
    (hrows : db.blocks.Perm hs) : db.getBlockHeaders.head? = hs.getLast? := by
  rw [h.getBlockHeaders_eq hrows, List.head?_reverse]

theorem ne_nil (h : ChainFrom base hs) : hs ≠ [] := by
  rintro rfl
  cases h.head

theorem mem_base (h : ChainFrom base hs) : base ∈ hs := List.mem_of_mem_head? h.head

/-- A chain is loaded. -/
theorem exists_tryFrom (h : ChainFrom base hs) {db : ChainTables} (hrows : db.blocks.Perm hs) :
    ∃ chain, Chain.tryFrom db.getBlockHeaders = some (.ok chain) ∧ chain.Represents hs := by
  rw [h.getBlockHeaders_eq hrows]
  exact Chain.tryFrom_reverse h.ne_nil (h.linked.imp (fun _ _ hab => hab.1)) h.nodup

/-- A block is put on top. -/
theorem concat (h : ChainFrom base hs) {last : BlockHeader} (hlast : hs.getLast? = some last)
    (hx : x.IsAbove last) (hnew : x.hash ∉ hs.map BlockHeader.hash) :
    ChainFrom base (hs ++ [x]) where
  linked := by
    refine List.isChain_append.mpr ⟨h.linked, List.IsChain.singleton x, fun a ha b hb => ?_⟩
    obtain rfl := Option.some.inj (hlast.symm.trans ha)
    obtain rfl := Option.some.inj hb
    exact hx
  head := by
    rw [List.head?_append, h.head]
    rfl
  nodup := by
    rw [List.map_append]
    refine List.Nodup.append h.nodup (List.nodup_singleton _) ?_
    exact List.disjoint_singleton.mpr hnew

/-- The block on top is taken off. -/
theorem left (h : ChainFrom base (ps ++ [x])) (hx : x ≠ base) : ChainFrom base ps where
  linked := h.linked.left_of_append
  head := by
    cases ps with
    | nil => exact absurd (Option.some.inj h.head) hx
    | cons p ps => exact h.head
  nodup := by
    have hnodup := h.nodup
    rw [List.map_append] at hnodup
    exact hnodup.of_append_left

/-- The birthday is above no block of the chain. -/
theorem ne_base_of_isAbove (h : ChainFrom base hs) {y : BlockHeader} (hy : y ∈ hs)
    (habove : x.IsAbove y) : x ≠ base := by
  rintro rfl
  obtain ⟨b, rs, rfl⟩ := List.exists_cons_of_ne_nil h.ne_nil
  obtain rfl : b = x := Option.some.inj h.head
  have hheight := habove.2
  rcases List.mem_cons.mp hy with rfl | hy
  · omega
  · have hlt := (List.pairwise_cons.mp h.pairwise_height).1 y hy
    omega

/-- **Every block but the birthday is above one.** -/
theorem exists_below (h : ChainFrom base hs) (hx : x ∈ hs) (hne : x ≠ base) :
    ∃ y ∈ hs, x.IsAbove y := by
  obtain ⟨ps, qs, rfl⟩ := List.append_of_mem hx
  obtain ⟨rs, y, rfl⟩ : ∃ rs y, ps = rs ++ [y] := by
    refine (List.eq_nil_or_concat' ps).resolve_left ?_
    rintro rfl
    exact hne (Option.some.inj h.head)
  have hlinked := h.linked
  rw [List.append_assoc, List.singleton_append] at hlinked
  exact ⟨y, by simp, (List.isChain_cons_cons.mp hlinked.right_of_append).1⟩

/-- **A block that a chain does not have is named by none of its blocks**: what is above it
in another chain is not on this one. -/
theorem eq_nil_of_above (h : ChainFrom base hs) {qs : List BlockHeader}
    (h' : ChainFrom base (ps ++ x :: qs)) (hx : x.hash ∉ hs.map BlockHeader.hash)
    (hqs : ∀ y ∈ qs, y ∈ hs) : qs = [] := by
  cases qs with
  | nil => rfl
  | cons w qs =>
    have hw : w.IsAbove x := (List.isChain_cons_cons.mp h'.linked.right_of_append).1
    have hbase : w ≠ base := h'.ne_base_of_isAbove (by simp) hw
    obtain ⟨v, hv, habove⟩ := h.exists_below (hqs w List.mem_cons_self) hbase
    exact absurd (List.mem_map_of_mem hv) (habove.1.symm.trans hw.1 ▸ hx)

end ChainFrom

section Writes

variable {base : BlockHeader} {hs : List BlockHeader} {db : ChainTables}

/-- **Storing a block** keeps the rows one chain exactly when it is stored already or
goes on top. -/
theorem singleChain_insertBlock_iff {block : BlockHeader} (h : ChainFrom base hs)
    (hrows : db.blocks.Perm hs) :
    SingleChain base (db.insertBlock block).blocks ↔
      block.hash ∈ db.blocks.map BlockHeader.hash ∨
        ∃ last ∈ hs.getLast?, block.IsAbove last := by
  by_cases hstored : block.hash ∈ db.blocks.map BlockHeader.hash
  · have hsame : (db.insertBlock block).blocks = db.blocks := if_pos hstored
    rw [hsame]
    exact iff_of_true ⟨hs, h, hrows⟩ (Or.inl hstored)
  have hadded : (db.insertBlock block).blocks = db.blocks ++ [block] := if_neg hstored
  rw [hadded, or_iff_right hstored]
  have hnew : block.hash ∉ hs.map BlockHeader.hash :=
    fun hmem => hstored ((hrows.map _).mem_iff.mpr hmem)
  constructor
  · rintro ⟨hs', h', hperm⟩
    have hmem {x : BlockHeader} : x ∈ hs' ↔ x ∈ hs ∨ x = block := by
      rw [← hperm.mem_iff, List.mem_append, hrows.mem_iff, List.mem_singleton]
    have hblock : block ≠ base := fun heq => hnew (List.mem_map_of_mem (heq ▸ h.mem_base))
    obtain ⟨ps, qs, rfl⟩ := List.append_of_mem (hmem.mpr (Or.inr rfl))
    obtain rfl : qs = [] := by
      refine h.eq_nil_of_above h' hnew (fun y hy => ?_)
      have hne : y ≠ block := by
        rintro rfl
        have hsorted := (List.pairwise_append.mp h'.pairwise_height).2.1
        exact lt_irrefl _ ((List.pairwise_cons.mp hsorted).1 y hy)
      exact (hmem.mp (List.mem_append_right ps (List.mem_cons_of_mem _ hy))).resolve_right hne
    have hps : ps = hs := by
      refine (h'.left hblock).eq_of_perm h ?_
      exact (List.perm_append_right_iff [block]).mp (hperm.symm.trans (hrows.append_right [block]))
    obtain ⟨rs, last, rfl⟩ := (List.eq_nil_or_concat' hs).resolve_left h.ne_nil
    subst hps
    have hlinked := h'.linked
    rw [List.append_assoc, List.singleton_append] at hlinked
    exact ⟨last, by simp, (List.isChain_cons_cons.mp hlinked.right_of_append).1⟩
  · rintro ⟨last, hlast, habove⟩
    exact ⟨hs ++ [block], h.concat hlast habove hnew, hrows.append_right [block]⟩

/-- Taking out the rows of one hash. -/
theorem filter_hash_eq {ps qs : List BlockHeader} {x : BlockHeader}
    (hnodup : ((ps ++ x :: qs).map BlockHeader.hash).Nodup) :
    (ps ++ x :: qs).filter (fun b => b.hash ≠ x.hash) = ps ++ qs := by
  rw [List.map_append, List.map_cons, List.nodup_append, List.nodup_cons] at hnodup
  obtain ⟨-, ⟨hqs, -⟩, hdisjoint⟩ := hnodup
  rw [List.filter_append, List.filter_cons_of_neg (by simp)]
  refine congrArg₂ _ (List.filter_eq_self.mpr (fun b hb => decide_eq_true ?_))
    (List.filter_eq_self.mpr (fun b hb => decide_eq_true (fun heq => hqs ?_)))
  · exact hdisjoint _ (List.mem_map_of_mem hb) _ List.mem_cons_self
  · exact heq ▸ List.mem_map_of_mem hb

/-- Where a hash is the last one, nothing comes after it. -/
theorem eq_nil_of_getLast? {ps qs : List BlockHeader} {x last : BlockHeader}
    (hnodup : ((ps ++ x :: qs).map BlockHeader.hash).Nodup)
    (hlast : (ps ++ x :: qs).getLast? = some last) (hhash : last.hash = x.hash) : qs = [] := by
  rw [List.map_append, List.map_cons, List.nodup_append, List.nodup_cons] at hnodup
  cases qs using List.reverseRecOn with
  | nil => rfl
  | append_singleton qs y =>
    rw [← List.cons_append, ← List.append_assoc, List.getLast?_concat] at hlast
    obtain rfl := Option.some.inj hlast
    exact absurd (hhash ▸ List.mem_map_of_mem (by simp)) hnodup.2.1.1

/-- **Undoing a block** keeps the rows one chain exactly when it is not stored or is the
last, and not the birthday. -/
theorem singleChain_undoBlock_iff {hash : BlockHash} (h : ChainFrom base hs)
    (hrows : db.blocks.Perm hs) :
    SingleChain base (db.undoBlock hash).blocks ↔
      hash ∉ db.blocks.map BlockHeader.hash ∨
        ∃ last ∈ hs.getLast?, last.hash = hash ∧ last ≠ base := by
  have hfilter : (db.undoBlock hash).blocks = db.blocks.filter (fun b => b.hash ≠ hash) := rfl
  rw [hfilter]
  by_cases hstored : hash ∈ db.blocks.map BlockHeader.hash
  case neg =>
    have hsame : db.blocks.filter (fun b => b.hash ≠ hash) = db.blocks := by
      refine List.filter_eq_self.mpr (fun b hb => decide_eq_true (fun heq => hstored ?_))
      exact heq ▸ List.mem_map_of_mem hb
    rw [hsame]
    exact iff_of_true ⟨hs, h, hrows⟩ (Or.inl hstored)
  rw [or_iff_right (not_not_intro hstored)]
  obtain ⟨x, hxrow, rfl⟩ := List.mem_map.mp hstored
  obtain ⟨ps, qs, rfl⟩ := List.append_of_mem (hrows.mem_iff.mp hxrow)
  have hperm : (db.blocks.filter (fun b => b.hash ≠ x.hash)).Perm (ps ++ qs) :=
    filter_hash_eq h.nodup ▸ hrows.filter _
  constructor
  · rintro ⟨hs', h', hperm'⟩
    have hmem {y : BlockHeader} : y ∈ hs' ↔ y ∈ db.blocks ∧ y.hash ≠ x.hash := by
      rw [← hperm'.mem_iff, List.mem_filter, decide_eq_true_eq]
    have hx : x.hash ∉ hs'.map BlockHeader.hash := by
      intro hmem'
      obtain ⟨y, hy, hyx⟩ := List.mem_map.mp hmem'
      exact (hmem.mp hy).2 hyx
    have hbase : x ≠ base := fun heq => hx (List.mem_map_of_mem (heq ▸ h'.mem_base))
    -- What is above the block is still stored, but names a block that is not.
    obtain rfl : qs = [] := h'.eq_nil_of_above h hx
      (fun y hy => hperm'.mem_iff.mp (hperm.mem_iff.mpr (List.mem_append_right ps hy)))
    exact ⟨x, by simp, rfl, hbase⟩
  · rintro ⟨last, hlast, hhash, hne⟩
    obtain rfl : qs = [] := eq_nil_of_getLast? h.nodup hlast hhash
    rw [List.getLast?_concat] at hlast
    obtain rfl := Option.some.inj hlast
    rw [List.append_nil] at hperm
    exact ⟨ps, h.left hne, hperm⟩

/-- **A write that keeps to the tip**: a block that is stored is stored already or goes
on top of the first that is listed; one that is undone is not stored, or is the first
that is listed, and not the birthday. -/
def ChainTables.KeepsToTip (base : BlockHeader) (db : ChainTables) : ChainCall → Prop
  | .undoBlock hash => hash ∉ db.blocks.map BlockHeader.hash ∨
      ∃ last ∈ db.getBlockHeaders.head?, last.hash = hash ∧ last ≠ base
  | .addBlock block _ _ => block.hash ∈ db.blocks.map BlockHeader.hash ∨
      ∃ last ∈ db.getBlockHeaders.head?, block.IsAbove last
  | _ => True

instance : (c : ChainCall) → Decidable (db.KeepsToTip base c)
  | .undoBlock hash => inferInstanceAs (Decidable (hash ∉ db.blocks.map BlockHeader.hash ∨
      ∃ last ∈ db.getBlockHeaders.head?, last.hash = hash ∧ last ≠ base))
  | .addBlock block _ _ => inferInstanceAs (Decidable (block.hash ∈ db.blocks.map BlockHeader.hash ∨
      ∃ last ∈ db.getBlockHeaders.head?, block.IsAbove last))
  | .getTipHash | .getBlockHeader _ | .getBlock _ | .getBlockHeaders | .filterWatchAddresses _
  | .isCancelled | .never => .isTrue trivial

/-- The tables after a write. -/
def ChainTables.written (db : ChainTables) : ChainCall → ChainTables
  | .undoBlock hash => db.undoBlock hash
  | .addBlock block txOutputs txInputs => db.addBlock block txOutputs txInputs
  | _ => db

/-- **Exactly the writes that keep to the tip** keep the rows one chain. -/
theorem singleChain_written_iff (h : SingleChain base db.blocks) (c : ChainCall) :
    SingleChain base (db.written c).blocks ↔ db.KeepsToTip base c := by
  obtain ⟨hs, hchain, hrows⟩ := h
  have hhead := hchain.head?_getBlockHeaders hrows
  cases c with
  | addBlock block txOutputs txInputs =>
    have hwritten : (db.written (.addBlock block txOutputs txInputs)).blocks
        = (db.insertBlock block).blocks := rfl
    rw [hwritten, singleChain_insertBlock_iff hchain hrows, ChainTables.KeepsToTip, hhead]
  | undoBlock hash =>
    rw [ChainTables.written, singleChain_undoBlock_iff hchain hrows, ChainTables.KeepsToTip, hhead]
  | _ => exact iff_of_true ⟨hs, hchain, hrows⟩ trivial

end Writes

end Swapd
