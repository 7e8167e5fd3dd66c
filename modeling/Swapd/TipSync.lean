import Swapd.BlockTable
import Swapd.BlockTree

/-!
# The tip sync follows the best chain

`do_sync` as the only writer of the `blocks` table, against any tree of headers
and any best tip. It walks back from the tip to a block it knows, undoes the
blocks above that one, and processes the new branch from there, before it moves
the chain in memory. So at every moment the table holds a path of the tree from
the base: a beginning of the old branch while blocks are undone, the common
part and a beginning of the new branch while blocks are processed. A path is
what `Chain::try_from` loads, so the sync can be abandoned anywhere and taken
up again: the monitor that is started on such a table keeps it a path
(`start_holds`).

Heights grow by one from block to block. They bound the walk back, and keep the
hashes of a path apart.
-/

namespace Swapd

/-! ## The tree -/

/-- **A tree of headers**: what bitcoind answers for a hash. For a hash it does
not know, and for the genesis block, there is no answer. -/
structure HeaderTree where
  header : BlockHash → Option BlockHeader
  header_hash : ∀ {hash h}, header hash = some h → h.hash = hash
  height_succ : ∀ {hash h p}, header hash = some h → header h.prev = some p →
    h.height.toNat = p.height.toNat + 1
  height_lt : ∀ {hash h}, header hash = some h → h.height.toNat < 2 ^ 31

namespace HeaderTree

variable (tree : HeaderTree)

/-- The tree has this header. -/
def Has (h : BlockHeader) : Prop := tree.header h.hash = some h

/-- **A path** of the tree, from below. -/
def IsPath (hs : List BlockHeader) : Prop := Linked hs ∧ ∀ h ∈ hs, tree.Has h

/-- A block is the parent of another. -/
def IsParent (hash parent : BlockHash) : Prop := ∃ h, tree.header hash = some h ∧ h.prev = parent

/-- **A block descends from another**, or is it. -/
def Descends : BlockHash → BlockHash → Prop := Relation.ReflTransGen tree.IsParent

variable {tree} {hs ps rs : List BlockHeader} {h h' : BlockHeader}

theorem has_of_header {hash : BlockHash} (hh : tree.header hash = some h) : tree.Has h := by
  rw [Has, tree.header_hash hh]
  exact hh

/-- A hash names one header. -/
theorem Has.eq_of_hash (hh : tree.Has h) (hh' : tree.Has h') (heq : h.hash = h'.hash) :
    h = h' := by
  rw [Has, heq, hh'] at hh
  exact (Option.some.inj hh).symm

namespace IsPath

theorem nil : tree.IsPath [] := ⟨List.IsChain.nil, fun _ hh => nomatch hh⟩

theorem singleton (hh : tree.Has h) : tree.IsPath [h] :=
  ⟨List.IsChain.singleton h, fun _ hx => List.mem_singleton.mp hx ▸ hh⟩

theorem left (hpath : tree.IsPath (ps ++ rs)) : tree.IsPath ps :=
  ⟨hpath.1.left_of_append, fun x hx => hpath.2 x (List.mem_append_left rs hx)⟩

theorem right (hpath : tree.IsPath (ps ++ rs)) : tree.IsPath rs :=
  ⟨hpath.1.right_of_append, fun x hx => hpath.2 x (List.mem_append_right ps hx)⟩

/-- A header before a path. -/
theorem cons (hpath : tree.IsPath (h :: rs)) (hh' : tree.Has h') (hprev : h.prev = h'.hash) :
    tree.IsPath (h' :: h :: rs) :=
  ⟨List.isChain_cons_cons.mpr ⟨hprev, hpath.1⟩, List.forall_mem_cons.mpr ⟨hh', hpath.2⟩⟩

/-- Two paths that meet. -/
theorem glue (hleft : tree.IsPath (ps ++ [h])) (hright : tree.IsPath (h :: rs)) :
    tree.IsPath (ps ++ h :: rs) := by
  refine ⟨List.isChain_split.mpr ⟨hleft.1, hright.1⟩, fun x hx => ?_⟩
  rcases List.mem_append.mp hx with hx | hx
  · exact hleft.2 x (List.mem_append_left [h] hx)
  · exact hright.2 x hx

/-- **Heights grow along a path.** -/
theorem pairwise_height (hpath : tree.IsPath hs) :
    hs.Pairwise (fun a b => a.height.toNat < b.height.toNat) := by
  induction hs with
  | nil => exact List.Pairwise.nil
  | cons a rs ih =>
    have htail : tree.IsPath rs := right (show tree.IsPath ([a] ++ rs) from hpath)
    refine List.pairwise_cons.mpr ⟨fun x hx => ?_, ih htail⟩
    cases rs with
    | nil => cases hx
    | cons b rs =>
      have hprev : b.prev = a.hash := (List.isChain_cons_cons.mp hpath.1).1
      have hb := hpath.2 b (List.mem_cons_of_mem a List.mem_cons_self)
      have ha : tree.header b.prev = some a := by
        rw [hprev]
        exact hpath.2 a List.mem_cons_self
      have hab : a.height.toNat < b.height.toNat := by
        rw [tree.height_succ hb ha]
        exact Nat.lt_succ_self _
      rcases List.mem_cons.mp hx with rfl | hx
      · exact hab
      · exact hab.trans ((List.pairwise_cons.mp (ih htail)).1 x hx)

/-- The hashes of a path are distinct. -/
theorem nodup (hpath : tree.IsPath hs) : (hs.map BlockHeader.hash).Nodup := by
  refine List.pairwise_map.mpr (hpath.pairwise_height.imp_of_mem (fun {a b} ha hb hlt heq => ?_))
  rw [(hpath.2 a ha).eq_of_hash (hpath.2 b hb) heq] at hlt
  exact lt_irrefl _ hlt

/-- The last header of a path descends from all of them. -/
theorem descends (hpath : tree.IsPath hs) {t : BlockHeader} (ht : hs.getLast? = some t) :
    ∀ h ∈ hs, tree.Descends t.hash h.hash := by
  induction hs with
  | nil => cases ht
  | cons a rs ih =>
    have htail : tree.IsPath rs := right (show tree.IsPath ([a] ++ rs) from hpath)
    cases rs with
    | nil =>
      intro h hh
      rw [List.mem_singleton.mp hh, ← Option.some.inj ht]
      exact .refl
    | cons b rs =>
      rw [List.getLast?_cons_cons] at ht
      have hall := ih htail ht
      have hprev : b.prev = a.hash := (List.isChain_cons_cons.mp hpath.1).1
      refine List.forall_mem_cons.mpr ⟨?_, hall⟩
      exact (hall b List.mem_cons_self).tail
        ⟨b, hpath.2 b (List.mem_cons_of_mem a List.mem_cons_self), hprev⟩

end IsPath

end HeaderTree

/-! ## The table -/

/-- **The rows hold a path** from the base. -/
def HeaderTree.Holds (tree : HeaderTree) (base : BlockHeader) (rows : List BlockHeader) : Prop :=
  ∃ hs, tree.IsPath hs ∧ hs.head? = some base ∧ rows.Perm hs

/-- **A chain in memory equals the table.** -/
def HeaderTree.InSync (tree : HeaderTree) (base : BlockHeader) (chain : Chain)
    (rows : List BlockHeader) : Prop :=
  ∃ hs, tree.IsPath hs ∧ hs.head? = some base ∧ rows.Perm hs ∧ chain.Represents hs

/-- Heights in the signed column are the heights. -/
theorem asI64_of_lt {a : UInt64} (ha : a.toNat < 2 ^ 31) : a.asI64 = a.toNat := by
  exact UInt64.asI64_eq (ha.trans (by decide))

section Table

variable {tree : HeaderTree} {base : BlockHeader} {rows hs : List BlockHeader}

/-- A child is stored right above its parent. -/
theorem HeaderTree.Has.isAbove {a b : BlockHeader} (hb : tree.Has b) (ha : tree.Has a)
    (hprev : b.prev = a.hash) : b.IsAbove a := by
  have hheight := tree.height_succ hb (show tree.header b.prev = some a from hprev ▸ ha)
  refine ⟨hprev, ?_⟩
  rw [asI64_of_lt (tree.height_lt hb), asI64_of_lt (tree.height_lt ha), hheight]
  exact Int.natCast_succ _

/-- **A path is a chain.** -/
theorem HeaderTree.IsPath.chainFrom (hpath : tree.IsPath hs) (hbase : hs.head? = some base) :
    ChainFrom base hs where
  linked := by
    clear hbase
    induction hs with
    | nil => exact List.IsChain.nil
    | cons a rs ih =>
      have hrest : rs.IsChain (fun a b => b.IsAbove a) :=
        ih (HeaderTree.IsPath.right (show tree.IsPath ([a] ++ rs) from hpath))
      cases rs with
      | nil => exact List.IsChain.singleton a
      | cons b rs =>
        have habove : b.IsAbove a := HeaderTree.Has.isAbove
          (hpath.2 b (List.mem_cons_of_mem a List.mem_cons_self)) (hpath.2 a List.mem_cons_self)
          (List.isChain_cons_cons.mp hpath.1).1
        exact List.isChain_cons_cons.mpr ⟨habove, hrest⟩
  head := hbase
  nodup := hpath.nodup

end Table

/-! ## The world -/

/-- **The state of a sync**: the tables, the tip it was told, and whether it was
told that it is cancelled. -/
structure SyncState where
  tables : ChainTables
  tip : Option BlockHash
  cancelled : Bool

/-- A call changes the tables. -/
def ChainCall.IsWrite : ChainCall → Prop
  | addBlock _ _ _ | undoBlock _ => True
  | _ => False

/-- A transaction of the repository: it commits, or it fails. One that has
committed may still be answered with an error. -/
def SyncState.Commits (s : SyncState) (db : ChainTables) (r : Except ChainRepositoryError Unit)
    (s' : SyncState) : Prop :=
  s' = { s with tables := db } ∨ (s' = s ∧ ∃ e, r = .error e)

namespace HeaderTree

variable (tree : HeaderTree)

/-- What a call does, with nothing in between. Any call may fail, and any tip
may be reported. -/
def Answers : (c : ChainCall) → SyncState → c.Reply → SyncState → Prop
  | .getTipHash, s, r, s' =>
    match r with
    | .ok hash => s' = { s with tip := some hash }
    | .error _ => s' = s
  | .getBlockHeader hash, s, r, s' => s' = s ∧ ∀ h, r = .ok h → tree.header hash = some h
  | .getBlock hash, s, r, s' => s' = s ∧ ∀ b, r = .ok b → ∃ h, tree.header hash = some h ∧
      b.bip34Height = some h.height ∧ b.header h.height = h
  | .getBlockHeaders, s, r, s' => s' = s ∧ ∀ hs, r = .ok hs → hs = s.tables.getBlockHeaders
  | .filterWatchAddresses addresses, s, r, s' =>
    s' = s ∧ ∀ ws, r = .ok ws → ws = s.tables.filterWatchAddresses addresses
  | .addBlock block txOutputs txInputs, s, r, s' =>
    s.Commits (s.tables.addBlock block txOutputs txInputs) r s'
  | .undoBlock hash, s, r, s' => s.Commits (s.tables.undoBlock hash) r s'
  | .isCancelled, s, r, s' => s' = { s with cancelled := s.cancelled || r }
  | .never, _, r, _ => nomatch r

/-- **What a call does.** Only the sync writes the table of blocks; the other
tables may have changed since the call before. -/
def Performs (c : ChainCall) (s : SyncState) (r : c.Reply) (s' : SyncState) : Prop :=
  ∃ db : ChainTables, db.blocks = s.tables.blocks ∧
    tree.Answers c { s with tables := db } r s'

/-! ## What is required of a sync -/

/-- **What a sync may ask**: the table holds a path from the base, the sync does
not panic, and it writes only where the tip descends from a block it knows. -/
def MayAsk (base : BlockHeader) (chain : Chain) (c : ChainCall) (s : SyncState) : Prop :=
  tree.Holds base s.tables.blocks ∧ c ≠ .never ∧
    (c.IsWrite → ∃ t a, s.tip = some t ∧ chain.containsBlock a ∧ tree.Descends t a)

/-- **A path from the base to the tip**, in the table and in memory. -/
def FollowsTip (base : BlockHeader) (chain : Chain) (s : SyncState) : Prop :=
  ∃ t hs, s.tip = some t ∧ tree.IsPath hs ∧ hs.head? = some base ∧
    hs.getLast?.map BlockHeader.hash = some t ∧ s.tables.blocks.Perm hs ∧ chain.Represents hs

end HeaderTree

section Sync

variable {tree : HeaderTree} {base : BlockHeader} {existing new : Chain} {s s' : SyncState}
  {hs ps rs ns : List BlockHeader}

/-- A call that reads leaves the table of blocks, the tip it was told and a
cancellation as they are. -/
theorem HeaderTree.Performs.reads {c : ChainCall} {r : c.Reply}
    (h : tree.Performs c s r s') (hread : ¬ c.IsWrite) (htip : c ≠ .getTipHash) :
    s'.tables.blocks = s.tables.blocks ∧ s'.tip = s.tip := by
  obtain ⟨db, hdb, h⟩ := h
  cases c with
  | getTipHash => exact absurd rfl htip
  | getBlockHeader hash => rw [h.1]; exact ⟨hdb, rfl⟩
  | getBlock hash => rw [h.1]; exact ⟨hdb, rfl⟩
  | getBlockHeaders => rw [h.1]; exact ⟨hdb, rfl⟩
  | filterWatchAddresses addresses => rw [h.1]; exact ⟨hdb, rfl⟩
  | addBlock block txOutputs txInputs => exact absurd trivial hread
  | undoBlock hash => exact absurd trivial hread
  | isCancelled => rw [show s' = _ from h]; exact ⟨hdb, rfl⟩
  | never => cases r

/-- What the requirement on a sync asks of its parts: some property of the
result and the state, unless it fails. -/
abbrev SyncPart {α : Type} (tree : HeaderTree) (base : BlockHeader) (existing : Chain)
    (Q : α → SyncState → Prop) (p : Monitoring α) (s : SyncState) : Prop :=
  Prog.SatAlone tree.Performs (tree.MayAsk base existing)
    (fun o s' => tree.Holds base s'.tables.blocks ∧ ∀ a, o = .ok a → Q a s') p.run s

/-- **Sequencing of parts.** -/
theorem SyncPart.bind {α β : Type} {Q : α → SyncState → Prop} {R : β → SyncState → Prop}
    {p : Monitoring α} {f : α → Monitoring β}
    (h : SyncPart tree base existing Q p s)
    (hf : ∀ a s', tree.Holds base s'.tables.blocks → Q a s' →
      SyncPart tree base existing R (f a) s') :
    SyncPart tree base existing R (p >>= f) s := by
  refine Prog.SatAlone.tryBind (h.mono (fun o s' ho => ?_))
  cases o with
  | error e => exact ⟨ho.1, fun a ha => nomatch ha⟩
  | ok a => exact hf a s' ho.1 (ho.2 a rfl)

theorem SyncPart.pure {α : Type} {Q : α → SyncState → Prop} {a : α}
    (h : tree.Holds base s.tables.blocks) (hQ : Q a s) :
    SyncPart tree base existing Q (pure a) s :=
  ⟨h, fun _ ha => Except.ok.inj ha ▸ hQ⟩

/-- A read. -/
theorem SyncPart.read {α : Type} {Q : α → SyncState → Prop} {c : ChainCall}
    {f : c.Reply → Monitoring α} (hread : ¬ c.IsWrite) (htip : c ≠ .getTipHash)
    (hnever : c ≠ .never) (h : tree.Holds base s.tables.blocks)
    (hf : ∀ r s', tree.Performs c s r s' → s'.tables.blocks = s.tables.blocks →
      s'.tip = s.tip → SyncPart tree base existing Q (f r) s') :
    SyncPart tree base existing Q (Prog.ask (I := ChainServices) c >>= f) s := by
  refine ⟨⟨h, hnever, fun hwrite => absurd hwrite hread⟩, fun r s' hperf => ?_⟩
  obtain ⟨hblocks, htip'⟩ := hperf.reads hread htip
  exact hf r s' hperf hblocks htip'

/-- A header is asked for. -/
theorem SyncPart.header {α : Type} {Q : α → SyncState → Prop} {hash : BlockHash}
    {f : BlockHeader → Monitoring α} (h : tree.Holds base s.tables.blocks)
    (hf : ∀ x s', tree.header hash = some x → s'.tables.blocks = s.tables.blocks →
      s'.tip = s.tip → SyncPart tree base existing Q (f x) s') :
    SyncPart tree base existing Q
      (orFail id (Prog.perform (I := ChainServices) (.getBlockHeader hash)) >>= f) s := by
  refine ⟨⟨h, nofun, fun hwrite => hwrite.elim⟩, fun r s' hperf => ?_⟩
  obtain ⟨hblocks, htip⟩ := hperf.reads not_false nofun
  obtain ⟨db, -, -, hanswer⟩ := hperf
  cases r with
  | error e => exact ⟨hblocks ▸ h, fun a ha => nomatch ha⟩
  | ok x => exact hf x s' (hanswer x rfl) hblocks htip

/-- The sync is told whether it is cancelled. -/
theorem SyncPart.cancel {α : Type} {Q : α → SyncState → Prop} {f : Bool → Monitoring α}
    (h : tree.Holds base s.tables.blocks)
    (hstop : ∀ s', tree.Holds base s'.tables.blocks → s'.cancelled = true →
      SyncPart tree base existing Q (f true) s')
    (hgo : ∀ s', s'.tables.blocks = s.tables.blocks → s'.tip = s.tip →
      SyncPart tree base existing Q (f false) s') :
    SyncPart tree base existing Q (Prog.ask (I := ChainServices) .isCancelled >>= f) s := by
  refine SyncPart.read not_false nofun nofun h (fun r s' hperf hblocks htip => ?_)
  cases r with
  | false => exact hgo s' hblocks htip
  | true =>
    obtain ⟨db, -, hanswer⟩ := hperf
    refine hstop s' (hblocks ▸ h) ?_
    rw [show s' = _ from hanswer]
    exact Bool.or_true _

/-! ## Walking back -/

/-- A branch that meets a list of headers in its first header only. -/
structure HeaderTree.Branch (tree : HeaderTree) (hs : List BlockHeader) (t : BlockHash)
    (x : BlockHeader) (ns : List BlockHeader) : Prop where
  isPath : tree.IsPath (x :: ns)
  last : (x :: ns).getLast?.map BlockHeader.hash = some t
  fresh : ∀ y ∈ ns, y.hash ∉ hs.map BlockHeader.hash

/-- **Walking back** finds the branch of the tip, from a header that is known. -/
theorem walkBack_part (hexisting : existing.Represents hs) {t : BlockHash} {n : ℕ}
    {current : BlockHeader} (hfuel : current.height.toNat < n)
    (hnew : new.Represents (current :: ns)) (hbranch : tree.Branch hs t current ns)
    (h : tree.Holds base s.tables.blocks) :
    SyncPart tree base existing (fun o s' =>
        match o with
        | none => s'.cancelled = true
        | some new' => s'.tables.blocks = s.tables.blocks ∧ s'.tip = s.tip ∧
            ∃ x ns', new'.Represents (x :: ns') ∧ tree.Branch hs t x ns' ∧
              x.hash ∈ hs.map BlockHeader.hash)
      (ChainMonitor.walkBack existing n current new) s := by
  induction n generalizing current ns new s with
  | zero => exact absurd hfuel (Nat.not_lt_zero _)
  | succ n ih =>
    refine SyncPart.cancel h (fun s' h' hc => SyncPart.pure h' hc) (fun s₁ hblocks₁ htip₁ => ?_)
    have h₁ : tree.Holds base s₁.tables.blocks := hblocks₁ ▸ h
    by_cases hknown : existing.containsBlock current.hash = true
    · rw [if_neg Bool.false_ne_true, if_pos hknown]
      exact SyncPart.pure h₁ ⟨hblocks₁, htip₁, current, ns, hnew, hbranch,
        hexisting.containsBlock_iff.mp hknown⟩
    · rw [if_neg Bool.false_ne_true, if_neg hknown]
      refine SyncPart.header h₁ (fun x s₂ hx hblocks₂ htip₂ => ?_)
      have hcurrent := hbranch.isPath.2 current List.mem_cons_self
      have hprev : current.prev = x.hash := (tree.header_hash hx).symm
      have hheight := tree.height_succ hcurrent hx
      have hpath : tree.IsPath (x :: current :: ns) :=
        hbranch.isPath.cons (HeaderTree.has_of_header hx) hprev
      obtain ⟨hprepend, hnew'⟩ := hnew.prepend hprev (List.nodup_cons.mp hpath.nodup).1
      have hbranch' : tree.Branch hs t x (current :: ns) := by
        refine ⟨hpath, ?_, List.forall_mem_cons.mpr ⟨?_, hbranch.fresh⟩⟩
        · rw [List.getLast?_cons_cons]
          exact hbranch.last
        · exact fun hmem => hknown (hexisting.containsBlock_iff.mpr hmem)
      rw [hprepend]
      have hrest := ih (s := s₂) (by omega) hnew' hbranch' (hblocks₂ ▸ h₁)
      rw [hblocks₂, hblocks₁, htip₂, htip₁] at hrest
      exact hrest

/-! ## Undoing -/

/-- The tip descends from a block that is known. -/
def HeaderTree.MayWrite (tree : HeaderTree) (existing : Chain) (s : SyncState) : Prop :=
  ∃ t a, s.tip = some t ∧ existing.containsBlock a ∧ tree.Descends t a

theorem HeaderTree.MayWrite.of_tip (h : tree.MayWrite existing s) (htip : s'.tip = s.tip) :
    tree.MayWrite existing s' := by
  rw [HeaderTree.MayWrite, htip]
  exact h

/-- Removing the last header of a path. -/
theorem perm_filter_last {rows qs : List BlockHeader} {x : BlockHeader}
    (hpath : tree.IsPath (qs ++ [x])) (hrows : rows.Perm (qs ++ [x])) :
    (rows.filter (fun b => b.hash ≠ x.hash)).Perm qs := by
  have hfilter := hrows.filter (fun b => b.hash ≠ x.hash)
  rw [filter_hash_eq hpath.nodup, List.append_nil] at hfilter
  exact hfilter

/-- A transaction of the repository, by what it leaves of the table of blocks. -/
theorem commits_blocks {db db₀ : ChainTables} {r : Except ChainRepositoryError Unit}
    (hdb : db₀.blocks = s.tables.blocks)
    (h : ({ s with tables := db₀ } : SyncState).Commits db r s') :
    s'.tip = s.tip ∧ (s'.tables.blocks = db.blocks ∨
      (s'.tables.blocks = s.tables.blocks ∧ ∃ e, r = .error e)) := by
  rcases h with rfl | ⟨rfl, he⟩
  · exact ⟨rfl, Or.inl rfl⟩
  · exact ⟨rfl, Or.inr ⟨hdb, he⟩⟩

/-- **Undoing** takes the blocks above a header off the table, from the top. -/
theorem undoBlocks_part {x : BlockHeader} {more : List BlockHeader}
    (hpath : tree.IsPath (ps ++ x :: rs)) (hbase : (ps ++ [x]).head? = some base)
    (hknown : new.containsBlock x.hash = true)
    (hnew : ∀ y ∈ rs, new.containsBlock y.hash = false) (hwrite : tree.MayWrite existing s)
    (hrows : s.tables.blocks.Perm (ps ++ x :: rs)) :
    SyncPart tree base existing (fun (done : Bool) s' =>
        if done then s'.tables.blocks.Perm (ps ++ [x]) ∧ s'.tip = s.tip else s'.cancelled = true)
      (ChainMonitor.undoBlocks new (rs.reverse ++ x :: more)) s := by
  have hhead (rs : List BlockHeader) : (ps ++ x :: rs).head? = some base := by
    rw [← hbase]
    cases ps <;> rfl
  induction rs using List.reverseRecOn generalizing s with
  | nil =>
    have h : tree.Holds base s.tables.blocks := ⟨_, hpath, hbase, hrows⟩
    refine SyncPart.cancel h (fun s' h' hc => SyncPart.pure h' hc) (fun s₁ hblocks₁ htip₁ => ?_)
    rw [if_neg Bool.false_ne_true, if_pos hknown]
    exact SyncPart.pure (hblocks₁ ▸ h) ⟨hblocks₁ ▸ hrows, htip₁⟩
  | append_singleton rs y ih =>
    have h : tree.Holds base s.tables.blocks := ⟨_, hpath, hhead _, hrows⟩
    rw [List.reverse_append, List.reverse_singleton, List.singleton_append, List.cons_append]
    refine SyncPart.cancel h (fun s' h' hc => SyncPart.pure h' hc) (fun s₁ hblocks₁ htip₁ => ?_)
    have hy : ¬ new.containsBlock y.hash = true := by
      rw [hnew y (List.mem_append_right rs (List.mem_singleton_self y))]
      exact Bool.false_ne_true
    rw [if_neg Bool.false_ne_true, if_neg hy]
    refine ⟨⟨hblocks₁ ▸ h, nofun, fun _ => hwrite.of_tip htip₁⟩, fun r s₂ hperf => ?_⟩
    obtain ⟨db, hdb, hcommits⟩ := hperf
    obtain ⟨htip₂, hrows₂⟩ := commits_blocks hdb hcommits
    rw [← List.cons_append, ← List.append_assoc] at hpath hrows
    have hundone : (db.undoBlock y.hash).blocks.Perm (ps ++ x :: rs) := by
      show (db.blocks.filter _).Perm _
      rw [hdb, hblocks₁]
      exact perm_filter_last hpath hrows
    have hleft : tree.IsPath (ps ++ x :: rs) := hpath.left
    rcases hrows₂ with hrows₂ | ⟨hrows₂, e, rfl⟩
    · cases r with
      | error e => exact ⟨⟨_, hleft, hhead rs, hrows₂ ▸ hundone⟩, fun a ha => nomatch ha⟩
      | ok _ =>
        have hrest := ih hleft (fun z hz => hnew z (List.mem_append_left [y] hz))
          (hwrite.of_tip (htip₂.trans htip₁)) (hrows₂ ▸ hundone)
        rw [htip₂, htip₁] at hrest
        exact hrest
    · exact ⟨hrows₂ ▸ hblocks₁ ▸ h, fun a ha => nomatch ha⟩

/-! ## Processing -/

/-- A block is inserted at the end of a path, unless it is on it. -/
theorem perm_insertBlock {x : BlockHeader} {rows ds ds' : List BlockHeader}
    (hpath : tree.IsPath ds') (hds : (x ∈ ds ∧ ds' = ds) ∨ ds' = ds ++ [x])
    (hrows : rows.Perm ds) : (Table.insertIgnore BlockHeader.hash rows x).Perm ds' := by
  have hkeys : x.hash ∈ rows.map BlockHeader.hash ↔ x.hash ∈ ds.map BlockHeader.hash :=
    (hrows.map _).mem_iff
  rcases hds with ⟨hx, rfl⟩ | rfl
  · rw [Table.insertIgnore, if_pos (hkeys.mpr (List.mem_map_of_mem hx))]
    exact hrows
  · have hnodup := hpath.nodup
    rw [List.map_append, List.nodup_append] at hnodup
    have hx : x.hash ∉ ds.map BlockHeader.hash :=
      fun hx => hnodup.2.2 _ hx _ (List.mem_singleton_self _) rfl
    rw [Table.insertIgnore, if_neg (fun hmem => hx (hkeys.mp hmem))]
    exact hrows.append_right [x]

/-- **Processing one block** puts its header on the table. -/
theorem processBlock_part {codec : ChainCodec} {b : Block} {x : BlockHeader}
    {ds ds' : List BlockHeader} (hheight : b.bip34Height = some x.height)
    (hheader : b.header x.height = x) (hpath : tree.IsPath ds) (hpath' : tree.IsPath ds')
    (hbase : ds.head? = some base) (hbase' : ds'.head? = some base)
    (hds : (x ∈ ds ∧ ds' = ds) ∨ ds' = ds ++ [x]) (hwrite : tree.MayWrite existing s)
    (hrows : s.tables.blocks.Perm ds) :
    SyncPart tree base existing (fun _ s' => s'.tables.blocks.Perm ds' ∧ s'.tip = s.tip)
      (ChainMonitor.processBlock codec b) s := by
  have h : tree.Holds base s.tables.blocks := ⟨ds, hpath, hbase, hrows⟩
  unfold ChainMonitor.processBlock
  rw [hheight]
  refine ⟨⟨h, nofun, fun hw => hw.elim⟩, fun r s₁ hperf => ?_⟩
  obtain ⟨hblocks₁, htip₁⟩ := hperf.reads not_false nofun
  cases r with
  | error e => exact ⟨hblocks₁ ▸ h, fun a ha => nomatch ha⟩
  | ok ws =>
    refine ⟨⟨hblocks₁ ▸ h, nofun, fun _ => hwrite.of_tip htip₁⟩, fun r s₂ hperf => ?_⟩
    obtain ⟨db, hdb, hcommits⟩ := hperf
    obtain ⟨htip₂, hrows₂⟩ := commits_blocks hdb hcommits
    rw [hheader] at hrows₂
    have hstored : (Table.insertIgnore BlockHeader.hash db.blocks x).Perm ds' :=
      perm_insertBlock hpath' hds (hdb ▸ hblocks₁ ▸ hrows)
    rcases hrows₂ with hrows₂ | ⟨hrows₂, e, rfl⟩
    · rw [show (db.addBlock x _ _).blocks = Table.insertIgnore BlockHeader.hash db.blocks x
        from rfl] at hrows₂
      cases r with
      | error e => exact ⟨⟨ds', hpath', hbase', hrows₂ ▸ hstored⟩, fun a ha => nomatch ha⟩
      | ok _ =>
        exact ⟨⟨ds', hpath', hbase', hrows₂ ▸ hstored⟩,
          fun _ _ => ⟨hrows₂ ▸ hstored, htip₂.trans htip₁⟩⟩
    · exact ⟨hrows₂ ▸ hblocks₁ ▸ h, fun a ha => nomatch ha⟩

/-- One round of the loop that processes blocks. -/
theorem addBlocks_cons_part {codec : ChainCodec} {Q : Bool → SyncState → Prop}
    {x : BlockHeader} {xs ds ds' : List BlockHeader} (hx : tree.Has x)
    (hpath : tree.IsPath ds) (hpath' : tree.IsPath ds') (hbase : ds.head? = some base)
    (hbase' : ds'.head? = some base) (hds : (x ∈ ds ∧ ds' = ds) ∨ ds' = ds ++ [x])
    (hwrite : tree.MayWrite existing s) (hrows : s.tables.blocks.Perm ds)
    (hstop : ∀ s', s'.cancelled = true → Q false s')
    (hrest : ∀ s', s'.tables.blocks.Perm ds' → s'.tip = s.tip →
      SyncPart tree base existing Q (ChainMonitor.addBlocks codec xs) s') :
    SyncPart tree base existing Q (ChainMonitor.addBlocks codec (x :: xs)) s := by
  have h : tree.Holds base s.tables.blocks := ⟨ds, hpath, hbase, hrows⟩
  refine SyncPart.cancel h (fun s' h' hc => SyncPart.pure h' (hstop s' hc))
    (fun s₁ hblocks₁ htip₁ => ?_)
  rw [if_neg Bool.false_ne_true]
  refine ⟨⟨hblocks₁ ▸ h, nofun, fun hw => hw.elim⟩, fun r s₂ hperf => ?_⟩
  obtain ⟨hblocks₂, htip₂⟩ := hperf.reads not_false nofun
  obtain ⟨db, -, -, hanswer⟩ := hperf
  cases r with
  | error e => exact ⟨hblocks₂ ▸ hblocks₁ ▸ h, fun a ha => nomatch ha⟩
  | ok b =>
    obtain ⟨x', hx', hheight, hheader⟩ := hanswer b rfl
    have hx : tree.header x.hash = some x := hx
    obtain rfl : x = x' := Option.some.inj (hx.symm.trans hx')
    refine SyncPart.bind (processBlock_part hheight hheader hpath hpath' hbase hbase' hds
      (hwrite.of_tip (htip₂.trans htip₁)) (hblocks₂ ▸ hblocks₁ ▸ hrows))
      (fun _ s₃ _ h₃ => hrest s₃ h₃.1 ?_)
    exact h₃.2.trans (htip₂.trans htip₁)

/-- **Processing the blocks** of a branch. -/
theorem addBlocks_part {codec : ChainCodec} {ds xs : List BlockHeader}
    (hpath : tree.IsPath (ds ++ xs)) (hbase : ds.head? = some base)
    (hwrite : tree.MayWrite existing s) (hrows : s.tables.blocks.Perm ds) :
    SyncPart tree base existing (fun (done : Bool) s' =>
        if done then s'.tables.blocks.Perm (ds ++ xs) ∧ s'.tip = s.tip else s'.cancelled = true)
      (ChainMonitor.addBlocks codec xs) s := by
  have hhead (xs : List BlockHeader) : (ds ++ xs).head? = some base := by
    cases ds with
    | nil => cases hbase
    | cons d ds => exact hbase
  induction xs generalizing ds s with
  | nil =>
    rw [List.append_nil] at hpath ⊢
    exact SyncPart.pure ⟨ds, hpath, hbase, hrows⟩ ⟨hrows, rfl⟩
  | cons x xs ih =>
    have hsplit : ds ++ x :: xs = (ds ++ [x]) ++ xs := by
      rw [List.append_assoc, List.singleton_append]
    rw [hsplit] at hpath ⊢
    have hx : tree.Has x :=
      hpath.2 x (List.mem_append_left xs (List.mem_append_right ds (List.mem_singleton_self x)))
    refine addBlocks_cons_part hx hpath.left.left hpath.left hbase (hhead [x]) (Or.inr rfl)
      hwrite hrows (fun s' hc => hc) (fun s₁ hrows₁ htip₁ => ?_)
    have hrest := ih hpath (hhead [x]) (hwrite.of_tip htip₁) hrows₁
      (fun ys => by rw [List.append_assoc]; exact hhead _)
    rw [htip₁] at hrest
    exact hrest

/-! ## The sync -/

/-- What a sync returns. -/
def HeaderTree.Synced (tree : HeaderTree) (base : BlockHeader) (o : Option Chain)
    (s : SyncState) : Prop :=
  match o with
  | none => s.cancelled = true
  | some chain => tree.FollowsTip base chain s

/-- **The branch is processed**, and the chain in memory moved to its tip. -/
theorem extend_part {codec : ChainCodec} {x : BlockHeader} {t : BlockHash}
    (hexisting : existing.Represents (ps ++ x :: rs)) (hpath : tree.IsPath (ps ++ [x]))
    (hbase : (ps ++ [x]).head? = some base) (hnew : new.Represents (x :: ns))
    (hbranch : tree.Branch (ps ++ x :: rs) t x ns) (htip : s.tip = some t)
    (hwrite : tree.MayWrite existing s) (hrows : s.tables.blocks.Perm (ps ++ [x])) :
    SyncPart tree base existing (tree.Synced base)
      (ChainMonitor.extend codec existing new) s := by
  have hwhole : tree.IsPath (ps ++ x :: ns) := hpath.glue hbranch.isPath
  have hsplit : ps ++ x :: ns = (ps ++ [x]) ++ ns := by
    rw [List.append_assoc, List.singleton_append]
  have hx : tree.Has x := hbranch.isPath.2 x List.mem_cons_self
  have hfresh : ∀ y ∈ ns, y.hash ∉ ps.map BlockHeader.hash := by
    intro y hy hmem
    refine hbranch.fresh y hy ?_
    rw [List.map_append]
    exact List.mem_append_left _ hmem
  obtain ⟨chain, hretip, hchain⟩ := hexisting.retip hnew hfresh
  unfold ChainMonitor.extend
  rw [hnew.iterForwards_eq, ChainMonitor.unwrap, pure_bind]
  have hadd : SyncPart tree base existing (fun (done : Bool) s' =>
      if done then s'.tables.blocks.Perm (ps ++ x :: ns) ∧ s'.tip = s.tip
      else s'.cancelled = true) (ChainMonitor.addBlocks codec (x :: ns)) s := by
    -- The block that was known already is processed once more.
    refine addBlocks_cons_part hx hpath hpath hbase hbase
      (Or.inl ⟨List.mem_append_right ps (List.mem_singleton_self x), rfl⟩) hwrite hrows
      (fun s' hc => hc) (fun s₁ hrows₁ htip₁ => ?_)
    rw [hsplit] at hwhole ⊢
    rw [← htip₁]
    exact addBlocks_part hwhole hbase (hwrite.of_tip htip₁) hrows₁
  refine SyncPart.bind hadd (fun done s₁ h₁ hdone => ?_)
  cases done with
  | false =>
    rw [if_neg Bool.false_ne_true] at hdone ⊢
    exact SyncPart.pure h₁ hdone
  | true =>
    rw [if_pos rfl] at hdone ⊢
    rw [hretip]
    refine SyncPart.pure h₁ ⟨t, ps ++ x :: ns, hdone.2.trans htip, hwhole, ?_, ?_, hdone.1, hchain⟩
    · rw [hsplit, List.head?_append, hbase]
      rfl
    · rw [List.getLast?_append, ← hbranch.last]
      cases h : (x :: ns).getLast? with
      | none => exact absurd (List.getLast?_eq_none_iff.mp h) (List.cons_ne_nil x ns)
      | some y => rfl

/-- **The blocks off the branch are undone.** -/
theorem undoReorged_part {x : BlockHeader} {t : BlockHash}
    (hexisting : existing.Represents (ps ++ x :: rs)) (hpath : tree.IsPath (ps ++ x :: rs))
    (hbase : (ps ++ [x]).head? = some base) (hnew : new.Represents (x :: ns))
    (hbranch : tree.Branch (ps ++ x :: rs) t x ns) (hwrite : tree.MayWrite existing s)
    (hrows : s.tables.blocks.Perm (ps ++ x :: rs)) :
    SyncPart tree base existing (fun (done : Bool) s' =>
        if done then s'.tables.blocks.Perm (ps ++ [x]) ∧ s'.tip = s.tip else s'.cancelled = true)
      (ChainMonitor.undoReorged existing new) s := by
  have hhead : (ps ++ x :: rs).head? = some base := by
    rw [← hbase]
    cases ps <;> rfl
  have h : tree.Holds base s.tables.blocks := ⟨_, hpath, hhead, hrows⟩
  -- The last header of the old branch is the fork only if nothing is above it.
  obtain ⟨last, hlast⟩ : ∃ last, (ps ++ x :: rs).getLast? = some last := by
    rw [List.getLast?_append, List.getLast?_cons]
    exact ⟨_, rfl⟩
  unfold ChainMonitor.undoReorged
  rw [hnew.baseHeader_eq, hexisting.tipHeader_eq, hlast, hexisting.iterBackwards_eq]
  show SyncPart tree base existing _ (if x = last then pure true else
    ChainMonitor.undoBlocks new (ps ++ x :: rs).reverse) s
  by_cases heq : x = last
  · rw [if_pos heq]
    have hrs : rs = [] := by
      cases rs using List.reverseRecOn with
      | nil => rfl
      | append_singleton rs y =>
        rw [← List.cons_append, ← List.append_assoc, List.getLast?_concat] at hlast
        obtain rfl : y = last := Option.some.inj hlast
        have hnodup := hpath.nodup
        rw [heq, ← List.cons_append, ← List.append_assoc, List.map_append,
          List.nodup_append] at hnodup
        refine absurd rfl (hnodup.2.2 _ (List.mem_map_of_mem ?_) _ (List.mem_singleton_self _))
        exact List.mem_append_right ps List.mem_cons_self
    rw [hrs] at hrows
    exact SyncPart.pure h ⟨hrows, rfl⟩
  · rw [if_neg heq, List.reverse_append, List.reverse_cons, List.append_assoc,
      List.singleton_append]
    refine undoBlocks_part hpath hbase ?_ (fun y hy => ?_) hwrite hrows
    · exact hnew.containsBlock_iff.mpr (List.mem_map_of_mem List.mem_cons_self)
    · -- A block above the fork is not on the new branch.
      rw [← Bool.not_eq_true, hnew.containsBlock_iff, List.map_cons, List.mem_cons]
      have hnodup := (hpath.right).nodup
      rw [List.map_cons, List.nodup_cons] at hnodup
      rintro (hyx | hmem)
      · exact hnodup.1 (hyx ▸ List.mem_map_of_mem hy)
      · obtain ⟨z, hz, hzy⟩ := List.mem_map.mp hmem
        refine hbranch.fresh z hz (hzy ▸ List.mem_map_of_mem ?_)
        exact List.mem_append_right ps (List.mem_cons_of_mem x hy)

/-- **A sync, from a chain that equals the table.** -/
theorem doSync_part {codec : ChainCodec} {steps : ℕ} (hsteps : 2 ^ 31 ≤ steps)
    (hsync : tree.InSync base existing s.tables.blocks) :
    SyncPart tree base existing (tree.Synced base)
      (ChainMonitor.doSync codec steps existing) s := by
  obtain ⟨hs, hpath, hbase, hrows, hexisting⟩ := hsync
  have h : tree.Holds base s.tables.blocks := ⟨hs, hpath, hbase, hrows⟩
  unfold ChainMonitor.doSync
  refine ⟨⟨h, nofun, fun hw => hw.elim⟩, fun r s₁ hperf => ?_⟩
  obtain ⟨db, hdb, hanswer⟩ := hperf
  cases r with
  | error e =>
    rw [show s₁ = _ from hanswer]
    exact ⟨⟨hs, hpath, hbase, (show db.blocks.Perm hs from hdb ▸ hrows)⟩, fun a ha => nomatch ha⟩
  | ok t =>
    have htip₁ : s₁.tip = some t := by rw [show s₁ = _ from hanswer]
    have hrows₁ : s₁.tables.blocks.Perm hs := by
      rw [show s₁ = _ from hanswer]
      exact hdb ▸ hrows
    have h₁ : tree.Holds base s₁.tables.blocks := ⟨hs, hpath, hbase, hrows₁⟩
    refine SyncPart.header h₁ (fun x₀ s₂ hx₀ hblocks₂ htip₂ => ?_)
    have hbranch₀ : tree.Branch hs t x₀ [] :=
      ⟨.singleton (HeaderTree.has_of_header hx₀), congrArg some (tree.header_hash hx₀),
        fun y hy => nomatch hy⟩
    have hwalk := walkBack_part hexisting
      ((tree.height_lt hx₀).trans_le hsteps) (Chain.represents_new x₀) hbranch₀
      (hblocks₂ ▸ h₁)
    refine SyncPart.bind hwalk (fun o s₃ h₃ hwalked => ?_)
    cases o with
    | none => exact SyncPart.pure h₃ hwalked
    | some new =>
      obtain ⟨hblocks₃, htip₃, x, ns, hnew, hbranch, hx⟩ := hwalked
      -- The fork is the header of the known chain with this hash.
      obtain ⟨y, hy, hyx⟩ := List.mem_map.mp hx
      obtain rfl := (hpath.2 y hy).eq_of_hash (hbranch.isPath.2 x List.mem_cons_self) hyx
      obtain ⟨ps, rs, rfl⟩ := List.append_of_mem hy
      have hpath' : tree.IsPath (ps ++ [y]) := by
        rw [List.append_cons] at hpath
        exact hpath.left
      have hbase' : (ps ++ [y]).head? = some base := by
        rw [← hbase]
        cases ps <;> rfl
      have htip : s₃.tip = some t := htip₃.trans (htip₂.trans htip₁)
      have hwrite : tree.MayWrite existing s₃ := by
        refine ⟨t, y.hash, htip, hexisting.containsBlock_iff.mpr hx, ?_⟩
        obtain ⟨last, hlast, rfl⟩ := Option.map_eq_some_iff.mp hbranch.last
        exact hbranch.isPath.descends hlast y List.mem_cons_self
      have hundo := undoReorged_part hexisting hpath hbase' hnew hbranch hwrite
        (hblocks₃ ▸ hblocks₂ ▸ hrows₁)
      refine SyncPart.bind hundo (fun done s₄ h₄ hdone => ?_)
      cases done with
      | false =>
        rw [if_neg Bool.false_ne_true] at hdone ⊢
        exact SyncPart.pure h₄ hdone
      | true =>
        rw [if_pos rfl] at hdone ⊢
        exact extend_part hexisting hpath' hbase' hnew hbranch (hdone.2.trans htip)
          (hwrite.of_tip hdone.2) hdone.1

end Sync

/-! ## The main result -/

/-- **What the runs of a sync do**, from a chain in memory: one that returns a
chain has followed the tip it was told; it neither panics nor walks back for
ever; and with a tip that does not descend from a block of the chain it writes
nothing and returns an error, unless it is cancelled. -/
def HeaderTree.Syncs (tree : HeaderTree) (codec : ChainCodec) (steps : ℕ) (base : BlockHeader)
    (chain : Chain) (s : SyncState) : Prop :=
  ∀ q s', Prog.RunsAlone tree.Performs (ChainMonitor.doSync codec steps chain).run s q s' →
    (∀ chain', q = .ret (.ok (some chain')) → tree.FollowsTip base chain' s') ∧
      (∀ k, q ≠ .call .never k) ∧
      ∀ t, s'.tip = some t → (∀ a, chain.containsBlock a → ¬ tree.Descends t a) →
        (∀ c k, q = .call c k → ¬ c.IsWrite) ∧
          ∀ r, q = .ret r → (∃ e, r = .error e) ∨ (r = .ok none ∧ s'.cancelled = true)

section Main

variable {tree : HeaderTree} {codec : ChainCodec} {steps : ℕ} {base : BlockHeader}
  {chain : Chain} {s : SyncState}

/-- The base of the chain is on the path of the tip. -/
theorem HeaderTree.FollowsTip.descends {t : BlockHash} (h : tree.FollowsTip base chain s)
    (ht : s.tip = some t) : tree.Descends t base.hash := by
  obtain ⟨t', hs, ht', hpath, hbase, htop, -, -⟩ := h
  obtain ⟨last, hlast, hhash⟩ := Option.map_eq_some_iff.mp htop
  rw [Option.some.inj (ht.symm.trans ht'), ← hhash]
  exact hpath.descends hlast base (List.mem_of_mem_head? hbase)

/-- A sync from a chain that equals the table does what a sync does. -/
theorem HeaderTree.InSync.syncs (hsteps : 2 ^ 31 ≤ steps)
    (hsync : tree.InSync base chain s.tables.blocks) : tree.Syncs codec steps base chain s := by
  intro q s' hrun
  have hsat := Prog.SatAlone.runs (doSync_part hsteps hsync) hrun
  obtain ⟨hs, hpath, hbase, -, hchain⟩ := hsync
  refine ⟨?_, ?_, fun t ht hdescends => ⟨?_, ?_⟩⟩
  · rintro chain' rfl
    exact hsat.2 (some chain') rfl
  · rintro k rfl
    exact hsat.1.2.1 rfl
  · rintro c k rfl hwrite
    obtain ⟨t', a, ht', ha, hta⟩ := hsat.1.2.2 hwrite
    obtain rfl : t = t' := Option.some.inj (ht.symm.trans ht')
    exact hdescends a ha hta
  · rintro r rfl
    rcases r with e | _ | chain'
    · exact Or.inl ⟨e, rfl⟩
    · exact Or.inr ⟨rfl, hsat.2 none rfl⟩
    · have hbase' : chain.containsBlock base.hash = true :=
        hchain.containsBlock_iff.mpr (List.mem_map_of_mem (List.mem_of_mem_head? hbase))
      have hfollows : tree.FollowsTip base chain' s' := hsat.2 (some chain') rfl
      exact absurd (hfollows.descends ht) (hdescends base.hash hbase')

/-- **The table is a path at every moment** of a sync. -/
theorem HeaderTree.InSync.holds (hsteps : 2 ^ 31 ≤ steps)
    (hsync : tree.InSync base chain s.tables.blocks)
    {q : Prog ChainServices (Except ChainError (Option Chain))} {s' : SyncState}
    (hrun : Prog.RunsAlone tree.Performs (ChainMonitor.doSync codec steps chain).run s q s') :
    tree.Holds base s'.tables.blocks := by
  have hsat := Prog.SatAlone.runs (doSync_part hsteps hsync) hrun
  cases q with
  | ret r => exact hsat.1
  | call c k => exact hsat.1.1

/-- A table that holds a path is loaded as a chain that equals it. -/
theorem HeaderTree.Holds.load {db : ChainTables} (h : tree.Holds base db.blocks) :
    ∃ chain, Chain.tryFrom db.getBlockHeaders = some (.ok chain) ∧
      tree.InSync base chain db.blocks := by
  obtain ⟨hs, hpath, hbase, hrows⟩ := h
  obtain ⟨chain, hload, hchain⟩ := (hpath.chainFrom hbase).exists_tryFrom hrows
  exact ⟨chain, hload, hs, hpath, hbase, hrows, hchain⟩

/-- **The tip sync follows every reorganisation and is crash safe.** From a
chain that equals the table a sync does what it should; and wherever it is
abandoned, the table is a path from the base, which is loaded as a chain that
equals it, from which the next sync does so again. -/
theorem doSync_followsTip (hsteps : 2 ^ 31 ≤ steps)
    (hsync : tree.InSync base chain s.tables.blocks) :
    tree.Syncs codec steps base chain s ∧
      ∀ q s', Prog.RunsAlone tree.Performs (ChainMonitor.doSync codec steps chain).run s q s' →
        tree.Holds base s'.tables.blocks ∧
          ∃ chain', Chain.tryFrom s'.tables.getBlockHeaders = some (.ok chain') ∧
            tree.InSync base chain' s'.tables.blocks ∧
            ∀ s'', s''.tables.blocks = s'.tables.blocks →
              tree.Syncs codec steps base chain' s'' := by
  refine ⟨hsync.syncs hsteps, fun q s' hrun => ?_⟩
  have h := hsync.holds hsteps hrun
  obtain ⟨chain', hload, hsync'⟩ := h.load
  refine ⟨h, chain', hload, hsync', fun s'' hrows => ?_⟩
  rw [← hrows] at hsync'
  exact hsync'.syncs hsteps

/-! ### The monitor, started again -/

theorem HeaderTree.FollowsTip.inSync (h : tree.FollowsTip base chain s) :
    tree.InSync base chain s.tables.blocks := by
  obtain ⟨t, hs, -, hpath, hbase, -, hrows, hchain⟩ := h
  exact ⟨hs, hpath, hbase, hrows, hchain⟩

/-- A token that has been cancelled stays so. -/
def StaysCancelled : (c : ChainCall) → SyncState → c.Reply → Prop
  | .isCancelled, s, r => s.cancelled = true → r = true
  | _, _, _ => True

/-- The requirement on a part of the monitor: the table is a path at each call, and
nothing panics. -/
abbrev MonitorPart {α : Type} (tree : HeaderTree) (base : BlockHeader)
    (onRet : Except ChainError α → SyncState → Prop) (p : Monitoring α) (s : SyncState) : Prop :=
  Prog.SatAlone (fun c s r s' => tree.Performs c s r s' ∧ StaysCancelled c s r)
    (fun c s => tree.Holds base s.tables.blocks ∧ c ≠ ChainCall.never)
    (fun o s' => tree.Holds base s'.tables.blocks ∧ onRet o s') p.run s

/-- **What `start` loads** is a chain that equals the table. -/
theorem loadChain_part (h : tree.Holds base s.tables.blocks) :
    MonitorPart tree base
      (fun o s' => ∀ chain, o = .ok chain → tree.InSync base chain s'.tables.blocks)
      ChainMonitor.loadChain s := by
  refine Prog.SatAlone.tryBind ⟨⟨h, fun hnever => by cases hnever⟩, fun r s' hperf => ?_⟩
  obtain ⟨⟨db, hdb, rfl, hread⟩, -⟩ := hperf
  have h' : tree.Holds base db.blocks := hdb ▸ h
  cases r with
  | error e => exact ⟨h', fun chain hchain => by cases hchain⟩
  | ok blocks =>
    obtain rfl := hread blocks rfl
    obtain ⟨chain, hload, hsync⟩ := h'.load
    refine Prog.SatAlone.tryBind ?_
    simp only [hload]
    exact ⟨h', fun chain' hchain' => Except.ok.inj hchain' ▸ hsync⟩

/-- **The rounds of `start_tip_sync`**, from a chain that equals the table unless the
token is cancelled. -/
theorem startTipSync_part (hsteps : 2 ^ 31 ≤ steps) {n : ℕ} (h : tree.Holds base s.tables.blocks)
    (hsync : s.cancelled = true ∨ tree.InSync base chain s.tables.blocks) :
    MonitorPart tree base (fun _ _ => True) (ChainMonitor.startTipSync codec steps n chain) s := by
  induction n generalizing chain s with
  | zero => exact ⟨h, trivial⟩
  | succ n ih =>
    refine Prog.SatAlone.tryBind ⟨⟨h, fun hnever => by cases hnever⟩, fun r s₁ hperf => ?_⟩
    obtain ⟨hblocks, -⟩ := hperf.1.reads not_false (fun htip => by cases htip)
    have h₁ : tree.Holds base s₁.tables.blocks := hblocks ▸ h
    cases r with
    | true => exact ⟨h₁, trivial⟩
    | false =>
      have hsync₁ : tree.InSync base chain s₁.tables.blocks := by
        rw [hblocks]
        exact hsync.resolve_left (fun hcancelled => Bool.false_ne_true (hperf.2 hcancelled))
      refine Prog.SatAlone.tryBind (((doSync_part hsteps hsync₁).weaken (fun _ _ _ _ hp => hp.1)
        (fun _ _ hcall => ⟨hcall.1, hcall.2.1⟩)).mono (fun o s₂ ho => ?_))
      cases o with
      | error e => exact ⟨ho.1, trivial⟩
      | ok done =>
        cases done with
        | none => exact ih ho.1 (Or.inl (ho.2 none rfl))
        | some chain' =>
          have hfollows : tree.FollowsTip base chain' s₂ := ho.2 (some chain') rfl
          exact ih ho.1 (Or.inr hfollows.inSync)

/-- **Started again after a crash**, the monitor loads the table and syncs round after
round. The table is a path from the base at every moment, and nothing panics. -/
theorem start_holds (hsteps : 2 ^ 31 ≤ steps) {n : ℕ} (h : tree.Holds base s.tables.blocks) :
    MonitorPart tree base (fun _ _ => True)
      (ChainMonitor.loadChain >>= ChainMonitor.startTipSync codec steps n) s := by
  refine Prog.SatAlone.tryBind ((loadChain_part h).mono (fun o s' ho => ?_))
  cases o with
  | error e => exact ⟨ho.1, trivial⟩
  | ok chain => exact startTipSync_part hsteps ho.1 (Or.inr (ho.2 chain rfl))

end Main

namespace Sample

/-- A block with a child on each of two branches, one of which is longer. -/
def branches : List BlockHeader :=
  [⟨Bytes32.ofByte 1, 100, Bytes32.ofByte 0⟩, ⟨Bytes32.ofByte 2, 101, Bytes32.ofByte 1⟩,
    ⟨Bytes32.ofByte 3, 101, Bytes32.ofByte 1⟩, ⟨Bytes32.ofByte 4, 102, Bytes32.ofByte 3⟩]

/-- The tree of the branches. -/
def headerTree : HeaderTree where
  header := fun hash => branches.find? (fun h => h.hash = hash)
  header_hash := fun h => by
    have := List.find?_some h
    exact of_decide_eq_true this
  height_succ := fun {hash h p} hh hp => by
    have hall : ∀ h ∈ branches, ∀ p ∈ branches, p.hash = h.prev →
        h.height.toNat = p.height.toNat + 1 := by
      decide
    have hpp := List.find?_some hp
    exact hall h (List.mem_of_find?_eq_some hh) p (List.mem_of_find?_eq_some hp)
      (of_decide_eq_true hpp)
  height_lt := fun {hash h} hh => by
    have hall : ∀ h ∈ branches, h.height.toNat < 2 ^ 31 := by decide
    exact hall h (List.mem_of_find?_eq_some hh)

/-- The block of a header, without transactions. -/
def emptyBlock (h : BlockHeader) (hlt : h.height.toNat < 2 ^ 31) : Block where
  hash := h.hash
  prev := h.prev
  bip34Height := some h.height
  txdata := []
  inputs_ne_nil := fun _ htx => nomatch htx
  inputs_lt := fun _ htx => nomatch htx
  outputs_lt := fun _ htx => nomatch htx
  height_lt := fun _ hh => Option.some.inj hh ▸ hlt

/-- The longer branch is the best, and no call fails. -/
def syncServe : (c : ChainCall) → SyncState → Option (c.Reply × SyncState)
  | .getTipHash, s =>
    some (.ok (Bytes32.ofByte 4), { s with tip := some (Bytes32.ofByte 4) })
  | .getBlockHeader hash, s =>
    match headerTree.header hash with
    | some h => some (.ok h, s)
    | none => some (.error .general, s)
  | .getBlock hash, s =>
    match hh : headerTree.header hash with
    | some h => some (.ok (emptyBlock h (headerTree.height_lt hh)), s)
    | none => some (.error .general, s)
  | .getBlockHeaders, s => some (.ok s.tables.getBlockHeaders, s)
  | .filterWatchAddresses addresses, s =>
    some (.ok (s.tables.filterWatchAddresses addresses), s)
  | .addBlock block txOutputs txInputs, s =>
    some (.ok (), { s with tables := s.tables.addBlock block txOutputs txInputs })
  | .undoBlock hash, s => some (.ok (), { s with tables := s.tables.undoBlock hash })
  | .isCancelled, s => some (false, { s with cancelled := s.cancelled || false })
  | .never, _ => none

theorem performs_syncServe (c : ChainCall) (s : SyncState) (r : c.Reply) (s' : SyncState)
    (h : syncServe c s = some (r, s')) : headerTree.Performs c s r s' := by
  refine ⟨s.tables, rfl, ?_⟩
  cases c with
  | getBlockHeader hash =>
    simp only [syncServe] at h
    split at h
    next x hx =>
      cases h
      exact ⟨rfl, fun y hy => Except.ok.inj hy ▸ hx⟩
    next =>
      cases h
      exact ⟨rfl, fun y hy => nomatch hy⟩
  | getBlock hash =>
    simp only [syncServe] at h
    split at h
    next x hx =>
      cases h
      exact ⟨rfl, fun b hb => ⟨x, hx, Except.ok.inj hb ▸ ⟨rfl, rfl⟩⟩⟩
    next =>
      cases h
      exact ⟨rfl, fun y hy => nomatch hy⟩
  | getTipHash => cases h; rfl
  | getBlockHeaders => cases h; exact ⟨rfl, fun hs hhs => (Except.ok.inj hhs).symm⟩
  | filterWatchAddresses addresses => cases h; exact ⟨rfl, fun ws hws => (Except.ok.inj hws).symm⟩
  | addBlock block txOutputs txInputs => cases h; exact Or.inl rfl
  | undoBlock hash => cases h; exact Or.inl rfl
  | isCancelled => cases h; rfl
  | never => cases h

/-- The shorter branch is indexed. -/
def syncStart : SyncState where
  tables := ⟨branches.take 2, [], [], [], []⟩
  tip := none
  cancelled := false

/-- The shorter branch in memory. -/
def shortBranch : Chain :=
  (Chain.new ⟨Bytes32.ofByte 1, 100, Bytes32.ofByte 0⟩).withTip
    ⟨Bytes32.ofByte 2, 101, Bytes32.ofByte 1⟩

/-- A sync, from the shorter branch. -/
def sampleSync :=
  Prog.play syncServe 40 syncStart (ChainMonitor.doSync chainCodec (2 ^ 31) shortBranch).run

theorem inSync_syncStart : headerTree.InSync ⟨Bytes32.ofByte 1, 100, Bytes32.ofByte 0⟩ shortBranch
    syncStart.tables.blocks := by
  have hpath : headerTree.IsPath (branches.take 2) := by
    refine ⟨?_, ?_⟩
    · exact List.isChain_cons_cons.mpr ⟨rfl, List.IsChain.singleton _⟩
    · show ∀ h ∈ branches.take 2, branches.find? (fun x => x.hash = h.hash) = some h
      decide
  exact ⟨branches.take 2, hpath, rfl, List.Perm.refl _,
    ((Chain.represents_new _).append rfl (by decide)).2⟩

end Sample

open Sample in
theorem doSync_followsTip_sample :
    ∃ chain, sampleSync.2 = .ret (.ok (some chain)) ∧
      ∃ s, headerTree.FollowsTip ⟨Bytes32.ofByte 1, 100, Bytes32.ofByte 0⟩ chain s := by
  have hrun := Prog.runsAlone_play performs_syncServe 40 syncStart
    (ChainMonitor.doSync chainCodec (2 ^ 31) shortBranch).run
  have hsync := (doSync_followsTip (le_refl (2 ^ 31)) inSync_syncStart).1 _ _ hrun
  obtain ⟨chain, hret⟩ : ∃ chain, sampleSync.2 = .ret (.ok (some chain)) := ⟨_, rfl⟩
  exact ⟨chain, hret, _, hsync.1 chain hret⟩

end Swapd
