import Mathlib.Data.List.Chain
import Swapd.Table
import Swapd.Types

/-!
# The chain in memory

A chain of headers is kept as a hash map from block hashes to headers, each
with the hash of the block that follows it, and the hashes of the two ends.
The map is the list of its entries: an insert replaces the entry of its key,
and nothing here depends on the order of the entries.

The source reads the map with `expect` wherever an entry should be there. Such
a read is partial here, and an operation that would panic has no result. The
operations change the chain in place and may fail after they have changed it,
so each returns the chain it leaves along with what it returns.

`Represents` says which list of headers, from the base to the tip, a chain
stands for. Each operation is then the one on lists that its name suggests,
and in particular none of the reads fails.
-/

namespace Swapd

/-- An entry of the map: a header, and the block that follows it. -/
structure BlockInfo where
  header : BlockHeader
  next : Option BlockHash
deriving DecidableEq

/-- **A chain of headers.** -/
structure Chain where
  tip : BlockHash
  base : BlockHash
  blocks : List BlockInfo
deriving DecidableEq

/-- The key of an entry. -/
def BlockInfo.hash (b : BlockInfo) : BlockHash := b.header.hash

namespace Chain

variable (c : Chain)

/-! ## The map -/

/-- `blocks.get(hash)`. -/
def get (hash : BlockHash) : Option BlockInfo := c.blocks.find? (fun b => b.hash = hash)

/-- `blocks.insert(hash, info)`. -/
def insert (info : BlockInfo) (blocks : List BlockInfo) : List BlockInfo :=
  info :: blocks.filter (fun b => b.hash ≠ info.hash)

/-- `blocks.remove(hash)`. -/
def remove (hash : BlockHash) (blocks : List BlockInfo) : List BlockInfo :=
  blocks.filter (fun b => b.hash ≠ hash)

/-- An assignment to the `next` of an entry. -/
def setNext (hash : BlockHash) (next : Option BlockHash) (blocks : List BlockInfo) :
    List BlockInfo :=
  blocks.map (fun b => if b.hash = hash then { b with next := next } else b)

/-! ## The operations -/

/-- `Chain::new`. -/
def new (tip : BlockHeader) : Chain := ⟨tip.hash, tip.hash, [⟨tip, none⟩]⟩

/-- The chain with a block after its tip. -/
def withTip (newTip : BlockHeader) : Chain :=
  { c with
    tip := newTip.hash
    blocks := insert ⟨newTip, none⟩ (setNext c.tip (some newTip.hash) c.blocks) }

/-- `append`. -/
def append (newTip : BlockHeader) : Option (Chain × Except ChainError Unit) :=
  if newTip.prev ≠ c.tip then some (c, .error .invalidChain)
  else (c.get c.tip).map (fun _ => (c.withTip newTip, .ok ()))

/-- `base`. -/
def baseHeader : Option BlockHeader := (c.get c.base).map BlockInfo.header

/-- `tip`. -/
def tipHeader : Option BlockHeader := (c.get c.tip).map BlockInfo.header

/-- `contains_block`. -/
def containsBlock (hash : BlockHash) : Bool := (c.get hash).isSome

/-- `get_block`. -/
def getBlock (hash : BlockHash) : Except ChainError BlockHeader :=
  match c.get hash with
  | some block => .ok block.header
  | none => .error .blockNotFound

/-- The chain with a block before the header of its base. -/
def withBase (base oldBase : BlockHeader) : Chain :=
  { c with
    base := base.hash
    blocks := insert ⟨base, some oldBase.hash⟩ c.blocks }

/-- `prepend`. -/
def prepend (base : BlockHeader) : Option (Chain × Except ChainError Unit) :=
  (c.get c.base).map (fun oldBase =>
    if oldBase.header.prev ≠ base.hash then (c, .error .invalidChain)
    else (c.withBase base oldBase.header, .ok ()))

/-- The loop of `rebase`, which goes down the other chain to its base. It takes at
most as many turns as the other chain has entries, or it does not end. -/
def rebaseFrom (other : Chain) : ℕ → BlockHeader → Chain →
    Option (Chain × Except ChainError Unit)
  | 0, _, _ => none
  | n + 1, nextBlock, c =>
    if nextBlock.hash = other.base then some (c, .ok ())
    else
      match other.getBlock nextBlock.prev with
      | .error e => some (c, .error e)
      | .ok currentBlock =>
        match c.prepend currentBlock with
        | none => none
        | some (c', .error e) => some (c', .error e)
        | some (c', .ok ()) => rebaseFrom other n currentBlock c'

/-- `rebase`. -/
def rebase (other : Chain) : Option (Chain × Except ChainError Unit) :=
  c.baseHeader.bind (fun nextBlock =>
    rebaseFrom other (other.blocks.length + 1) nextBlock c)

/-- A loop over headers that stops at the first error. -/
def forEach (op : Chain → BlockHeader → Option (Chain × Except ChainError Unit)) :
    List BlockHeader → Chain → Option (Chain × Except ChainError Unit)
  | [], c => some (c, .ok ())
  | h :: hs, c =>
    match op c h with
    | none => none
    | some (c', .ok ()) => forEach op hs c'
    | some (c', .error e) => some (c', .error e)

/-- What a forward iterator yields from an entry on. It yields at most as many
headers as there are entries, or it does not end. -/
def forwardsFrom : ℕ → BlockInfo → Option (List BlockHeader)
  | 0, _ => none
  | n + 1, current =>
    match current.next with
    | none => some [current.header]
    | some next => do
      let info ← c.get next
      let rest ← forwardsFrom n info
      some (current.header :: rest)

/-- `iter_forwards`, run to its end. -/
def iterForwards : Option (List BlockHeader) := do
  let current ← c.get c.base
  c.forwardsFrom c.blocks.length current

/-- What a backward iterator yields from an entry on. -/
def backwardsFrom : ℕ → BlockInfo → Option (List BlockHeader)
  | 0, _ => none
  | n + 1, current =>
    if current.hash = c.base then some [current.header]
    else do
      let info ← c.get current.header.prev
      let rest ← backwardsFrom n info
      some (current.header :: rest)

/-- `iter_backwards`, run to its end. -/
def iterBackwards : Option (List BlockHeader) := do
  let current ← c.get c.tip
  c.backwardsFrom c.blocks.length current

/-- The loop of `retip` that removes the blocks after its new tip. -/
def removeFrom : ℕ → Option BlockHash → List BlockInfo → Option (List BlockInfo)
  | _, none, blocks => some blocks
  | 0, some _, _ => none
  | n + 1, some hash, blocks => do
    let info ← blocks.find? (fun b => b.hash = hash)
    removeFrom n info.next (remove hash blocks)

/-- `retip`. -/
def retip (other : Chain) : Option (Chain × Except ChainError Unit) :=
  match c.get other.base with
  | none => some (c, .error .blockNotFound)
  | some tip => do
    let blocks ← removeFrom c.blocks.length tip.next (setNext other.base none c.blocks)
    let headers ← other.iterForwards
    forEach append (headers.drop 1) { c with tip := tip.hash, blocks := blocks }

/-- `Chain::try_from`. -/
def tryFrom : List BlockHeader → Option (Except ChainError Chain)
  | [] => some (.error .emptyChain)
  | tip :: headers =>
    (forEach prepend headers (new tip)).map (fun r => r.2.map (fun _ => r.1))

end Chain

/-! ## Chains as lists -/

/-- Each header of a list follows the one before it. -/
def Linked (hs : List BlockHeader) : Prop := hs.IsChain (fun a b => b.prev = a.hash)

/-- The entries of a list of headers, the last of which is followed by a block
or by none. -/
def infosFrom (last : Option BlockHash) : List BlockHeader → List BlockInfo
  | [] => []
  | h :: hs => ⟨h, (hs.head?.map BlockHeader.hash).or last⟩ :: infosFrom last hs

@[simp] theorem infosFrom_nil (last : Option BlockHash) : infosFrom last [] = [] := rfl

@[simp] theorem map_header_infosFrom (last : Option BlockHash) (hs : List BlockHeader) :
    (infosFrom last hs).map BlockInfo.header = hs := by
  induction hs with
  | nil => rfl
  | cons h hs ih => rw [infosFrom, List.map_cons, ih]

theorem map_hash_infosFrom (last : Option BlockHash) (hs : List BlockHeader) :
    (infosFrom last hs).map BlockInfo.hash = hs.map BlockHeader.hash := by
  rw [show BlockInfo.hash = BlockHeader.hash ∘ BlockInfo.header from rfl, ← List.map_map,
    map_header_infosFrom]

@[simp] theorem length_infosFrom (last : Option BlockHash) (hs : List BlockHeader) :
    (infosFrom last hs).length = hs.length := by
  rw [← List.length_map (f := BlockInfo.header), map_header_infosFrom]

theorem infosFrom_append (last : Option BlockHash) (hs ks : List BlockHeader) :
    infosFrom last (hs ++ ks)
      = infosFrom ((ks.head?.map BlockHeader.hash).or last) hs ++ infosFrom last ks := by
  induction hs with
  | nil => rfl
  | cons h hs ih =>
    rw [List.cons_append, infosFrom, infosFrom, ih, List.cons_append]
    cases hs with
    | nil => rw [List.nil_append, List.head?_nil, Option.map_none, Option.none_or]
    | cons k hs => rfl

namespace Chain

variable {c : Chain} {hs : List BlockHeader}

/-- **A chain stands for a list of headers**, from its base to its tip. -/
structure Represents (c : Chain) (hs : List BlockHeader) : Prop where
  blocks : c.blocks.Perm (infosFrom none hs)
  base : hs.head?.map BlockHeader.hash = some c.base
  tip : hs.getLast?.map BlockHeader.hash = some c.tip
  linked : Linked hs
  nodup : (hs.map BlockHeader.hash).Nodup

/-! ## Reading the map -/

theorem remove_of_notMem {blocks : List BlockInfo} {hash : BlockHash}
    (h : hash ∉ blocks.map BlockInfo.hash) : remove hash blocks = blocks := by
  refine List.filter_eq_self.mpr (fun b hb => decide_eq_true ?_)
  exact fun heq => h (heq ▸ List.mem_map_of_mem hb)

namespace Represents

variable (h : c.Represents hs)

include h

theorem nodup_blocks : (c.blocks.map BlockInfo.hash).Nodup := by
  rw [(h.blocks.map _).nodup_iff, map_hash_infosFrom]
  exact h.nodup

theorem get_eq_some_iff {hash : BlockHash} {b : BlockInfo} :
    c.get hash = some b ↔ b ∈ infosFrom none hs ∧ b.hash = hash := by
  rw [get, Table.find?_key_eq_some_iff h.nodup_blocks, h.blocks.mem_iff]

/-- The entry of a header. -/
theorem get_of_eq {hash : BlockHash} {ps rs : List BlockHeader} {x : BlockHeader}
    (heq : hs = ps ++ x :: rs) (hhash : x.hash = hash) :
    c.get hash = some ⟨x, rs.head?.map BlockHeader.hash⟩ := by
  rw [h.get_eq_some_iff, heq, infosFrom_append]
  refine ⟨List.mem_append_right _ ?_, hhash⟩
  rw [infosFrom, Option.or_none]
  exact List.mem_cons_self

theorem ne_nil : hs ≠ [] := by
  rintro rfl
  cases h.base

/-- The last header is the tip. -/
theorem hash_last {ps : List BlockHeader} {t : BlockHeader} (heq : hs = ps ++ [t]) :
    t.hash = c.tip := by
  have htip := h.tip
  rw [heq, List.getLast?_concat] at htip
  exact Option.some.inj htip

/-- The hash of the last header occurs only there. -/
theorem last_notMem {ps : List BlockHeader} {t : BlockHeader} (heq : hs = ps ++ [t]) :
    t.hash ∉ ps.map BlockHeader.hash := by
  have hnodup := h.nodup
  rw [heq, List.map_append, List.nodup_append] at hnodup
  exact fun hmem => hnodup.2.2 _ hmem _ (List.mem_singleton_self _) rfl

/-- **The base.** -/
theorem baseHeader_eq : c.baseHeader = hs.head? := by
  cases hs with
  | nil => exact absurd rfl h.ne_nil
  | cons x rs =>
    rw [baseHeader, h.get_of_eq (List.nil_append _).symm (Option.some.inj h.base)]
    rfl

/-- **The tip.** -/
theorem tipHeader_eq : c.tipHeader = hs.getLast? := by
  obtain ⟨ps, t, rfl⟩ := (List.eq_nil_or_concat' hs).resolve_left h.ne_nil
  rw [List.getLast?_concat, tipHeader, h.get_of_eq rfl (h.hash_last rfl)]
  rfl

/-- **Membership.** -/
theorem containsBlock_iff {hash : BlockHash} :
    c.containsBlock hash ↔ hash ∈ hs.map BlockHeader.hash := by
  rw [containsBlock, Option.isSome_iff_exists, ← map_hash_infosFrom none hs, List.mem_map]
  exact exists_congr (fun b => h.get_eq_some_iff)

end Represents

/-! ## The operations on lists -/

/-- **A new chain** is one header. -/
theorem represents_new (x : BlockHeader) : (new x).Represents [x] where
  blocks := List.Perm.refl _
  base := rfl
  tip := rfl
  linked := List.IsChain.singleton x
  nodup := List.nodup_singleton _

theorem setNext_of_notMem {blocks : List BlockInfo} {hash : BlockHash} {next : Option BlockHash}
    (h : hash ∉ blocks.map BlockInfo.hash) : setNext hash next blocks = blocks := by
  refine (List.map_congr_left (fun b hb => ?_)).trans (List.map_id blocks)
  exact if_neg (fun heq : b.hash = hash => h (heq ▸ List.mem_map_of_mem hb))

/-- Setting the next block of the last of a list of headers. -/
theorem setNext_infosFrom {ps : List BlockHeader} {x : BlockHeader} {last next : Option BlockHash}
    (h : x.hash ∉ ps.map BlockHeader.hash) :
    setNext x.hash next (infosFrom last (ps ++ [x])) = infosFrom next (ps ++ [x]) := by
  have hps : setNext x.hash next (infosFrom (some x.hash) ps) = infosFrom (some x.hash) ps := by
    refine setNext_of_notMem ?_
    rw [map_hash_infosFrom]
    exact h
  rw [infosFrom_append, infosFrom_append, setNext, List.map_append]
  refine congrArg₂ (· ++ ·) hps ?_
  exact congrArg (fun b => [b]) (if_pos rfl)

/-- A new entry under a new key. -/
theorem insert_of_notMem {info : BlockInfo} {blocks : List BlockInfo}
    (h : info.hash ∉ blocks.map BlockInfo.hash) : insert info blocks = info :: blocks :=
  congrArg (info :: ·) (remove_of_notMem h)

/-- **Appending is `snoc`**, for a header that follows the tip and is new. -/
theorem Represents.append {x : BlockHeader} (h : c.Represents hs) (hprev : x.prev = c.tip)
    (hnew : x.hash ∉ hs.map BlockHeader.hash) :
    c.append x = some (c.withTip x, .ok ()) ∧ (c.withTip x).Represents (hs ++ [x]) := by
  obtain ⟨ps, t, rfl⟩ := (List.eq_nil_or_concat' hs).resolve_left h.ne_nil
  have htip : t.hash = c.tip := h.hash_last rfl
  have hget := h.get_of_eq rfl htip
  have ht : t.hash ∉ ps.map BlockHeader.hash := h.last_notMem rfl
  -- The entries, with that of the old tip changed.
  have hset : (setNext c.tip (some x.hash) c.blocks).Perm
      (infosFrom (some x.hash) (ps ++ [t])) := by
    rw [← @setNext_infosFrom ps t none (some x.hash) ht, htip]
    exact h.blocks.map _
  constructor
  · rw [Chain.append, if_neg (not_not_intro hprev), hget]
    rfl
  · constructor
    · show (insert ⟨x, none⟩ (setNext c.tip (some x.hash) c.blocks)).Perm _
      rw [insert_of_notMem]
      · rw [infosFrom_append]
        exact (hset.cons _).trans (List.perm_append_singleton _ _).symm
      · rw [(hset.map _).mem_iff, map_hash_infosFrom]
        exact hnew
    · rw [List.head?_append_of_ne_nil _ h.ne_nil]
      exact h.base
    · rw [List.getLast?_concat]
      rfl
    · refine List.isChain_append.mpr ⟨h.linked, List.IsChain.singleton x, fun a ha b hb => ?_⟩
      rw [List.getLast?_concat] at ha
      rw [← Option.some.inj ha, ← Option.some.inj hb, hprev, htip]
    · rw [List.map_append]
      refine List.nodup_append.mpr ⟨h.nodup, List.nodup_singleton _, ?_⟩
      intro k hk k' hk' heq
      rw [List.map_singleton, List.mem_singleton] at hk'
      exact hnew (hk' ▸ heq ▸ hk)

/-- **Prepending is `cons`**, for a header that the base follows and that is
new. -/
theorem Represents.prepend {x b : BlockHeader} {rs : List BlockHeader}
    (h : c.Represents (b :: rs)) (hprev : b.prev = x.hash)
    (hnew : x.hash ∉ (b :: rs).map BlockHeader.hash) :
    c.prepend x = some (c.withBase x b, .ok ()) ∧
      (c.withBase x b).Represents (x :: b :: rs) := by
  have hget := h.get_of_eq (List.nil_append _).symm (Option.some.inj h.base)
  have hx : x.hash ∉ c.blocks.map BlockInfo.hash := by
    rw [(h.blocks.map _).mem_iff, map_hash_infosFrom]
    exact hnew
  constructor
  · rw [Chain.prepend, hget, Option.map_some, if_neg (not_not_intro hprev)]
  · constructor
    · show (insert ⟨x, some b.hash⟩ c.blocks).Perm _
      rw [insert_of_notMem hx]
      exact h.blocks.cons _
    · rfl
    · rw [List.getLast?_cons_cons]
      exact h.tip
    · exact List.isChain_cons_cons.mpr ⟨hprev, h.linked⟩
    · exact List.nodup_cons.mpr ⟨hnew, h.nodup⟩

/-- A header that does not follow the tip is refused. -/
theorem Represents.append_invalid {x : BlockHeader} (h : c.Represents hs)
    (hprev : hs.getLast?.map BlockHeader.hash ≠ some x.prev) :
    c.append x = some (c, .error .invalidChain) := by
  rw [h.tip] at hprev
  exact if_pos (fun heq => hprev (congrArg some heq.symm))

/-- A header that the base does not follow is refused. -/
theorem Represents.prepend_invalid {x b : BlockHeader} {rs : List BlockHeader}
    (h : c.Represents (b :: rs)) (hprev : b.prev ≠ x.hash) :
    c.prepend x = some (c, .error .invalidChain) := by
  rw [Chain.prepend, h.get_of_eq (List.nil_append _).symm (Option.some.inj h.base),
    Option.map_some, if_pos hprev]

/-! ## Iterating -/

theorem forwardsFrom_eq (h : c.Represents hs) {ps rs : List BlockHeader} {x : BlockHeader}
    (heq : hs = ps ++ x :: rs) {n : ℕ} (hn : rs.length < n) :
    c.forwardsFrom n ⟨x, rs.head?.map BlockHeader.hash⟩ = some (x :: rs) := by
  induction rs generalizing ps x n with
  | nil =>
    obtain ⟨n, rfl⟩ := Nat.exists_eq_add_one_of_ne_zero (Nat.ne_zero_of_lt hn)
    rfl
  | cons y rs ih =>
    obtain ⟨n, rfl⟩ := Nat.exists_eq_add_one_of_ne_zero (Nat.ne_zero_of_lt hn)
    have hsplit : hs = (ps ++ [x]) ++ y :: rs := by
      rw [heq, List.append_assoc, List.singleton_append]
    have hget := h.get_of_eq hsplit rfl
    simp only [forwardsFrom, List.head?_cons, Option.map_some, hget, Option.bind_eq_bind,
      Option.bind_some]
    rw [ih hsplit (Nat.lt_of_succ_lt_succ hn)]
    rfl

/-- **A forward iterator yields the list.** -/
theorem Represents.iterForwards_eq (h : c.Represents hs) : c.iterForwards = some hs := by
  obtain ⟨b, rs, rfl⟩ := List.exists_cons_of_ne_nil h.ne_nil
  have hget := h.get_of_eq (List.nil_append _).symm (Option.some.inj h.base)
  rw [iterForwards, hget, Option.bind_eq_bind, Option.bind_some]
  refine forwardsFrom_eq h (List.nil_append _).symm ?_
  rw [h.blocks.length_eq, length_infosFrom]
  exact Nat.lt_succ_self _

theorem backwardsFrom_eq (h : c.Represents hs) {ps rs : List BlockHeader} {x : BlockHeader}
    {next : Option BlockHash} (heq : hs = ps ++ x :: rs) {n : ℕ} (hn : ps.length < n) :
    c.backwardsFrom n ⟨x, next⟩ = some ((ps ++ [x]).reverse) := by
  induction ps using List.reverseRecOn generalizing x next rs n with
  | nil =>
    obtain ⟨n, rfl⟩ := Nat.exists_eq_add_one_of_ne_zero (Nat.ne_zero_of_lt hn)
    have hbase : x.hash = c.base := by
      have := h.base
      rw [heq] at this
      exact Option.some.inj this
    rw [backwardsFrom, if_pos (show BlockInfo.hash ⟨x, next⟩ = c.base from hbase)]
    rfl
  | append_singleton ps y ih =>
    obtain ⟨n, rfl⟩ := Nat.exists_eq_add_one_of_ne_zero (Nat.ne_zero_of_lt hn)
    have hsplit : hs = ps ++ y :: x :: rs := by
      rw [heq, List.append_assoc, List.singleton_append]
    have hbase : ∃ b ∈ ps ++ [y], b.hash = c.base := by
      have := h.base
      rw [heq, List.head?_append_of_ne_nil _ (List.append_ne_nil_of_right_ne_nil ps (List.cons_ne_nil y []))] at this
      obtain ⟨b, hb, hhash⟩ := Option.map_eq_some_iff.mp this
      exact ⟨b, List.mem_of_mem_head? hb, hhash⟩
    have hne : ¬ BlockInfo.hash ⟨x, next⟩ = c.base := by
      intro hx
      obtain ⟨b, hb, hhash⟩ := hbase
      have hnodup := h.nodup
      rw [heq, List.map_append, List.nodup_append] at hnodup
      exact hnodup.2.2 _ (List.mem_map_of_mem hb) _ (List.mem_map_of_mem List.mem_cons_self)
        (hhash.trans hx.symm)
    have hprev : y.hash = x.prev := by
      have hlinked := h.linked
      rw [hsplit] at hlinked
      exact (List.isChain_cons_cons.mp (List.IsChain.right_of_append hlinked)).1.symm
    have hlen : ps.length < n := by
      rw [List.length_append, List.length_singleton] at hn
      exact Nat.lt_of_succ_lt_succ hn
    rw [backwardsFrom, if_neg hne]
    show (c.get x.prev >>= fun info => c.backwardsFrom n info >>= fun rest =>
      some (x :: rest)) = _
    rw [h.get_of_eq hsplit hprev, Option.bind_eq_bind, Option.bind_some, ih hsplit hlen,
      @List.reverse_append _ (ps ++ [y])]
    rfl

/-- **A backward iterator yields the list reversed.** -/
theorem Represents.iterBackwards_eq (h : c.Represents hs) :
    c.iterBackwards = some hs.reverse := by
  obtain ⟨ps, t, rfl⟩ := (List.eq_nil_or_concat' hs).resolve_left h.ne_nil
  rw [iterBackwards, h.get_of_eq rfl (h.hash_last rfl), Option.bind_eq_bind, Option.bind_some]
  refine backwardsFrom_eq h rfl ?_
  rw [h.blocks.length_eq, length_infosFrom, List.length_append, List.length_singleton]
  exact Nat.lt_succ_self _

/-! ## Moving the tip -/

/-- The loop that removes blocks leaves those before them. -/
theorem removeFrom_eq {ps rs : List BlockHeader} {last : Option BlockHash}
    {blocks : List BlockInfo}
    (hblocks : blocks.Perm (infosFrom last ps ++ infosFrom none rs))
    (hnodup : ((ps ++ rs).map BlockHeader.hash).Nodup) {n : ℕ} (hn : rs.length ≤ n) :
    ∃ blocks', removeFrom n (rs.head?.map BlockHeader.hash) blocks = some blocks' ∧
      blocks'.Perm (infosFrom last ps) := by
  induction rs generalizing blocks n with
  | nil =>
    rw [infosFrom_nil, List.append_nil] at hblocks
    cases n <;> exact ⟨blocks, rfl, hblocks⟩
  | cons x rs ih =>
    obtain ⟨n, rfl⟩ := Nat.exists_eq_add_one_of_ne_zero
      (Nat.ne_zero_of_lt (Nat.lt_of_lt_of_le (Nat.succ_pos _) hn))
    have hkeys : (blocks.map BlockInfo.hash).Nodup := by
      rw [(hblocks.map _).nodup_iff, List.map_append, map_hash_infosFrom, map_hash_infosFrom,
        ← List.map_append]
      exact hnodup
    have hperm : blocks.Perm
        (⟨x, rs.head?.map BlockHeader.hash⟩ :: (infosFrom last ps ++ infosFrom none rs)) := by
      refine hblocks.trans ?_
      rw [infosFrom, Option.or_none]
      exact List.perm_middle
    have hfind : blocks.find? (fun b => b.hash = x.hash)
        = some ⟨x, rs.head?.map BlockHeader.hash⟩ := by
      rw [Table.find?_key_eq_some_iff hkeys, hperm.mem_iff]
      exact ⟨List.mem_cons_self, rfl⟩
    have hnodup' : (x.hash :: (ps ++ rs).map BlockHeader.hash).Nodup := by
      rw [List.map_append, List.map_cons] at hnodup
      rw [List.map_append]
      exact List.perm_middle.nodup_iff.mp hnodup
    have hremove : (remove x.hash blocks).Perm (infosFrom last ps ++ infosFrom none rs) := by
      refine (hperm.filter _).trans ?_
      rw [List.filter_cons_of_neg (by simp [BlockInfo.hash])]
      refine List.Perm.of_eq (remove_of_notMem ?_)
      rw [List.map_append, map_hash_infosFrom, map_hash_infosFrom, ← List.map_append]
      exact (List.nodup_cons.mp hnodup').1
    obtain ⟨blocks', hblocks', hperm'⟩ :=
      ih hremove (List.nodup_cons.mp hnodup').2 (Nat.le_of_succ_le_succ hn)
    refine ⟨blocks', ?_, hperm'⟩
    rw [List.head?_cons, Option.map_some, removeFrom, hfind, Option.bind_eq_bind,
      Option.bind_some]
    exact hblocks'

/-- A list of headers that follow the tip one after the other is appended. -/
theorem Represents.forEach_append {xs : List BlockHeader} (h : c.Represents hs)
    (hlinked : Linked (hs ++ xs)) (hnodup : ((hs ++ xs).map BlockHeader.hash).Nodup) :
    ∃ c', forEach Chain.append xs c = some (c', .ok ()) ∧ c'.Represents (hs ++ xs) := by
  induction xs generalizing c hs with
  | nil => exact ⟨c, rfl, by rwa [List.append_nil]⟩
  | cons x xs ih =>
    obtain ⟨ps, t, rfl⟩ := (List.eq_nil_or_concat' hs).resolve_left h.ne_nil
    have hprev : x.prev = c.tip := by
      rw [List.append_assoc] at hlinked
      rw [← h.hash_last rfl]
      exact (List.isChain_cons_cons.mp (List.IsChain.right_of_append hlinked)).1
    have hnew : x.hash ∉ (ps ++ [t]).map BlockHeader.hash := by
      rw [List.map_append] at hnodup
      intro hmem
      exact (List.nodup_append.mp hnodup).2.2 _ hmem _ List.mem_cons_self rfl
    obtain ⟨happend, hrep⟩ := h.append hprev hnew
    have hsplit : ps ++ [t] ++ x :: xs = ps ++ [t] ++ [x] ++ xs := List.append_cons ..
    rw [hsplit] at hlinked hnodup ⊢
    obtain ⟨c', hc', hrep'⟩ := ih hrep hlinked hnodup
    refine ⟨c', ?_, hrep'⟩
    rw [forEach, happend]
    exact hc'

/-- **Moving the tip**: what comes after the base of the other chain is
replaced by what the other chain has there. -/
theorem Represents.retip {other : Chain} {ps rs os : List BlockHeader} {x : BlockHeader}
    (h : c.Represents (ps ++ x :: rs)) (hother : other.Represents (x :: os))
    (hnew : ∀ y ∈ os, y.hash ∉ ps.map BlockHeader.hash) :
    ∃ c', c.retip other = some (c', .ok ()) ∧ c'.Represents (ps ++ x :: os) := by
  have hx : x.hash = other.base := Option.some.inj hother.base
  have hget := h.get_of_eq rfl hx
  have hnodup := h.nodup
  rw [List.append_cons, List.map_append, List.nodup_append] at hnodup
  have hlast : x.hash ∉ ps.map BlockHeader.hash := by
    have hps := hnodup.1
    rw [List.map_append, List.nodup_append] at hps
    exact fun hmem => hps.2.2 _ hmem _ (List.mem_singleton_self _) rfl
  -- The entries once the new tip has no next block, and once the rest is gone.
  have hset : (setNext other.base none c.blocks).Perm
      (infosFrom none (ps ++ [x]) ++ infosFrom none rs) := by
    have hrs : setNext x.hash none (infosFrom none rs) = infosFrom none rs := by
      refine setNext_of_notMem ?_
      rw [map_hash_infosFrom]
      intro hmem
      exact hnodup.2.2 _ (List.mem_map_of_mem
        (List.mem_append_right ps (List.mem_singleton_self x))) _ hmem rfl
    have hperm := h.blocks.map
      (fun b => if b.hash = other.base then { b with next := none } else b)
    refine hperm.trans (List.Perm.of_eq ?_)
    rw [List.append_cons, infosFrom_append, List.map_append, ← hx]
    exact congrArg₂ (· ++ ·) (setNext_infosFrom hlast) hrs
  have hlen : rs.length ≤ c.blocks.length := by
    rw [h.blocks.length_eq, length_infosFrom, List.length_append, List.length_cons]
    omega
  have hnodup' : ((ps ++ [x] ++ rs).map BlockHeader.hash).Nodup := by
    rw [← List.append_cons]
    exact h.nodup
  obtain ⟨blocks, hblocks, hperm⟩ := removeFrom_eq hset hnodup' hlen
  have hcut : Chain.Represents { c with tip := x.hash, blocks := blocks } (ps ++ [x]) := by
    refine ⟨hperm, ?_, ?_, ?_, hnodup.1⟩
    · have hbase := h.base
      cases ps <;> exact hbase
    · rw [List.getLast?_concat]
      rfl
    · have hlinked := h.linked
      rw [List.append_cons] at hlinked
      exact List.IsChain.left_of_append hlinked
  have hlinked : Linked (ps ++ [x] ++ os) := by
    rw [← List.append_cons]
    exact List.isChain_split.mpr ⟨hcut.linked, hother.linked⟩
  have hnodups : ((ps ++ [x] ++ os).map BlockHeader.hash).Nodup := by
    rw [← List.append_cons, List.map_append]
    have hps := hnodup.1
    rw [List.map_append] at hps
    refine List.nodup_append.mpr ⟨(List.nodup_append.mp hps).1, hother.nodup, ?_⟩
    intro k hk k' hk' heq
    rcases List.mem_cons.mp hk' with rfl | hk'
    · exact hlast (heq ▸ hk)
    · obtain ⟨y, hy, rfl⟩ := List.mem_map.mp hk'
      exact hnew y hy (heq ▸ hk)
  obtain ⟨c', hc', hrep⟩ := hcut.forEach_append hlinked hnodups
  refine ⟨c', ?_, ?_⟩
  · simp only [Chain.retip, hget, hblocks, hother.iterForwards_eq, Option.bind_eq_bind,
      Option.bind_some, List.drop_succ_cons, List.drop_zero]
    exact hc'
  · rwa [List.append_cons]

/-! ## Moving the base -/

/-- The header of a block of the chain. -/
theorem Represents.getBlock_of_eq {ps rs : List BlockHeader} {x : BlockHeader}
    (h : c.Represents hs) (heq : hs = ps ++ x :: rs) : c.getBlock x.hash = .ok x := by
  rw [getBlock, h.get_of_eq heq rfl]

/-- A block that is not in the chain. -/
theorem Represents.getBlock_of_notMem {hash : BlockHash} (h : c.Represents hs)
    (hhash : hash ∉ hs.map BlockHeader.hash) : c.getBlock hash = .error .blockNotFound := by
  have hnone : c.get hash = none := by
    rw [← Option.not_isSome_iff_eq_none]
    exact fun hsome => hhash (h.containsBlock_iff.mp hsome)
  rw [getBlock, hnone]

/-- The loop of `rebase` prepends what is left of the other chain. -/
theorem Represents.rebaseFrom_eq {other : Chain} {os ps qs rs : List BlockHeader}
    {b : BlockHeader} (hother : other.Represents os) (hos : os = ps ++ qs)
    (h : c.Represents (b :: rs)) (hbase : ps = [] → b.hash = other.base)
    (hlinked : Linked (ps ++ b :: rs)) (hnodup : ((ps ++ b :: rs).map BlockHeader.hash).Nodup)
    {n : ℕ} (hn : ps.length < n) :
    ∃ c', rebaseFrom other n b c = some (c', .ok ()) ∧ c'.Represents (ps ++ b :: rs) := by
  induction ps using List.reverseRecOn generalizing c b rs qs n with
  | nil =>
    obtain ⟨n, rfl⟩ := Nat.exists_eq_add_one_of_ne_zero (Nat.ne_zero_of_lt hn)
    exact ⟨c, if_pos (hbase rfl), h⟩
  | append_singleton ps p ih =>
    obtain ⟨n, rfl⟩ := Nat.exists_eq_add_one_of_ne_zero (Nat.ne_zero_of_lt hn)
    rw [List.append_assoc, List.singleton_append] at hlinked hnodup hos ⊢
    have hprev : b.prev = p.hash :=
      (List.isChain_cons_cons.mp (List.IsChain.right_of_append hlinked)).1
    -- The base of the other chain is still to come.
    have hhead : (ps ++ [p]).head?.map BlockHeader.hash = some other.base := by
      rw [← hother.base, hos]
      cases ps <;> rfl
    have hne : ¬ b.hash = other.base := by
      intro heq
      obtain ⟨x, hx, hhash⟩ := Option.map_eq_some_iff.mp hhead
      rw [List.append_cons, List.map_append] at hnodup
      exact (List.nodup_append.mp hnodup).2.2 _ (List.mem_map_of_mem (List.mem_of_mem_head? hx))
        _ List.mem_cons_self (hhash.trans heq.symm)
    have hnew : p.hash ∉ (b :: rs).map BlockHeader.hash := by
      rw [List.map_append] at hnodup
      exact (List.nodup_cons.mp (List.nodup_append.mp hnodup).2.1).1
    obtain ⟨hprepend, hrep⟩ := h.prepend hprev hnew
    have hbase' : ps = [] → p.hash = other.base := by
      rintro rfl
      exact Option.some.inj hhead
    have hlen : ps.length < n := by
      rw [List.length_append, List.length_singleton] at hn
      exact Nat.lt_of_succ_lt_succ hn
    obtain ⟨c', hc', hrep'⟩ := ih hos hrep hbase' hlinked hnodup hlen
    refine ⟨c', ?_, hrep'⟩
    rw [rebaseFrom, if_neg hne, hprev, hother.getBlock_of_eq hos]
    simp only [hprepend, hc']

/-- **Moving the base**: what the other chain has up to the block before the
base is prepended. -/
theorem Represents.rebase {other : Chain} {os ps qs rs : List BlockHeader} {b : BlockHeader}
    (h : c.Represents (b :: rs)) (hother : other.Represents os) (hos : os = ps ++ qs)
    (hbase : ps = [] → b.hash = other.base) (hlinked : Linked (ps ++ b :: rs))
    (hnodup : ((ps ++ b :: rs).map BlockHeader.hash).Nodup) :
    ∃ c', c.rebase other = some (c', .ok ()) ∧ c'.Represents (ps ++ b :: rs) := by
  have hlen : ps.length < other.blocks.length + 1 := by
    rw [hother.blocks.length_eq, length_infosFrom, hos, List.length_append]
    omega
  rw [Chain.rebase, h.baseHeader_eq, List.head?_cons, Option.bind_some]
  exact hother.rebaseFrom_eq hos h hbase hlinked hnodup hlen

/-- A chain that is not on top of the other one is left alone. -/
theorem Represents.rebase_notFound {other : Chain} {os rs : List BlockHeader} {b : BlockHeader}
    (h : c.Represents (b :: rs)) (hother : other.Represents os) (hbase : b.hash ≠ other.base)
    (hprev : b.prev ∉ os.map BlockHeader.hash) :
    c.rebase other = some (c, .error .blockNotFound) := by
  rw [Chain.rebase, h.baseHeader_eq, List.head?_cons, Option.bind_some, rebaseFrom,
    if_neg hbase, hother.getBlock_of_notMem hprev]

/-! ## Reading a chain back -/

/-- A tip on a block that is not in the chain is refused. -/
theorem Represents.retip_notFound {other : Chain} (h : c.Represents hs)
    (hbase : other.base ∉ hs.map BlockHeader.hash) :
    c.retip other = some (c, .error .blockNotFound) := by
  have hnone : c.get other.base = none := by
    rw [← Option.not_isSome_iff_eq_none]
    exact fun hsome => hbase (h.containsBlock_iff.mp hsome)
  rw [Chain.retip, hnone]

/-- A list of headers, each the one before the last, is prepended. -/
theorem Represents.forEach_prepend {xs : List BlockHeader} (h : c.Represents hs)
    (hlinked : Linked (xs.reverse ++ hs))
    (hnodup : ((xs.reverse ++ hs).map BlockHeader.hash).Nodup) :
    ∃ c', forEach Chain.prepend xs c = some (c', .ok ()) ∧ c'.Represents (xs.reverse ++ hs) := by
  induction xs generalizing c hs with
  | nil => exact ⟨c, rfl, h⟩
  | cons x xs ih =>
    obtain ⟨b, rs, rfl⟩ := List.exists_cons_of_ne_nil h.ne_nil
    rw [List.reverse_cons, List.append_assoc, List.singleton_append] at hlinked hnodup
    have hright := List.IsChain.right_of_append hlinked
    have hnew : x.hash ∉ (b :: rs).map BlockHeader.hash := by
      rw [List.map_append, List.nodup_append] at hnodup
      exact (List.nodup_cons.mp hnodup.2.1).1
    obtain ⟨hprepend, hrep⟩ := h.prepend (List.isChain_cons_cons.mp hright).1 hnew
    obtain ⟨c', hc', hrep'⟩ := ih hrep hlinked hnodup
    refine ⟨c', ?_, ?_⟩
    · rw [forEach, hprepend]
      exact hc'
    · rw [List.reverse_cons, List.append_assoc, List.singleton_append]
      exact hrep'

/-- **A chain is read back** from its headers, the tip first. -/
theorem tryFrom_reverse {hs : List BlockHeader} (hne : hs ≠ []) (hlinked : Linked hs)
    (hnodup : (hs.map BlockHeader.hash).Nodup) :
    ∃ c, tryFrom hs.reverse = some (.ok c) ∧ c.Represents hs := by
  obtain ⟨ps, t, rfl⟩ := (List.eq_nil_or_concat' hs).resolve_left hne
  have hsplit : ps ++ [t] = ps.reverse.reverse ++ [t] := by rw [List.reverse_reverse]
  rw [hsplit] at hlinked hnodup
  obtain ⟨c, hc, hrep⟩ := (represents_new t).forEach_prepend hlinked hnodup
  refine ⟨c, ?_, ?_⟩
  · rw [List.reverse_append, List.reverse_singleton, List.singleton_append, tryFrom, hc]
    rfl
  · rwa [hsplit]

end Chain

end Swapd
