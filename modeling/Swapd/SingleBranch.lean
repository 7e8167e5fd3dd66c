import Swapd.ConcurrentSyncs

/-!
# Two syncs on one branch

Without a reorganisation every tip that is read descends from what is stored and from
the tips that were read before (`noReorg`). So all of these are on one branch of the
tree. A sync meets the chain it has in memory at its tip then, and undoes nothing; and
it puts each block above its parent, where the branch has no other block. So every
write keeps to the tip, however the calls of the two syncs interleave.

The main result is `syncs_keepOneChain`. A reorganisation may leave the table with two
blocks of one height (`syncs_forkTable`).
-/

namespace Swapd

open Machine (Reachable ReachableIf StepIf)

/-! ## One branch -/

namespace HeaderTree

variable {tree : HeaderTree} {x y p e : BlockHeader} {t : BlockHash} {hs ns : List BlockHeader}

/-- A block has one parent. -/
theorem rightUnique_isParent : Relator.RightUnique tree.IsParent := by
  rintro a b c ⟨h, hh, rfl⟩ ⟨h', hh', rfl⟩
  rw [hh] at hh'
  rw [Option.some.inj hh']

/-- Below a header there is its parent. -/
theorem descends_cases (hx : tree.Has x) {a : BlockHash} (h : tree.Descends x.hash a) :
    x.hash = a ∨ tree.Descends x.prev a := by
  rcases h.cases_head with heq | ⟨b, ⟨h', hh', rfl⟩, hrest⟩
  · exact Or.inl heq
  · rw [Has, hh'] at hx
    obtain rfl := Option.some.inj hx
    exact Or.inr hrest

/-- **Heights grow along a branch.** -/
theorem Descends.height_le (h : tree.Descends x.hash y.hash) (hx : tree.Has x) (hy : tree.Has y) :
    y.height.toNat ≤ x.height.toNat := by
  generalize ha : x.hash = a at h
  induction h using Relation.ReflTransGen.head_induction_on generalizing x with
  | refl => rw [hx.eq_of_hash hy ha]
  | @head a c hparent hrest ih =>
    obtain ⟨h', hh', rfl⟩ := hparent
    rw [Has, ha, hh'] at hx
    obtain rfl := Option.some.inj hx
    -- The parent is the other block, or has a parent itself.
    obtain ⟨z, hz⟩ : ∃ z, tree.header h'.prev = some z := by
      rcases hrest.cases_head with heq | ⟨-, ⟨z, hz, -⟩, -⟩
      · exact ⟨y, heq ▸ hy⟩
      · exact ⟨z, hz⟩
    have hle := ih (has_of_header hz) (tree.header_hash hz)
    have hsucc := tree.height_succ hh' hz
    omega

/-- **On one branch a block has one child.** -/
theorem eq_of_prev (hx : tree.Has x) (hy : tree.Has y) (hp : tree.Has p) (hxp : x.prev = p.hash)
    (hyp : y.prev = p.hash) (htx : tree.Descends t x.hash) (hty : tree.Descends t y.hash) :
    x = y := by
  -- The child does not descend from the other: that one is not below the parent.
  have hchild {a b : BlockHeader} (ha : tree.Has a) (hb : tree.Has b) (hap : a.prev = p.hash)
      (hbp : b.prev = p.hash) (hab : tree.Descends a.hash b.hash) : a = b := by
    rcases descends_cases ha hab with heq | hbelow
    · exact ha.eq_of_hash hb heq
    · rw [hap] at hbelow
      have hle := Descends.height_le hbelow hp hb
      have hsucc := tree.height_succ hb (show tree.header b.prev = some p from hbp ▸ hp)
      omega
  rcases Relation.ReflTransGen.total_of_right_unique rightUnique_isParent htx hty with h | h
  · exact hchild hx hy hxp hyp h
  · exact (hchild hy hx hyp hxp h).symm

/-- A header after a path. -/
theorem IsPath.concat (hpath : tree.IsPath hs) (hx : tree.Has x) (hlast : hs.getLast? = some e)
    (hprev : x.prev = e.hash) : tree.IsPath (hs ++ [x]) := by
  refine ⟨List.isChain_append.mpr ⟨hpath.1, List.IsChain.singleton x, fun a ha b hb => ?_⟩,
    fun y hy => ?_⟩
  · obtain rfl := Option.some.inj (hlast.symm.trans ha)
    obtain rfl := Option.some.inj hb
    exact hprev
  · rcases List.mem_append.mp hy with hy | hy
    · exact hpath.2 y hy
    · exact List.mem_singleton.mp hy ▸ hx

/-- The second header of a path names the first. -/
theorem IsPath.prev_of_head? (hpath : tree.IsPath (x :: ns)) (hy : y ∈ ns.head?) :
    y.prev = x.hash := by
  cases ns with
  | nil => cases hy
  | cons z ns =>
    obtain rfl := Option.some.inj hy
    exact (List.isChain_cons_cons.mp hpath.1).1

/-- **What the end of a path descends from** is on the path or below it. -/
theorem IsPath.mem_or_descends (hpath : tree.IsPath (x :: ns)) {last : BlockHeader}
    (hlast : (x :: ns).getLast? = some last) {a : BlockHash} (h : tree.Descends last.hash a) :
    a ∈ ns.map BlockHeader.hash ∨ tree.Descends x.hash a := by
  induction ns generalizing x with
  | nil =>
    obtain rfl : x = last := Option.some.inj hlast
    exact Or.inr h
  | cons y ns ih =>
    have htail : tree.IsPath (y :: ns) := right (show tree.IsPath ([x] ++ y :: ns) from hpath)
    rw [List.getLast?_cons_cons] at hlast
    rcases ih htail hlast with hmem | hy
    · exact Or.inl (List.mem_cons_of_mem _ hmem)
    · have hprev : y.prev = x.hash := (List.isChain_cons_cons.mp hpath.1).1
      rcases descends_cases (htail.2 y List.mem_cons_self) hy with rfl | hbelow
      · exact Or.inl List.mem_cons_self
      · exact Or.inr (hprev ▸ hbelow)

/-- **The branch of a tip that descends from a path** meets the path at its end. -/
theorem Branch.eq_last (hbranch : tree.Branch hs t x ns) (hpath : tree.IsPath hs)
    (hlast : hs.getLast? = some e) (hx : x.hash ∈ hs.map BlockHeader.hash)
    (h : tree.Descends t e.hash) : x = e := by
  have he : tree.Has e := hpath.2 e (List.mem_of_mem_getLast? hlast)
  have hxhas : tree.Has x := hbranch.isPath.2 x List.mem_cons_self
  obtain ⟨last, hlast', rfl⟩ := Option.map_eq_some_iff.mp hbranch.last
  rcases hbranch.isPath.mem_or_descends hlast' h with hmem | hbelow
  · obtain ⟨y, hy, hye⟩ := List.mem_map.mp hmem
    exact absurd (hye ▸ List.mem_map_of_mem (List.mem_of_mem_getLast? hlast)) (hbranch.fresh y hy)
  · have hle := Descends.height_le hbelow hxhas he
    obtain ⟨z, hz, hzx⟩ := List.mem_map.mp hx
    obtain rfl := (hpath.2 z hz).eq_of_hash hxhas hzx
    obtain ⟨rs, rfl⟩ := List.getLast?_eq_some_iff.mp hlast
    rcases List.mem_append.mp hz with hz | hz
    · have hlt := (List.pairwise_append.mp hpath.pairwise_height).2.2 z hz e
        (List.mem_singleton_self e)
      omega
    · exact List.mem_singleton.mp hz

end HeaderTree

variable {codec : ChainCodec} {source : BlockSource codec} {base : BlockHeader}

/-! ## What is on the branch -/

namespace SyncsState

/-- **All is on one branch**: what is stored, from the base, and the tips that were
read. -/
structure OnBranch (source : BlockSource codec) (base : BlockHeader) (s : SyncsState) : Prop where
  holds : source.Holds base s.tables.blocks
  branch : ∃ top, (∀ h ∈ s.tables.blocks, source.Descends top h.hash) ∧
    ∀ t ∈ s.told, source.Descends top t

/-- Blocks are stored and tips are read. -/
structure Grows (s s' : SyncsState) : Prop where
  blocks : s.tables.blocks ⊆ s'.tables.blocks
  told : s.told ⊆ s'.told

variable {s s' s'' : SyncsState} {x : BlockHeader}

theorem Grows.refl (s : SyncsState) : s.Grows s := ⟨List.Subset.refl _, List.Subset.refl _⟩

theorem Grows.trans (h : s.Grows s') (h' : s'.Grows s'') : s.Grows s'' :=
  ⟨List.Subset.trans h.blocks h'.blocks, List.Subset.trans h.told h'.told⟩

/-- **A block may be processed**: it is below a tip that was read, and is stored, or its
parent is. -/
structure Next (source : BlockSource codec) (x : BlockHeader) (s : SyncsState) : Prop where
  has : source.toHeaderTree.Has x
  told : ∃ t ∈ s.told, source.Descends t x.hash
  placed : x ∈ s.tables.blocks ∨ ∃ p ∈ s.tables.blocks, x.prev = p.hash

theorem Next.of_grows (h : s.Next source x) (hgrows : s.Grows s') : s'.Next source x where
  has := h.has
  told := h.told.imp (fun _ ht => ⟨hgrows.told ht.1, ht.2⟩)
  placed := h.placed.imp (fun hx => hgrows.blocks hx)
    (fun hp => hp.imp (fun _ hp => ⟨hgrows.blocks hp.1, hp.2⟩))

/-- **A block that is next goes to the top**, if it is not stored. -/
theorem Next.prev_eq_last (hx : s.Next source x) (h : s.OnBranch source base)
    (hnew : x ∉ s.tables.blocks) {hs : List BlockHeader} (hpath : source.IsPath hs)
    (hrows : s.tables.blocks.Perm hs) : ∃ last ∈ hs.getLast?, x.prev = last.hash := by
  obtain ⟨p, hp, hxp⟩ := hx.placed.resolve_left hnew
  obtain ⟨ps, rs, rfl⟩ := List.append_of_mem (hrows.mem_iff.mp hp)
  cases rs with
  | nil => exact ⟨p, by simp, hxp⟩
  | cons y rs =>
    -- The block above the parent is on the branch too.
    have hy : y ∈ s.tables.blocks := hrows.mem_iff.mpr (by simp)
    obtain ⟨top, hstored, htold⟩ := h.branch
    obtain ⟨t, ht, htx⟩ := hx.told
    have hyp : y.prev = p.hash := (List.isChain_cons_cons.mp hpath.right.1).1
    have heq : x = y := HeaderTree.eq_of_prev hx.has (hpath.2 y (by simp)) (hpath.2 p (by simp))
      hxp hyp ((htold t ht).trans htx) (hstored y hy)
    exact absurd (heq ▸ hy) hnew

/-- What is on the branch is named by its hash. -/
theorem OnBranch.hash_mem_iff (h : s.OnBranch source base) (hx : source.toHeaderTree.Has x) :
    x.hash ∈ s.tables.blocks.map BlockHeader.hash ↔ x ∈ s.tables.blocks := by
  refine ⟨fun hmem => ?_, List.mem_map_of_mem⟩
  obtain ⟨hs, hpath, -, hrows⟩ := h.holds
  obtain ⟨y, hy, hyx⟩ := List.mem_map.mp hmem
  exact (hpath.2 y (hrows.mem_iff.mp hy)).eq_of_hash hx hyx ▸ hy

section Added

variable (txOutputs : List AddressUtxo) (txInputs : List SpentTxo)

/-- The state after a block is stored. -/
def added (s : SyncsState) (x : BlockHeader) : SyncsState :=
  { s with tables := s.tables.addBlock x txOutputs txInputs }

theorem grows_added : s.Grows (s.added txOutputs txInputs x) :=
  ⟨fun _ hy => Table.mem_insertIgnore.mpr (Or.inl hy), List.Subset.refl _⟩

/-- **A block that is next keeps to the tip.** -/
theorem Next.keepsToTip (hx : s.Next source x) (h : s.OnBranch source base) :
    s.tables.KeepsToTip base (.addBlock x txOutputs txInputs) := by
  obtain ⟨hs, hpath, hbase, hrows⟩ := h.holds
  by_cases hnew : x ∈ s.tables.blocks
  · exact Or.inl (List.mem_map_of_mem hnew)
  · obtain ⟨last, hlast, hprev⟩ := hx.prev_eq_last h hnew hpath hrows
    refine Or.inr ⟨last, ?_, hx.has.isAbove (hpath.2 last (List.mem_of_mem_getLast? hlast)) hprev⟩
    rw [(hpath.chainFrom hbase).head?_getBlockHeaders hrows]
    exact hlast

/-- All stays on one branch. -/
theorem OnBranch.added (h : s.OnBranch source base) (hx : s.Next source x) :
    (s.added txOutputs txInputs x).OnBranch source base where
  holds := by
    obtain ⟨hs, hpath, hbase, hrows⟩ := h.holds
    by_cases hnew : x ∈ s.tables.blocks
    · exact ⟨hs, hpath, hbase,
        perm_insertBlock hpath (Or.inl ⟨hrows.mem_iff.mp hnew, rfl⟩) hrows⟩
    · obtain ⟨last, hlast, hprev⟩ := hx.prev_eq_last h hnew hpath hrows
      have hpath' : source.IsPath (hs ++ [x]) := hpath.concat hx.has hlast hprev
      refine ⟨hs ++ [x], hpath', ?_, perm_insertBlock hpath' (Or.inr rfl) hrows⟩
      rw [List.head?_append, hbase]
      rfl
  branch := by
    obtain ⟨top, hstored, htold⟩ := h.branch
    obtain ⟨t, ht, htx⟩ := hx.told
    refine ⟨top, fun y hy => ?_, htold⟩
    rcases Table.mem_insertIgnore.mp hy with hy | ⟨rfl, -⟩
    · exact hstored y hy
    · exact (htold t ht).trans htx

/-- The block is stored. -/
theorem Next.mem_added (hx : s.Next source x) (h : s.OnBranch source base) :
    x ∈ (s.added txOutputs txInputs x).tables.blocks := by
  refine Table.mem_insertIgnore.mpr ?_
  by_cases hnew : x ∈ s.tables.blocks
  · exact Or.inl hnew
  · exact Or.inr ⟨rfl, fun hmem => hnew ((h.hash_mem_iff hx.has).mp hmem)⟩

end Added

end SyncsState

/-- **No reorganisation**: a tip that is read descends from what is stored and from the
tips that were read before. -/
def noReorg (source : BlockSource codec) : (chainSyncs source).Condition := fun _ _ c s =>
  c = .getTipHash → (∀ h ∈ s.tables.blocks, source.Descends s.best h.hash) ∧
    ∀ t ∈ s.told, source.Descends s.best t

/-- **The discipline without a reorganisation**: blocks are stored and tips are read on one
branch, and every write keeps to the tip. -/
@[reducible] def extending (source : BlockSource codec) (base : BlockHeader) :
    Discipline (chainSyncs source) where
  permits := noReorg source
  inv := fun s => s.OnBranch source base
  rely := fun _ _ s s' => s.Grows s'
  guar := fun _ _ c s s' => s.tables.KeepsToTip base c ∧ s.Grows s'
  later := fun _ _ => True
  post := fun _ _ _ _ => True

theorem extending_stable : (extending source base).Stable where
  rely_refl := fun _ _ s => SyncsState.Grows.refl s
  rely_trans := SyncsState.Grows.trans

section Programs

variable {i : ℕ} {t : SyncTask} {s : SyncsState} {α : Type} {Q : α → SyncsState → Prop}

/-- **A read** other than that of the tip. -/
theorem extending_read {c : ChainCall} {k : c.Reply → Prog ChainServices α} (hread : ¬c.IsWrite)
    (htip : c ≠ .getTipHash)
    (hk : ∀ ch s' r, s.Grows s' → s'.OnBranch source base →
      SyncsState.serve source c ch s' = some (r, s') →
      (extending source base).Safe i t Q (k r) s') :
    (extending source base).Safe i t Q (.call c k) s := by
  intro s₁ hgrows hs₁ _ ch r s₂ hserve
  have hsame : s₂ = s₁ := by
    cases c with
    | getTipHash => exact absurd rfl htip
    | addBlock block txOutputs txInputs => exact absurd trivial hread
    | undoBlock hash => exact absurd trivial hread
    | isCancelled => exact (Prod.mk.inj (Option.some.inj hserve)).2.symm
    | never => cases hserve
    | _ => exact (SyncsState.read_eq_some hserve).1
  subst hsame
  have hkeeps : s₂.tables.KeepsToTip base c := by
    cases c with
    | addBlock block txOutputs txInputs => exact absurd trivial hread
    | undoBlock hash => exact absurd trivial hread
    | _ => trivial
  exact ⟨hs₁, ⟨hkeeps, SyncsState.Grows.refl s₂⟩, hk ch s₂ r hgrows hs₁ hserve⟩

/-- Meanwhile blocks are stored and tips are read. -/
theorem extending_grows {p : Prog ChainServices α} (h : (extending source base).Safe i t Q p s) :
    (extending source base).Safe i t (fun a s' => Q a s' ∧ s.Grows s') p s :=
  h.frame (SyncsState.Grows.refl s) (fun _ _ hP hgrows _ => hP.trans hgrows)
    (fun _ _ _ hP _ hguar => hP.trans hguar.2)

/-- **`process_block`** stores the block that is next. -/
theorem safe_processNext {b : Block} {x : BlockHeader} (hheight : b.bip34Height = some x.height)
    (hheader : b.header x.height = x) (hx : s.Next source x) :
    (extending source base).Safe i t (fun o s' => o = .ok () → x ∈ s'.tables.blocks)
      (ChainMonitor.processBlock codec b).run s := by
  unfold ChainMonitor.processBlock
  rw [hheight]
  refine extending_read not_false nofun (fun _ s₁ r hgrows₁ _ _ => ?_)
  cases r with
  | error e => exact fun _ _ _ hok => by cases hok
  | ok watched =>
    intro s₂ hgrows₂ hs₂ _ ch r s₃ hserve
    have hx₂ := hx.of_grows (hgrows₁.trans hgrows₂)
    have hkeeps := hx₂.keepsToTip (codec.watchUtxos b x.height watched) (codec.spentTxos b) hs₂
    rw [hheader] at hserve ⊢
    rcases SyncsState.write_eq_some hserve with rfl | ⟨rfl, hfailed⟩
    · refine ⟨hs₂.added _ _ hx₂, ⟨hkeeps, SyncsState.grows_added _ _⟩, fun s₄ hgrows₄ _ _ => ?_⟩
      exact hgrows₄.blocks (hx₂.mem_added _ _ hs₂)
    · refine ⟨hs₂, ⟨hkeeps, SyncsState.Grows.refl _⟩, fun s₄ hgrows₄ _ hok => ?_⟩
      cases r with
      | error e => cases hok
      | ok _ => exact absurd rfl hfailed

/-- **The loop that processes blocks** stores a path whose first block is next. -/
theorem safe_addNext {xs : List BlockHeader} (hpath : source.IsPath xs)
    (htold : ∀ x ∈ xs, ∃ u ∈ s.told, source.Descends u x.hash)
    (hplaced : ∀ x ∈ xs.head?, x ∈ s.tables.blocks ∨ ∃ p ∈ s.tables.blocks, x.prev = p.hash) :
    (extending source base).Safe i t
      (fun o s' => o = .ok true → ∀ x ∈ xs, x ∈ s'.tables.blocks)
      (ChainMonitor.addBlocks codec xs).run s := by
  induction xs generalizing s with
  | nil => exact fun _ _ _ _ x hx => by cases hx
  | cons x xs ih =>
    have hx : s.Next source x :=
      ⟨hpath.2 x List.mem_cons_self, htold x List.mem_cons_self, hplaced x rfl⟩
    refine extending_read not_false nofun (fun _ s₁ cancelled hgrows₁ _ _ => ?_)
    cases cancelled with
    | true => exact fun _ _ _ hok => by cases hok
    | false =>
      refine extending_read not_false nofun (fun _ s₂ r hgrows₂ hs₂ hserve => ?_)
      cases r with
      | error e => exact fun _ _ _ hok => by cases hok
      | ok b =>
        obtain ⟨x', hx', hheight, hheader⟩ :=
          source.header_block (SyncsState.block_of_serve hserve b rfl)
        have hxhas : source.header x.hash = some x := hx.has
        obtain rfl : x = x' := Option.some.inj (hxhas.symm.trans hx')
        have hgrows := hgrows₁.trans hgrows₂
        refine Discipline.Safe.tryBind extending_stable ((extending_grows (safe_processNext hheight
          hheader (hx.of_grows hgrows))).mono (fun o s₃ _ ho => ?_)) hs₂
        cases o with
        | error e => exact fun _ _ _ hok => by cases hok
        | ok _ =>
          have hstored : x ∈ s₃.tables.blocks := ho.1 rfl
          have hrest := ih (s := s₃)
            (HeaderTree.IsPath.right (show source.IsPath ([x] ++ xs) from hpath))
            (fun y hy => (htold y (List.mem_cons_of_mem x hy)).imp
              (fun _ hu => ⟨(hgrows.trans ho.2).told hu.1, hu.2⟩))
            (fun y hy => Or.inr ⟨x, hstored, hpath.prev_of_head? hy⟩)
          refine (extending_grows hrest).mono (fun o s₄ _ ho' hok => ?_)
          exact List.forall_mem_cons.mpr ⟨ho'.2.blocks hstored, ho'.1 hok⟩

/-! ### A sync -/

/-- **Headers are the same with and without another sync.** -/
theorem safe_of_satAlone {p : Prog ChainServices α} (honly : p.OnlyCalls ChainCall.AsksHeaders)
    {onCall : ChainCall → SyncState → Prop} {onRet : α → SyncState → Prop} {s' : SyncState}
    (h : p.SatAlone source.Performs onCall onRet s') :
    (extending source base).Safe i t (fun a _ => ∃ s'', onRet a s'') p s := by
  induction p generalizing s s' with
  | ret a => exact fun _ _ _ => ⟨s', h⟩
  | call c k ih =>
    obtain ⟨hc, honly⟩ := honly
    cases c with
    | getBlockHeader hash =>
      refine extending_read not_false nofun (fun _ s₁ r _ _ hserve => ih r (honly r) (h.2 r s' ?_))
      exact ⟨s'.tables, rfl, rfl, SyncsState.header_of_serve hserve⟩
    | isCancelled =>
      refine extending_read not_false nofun (fun _ s₁ r _ _ _ => ?_)
      have hperf : source.Performs .isCancelled s' r
        { s' with cancelled := s'.cancelled || r } := ⟨s'.tables, rfl, rfl⟩
      exact ih r (honly r) (h.2 r _ hperf)
    | never => exact extending_read not_false nofun (fun _ _ r _ _ _ => nomatch r)
    | _ => exact hc.elim

/-- **A chain in memory** is a path of blocks that are stored. -/
def SyncsState.Knows (source : BlockSource codec) (chain : Chain) (s : SyncsState) : Prop :=
  ∃ hs, source.IsPath hs ∧ chain.Represents hs ∧ ∀ h ∈ hs, h ∈ s.tables.blocks

/-- The walk back meets the chain at its tip. -/
theorem safe_walkToTip {existing : Chain} {steps : ℕ} (hsteps : 2 ^ 31 ≤ steps)
    {ps : List BlockHeader} {last x : BlockHeader} {u : BlockHash} (hs : s.OnBranch source base)
    (hpath : source.IsPath (ps ++ [last])) (hexisting : existing.Represents (ps ++ [last]))
    (hx : source.header u = some x) (hu : source.Descends u last.hash) :
    (extending source base).Safe i t (fun o _ => ∀ new, o = .ok (some new) →
        ∃ ns, new.Represents (last :: ns) ∧ source.Branch (ps ++ [last]) u last ns)
      (ChainMonitor.walkBack existing steps x (Chain.new x)).run s := by
  have hxhas := HeaderTree.has_of_header hx
  have hbranch : source.Branch (ps ++ [last]) u x [] := by
    refine ⟨HeaderTree.IsPath.singleton hxhas, ?_, fun y hy => by cases hy⟩
    show some x.hash = some u
    rw [source.header_hash hx]
  have hwalk := walkBack_part (s := ⟨s.tables, none, false⟩) hexisting
    ((source.height_lt hx).trans_le hsteps) (Chain.represents_new x) hbranch hs.holds
  refine (safe_of_satAlone walkBack_asksHeaders hwalk).mono (fun o s₁ _ ho new hnew => ?_)
  obtain ⟨s₂, -, hfound⟩ := ho
  obtain ⟨-, -, y, ns, hrep, hmeets, hy⟩ := hfound (some new) hnew
  obtain rfl := hmeets.eq_last hpath List.getLast?_concat hy hu
  exact ⟨ns, hrep, hmeets⟩

theorem undoReorged_of_tip {existing new : Chain} {x : BlockHeader}
    (hnew : new.baseHeader = some x) (hexisting : existing.tipHeader = some x) :
    ChainMonitor.undoReorged existing new = pure true := by
  unfold ChainMonitor.undoReorged
  rw [hnew, hexisting, ChainMonitor.unwrap, pure_bind, pure_bind, if_pos rfl]

/-- The blocks above the tip are processed, and the chain moves on. -/
theorem safe_extendTip {existing new : Chain} {ps ns : List BlockHeader} {last : BlockHeader}
    {u : BlockHash} (hs : s.OnBranch source base) (hpath : source.IsPath (ps ++ [last]))
    (hexisting : existing.Represents (ps ++ [last]))
    (hstored : ∀ h ∈ ps ++ [last], h ∈ s.tables.blocks) (hnew : new.Represents (last :: ns))
    (hbranch : source.Branch (ps ++ [last]) u last ns) (hu : u ∈ s.told) :
    (extending source base).Safe i t (fun o s' => ∀ chain, o = .ok (some chain) →
      s'.Knows source chain) (ChainMonitor.extend codec existing new).run s := by
  have hfresh : ∀ y ∈ ns, y.hash ∉ ps.map BlockHeader.hash := by
    intro y hy hmem
    refine hbranch.fresh y hy ?_
    rw [List.map_append]
    exact List.mem_append_left _ hmem
  obtain ⟨chain, hretip, hchain⟩ := hexisting.retip hnew hfresh
  have htold : ∀ x ∈ last :: ns, ∃ v ∈ s.told, source.Descends v x.hash := by
    obtain ⟨top, htop, rfl⟩ := Option.map_eq_some_iff.mp hbranch.last
    exact fun x hx => ⟨top.hash, hu, hbranch.isPath.descends htop x hx⟩
  have hlast : last ∈ s.tables.blocks := hstored last (by simp)
  unfold ChainMonitor.extend
  rw [hnew.iterForwards_eq, ChainMonitor.unwrap, pure_bind]
  refine Discipline.Safe.tryBind extending_stable ((extending_grows (safe_addNext hbranch.isPath
    htold (fun x hx => Or.inl (Option.some.inj hx ▸ hlast)))).mono (fun o s₁ _ ho => ?_)) hs
  cases o with
  | error e => exact fun _ _ _ _ hchain => by cases hchain
  | ok done =>
    cases done with
    | false => exact fun _ _ _ _ hchain => by cases hchain
    | true =>
      rw [Prog.onOutcome, if_pos rfl, hretip]
      intro s₂ hgrows₂ _ chain' hchain'
      obtain rfl := Option.some.inj (Except.ok.inj hchain')
      refine ⟨ps ++ last :: ns, hpath.glue hbranch.isPath, hchain, fun h hh => ?_⟩
      rcases List.mem_append.mp hh with hh | hh
      · exact hgrows₂.blocks (ho.2.blocks (hstored h (List.mem_append_left _ hh)))
      · exact hgrows₂.blocks (ho.1 rfl h hh)

/-- **`do_sync`**, with a chain of stored blocks in memory. -/
theorem safe_syncTip {existing : Chain} {steps : ℕ} (hsteps : 2 ^ 31 ≤ steps)
    (hknows : s.Knows source existing) :
    (extending source base).Safe i t (fun o s' => ∀ chain, o = .ok (some chain) →
      s'.Knows source chain) (ChainMonitor.doSync codec steps existing).run s := by
  obtain ⟨hs, hpath, hexisting, hstored⟩ := hknows
  obtain ⟨ps, last, rfl⟩ := (List.eq_nil_or_concat' hs).resolve_left hexisting.ne_nil
  intro s₁ hgrows₁ hs₁ hpermit ch r s₂ hserve
  have hlast : last ∈ s₁.tables.blocks := hgrows₁.blocks (hstored last (by simp))
  obtain ⟨hbest, htold⟩ := hpermit rfl
  cases ch with
  | ok =>
    obtain ⟨rfl, rfl⟩ := Prod.mk.inj (Option.some.inj hserve)
    refine ⟨⟨hs₁.holds, s₁.best, hbest, List.forall_mem_cons.mpr ⟨.refl, htold⟩⟩,
      ⟨trivial, List.Subset.refl _, List.subset_cons_self _ _⟩, ?_⟩
    refine extending_read not_false nofun (fun _ s₂ r hgrows₂ hs₂ hserve => ?_)
    have hu : s₁.best ∈ s₂.told := hgrows₂.told List.mem_cons_self
    cases r with
    | error e => exact fun _ _ _ _ hchain => by cases hchain
    | ok x =>
      refine Discipline.Safe.tryBind extending_stable ((extending_grows (safe_walkToTip hsteps hs₂
        hpath hexisting (SyncsState.header_of_serve hserve x rfl)
        (hbest last hlast))).mono (fun o s₃ hs₃ ho => ?_)) hs₂
      cases o with
      | error e => exact fun _ _ _ _ hchain => by cases hchain
      | ok walked =>
        cases walked with
        | none => exact fun _ _ _ _ hchain => by cases hchain
        | some new =>
          obtain ⟨ns, hnew, hbranch⟩ := ho.1 new rfl
          have hundo := undoReorged_of_tip (hnew.baseHeader_eq.trans rfl)
            (hexisting.tipHeader_eq.trans List.getLast?_concat)
          simp only [Prog.onOutcome, hundo, pure_bind, if_true]
          refine safe_extendTip hs₃ hpath hexisting (fun h hh => ?_) hnew hbranch (ho.2.told hu)
          exact ho.2.blocks (hgrows₂.blocks (hgrows₁.blocks (hstored h hh)))
  | _ =>
    obtain ⟨rfl, rfl⟩ := Prod.mk.inj (Option.some.inj hserve)
    exact ⟨hs₁, ⟨trivial, SyncsState.Grows.refl s₁⟩, fun _ _ _ _ hchain => by cases hchain⟩

/-- What is known stays known. -/
theorem SyncsState.Knows.of_grows {chain : Chain} {s' : SyncsState} (h : s.Knows source chain)
    (hgrows : s.Grows s') : s'.Knows source chain := by
  obtain ⟨hs, hpath, hrep, hstored⟩ := h
  exact ⟨hs, hpath, hrep, fun h hh => hgrows.blocks (hstored h hh)⟩

/-- **`start_tip_sync`**, from a chain of stored blocks. -/
theorem safe_startTipSync {chain : Chain} {steps n : ℕ} (hsteps : 2 ^ 31 ≤ steps)
    (hknows : s.Knows source chain) :
    (extending source base).Safe i t (fun _ _ => True)
      (ChainMonitor.startTipSync codec steps n chain).run s := by
  induction n generalizing chain s with
  | zero => exact fun _ _ _ => trivial
  | succ n ih =>
    refine extending_read not_false nofun (fun _ s₁ cancelled hgrows₁ hs₁ _ => ?_)
    cases cancelled with
    | true => exact fun _ _ _ => trivial
    | false =>
      have hknows₁ := hknows.of_grows hgrows₁
      refine Discipline.Safe.tryBind extending_stable
        ((extending_grows (safe_syncTip hsteps hknows₁)).mono (fun o s₂ _ ho => ?_)) hs₁
      cases o with
      | error e => exact fun _ _ _ => trivial
      | ok moved =>
        cases moved with
        | none => exact ih (hknows₁.of_grows ho.2)
        | some chain' => exact ih (ho.1 chain' rfl)

/-- **`start_full_sync`**, from a birthday that is stored. -/
theorem safe_startFullSync {birthdayChain : Chain} {steps n : ℕ} (hsteps : 2 ^ 31 ≤ steps)
    (hknows : s.Knows source birthdayChain) :
    (extending source base).Safe i t (fun _ _ => True)
      (ChainMonitor.startFullSync codec steps birthdayChain n).run s := by
  induction n generalizing s with
  | zero => exact fun _ _ _ => trivial
  | succ n ih =>
    refine extending_read not_false nofun (fun _ s₁ cancelled hgrows₁ hs₁ _ => ?_)
    cases cancelled with
    | true => exact fun _ _ _ => trivial
    | false =>
      have hknows₁ := hknows.of_grows hgrows₁
      refine Discipline.Safe.tryBind extending_stable
        ((extending_grows (safe_syncTip hsteps hknows₁)).mono (fun o s₂ _ ho => ?_)) hs₁
      cases o with
      | error e => exact fun _ _ _ => trivial
      | ok _ => exact ih (hknows₁.of_grows ho.2)

end Programs

theorem extending_sound : (extending source base).Sound where
  toStable := extending_stable
  later_refl := fun _ => trivial
  later_trans := fun _ _ => trivial
  guar_rely := fun _ _ _ h => h.2
  guar_later := fun _ _ _ => trivial
  drift := fun {m s s'} hs hmove => by
    cases m <;> obtain rfl := Option.some.inj hmove
    · exact ⟨⟨hs.holds, hs.branch⟩, fun _ _ => ⟨List.Subset.refl _, List.Subset.refl _⟩, trivial⟩
    · exact ⟨⟨hs.holds, hs.branch⟩, fun _ _ => ⟨List.Subset.refl _, List.Subset.refl _⟩, trivial⟩
  spawn := fun {sp} => sp.elim
  halt := fun {_ s s'} hs hhalt => by
    obtain rfl := Option.some.inj hhalt
    exact ⟨hs, fun _ _ _ => SyncsState.Grows.refl s, trivial⟩

/-! ## The start -/

/-- What is kept is on the tree. -/
theorem ChainTables.Kept.holds {db : ChainTables} (h : db.Kept source base) :
    source.Holds base db.blocks := by
  obtain ⟨hs, hchain, hrows⟩ := h.single
  refine ⟨hs, ⟨hchain.linked.imp (fun _ _ habove => habove.1), fun x hx => ?_⟩, hchain.head, hrows⟩
  obtain ⟨b, hb, hheight, hxb⟩ := h.sound.blocks x (hrows.mem_iff.mpr hx)
  obtain ⟨y, hy, hyheight, hyheader⟩ := source.header_block hb
  have hheights : x.height = y.height := Option.some.inj (hheight.symm.trans hyheight)
  have hxy : x = y := by
    rw [hxb, hheights]
    exact hyheader
  rw [hxy]
  exact HeaderTree.has_of_header hy

section Main

variable {steps : ℕ} {S : (chainSyncs source).Config}

/-- The syncs start on one branch, with chains of stored blocks. -/
theorem IsSyncsStart.ok (hsteps : 2 ^ 31 ≤ steps) (h : IsSyncsStart source steps base S) :
    (extending source base).Ok S := by
  obtain ⟨chain, m, n, hload, -, hthreads⟩ := h.threads
  obtain ⟨chain', hload', hs, hpath, hbase, hrows, hchain⟩ := h.kept.holds.load
  obtain rfl : chain = chain' := Except.ok.inj (Option.some.inj (hload.symm.trans hload'))
  have hmem : base ∈ hs := List.mem_of_mem_head? hbase
  have hbranch : S.state.OnBranch source base := by
    obtain ⟨ps, last, rfl⟩ := (List.eq_nil_or_concat' hs).resolve_left hchain.ne_nil
    refine ⟨h.kept.holds, last.hash, fun x hx => ?_, fun u hu => ?_⟩
    · exact hpath.descends List.getLast?_concat x (hrows.mem_iff.mp hx)
    · rw [h.told] at hu
      cases hu
  have hknows : S.state.Knows source chain :=
    ⟨hs, hpath, hchain, fun x hx => hrows.mem_iff.mpr hx⟩
  have hbirthday : S.state.Knows source (Chain.new base) := by
    refine ⟨[base], HeaderTree.IsPath.singleton (hpath.2 base hmem), Chain.represents_new base,
      fun x hx => ?_⟩
    exact List.mem_singleton.mp hx ▸ hrows.mem_iff.mpr hmem
  exact ok_of_pair extending_sound hbranch rfl hthreads
    ((safe_startTipSync hsteps hknows).mono (fun _ _ _ _ _ _ _ => trivial))
    ((safe_startFullSync hsteps hbirthday).mono (fun _ _ _ _ _ _ _ => trivial))

/-- **Without a reorganisation every write keeps to the tip.** -/
theorem reachable_keepsToTip (hsteps : 2 ^ 31 ≤ steps)
    (h : ReachableIf (noReorg source) (IsSyncsStart source steps base) S) :
    ReachableIf (keepsToTip source base) (IsSyncsStart source steps base) S := by
  obtain ⟨S₀, h₀, hrun⟩ := h
  suffices hall : (extending source base).Ok S ∧
      Relation.ReflTransGen (StepIf (keepsToTip source base)) S₀ S from ⟨S₀, h₀, hall.2⟩
  induction hrun with
  | refl => exact ⟨h₀.ok hsteps, .refl⟩
  | tail _ hstep ih =>
    obtain ⟨a, hmeets, hs⟩ := hstep
    obtain ⟨hok, hguar⟩ := ih.1.step extending_sound hmeets hs
    refine ⟨hok, ih.2.tail ⟨a, ?_, hs⟩⟩
    cases a with
    | run i ch => exact fun t c k hT => (hguar i ch rfl t c k hT).1
    | _ => trivial

/-- **The index is one chain** from the birthday: it is loaded on a restart, and no
transaction is in two of its blocks. -/
structure ChainTables.IsOneChain (base : BlockHeader) (db : ChainTables) : Prop where
  single : SingleChain base db.blocks
  loaded : ∃ chain, Chain.tryFrom db.getBlockHeaders = some (.ok chain)
  once : ∀ txid, (db.blocksOf txid).length ≤ 1

/-- What is kept is one chain. -/
theorem ChainTables.Kept.isOneChain {db : ChainTables} (h : db.Kept source base) :
    db.IsOneChain base where
  single := h.single
  loaded := by
    obtain ⟨hs, hchain, hrows⟩ := h.single
    obtain ⟨chain, hload, -⟩ := hchain.exists_tryFrom hrows
    exact ⟨chain, hload⟩
  once := by
    obtain ⟨hs, hchain, hrows⟩ := h.single
    exact h.sound.length_blocksOf_le_one_of_linked hrows
      (hchain.linked.imp (fun _ _ habove => habove.1))

end Main

namespace Sample

/-- The blocks of the branches, without transactions. -/
def branchBlocks : List Block :=
  [emptyBlock ⟨Bytes32.ofByte 1, 100, Bytes32.ofByte 0⟩ (by decide),
    emptyBlock ⟨Bytes32.ofByte 2, 101, Bytes32.ofByte 1⟩ (by decide),
    emptyBlock ⟨Bytes32.ofByte 3, 101, Bytes32.ofByte 1⟩ (by decide),
    emptyBlock ⟨Bytes32.ofByte 4, 102, Bytes32.ofByte 3⟩ (by decide)]

/-- The branches, with their blocks. -/
def branchSource : BlockSource chainCodec where
  toHeaderTree := headerTree
  toBlockTree := .ofBlocks chainCodec branchBlocks (by decide)
  header_block := fun {hash b} hb => by
    have hall : ∀ b ∈ branchBlocks, ∃ h ∈ branches, branches.find? (fun x => x.hash = b.hash) =
        some h ∧ b.bip34Height = some h.height ∧ b.header h.height = h := by
      decide
    have hb : branchBlocks.find? (fun x => x.hash = hash) = some b := hb
    have hhash := List.find?_some hb
    have hhash : b.hash = hash := of_decide_eq_true hhash
    obtain ⟨h, -, hfind, hheight, hheader⟩ := hall b (List.mem_of_find?_eq_some hb)
    exact ⟨h, hhash ▸ hfind, hheight, hheader⟩

/-- The birthday. -/
def birthday : BlockHeader := ⟨Bytes32.ofByte 1, 100, Bytes32.ofByte 0⟩

/-- The syncs start, with nothing but the birthday indexed. -/
def syncsStart (best : BlockHash) : (chainSyncs branchSource).Config where
  state := ⟨⟨[birthday], [], [], [], []⟩, best, []⟩
  threads :=
    [⟨.tip, some (ChainMonitor.startTipSync chainCodec (2 ^ 31) 2 (Chain.new birthday)).run⟩,
      ⟨.full, some (ChainMonitor.startFullSync chainCodec (2 ^ 31) (Chain.new birthday) 2).run⟩]

/-- So many calls of a sync succeed. -/
def served (i n : ℕ) : List (chainSyncs branchSource).Action := List.replicate n (.run i .ok)

theorem isSyncsStart_syncsStart (best : BlockHash) :
    IsSyncsStart branchSource (2 ^ 31) birthday (syncsStart best) where
  kept := by
    refine ⟨⟨?_, List.nodup_singleton _, ?_, List.nodup_nil, ?_, ?_, List.nodup_nil⟩,
      [birthday], ⟨?_, rfl, List.nodup_singleton _⟩, ?_⟩
    · intro x hx
      obtain rfl := List.mem_singleton.mp hx
      exact ⟨emptyBlock birthday (by decide), rfl, rfl, rfl⟩
    · exact fun r hr => by cases hr
    · exact fun r hr => by cases hr
    · exact fun r hr => by cases hr
    · exact List.IsChain.singleton _
    · exact List.Perm.refl _
  told := rfl
  threads := ⟨Chain.new birthday, 2, 2, rfl, rfl, rfl⟩

/-- The longer branch. -/
def longBranch : List BlockHeader :=
  [birthday, ⟨Bytes32.ofByte 3, 101, Bytes32.ofByte 1⟩, ⟨Bytes32.ofByte 4, 102, Bytes32.ofByte 3⟩]

/-- The longer branch is the best, and nothing else is known when its tip is read. -/
def onLongBranch : (chainSyncs branchSource).Condition := fun _ _ c s =>
  c = .getTipHash → s.best = .ofByte 4 ∧ (∀ h ∈ s.tables.blocks, h ∈ longBranch) ∧
    ∀ t ∈ s.told, t = .ofByte 4

instance (i : ℕ) (t : SyncTask) (c : ChainCall) (s : SyncsState) :
    Decidable (onLongBranch i t c s) := by
  unfold onLongBranch
  infer_instance

theorem onLongBranch_noReorg (i : ℕ) (t : SyncTask) (c : ChainCall) (s : SyncsState)
    (h : onLongBranch i t c s) : noReorg branchSource i t c s := by
  intro hc
  obtain ⟨hbest, hblocks, htold⟩ := h hc
  have hpath : headerTree.IsPath longBranch := by
    refine ⟨?_, ?_⟩
    · exact List.isChain_cons_cons.mpr ⟨rfl, List.isChain_cons_cons.mpr
        ⟨rfl, List.IsChain.singleton _⟩⟩
    · show ∀ h ∈ longBranch, branches.find? (fun x => x.hash = h.hash) = some h
      decide
  rw [hbest]
  refine ⟨fun x hx => hpath.descends rfl x (hblocks x hx), fun u hu => ?_⟩
  rw [htold u hu]
  exact .refl

/-- Each sync stores a block of the longer branch. -/
def grown : (chainSyncs branchSource).Config :=
  Machine.after onLongBranch (syncsStart (.ofByte 4)) (served 0 16 ++ served 1 20 ++ served 0 4)

/-- The tip sync has stored the shorter branch, which is reorganised before the full sync
reads its tip. -/
def forkSchedule : List (chainSyncs branchSource).Action :=
  served 0 14 ++ [.drift (.tip (.ofByte 4))] ++ served 1 15

/-- The full sync is about to store a block of the longer branch. -/
def forking : (chainSyncs branchSource).Config :=
  Machine.after (keepsToTip branchSource birthday) (syncsStart (.ofByte 2)) forkSchedule

/-- It has stored it. -/
def forked : (chainSyncs branchSource).Config :=
  Machine.after (fun _ _ _ _ => True) (syncsStart (.ofByte 2)) (forkSchedule ++ served 1 1)

end Sample

end Swapd
