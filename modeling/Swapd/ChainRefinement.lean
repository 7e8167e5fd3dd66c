import Mathlib.Data.List.DropRight
import Mathlib.Logic.Relation
import Swapd.MemChain

/-!
# A chain is a list of headers

What the operations of a chain are for, on lists of headers from the base to the
tip: a header is put at either end if it links up there, the tip is moved to
another branch, the base is moved down.

Headers come from a tree: a hash names one of them, and none is its own ancestor.
So a list of linked headers has no hash twice, which is what the map needs. Any
chain that is reached by the operations stands for a list, and every operation on
it is the one on lists, the errors included (`Chain.Reachable.refinesList`). An
operation that fails leaves the chain as it was.
-/

namespace Swapd

/-! ## The operations on lists -/

namespace Headers

/-- The hashes of some headers. -/
def hashes (hs : List BlockHeader) : List BlockHash := hs.map BlockHeader.hash

/-- A header after the last one. -/
def append (hs : List BlockHeader) (x : BlockHeader) : Except ChainError (List BlockHeader) :=
  if hs.getLast?.map BlockHeader.hash = some x.prev then .ok (hs ++ [x])
  else .error .invalidChain

/-- A header before the first one. -/
def prepend (hs : List BlockHeader) (x : BlockHeader) : Except ChainError (List BlockHeader) :=
  if hs.head?.map BlockHeader.prev = some x.hash then .ok (x :: hs)
  else .error .invalidChain

/-- The headers below a block, and from there on those of another list, which
starts with that block. -/
def retip (hs os : List BlockHeader) : Except ChainError (List BlockHeader) :=
  match os with
  | [] => .error .blockNotFound
  | base :: rest =>
    if base.hash ∈ hashes hs then
      .ok (hs.takeWhile (fun h => h.hash ≠ base.hash) ++ base :: rest)
    else .error .blockNotFound

theorem prepend_of_eq {x b : BlockHeader} {rs : List BlockHeader} (h : b.prev = x.hash) :
    prepend (b :: rs) x = .ok (x :: b :: rs) := if_pos (congrArg some h)

theorem prepend_of_ne {x b : BlockHeader} {rs : List BlockHeader} (h : b.prev ≠ x.hash) :
    prepend (b :: rs) x = .error .invalidChain := if_neg (fun heq => h (Option.some.inj heq))

/-- The headers of another list up to the one that the first follows, before the
headers. There are none if both lists start with the same one. -/
def rebase (hs os : List BlockHeader) : Except ChainError (List BlockHeader) :=
  match hs with
  | [] => .error .blockNotFound
  | base :: rest =>
    if os.head?.map BlockHeader.hash = some base.hash then .ok (base :: rest)
    else if base.prev ∈ hashes os then
      .ok (os.rdropWhile (fun o => o.hash ≠ base.prev) ++ base :: rest)
    else .error .blockNotFound

/-- Headers are listed from the tip down. -/
def ofDescending (headers : List BlockHeader) : Except ChainError (List BlockHeader) :=
  match headers with
  | [] => .error .emptyChain
  | tip :: rest =>
    if (tip :: rest).IsChain (fun a b => b.hash = a.prev) then .ok (tip :: rest).reverse
    else .error .invalidChain

end Headers

/-! ## Headers and their ancestors -/

/-- A header of a set follows another one. -/
def Follows (U : Set BlockHeader) (a b : BlockHeader) : Prop := a ∈ U ∧ b ∈ U ∧ b.prev = a.hash

/-- **Headers of a block tree**: a hash names one of them, and none is its own
ancestor. -/
structure IsAncestry (U : Set BlockHeader) : Prop where
  injOn_hash : Set.InjOn BlockHeader.hash U
  acyclic : ∀ x, ¬ Relation.TransGen (Follows U) x x

variable {U : Set BlockHeader} {hs os : List BlockHeader}

/-- Linked headers of a tree have different hashes. -/
theorem IsAncestry.nodup (hU : IsAncestry U) (hlinked : Linked hs) (hmem : ∀ h ∈ hs, h ∈ U) :
    (hs.map BlockHeader.hash).Nodup := by
  have hchain : hs.IsChain (Relation.TransGen (Follows U)) :=
    hlinked.imp_of_mem_imp (fun a b ha hb h => Relation.TransGen.single ⟨hmem a ha, hmem b hb, h⟩)
  have hpairwise : hs.Pairwise (Relation.TransGen (Follows U)) :=
    List.isChain_iff_pairwise.mp hchain
  have hnodup : hs.Nodup := by
    refine hpairwise.imp (fun {a b} hab => ?_)
    rintro rfl
    exact hU.acyclic a hab
  exact hnodup.map_on (fun x hx y hy => hU.injOn_hash (hmem x hx) (hmem y hy))

/-- A header of a list, at the hash it is found by. -/
theorem Headers.exists_split {hash : BlockHash} (h : hash ∈ Headers.hashes hs) :
    ∃ ps x rs, hs = ps ++ x :: rs ∧ x.hash = hash := by
  obtain ⟨x, hx, rfl⟩ := List.mem_map.mp h
  obtain ⟨ps, rs, rfl⟩ := List.append_of_mem hx
  exact ⟨ps, x, rs, rfl, rfl⟩

/-- The headers below one of a list. -/
theorem Headers.takeWhile_eq {ps rs : List BlockHeader} {x : BlockHeader}
    (hnodup : ((ps ++ x :: rs).map BlockHeader.hash).Nodup) :
    (ps ++ x :: rs).takeWhile (fun h => h.hash ≠ x.hash) = ps := by
  rw [List.map_append, List.nodup_append] at hnodup
  have hps : ∀ p ∈ ps, decide (p.hash ≠ x.hash) := fun p hp =>
    decide_eq_true (hnodup.2.2 _ (List.mem_map_of_mem hp) _ List.mem_cons_self)
  rw [List.takeWhile_append_of_pos hps, List.takeWhile_cons_of_neg (by simp), List.append_nil]

/-- The headers up to one of a list. -/
theorem Headers.rdropWhile_eq {ps rs : List BlockHeader} {x : BlockHeader}
    (hnodup : ((ps ++ x :: rs).map BlockHeader.hash).Nodup) :
    (ps ++ x :: rs).rdropWhile (fun h => h.hash ≠ x.hash) = ps ++ [x] := by
  rw [List.append_cons, List.map_append, List.nodup_append] at hnodup
  have hrs : ∀ r ∈ rs.reverse, decide (r.hash ≠ x.hash) := fun r hr =>
    decide_eq_true (hnodup.2.2 x.hash (by simp) r.hash
      (List.mem_map_of_mem (List.mem_reverse.mp hr))).symm
  rw [List.append_cons, List.rdropWhile, List.reverse_append, List.dropWhile_append_of_pos hrs,
    List.reverse_append, List.reverse_singleton, List.singleton_append,
    List.dropWhile_cons_of_neg (by simp), List.reverse_cons, List.reverse_reverse]

namespace Chain

variable {c c' other : Chain} {x : BlockHeader}

/-- **A chain of the tree, as a list.** -/
structure RepresentsIn (U : Set BlockHeader) (c : Chain) (hs : List BlockHeader) : Prop where
  represents : c.Represents hs
  mem : ∀ h ∈ hs, h ∈ U

/-- What an operation does to a chain is what one on lists says: the chain stands
for the new list, or is as it was. -/
def Refines (U : Set BlockHeader) (c : Chain) (result : Option (Chain × Except ChainError Unit)) :
    Except ChainError (List BlockHeader) → Prop
  | .ok hs => ∃ c', result = some (c', .ok ()) ∧ c'.RepresentsIn U hs
  | .error e => result = some (c, .error e)

/-- The chains that the operations reach, whatever they return. -/
inductive Reachable (U : Set BlockHeader) : Chain → Prop where
  | new {x : BlockHeader} : x ∈ U → Reachable U (new x)
  | append {c c' : Chain} {x r} : Reachable U c → x ∈ U → c.append x = some (c', r) → Reachable U c'
  | prepend {c c' : Chain} {x r} : Reachable U c → x ∈ U → c.prepend x = some (c', r) → Reachable U c'
  | retip {c c' other : Chain} {r} : Reachable U c → Reachable U other →
      c.retip other = some (c', r) → Reachable U c'
  | rebase {c c' other : Chain} {r} : Reachable U c → Reachable U other →
      c.rebase other = some (c', r) → Reachable U c'
  | tryFrom {c : Chain} {headers} : (∀ h ∈ headers, h ∈ U) → tryFrom headers = some (.ok c) →
      Reachable U c

/-- The chain an operation leaves stands for a list. -/
theorem Refines.representsIn {r : Except ChainError Unit} {result}
    {spec : Except ChainError (List BlockHeader)} (h : c.RepresentsIn U hs)
    (hspec : c.Refines U result spec) (hr : result = some (c', r)) :
    ∃ hs', c'.RepresentsIn U hs' := by
  cases spec with
  | ok hs' =>
    obtain ⟨c'', hresult, hrep⟩ := hspec
    rw [hresult] at hr
    cases hr
    exact ⟨hs', hrep⟩
  | error e =>
    rw [show result = some (c, .error e) from hspec] at hr
    cases hr
    exact ⟨hs, h⟩

namespace RepresentsIn

variable (hU : IsAncestry U) (h : c.RepresentsIn U hs)

include hU h

/-- **Appending.** -/
theorem append (hx : x ∈ U) : c.Refines U (c.append x) (Headers.append hs x) := by
  by_cases hlast : hs.getLast?.map BlockHeader.hash = some x.prev
  · have hprev : x.prev = c.tip := Option.some.inj (hlast.symm.trans h.represents.tip)
    have hlinked : Linked (hs ++ [x]) := by
      refine List.isChain_append.mpr ⟨h.represents.linked, List.IsChain.singleton x, ?_⟩
      intro a ha b hb
      rw [Option.mem_def.mp ha, Option.map_some] at hlast
      rw [← Option.some.inj hb]
      exact (Option.some.inj hlast).symm
    have hmem : ∀ y ∈ hs ++ [x], y ∈ U := by
      intro y hy
      exact (List.mem_append.mp hy).elim (h.mem y) (fun hy => List.mem_singleton.mp hy ▸ hx)
    have hnew : x.hash ∉ hs.map BlockHeader.hash := by
      have hnodup := hU.nodup hlinked hmem
      rw [List.map_append, List.nodup_append] at hnodup
      exact fun hin => hnodup.2.2 _ hin _ (List.mem_singleton_self _) rfl
    obtain ⟨happend, hrep⟩ := h.represents.append hprev hnew
    rw [Headers.append, if_pos hlast]
    exact ⟨_, happend, hrep, hmem⟩
  · rw [Headers.append, if_neg hlast]
    exact h.represents.append_invalid hlast

/-- **Prepending.** -/
theorem prepend (hx : x ∈ U) : c.Refines U (c.prepend x) (Headers.prepend hs x) := by
  obtain ⟨b, rs, rfl⟩ := List.exists_cons_of_ne_nil h.represents.ne_nil
  by_cases hprev : b.prev = x.hash
  · have hlinked : Linked (x :: b :: rs) :=
      List.isChain_cons_cons.mpr ⟨hprev, h.represents.linked⟩
    have hmem : ∀ y ∈ x :: b :: rs, y ∈ U := List.forall_mem_cons.mpr ⟨hx, h.mem⟩
    have hnodup := hU.nodup hlinked hmem
    obtain ⟨hprepend, hrep⟩ := h.represents.prepend hprev (List.nodup_cons.mp hnodup).1
    rw [Headers.prepend_of_eq hprev]
    exact ⟨_, hprepend, hrep, hmem⟩
  · rw [Headers.prepend_of_ne hprev]
    exact h.represents.prepend_invalid hprev

/-- **Moving the tip.** -/
theorem retip (hother : other.RepresentsIn U os) :
    c.Refines U (c.retip other) (Headers.retip hs os) := by
  obtain ⟨b, os, rfl⟩ := List.exists_cons_of_ne_nil hother.represents.ne_nil
  have hbase : b.hash = other.base := Option.some.inj hother.represents.base
  by_cases hin : b.hash ∈ Headers.hashes hs
  · obtain ⟨ps, x, rs, rfl, hx⟩ := Headers.exists_split hin
    have hxb : x = b := hU.injOn_hash (h.mem x (by simp)) (hother.mem b (by simp)) hx
    subst hxb
    have hlinked : Linked (ps ++ x :: os) := by
      have hcut := h.represents.linked
      rw [Linked, List.isChain_split] at hcut
      exact List.isChain_split.mpr ⟨hcut.1, hother.represents.linked⟩
    have hmem : ∀ y ∈ ps ++ x :: os, y ∈ U := by
      intro y hy
      exact (List.mem_append.mp hy).elim (fun hy => h.mem y (List.mem_append_left _ hy))
        (hother.mem y)
    have hnew : ∀ y ∈ os, y.hash ∉ ps.map BlockHeader.hash := by
      intro y hy hps
      have hnodup := hU.nodup hlinked hmem
      rw [List.map_append, List.nodup_append] at hnodup
      exact hnodup.2.2 _ hps _ (List.mem_map_of_mem (List.mem_cons_of_mem x hy)) rfl
    obtain ⟨c', hc', hrep⟩ := h.represents.retip hother.represents hnew
    rw [Headers.retip, if_pos hin, Headers.takeWhile_eq h.represents.nodup]
    exact ⟨c', hc', hrep, hmem⟩
  · rw [Headers.retip, if_neg hin]
    exact h.represents.retip_notFound (hbase ▸ hin)

/-- **Moving the base.** -/
theorem rebase (hother : other.RepresentsIn U os) :
    c.Refines U (c.rebase other) (Headers.rebase hs os) := by
  obtain ⟨b, rs, rfl⟩ := List.exists_cons_of_ne_nil h.represents.ne_nil
  have hos := hother.represents.base
  by_cases hbase : os.head?.map BlockHeader.hash = some b.hash
  · have hb : b.hash = other.base := Option.some.inj (hbase.symm.trans hos)
    obtain ⟨c', hc', hrep⟩ := h.represents.rebase hother.represents (List.nil_append os).symm
      (fun _ => hb) h.represents.linked h.represents.nodup
    rw [Headers.rebase, if_pos hbase]
    exact ⟨c', hc', hrep, h.mem⟩
  · have hb : b.hash ≠ other.base := fun heq => hbase (hos.trans (congrArg some heq.symm))
    by_cases hin : b.prev ∈ Headers.hashes os
    · obtain ⟨ps, p, qs, rfl, hp⟩ := Headers.exists_split hin
      have hlinked : Linked (ps ++ [p] ++ b :: rs) := by
        refine List.isChain_append.mpr ⟨?_, h.represents.linked, ?_⟩
        · have hcut := hother.represents.linked
          rw [List.append_cons] at hcut
          exact List.IsChain.left_of_append hcut
        · intro x hx y hy
          rw [List.getLast?_concat] at hx
          rw [← Option.some.inj hx, ← Option.some.inj hy]
          exact hp.symm
      have hmem : ∀ y ∈ ps ++ [p] ++ b :: rs, y ∈ U := by
        intro y hy
        refine (List.mem_append.mp hy).elim (fun hy => hother.mem y ?_) (h.mem y)
        rw [List.append_cons]
        exact List.mem_append_left _ hy
      obtain ⟨c', hc', hrep⟩ := h.represents.rebase hother.represents (List.append_cons ps p qs)
        (fun hnil => absurd hnil (by simp)) hlinked (hU.nodup hlinked hmem)
      rw [Headers.rebase, if_neg hbase, if_pos hin, ← hp,
        Headers.rdropWhile_eq hother.represents.nodup]
      exact ⟨c', hc', hrep, hmem⟩
    · rw [Headers.rebase, if_neg hbase, if_neg hin]
      exact h.represents.rebase_notFound hother.represents hb hin

/-- Headers are prepended up to the first that does not link up. -/
theorem forEach_prepend {b : BlockHeader} {rs xs : List BlockHeader} (heq : hs = b :: rs)
    (hxs : ∀ y ∈ xs, y ∈ U) :
    if (b :: xs).IsChain (fun a b => b.hash = a.prev) then
      ∃ c', forEach Chain.prepend xs c = some (c', .ok ()) ∧ c'.RepresentsIn U (xs.reverse ++ hs)
    else ∃ c', forEach Chain.prepend xs c = some (c', .error .invalidChain) := by
  subst heq
  induction xs generalizing c b rs with
  | nil =>
    rw [if_pos (List.IsChain.singleton b)]
    exact ⟨c, rfl, h⟩
  | cons x xs ih =>
    have hstep := h.prepend hU (hxs x List.mem_cons_self)
    by_cases hprev : b.prev = x.hash
    · rw [Headers.prepend_of_eq hprev] at hstep
      obtain ⟨c', hc', hrep⟩ := hstep
      have hrest := ih (fun y hy => hxs y (List.mem_cons_of_mem x hy)) hrep
      have hiff : (b :: x :: xs).IsChain (fun a b => b.hash = a.prev) ↔
          (x :: xs).IsChain (fun a b => b.hash = a.prev) :=
        List.isChain_cons_cons.trans (and_iff_right hprev.symm)
      rw [List.reverse_cons, List.append_assoc, List.singleton_append, forEach, hc']
      simp only [hiff]
      exact hrest
    · have hnot : ¬ (b :: x :: xs).IsChain (fun a b => b.hash = a.prev) :=
        fun hchain => hprev (List.isChain_cons_cons.mp hchain).1.symm
      rw [Headers.prepend_of_ne hprev] at hstep
      rw [if_neg hnot, forEach, show c.prepend x = some (c, .error .invalidChain) from hstep]
      exact ⟨c, rfl⟩

end RepresentsIn

/-- What reading headers returns is what the operation on lists says. -/
def Reads (U : Set BlockHeader) (result : Option (Except ChainError Chain)) :
    Except ChainError (List BlockHeader) → Prop
  | .ok hs => ∃ c, result = some (.ok c) ∧ c.RepresentsIn U hs
  | .error e => result = some (.error e)

/-- **Reading a chain back.** -/
theorem tryFrom_reads (hU : IsAncestry U) {headers : List BlockHeader}
    (hmem : ∀ h ∈ headers, h ∈ U) :
    Reads U (tryFrom headers) (Headers.ofDescending headers) := by
  cases headers with
  | nil => rfl
  | cons tip rest =>
    rw [List.forall_mem_cons] at hmem
    have hnew : (new tip).RepresentsIn U [tip] :=
      ⟨represents_new tip, List.forall_mem_singleton.mpr hmem.1⟩
    have hloop := hnew.forEach_prepend hU rfl hmem.2
    by_cases hchain : (tip :: rest).IsChain (fun a b => b.hash = a.prev)
    · rw [if_pos hchain] at hloop
      obtain ⟨c, hc, hrep⟩ := hloop
      rw [Headers.ofDescending, if_pos hchain, List.reverse_cons, tryFrom, hc]
      exact ⟨c, rfl, hrep⟩
    · rw [if_neg hchain] at hloop
      obtain ⟨c, hc⟩ := hloop
      rw [Headers.ofDescending, if_neg hchain, tryFrom, hc]
      rfl

/-- A chain that is reached stands for a list. -/
theorem Reachable.representsIn (hU : IsAncestry U) (hc : Reachable U c) :
    ∃ hs, c.RepresentsIn U hs := by
  induction hc with
  | @new x hx => exact ⟨[x], represents_new x, List.forall_mem_singleton.mpr hx⟩
  | append _ hx hr ih =>
    obtain ⟨hs, h⟩ := ih
    exact (h.append hU hx).representsIn h hr
  | prepend _ hx hr ih =>
    obtain ⟨hs, h⟩ := ih
    exact (h.prepend hU hx).representsIn h hr
  | retip _ _ hr ih iho =>
    obtain ⟨hs, h⟩ := ih
    obtain ⟨os, ho⟩ := iho
    exact (h.retip hU ho).representsIn h hr
  | rebase _ _ hr ih iho =>
    obtain ⟨hs, h⟩ := ih
    obtain ⟨os, ho⟩ := iho
    exact (h.rebase hU ho).representsIn h hr
  | @tryFrom c headers hmem hr =>
    have hreads := tryFrom_reads hU hmem
    cases hspec : Headers.ofDescending headers with
    | ok hs =>
      rw [hspec] at hreads
      obtain ⟨c', hc', hrep⟩ := hreads
      rw [hc'] at hr
      cases hr
      exact ⟨hs, hrep⟩
    | error e =>
      rw [hspec] at hreads
      rw [show Chain.tryFrom headers = some (.error e) from hreads] at hr
      cases hr

/-- What is read of a chain is what the list says. -/
structure Shows (c : Chain) (hs : List BlockHeader) : Prop where
  iterForwards : c.iterForwards = some hs
  iterBackwards : c.iterBackwards = some hs.reverse
  containsBlock : ∀ hash, c.containsBlock hash ↔ hash ∈ Headers.hashes hs
  blocks : (c.blocks.map BlockInfo.header).Perm hs
  ne_nil : hs ≠ []
  baseHeader : c.baseHeader = hs.head?
  tipHeader : c.tipHeader = hs.getLast?

theorem Represents.shows (h : c.Represents hs) : c.Shows hs where
  iterForwards := h.iterForwards_eq
  iterBackwards := h.iterBackwards_eq
  containsBlock := fun _ => h.containsBlock_iff
  blocks := (h.blocks.map _).trans (List.Perm.of_eq (map_header_infosFrom none hs))
  ne_nil := h.ne_nil
  baseHeader := h.baseHeader_eq
  tipHeader := h.tipHeader_eq

/-- **A chain refines a list of headers**: what is read of it is what the list
says, and each operation is the one on the list. -/
structure RefinesList (U : Set BlockHeader) (c : Chain) (hs : List BlockHeader) : Prop where
  shows : c.Shows hs
  append : ∀ x ∈ U, c.Refines U (c.append x) (Headers.append hs x)
  prepend : ∀ x ∈ U, c.Refines U (c.prepend x) (Headers.prepend hs x)
  retip : ∀ other os, other.RepresentsIn U os →
    c.Refines U (c.retip other) (Headers.retip hs os)
  rebase : ∀ other os, other.RepresentsIn U os →
    c.Refines U (c.rebase other) (Headers.rebase hs os)

theorem RepresentsIn.allOperations (hU : IsAncestry U) (h : c.RepresentsIn U hs) :
    c.RefinesList U hs where
  shows := h.represents.shows
  append := fun _ hx => h.append hU hx
  prepend := fun _ hx => h.prepend hU hx
  retip := fun _ _ ho => h.retip hU ho
  rebase := fun _ _ ho => h.rebase hU ho

/-- **Every chain that is reached refines the list it stands for**, a new one
stands for its header, and reading headers is reading a list. -/
theorem refinesList (U : Set BlockHeader) (hU : IsAncestry U) :
    (∀ c : Chain, Reachable U c → ∃ hs, c.RepresentsIn U hs) ∧
    (∀ (c : Chain) (hs : List BlockHeader), c.RepresentsIn U hs → c.RefinesList U hs) ∧
    (∀ x ∈ U, (new x).RepresentsIn U [x]) ∧
    (∀ headers : List BlockHeader, (∀ h ∈ headers, h ∈ U) →
      Reads U (tryFrom headers) (Headers.ofDescending headers)) :=
  ⟨fun _ hc => hc.representsIn hU, fun _ _ h => h.allOperations hU,
    fun x hx => ⟨represents_new x, List.forall_mem_singleton.mpr hx⟩,
    fun _ hmem => tryFrom_reads hU hmem⟩

end Chain

namespace Sample

/-- A block and one after it. -/
def parent : BlockHeader := ⟨Bytes32.ofByte 1, 100, Bytes32.ofByte 0⟩

@[inherit_doc parent]
def child : BlockHeader := ⟨Bytes32.ofByte 2, 101, Bytes32.ofByte 1⟩

/-- The two blocks. -/
def family : Set BlockHeader := {h | h ∈ [parent, child]}

theorem family_isAncestry : IsAncestry family where
  injOn_hash := by
    have h : ∀ a ∈ [parent, child], ∀ b ∈ [parent, child], a.hash = b.hash → a = b := by decide
    exact fun a ha b hb => h a ha b hb
  acyclic := by
    -- A block is higher than its ancestors.
    have hstep : ∀ a ∈ [parent, child], ∀ b ∈ [parent, child], b.prev = a.hash →
        a.height < b.height := by decide
    have hlt : ∀ a b, Relation.TransGen (Follows family) a b → a.height < b.height := by
      intro a b hab
      induction hab with
      | single h => exact hstep _ h.1 _ h.2.1 h.2.2
      | tail _ h ih => exact UInt64.lt_trans ih (hstep _ h.1 _ h.2.1 h.2.2)
    exact fun x hx => UInt64.lt_irrefl _ (hlt x x hx)

end Sample

namespace Chain

/-- The second block is read back on top of the first. -/
theorem refinesList_sample :
    Reads Sample.family (tryFrom [Sample.child, Sample.parent])
      (.ok [Sample.parent, Sample.child]) :=
  (refinesList Sample.family Sample.family_isAncestry).2.2.2 [Sample.child, Sample.parent]
    (fun _ h => List.mem_reverse.mp h)

end Chain

end Swapd
