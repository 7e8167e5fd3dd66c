import Mathlib.Data.List.Induction
import Mathlib.Data.List.Nodup
import Mathlib.Data.List.Sort

/-!
# Tables as lists of rows

A relational table is a list of rows, a key is a function on rows. Three
statements recur: an insert that does nothing on a conflict with the key, a
select in a given order, and the iteration over an unordered collection, which
presents its elements in some order. What is proved about each is which rows
there are afterwards, and that keys stay distinct.
-/

namespace Table

variable {α κ : Type}

/-! ## Inserting -/

section Insert

variable [DecidableEq κ] (key : α → κ)

/-- `INSERT … ON CONFLICT DO NOTHING`, for one row. -/
def insertIgnore (rows : List α) (row : α) : List α :=
  if key row ∈ rows.map key then rows else rows ++ [row]

/-- `INSERT … ON CONFLICT DO NOTHING`: a row that conflicts with one inserted
before it in the same statement is skipped like any other. -/
def insertAll (rows new : List α) : List α :=
  new.foldl (insertIgnore key) rows

variable {key} {rows new : List α} {row x : α}

@[simp] theorem insertAll_nil : insertAll key rows [] = rows := rfl

@[simp] theorem insertAll_cons :
    insertAll key rows (row :: new)
      = insertAll key (insertIgnore key rows row) new := rfl

theorem mem_insertIgnore :
    x ∈ insertIgnore key rows row ↔
      x ∈ rows ∨ (x = row ∧ key row ∉ rows.map key) := by
  unfold insertIgnore
  split <;> simp_all

/-- The keys after an insert. -/
theorem mem_keys_insertIgnore {k : κ} :
    k ∈ (insertIgnore key rows row).map key ↔ k ∈ rows.map key ∨ k = key row := by
  unfold insertIgnore
  split
  next h =>
    constructor
    · exact Or.inl
    · rintro (hk | rfl)
      · exact hk
      · exact h
  next => simp [eq_comm]

theorem mem_keys_insertAll {k : κ} :
    k ∈ (insertAll key rows new).map key ↔ k ∈ rows.map key ∨ k ∈ new.map key := by
  induction new generalizing rows with
  | nil => simp
  | cons r rs ih =>
    rw [insertAll_cons, ih, mem_keys_insertIgnore, List.map_cons, List.mem_cons,
      or_assoc]

/-- Rows are never lost by an insert. -/
theorem mem_insertAll_of_mem (h : x ∈ rows) : x ∈ insertAll key rows new := by
  induction new generalizing rows with
  | nil => exact h
  | cons r rs ih => exact ih (mem_insertIgnore.mpr (Or.inl h))

/-- A row of the table was there or is new. -/
theorem mem_of_mem_insertAll (h : x ∈ insertAll key rows new) :
    x ∈ rows ∨ x ∈ new := by
  induction new generalizing rows with
  | nil => exact Or.inl h
  | cons r rs ih =>
    rcases ih h with h | h
    · rcases mem_insertIgnore.mp h with h | ⟨rfl, -⟩
      · exact Or.inl h
      · exact Or.inr List.mem_cons_self
    · exact Or.inr (List.mem_cons_of_mem r h)

/-- **When the key determines the row**, exactly the new rows are added. -/
theorem mem_insertAll (hdet : ∀ r ∈ new, ∀ r', r' ∈ rows ∨ r' ∈ new →
      key r' = key r → r' = r) :
    x ∈ insertAll key rows new ↔ x ∈ rows ∨ x ∈ new := by
  refine ⟨mem_of_mem_insertAll, fun h => h.elim mem_insertAll_of_mem (fun hx => ?_)⟩
  have hk : key x ∈ (insertAll key rows new).map key :=
    mem_keys_insertAll.mpr (Or.inr (List.mem_map_of_mem hx))
  obtain ⟨y, hy, hyx⟩ := List.mem_map.mp hk
  exact hdet x hx y (mem_of_mem_insertAll hy) hyx ▸ hy

/-- **Keys stay distinct.** -/
theorem nodup_insertAll (h : (rows.map key).Nodup) :
    ((insertAll key rows new).map key).Nodup := by
  induction new generalizing rows with
  | nil => exact h
  | cons r rs ih =>
    refine ih ?_
    unfold insertIgnore
    split
    next => exact h
    next hr =>
      rw [List.map_append, List.map_singleton]
      refine h.append (List.nodup_singleton _) ?_
      rintro k hk hk'
      exact hr (List.mem_singleton.mp hk' ▸ hk)

/-- Keys stay distinct when one row is inserted. -/
theorem nodup_insertIgnore (h : (rows.map key).Nodup) :
    ((insertIgnore key rows row).map key).Nodup := by
  show ((insertAll key rows [row]).map key).Nodup
  exact nodup_insertAll h

end Insert

section InsertRows

variable [DecidableEq α] {rows new : List α} {x : α}

/-- Where the key is the row, exactly the new rows are added. -/
theorem mem_insertAll_id : x ∈ insertAll id rows new ↔ x ∈ rows ∨ x ∈ new :=
  mem_insertAll (fun _ _ _ _ h => h)

theorem nodup_insertAll_id (h : rows.Nodup) : (insertAll id rows new).Nodup := by
  rw [← List.map_id (insertAll id rows new)]
  refine nodup_insertAll ?_
  rw [List.map_id]
  exact h

end InsertRows

/-! ## Looking up -/

/-- **A lookup by a key**, where keys are distinct. -/
theorem find?_key_eq_some_iff [DecidableEq κ] {key : α → κ} {rows : List α}
    (h : (rows.map key).Nodup) {k : κ} {row : α} :
    rows.find? (fun r => key r = k) = some row ↔ row ∈ rows ∧ key row = k := by
  constructor
  · intro hfind
    exact ⟨List.mem_of_find?_eq_some hfind, by simpa using List.find?_some hfind⟩
  · rintro ⟨hmem, hkey⟩
    have hsome : (rows.find? (fun r => key r = k)).isSome :=
      List.find?_isSome.mpr ⟨row, hmem, decide_eq_true hkey⟩
    obtain ⟨row', hrow'⟩ := Option.isSome_iff_exists.mp hsome
    have heq : key row' = k := by simpa using List.find?_some hrow'
    rw [hrow', List.inj_on_of_nodup_map h (List.mem_of_find?_eq_some hrow') hmem
      (heq.trans hkey.symm)]

/-! ## Maps and groups

A hash map is the list of its entries, with distinct keys. -/

section Maps

variable [DecidableEq κ] (key : α → κ)

/-- A row is entered in a map, in the place of one with its key. -/
def insertByKey (rows : List α) (row : α) : List α :=
  rows.filter (fun r => key r ≠ key row) ++ [row]

/-- Rows are collected in a map: of those with one key, the last is kept. -/
def toMap (rows : List α) : List α := rows.foldl (insertByKey key) []

/-- A row is pushed to the group of its key, which is made if there is none. -/
def pushByKey (groups : List (κ × List α)) (row : α) : List (κ × List α) :=
  if key row ∈ groups.map Prod.fst then
    groups.map (fun g => if g.1 = key row then (g.1, g.2 ++ [row]) else g)
  else groups ++ [(key row, [row])]

/-- Rows are grouped by their keys. -/
def groupByKey (rows : List α) : List (κ × List α) := rows.foldl (pushByKey key) []

variable {key} {rows : List α} {row x : α} {k : κ}

theorem toMap_append_singleton :
    toMap key (rows ++ [row]) = insertByKey key (toMap key rows) row := by
  rw [toMap, List.foldl_append]
  rfl

theorem groupByKey_append_singleton :
    groupByKey key (rows ++ [row]) = pushByKey key (groupByKey key rows) row := by
  rw [groupByKey, List.foldl_append]
  rfl

theorem mem_insertByKey :
    x ∈ insertByKey key rows row ↔ (x ∈ rows ∧ key x ≠ key row) ∨ x = row := by
  rw [insertByKey, List.mem_append, List.mem_filter, List.mem_singleton, decide_eq_true_eq]

theorem mem_of_mem_toMap (h : x ∈ toMap key rows) : x ∈ rows := by
  induction rows using List.reverseRecOn with
  | nil => exact h
  | append_singleton rows row ih =>
    rw [toMap_append_singleton, mem_insertByKey] at h
    rw [List.mem_append, List.mem_singleton]
    exact h.imp (fun hx => ih hx.1) id

/-- **A map has the keys** of the rows collected in it. -/
theorem mem_keys_toMap : k ∈ (toMap key rows).map key ↔ k ∈ rows.map key := by
  induction rows using List.reverseRecOn with
  | nil => rfl
  | append_singleton rows row ih =>
    rw [List.map_append, List.mem_append, ← ih, List.map_singleton, List.mem_singleton,
      toMap_append_singleton, List.mem_map, List.mem_map]
    constructor
    · rintro ⟨x, hx, rfl⟩
      rcases mem_insertByKey.mp hx with ⟨hx, -⟩ | rfl
      · exact Or.inl ⟨x, hx, rfl⟩
      · exact Or.inr rfl
    · rintro (⟨x, hx, rfl⟩ | rfl)
      · by_cases hkey : key x = key row
        · exact ⟨row, mem_insertByKey.mpr (Or.inr rfl), hkey.symm⟩
        · exact ⟨x, mem_insertByKey.mpr (Or.inl ⟨hx, hkey⟩), rfl⟩
      · exact ⟨row, mem_insertByKey.mpr (Or.inr rfl), rfl⟩

/-- **Keys of groups are distinct.** -/
theorem nodup_groupByKey : ((groupByKey key rows).map Prod.fst).Nodup := by
  induction rows using List.reverseRecOn with
  | nil => exact List.nodup_nil
  | append_singleton rows row ih =>
    rw [groupByKey_append_singleton, pushByKey]
    by_cases h : key row ∈ (groupByKey key rows).map Prod.fst
    · rw [if_pos h, List.map_map]
      have hfst : (Prod.fst ∘ fun g : κ × List α =>
          if g.1 = key row then (g.1, g.2 ++ [row]) else g) = Prod.fst := by
        funext g
        show (if g.1 = key row then (g.1, g.2 ++ [row]) else g).1 = g.1
        split <;> rfl
      rw [hfst]
      exact ih
    · rw [if_neg h, List.map_append]
      refine ih.append (List.nodup_singleton _) ?_
      rintro k hk hk'
      obtain rfl : k = key row := List.mem_singleton.mp hk'
      exact h hk

/-- **What the groups are**: for each key, the rows with it, if there are any. -/
theorem mem_groupByKey {g : κ × List α} :
    g ∈ groupByKey key rows ↔ g.2 = rows.filter (fun r => key r = g.1) ∧ g.2 ≠ [] := by
  induction rows using List.reverseRecOn generalizing g with
  | nil =>
    refine iff_of_false (List.not_mem_nil) ?_
    rintro ⟨h, hne⟩
    exact hne h
  | append_singleton rows row ih =>
    have hfilter (k : κ) : (rows ++ [row]).filter (fun r => key r = k)
        = rows.filter (fun r => key r = k) ++ if key row = k then [row] else [] := by
      rw [List.filter_append, List.filter_singleton]
      by_cases h : key row = k
      · rw [if_pos h, decide_eq_true h]
        rfl
      · rw [if_neg h, decide_eq_false h]
        rfl
    rw [groupByKey_append_singleton, pushByKey, hfilter]
    by_cases h : key row ∈ (groupByKey key rows).map Prod.fst
    · rw [if_pos h, List.mem_map]
      constructor
      · rintro ⟨g', hg', rfl⟩
        have ⟨hg, hne⟩ := ih.mp hg'
        by_cases hk : g'.1 = key row
        · rw [if_pos hk, if_pos hk.symm, hg]
          exact ⟨rfl, List.append_ne_nil_of_right_ne_nil _ (List.cons_ne_nil _ _)⟩
        · rw [if_neg hk, if_neg (Ne.symm hk), List.append_nil]
          exact ⟨hg, hne⟩
      · rintro ⟨hg, hne⟩
        by_cases hk : key row = g.1
        · obtain ⟨g', hg', hkey⟩ := List.mem_map.mp h
          rw [if_pos hk] at hg
          refine ⟨g', hg', ?_⟩
          rw [if_pos hkey, (ih.mp hg').1, hkey, hk, ← hg]
        · rw [if_neg hk, List.append_nil] at hg
          exact ⟨g, ih.mpr ⟨hg, hne⟩, if_neg (Ne.symm hk)⟩
    · rw [if_neg h, List.mem_append, List.mem_singleton]
      have hnil : rows.filter (fun r => key r = key row) = [] := by
        by_contra hne
        exact h (List.mem_map.mpr ⟨(key row, _), ih.mpr ⟨rfl, hne⟩, rfl⟩)
      by_cases hk : key row = g.1
      · rw [if_pos hk, ← hk, hnil, List.nil_append]
        constructor
        · rintro (hg | rfl)
          · exact absurd (List.mem_map.mpr ⟨g, hg, hk.symm⟩) h
          · exact ⟨rfl, List.cons_ne_nil _ _⟩
        · rintro ⟨hg, -⟩
          exact Or.inr (Prod.ext hk.symm hg)
      · rw [if_neg hk, List.append_nil, ih]
        refine ⟨fun hg => hg.elim id (fun hg => absurd (congrArg Prod.fst hg).symm hk), Or.inl⟩

/-- **A row is in exactly one group**, that of its key. -/
theorem existsUnique_mem_groupByKey (h : x ∈ rows) :
    ∃! g, g ∈ groupByKey key rows ∧ x ∈ g.2 := by
  have hx : x ∈ rows.filter (fun r => key r = key x) :=
    List.mem_filter.mpr ⟨h, decide_eq_true rfl⟩
  refine ⟨(key x, _), ⟨mem_groupByKey.mpr ⟨rfl, List.ne_nil_of_mem hx⟩, hx⟩, ?_⟩
  rintro g ⟨hg, hxg⟩
  have hrows := (mem_groupByKey.mp hg).1
  rw [hrows] at hxg
  have hkey : key x = g.1 := of_decide_eq_true (List.mem_filter.mp hxg).2
  refine Prod.ext hkey.symm ?_
  rw [hrows, hkey]

/-- **Groups have nothing in common**, where what is looked at determines the key. -/
theorem pairwise_groupByKey {β : Type} {point : α → β}
    (hdet : ∀ x ∈ rows, ∀ y ∈ rows, point x = point y → key x = key y) :
    (groupByKey key rows).Pairwise
      (fun g g' => List.Disjoint (g.2.map point) (g'.2.map point)) := by
  have hkeys := @nodup_groupByKey _ _ _ key rows
  rw [List.Nodup, List.pairwise_map] at hkeys
  refine hkeys.imp_of_mem (fun {g g'} hg hg' hne => ?_)
  intro p hp hp'
  obtain ⟨x, hx, rfl⟩ := List.mem_map.mp hp
  obtain ⟨y, hy, hpoint⟩ := List.mem_map.mp hp'
  rw [(mem_groupByKey.mp hg).1, List.mem_filter, decide_eq_true_eq] at hx
  rw [(mem_groupByKey.mp hg').1, List.mem_filter, decide_eq_true_eq] at hy
  exact hne (hx.2.symm.trans ((hdet x hx.1 y hy.1 hpoint.symm).trans hy.2))

end Maps

/-! ### Groups of joined rows -/

section Join

variable {β : Type} [DecidableEq κ] {key : β → κ} {keyOf : α → κ} {rows : α → List β}
  {xs : List α} {joined : List β}

/-- **What has been joined to one row**, where keys are distinct. -/
theorem filter_flatMap_of_mem (hkey : ∀ x ∈ xs, ∀ r ∈ rows x, key r = keyOf x)
    (hnodup : (xs.map keyOf).Nodup) {x : α} (hx : x ∈ xs) :
    (xs.flatMap rows).filter (fun r => key r = keyOf x) = rows x := by
  induction xs with
  | nil => cases hx
  | cons y xs ih =>
    rw [List.map_cons, List.nodup_cons] at hnodup
    rw [List.forall_mem_cons] at hkey
    rw [List.flatMap_cons, List.filter_append]
    rcases List.mem_cons.mp hx with rfl | hx
    · have hself : (rows x).filter (fun r => key r = keyOf x) = rows x :=
        List.filter_eq_self.mpr (fun r hr => decide_eq_true (hkey.1 r hr))
      have hrest : (xs.flatMap rows).filter (fun r => key r = keyOf x) = [] := by
        refine List.filter_eq_nil_iff.mpr (fun r hr heq => ?_)
        obtain ⟨y, hy, hr⟩ := List.mem_flatMap.mp hr
        refine hnodup.1 (List.mem_map.mpr ⟨y, hy, ?_⟩)
        rw [← hkey.2 y hy r hr, of_decide_eq_true heq]
      rw [hself, hrest, List.append_nil]
    · have hfirst : (rows y).filter (fun r => key r = keyOf x) = [] := by
        refine List.filter_eq_nil_iff.mpr (fun r hr heq => ?_)
        refine hnodup.1 (List.mem_map.mpr ⟨x, hx, ?_⟩)
        rw [← hkey.1 r hr, of_decide_eq_true heq]
      rw [hfirst, List.nil_append, ih hkey.2 hnodup.2 hx]

/-- **Groups of joined rows**: in whatever order they come, there is one group for each
row that others have been joined to, with what has been joined to it. -/
theorem groupByKey_flatMap (hperm : joined.Perm (xs.flatMap rows))
    (hkey : ∀ x ∈ xs, ∀ r ∈ rows x, key r = keyOf x) (hne : ∀ x ∈ xs, rows x ≠ [])
    (hnodup : (xs.map keyOf).Nodup) :
    ∃ groups, (groupByKey key joined).Perm groups ∧
      List.Forall₂ (fun g x => g.2.Perm (rows x)) groups xs := by
  have hgroup : ∀ x ∈ xs, (joined.filter (fun r => key r = keyOf x)).Perm (rows x) := by
    intro x hx
    rw [← filter_flatMap_of_mem hkey hnodup hx]
    exact hperm.filter _
  refine ⟨xs.map (fun x => (keyOf x, joined.filter (fun r => key r = keyOf x))), ?_, ?_⟩
  · have hfst : ((xs.map (fun x => (keyOf x, joined.filter (fun r => key r = keyOf x)))).map
        Prod.fst).Nodup := by
      rw [List.map_map]
      exact hnodup
    refine (List.perm_ext_iff_of_nodup nodup_groupByKey.of_map hfst.of_map).mpr (fun g => ?_)
    rw [mem_groupByKey, List.mem_map]
    constructor
    · rintro ⟨hrows, hg⟩
      obtain ⟨r, hr⟩ := List.exists_mem_of_ne_nil _ hg
      rw [hrows, List.mem_filter, decide_eq_true_eq] at hr
      obtain ⟨x, hx, hrx⟩ := List.mem_flatMap.mp (hperm.mem_iff.mp hr.1)
      have hof : keyOf x = g.1 := (hkey x hx r hrx).symm.trans hr.2
      refine ⟨x, hx, Prod.ext hof ?_⟩
      rw [hrows, hof]
    · rintro ⟨x, hx, rfl⟩
      refine ⟨rfl, fun hnil => hne x hx ?_⟩
      have hempty : ([] : List β).Perm (rows x) := hnil ▸ hgroup x hx
      exact List.nil_perm.mp hempty
  · rw [List.forall₂_map_left_iff, List.forall₂_same]
    exact hgroup

end Join

/-! ## Selecting -/

/-- `ORDER BY`. -/
def orderBy (le : α → α → Prop) [DecidableRel le] (rows : List α) : List α :=
  rows.insertionSort le

section OrderBy

variable {le : α → α → Prop} [DecidableRel le] {rows : List α} {x : α}

theorem orderBy_perm : (orderBy le rows).Perm rows := List.perm_insertionSort le rows

@[simp] theorem mem_orderBy : x ∈ orderBy le rows ↔ x ∈ rows :=
  orderBy_perm.mem_iff

/-- The rows come out in order. -/
theorem pairwise_orderBy (htotal : ∀ a b, le a b ∨ le b a)
    (htrans : ∀ a b c, le a b → le b c → le a c) : (orderBy le rows).Pairwise le :=
  haveI : Std.Total le := ⟨htotal⟩
  haveI : IsTrans α le := ⟨htrans⟩
  List.pairwise_insertionSort le rows

theorem nodup_map_orderBy {f : α → κ} :
    ((orderBy le rows).map f).Nodup ↔ (rows.map f).Nodup :=
  (orderBy_perm.map f).nodup_iff

end OrderBy

/-! ## Iterating without an order -/

/-- **The elements of a list in another order**, given by their positions. An
order that does not present each element once is disregarded, so that every
order is one in which the elements could come. -/
def permute (order : List ℕ) (xs : List α) : List α :=
  if order.Perm (List.range xs.length) then order.filterMap (fun i => xs[i]?) else xs

/-- The elements at the positions of a list are the list. -/
theorem filterMap_getElem?_range (xs : List α) :
    (List.range xs.length).filterMap (fun i => xs[i]?) = xs := by
  induction xs using List.reverseRecOn with
  | nil => rfl
  | append_singleton xs x ih =>
    have hpre : List.filterMap (fun i => (xs ++ [x])[i]?) (List.range xs.length)
        = List.filterMap (fun i => xs[i]?) (List.range xs.length) :=
      List.filterMap_congr (fun j hj =>
        List.getElem?_append_left (List.mem_range.mp hj))
    rw [List.length_append, List.length_singleton, List.range_succ,
      List.filterMap_append, hpre, ih]
    simp

theorem permute_perm (order : List ℕ) (xs : List α) :
    (permute order xs).Perm xs := by
  unfold permute
  split
  next h =>
    exact (h.filterMap _).trans (List.Perm.of_eq (filterMap_getElem?_range xs))
  next => exact List.Perm.refl _

@[simp] theorem mem_permute {order : List ℕ} {xs : List α} {x : α} :
    x ∈ permute order xs ↔ x ∈ xs := (permute_perm order xs).mem_iff

theorem nodup_map_permute {order : List ℕ} {xs : List α} {f : α → κ} :
    ((permute order xs).map f).Nodup ↔ (xs.map f).Nodup :=
  ((permute_perm order xs).map f).nodup_iff

end Table
