import Mathlib.Algebra.Order.Floor.Ring
import Mathlib.Data.Rat.Floor
import Swapd.Integer
import Swapd.Nearest
import Swapd.Types

/-!
# Fee estimates by table

The estimator keeps the last table it was sent: rates by the number of blocks a
transaction should confirm within, and by the certainty with which it should.
An estimate is the entry whose row is nearest to the target and whose column is
nearest to a certainty, which falls as the target grows: half at the lock time
of a swap, and whole when no block is left.

Columns are texts and are parsed as they are looked at. What they parse to, and
what a rate is the logarithm of, are rationals here; the exponential function
is a parameter.

A closer deadline selects an earlier row and a later column, so its rate is no
lower (`estimateFee_antitone`).
-/

namespace Swapd

open Nearest

/-- The age from which on a table is not used, in seconds. -/
def staleSeconds : ℕ := 60 * 12

/-- `WhatTheFeeResponse`. -/
structure WhatTheFeeResponse where
  index : List ℤ
  columns : List String
  data : List (List ℤ)
deriving DecidableEq

/-- `LastResponse`. -/
structure LastResponse where
  timestamp : SystemTime
  response : WhatTheFeeResponse
deriving DecidableEq

/-- **The estimator**, and the last table it was sent. -/
structure WhatTheFeeEstimator where
  lockTime : UInt16
  lastResponse : Option LastResponse
deriving DecidableEq

/-- `as u32`: towards zero, and kept in range. -/
def asU32 (x : ℚ) : UInt32 := UInt32.ofNat (min ⌊x⌋.toNat (2 ^ 32 - 1))

/-- Whether a table is too old. Its age is counted in whole seconds, and does not
exist before its timestamp. -/
def LastResponse.IsStale (last : LastResponse) (now : SystemTime) : Prop :=
  now < last.timestamp ∨ staleSeconds < (now - last.timestamp).toNat / 1000000000

instance (last : LastResponse) (now : SystemTime) : Decidable (last.IsStale now) :=
  inferInstanceAs (Decidable (_ ∨ _))

namespace WhatTheFeeEstimator

/-- How far a row is from the target, on 32 bits. -/
def rowDistance (confTarget row : ℤ) : ℤ :=
  Int.bmod |Int.bmod (row - confTarget) (2 ^ 32)| (2 ^ 32)

/-- The certainty asked for. -/
def certainty (lockTime : UInt16) (confTarget : ℤ) : ℚ :=
  1 / 2 + (lockTime.toNat - confTarget) / lockTime.toNat / 2

variable (parse : String → Option ℚ)

/-- A column is parsed and looked at. -/
def closerColumn (certainty : ℚ) (best : ℕ × ℚ) (column : String × ℕ) :
    Except FeeEstimateError (ℕ × ℚ) :=
  match parse column.1 with
  | some c => .ok (closer (fun c => |c - certainty|) best (c, column.2))
  | none => .error .unavailable

/-- The position of the column. -/
def selectColumn (certainty : ℚ) : List String → Except FeeEstimateError ℕ
  | [] => .error .unavailable
  | column :: columns =>
    match parse column with
    | some c => ((columns.zipIdx 1).foldlM (closerColumn parse certainty) (0, c)).map Prod.fst
    | none => .error .unavailable

/-- An entry of the table. -/
def entryAt (response : WhatTheFeeResponse) (row column : ℕ) : Option ℤ :=
  response.data[row]?.bind (fun entries => entries[column]?)

/-- The entry that is selected for a target. -/
def selectEntry (lockTime : UInt16) (response : WhatTheFeeResponse) (confTarget : ℤ) :
    Except FeeEstimateError ℤ :=
  match nearest (rowDistance confTarget) response.index with
  | none => .error .unavailable
  | some row => do
    let column ← selectColumn parse (certainty lockTime confTarget) response.columns
    match entryAt response row column with
    | some rate => .ok rate
    | none => .error .unavailable

variable (exp : ℚ → ℚ)

/-- The fee rate of an entry. -/
def satPerKw (rate : ℤ) : UInt32 := asU32 (exp (rate / 100) * 250)

/-- `estimate_fee`. -/
def estimateFee (est : WhatTheFeeEstimator) (now : SystemTime) (confTarget : ℤ) :
    Except FeeEstimateError FeeEstimate :=
  match est.lastResponse with
  | none => .error .unavailable
  | some last =>
    if last.IsStale now then .error .unavailable
    else (selectEntry parse est.lockTime last.response confTarget).map
      (fun rate => ⟨satPerKw exp rate⟩)

/-! ## Rows and columns -/

/-- **A table as it should be**: its index and its columns increase, there is an
entry for each of both, and rates do not grow with the number of blocks or fall
with the certainty. -/
structure IsTable (response : WhatTheFeeResponse) (certainties : List ℚ) : Prop where
  index_ne_nil : response.index ≠ []
  index_increasing : response.index.Pairwise (· < ·)
  columns : response.columns.map parse = certainties.map some
  columns_ne_nil : response.columns ≠ []
  columns_increasing : certainties.Pairwise (· < ·)
  length_data : response.data.length = response.index.length
  length_row : ∀ entries ∈ response.data, entries.length = response.columns.length
  along_index : ∀ (i j c : ℕ) (a b : ℤ), i ≤ j → entryAt response i c = some a →
    entryAt response j c = some b → b ≤ a
  along_columns : ∀ (i c d : ℕ) (a b : ℤ), c ≤ d → entryAt response i c = some a →
    entryAt response i d = some b → a ≤ b

/-- **No distance overflows**: every row is less than a half range from the target. -/
def InRange (response : WhatTheFeeResponse) (confTarget : ℤ) : Prop :=
  ∀ row ∈ response.index, -2 ^ 31 < row - confTarget ∧ row - confTarget < 2 ^ 31

variable {parse} {exp} {response : WhatTheFeeResponse} {certainties : List ℚ} {lockTime : UInt16}
  {s t : ℤ}

/-- A distance that does not overflow. -/
theorem rowDistance_eq {row : ℤ} (h : -2 ^ 31 < row - t) (h' : row - t < 2 ^ 31) :
    rowDistance t row = |row - t| := by
  have hinner : Int.bmod (row - t) 4294967296 = row - t :=
    Int.bmod_eq_of_le (by omega) (by omega)
  show Int.bmod |Int.bmod (row - t) 4294967296| 4294967296 = _
  rw [hinner]
  rcases abs_cases (row - t) with ⟨heq, hle⟩ | ⟨heq, hlt⟩ <;> rw [heq] <;>
    exact Int.bmod_eq_of_le (by omega) (by omega)

/-- The scan of the rows is one by distance. -/
theorem nearest_rowDistance (h : InRange response t) :
    nearest (rowDistance t) response.index = nearest (fun row => |row - t|) response.index :=
  nearest_congr (fun row hrow => rowDistance_eq (h row hrow).1 (h row hrow).2)

/-- The scan of the columns, once they are parsed. -/
theorem foldlM_closerColumn {x : ℚ} {columns : List String} {cs : List ℚ}
    (h : columns.map parse = cs.map some) (n : ℕ) (best : ℕ × ℚ) :
    (columns.zipIdx n).foldlM (closerColumn parse x) best
      = .ok ((cs.zipIdx n).foldl (closer (fun c => |c - x|)) best) := by
  induction columns generalizing cs n best with
  | nil =>
    rw [List.map_nil, eq_comm, List.map_eq_nil_iff] at h
    rw [h]
    rfl
  | cons column columns ih =>
    obtain ⟨c, cs, rfl, hc, hcs⟩ := List.map_eq_cons_iff.mp h.symm
    rw [List.zipIdx_cons, List.foldlM_cons, List.zipIdx_cons, List.foldl_cons]
    simp only [closerColumn, ← hc]
    exact ih hcs.symm (n + 1) _

/-- **The column that is selected** is the nearest to the certainty. -/
theorem selectColumn_eq {x : ℚ} {columns : List String} {cs : List ℚ}
    (h : columns.map parse = cs.map some) {n : ℕ} :
    selectColumn parse x columns = .ok n ↔ nearest (fun c => |c - x|) cs = some n := by
  cases columns with
  | nil =>
    rw [List.map_nil, eq_comm, List.map_eq_nil_iff] at h
    rw [h]
    exact ⟨nofun, nofun⟩
  | cons column columns =>
    obtain ⟨c, cs, rfl, hc, hcs⟩ := List.map_eq_cons_iff.mp h.symm
    rw [selectColumn, ← hc]
    simp only [foldlM_closerColumn hcs.symm]
    rw [nearest, Option.some.injEq]
    exact ⟨Except.ok.inj, fun heq => congrArg Except.ok heq⟩

/-- The certainty falls as the target grows. -/
theorem certainty_antitone (hlock : 0 < lockTime) (hst : s ≤ t) :
    certainty lockTime t ≤ certainty lockTime s := by
  have hpos : (0 : ℚ) < lockTime.toNat := by
    exact_mod_cast UInt16.lt_iff_toNat_lt.mp hlock
  have hcast : (s : ℚ) ≤ t := Int.cast_le.mpr hst
  unfold certainty
  gcongr

/-- The rate of an entry is monotone. -/
theorem satPerKw_mono (hexp : Monotone exp) {a b : ℤ} (h : a ≤ b) :
    satPerKw exp a ≤ satPerKw exp b := by
  have hcast : (a : ℚ) / 100 ≤ b / 100 := by
    have := Int.cast_le (R := ℚ).mpr h
    gcongr
  have hfloor : ⌊exp (a / 100) * 250⌋ ≤ ⌊exp (b / 100) * 250⌋ :=
    Int.floor_mono (mul_le_mul_of_nonneg_right (hexp hcast) (by norm_num))
  rw [satPerKw, satPerKw, UInt32.le_iff_toNat_le, asU32, asU32,
    UInt32.toNat_ofNat_of_lt' (Nat.lt_of_le_of_lt (Nat.min_le_right _ _) (by decide)),
    UInt32.toNat_ofNat_of_lt' (Nat.lt_of_le_of_lt (Nat.min_le_right _ _) (by decide))]
  omega

/-! ## The entry that is selected -/

/-- **An entry is selected for every target**, at the nearest row and column. -/
theorem IsTable.exists_selectEntry (h : IsTable parse response certainties) (lockTime : UInt16)
    (hrange : InRange response t) :
    ∃ row column rate, nearest (fun row => |row - t|) response.index = some row ∧
      nearest (fun c => |c - certainty lockTime t|) certainties = some column ∧
      entryAt response row column = some rate ∧
      selectEntry parse lockTime response t = .ok rate := by
  have hlen : response.columns.length = certainties.length := by
    rw [← List.length_map (f := parse), h.columns, List.length_map]
  have hne : certainties ≠ [] := by
    intro hnil
    rw [hnil, List.length_nil, List.length_eq_zero_iff] at hlen
    exact h.columns_ne_nil hlen
  obtain ⟨row, hrow⟩ : ∃ row, nearest (fun row => |row - t|) response.index = some row :=
    exists_nearest h.index_ne_nil
  obtain ⟨column, hcolumn⟩ : ∃ column,
      nearest (fun c => |c - certainty lockTime t|) certainties = some column :=
    exists_nearest hne
  have hrowlt : row < response.data.length := by
    obtain ⟨x, hx⟩ := nearest_eq_some_iff.mp hrow
    rw [h.length_data]
    exact (List.getElem?_eq_some_iff.mp hx.getElem?).1
  have hcolumnlt : column < response.data[row].length := by
    obtain ⟨x, hx⟩ := nearest_eq_some_iff.mp hcolumn
    rw [h.length_row _ (List.getElem_mem hrowlt), hlen]
    exact (List.getElem?_eq_some_iff.mp hx.getElem?).1
  have hentry : entryAt response row column = some response.data[row][column] := by
    rw [entryAt, List.getElem?_eq_getElem hrowlt, Option.bind_some,
      List.getElem?_eq_getElem hcolumnlt]
  refine ⟨row, column, _, hrow, hcolumn, hentry, ?_⟩
  rw [selectEntry, nearest_rowDistance hrange, hrow]
  simp only [(selectColumn_eq h.columns).mpr hcolumn]
  show (match entryAt response row column with
    | some rate => Except.ok rate
    | none => Except.error FeeEstimateError.unavailable) = _
  rw [hentry]

/-- **A closer deadline never gets a lower fee.** For two targets, the entry that is
selected for the closer one is at least the other, and so is the rate that is
estimated, whenever it is. -/
theorem estimateFee_antitone {est : WhatTheFeeEstimator} {last : LastResponse}
    (hlast : est.lastResponse = some last) (h : IsTable parse last.response certainties)
    (hlock : 0 < est.lockTime) (hexp : Monotone exp) (hst : s ≤ t)
    (hs : InRange last.response s) (ht : InRange last.response t) :
    ∃ a b, selectEntry parse est.lockTime last.response s = .ok a ∧
      selectEntry parse est.lockTime last.response t = .ok b ∧ b ≤ a ∧
      satPerKw exp b ≤ satPerKw exp a ∧
      ∀ now, ¬last.IsStale now →
        estimateFee parse exp est now s = .ok ⟨satPerKw exp a⟩ ∧
          estimateFee parse exp est now t = .ok ⟨satPerKw exp b⟩ := by
  obtain ⟨i, c, a, hi, hc, ha, hselect⟩ := h.exists_selectEntry est.lockTime hs
  obtain ⟨j, d, b, hj, hd, hb, hselect'⟩ := h.exists_selectEntry est.lockTime ht
  have hij : i ≤ j := nearest_le_of_le h.index_increasing hst hi hj
  have hdc : d ≤ c :=
    nearest_le_of_le h.columns_increasing (certainty_antitone hlock hst) hd hc
  have hba : b ≤ a := by
    -- the entry in the row of the one and the column of the other is between them
    have hrow : ∃ e, entryAt last.response i d = some e := by
      obtain ⟨entries, hentries, hce⟩ := Option.bind_eq_some_iff.mp ha
      have hlt := (List.getElem?_eq_some_iff.mp hce).1
      exact ⟨entries[d], by
        rw [entryAt, hentries, Option.bind_some, List.getElem?_eq_getElem (hdc.trans_lt hlt)]⟩
    obtain ⟨e, he⟩ := hrow
    exact (h.along_index i j d e b hij he hb).trans (h.along_columns i d c e a hdc he ha)
  refine ⟨a, b, hselect, hselect', hba, satPerKw_mono hexp hba, fun now hnow => ?_⟩
  rw [estimateFee, estimateFee, hlast]
  simp only [if_neg hnow, hselect, hselect']
  exact ⟨rfl, rfl⟩

end WhatTheFeeEstimator

namespace Sample

/-- The columns that are read. -/
def parseColumn (text : String) : Option ℚ :=
  if text = "0.05" then some (1 / 20) else if text = "0.95" then some (19 / 20) else none

/-- The exponential function at zero and at one, as a float has it. -/
def exponential (x : ℚ) : ℚ := if x < 1 then 1 else 2718281828459045 / 1000000000000000

theorem exponential_mono : Monotone exponential := by
  intro x y hxy
  unfold exponential
  split
  next => split <;> norm_num
  next hx =>
    rw [if_neg (fun hy => hx (hxy.trans_lt hy))]

/-- A table. -/
def feeTable : WhatTheFeeResponse := ⟨[2, 144], ["0.05", "0.95"], [[0, 100], [0, 0]]⟩

/-- The estimator that was sent the table. -/
def estimator : WhatTheFeeEstimator := ⟨288, some ⟨0, feeTable⟩⟩

theorem feeTable_isTable : WhatTheFeeEstimator.IsTable parseColumn feeTable [1 / 20, 19 / 20] where
  index_ne_nil := by decide
  index_increasing := by decide
  columns := rfl
  columns_ne_nil := by decide
  columns_increasing := by norm_num
  length_data := rfl
  length_row := by decide
  along_index := fun i j c a b hij ha hb => by
    match i, j, c with
    | 0, 0, c => exact (Option.some.inj (ha.symm.trans hb)).ge
    | 0, 1, 0 => exact (Option.some.inj ha) ▸ (Option.some.inj hb) ▸ le_refl _
    | 0, 1, 1 => exact (Option.some.inj ha) ▸ (Option.some.inj hb) ▸ (by decide)
    | 0, 1, c + 2 => cases hb
    | 1, 1, c => exact (Option.some.inj (ha.symm.trans hb)).ge
    | _, j + 2, _ => cases hb
    | i + 2, _, _ => cases ha
  along_columns := fun i c d a b hcd ha hb => by
    match i, c, d with
    | i, 0, 0 => exact (Option.some.inj (ha.symm.trans hb)).le
    | 0, 0, 1 => exact (Option.some.inj ha) ▸ (Option.some.inj hb) ▸ (by decide)
    | 1, 0, 1 => exact (Option.some.inj ha) ▸ (Option.some.inj hb) ▸ le_refl _
    | i, 1, 1 => exact (Option.some.inj (ha.symm.trans hb)).le
    | _, 1, 0 => exact absurd hcd (by decide)
    | 0, c + 2, _ => cases ha
    | 1, c + 2, _ => cases ha
    | 0, _, d + 2 => cases hb
    | 1, _, d + 2 => cases hb
    | i + 2, _, _ => cases ha

end Sample

open Sample WhatTheFeeEstimator in
theorem WhatTheFeeEstimator.estimateFee_antitone_sample :
    ∃ a b, selectEntry parseColumn 288 feeTable 2 = .ok a ∧
      selectEntry parseColumn 288 feeTable 288 = .ok b ∧ b ≤ a ∧
      satPerKw exponential b ≤ satPerKw exponential a := by
  have hrange {t : ℤ} (ht : t = 2 ∨ t = 288) : InRange feeTable t := by
    intro row hrow
    rcases ht with rfl | rfl <;> rcases List.mem_pair.mp hrow with rfl | rfl <;> decide
  obtain ⟨a, b, ha, hb, hle, hrate, -⟩ := @estimateFee_antitone parseColumn exponential
    [1 / 20, 19 / 20] 2 288 estimator ⟨0, feeTable⟩ rfl feeTable_isTable (by decide)
    exponential_mono (by decide) (hrange (Or.inl rfl)) (hrange (Or.inr rfl))
  exact ⟨a, b, ha, hb, hle, hrate⟩

end Swapd
