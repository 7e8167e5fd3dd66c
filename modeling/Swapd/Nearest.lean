import Mathlib.Algebra.Order.Ring.Abs
import Mathlib.Data.List.Pairwise
import Mathlib.Tactic.Linarith

/-!
# The nearest element of a list

A scan for the nearest element of a list keeps the best position so far and
moves on only to something strictly nearer, so of several nearest elements it
ends at the first. `IsNearest` says so without the scan, and
`nearest_eq_some_iff` that the scan finds it.

In an increasing list the nearest element moves forwards with the target
(`IsNearest.le_of_le`), ties included: where two elements are equally near, the
first is taken for every target up to there, and the second from there on.
-/

namespace Nearest

variable {α δ : Type} [LinearOrder δ]

/-- One element is looked at: it is taken if it is strictly nearer. -/
def closer (dist : α → δ) (best : ℕ × α) (x : α × ℕ) : ℕ × α :=
  if dist x.1 < dist best.2 then (x.2, x.1) else best

/-- **The scan**, from the first element on. -/
def nearest (dist : α → δ) : List α → Option ℕ
  | [] => none
  | x :: xs => some ((xs.zipIdx 1).foldl (closer dist) (0, x)).1

/-- **The first of the nearest elements** is at a position. -/
structure IsNearest (dist : α → δ) (xs : List α) (n : ℕ) (x : α) : Prop where
  getElem? : xs[n]? = some x
  le : ∀ (m : ℕ) (y : α), xs[m]? = some y → dist x ≤ dist y
  lt : ∀ (m : ℕ) (y : α), m < n → xs[m]? = some y → dist x < dist y

variable {dist : α → δ} {xs ys : List α} {m n : ℕ} {x y : α}

/-- It is the only one. -/
theorem IsNearest.unique (h : IsNearest dist xs m x) (h' : IsNearest dist xs n y) : m = n := by
  rcases Nat.lt_trichotomy m n with hlt | heq | hgt
  · exact absurd (h.le n y h'.getElem?) (not_le_of_gt (h'.lt m x hlt h.getElem?))
  · exact heq
  · exact absurd (h'.le m x h.getElem?) (not_le_of_gt (h.lt n y hgt h'.getElem?))

/-- One more element, that is not strictly nearer. -/
theorem IsNearest.concat (h : IsNearest dist xs n x) (hy : dist x ≤ dist y) :
    IsNearest dist (xs ++ [y]) n x where
  getElem? := by
    rw [List.getElem?_append_left (List.getElem?_eq_some_iff.mp h.getElem?).1]
    exact h.getElem?
  le := fun m z hz => by
    rcases Nat.lt_or_ge m xs.length with hm | hm
    · rw [List.getElem?_append_left hm] at hz
      exact h.le m z hz
    · rw [List.getElem?_append_right hm] at hz
      obtain rfl := List.mem_singleton.mp (List.mem_of_getElem? hz)
      exact hy
  lt := fun m z hm hz => by
    have hn := (List.getElem?_eq_some_iff.mp h.getElem?).1
    rw [List.getElem?_append_left (hm.trans hn)] at hz
    exact h.lt m z hm hz

/-- One more element, that is strictly nearer. -/
theorem IsNearest.concat_of_lt (h : IsNearest dist xs n x) (hy : dist y < dist x) :
    IsNearest dist (xs ++ [y]) xs.length y where
  getElem? := List.getElem?_concat_length
  le := fun m z hz => by
    rcases Nat.lt_or_ge m xs.length with hm | hm
    · rw [List.getElem?_append_left hm] at hz
      exact hy.le.trans (h.le m z hz)
    · rw [List.getElem?_append_right hm] at hz
      obtain rfl := List.mem_singleton.mp (List.mem_of_getElem? hz)
      exact le_refl _
  lt := fun m z hm hz => by
    rw [List.getElem?_append_left hm] at hz
    exact hy.trans_le (h.le m z hz)

/-- **The scan keeps to the first of the nearest elements** of what it has seen. -/
theorem isNearest_foldl (h : IsNearest dist xs n x) (ys : List α) :
    ∃ z, ((ys.zipIdx xs.length).foldl (closer dist) (n, x)).2 = z ∧
      IsNearest dist (xs ++ ys) ((ys.zipIdx xs.length).foldl (closer dist) (n, x)).1 z := by
  induction ys generalizing xs n x with
  | nil => exact ⟨x, rfl, by rwa [List.append_nil]⟩
  | cons y ys ih =>
    have hsplit : xs ++ y :: ys = xs ++ [y] ++ ys := List.append_cons ..
    have hlen : (xs ++ [y]).length = xs.length + 1 := List.length_append
    rw [List.zipIdx_cons, List.foldl_cons, hsplit, ← hlen]
    by_cases hlt : dist y < dist x
    · rw [closer, if_pos hlt]
      exact ih (h.concat_of_lt hlt)
    · rw [closer, if_neg hlt]
      exact ih (h.concat (not_lt.mp hlt))

/-- **What the scan finds.** -/
theorem nearest_eq_some_iff : nearest dist xs = some n ↔ ∃ x, IsNearest dist xs n x := by
  cases xs with
  | nil =>
    refine ⟨nofun, fun ⟨x, h⟩ => ?_⟩
    cases h.getElem?
  | cons x xs =>
    have hfirst : IsNearest dist [x] 0 x := by
      refine ⟨rfl, fun m z hz => ?_, fun m _ hm => absurd hm (Nat.not_lt_zero m)⟩
      obtain rfl := List.mem_singleton.mp (List.mem_of_getElem? hz)
      exact le_refl _
    obtain ⟨z, -, h⟩ := isNearest_foldl hfirst xs
    rw [nearest, Option.some.injEq]
    constructor
    · rintro rfl
      exact ⟨z, h⟩
    · rintro ⟨y, h'⟩
      exact h.unique h'

/-- A list that is not empty has one. -/
theorem exists_nearest (h : xs ≠ []) : ∃ n, nearest dist xs = some n := by
  obtain ⟨x, xs, rfl⟩ := List.exists_cons_of_ne_nil h
  exact ⟨_, rfl⟩

/-- A scan depends on the distances of the elements only. -/
theorem nearest_congr {dist' : α → δ} (h : ∀ x ∈ xs, dist x = dist' x) :
    nearest dist xs = nearest dist' xs := by
  cases xs with
  | nil => rfl
  | cons x xs =>
    have hfold (l : List (α × ℕ)) (best : ℕ × α) (hl : ∀ y ∈ l, dist y.1 = dist' y.1)
        (hbest : dist best.2 = dist' best.2) :
        l.foldl (closer dist) best = l.foldl (closer dist') best := by
      induction l generalizing best with
      | nil => rfl
      | cons y l ih =>
        obtain ⟨hy, hl⟩ := List.forall_mem_cons.mp hl
        have hstep : closer dist best y = closer dist' best y := by
          rw [closer, closer, hy, hbest]
        rw [List.foldl_cons, List.foldl_cons, hstep]
        refine ih _ hl ?_
        unfold closer
        split
        · exact hy
        · exact hbest
    obtain ⟨hx, hxs⟩ := List.forall_mem_cons.mp h
    rw [nearest, nearest, hfold _ _ (fun y hy => hxs y.1 ?_) hx]
    exact List.fst_mem_of_mem_zipIdx hy

/-! ## Increasing lists -/

section Increasing

variable {R : Type} [CommRing R] [LinearOrder R] [IsStrictOrderedRing R] {xs : List R} {s t : R}

/-- **The nearest element moves forwards with the target.** -/
theorem IsNearest.le_of_le {x y : R} (hxs : xs.Pairwise (· < ·)) (hst : s ≤ t)
    (h : IsNearest (fun x => |x - s|) xs m x) (h' : IsNearest (fun x => |x - t|) xs n y) :
    m ≤ n := by
  by_contra hlt
  rw [not_le] at hlt
  -- the later element is strictly nearer to `s`, and the earlier one at least as near to `t`
  have hfar : |x - s| < |y - s| := h.lt n y hlt h'.getElem?
  have hnear : |y - t| ≤ |x - t| := h'.le m x h.getElem?
  have hyx : y < x := by
    obtain ⟨hn, rfl⟩ := List.getElem?_eq_some_iff.mp h'.getElem?
    obtain ⟨hm, rfl⟩ := List.getElem?_eq_some_iff.mp h.getElem?
    exact List.pairwise_iff_getElem.mp hxs n m hn hm hlt
  have hs : x + y < 2 * s := by
    rcases abs_cases (x - s) with ⟨hx, hx'⟩ | ⟨hx, hx'⟩ <;>
      rcases abs_cases (y - s) with ⟨hy, hy'⟩ | ⟨hy, hy'⟩ <;> linarith
  have ht : 2 * t ≤ x + y := by
    rcases abs_cases (x - t) with ⟨hx, hx'⟩ | ⟨hx, hx'⟩ <;>
      rcases abs_cases (y - t) with ⟨hy, hy'⟩ | ⟨hy, hy'⟩ <;> linarith
  linarith

/-- The same, for the scan. -/
theorem nearest_le_of_le (hxs : xs.Pairwise (· < ·)) (hst : s ≤ t)
    (h : nearest (fun x => |x - s|) xs = some m) (h' : nearest (fun x => |x - t|) xs = some n) :
    m ≤ n := by
  obtain ⟨x, hx⟩ := nearest_eq_some_iff.mp h
  obtain ⟨y, hy⟩ := nearest_eq_some_iff.mp h'
  exact hx.le_of_le hxs hst hy

end Increasing

end Nearest
