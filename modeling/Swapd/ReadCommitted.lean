import Mathlib.Data.List.Basic
import Mathlib.Data.Nat.Notation

/-!
# Transactions at READ COMMITTED

A database holds what has been committed. A transaction that runs has writes of its
own and row locks; a statement sees what is committed when it starts, with the
writes of its own transaction on top. A write is what a statement has come to –
rows to insert, versions to delete – so that it is the same write whenever it is
applied. When a transaction commits, its writes are applied, and its locks are
released. One that is dropped is over as well, but keeps its locks until the
database rolls it back.

Where every transaction holds the lock on what it writes to (`Protected`), a
transaction may rely on what it has locked: others neither take the lock nor
change what it stands for (`Relies`).
-/

/-- **A database**: the data committed, and for each transaction the writes it has
made so far; who holds which lock; and the transactions that are over. -/
structure Database (σ ω κ : Type) where
  /-- What has been committed. -/
  committed : σ
  /-- The writes of each transaction that runs. -/
  pending : ℕ → List ω
  /-- Who holds a lock. -/
  holder : κ → Option ℕ
  /-- The transactions that are over. -/
  ended : List ℕ

namespace Database

variable {σ ω κ π : Type} (apply : ω → σ → σ)

/-- Writes are applied, one after the other. -/
def applyAll (ws : List ω) (s : σ) : σ := ws.foldl (fun s w => apply w s) s

@[simp] theorem applyAll_nil (s : σ) : applyAll apply [] s = s := rfl

@[simp] theorem applyAll_cons (w : ω) (ws : List ω) (s : σ) :
    applyAll apply (w :: ws) s = applyAll apply ws (apply w s) := rfl

/-- **What a statement sees.** -/
def visible (i : ℕ) (db : Database σ ω κ) : σ := applyAll apply (db.pending i) db.committed

/-- A transaction makes writes. -/
def write (i : ℕ) (ws : List ω) (db : Database σ ω κ) : Database σ ω κ :=
  { db with pending := fun j => if j = i then db.pending i ++ ws else db.pending j }

/-- A transaction is dropped: it will not commit. -/
def drop (i : ℕ) (db : Database σ ω κ) : Database σ ω κ := { db with ended := i :: db.ended }

/-- A transaction is rolled back: its writes are gone, and its locks released. -/
def rollback (i : ℕ) (db : Database σ ω κ) : Database σ ω κ :=
  { db with
    pending := fun j => if j = i then [] else db.pending j
    holder := fun k => if db.holder k = some i then none else db.holder k }

/-- A transaction commits. -/
def commit (i : ℕ) (db : Database σ ω κ) : Database σ ω κ :=
  drop i (rollback i { db with committed := db.visible apply i })

/-- **A row is locked.** Where another transaction holds the lock, the statement
waits. -/
def acquire [DecidableEq κ] (i : ℕ) (k : κ) (db : Database σ ω κ) : Option (Database σ ω κ) :=
  match db.holder k with
  | none => some { db with holder := fun k' => if k' = k then some i else db.holder k' }
  | some j => if j = i then some db else none

/-! ## What a transaction may rely on -/

variable (part : κ → σ → π)

/-- **Every transaction holds the lock on what it writes to.** -/
def Protected (db : Database σ ω κ) : Prop :=
  ∀ i k, db.holder k ≠ some i → ∀ w ∈ db.pending i, ∀ s, part k (apply w s) = part k s

/-- **What a transaction may rely on** while others run: as long as it is not over,
it has its writes and its locks. -/
structure Relies (i : ℕ) (db db' : Database σ ω κ) : Prop where
  ended : i ∈ db'.ended ↔ i ∈ db.ended
  pending : i ∉ db.ended → db'.pending i = db.pending i
  held : i ∉ db.ended → ∀ k, db.holder k = some i →
    db'.holder k = some i ∧ part k db'.committed = part k db.committed

variable {apply part} {db db' db'' : Database σ ω κ} {i j : ℕ}

theorem Relies.refl (db : Database σ ω κ) : Relies part i db db :=
  ⟨Iff.rfl, fun _ => rfl, fun _ _ h => ⟨h, rfl⟩⟩

theorem Relies.trans (h : Relies part i db db') (h' : Relies part i db' db'') :
    Relies part i db db'' where
  ended := h'.ended.trans h.ended
  pending := fun hopen => (h'.pending (mt h.ended.mp hopen)).trans (h.pending hopen)
  held := by
    intro hopen k hk
    obtain ⟨hk', hpart⟩ := h.held hopen k hk
    obtain ⟨hk'', hpart'⟩ := h'.held (mt h.ended.mp hopen) k hk'
    exact ⟨hk'', hpart'.trans hpart⟩

/-- What writes leave alone one by one, they leave alone together. -/
theorem part_applyAll {ws : List ω} {k : κ}
    (h : ∀ w ∈ ws, ∀ s, part k (apply w s) = part k s) (s : σ) :
    part k (applyAll apply ws s) = part k s := by
  induction ws generalizing s with
  | nil => rfl
  | cons w ws ih =>
    rw [List.forall_mem_cons] at h
    rw [applyAll_cons, ih h.2, h.1]

/-! ### Locks -/

section Acquire

variable [DecidableEq κ] {k : κ}

theorem acquire_eq_some (h : db.acquire i k = some db') :
    db'.committed = db.committed ∧ db'.pending = db.pending ∧ db'.ended = db.ended ∧
      db'.holder k = some i ∧ ∀ k' l, db.holder k' = some l → db'.holder k' = some l := by
  unfold acquire at h
  split at h
  next hfree =>
    obtain rfl := Option.some.inj h
    refine ⟨rfl, rfl, rfl, if_pos rfl, fun k' l hl => ?_⟩
    have hne : k' ≠ k := by
      rintro rfl
      rw [hfree] at hl
      cases hl
    exact (if_neg hne).trans hl
  next j hheld =>
    split at h
    next heq =>
      obtain rfl := Option.some.inj h
      exact ⟨rfl, rfl, rfl, heq ▸ hheld, fun _ _ hl => hl⟩
    next => cases h

/-- Who holds a lock has taken it, or held it before. -/
theorem holder_of_acquire {k' : κ} (h : db.acquire i k = some db') (hk : db'.holder k' = some j) :
    j = i ∨ db.holder k' = some j := by
  unfold acquire at h
  split at h
  next =>
    obtain rfl := Option.some.inj h
    have hk : (if k' = k then some i else db.holder k') = some j := hk
    split at hk
    · exact Or.inl (Option.some.inj hk).symm
    · exact Or.inr hk
  next =>
    split at h
    · obtain rfl := Option.some.inj h
      exact Or.inr hk
    · cases h

theorem Protected.acquire (hprotected : db.Protected apply part) (h : db.acquire i k = some db') :
    db'.Protected apply part := by
  obtain ⟨-, hpending, -, -, hholder⟩ := acquire_eq_some h
  intro l k' hnot w hw
  rw [hpending] at hw
  exact hprotected l k' (fun hl => hnot (hholder k' l hl)) w hw

theorem relies_acquire (h : db.acquire i k = some db') : Relies part j db db' := by
  obtain ⟨hcommitted, hpending, hended, -, hholder⟩ := acquire_eq_some h
  refine ⟨by rw [hended], fun _ => by rw [hpending], fun _ k' hk' => ⟨hholder k' j hk', ?_⟩⟩
  rw [hcommitted]

end Acquire

/-! ### Writes -/

theorem Protected.write {ws : List ω} (hprotected : db.Protected apply part)
    (hws : ∀ k, db.holder k ≠ some i → ∀ w ∈ ws, ∀ s, part k (apply w s) = part k s) :
    (db.write i ws).Protected apply part := by
  intro l k hnot w hw
  have hw : w ∈ if l = i then db.pending i ++ ws else db.pending l := hw
  split at hw
  next heq =>
    subst heq
    exact (List.mem_append.mp hw).elim (hprotected l k hnot w) (hws k hnot w)
  next => exact hprotected l k hnot w hw

theorem relies_write {ws : List ω} (hne : j ≠ i) : Relies part j db (db.write i ws) :=
  ⟨Iff.rfl, fun _ => if_neg hne, fun _ _ h => ⟨h, rfl⟩⟩

/-! ### The end of a transaction -/

theorem Protected.rollback (hprotected : db.Protected apply part) :
    (db.rollback i).Protected apply part := by
  intro l k hnot w hw
  have hw : w ∈ if l = i then [] else db.pending l := hw
  split at hw
  next => cases hw
  next hne =>
    refine hprotected l k (fun hl => hnot ?_) w hw
    have hother : db.holder k ≠ some i := by
      rw [hl]
      exact fun h => hne (Option.some.inj h)
    exact (if_neg hother).trans hl

theorem relies_rollback (hne : j ∉ db.ended → j ≠ i) : Relies part j db (db.rollback i) := by
  refine ⟨Iff.rfl, fun hopen => if_neg (hne hopen), fun hopen k hk => ⟨?_, rfl⟩⟩
  have hother : db.holder k ≠ some i := by
    rw [hk]
    exact fun h => hne hopen (Option.some.inj h)
  exact (if_neg hother).trans hk

theorem Protected.drop (hprotected : db.Protected apply part) :
    (db.drop i).Protected apply part := hprotected

theorem relies_drop (hne : j ≠ i) : Relies part j db (db.drop i) :=
  ⟨List.mem_cons.trans (or_iff_right hne), fun _ => rfl, fun _ _ h => ⟨h, rfl⟩⟩

/-- **A commit leaves alone what the transaction has not locked.** -/
theorem Protected.part_commit (hprotected : db.Protected apply part) {k : κ}
    (hk : db.holder k ≠ some i) : part k (db.commit apply i).committed = part k db.committed :=
  part_applyAll (hprotected i k hk) db.committed

theorem Protected.commit (hprotected : db.Protected apply part) :
    (db.commit apply i).Protected apply part := by
  have hvisible : Protected apply part { db with committed := db.visible apply i } :=
    fun l k hnot w hw => hprotected l k hnot w hw
  exact (hvisible.rollback (i := i)).drop (i := i)

theorem Protected.relies_commit (hprotected : db.Protected apply part) (hne : j ≠ i) :
    Relies part j db (db.commit apply i) := by
  have hrollback : Relies part j db (db.rollback i) := relies_rollback (fun _ => hne)
  refine ⟨List.mem_cons.trans (or_iff_right hne), hrollback.pending, fun hopen k hk => ?_⟩
  refine ⟨(hrollback.held hopen k hk).1, hprotected.part_commit ?_⟩
  rw [hk]
  exact fun h => hne (Option.some.inj h)

end Database
