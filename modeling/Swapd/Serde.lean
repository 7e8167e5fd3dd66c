import Mathlib.Algebra.Ring.Int.Defs
import Mathlib.Data.List.Nodup

/-!
# Reading JSON by shape

A value is read as a record by the names of its members: a member that is asked
for has to be there once, one that may be left out has to be there at most once,
and the other members are ignored. A value that has one of several shapes is read
as the first that fits.

Two shapes overlap when one value fits both. The order of the shapes then decides,
and a shape that accepts more than it was written for hides those after it
(`untagged_cons_of_reads`).
-/

/-- A JSON number: an integer that fits in 64 bits, or another one, as it is written. -/
inductive JsonNumber where
  | integer (n : ℤ)
  | decimal (text : String)
deriving DecidableEq

/-- A JSON value. The members of an object are in the order they are written in,
and a name may be there twice. -/
inductive Json where
  | null
  | bool (b : Bool)
  | number (n : JsonNumber)
  | string (text : String)
  | array (items : List Json)
  | object (members : List (String × Json))

namespace Json

/-- A string. -/
def asString : Json → Option String
  | string text => some text
  | _ => none

/-- An integer of 64 bits with a sign. -/
def asI64 : Json → Option ℤ
  | number (.integer n) => if -2 ^ 63 ≤ n ∧ n < 2 ^ 63 then some n else none
  | _ => none

/-- A value that may be left out: `null` stands for none. -/
def toOption : Json → Option Json
  | null => none
  | value => some value

/-- The values under a name. -/
def valuesOf (name : String) (members : List (String × Json)) : List Json :=
  (members.filter (fun member => member.1 = name)).map Prod.snd

section Members

variable {α β : Type}

/-- A member that has to be there. -/
def required (name : String) (read : Json → Option α) (members : List (String × Json)) :
    Option α :=
  match valuesOf name members with
  | [value] => read value
  | _ => none

/-- A member that may be left out, and is none if it is. -/
def optional (name : String) (members : List (String × Json)) : Option (Option Json) :=
  match valuesOf name members with
  | [] => some none
  | [value] => some value.toOption
  | _ => none

/-- The first of the shapes that a value has. -/
def untagged : List (List (String × Json) → Option α) → List (String × Json) → Option α
  | [], _ => none
  | read :: reads, members => (read members).or (untagged reads members)

variable {name : String} {read : Json → Option α} {members : List (String × Json)} {value : Json}

/-- The member of an object with different names. -/
theorem valuesOf_of_mem (hnames : (members.map Prod.fst).Nodup) (h : (name, value) ∈ members) :
    valuesOf name members = [value] := by
  induction members with
  | nil => cases h
  | cons member members ih =>
    rw [List.map_cons, List.nodup_cons] at hnames
    rw [valuesOf, List.filter_cons]
    cases h with
    | head =>
      have hnone : members.filter (fun member => member.1 = name) = [] := by
        rw [List.filter_eq_nil_iff]
        intro member hmember heq
        exact hnames.1 (List.mem_map.mpr ⟨member, hmember, of_decide_eq_true heq⟩)
      simp [hnone]
    | tail _ h =>
      have hne : member.1 ≠ name := fun heq =>
        hnames.1 (List.mem_map.mpr ⟨(name, value), h, heq.symm⟩)
      rw [if_neg (by simpa using hne)]
      exact ih hnames.2 h

/-- A name that is not there. -/
theorem valuesOf_of_notMem (h : name ∉ members.map Prod.fst) : valuesOf name members = [] := by
  rw [valuesOf, List.map_eq_nil_iff, List.filter_eq_nil_iff]
  intro member hmember heq
  exact h (List.mem_map.mpr ⟨member, hmember, of_decide_eq_true heq⟩)

/-- A member that is there once is read. -/
theorem required_of_mem (hnames : (members.map Prod.fst).Nodup) (h : (name, value) ∈ members) :
    required name read members = read value := by
  rw [required, valuesOf_of_mem hnames h]

/-- A member that is not there fails the record. -/
theorem required_of_notMem (h : name ∉ members.map Prod.fst) :
    required name read members = none := by
  rw [required, valuesOf_of_notMem h]

/-- A member that may be left out. -/
theorem optional_of_mem (hnames : (members.map Prod.fst).Nodup) (h : (name, value) ∈ members) :
    optional name members = some value.toOption := by
  rw [optional, valuesOf_of_mem hnames h]

/-- A member that is left out. -/
theorem optional_of_notMem (h : name ∉ members.map Prod.fst) :
    optional name members = some none := by
  rw [optional, valuesOf_of_notMem h]

/-- A member that may be left out, of an object with different names. -/
theorem optional_of_nodup (name : String) (hnames : (members.map Prod.fst).Nodup) :
    ∃ data, optional name members = some data := by
  by_cases h : name ∈ members.map Prod.fst
  · obtain ⟨⟨_, data⟩, hmem, rfl⟩ := List.mem_map.mp h
    exact ⟨_, optional_of_mem hnames hmem⟩
  · exact ⟨none, optional_of_notMem h⟩

variable {shape : List (String × Json) → Option α} {shapes : List (List (String × Json) → Option α)}

/-- A shape that fits hides those after it. -/
theorem untagged_cons_of_reads {a : α} (h : shape members = some a) :
    untagged (shape :: shapes) members = some a := by
  rw [untagged, h, Option.some_or]

/-- A shape that does not fit is passed over. -/
theorem untagged_cons_of_fails (h : shape members = none) :
    untagged (shape :: shapes) members = untagged shapes members := by
  rw [untagged, h, Option.none_or]

end Members

end Json
