import Mathlib.Algebra.Ring.Nat
import Mathlib.Data.List.Basic
import Mathlib.Tactic.Common

/-!
# Scripts

The operations of the script language that a contract of two parties over a
hash and a time needs, under the rules of tapscript: pushes, `HASH160`,
`EQUALVERIFY`, `CHECKSIG`, `CHECKSIGVERIFY` and `CHECKSEQUENCEVERIFY`. A script
is decoded from its bytes and run on a stack, the head of the list being the
top; it accepts when it leaves a single true element.

Whether a signature is valid and what a hash is depends on the transaction that
spends and on libraries, so a script is run by a `Checker`. `decode_encode` says
that what is encoded is what is run, `decodeNumber_encodeNumber` that a number
that is pushed is the number that is read.
-/

namespace Script

/-- An element of the stack. -/
abbrev Element := List UInt8

/-- A stack, with its top first. -/
abbrev Stack := List Element

/-! ## Numbers -/

/-- The bytes of a script number: little endian, the highest bit being the sign. -/
def encodeNumber (n : ℕ) : Element :=
  if n = 0 then []
  else if n < 0x80 then [UInt8.ofNat n]
  else if n < 0x100 then [UInt8.ofNat n, 0x00]
  else UInt8.ofNat (n % 256) :: encodeNumber (n / 256)
termination_by n

/-- What a number is apart from its sign. -/
def magnitude : Element → ℕ
  | [] => 0
  | [b] => b.toNat % 0x80
  | b :: c :: bs => b.toNat + 256 * magnitude (c :: bs)

/-- Whether the sign of a number is set. -/
def isNegative : Element → Bool
  | [] => false
  | [b] => 0x80 ≤ b.toNat
  | _ :: c :: bs => isNegative (c :: bs)

/-- `CastToBool`: zero is false, with either sign. -/
def isTrue (x : Element) : Bool := magnitude x ≠ 0

theorem encodeNumber_zero : encodeNumber 0 = [] := by rw [encodeNumber, if_pos rfl]

theorem encodeNumber_of_lt {n : ℕ} (hpos : n ≠ 0) (h : n < 0x80) :
    encodeNumber n = [UInt8.ofNat n] := by
  rw [encodeNumber, if_neg hpos, if_pos h]

theorem encodeNumber_of_byte {n : ℕ} (hge : 0x80 ≤ n) (h : n < 0x100) :
    encodeNumber n = [UInt8.ofNat n, 0x00] := by
  rw [encodeNumber, if_neg (by omega), if_neg (by omega), if_pos h]

theorem encodeNumber_of_ge {n : ℕ} (h : 0x100 ≤ n) :
    encodeNumber n = UInt8.ofNat (n % 256) :: encodeNumber (n / 256) := by
  rw [encodeNumber, if_neg (by omega), if_neg (by omega), if_neg (by omega)]

theorem encodeNumber_ne_nil {n : ℕ} (h : n ≠ 0) : encodeNumber n ≠ [] := by
  rw [encodeNumber, if_neg h]
  split
  · exact List.cons_ne_nil _ _
  · split <;> exact List.cons_ne_nil _ _

/-- The four forms a number may have. -/
theorem encodeNumber_cases (n : ℕ) :
    n = 0 ∨ (n ≠ 0 ∧ n < 0x80) ∨ (0x80 ≤ n ∧ n < 0x100) ∨ 0x100 ≤ n := by omega

theorem magnitude_cons {b : UInt8} {bs : Element} (h : bs ≠ []) :
    magnitude (b :: bs) = b.toNat + 256 * magnitude bs := by
  obtain ⟨c, cs, rfl⟩ := List.exists_cons_of_ne_nil h
  rfl

theorem isNegative_cons {b : UInt8} {bs : Element} (h : bs ≠ []) :
    isNegative (b :: bs) = isNegative bs := by
  obtain ⟨c, cs, rfl⟩ := List.exists_cons_of_ne_nil h
  rfl

theorem toNat_ofNat_byte {n : ℕ} (h : n < 256) : (UInt8.ofNat n).toNat = n :=
  UInt8.toNat_ofNat_of_lt' h

/-- **A number is read as it was written.** -/
@[simp] theorem magnitude_encodeNumber (n : ℕ) : magnitude (encodeNumber n) = n := by
  induction n using Nat.strongRecOn with
  | ind n ih =>
    rcases encodeNumber_cases n with rfl | ⟨hpos, hlt⟩ | ⟨hge, hlt⟩ | hge
    · rw [encodeNumber_zero]
      rfl
    · rw [encodeNumber_of_lt hpos hlt, magnitude, toNat_ofNat_byte (by omega)]
      exact Nat.mod_eq_of_lt hlt
    · rw [encodeNumber_of_byte hge hlt, magnitude_cons (List.cons_ne_nil _ _),
        toNat_ofNat_byte hlt]
      rfl
    · rw [encodeNumber_of_ge hge, magnitude_cons (encodeNumber_ne_nil (by omega)),
        ih _ (by omega), toNat_ofNat_byte (by omega)]
      omega

/-- Numbers from zero on are written without a sign. -/
@[simp] theorem isNegative_encodeNumber (n : ℕ) : isNegative (encodeNumber n) = false := by
  induction n using Nat.strongRecOn with
  | ind n ih =>
    rcases encodeNumber_cases n with rfl | ⟨hpos, hlt⟩ | ⟨hge, hlt⟩ | hge
    · rw [encodeNumber_zero]
      rfl
    · rw [encodeNumber_of_lt hpos hlt, isNegative, toNat_ofNat_byte (by omega)]
      exact decide_eq_false (by omega)
    · rw [encodeNumber_of_byte hge hlt]
      rfl
    · rw [encodeNumber_of_ge hge, isNegative_cons (encodeNumber_ne_nil (by omega)),
        ih _ (by omega)]

@[simp] theorem isTrue_encodeNumber (n : ℕ) : isTrue (encodeNumber n) = decide (n ≠ 0) := by
  rw [isTrue, magnitude_encodeNumber]

/-- How many bytes a number has at most. -/
theorem length_encodeNumber_le {n k : ℕ} (h : n < 0x80 * 256 ^ k) :
    (encodeNumber n).length ≤ k + 1 := by
  induction k generalizing n with
  | zero =>
    rcases Nat.eq_zero_or_pos n with rfl | hpos
    · rw [encodeNumber_zero]
      exact Nat.zero_le _
    · rw [encodeNumber_of_lt (by omega) (by omega)]
      exact Nat.le_refl _
  | succ k ih =>
    rcases encodeNumber_cases n with rfl | ⟨hpos, hlt⟩ | ⟨hge, hlt⟩ | hge
    · rw [encodeNumber_zero]
      exact Nat.zero_le _
    · rw [encodeNumber_of_lt hpos hlt]
      exact Nat.succ_le_succ (Nat.zero_le _)
    · rw [encodeNumber_of_byte hge hlt]
      exact Nat.succ_le_succ (Nat.succ_le_succ (Nat.zero_le _))
    · rw [encodeNumber_of_ge hge]
      refine Nat.succ_le_succ (ih ?_)
      rw [Nat.pow_succ, ← Nat.mul_assoc] at h
      exact Nat.div_lt_of_lt_mul (by omega)

/-! ## Operations -/

/-- **The operations.** -/
inductive Op where
  | push (bytes : Element)
  | hash160
  | equalVerify
  | checkSig
  | checkSigVerify
  | checkSequenceVerify
deriving DecidableEq

/-- The shortest push of an element: an opcode for a number from minus one to
sixteen, else its length and its bytes. -/
def encodePush : Element → List UInt8
  | [] => [0x00]
  | [b] =>
    if b = 0x81 then [0x4f]
    else if 1 ≤ b.toNat ∧ b.toNat ≤ 16 then [0x50 + b]
    else [0x01, b]
  | bytes => UInt8.ofNat bytes.length :: bytes

/-- The bytes of an operation. -/
def Op.encode : Op → List UInt8
  | .push bytes => encodePush bytes
  | .hash160 => [0xa9]
  | .equalVerify => [0x88]
  | .checkSig => [0xac]
  | .checkSigVerify => [0xad]
  | .checkSequenceVerify => [0xb2]

/-- The first operation of a script that begins with a byte, and the rest. There
is none for an operation that is not among these. -/
def decodeOp (b : UInt8) (bs : List UInt8) : Option (Op × List UInt8) :=
  if b.toNat ≤ 75 then
    if b.toNat ≤ bs.length then some (.push (bs.take b.toNat), bs.drop b.toNat) else none
  else if b = 0x4f then some (.push [0x81], bs)
  else if 0x51 ≤ b.toNat ∧ b.toNat ≤ 0x60 then some (.push [b - 0x50], bs)
  else if b = 0x88 then some (.equalVerify, bs)
  else if b = 0xa9 then some (.hash160, bs)
  else if b = 0xac then some (.checkSig, bs)
  else if b = 0xad then some (.checkSigVerify, bs)
  else if b = 0xb2 then some (.checkSequenceVerify, bs)
  else none

/-- So many operations at most. -/
def decodeAtMost : ℕ → List UInt8 → Option (List Op)
  | _, [] => some []
  | 0, _ :: _ => none
  | n + 1, b :: bs =>
    (decodeOp b bs).bind (fun r => (decodeAtMost n r.2).map (fun ops => r.1 :: ops))

/-- **The operations of a script.** -/
def decode (script : List UInt8) : Option (List Op) := decodeAtMost script.length script

/-- **The script of some operations.** -/
def encode (ops : List Op) : List UInt8 := ops.flatMap Op.encode

/-- An operation that can be encoded: what it pushes has a length of one byte. -/
def Op.IsShort : Op → Prop
  | .push bytes => bytes.length ≤ 75
  | .hash160 | .equalVerify | .checkSig | .checkSigVerify | .checkSequenceVerify => True

theorem decodeOp_push {b : UInt8} {bs : List UInt8} (h : b.toNat ≤ 75) (hbs : b.toNat ≤ bs.length) :
    decodeOp b bs = some (.push (bs.take b.toNat), bs.drop b.toNat) := by
  rw [decodeOp, if_pos h, if_pos hbs]

/-- The opcode of a small number pushes it. -/
theorem decodeOp_number {b : UInt8} (hpos : 1 ≤ b.toNat) (hle : b.toNat ≤ 16) (bs : List UInt8) :
    decodeOp (0x50 + b) bs = some (.push [b], bs) := by
  have hfifty : (0x50 : UInt8).toNat = 0x50 := rfl
  have hbyte : (0x50 + b).toNat = 0x50 + b.toNat := by
    rw [UInt8.toNat_add]
    exact Nat.mod_eq_of_lt (by omega)
  have hne : 0x50 + b ≠ 0x4f := by
    intro heq
    have : (0x50 + b).toNat = 0x4f := congrArg UInt8.toNat heq
    omega
  have hsub : 0x50 + b - 0x50 = b := by
    rw [UInt8.add_comm, UInt8.add_sub_cancel]
  rw [decodeOp, if_neg (by omega), if_neg hne, if_pos (by omega), hsub]

/-- A push is read as it was written. -/
theorem exists_encodePush {bytes : Element} (h : bytes.length ≤ 75) (bs : List UInt8) :
    ∃ b rest, encodePush bytes ++ bs = b :: rest ∧ decodeOp b rest = some (.push bytes, bs) := by
  match bytes with
  | [] => exact ⟨0x00, bs, rfl, decodeOp_push (by decide) (Nat.zero_le _)⟩
  | [b] =>
    by_cases hneg : b = 0x81
    · exact ⟨0x4f, bs, by rw [encodePush, if_pos hneg]; rfl, by rw [hneg]; rfl⟩
    · by_cases hsmall : 1 ≤ b.toNat ∧ b.toNat ≤ 16
      · exact ⟨0x50 + b, bs, by rw [encodePush, if_neg hneg, if_pos hsmall]; rfl,
          decodeOp_number hsmall.1 hsmall.2 bs⟩
      · exact ⟨0x01, b :: bs, by rw [encodePush, if_neg hneg, if_neg hsmall]; rfl,
          decodeOp_push (by decide) (Nat.succ_le_succ (Nat.zero_le _))⟩
  | b :: c :: bytes =>
    have hlen : (UInt8.ofNat (b :: c :: bytes).length).toNat = (b :: c :: bytes).length :=
      toNat_ofNat_byte (Nat.lt_of_le_of_lt h (by decide))
    refine ⟨_, _, rfl, ?_⟩
    rw [decodeOp_push (by rw [hlen]; exact h) (by rw [hlen]; simp), hlen]
    simp

/-- **One operation is read as it was written.** -/
theorem exists_encode {op : Op} (h : op.IsShort) (bs : List UInt8) :
    ∃ b rest, op.encode ++ bs = b :: rest ∧ decodeOp b rest = some (op, bs) := by
  cases op with
  | push bytes => exact exists_encodePush h bs
  | hash160 => exact ⟨_, _, rfl, rfl⟩
  | equalVerify => exact ⟨_, _, rfl, rfl⟩
  | checkSig => exact ⟨_, _, rfl, rfl⟩
  | checkSigVerify => exact ⟨_, _, rfl, rfl⟩
  | checkSequenceVerify => exact ⟨_, _, rfl, rfl⟩

theorem length_encode_pos {op : Op} (h : op.IsShort) : 0 < op.encode.length := by
  obtain ⟨b, rest, heq, -⟩ := exists_encode h []
  rw [← List.append_nil op.encode, heq]
  exact Nat.succ_pos _

theorem encodePush_of_length {bytes : Element} (h : 2 ≤ bytes.length) :
    encodePush bytes = UInt8.ofNat bytes.length :: bytes := by
  match bytes, h with
  | _ :: _ :: _, _ => rfl

/-- **What is encoded is what is decoded.** -/
theorem decode_encode {ops : List Op} (h : ∀ op ∈ ops, op.IsShort) :
    decode (encode ops) = some ops := by
  have key : ∀ n, (encode ops).length ≤ n → decodeAtMost n (encode ops) = some ops := by
    induction ops with
    | nil => intro n _; cases n <;> rfl
    | cons op ops ih =>
      intro n hn
      obtain ⟨b, rest, heq, hop⟩ := exists_encode (h op List.mem_cons_self) (encode ops)
      have hcons : encode (op :: ops) = b :: rest := heq
      have hlen : (encode ops).length ≤ rest.length := by
        have hpos := length_encode_pos (h op List.mem_cons_self)
        have := congrArg List.length heq
        rw [List.length_append, List.length_cons] at this
        omega
      cases n with
      | zero =>
        rw [hcons] at hn
        cases hn
      | succ n =>
        rw [hcons] at hn ⊢
        rw [decodeAtMost, hop, Option.bind_some,
          ih (fun op' hop' => h op' (List.mem_cons_of_mem op hop')) n
            (Nat.le_trans hlen (Nat.le_of_succ_le_succ hn))]
        rfl
  exact key _ (Nat.le_refl _)

/-! ## Execution -/

/-- **What a script is checked with**: a hash, whether a signature is one of a
key, and whether the input that spends is old enough. -/
structure Checker where
  hash160 : Element → Element
  signature : Element → Element → Bool
  sequence : ℕ → Bool

/-- The most elements on a stack. -/
def maxStackSize : ℕ := 1000

/-- The most bytes in an element. -/
def maxElementSize : ℕ := 520

namespace Checker

variable (checker : Checker)

/-- What `CHECKSIG` leaves: an empty signature is false, and any other has to be
valid. Keys of a length yet unknown accept everything. -/
def checkSig (key sig : Element) : Option Element :=
  if key = [] then none
  else if sig = [] then some []
  else if key.length = 32 then
    if checker.signature key sig then some [0x01] else none
  else some [0x01]

/-- Whether `CHECKSEQUENCEVERIFY` goes on: a number with the disable flag is not
looked at. -/
def checkLock (x : Element) : Bool :=
  x.length ≤ 5 && !(isNegative x && magnitude x ≠ 0) &&
    (magnitude x / 2 ^ 31 % 2 = 1 || checker.sequence (magnitude x))

/-- One operation. -/
def step : Op → Stack → Option Stack
  | .push bytes, stack => some (bytes :: stack)
  | .hash160, x :: stack => some (checker.hash160 x :: stack)
  | .equalVerify, x :: y :: stack => if x = y then some stack else none
  | .checkSig, key :: sig :: stack => (checker.checkSig key sig).map (fun r => r :: stack)
  | .checkSigVerify, key :: sig :: stack =>
    (checker.checkSig key sig).bind (fun r => if isTrue r then some stack else none)
  | .checkSequenceVerify, x :: stack => if checker.checkLock x then some (x :: stack) else none
  | .hash160, [] | .equalVerify, [] | .equalVerify, [_] | .checkSig, [] | .checkSig, [_]
  | .checkSigVerify, [] | .checkSigVerify, [_] | .checkSequenceVerify, [] => none

/-- The operations one after the other. -/
def run : List Op → Stack → Option Stack
  | [], stack => some stack
  | op :: ops, stack =>
    (checker.step op stack).bind (fun stack' =>
      if stack'.length ≤ maxStackSize then run ops stack' else none)

/-- Whether a stack holds a single true element. -/
def isAccepting : Stack → Bool
  | [x] => isTrue x
  | [] | _ :: _ :: _ => false

/-- **A script accepts** a stack. -/
def accepts (script : List UInt8) (stack : Stack) : Bool :=
  stack.length ≤ maxStackSize && stack.all (fun x => x.length ≤ maxElementSize) &&
    ((decode script).bind (fun ops => checker.run ops stack)).any isAccepting

/-! ## Preconditions -/

/-- **What has to hold of a stack** for the operations to end with a property. -/
def Ensures (ops : List Op) (Q : Stack → Prop) (stack : Stack) : Prop :=
  ∃ stack', checker.run ops stack = some stack' ∧ Q stack'

variable {checker} {ops : List Op} {Q : Stack → Prop} {stack : Stack}

theorem ensures_nil : checker.Ensures [] Q stack ↔ Q stack := by
  constructor
  · rintro ⟨_, h, hQ⟩
    obtain rfl := Option.some.inj h
    exact hQ
  · exact fun hQ => ⟨stack, rfl, hQ⟩

/-- **An operation, and then the others.** -/
theorem ensures_cons {op : Op} : checker.Ensures (op :: ops) Q stack ↔
    ∃ stack', checker.step op stack = some stack' ∧ stack'.length ≤ maxStackSize ∧
      checker.Ensures ops Q stack' := by
  constructor
  · rintro ⟨final, h, hQ⟩
    rw [run, Option.bind_eq_some_iff] at h
    obtain ⟨stack', hstep, hrest⟩ := h
    split at hrest
    next hsize => exact ⟨stack', hstep, hsize, final, hrest, hQ⟩
    next => cases hrest
  · rintro ⟨stack', hstep, hsize, final, hrest, hQ⟩
    refine ⟨final, ?_, hQ⟩
    rw [run, hstep, Option.bind_some, if_pos hsize]
    exact hrest

theorem ensures_push {bytes : Element} : checker.Ensures (.push bytes :: ops) Q stack ↔
    stack.length + 1 ≤ maxStackSize ∧ checker.Ensures ops Q (bytes :: stack) := by
  rw [ensures_cons]
  constructor
  · rintro ⟨_, h, hrest⟩
    obtain rfl := Option.some.inj h
    exact hrest
  · exact fun hrest => ⟨_, rfl, hrest⟩

theorem ensures_hash160 : checker.Ensures (.hash160 :: ops) Q stack ↔
    ∃ x rest, stack = x :: rest ∧ stack.length ≤ maxStackSize ∧
      checker.Ensures ops Q (checker.hash160 x :: rest) := by
  rw [ensures_cons]
  constructor
  · rintro ⟨_, h, hrest⟩
    cases stack with
    | nil => cases h
    | cons x rest =>
      obtain rfl := Option.some.inj h
      exact ⟨x, rest, rfl, hrest⟩
  · rintro ⟨x, rest, rfl, hrest⟩
    exact ⟨_, rfl, hrest⟩

theorem ensures_equalVerify : checker.Ensures (.equalVerify :: ops) Q stack ↔
    ∃ x rest, stack = x :: x :: rest ∧ rest.length ≤ maxStackSize ∧
      checker.Ensures ops Q rest := by
  rw [ensures_cons]
  constructor
  · rintro ⟨rest', h, hrest⟩
    match stack with
    | [] => cases h
    | [_] => cases h
    | x :: y :: rest =>
      rw [step] at h
      split at h
      next heq =>
        obtain rfl := Option.some.inj h
        exact ⟨x, rest, by rw [heq], hrest⟩
      next => cases h
  · rintro ⟨x, rest, rfl, hrest⟩
    exact ⟨rest, if_pos rfl, hrest⟩

/-- A signature that has to be valid is. -/
theorem checkSig_eq_some {key sig r : Element} :
    checker.checkSig key sig = some r ↔ key ≠ [] ∧
      (sig = [] ∧ r = [] ∨
        sig ≠ [] ∧ r = [0x01] ∧ (key.length = 32 → checker.signature key sig)) := by
  constructor
  · intro h
    unfold checkSig at h
    split at h
    next => cases h
    next hkey =>
      refine ⟨hkey, ?_⟩
      split at h
      next hsig => exact Or.inl ⟨hsig, (Option.some.inj h).symm⟩
      next hsig =>
        split at h
        next hlen =>
          split at h
          next hvalid => exact Or.inr ⟨hsig, (Option.some.inj h).symm, fun _ => hvalid⟩
          next => cases h
        next hlen =>
          exact Or.inr ⟨hsig, (Option.some.inj h).symm, fun hlen' => absurd hlen' hlen⟩
  · rintro ⟨hkey, ⟨hsig, rfl⟩ | ⟨hsig, rfl, hvalid⟩⟩
    · rw [checkSig, if_neg hkey, if_pos hsig]
    · rw [checkSig, if_neg hkey, if_neg hsig]
      split
      next hlen => rw [if_pos (hvalid hlen)]
      next => rfl

/-- **A signature of a key** is left as true exactly when it is valid. -/
theorem exists_checkSig {key sig : Element} (hkey : key.length = 32) :
    (∃ r, checker.checkSig key sig = some r ∧ isTrue r) ↔
      sig ≠ [] ∧ checker.signature key sig := by
  have hne : key ≠ [] := by
    rintro rfl
    cases hkey
  constructor
  · rintro ⟨r, hr, htrue⟩
    obtain ⟨-, ⟨-, rfl⟩ | ⟨hsig, -, hvalid⟩⟩ := checkSig_eq_some.mp hr
    · cases htrue
    · exact ⟨hsig, hvalid hkey⟩
  · rintro ⟨hsig, hvalid⟩
    exact ⟨[0x01], checkSig_eq_some.mpr ⟨hne, Or.inr ⟨hsig, rfl, fun _ => hvalid⟩⟩, rfl⟩

theorem ensures_checkSig : checker.Ensures (.checkSig :: ops) Q stack ↔
    ∃ key sig rest r, stack = key :: sig :: rest ∧ checker.checkSig key sig = some r ∧
      rest.length + 1 ≤ maxStackSize ∧ checker.Ensures ops Q (r :: rest) := by
  rw [ensures_cons]
  constructor
  · rintro ⟨_, h, hrest⟩
    match stack with
    | [] => cases h
    | [_] => cases h
    | key :: sig :: rest =>
      rw [step, Option.map_eq_some_iff] at h
      obtain ⟨r, hr, rfl⟩ := h
      exact ⟨key, sig, rest, r, rfl, hr, hrest⟩
  · rintro ⟨key, sig, rest, r, rfl, hr, hrest⟩
    exact ⟨r :: rest, by rw [step, hr, Option.map_some], hrest⟩

theorem ensures_checkSigVerify : checker.Ensures (.checkSigVerify :: ops) Q stack ↔
    ∃ key sig rest r, stack = key :: sig :: rest ∧ checker.checkSig key sig = some r ∧
      isTrue r ∧ rest.length ≤ maxStackSize ∧ checker.Ensures ops Q rest := by
  rw [ensures_cons]
  constructor
  · rintro ⟨_, h, hrest⟩
    match stack with
    | [] => cases h
    | [_] => cases h
    | key :: sig :: rest =>
      rw [step, Option.bind_eq_some_iff] at h
      obtain ⟨r, hr, htrue⟩ := h
      split at htrue
      next hisTrue =>
        obtain rfl := Option.some.inj htrue
        exact ⟨key, sig, rest, r, rfl, hr, hisTrue, hrest⟩
      next => cases htrue
  · rintro ⟨key, sig, rest, r, rfl, hr, htrue, hrest⟩
    exact ⟨_, by rw [step, hr, Option.bind_some, if_pos htrue], hrest⟩

theorem ensures_checkSequenceVerify :
    checker.Ensures (.checkSequenceVerify :: ops) Q stack ↔
      ∃ x rest, stack = x :: rest ∧ checker.checkLock x ∧ stack.length ≤ maxStackSize ∧
        checker.Ensures ops Q stack := by
  rw [ensures_cons]
  constructor
  · rintro ⟨_, h, hrest⟩
    cases stack with
    | nil => cases h
    | cons x rest =>
      rw [step] at h
      split at h
      next hlock =>
        obtain rfl := Option.some.inj h
        exact ⟨x, rest, rfl, hlock, hrest⟩
      next => cases h
  · rintro ⟨x, rest, rfl, hlock, hrest⟩
    exact ⟨_, by rw [step, if_pos hlock], hrest⟩

/-- A number from zero on, below `2 ^ 31`, is checked against the input. -/
theorem checkLock_encodeNumber {n : ℕ} (h : n < 2 ^ 31) :
    checker.checkLock (encodeNumber n) = checker.sequence n := by
  have hlen : (encodeNumber n).length ≤ 5 := length_encodeNumber_le (k := 4) (by omega)
  have hflag : ¬n / 2 ^ 31 % 2 = 1 := by
    rw [Nat.div_eq_of_lt h]
    decide
  rw [checkLock, magnitude_encodeNumber, isNegative_encodeNumber, decide_eq_true hlen,
    decide_eq_false hflag]
  rfl

/-- **What a script accepts**, by its operations. -/
theorem accepts_encode (h : ∀ op ∈ ops, op.IsShort) : checker.accepts (encode ops) stack ↔
    stack.length ≤ maxStackSize ∧ (∀ x ∈ stack, x.length ≤ maxElementSize) ∧
      checker.Ensures ops (fun final => ∃ x, final = [x] ∧ isTrue x) stack := by
  rw [accepts, decode_encode h, Option.bind_some, Bool.and_eq_true, Bool.and_eq_true,
    decide_eq_true_eq, List.all_eq_true, Option.any_eq_true, and_assoc]
  refine and_congr Iff.rfl (and_congr ?_ (exists_congr (fun final => and_congr Iff.rfl ?_)))
  · exact forall₂_congr (fun x _ => decide_eq_true_iff)
  · match final with
    | [] => simp [isAccepting]
    | [x] => simp [isAccepting]
    | _ :: _ :: _ => simp [isAccepting]

end Checker

/-! ## Relative lock times -/

/-- Whether a sequence number does not lock its input. -/
def isDisabled (sequence : ℕ) : Bool := sequence / 2 ^ 31 % 2 = 1

/-- Whether a relative lock time counts time, not blocks. -/
def countsTime (n : ℕ) : Bool := n / 2 ^ 22 % 2 = 1

/-- **Whether an input is locked for as long as a script asks**: what the sequence
number of the input says of its age. -/
def checkSequence (version sequence n : ℕ) : Bool :=
  2 ≤ version && !isDisabled sequence && countsTime sequence == countsTime n &&
    n % 2 ^ 16 ≤ sequence % 2 ^ 16

/-- **The first block an input may be spent in**, by its sequence number, for an
output of a block of a height. -/
def earliestHeight (version sequence height : ℕ) : ℕ :=
  if 2 ≤ version && !isDisabled sequence && !countsTime sequence then
    height + sequence % 2 ^ 16
  else 0

/-- **A number of blocks that a script asks for is waited for.** -/
theorem le_earliestHeight {version sequence n : ℕ} (height : ℕ) (hn : n < 2 ^ 16)
    (h : checkSequence version sequence n) : height + n ≤ earliestHeight version sequence height := by
  have htime : countsTime n = false := by
    rw [countsTime, Nat.div_eq_of_lt (by omega)]
    rfl
  simp only [checkSequence, htime, Bool.and_eq_true, beq_iff_eq, decide_eq_true_eq,
    Nat.mod_eq_of_lt hn] at h
  obtain ⟨⟨⟨hversion, henabled⟩, hblocks⟩, hle⟩ := h
  rw [earliestHeight, decide_eq_true hversion, henabled, hblocks]
  exact Nat.add_le_add_left hle height

end Script
