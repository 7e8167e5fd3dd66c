import Mathlib.Algebra.Ring.Int.Defs
import Mathlib.Algebra.Ring.Nat
import Mathlib.Data.List.Basic

/-!
# The data of the swap server

The values that pass between the server, its database, the Lightning node and
bitcoind. Digests are their thirty-two bytes, machine integers are the machine
integers of the source, and an address is the script it pays to: on one
network an address and its script determine each other, and the text form the
database stores is injective, so the text columns of the tables hold the
addresses themselves.

Errors keep the distinctions the source acts on. What a `General` error boxes
is only ever logged, and is left out.
-/

namespace Swapd

/-- A byte string. -/
abbrev Bytes := List UInt8

/-- **A digest**: thirty-two bytes. -/
structure Bytes32 where
  /-- The bytes. -/
  bytes : Bytes
  /-- There are thirty-two of them. -/
  length_bytes : bytes.length = 32
deriving DecidableEq

namespace Bytes32

/-- The lower-case hexadecimal digit of a number below sixteen. -/
def hexDigit (n : ℕ) : Char :=
  if n < 10 then Char.ofNat (48 + n) else Char.ofNat (87 + n)

/-- The text form of a digest, as a list of characters. -/
def hexChars (h : Bytes32) : List Char :=
  h.bytes.flatMap (fun b => [hexDigit (b.toNat / 16), hexDigit (b.toNat % 16)])

/-- The text form of a digest. -/
def toHex (h : Bytes32) : String := String.ofList h.hexChars

/-- The digest whose last byte is given, the others being zero. -/
def ofByte (b : UInt8) : Bytes32 :=
  ⟨List.replicate 31 0 ++ [b], by simp⟩

/-- Thirty-two bytes, from a byte string. -/
def ofBytes (bytes : Bytes) : Option Bytes32 :=
  if h : bytes.length = 32 then some ⟨bytes, h⟩ else none

theorem hexDigit_injOn {m n : ℕ} (hm : m < 16) (hn : n < 16)
    (h : hexDigit m = hexDigit n) : m = n := by
  have key : ∀ m n : Fin 16, hexDigit m = hexDigit n → m = n := by decide
  exact congrArg Fin.val (key ⟨m, hm⟩ ⟨n, hn⟩ h)

theorem hexPair_injective (b c : UInt8)
    (h₁ : hexDigit (b.toNat / 16) = hexDigit (c.toNat / 16))
    (h₂ : hexDigit (b.toNat % 16) = hexDigit (c.toNat % 16)) : b = c := by
  have hb := b.toNat_lt
  have hc := c.toNat_lt
  have hdiv := hexDigit_injOn (by omega) (by omega) h₁
  have hmod := hexDigit_injOn (by omega) (by omega) h₂
  exact UInt8.toNat_inj.mp (by omega)

@[simp] theorem length_hexChars (h : Bytes32) : h.hexChars.length = 64 := by
  simp [hexChars, List.length_flatMap, h.length_bytes]

theorem hexChars_injective {h g : Bytes32} (e : h.hexChars = g.hexChars) :
    h = g := by
  have key : ∀ bs cs : Bytes,
      bs.flatMap (fun b => [hexDigit (b.toNat / 16), hexDigit (b.toNat % 16)])
        = cs.flatMap (fun b => [hexDigit (b.toNat / 16), hexDigit (b.toNat % 16)]) →
      bs = cs := by
    intro bs
    induction bs with
    | nil => intro cs hcs; cases cs with
      | nil => rfl
      | cons c cs => simp at hcs
    | cons b bs ih => intro cs hcs; cases cs with
      | nil => simp at hcs
      | cons c cs =>
        simp only [List.flatMap_cons, List.cons_append, List.nil_append,
          List.cons.injEq] at hcs
        rw [hexPair_injective b c hcs.1 hcs.2.1, ih cs hcs.2.2]
  obtain ⟨bs, _⟩ := h
  obtain ⟨cs, _⟩ := g
  congr
  exact key bs cs e

end Bytes32

/-- A payment hash. -/
abbrev PaymentHash := Bytes32
/-- A payment preimage. -/
abbrev Preimage := Bytes32
/-- A transaction id. -/
abbrev Txid := Bytes32
/-- A block hash. -/
abbrev BlockHash := Bytes32
/-- A secret key. -/
abbrev SecretKey := Bytes32
/-- A public key, serialized. -/
abbrev PublicKey := Bytes
/-- A script. -/
abbrev ScriptBuf := Bytes

/-! ## Transactions and blocks -/

/-- The output of a transaction, by reference. -/
structure OutPoint where
  txid : Txid
  vout : UInt32
deriving DecidableEq

/-- A transaction output: a value in satoshis and the script it pays to. -/
structure TxOut where
  value : UInt64
  scriptPubkey : ScriptBuf
deriving DecidableEq

/-- A transaction input. -/
structure TxIn where
  previousOutput : OutPoint
  scriptSig : ScriptBuf
  sequence : UInt32
  witness : List Bytes
deriving DecidableEq

/-- A transaction. -/
structure Transaction where
  version : UInt32
  lockTime : UInt32
  input : List TxIn
  output : List TxOut
deriving DecidableEq

/-- **An address**: the script it pays to. -/
structure Address where
  scriptPubkey : ScriptBuf
deriving DecidableEq

/-- `Address::from_script`, given which scripts have an address form. -/
def Address.fromScript (standard : ScriptBuf → Bool) (script : ScriptBuf) :
    Option Address :=
  if standard script then some ⟨script⟩ else none

theorem Address.scriptPubkey_of_fromScript {standard : ScriptBuf → Bool}
    {script : ScriptBuf} {a : Address}
    (h : Address.fromScript standard script = some a) :
    a.scriptPubkey = script := by
  unfold Address.fromScript at h
  split at h
  · exact congrArg Address.scriptPubkey (Option.some.inj h).symm
  · cases h

/-- A confirmed transaction output. -/
structure Txo where
  blockHash : BlockHash
  blockHeight : UInt64
  outpoint : OutPoint
  txOut : TxOut
deriving DecidableEq

/-- The header of a block, as far as the server keeps it. -/
structure BlockHeader where
  hash : BlockHash
  height : UInt64
  prev : BlockHash
deriving DecidableEq

/-! ## Swaps and payment attempts -/

/-- A point in time, in nanoseconds from the unix epoch. -/
abbrev SystemTime := ℤ

/-- `duration_since(UNIX_EPOCH)`: fails before the epoch. -/
def SystemTime.sinceEpoch (t : SystemTime) : Option ℕ :=
  if 0 ≤ t then some t.toNat else none

/-- The public part of a swap. -/
structure SwapPublicData where
  address : Address
  claimPubkey : PublicKey
  claimScript : ScriptBuf
  hash : PaymentHash
  lockTime : UInt16
  refundPubkey : PublicKey
  refundScript : ScriptBuf
deriving DecidableEq

/-- The private part of a swap. -/
structure SwapPrivateData where
  claimPrivkey : SecretKey
deriving DecidableEq

/-- A swap. -/
structure Swap where
  creationTime : SystemTime
  pub : SwapPublicData
  priv : SwapPrivateData
deriving DecidableEq

/-- A swap and the preimage known for it. -/
structure SwapState where
  swap : Swap
  preimage : Option Preimage
deriving DecidableEq

/-- An attempt to pay a swap, with the outputs it is paid for. -/
structure PaymentAttempt where
  creationTime : SystemTime
  label : String
  paymentHash : PaymentHash
  outputs : List OutPoint
  amountMsat : UInt64
  destination : PublicKey
  paymentRequest : String
deriving DecidableEq

/-- The label `pay_swap` gives an attempt: `format!("{}-{}", hash, ns)`. -/
def paymentLabel (hash : PaymentHash) (unixNs : ℕ) : String :=
  hash.toHex ++ "-" ++ toString unixNs

/-- **A label determines the swap it was made for.** -/
theorem paymentLabel_hash {h g : PaymentHash} {m n : ℕ}
    (e : paymentLabel h m = paymentLabel g n) : h = g := by
  have hl := congrArg String.toList e
  simp only [paymentLabel, Bytes32.toHex, String.toList_append,
    String.toList_ofList, List.append_assoc] at hl
  exact Bytes32.hexChars_injective
    (List.append_inj_left hl (by rw [Bytes32.length_hexChars, Bytes32.length_hexChars]))

theorem paymentLabel_ne_empty (hash : PaymentHash) (unixNs : ℕ) :
    paymentLabel hash unixNs ≠ "" := by
  intro h
  have hl := congrArg String.toList h
  simp [paymentLabel, String.toList_append] at hl

/-! ## Lightning payments -/

/-- What the server asks the Lightning client to pay. -/
structure PaymentRequest where
  bolt11 : String
  cltvLimit : UInt32
  paymentHash : PaymentHash
  label : String
  feeLimitMsat : UInt64
  timeoutSeconds : UInt16
deriving DecidableEq

/-- The result of a payment. -/
inductive PaymentResult where
  | success (preimage : Preimage)
  | failure (error : String)
deriving DecidableEq

/-- An attempt with its result, if it has one. -/
structure PaymentAttemptWithResult where
  attempt : PaymentAttempt
  result : Option PaymentResult
deriving DecidableEq

/-- The state of a payment. -/
inductive PaymentState where
  | success (preimage : Preimage)
  | failure (error : String)
  | pending
deriving DecidableEq

/-- A preimage found on the node, with the label of its payment. -/
structure PreimageResult where
  preimage : Preimage
  label : String
deriving DecidableEq

/-- A fee estimate. -/
structure FeeEstimate where
  satPerKw : UInt32
deriving DecidableEq

/-! ## Errors -/

/-- The grpc status codes in use. -/
inductive Code where
  | invalidArgument
  | failedPrecondition
  | notFound
  | alreadyExists
  | internal
  | unknown
deriving DecidableEq

/-- A grpc status. -/
structure Status where
  code : Code
  message : String
deriving DecidableEq

/-- The errors of a Lightning client. -/
inductive LightningError where
  | connectionFailed
  | invalidPreimage
  | paymentNotFound
  | general (status : Status)
deriving DecidableEq

/-- The errors of looking up swaps. -/
inductive GetSwapsError where
  | notFound
  | invalidPreimage
  | general
deriving DecidableEq

/-- The errors of locking and unlocking a swap. -/
inductive LockSwapError where
  | alreadyLocked
  | swapNotFound
  | general
deriving DecidableEq

/-- The errors of looking up payment attempts. -/
inductive GetPaymentAttemptsError where
  | invalidPreimage
  | general
deriving DecidableEq

/-- The errors of the chain tables. -/
inductive ChainRepositoryError where
  | multipleTips
  | general
deriving DecidableEq

/-- The errors of the chain client and the chain monitor. -/
inductive ChainError where
  | database (error : ChainRepositoryError)
  | emptyChain
  | invalidChain
  | blockNotFound
  | general
deriving DecidableEq

/-- The errors of fee estimation. -/
inductive FeeEstimateError where
  | unavailable
  | general
deriving DecidableEq

/-- The error of the random provider. -/
inductive RandomError where
  | general
deriving DecidableEq

/-- The error of the private key provider. -/
inductive PrivateKeyError where
  | general
deriving DecidableEq

end Swapd
