import Swapd.ClaimFees
import Swapd.Script

/-!
# What the scripts of a swap mean

`create_swap` writes two scripts. Read back from their bytes and run, the claim
script accepts a preimage of the payment hash with a signature of the claim key,
and nothing else; the refund script accepts a signature of the refund key once
the lock time is over, and nothing at all when the lock time is zero
(`createSwap_scripts`).

`create_claim_tx` makes a witness for the claim script of each input. It is
accepted exactly when the preimage it was given is one of the payment hash
(`createClaimTx_accepted_iff`). And whoever spends an output of a swap by one of
its scripts either reveals a preimage or waits for the lock time to be over
(`createSwap_spends`).

`Consensus` is what the rules of the network compute with libraries: hashes, the
validity of signatures, and whether a control block proves that an output commits
to a script. A spend is one whose witness ends with the script and the control
block. The rules also allow an annex after them, which the daemon never writes and
which is left out here.
-/

namespace Swapd

open Script (Op Checker Element Stack)

/-! ## The scripts as operations -/

/-- `push_int` pushes a script number. -/
theorem pushInt_eq {n : ℕ} (h : n < 2 ^ 16) :
    pushInt n = Script.encodePush (Script.encodeNumber n) := by
  unfold pushInt
  rcases Script.encodeNumber_cases n with rfl | ⟨hpos, hlt⟩ | ⟨hge, hlt⟩ | hge
  · rw [Script.encodeNumber_zero]
    rfl
  · have hbyte := Script.toNat_ofNat_byte (n := n) (by omega)
    have hne : UInt8.ofNat n ≠ 0x81 := by
      intro heq
      have : (UInt8.ofNat n).toNat = 0x81 := congrArg UInt8.toNat heq
      omega
    rw [if_neg hpos, Script.encodeNumber_of_lt hpos hlt, Script.encodePush, if_neg hne, hbyte]
    by_cases hsmall : n ≤ 16
    · rw [if_pos hsmall, if_pos ⟨by omega, hsmall⟩, UInt8.ofNat_add]
      rfl
    · rw [if_neg hsmall, if_pos hlt, if_neg (fun h => hsmall h.2)]
  · rw [if_neg (by omega), if_neg (by omega), if_neg (by omega), if_pos (by omega),
      Script.encodeNumber_of_byte hge hlt, Nat.mod_eq_of_lt hlt, Nat.div_eq_of_lt hlt]
    rfl
  · rw [if_neg (by omega), if_neg (by omega), if_neg (by omega), Script.encodeNumber_of_ge hge]
    by_cases hsmall : n < 0x8000
    · rw [if_pos hsmall, Script.encodeNumber_of_lt (by omega) (by omega)]
      rfl
    · rw [if_neg hsmall, Script.encodeNumber_of_byte (by omega) (by omega)]
      rfl

/-- **The claim script**, as operations. -/
def claimOps (hash : Hash160) (claimKey : Bytes32) : List Op :=
  [.hash160, .push hash.bytes, .equalVerify, .push claimKey.bytes, .checkSig]

/-- **The refund script**, as operations. -/
def refundOps (refundKey : Bytes32) (lockTime : UInt16) : List Op :=
  [.push refundKey.bytes, .checkSigVerify, .push (Script.encodeNumber lockTime.toNat),
    .checkSequenceVerify]

theorem encodePush_bytes32 (key : Bytes32) : Script.encodePush key.bytes = 0x20 :: key.bytes := by
  rw [Script.encodePush_of_length (by rw [key.length_bytes]; decide), key.length_bytes]
  rfl

theorem claimScript_eq_encode (hash : Hash160) (claimKey : Bytes32) :
    claimScript hash claimKey = Script.encode (claimOps hash claimKey) := by
  have hpush : Script.encodePush hash.bytes = 0x14 :: hash.bytes := by
    rw [Script.encodePush_of_length (by rw [hash.length_bytes]; decide), hash.length_bytes]
    rfl
  simp [claimScript, claimOps, Script.encode, Op.encode, hpush, encodePush_bytes32]

theorem refundScript_eq_encode (refundKey : Bytes32) (lockTime : UInt16) :
    refundScript refundKey lockTime = Script.encode (refundOps refundKey lockTime) := by
  simp [refundScript, refundOps, Script.encode, Op.encode, encodePush_bytes32,
    pushInt_eq lockTime.toNat_lt]

/-! ## What the scripts accept -/

section Accepts

variable {checker : Checker} {stack : Stack}

/-- The elements of a stack that may be handed to a script. -/
def FitsElement (x : Element) : Prop := x.length ≤ Script.maxElementSize

instance (x : Element) : Decidable (FitsElement x) := inferInstanceAs (Decidable (_ ≤ _))

/-- A script of a swap needs no more than three elements. -/
theorem le_maxStackSize {n : ℕ} (h : n ≤ 3) : n ≤ Script.maxStackSize := h.trans (by decide)

/-- **The claim script** accepts a preimage of its hash and a signature of its
key, and nothing else. -/
theorem claimScript_accepts {hash : Hash160} {claimKey : Bytes32} :
    checker.accepts (claimScript hash claimKey) stack ↔
      ∃ preimage sig, stack = [preimage, sig] ∧ FitsElement preimage ∧ FitsElement sig ∧
        checker.hash160 preimage = hash.bytes ∧ sig ≠ [] ∧
          checker.signature claimKey.bytes sig := by
  have hshort : ∀ op ∈ claimOps hash claimKey, op.IsShort := by
    simp [claimOps, Op.IsShort, hash.length_bytes, claimKey.length_bytes]
  have hvalid (sig : Element) :
      (∃ r, checker.checkSig claimKey.bytes sig = some r ∧ Script.isTrue r) ↔
        sig ≠ [] ∧ checker.signature claimKey.bytes sig :=
    Checker.exists_checkSig claimKey.length_bytes
  rw [claimScript_eq_encode, Checker.accepts_encode hshort, claimOps]
  simp only [Checker.ensures_hash160, Checker.ensures_push, Checker.ensures_equalVerify,
    Checker.ensures_checkSig, Checker.ensures_nil]
  constructor
  · rintro ⟨-, hsizes, preimage, rest, rfl, -, -, hash', rest', hequal, -, -, key, sig, rest'', r,
      hkey, hr, -, x, hfinal, htrue⟩
    obtain ⟨rfl, htail⟩ := List.cons.inj hequal
    obtain ⟨hhash, rfl⟩ := List.cons.inj htail
    obtain ⟨rfl, rfl⟩ := List.cons.inj hkey
    obtain ⟨rfl, rfl⟩ := List.cons.inj hfinal
    obtain ⟨hsig, hsignature⟩ := (hvalid sig).mp ⟨r, hr, htrue⟩
    exact ⟨preimage, sig, rfl, hsizes _ (by simp), hsizes _ (by simp), hhash, hsig, hsignature⟩
  · rintro ⟨preimage, sig, rfl, hpreimage, hsig, heq, hne, hsignature⟩
    obtain ⟨r, hr, htrue⟩ := (hvalid sig).mpr ⟨hne, hsignature⟩
    have hsizes : ∀ x ∈ [preimage, sig], FitsElement x := by simp [hpreimage, hsig]
    exact ⟨le_maxStackSize (by simp), hsizes, preimage, [sig], rfl, le_maxStackSize (by simp),
      le_maxStackSize (by simp), hash.bytes, [sig], by rw [heq], le_maxStackSize (by simp),
      le_maxStackSize (by simp), claimKey.bytes, sig, [], r, rfl, hr, le_maxStackSize (by simp),
      r, rfl, htrue⟩

/-- **The refund script** accepts a signature of its key from the end of its lock
time on, if that is not zero. -/
theorem refundScript_accepts {refundKey : Bytes32} {lockTime : UInt16} :
    checker.accepts (refundScript refundKey lockTime) stack ↔
      ∃ sig, stack = [sig] ∧ FitsElement sig ∧ sig ≠ [] ∧
        checker.signature refundKey.bytes sig ∧ checker.sequence lockTime.toNat ∧
          lockTime ≠ 0 := by
  have hshort : ∀ op ∈ refundOps refundKey lockTime, op.IsShort := by
    have hlen := Script.length_encodeNumber_le (n := lockTime.toNat) (k := 4)
      (by have := lockTime.toNat_lt; omega)
    simp only [refundOps, List.forall_mem_cons, Op.IsShort, refundKey.length_bytes]
    refine ⟨by decide, trivial, by omega, trivial, fun _ h => by cases h⟩
  have hvalid (sig : Element) :
      (∃ r, checker.checkSig refundKey.bytes sig = some r ∧ Script.isTrue r) ↔
        sig ≠ [] ∧ checker.signature refundKey.bytes sig :=
    Checker.exists_checkSig refundKey.length_bytes
  have hlock : checker.checkLock (Script.encodeNumber lockTime.toNat)
      = checker.sequence lockTime.toNat :=
    Checker.checkLock_encodeNumber (by have := lockTime.toNat_lt; omega)
  have hzero : Script.isTrue (Script.encodeNumber lockTime.toNat) ↔ lockTime ≠ 0 := by
    rw [Script.isTrue_encodeNumber, decide_eq_true_eq, ne_eq, ne_eq, ← UInt16.toNat_inj]
    rfl
  rw [refundScript_eq_encode, Checker.accepts_encode hshort, refundOps]
  simp only [Checker.ensures_push, Checker.ensures_checkSigVerify,
    Checker.ensures_checkSequenceVerify, Checker.ensures_nil]
  constructor
  · rintro ⟨-, hsizes, -, key, sig, rest, r, heq, hr, htrue, -, -, number, rest', heq', hnumber,
      -, x, hfinal, hx⟩
    obtain ⟨rfl, rfl⟩ := List.cons.inj heq
    obtain ⟨rfl, rfl⟩ := List.cons.inj heq'
    obtain ⟨rfl, rfl⟩ := List.cons.inj hfinal
    obtain ⟨hsig, hsignature⟩ := (hvalid sig).mp ⟨r, hr, htrue⟩
    rw [hlock] at hnumber
    exact ⟨sig, rfl, hsizes _ (by simp), hsig, hsignature, hnumber, hzero.mp hx⟩
  · rintro ⟨sig, rfl, hfits, hne, hsignature, hsequence, hpos⟩
    obtain ⟨r, hr, htrue⟩ := (hvalid sig).mpr ⟨hne, hsignature⟩
    have hsizes : ∀ x ∈ [sig], FitsElement x := by simp [hfits]
    exact ⟨le_maxStackSize (by simp), hsizes, le_maxStackSize (by simp), refundKey.bytes, sig, [],
      r, rfl, hr, htrue, le_maxStackSize (by simp), le_maxStackSize (by simp), _, [], rfl,
      by rw [hlock]; exact hsequence, le_maxStackSize (by simp), _, rfl, hzero.mpr hpos⟩

end Accepts

/-! ## The swaps that are created -/

namespace SwapService

variable {service : SwapService} {lib : SwapLibraries} {swap : Swap}

/-- **A swap as `create_swap` makes it**: the key it claims with, the two scripts,
and the address that commits to them. -/
structure Created (service : SwapService) (lib : SwapLibraries) (swap : Swap) : Prop where
  claimPubkey : swap.pub.claimPubkey = lib.publicKey swap.priv.claimPrivkey
  claimScript : swap.pub.claimScript = Swapd.claimScript (lib.ripemd160 swap.pub.hash.bytes)
    (lib.xOnlyPublicKey swap.pub.claimPubkey)
  refundScript : swap.pub.refundScript
    = Swapd.refundScript (lib.xOnlyPublicKey swap.pub.refundPubkey) swap.pub.lockTime
  lockTime : swap.pub.lockTime = service.lockTime
  address : ∃ info, service.taprootSpendInfo swap = .ok info ∧
    swap.pub.address = lib.p2trTweaked info.outputKey

/-- **What is created.** -/
theorem createSwap_eq_ok {now : SystemTime} {privateKey : Except PrivateKeyError SecretKey}
    {refundPubkey : PublicKey} {hash : PaymentHash} {currentHeight : UInt64}
    (h : service.createSwap lib now privateKey refundPubkey hash currentHeight = .ok swap) :
    Created service lib swap ∧ swap.pub.hash = hash ∧ swap.pub.refundPubkey = refundPubkey ∧
      swap.creationTime = now ∧ privateKey = .ok swap.priv.claimPrivkey := by
  unfold createSwap at h
  obtain ⟨key, hkey, h⟩ := exists_of_bind_eq_ok h
  cases privateKey with
  | error e => cases hkey
  | ok key' =>
    obtain rfl := Except.ok.inj hkey
    cases hfake : service.crypto.compressedPublicKeyFromSlice (List.replicate 33 0x02) with
    | none =>
      simp only [hfake] at h
      cases h
    | some fakeKey =>
      simp only [hfake] at h
      obtain ⟨info, hinfo, hret⟩ := exists_of_bind_eq_ok h
      obtain rfl := Except.ok.inj hret
      exact ⟨⟨rfl, rfl, rfl, rfl, info, hinfo, rfl⟩, rfl, rfl, rfl, rfl⟩

theorem Created.accepts_claimScript (h : Created service lib swap) {checker : Checker}
    {stack : Stack} : checker.accepts swap.pub.claimScript stack ↔
      ∃ preimage sig, stack = [preimage, sig] ∧ FitsElement preimage ∧ FitsElement sig ∧
        checker.hash160 preimage = (lib.ripemd160 swap.pub.hash.bytes).bytes ∧ sig ≠ [] ∧
          checker.signature (lib.xOnlyPublicKey swap.pub.claimPubkey).bytes sig := by
  rw [h.claimScript]
  exact claimScript_accepts

theorem Created.accepts_refundScript (h : Created service lib swap) {checker : Checker}
    {stack : Stack} : checker.accepts swap.pub.refundScript stack ↔
      ∃ sig, stack = [sig] ∧ FitsElement sig ∧ sig ≠ [] ∧
        checker.signature (lib.xOnlyPublicKey swap.pub.refundPubkey).bytes sig ∧
          checker.sequence swap.pub.lockTime.toNat ∧ swap.pub.lockTime ≠ 0 := by
  rw [h.refundScript]
  exact refundScript_accepts

/-- **What the scripts of a created swap accept.** The claim script accepts a
preimage of the payment hash with a signature of the claim key; the refund script
a signature of the refund key once the lock time is over, unless the lock time is
zero. Neither accepts anything else. -/
theorem createSwap_scripts {now : SystemTime} {privateKey : Except PrivateKeyError SecretKey}
    {refundPubkey : PublicKey} {hash : PaymentHash} {currentHeight : UInt64}
    (h : service.createSwap lib now privateKey refundPubkey hash currentHeight = .ok swap)
    (checker : Checker) (stack : Stack) :
    (checker.accepts swap.pub.claimScript stack ↔
      ∃ preimage sig, stack = [preimage, sig] ∧ FitsElement preimage ∧ FitsElement sig ∧
        checker.hash160 preimage = (lib.ripemd160 hash.bytes).bytes ∧ sig ≠ [] ∧
          checker.signature (lib.xOnlyPublicKey swap.pub.claimPubkey).bytes sig) ∧
      (checker.accepts swap.pub.refundScript stack ↔
        ∃ sig, stack = [sig] ∧ FitsElement sig ∧ sig ≠ [] ∧
          checker.signature (lib.xOnlyPublicKey refundPubkey).bytes sig ∧
            checker.sequence service.lockTime.toNat ∧ service.lockTime ≠ 0) := by
  obtain ⟨hcreated, rfl, rfl, -, -⟩ := createSwap_eq_ok h
  rw [← hcreated.lockTime]
  exact ⟨hcreated.accepts_claimScript, hcreated.accepts_refundScript⟩

end SwapService

namespace Sample

/-- A checker that knows one preimage and one signature, at an age of three hundred
blocks. -/
def swapChecker : Checker where
  hash160 := fun x =>
    if x = (Bytes32.ofByte 7).bytes then (crypto.pubkeyHash []).bytes else []
  signature := fun _ sig => sig = List.replicate 64 1
  sequence := fun lock => lock ≤ 300

end Sample

open Sample in
theorem SwapService.createSwap_scripts_sample :
    swapChecker.accepts createdSwap.pub.claimScript
        [(Bytes32.ofByte 7).bytes, List.replicate 64 1] ∧
      ¬swapChecker.accepts createdSwap.pub.claimScript [List.replicate 64 1] ∧
      swapChecker.accepts createdSwap.pub.refundScript [List.replicate 64 1] := by
  have h := createSwap_scripts createSwap_eq swapChecker
  refine ⟨(h _).1.mpr ⟨_, _, rfl, by decide, by decide, by decide, by decide, by decide⟩, ?_,
    (h _).2.mpr ⟨_, rfl, by decide, by decide, by decide, by decide, by decide⟩⟩
  intro haccepts
  obtain ⟨preimage, sig, heq, -⟩ := (h _).1.mp haccepts
  cases heq

/-! ## Spending by a script -/

/-- **What the rules of the network compute with libraries.** -/
structure Consensus where
  sha256 : Bytes → Bytes32
  ripemd160 : Bytes → Hash160
  /-- Whether a signature is one of a key for a message. -/
  verifySchnorr : Bytes32 → Bytes32 → Bytes → Bool
  /-- Whether a signature that names its own sighash type is one of a key. -/
  verifyTyped : Transaction → ℕ → List TxOut → Bytes32 → Bytes → Bool
  /-- Whether a control block proves that an output key commits to a script, as a
  leaf of tapscript. -/
  commits : Bytes32 → ScriptBuf → Bytes → Bool

/-- The output key of a script, if it is one of taproot. -/
def outputKey : ScriptBuf → Option Bytes32
  | 0x51 :: 0x20 :: bytes => Bytes32.ofBytes bytes
  | _ => none

namespace Consensus

variable (rules : Consensus) (crypto : Crypto)

/-- `HASH160`. -/
def hash160 (bytes : Bytes) : Hash160 := rules.ripemd160 (rules.sha256 bytes).bytes

/-- Whether a signature for a script is one of a key. With sixty-four bytes it
signs the default sighash. -/
def verifySignature (tx : Transaction) (n : ℕ) (prevouts : List TxOut) (script : ScriptBuf)
    (key sig : Bytes) : Bool :=
  (Bytes32.ofBytes key).any (fun key =>
    if sig.length = 64 then
      (crypto.taprootScriptSpendSignatureHash tx n prevouts
        (crypto.tapLeafHash script)).toOption.any
          (fun sighash => rules.verifySchnorr key sighash sig)
    else rules.verifyTyped tx n prevouts key sig)

/-- **What a script of an input is checked with.** -/
def checker (tx : Transaction) (n : ℕ) (prevouts : List TxOut) (script : ScriptBuf) : Checker where
  hash160 := fun x => (rules.hash160 x).bytes
  signature := rules.verifySignature crypto tx n prevouts script
  sequence := fun lock => tx.input[n]?.any (fun input =>
    Script.checkSequence tx.version.toNat input.sequence.toNat lock)

/-- **A spend by a script**: an input without a script of its own spends a taproot
output, and its witness is a stack, a script that accepts it, and a control block
for the script. A witness with an annex is none of these. -/
def acceptsSpend (tx : Transaction) (n : ℕ) (prevouts : List TxOut) (script : ScriptBuf)
    (stack : Stack) (controlBlock : Bytes) : Bool :=
  (tx.input[n]?.any (fun input => input.scriptSig.isEmpty
      && input.witness = stack.reverse ++ [script, controlBlock])) &&
    ((prevouts[n]?.bind (fun prevout => outputKey prevout.scriptPubkey)).any
      (fun key => rules.commits key script controlBlock)) &&
    (rules.checker crypto tx n prevouts script).accepts script stack

end Consensus

theorem Hash160.eq_of_bytes {a b : Hash160} (h : a.bytes = b.bytes) : a = b := by
  cases a
  cases b
  cases h
  rfl

theorem ofBytes_bytes (key : Bytes32) : Bytes32.ofBytes key.bytes = some key := by
  rw [Bytes32.ofBytes, dif_pos key.length_bytes]

/-- **What the libraries promise**: a signature is one of the key it was made
with, a control block proves what it was made for, and an address is a taproot
output. -/
structure Consensus.Fits (rules : Consensus) (crypto : Crypto) (lib : SwapLibraries) : Prop where
  sighash : crypto.SighashIgnoresWitnesses
  ripemd160 : ∀ bytes, lib.ripemd160 bytes = rules.ripemd160 bytes
  sign : ∀ key sighash rnd, rules.verifySchnorr (lib.xOnlyPublicKey (lib.publicKey key)) sighash
    (crypto.signSchnorrWithAuxRand sighash key rnd).bytes
  commits : ∀ {claimScript refundScript key info script controlBlock},
    crypto.finalize claimScript refundScript key = .ok info →
      info.controlBlock script = some controlBlock →
        rules.commits info.outputKey script controlBlock.bytes
  p2trTweaked : ∀ key, (lib.p2trTweaked key).scriptPubkey = 0x51 :: 0x20 :: key.bytes

section Spending

variable {rules : Consensus} {service : SwapService} {lib : SwapLibraries} {swap : Swap}
  {tx : Transaction} {n : ℕ} {prevouts : List TxOut} {script : ScriptBuf} {stack : Stack}
  {controlBlock : Bytes}

/-- A spend, part by part. -/
theorem acceptsSpend_iff {crypto : Crypto} :
    rules.acceptsSpend crypto tx n prevouts script stack controlBlock ↔
      (∃ input, tx.input[n]? = some input ∧ input.scriptSig = [] ∧
        input.witness = stack.reverse ++ [script, controlBlock]) ∧
      (∃ prevout key, prevouts[n]? = some prevout ∧ outputKey prevout.scriptPubkey = some key ∧
        rules.commits key script controlBlock) ∧
      (rules.checker crypto tx n prevouts script).accepts script stack := by
  rw [Consensus.acceptsSpend, Bool.and_eq_true, Bool.and_eq_true, and_assoc]
  refine and_congr ?_ (and_congr ?_ Iff.rfl)
  · simp only [Option.any_eq_true, Bool.and_eq_true, List.isEmpty_iff, decide_eq_true_eq]
  · simp only [Option.any_eq_true, Option.bind_eq_some_iff]
    constructor
    · rintro ⟨key, ⟨prevout, hprevout, hkey⟩, hcommits⟩
      exact ⟨prevout, key, hprevout, hkey, hcommits⟩
    · rintro ⟨prevout, key, hprevout, hkey, hcommits⟩
      exact ⟨key, ⟨prevout, hprevout, hkey⟩, hcommits⟩

/-- A spend info of a swap is made of its two scripts. -/
theorem taprootSpendInfo_eq_ok {info : TaprootSpendInfo}
    (h : service.taprootSpendInfo swap = .ok info) :
    ∃ key, service.crypto.finalize swap.pub.claimScript swap.pub.refundScript key = .ok info := by
  obtain ⟨cache, -, h⟩ := SwapService.exists_of_bind_eq_ok h
  exact ⟨_, h⟩

/-- The output key of an output at the address of a created swap. -/
theorem SwapService.Created.outputKey (hfits : rules.Fits service.crypto lib)
    (h : Created service lib swap) {info : TaprootSpendInfo}
    (hinfo : service.taprootSpendInfo swap = .ok info) :
    Swapd.outputKey swap.pub.address.scriptPubkey = some info.outputKey := by
  obtain ⟨info', hinfo', haddress⟩ := h.address
  obtain rfl := Except.ok.inj (hinfo.symm.trans hinfo')
  rw [haddress, hfits.p2trTweaked]
  exact ofBytes_bytes _

namespace SwapService

variable {keys : ℕ → Except PrivateKeyError SecretKey} {claimables : List ClaimableUtxo}
  {fee : FeeEstimate} {currentHeight : UInt64} {destination : Address} {c : ClaimableUtxo}

/-- A signature of the claim key is valid for the transaction it is put in. -/
theorem verifySignature_of_sign (hfits : rules.Fits service.crypto lib)
    (hcreated : Created service lib swap) {tx₀ : Transaction} {sighash rnd : Bytes32}
    (htx : tx₀.stripped = tx.stripped)
    (hsighash : service.crypto.taprootScriptSpendSignatureHash tx₀ n prevouts
      (service.crypto.tapLeafHash script) = .ok sighash) :
    rules.verifySignature service.crypto tx n prevouts script
      (lib.xOnlyPublicKey swap.pub.claimPubkey).bytes
      (service.crypto.signSchnorrWithAuxRand sighash swap.priv.claimPrivkey rnd).bytes := by
  rw [Consensus.verifySignature, ofBytes_bytes, Option.any_some,
    if_pos (SchnorrSignature.length_bytes _), ← hfits.sighash _ _ n prevouts _ htx, hsighash,
    hcreated.claimPubkey]
  exact hfits.sign _ _ _

/-- **A witness of a claimable opens its output** exactly when its preimage is one
of the payment hash. -/
theorem IsWitness.accepted_iff (hfits : rules.Fits service.crypto lib)
    (hcreated : Created service lib c.swap)
    (haddress : c.utxo.txOut.scriptPubkey = c.swap.pub.address.scriptPubkey)
    {tx₀ : Transaction} {input : TxIn} (h : IsWitness service keys prevouts tx₀ c n input.witness)
    (htx : tx₀.stripped = tx.stripped) (hinput : tx.input[n]? = some input)
    (hscriptSig : input.scriptSig = []) (hprevout : prevouts[n]? = some c.utxo.txOut) :
    (∃ stack controlBlock, rules.acceptsSpend service.crypto tx n prevouts c.swap.pub.claimScript
        stack controlBlock) ↔
      rules.hash160 c.preimage.bytes = rules.ripemd160 c.swap.pub.hash.bytes := by
  obtain ⟨sighash, rnd, info, controlBlock, hsighash, -, hinfo, hblock, hwitness⟩ := h.signed
  constructor
  · rintro ⟨stack, controlBlock', haccepts⟩
    obtain ⟨⟨input', hinput', -, hwitness'⟩, -, hscript⟩ := acceptsSpend_iff.mp haccepts
    obtain rfl := Option.some.inj (hinput.symm.trans hinput')
    -- The stack is what stands before the script in the witness.
    have hstack : stack.reverse = [_, c.preimage.bytes] :=
      List.append_inj_left' (hwitness'.symm.trans hwitness) rfl
    rw [← List.reverse_reverse stack, hstack] at hscript
    obtain ⟨preimage, sig, heq, -, -, hhash, -⟩ := hcreated.accepts_claimScript.mp hscript
    obtain ⟨rfl, -⟩ := List.cons.inj heq
    rw [hfits.ripemd160] at hhash
    exact Hash160.eq_of_bytes hhash
  · intro hhash
    obtain ⟨key, hfinalize⟩ := taprootSpendInfo_eq_ok hinfo
    have hsig : (service.crypto.signSchnorrWithAuxRand sighash c.swap.priv.claimPrivkey
        rnd).bytes.length = 64 := SchnorrSignature.length_bytes _
    refine ⟨[c.preimage.bytes, _], controlBlock.bytes, acceptsSpend_iff.mpr
      ⟨⟨input, hinput, hscriptSig, hwitness⟩, ⟨_, info.outputKey, hprevout, ?_, ?_⟩,
        hcreated.accepts_claimScript.mpr ⟨_, _, rfl, ?_, ?_, ?_, ?_, ?_⟩⟩⟩
    · rw [haddress]
      exact hcreated.outputKey hfits hinfo
    · exact hfits.commits hfinalize hblock
    · rw [FitsElement, c.preimage.length_bytes]
      decide
    · rw [FitsElement, hsig]
      decide
    · rw [hfits.ripemd160]
      exact congrArg Hash160.bytes hhash
    · intro hnil
      rw [hnil] at hsig
      cases hsig
    · exact verifySignature_of_sign hfits hcreated htx hsighash

/-- **What a claim transaction is worth on the network**: each input is accepted,
by the claim script of its swap, exactly when the preimage of its claimable is one
of the payment hash. -/
theorem createClaimTx_accepted_iff (hfits : rules.Fits service.crypto lib)
    (hcreated : ∀ c ∈ claimables, Created service lib c.swap)
    (haddress : ∀ c ∈ claimables,
      c.utxo.txOut.scriptPubkey = c.swap.pub.address.scriptPubkey)
    (htx : service.createClaimTx keys claimables fee currentHeight destination = .ok tx)
    (hc : (sortByOutpoint claimables)[n]? = some c) :
    (∃ stack controlBlock, rules.acceptsSpend service.crypto tx n
        ((sortByOutpoint claimables).map (fun u => u.utxo.txOut)) c.swap.pub.claimScript stack
        controlBlock) ↔
      rules.hash160 c.preimage.bytes = rules.ripemd160 c.swap.pub.hash.bytes := by
  obtain ⟨-, -, -, hsigned⟩ := createClaimTx_eq_ok htx
  obtain ⟨tx₀, input, htx₀, hinput, hwitness⟩ := hsigned.signed n c hc
  have hmem : c ∈ claimables :=
    (sortByOutpoint_perm claimables).mem_iff.mp (List.mem_of_getElem? hc)
  have hscriptSig : input.scriptSig = [] := by
    have hstripped := Transaction.getElem?_stripped tx n
    rw [hsigned.stripped, hinput, unsignedClaimTx, List.getElem?_map, hc] at hstripped
    exact (congrArg TxIn.scriptSig (Option.some.inj hstripped)).symm
  refine hwitness.accepted_iff hfits (hcreated c hmem) (haddress c hmem) htx₀ hinput hscriptSig ?_
  rw [List.getElem?_map, hc]
  rfl

/-- **Who spends an output of a swap by one of its scripts** either reveals a
preimage of the payment hash and signs with the claim key, or signs with the refund
key and has to wait until the lock time is over. This is about witnesses without an
annex, as `Consensus.acceptsSpend` is. -/
theorem createSwap_spends {now : SystemTime} {privateKey : Except PrivateKeyError SecretKey}
    {refundPubkey : PublicKey} {hash : PaymentHash} {input : TxIn}
    (h : service.createSwap lib now privateKey refundPubkey hash currentHeight = .ok swap)
    (hspend : rules.acceptsSpend service.crypto tx n prevouts script stack controlBlock)
    (hinput : tx.input[n]? = some input) :
    (script = swap.pub.claimScript → ∃ preimage sig,
      input.witness = [sig, preimage, script, controlBlock] ∧
        (rules.hash160 preimage).bytes = (lib.ripemd160 hash.bytes).bytes ∧
          rules.verifySignature service.crypto tx n prevouts script
            (lib.xOnlyPublicKey swap.pub.claimPubkey).bytes sig) ∧
      (script = swap.pub.refundScript → service.lockTime ≠ 0 ∧ (∃ sig,
        input.witness = [sig, script, controlBlock] ∧
          rules.verifySignature service.crypto tx n prevouts script
            (lib.xOnlyPublicKey refundPubkey).bytes sig) ∧
        ∀ height, height + service.lockTime.toNat
          ≤ Script.earliestHeight tx.version.toNat input.sequence.toNat height) := by
  obtain ⟨hcreated, rfl, rfl, -, -⟩ := createSwap_eq_ok h
  obtain ⟨⟨input', hinput', -, hwitness⟩, -, haccepts⟩ := acceptsSpend_iff.mp hspend
  obtain rfl := Option.some.inj (hinput.symm.trans hinput')
  constructor
  · rintro rfl
    obtain ⟨preimage, sig, rfl, -, -, hhash, -, hsig⟩ := hcreated.accepts_claimScript.mp haccepts
    exact ⟨preimage, sig, hwitness, hhash, hsig⟩
  · rintro rfl
    obtain ⟨sig, rfl, -, -, hsig, hsequence, hlock⟩ := hcreated.accepts_refundScript.mp haccepts
    rw [← hcreated.lockTime]
    refine ⟨hlock, ⟨sig, hwitness, hsig⟩, fun height => ?_⟩
    have hlocked : Script.checkSequence tx.version.toNat input.sequence.toNat
        swap.pub.lockTime.toNat := by
      simpa only [Consensus.checker, hinput, Option.any_some] using hsequence
    exact Script.le_earliestHeight height swap.pub.lockTime.toNat_lt hlocked

end SwapService

end Spending

namespace Sample

/-- Libraries whose addresses are taproot outputs, and whose hash tells the payment
hash of the swap from all others. -/
def taprootLibraries : SwapLibraries where
  publicKey := swapLibraries.publicKey
  xOnlyPublicKey := swapLibraries.xOnlyPublicKey
  ripemd160 := fun x => ⟨List.replicate 20 (if x = (Bytes32.ofByte 1).bytes then 1 else 0), by simp⟩
  p2trTweaked := fun key => ⟨0x51 :: 0x20 :: key.bytes⟩

/-- The rules of the network, with the signatures and control blocks of the
libraries. -/
def consensus : Consensus where
  sha256 := fun x => if x = (Bytes32.ofByte 7).bytes then .ofByte 1 else .ofByte 0
  ripemd160 := taprootLibraries.ripemd160
  verifySchnorr := fun _ _ sig => sig = List.replicate 64 0
  verifyTyped := fun _ _ _ _ _ => false
  commits := fun _ _ controlBlock => controlBlock = List.replicate 65 0

theorem fits_consensus : consensus.Fits crypto taprootLibraries where
  sighash := sighashIgnoresWitnesses_crypto
  ripemd160 := fun _ => rfl
  sign := fun _ _ _ => rfl
  commits := by
    intro claimScript refundScript key info script controlBlock hinfo hblock
    obtain rfl := Except.ok.inj hinfo
    obtain rfl := Option.some.inj hblock
    rfl
  p2trTweaked := fun _ => rfl

/-- A swap with a taproot address. -/
def taprootSwap : Swap where
  creationTime := 0
  pub := ⟨⟨0x51 :: 0x20 :: (Bytes32.ofByte 0).bytes⟩, [],
    claimScript (taprootLibraries.ripemd160 (Bytes32.ofByte 1).bytes) (.ofByte 4), .ofByte 1, 288,
    [], refundScript (.ofByte 4) 288⟩
  priv := ⟨.ofByte 9⟩

theorem created_taprootSwap : SwapService.Created swapService taprootLibraries taprootSwap :=
  (SwapService.createSwap_eq_ok (rfl : swapService.createSwap taprootLibraries 0 (.ok (.ofByte 9))
    [] (.ofByte 1) 100 = .ok taprootSwap)).1

/-- An output of that swap, with a preimage to claim it with. -/
def taprootClaimable (preimage : Preimage) : ClaimableUtxo where
  swap := taprootSwap
  utxo := ⟨.ofByte 3, 100, ⟨.ofByte 2, 0⟩, ⟨1000000, taprootSwap.pub.address.scriptPubkey⟩⟩
  paidWithRequest := none
  preimage := preimage

end Sample

open Sample in
/-- One preimage opens the output, the other does not. -/
theorem SwapService.createClaimTx_accepted_iff_sample :
    ∃ tx tx', swapService.createClaimTx (fun _ => .ok (.ofByte 5))
        [taprootClaimable (.ofByte 7)] ⟨250⟩ 110 walletAddress = .ok tx ∧
      swapService.createClaimTx (fun _ => .ok (.ofByte 5))
        [taprootClaimable (.ofByte 8)] ⟨250⟩ 110 walletAddress = .ok tx' ∧
      (∃ stack controlBlock, consensus.acceptsSpend swapService.crypto tx 0
        [(taprootClaimable (.ofByte 7)).utxo.txOut] taprootSwap.pub.claimScript stack
        controlBlock) ∧
      ¬∃ stack controlBlock, consensus.acceptsSpend swapService.crypto tx' 0
        [(taprootClaimable (.ofByte 8)).utxo.txOut] taprootSwap.pub.claimScript stack
        controlBlock := by
  have hcreated (p : Preimage) : ∀ c ∈ [taprootClaimable p],
      Created swapService taprootLibraries c.swap := by
    intro c hc
    rw [List.mem_singleton.mp hc]
    exact created_taprootSwap
  have haddress (p : Preimage) : ∀ c ∈ [taprootClaimable p],
      c.utxo.txOut.scriptPubkey = c.swap.pub.address.scriptPubkey := by
    intro c hc
    rw [List.mem_singleton.mp hc]
    rfl
  obtain ⟨tx, htx⟩ : ∃ tx, swapService.createClaimTx (fun _ => .ok (.ofByte 5))
    [taprootClaimable (.ofByte 7)] ⟨250⟩ 110 walletAddress = .ok tx := ⟨_, rfl⟩
  obtain ⟨tx', htx'⟩ : ∃ tx, swapService.createClaimTx (fun _ => .ok (.ofByte 5))
    [taprootClaimable (.ofByte 8)] ⟨250⟩ 110 walletAddress = .ok tx := ⟨_, rfl⟩
  refine ⟨tx, tx', htx, htx', ?_, ?_⟩
  · exact (createClaimTx_accepted_iff fits_consensus (hcreated _) (haddress _) htx
      (n := 0) rfl).mpr (by decide)
  · intro haccepts
    have h := (createClaimTx_accepted_iff fits_consensus (hcreated _) (haddress _) htx'
      (n := 0) rfl).mp haccepts
    exact absurd h (by decide)

namespace Sample

/-- A spend of that output by a script of the swap, of the sequence number and with
the stack given. -/
def spendByScript (script : ScriptBuf) (sequence : UInt32) (stack : Stack) : Transaction where
  version := 2
  lockTime := 0
  input := [⟨⟨.ofByte 2, 0⟩, [], sequence, stack.reverse ++ [script, List.replicate 65 0]⟩]
  output := [⟨999000, [0x52]⟩]

end Sample

open Sample in
/-- Who claims the output shows the preimage of the payment hash. Who refunds it,
when it is an output of block 100, does so at height 388 or later. -/
theorem SwapService.createSwap_spends_sample :
    (∃ preimage sig, [List.replicate 64 0, (Bytes32.ofByte 7).bytes, taprootSwap.pub.claimScript,
        List.replicate 65 0] = [sig, preimage, taprootSwap.pub.claimScript, List.replicate 65 0] ∧
      consensus.hash160 preimage = taprootLibraries.ripemd160 (Bytes32.ofByte 1).bytes) ∧
      100 + 288 ≤ Script.earliestHeight 2 288 100 := by
  have hcreate : swapService.createSwap taprootLibraries 0 (.ok (.ofByte 9)) [] (.ofByte 1) 100
      = .ok taprootSwap := rfl
  constructor
  · have hclaim : consensus.acceptsSpend swapService.crypto
        (spendByScript taprootSwap.pub.claimScript 0
          [(Bytes32.ofByte 7).bytes, List.replicate 64 0]) 0
        [(taprootClaimable (.ofByte 7)).utxo.txOut] taprootSwap.pub.claimScript
        [(Bytes32.ofByte 7).bytes, List.replicate 64 0] (List.replicate 65 0) := by
      refine acceptsSpend_iff.mpr ⟨⟨_, rfl, rfl, rfl⟩, ⟨_, .ofByte 0, rfl, rfl, rfl⟩,
        created_taprootSwap.accepts_claimScript.mpr ⟨_, _, rfl, by decide, by decide, rfl,
          by decide, rfl⟩⟩
    obtain ⟨preimage, sig, hwitness, hhash, -⟩ := (createSwap_spends hcreate hclaim rfl).1 rfl
    exact ⟨preimage, sig, hwitness, Hash160.eq_of_bytes hhash⟩
  · have hrefund : consensus.acceptsSpend swapService.crypto
        (spendByScript taprootSwap.pub.refundScript 288 [List.replicate 64 0]) 0
        [(taprootClaimable (.ofByte 7)).utxo.txOut] taprootSwap.pub.refundScript
        [List.replicate 64 0] (List.replicate 65 0) := by
      refine acceptsSpend_iff.mpr ⟨⟨_, rfl, rfl, rfl⟩, ⟨_, .ofByte 0, rfl, rfl, rfl⟩,
        created_taprootSwap.accepts_refundScript.mpr ⟨_, rfl, by decide, by decide, rfl, rfl,
          by decide⟩⟩
    exact ((createSwap_spends hcreate hrefund rfl).2 rfl).2.2 100

end Swapd
