import Swapd.System

/-!
# Changes of the swap tables

What happens to the swap tables is a transaction of a repository call, or a swap is
added.
-/

namespace Swapd

/-- **A change of the swap tables**: a transaction, or a swap is added. -/
inductive TableChange where
  | transaction (c : Call Lightning)
  | addSwap (swap : Swap)

namespace TableChange

/-- What a change leaves behind, if it goes through. -/
def apply : TableChange → SwapTables → Except LockSwapError SwapTables
  | transaction c, db => World.transaction c db
  | addSwap swap, db =>
    if db.swaps.any (fun s => s.swap.pub.hash = swap.pub.hash) then .error .general
    else .ok { db with swaps := db.swaps ++ [⟨swap, none⟩] }

/-- **What a change does that goes through**, and when it does. -/
inductive Applies (db : SwapTables) : TableChange → SwapTables → Prop where
  | attempted {a : PaymentAttempt} {ns : ℕ} (hswap : db.HasSwap a.paymentHash)
      (hfree : ∀ l ∈ db.swapLocks, l.swapPaymentHash ≠ a.paymentHash)
      (hns : SystemTime.sinceEpoch a.creationTime = some ns) :
      Applies db (transaction (.lockAddPaymentAttempt a))
        (SwapTables.attempted a (ns / 1000000000) db)
  | refundLocked {hash : PaymentHash} {id : String} (hswap : db.HasSwap hash)
      (hfree : ∀ label, ¬db.PaymentLocked hash label) :
      Applies db (transaction (.lockSwapRefund hash id)) (SwapTables.insertRefundLock hash id db)
  | resulted {hash : PaymentHash} {label : String} {result : PaymentResult}
      (hswap : db.HasSwap hash) :
      Applies db (transaction (.unlockAddPaymentResult hash label result))
        (SwapTables.resulted hash label result db)
  | refundUnlocked {hash : PaymentHash} {id : String} (hswap : db.HasSwap hash) :
      Applies db (transaction (.unlockSwapRefund hash id)) (SwapTables.deleteRefundLock hash id db)
  | added {swap : Swap} (hnew : ¬db.HasSwap swap.pub.hash) :
      Applies db (addSwap swap) { db with swaps := db.swaps ++ [⟨swap, none⟩] }
  | unchanged {c : Call Lightning} (hc : ∀ db, World.transaction c db = .ok db) :
      Applies db (transaction c) db

variable {change : TableChange} {db db' : SwapTables} {hash : PaymentHash}

theorem apply_eq_ok_iff : change.apply db = .ok db' ↔ Applies db change db' := by
  constructor
  · intro h
    cases change with
    | transaction c =>
      cases c with
      | lockAddPaymentAttempt a =>
        obtain ⟨hswap, hfree, ns, hns, rfl⟩ := SwapTables.lockAddPaymentAttempt_eq_ok_iff.mp h
        exact .attempted hswap hfree hns
      | lockSwapRefund hash id =>
        obtain ⟨hswap, hfree, rfl⟩ := SwapTables.lockSwapRefund_eq_ok_iff.mp h
        exact .refundLocked hswap hfree
      | unlockAddPaymentResult hash label result =>
        obtain ⟨hswap, rfl⟩ := SwapTables.unlockAddPaymentResult_eq_ok_iff.mp h
        exact .resulted hswap
      | unlockSwapRefund hash id =>
        obtain ⟨hswap, rfl⟩ := SwapTables.unlockSwapRefund_eq_ok_iff.mp h
        exact .refundUnlocked hswap
      | _ =>
        obtain rfl := Except.ok.inj h
        exact .unchanged (fun _ => rfl)
    | addSwap swap =>
      have h : (if _ then _ else _) = Except.ok db' := h
      split at h
      next => cases h
      next hnew =>
        obtain rfl := Except.ok.inj h
        exact .added (by simpa [SwapTables.HasSwap] using hnew)
  · intro h
    cases h with
    | attempted hswap hfree hns =>
      exact SwapTables.lockAddPaymentAttempt_eq_ok_iff.mpr ⟨hswap, hfree, _, hns, rfl⟩
    | refundLocked hswap hfree =>
      exact SwapTables.lockSwapRefund_eq_ok_iff.mpr ⟨hswap, hfree, rfl⟩
    | resulted hswap => exact SwapTables.unlockAddPaymentResult_eq_ok_iff.mpr ⟨hswap, rfl⟩
    | refundUnlocked hswap => exact SwapTables.unlockSwapRefund_eq_ok_iff.mpr ⟨hswap, rfl⟩
    | added hnew => exact if_neg (by simpa [SwapTables.HasSwap] using hnew)
    | unchanged hc => exact hc db

/-- **No change removes a swap.** -/
theorem Applies.hasSwap (h : Applies db change db') (hhas : db.HasSwap hash) :
    db'.HasSwap hash := by
  cases h with
  | @resulted _ _ result _ =>
    cases result with
    | success preimage =>
      obtain ⟨s, hs, rfl⟩ := hhas
      refine ⟨_, List.mem_map_of_mem hs, ?_⟩
      split <;> rfl
    | failure error => exact hhas
  | added => exact hhas.imp (fun _ => And.imp_left (List.mem_append_left _))
  | _ => exact hhas

/-- **No change removes an attempt.** -/
theorem Applies.hasAttempt {label : String} (h : Applies db change db')
    (hattempt : db.HasAttempt hash label) : db'.HasAttempt hash label := by
  cases h with
  | attempted => exact SwapTables.hasAttempt_attempted.mpr (Or.inl hattempt)
  | resulted => exact hattempt.resulted
  | _ => exact hattempt

end TableChange

end Swapd
