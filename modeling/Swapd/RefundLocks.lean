import Swapd.PaySwapChecks
import Swapd.TableChanges

/-!
# The lock of a refund request

`refund_swap` takes a lock of its own and, where it fails after that, releases it.
What else happens to the swap tables meanwhile are the transactions of other
requests and new swaps, a list of changes. `Apart` relates the tables to that list:
without the lock of the request they are what the changes alone make of the tables
at the start. Neither the changes nor the calls of the request disturb it, so a
request that fails leaves nothing behind and takes nothing away
(`refundSwap_cleansUp`), and one that succeeds leaves its lock and no more.
-/

namespace Swapd

open SwapTables (deleteRefundLock insertRefundLock)

namespace TableChange

/-- Whether a change is about a refund lock with the id given. -/
def UsesId (id : String) : TableChange → Prop
  | transaction (.lockSwapRefund _ id') => id' = id
  | transaction (.unlockSwapRefund _ id') => id' = id
  | _ => False

/-- Changes, one after the other. -/
def replay (changes : List TableChange) (db : SwapTables) : Except LockSwapError SwapTables :=
  changes.foldlM (fun db change => change.apply db) db

variable {change : TableChange} {changes : List TableChange} {db db' : SwapTables}
  {hash : PaymentHash} {id : String}

@[simp] theorem replay_nil : replay [] db = .ok db := rfl

theorem replay_cons :
    replay (change :: changes) db = (change.apply db).bind (replay changes) := rfl

theorem replay_append (changes' : List TableChange) :
    replay (changes ++ changes') db = (replay changes db).bind (replay changes') :=
  List.foldlM_append

theorem hasSwap_replay (h : replay changes db = .ok db') (hhas : db.HasSwap hash) :
    db'.HasSwap hash := by
  induction changes generalizing db with
  | nil => exact Except.ok.inj h ▸ hhas
  | cons change changes ih =>
    rw [replay_cons] at h
    cases happly : change.apply db with
    | error e =>
      rw [happly] at h
      cases h
    | ok db₁ =>
      rw [happly] at h
      exact ih h ((apply_eq_ok_iff.mp happly).hasSwap hhas)

theorem deleteRefundLock_comm {hash' : PaymentHash} {id' : String} :
    deleteRefundLock hash id (deleteRefundLock hash' id' db)
      = deleteRefundLock hash' id' (deleteRefundLock hash id db) := by
  unfold deleteRefundLock
  rw [List.filter_comm]

theorem deleteRefundLock_resulted {hash' : PaymentHash} {label : String} {result : PaymentResult} :
    deleteRefundLock hash id (SwapTables.resulted hash' label result db)
      = SwapTables.resulted hash' label result (deleteRefundLock hash id db) := by
  unfold deleteRefundLock
  rw [SwapTables.resulted_swapLocks, List.filter_comm]
  cases result <;> rfl

/-- **A refund lock is in nobody's way**: what others do beside it, they do in the
same way without it. -/
theorem Applies.deleteRefundLock (h : Applies db change db') (hid : ¬change.UsesId id) :
    Applies (deleteRefundLock hash id db) change (deleteRefundLock hash id db') := by
  cases h with
  | @attempted a ns hswap hfree hns =>
    have heq : SwapTables.deleteRefundLock hash id (SwapTables.attempted a (ns / 1000000000) db)
        = SwapTables.attempted a (ns / 1000000000) (SwapTables.deleteRefundLock hash id db) := by
      simp [SwapTables.deleteRefundLock, SwapTables.attempted, SwapTables.insertTxOutputs,
        SwapTables.insertPaymentAttempt, SwapTables.insertPaymentLock]
    rw [heq]
    exact .attempted hswap (fun l hl => hfree l (List.mem_of_mem_filter hl)) hns
  | @refundLocked hash' id' hswap hfree =>
    have hne : id' ≠ id := hid
    have heq : SwapTables.deleteRefundLock hash id (SwapTables.insertRefundLock hash' id' db)
        = SwapTables.insertRefundLock hash' id' (SwapTables.deleteRefundLock hash id db) := by
      simp [SwapTables.deleteRefundLock, SwapTables.insertRefundLock, hne]
    rw [heq]
    exact .refundLocked hswap
      (fun l hl => hfree l (SwapTables.paymentLocked_deleteRefundLock.mp hl))
  | resulted hswap =>
    rw [deleteRefundLock_resulted]
    exact .resulted hswap
  | refundUnlocked hswap =>
    rw [deleteRefundLock_comm]
    exact .refundUnlocked hswap
  | added hnew => exact .added hnew
  | unchanged hc => exact .unchanged hc

/-- The number of locks of one refund. -/
def countRefundLocks (hash : PaymentHash) (id : String) (db : SwapTables) : ℕ :=
  db.swapLocks.count ⟨hash, .refund id⟩

/-- **Others do not touch it.** -/
theorem Applies.countRefundLocks (h : Applies db change db') (hid : ¬change.UsesId id) :
    countRefundLocks hash id db' = countRefundLocks hash id db := by
  unfold TableChange.countRefundLocks
  cases h with
  | attempted =>
    rw [SwapTables.attempted_swapLocks, List.count_append, List.count_singleton]
    simp
  | @refundLocked hash' id' =>
    have hne : id' ≠ id := hid
    rw [SwapTables.insertRefundLock, List.count_append, List.count_singleton]
    simp [hne]
  | resulted =>
    rw [SwapTables.resulted_swapLocks, List.count_filter]
    simp
  | @refundUnlocked hash' id' =>
    have hne : id' ≠ id := hid
    refine List.count_filter ?_
    simp [hne.symm]
  | added => rfl
  | unchanged => rfl

/-- **Changes beside a refund lock**, as changes without it. -/
theorem replay_deleteRefundLock (hash : PaymentHash) (h : replay changes db = .ok db')
    (hid : ∀ change ∈ changes, ¬change.UsesId id) :
    replay changes (deleteRefundLock hash id db) = .ok (deleteRefundLock hash id db') ∧
      countRefundLocks hash id db' = countRefundLocks hash id db := by
  induction changes generalizing db with
  | nil =>
    obtain rfl := Except.ok.inj h
    exact ⟨rfl, rfl⟩
  | cons change changes ih =>
    rw [replay_cons] at h ⊢
    rw [List.forall_mem_cons] at hid
    cases happly : change.apply db with
    | error e =>
      rw [happly] at h
      cases h
    | ok db₁ =>
      rw [happly] at h
      obtain ⟨hreplay, hcount⟩ := ih h hid.2
      have happlies := apply_eq_ok_iff.mp happly
      rw [apply_eq_ok_iff.mpr (happlies.deleteRefundLock hid.1)]
      exact ⟨hreplay, hcount.trans (happlies.countRefundLocks hid.1)⟩

/-- A lock that is not there is not missed. -/
theorem deleteRefundLock_of_count (h : countRefundLocks hash id db = 0) :
    deleteRefundLock hash id db = db := by
  have hnot := List.count_eq_zero.mp h
  unfold deleteRefundLock
  rw [List.filter_eq_self.mpr]
  intro l hl
  exact decide_eq_true (ne_of_mem_of_not_mem hl hnot)

theorem countRefundLocks_deleteRefundLock :
    countRefundLocks hash id (deleteRefundLock hash id db) = 0 := by
  refine List.count_eq_zero.mpr (fun hmem => ?_)
  exact of_decide_eq_true (List.mem_filter.mp hmem).2 rfl

theorem deleteRefundLock_insertRefundLock :
    deleteRefundLock hash id (insertRefundLock hash id db) = deleteRefundLock hash id db := by
  simp [deleteRefundLock, insertRefundLock]

theorem countRefundLocks_insertRefundLock :
    countRefundLocks hash id (insertRefundLock hash id db) = countRefundLocks hash id db + 1 := by
  simp [countRefundLocks, insertRefundLock]

end TableChange

namespace SwapServer

open Prog

/-! ## What has been checked -/

section Checks

variable {σ : Type} {perf : (c : Call Lightning) → σ → c.Reply → σ → Prop}
  {server : SwapServer} {req : RefundSwapRequest} {tr tr' : Events σ}

/-- **An output an input spends**, as the chain client has it. -/
def Spends (tr : Events σ) (vin : TxIn) (txOut : TxOut) : Prop :=
  ∃ tx, Replied tr (.getTransaction vin.previousOutput.txid) (.ok tx) ∧
    tx.output[vin.previousOutput.vout.toNat]? = some txOut

theorem prevout_sat (vin : TxIn) :
    Sat perf (fun _ _ => True) (fun tr' => onOutcome (fun _ => True) (Spends tr' vin))
      (prevout vin).run tr := by
  refine Sat.tryBind (orFail_sat trivial (fun s r s' _ => ?_))
  cases r with
  | error e => trivial
  | ok tx =>
    simp only [Sat.ret_iff, Except.mapError, onOutcome]
    split
    next => trivial
    next txOut hget =>
      exact ⟨tx, ⟨s, s', List.mem_append_right _ (List.mem_singleton_self _)⟩, hget⟩

/-- **The outputs come in the order of the inputs.** -/
theorem prevouts_sat (vins : List TxIn) :
    Sat perf (fun _ _ => True)
      (fun tr' => onOutcome (fun _ => True) (List.Forall₂ (Spends tr') vins))
      (prevouts vins).run tr := by
  induction vins generalizing tr with
  | nil => exact List.Forall₂.nil
  | cons vin vins ih =>
    unfold prevouts
    rw [ExceptT.run_bind_lift]
    refine Sat.bind ((prevout_sat vin).mono (fun tr₁ first hfirst => ?_))
    rw [ExceptT.run_bind_lift]
    refine Sat.bind (ih.subset.mono (fun tr₂ rest hrest => ?_))
    cases first with
    | error e => trivial
    | ok first =>
      cases rest with
      | error e => trivial
      | ok rest =>
        obtain ⟨tx, ⟨s, s', hmem⟩, hget⟩ := hfirst
        exact List.Forall₂.cons ⟨tx, ⟨s, s', hrest.1 hmem⟩, hget⟩ hrest.2

/-- **What is known of a refund that has been checked**, from the answers given. -/
structure CheckedWith (server : SwapServer) (req : RefundSwapRequest) (tr : Events σ)
    (r : RefundChecked) (tx : Transaction) (prevouts : List TxOut) : Prop where
  decode : server.codec.decodeTransaction req.transaction = some tx
  spent : List.Forall₂ (Spends tr) tx.input prevouts
  /-- The output refunded is one of the address of the swap. -/
  swap : ∃ address, Replied tr (.getSwapByAddress address) (.ok r.swap) ∧
    ∃ txOut, prevouts[req.inputIndex.toNat]? = some txOut ∧
      txOut.scriptPubkey = address.scriptPubkey
  signed : ∃ keys theirPubNonce, server.codec.parsePubNonce req.pubNonce = some theirPubNonce ∧
    server.swapService.partialSignRefundTx keys r.swap.swap tx prevouts req.inputIndex.toNat
      theirPubNonce = .ok (r.partialSignature, r.ourPubNonce)
  rnd : ∃ rnd, Replied tr .rnd32 (.ok rnd) ∧ r.refundId = rnd.toHex

theorem checkRefund_sat :
    Sat perf (fun _ _ => True)
      (fun tr => onOutcome (fun _ => True) (fun r => ∃ tx prevouts,
        CheckedWith server req tr r tx prevouts))
      (server.checkRefund req).run [] := by
  unfold checkRefund
  split
  case h_2 => trivial
  next tx hdecode =>
  split
  case h_2 => trivial
  next theirPubNonce hnonce =>
  refine Sat.tryBind (rejectIf_sat trivial (fun _ => ?_))
  split
  case h_2 => trivial
  next address _ =>
  refine Sat.tryBind (orFail_sat trivial (fun s₁ swapRes s₁' _ => ?_))
  cases swapRes with
  | error e => trivial
  | ok swap =>
  refine Sat.tryBind ((prevouts_sat tx.input).subset.mono (fun tr₂ prevoutsRes hprevouts => ?_))
  cases prevoutsRes with
  | error e => trivial
  | ok prevouts =>
  obtain ⟨hsub, hprevouts⟩ := hprevouts
  simp only [onOutcome]
  split
  case h_2 => trivial
  next refundPrevout hget =>
  split
  case h_2 => trivial
  next refundPrevoutAddress hscript =>
  refine Sat.tryBind (rejectIf_sat trivial (fun haddress => ?_))
  obtain rfl := not_not.mp haddress
  show Sat perf _ _ _ tr₂
  refine Sat.ask trivial (fun s₃ keys s₃' _ => ?_)
  cases hsign : server.swapService.partialSignRefundTx keys swap.swap tx prevouts
    req.inputIndex.toNat theirPubNonce with
  | error e => trivial
  | ok signature =>
  refine Sat.tryBind (Sat.ofExcept ?_)
  show Sat (I := Services Lightning) perf _ _ _ _
  refine Sat.tryBind (orFail_sat trivial (fun s₄ rndRes s₄' _ => ?_))
  cases rndRes with
  | error e => trivial
  | ok rnd =>
  refine ⟨tx, prevouts, hdecode, ?_, ⟨refundPrevoutAddress, ?_, refundPrevout, hget, ?_⟩,
    ⟨keys, theirPubNonce, hnonce, hsign⟩, rnd, ⟨s₄, s₄', ?_⟩, rfl⟩
  · refine hprevouts.imp (fun _ _ => Exists.imp (fun _ => And.imp_left ?_))
    rintro ⟨s, s', hmem⟩
    exact ⟨s, s', List.mem_append_left _ (List.mem_append_left _ hmem)⟩
  · refine ⟨s₁, s₁', List.mem_append_left _ (List.mem_append_left _ (hsub ?_))⟩
    exact List.mem_singleton_self _
  · exact (Address.scriptPubkey_of_fromScript hscript).symm
  · exact List.mem_append_right _ (List.mem_singleton_self _)

end Checks

end SwapServer

/-! ## Runs among others -/

/-- **A world, with what others have done** to its swap tables, in order. -/
structure RefundWorld (M : NodeModel Lightning) where
  world : World M
  others : List TableChange

namespace RefundWorld

open TableChange (replay countRefundLocks)

variable {M : NodeModel Lightning} {i : ℕ} {t : Task} {ids : Set String}

/-- **What happens between two calls**: others change the swap tables, using refund
ids of their own, and everything else changes in any way. -/
def Others (ids : Set String) (s s' : RefundWorld M) : Prop :=
  ∃ changes, s'.others = s.others ++ changes ∧
    (∀ change ∈ changes, ∀ id, change.UsesId id → id ∈ ids) ∧
    replay changes s.world.db = .ok s'.world.db

/-- A call of the request. -/
def Performs (i : ℕ) (t : Task) (c : Call Lightning) (s : RefundWorld M) (r : c.Reply)
    (s' : RefundWorld M) : Prop :=
  World.Performs M i t c s.world r s'.world ∧ s'.others = s.others

theorem Others.refl (s : RefundWorld M) : Others ids s s :=
  ⟨[], (List.append_nil _).symm, fun _ h => (nomatch h), rfl⟩

theorem Others.trans {s₁ s₂ s₃ : RefundWorld M} (h : Others ids s₁ s₂) (h' : Others ids s₂ s₃) :
    Others ids s₁ s₃ := by
  obtain ⟨changes, hothers, hids, hreplay⟩ := h
  obtain ⟨changes', hothers', hids', hreplay'⟩ := h'
  refine ⟨changes ++ changes', ?_, List.forall_mem_append.mpr ⟨hids, hids'⟩, ?_⟩
  · rw [hothers', hothers, List.append_assoc]
  · rw [TableChange.replay_append, hreplay]
    exact hreplay'

/-- A query does nothing to the tables. -/
theorem Performs.others_of_isQuery {c : Call Lightning} {s s' : RefundWorld M} {r : c.Reply}
    (hc : c.IsQuery) (h : Performs i t c s r s') : Others ids s s' := by
  refine ⟨[], ?_, fun _ h => (nomatch h), ?_⟩
  · rw [h.2, List.append_nil]
  · rw [h.1.of_isQuery hc]
    rfl

/-- **The tables, apart from a refund lock**: without it they are what others have
made of those at the start. -/
structure Apart (db₀ : SwapTables) (hash : PaymentHash) (id : String) (n : ℕ)
    (s : RefundWorld M) : Prop where
  replay : replay s.others db₀ = .ok (deleteRefundLock hash id s.world.db)
  count : countRefundLocks hash id s.world.db = n

variable {db₀ : SwapTables} {hash : PaymentHash} {id : String} {n : ℕ} {s s' : RefundWorld M}

/-- **Others leave it so.** -/
theorem Apart.others (h : Apart db₀ hash id n s) (hid : id ∉ ids) (hothers : Others ids s s') :
    Apart db₀ hash id n s' := by
  obtain ⟨changes, heq, hids, hreplay⟩ := hothers
  obtain ⟨hwithout, hcount⟩ := TableChange.replay_deleteRefundLock hash hreplay
    (fun change hmem huses => hid (hids change hmem id huses))
  refine ⟨?_, hcount.trans h.count⟩
  rw [heq, TableChange.replay_append, h.replay]
  exact hwithout

/-- A call that leaves the tables alone. -/
theorem Apart.of_db_eq (h : Apart db₀ hash id n s) (hdb : s'.world.db = s.world.db)
    (hothers : s'.others = s.others) : Apart db₀ hash id n s' :=
  ⟨by rw [hothers, hdb, h.replay], by rw [hdb, h.count]⟩

/-- A call of the node leaves the tables alone. -/
theorem Performs.db_of_node {c : LightningCall} {r : c.Reply}
    (h : Performs i t (.node c) s r s') : s'.world.db = s.world.db := by
  rcases h.1.db_eq_or with hdb | hdb
  · exact hdb
  · exact (Except.ok.inj hdb).symm

/-- **The lock is taken**, or the tables are left alone. -/
theorem Apart.lock {r : Except LockSwapError Unit} (h : Apart db₀ hash id 0 s)
    (hperforms : Performs i t (.lockSwapRefund hash id) s r s') (hr : r ≠ .error .general) :
    (r = .ok () ∧ Apart db₀ hash id 1 s' ∧ s'.world.db.HasSwap hash) ∨
      (r ≠ .ok () ∧ Apart db₀ hash id 0 s') := by
  obtain ⟨⟨ch, hserve⟩, hothers⟩ := hperforms
  rcases World.transact_of_ne hserve hr with ⟨db, hdb, rfl, hw⟩ | ⟨e, -, rfl, hw⟩
  · obtain ⟨hhas, -, rfl⟩ := SwapTables.lockSwapRefund_eq_ok_iff.mp hdb
    have hdb' : s'.world.db = insertRefundLock hash id s.world.db := by rw [hw]; rfl
    refine Or.inl ⟨rfl, ⟨?_, ?_⟩, ?_⟩
    · rw [hothers, hdb', TableChange.deleteRefundLock_insertRefundLock, h.replay]
    · rw [hdb', TableChange.countRefundLocks_insertRefundLock, h.count]
    · rw [hdb']
      exact hhas
  · exact Or.inr ⟨nofun, h.of_db_eq (by rw [hw]) hothers⟩

/-- **The lock is released.** -/
theorem Apart.unlock {r : Except LockSwapError Unit} (h : Apart db₀ hash id n s)
    (hperforms : Performs i t (.unlockSwapRefund hash id) s r s') (hr : r ≠ .error .general)
    (hhas : s.world.db.HasSwap hash) : Apart db₀ hash id 0 s' := by
  obtain ⟨⟨ch, hserve⟩, hothers⟩ := hperforms
  have hok : s.world.db.unlockSwapRefund hash id = .ok (deleteRefundLock hash id s.world.db) :=
    SwapTables.unlockSwapRefund_eq_ok_iff.mpr ⟨hhas, rfl⟩
  rcases World.transact_of_ne hserve hr with ⟨db, hdb, rfl, hw⟩ | ⟨e, he, -, -⟩
  · obtain rfl := Except.ok.inj (hok.symm.trans hdb)
    have hdb' : s'.world.db = deleteRefundLock hash id s.world.db := by rw [hw]; rfl
    refine ⟨?_, ?_⟩
    · rw [hothers, hdb', h.replay, TableChange.deleteRefundLock_of_count
        TableChange.countRefundLocks_deleteRefundLock]
    · rw [hdb', TableChange.countRefundLocks_deleteRefundLock]
  · rw [hok] at he
    cases he

/-- A swap stays. -/
theorem Others.hasSwap (h : Others ids s s') (hhas : s.world.db.HasSwap hash) :
    s'.world.db.HasSwap hash := by
  obtain ⟨changes, -, -, hreplay⟩ := h
  exact TableChange.hasSwap_replay hreplay hhas

/-- The tables are those that others have made. -/
theorem Apart.replay_eq (h : Apart db₀ hash id 0 s) :
    TableChange.replay s.others db₀ = .ok s.world.db := by
  rw [h.replay, TableChange.deleteRefundLock_of_count h.count]

/-- A call that the repository has failed at. -/
def RepositoryFails (e : Prog.Event (Services Lightning) (RefundWorld M)) : Prop :=
  match e.call, e.reply with
  | .lockSwapRefund _ _, .error .general => True
  | .unlockSwapRefund _ _, .error .general => True
  | _, _ => False

/-- **How a request ends** that takes the lock: if it succeeds it has the lock, and if
it fails, of itself, it has none. -/
structure Settles (db₀ : SwapTables) (r : SwapServer.RefundChecked)
    (tr : SwapServer.Events (RefundWorld M)) (o : Except Status RefundedSwap)
    (s : RefundWorld M) : Prop where
  success : ∀ refunded, o = .ok refunded →
    refunded = ⟨r.swap.swap.pub.hash, r.partialSignature, r.ourPubNonce⟩ ∧
      Apart db₀ r.swap.swap.pub.hash r.refundId 1 s
  failure : ∀ status, o = .error status → (∀ e ∈ tr, ¬RepositoryFails e) →
    Apart db₀ r.swap.swap.pub.hash r.refundId 0 s

variable {r : SwapServer.RefundChecked} {o : Except Status RefundedSwap}
  {tr tr' : SwapServer.Events (RefundWorld M)}

theorem Settles.mono (h : Settles db₀ r tr o s) (hsub : tr ⊆ tr') : Settles db₀ r tr' o s :=
  ⟨h.success, fun status ho hfails => h.failure status ho (fun e he => hfails e (hsub he))⟩

/-- **Where the node knows of a payment or cannot say**, the lock is released. -/
theorem Apart.release {status : Status}
    (h : Apart db₀ r.swap.swap.pub.hash r.refundId n s)
    (hrun : Prog.RunsAmid (Others ids) (Performs i t)
      (Prog.call (I := Services Lightning) (.unlockSwapRefund r.swap.swap.pub.hash r.refundId)
        (fun _ => .ret (.error status))) s tr (.ret o) s')
    (hid : r.refundId ∉ ids) (hhas : s.world.db.HasSwap r.swap.swap.pub.hash) :
    Settles db₀ r tr o s' := by
  obtain ⟨s₁, unlockRes, s₂, tr', hothers₁, hunlock, rfl, hend⟩ := Prog.RunsAmid.call_inv hrun
  obtain ⟨rfl, -, hothers₂⟩ := Prog.RunsAmid.ret_inv hend
  refine ⟨nofun, fun _ _ hfails => Apart.others ?_ hid hothers₂⟩
  refine (h.others hid hothers₁).unlock hunlock ?_ (hothers₁.hasSwap hhas)
  rintro rfl
  exact hfails _ List.mem_cons_self trivial

/-- **From the lock on.** -/
theorem Apart.lockForRefund (h : Apart db₀ r.swap.swap.pub.hash r.refundId 0 s)
    (hrun : Prog.RunsAmid (Others ids) (Performs i t) (SwapServer.lockForRefund r).run s tr
      (.ret o) s') (hid : r.refundId ∉ ids) : Settles db₀ r tr o s' := by
  obtain ⟨s₁, lockRes, s₂, tr₁, hothers₁, hlock, rfl, hrest⟩ := Prog.RunsAmid.call_inv hrun
  have hapart₁ := h.others hid hothers₁
  cases lockRes with
  | error e =>
    -- Refused, whatever the reason.
    obtain ⟨status, rfl, hothers⟩ : ∃ status, o = .error status ∧ Others ids s₂ s' := by
      cases e <;>
        exact ⟨_, (Prog.RunsAmid.ret_inv hrest).1.symm, (Prog.RunsAmid.ret_inv hrest).2.2⟩
    refine ⟨nofun, fun _ _ hfails => ?_⟩
    have hne : Except.error e ≠ (.error .general : Except LockSwapError Unit) := by
      rintro heq
      cases Except.error.inj heq
      exact hfails _ List.mem_cons_self trivial
    obtain ⟨hok, -⟩ | ⟨-, hapart₂⟩ := hapart₁.lock hlock hne
    · cases hok
    · exact hapart₂.others hid hothers
  | ok u =>
    obtain ⟨-, hapart₂, hhas⟩ | ⟨hne, -⟩ := hapart₁.lock hlock nofun
    case inr => exact absurd rfl hne
    obtain ⟨s₃, nodeRes, s₄, tr₂, hothers₃, hnode, rfl, hend⟩ := Prog.RunsAmid.call_inv hrest
    have hapart₄ := (hapart₂.others hid hothers₃).of_db_eq hnode.db_of_node hnode.2
    have hhas₄ : s₄.world.db.HasSwap r.swap.swap.pub.hash := by
      rw [hnode.db_of_node]
      exact hothers₃.hasSwap hhas
    have hsub {e₁ e₂ : Prog.Event (Services Lightning) (RefundWorld M)} : tr₂ ⊆ e₁ :: e₂ :: tr₂ :=
      fun e he => List.mem_cons_of_mem _ (List.mem_cons_of_mem _ he)
    match nodeRes with
    | .ok false =>
      obtain ⟨rfl, -, hothers⟩ := Prog.RunsAmid.ret_inv hend
      exact ⟨fun refunded heq => ⟨(Except.ok.inj heq).symm, hapart₄.others hid hothers⟩, nofun⟩
    | .ok true => exact (hapart₄.release hend hid hhas₄).mono hsub
    | .error e => exact (hapart₄.release hend hid hhas₄).mono hsub

end RefundWorld

/-- **What is signed**: the sighash of the request's transaction at the index of the
request, over the outputs its inputs really spend, with the key of the swap whose
address is paid by the output at that index. -/
structure SignsOwnOutput (server : SwapServer) (transactions : Txid → Option Transaction)
    (req : RefundSwapRequest) (swap : Swap) (refunded : RefundedSwap) (tx : Transaction)
    (prevouts : List TxOut) (sighash : Bytes32) : Prop where
  hash : refunded.hash = swap.pub.hash
  decode : server.codec.decodeTransaction req.transaction = some tx
  spent : List.Forall₂ (fun vin txOut => ∃ funding,
    transactions vin.previousOutput.txid = some funding ∧
      funding.output[vin.previousOutput.vout.toNat]? = some txOut) tx.input prevouts
  own : ∃ txOut, prevouts[req.inputIndex.toNat]? = some txOut ∧
    txOut.scriptPubkey = swap.pub.address.scriptPubkey
  message : server.swapService.crypto.taprootKeySpendSignatureHash tx req.inputIndex.toNat
    prevouts = .ok sighash
  signature : ∃ cache theirPubNonce secNonce,
    server.codec.parsePubNonce req.pubNonce = some theirPubNonce ∧
      server.swapService.crypto.partialSign cache refunded.response.pubNonce theirPubNonce sighash
        secNonce swap.priv.claimPrivkey = .ok refunded.response.partialSignature

/-- **The random number of a request** is in use nowhere else. -/
def FreshId {σ : Type} (ids : Set String) (db : SwapTables) (tr : SwapServer.Events σ) : Prop :=
  ∀ rnd, Prog.Replied tr .rnd32 (.ok rnd) → rnd.toHex ∉ ids ∧
    ∀ l ∈ db.swapLocks, l.lock ≠ .refund rnd.toHex

open RefundWorld SwapServer in
/-- **A refund request signs for its own output, and cleans up.** Whatever is answered
and whatever others do meanwhile, if the chain client returns the transactions it is
asked for and the refund id is fresh: a request that succeeds has signed the spending
of an output of the swap's address, and has added one lock for the swap, that is
still there, to what others have made of the tables; and if one fails whose
calls of the repository have succeeded, the tables are what others have made of
them. -/
theorem refundSwap_cleansUp {M : NodeModel Lightning} {i : ℕ} {t : Task} {server : SwapServer}
    {req : RefundSwapRequest} {ids : Set String} {transactions : Txid → Option Transaction}
    {w w' : World M} {others : List TableChange} {tr : Events (RefundWorld M)}
    {outcome : Except Status RefundedSwap}
    (h : Prog.RunsAmid (Others ids) (Performs i t) (server.refundSwap req).run ⟨w, []⟩ tr
      (.ret outcome) ⟨w', others⟩)
    (hfresh : FreshId ids w.db tr)
    (hchain : ∀ txid tx, Prog.Replied tr (.getTransaction txid) (.ok tx) →
      transactions txid = some tx) :
    (∀ refunded, outcome = .ok refunded → ∃ swap tx prevouts sighash id,
      (∃ e ∈ tr, ∃ state ∈ e.before.world.db.swaps, state.swap = swap) ∧
      SignsOwnOutput server transactions req swap refunded tx prevouts sighash ∧
      TableChange.countRefundLocks refunded.hash id w.db = 0 ∧
      TableChange.countRefundLocks refunded.hash id w'.db = 1 ∧
      TableChange.replay others w.db = .ok (deleteRefundLock refunded.hash id w'.db)) ∧
    (∀ status, outcome = .error status → (∀ e ∈ tr, ¬RepositoryFails e) →
      TableChange.replay others w.db = .ok w'.db) := by
  unfold refundSwap at h
  rw [Prog.run_bind_eq] at h
  obtain ⟨checked, s₁, tr₁, tr₂, hcheck, rfl, hrest⟩ := Prog.RunsAmid.bind_inv h Others.refl
  have hothers := hcheck.moves_of_onlyCalls (checkRefund_onlyCalls req)
    (fun hc hp => Performs.others_of_isQuery hc hp) Others.trans
  cases checked with
  | error e =>
    obtain ⟨rfl, rfl, hothers'⟩ := Prog.RunsAmid.ret_inv hrest
    refine ⟨nofun, fun _ _ _ => ?_⟩
    obtain ⟨changes, hchanges, -, hreplay⟩ := hothers.trans hothers'
    obtain rfl : others = changes := hchanges
    exact hreplay
  | ok r =>
    obtain ⟨tx, prevouts, hknown⟩ := checkRefund_sat.runs hcheck.runs
    rw [List.nil_append] at hknown
    obtain ⟨rnd, ⟨s, s', hrnd⟩, hid⟩ := hknown.rnd
    obtain ⟨hids, hunused⟩ := hfresh rnd ⟨s, s', List.mem_append_left tr₂ hrnd⟩
    rw [← hid] at hids hunused
    have hcount : TableChange.countRefundLocks r.swap.swap.pub.hash r.refundId w.db = 0 :=
      List.count_eq_zero.mpr (fun hmem => hunused _ hmem rfl)
    have hstart : Apart w.db r.swap.swap.pub.hash r.refundId 0 (⟨w, []⟩ : RefundWorld M) :=
      ⟨by rw [TableChange.deleteRefundLock_of_count hcount]; rfl, hcount⟩
    have hsettles := (hstart.others hids hothers).lockForRefund hrest hids
    refine ⟨fun refunded hrefunded => ?_, fun status hstatus hfails => ?_⟩
    · obtain ⟨rfl, hend⟩ := hsettles.success refunded hrefunded
      obtain ⟨address, ⟨s, s', hget⟩, txOut, htxOut, hscript⟩ := hknown.swap
      obtain ⟨keys, theirPubNonce, hnonce, hsigned⟩ := hknown.signed
      obtain ⟨sighash, hsighash, cache, secNonce, hsignature⟩ :=
        SwapService.partialSignRefundTx_eq_ok hsigned
      obtain ⟨hstored, haddress⟩ := World.Performs.getSwapByAddress
        (hcheck.runs.perf_of_mem _ hget).1
      refine ⟨r.swap.swap, tx, prevouts, sighash, r.refundId,
        ⟨_, List.mem_append_left tr₂ hget, _, hstored, rfl⟩, ?_, hcount, hend.count, hend.replay⟩
      refine ⟨rfl, hknown.decode, hknown.spent.imp ?_, ⟨txOut, htxOut, by rw [haddress, hscript]⟩,
        hsighash, cache, theirPubNonce, secNonce, hnonce, hsignature⟩
      rintro vin txOut ⟨funding, ⟨s, s', hmem⟩, hout⟩
      exact ⟨funding, hchain _ _ ⟨s, s', List.mem_append_left tr₂ hmem⟩, hout⟩
    · exact (hsettles.failure status hstatus
        (fun e he => hfails e (List.mem_append_right tr₁ he))).replay_eq

namespace Sample

/-- A node that says whether there is a payment. -/
def knowingNode : NodeModel Lightning where
  State := Unit
  Choice := Bool
  Act := Empty
  serve := fun _ _ c known s =>
    match c with
    | .hasPendingOrCompletePayment _ => some (.ok known, s)
    | _ => none
  act := nofun
  disconnect := fun _ s => s

/-- Every call of a request succeeds, the transaction asked for is the funding
transaction, and the node says whether there is a payment. -/
def serveRefund (known : Bool) (c : Call Lightning) (s : RefundWorld knowingNode) :
    Option (c.Reply × RefundWorld knowingNode) :=
  match c with
  | .getTransaction txid =>
    if s.world.env.transactions txid = .ok fundingTx then some (.ok fundingTx, s) else none
  | .node (.hasPendingOrCompletePayment _) => some (.ok known, s)
  | .node _ => none
  | c => (World.serve 1 ⟨0, .refund refundRequest⟩ c .ok s.world).map
      (fun rw => (rw.1, ⟨rw.2, s.others⟩))

theorem performs_of_serveRefund {known : Bool} (c : Call Lightning) (s : RefundWorld knowingNode)
    (r : c.Reply) (s' : RefundWorld knowingNode) (h : serveRefund known c s = some (r, s')) :
    RefundWorld.Performs 1 ⟨0, .refund refundRequest⟩ c s r s' := by
  have of_serve (h : (World.serve 1 ⟨0, .refund refundRequest⟩ c .ok s.world).map
      (fun rw => (rw.1, (⟨rw.2, s.others⟩ : RefundWorld knowingNode))) = some (r, s')) :
      RefundWorld.Performs 1 ⟨0, .refund refundRequest⟩ c s r s' := by
    obtain ⟨⟨r', w'⟩, hserve, heq⟩ := Option.map_eq_some_iff.mp h
    obtain ⟨rfl, rfl⟩ := Prod.mk.inj heq
    exact ⟨⟨_, hserve⟩, rfl⟩
  cases c with
  | getTransaction txid =>
    have h : (if s.world.env.transactions txid = .ok fundingTx then some (.ok fundingTx, s)
      else none) = some (r, s') := h
    split at h
    next heq =>
      obtain ⟨rfl, rfl⟩ := Prod.mk.inj (Option.some.inj h)
      rw [← heq]
      exact ⟨⟨.ok, rfl⟩, rfl⟩
    next => cases h
  | node c =>
    cases c with
    | hasPendingOrCompletePayment hash =>
      obtain ⟨rfl, rfl⟩ := Prod.mk.inj (Option.some.inj h)
      exact ⟨⟨.node known, rfl⟩, rfl⟩
    | _ => cases h
  | _ => exact of_serve h

/-- The start of a request. -/
def refundStart : RefundWorld knowingNode := ⟨world knowingNode (), []⟩

/-- A request that is run to its end, with nobody interfering. -/
theorem refundRun_sound (known : Bool) (outcome : Except Status RefundedSwap)
    {s : RefundWorld knowingNode}
    (h : (server.refundSwap refundRequest).run.exec (serveRefund known) refundStart
      = some (outcome, s)) :
    ∃ tr, Prog.RunsAmid (RefundWorld.Others ∅)
        (RefundWorld.Performs 1 ⟨0, .refund refundRequest⟩) (server.refundSwap refundRequest).run
        refundStart tr (.ret outcome) s ∧ FreshId ∅ tables tr ∧
      (∀ txid tx, Prog.Replied tr (.getTransaction txid) (.ok tx) → some fundingTx = some tx) ∧
      ∀ e ∈ tr, ¬RefundWorld.RepositoryFails e := by
  obtain ⟨tr, hrun, hserved⟩ := Prog.RunsAmid.of_exec performs_of_serveRefund
    RefundWorld.Others.refl h
  refine ⟨tr, hrun, fun rnd _ => ⟨fun h => h, fun l hl => nomatch hl⟩, ?_, ?_⟩
  · rintro txid tx ⟨s, s', hmem⟩
    have h : (if s.world.env.transactions txid = .ok fundingTx then
      some ((.ok fundingTx : Except ChainError Transaction), s) else none) = some (.ok tx, s') :=
      hserved _ hmem
    split at h
    next => exact congrArg some (Except.ok.inj (Prod.mk.inj (Option.some.inj h)).1)
    next => cases h
  · -- What is answered is what the tables answer.
    have of_transact {result : Except LockSwapError SwapTables}
        {record : World knowingNode → World knowingNode} {s s' : RefundWorld knowingNode}
        (hne : result ≠ .error .general) (h : (World.transact .ok result record record s.world).map
          (fun rw => (rw.1, (⟨rw.2, s.others⟩ : RefundWorld knowingNode)))
            = some (.error .general, s')) : False := by
      obtain ⟨⟨r, w⟩, hserve, heq⟩ := Option.map_eq_some_iff.mp h
      cases result with
      | ok db => cases (Prod.mk.inj (Option.some.inj hserve)).1.trans (Prod.mk.inj heq).1
      | error e =>
        cases (Prod.mk.inj (Option.some.inj hserve)).1.trans (Prod.mk.inj heq).1
        exact hne rfl
    rintro ⟨c, s, r, s'⟩ hmem hfails
    have hserve := hserved _ hmem
    match c, r, hfails with
    | .lockSwapRefund hash id, .error .general, _ =>
      exact of_transact SwapTables.lockSwapRefund_ne_general hserve
    | .unlockSwapRefund hash id, .error .general, _ =>
      exact of_transact SwapTables.unlockSwapRefund_ne_general hserve

end Sample

open Sample in
theorem refundSwap_cleansUp_sample :
    (∃ (w : World knowingNode) (id : String), (∃ swap' tx prevouts sighash,
      SignsOwnOutput server (fun _ => some fundingTx) refundRequest swap'
        ⟨swap.pub.hash, [], []⟩ tx prevouts sighash) ∧
      TableChange.countRefundLocks swap.pub.hash id w.db = 1 ∧
      tables = deleteRefundLock swap.pub.hash id w.db) ∧
    ∃ w : World knowingNode, (∃ tr, Prog.RunsAmid (RefundWorld.Others ∅)
      (RefundWorld.Performs 1 ⟨0, .refund refundRequest⟩) (server.refundSwap refundRequest).run
      refundStart tr (.ret (.error (Status.failedPrecondition "swap is locked"))) ⟨w, []⟩) ∧
      tables = w.db := by
  constructor
  · obtain ⟨tr, hrun, hfresh, hchain, -⟩ := refundRun_sound false
      (.ok ⟨swap.pub.hash, [], []⟩) rfl
    obtain ⟨swap', tx, prevouts, sighash, id, -, hsigns, -, hcount, hreplay⟩ :=
      (refundSwap_cleansUp hrun hfresh hchain).1 _ rfl
    exact ⟨_, id, ⟨swap', tx, prevouts, sighash, hsigns⟩, hcount, Except.ok.inj hreplay⟩
  · obtain ⟨tr, hrun, hfresh, hchain, hfails⟩ := refundRun_sound true
      (.error (Status.failedPrecondition "swap is locked")) rfl
    exact ⟨_, ⟨tr, hrun⟩, Except.ok.inj ((refundSwap_cleansUp hrun hfresh hchain).2 _ rfl hfails)⟩

end Swapd
