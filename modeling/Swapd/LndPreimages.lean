import Swapd.ClnPreimages
import Swapd.PaymentIndex

/-!
# The preimages of LND

The payments of the node show preimages that open them, however they move on.
The client asks for payments by their hash, except where it has stored an index
for the label of an attempt: there it reads the payment after that index. What
it reveals opens the swap as long as that payment has not succeeded, or has the
hash of the attempt (`World.OwnPayments`); where all listings are made at such
moments, every preimage that is stored opens its swap
(`lndNode_storedPreimages`), and otherwise it may not (`lndNode_storesNext`).

With Core Lightning no such condition is needed, so this is all that can go wrong with
either client (`storedPreimage_opensSwap`).
-/

namespace Swapd

open Prog (Event Sat onOutcome)

variable {sha256 : Preimage → PaymentHash}

/-! ## What the client is told -/

namespace Lnd

variable (sha256) in
/-- What a payment shows as its preimage, once it has succeeded or shows one at
all, opens it. -/
def Payment.Opened (p : Payment) : Prop :=
  p.status = .succeeded ∨ p.paymentPreimage ≠ zeroPreimage →
    ∀ preimage ∈ decodePreimage p.paymentPreimage, sha256 preimage = p.paymentHash

instance (p : Payment) : Decidable (p.Opened sha256) := by
  unfold Payment.Opened
  infer_instance

variable (sha256) in
/-- All payments are like that. -/
def Payments.Opened (db : Payments) : Prop := ∀ p ∈ db.payments, p.Opened sha256

instance (db : Payments) : Decidable (db.Opened sha256) :=
  inferInstanceAs (Decidable (∀ p ∈ db.payments, p.Opened sha256))

end Lnd

section Lnd

variable (sha256) (parse : String → Option PaymentHash)

/-- **A node of LND** that says nothing untrue of preimages: its payments move on
in any way that leaves them opened. -/
@[reducible] def lndNode : NodeModel Lnd where
  State := LndState
  Choice := LndChoice
  Act := Lnd.Payments
  serve := fun _ _ => LndState.serve parse
  act := fun db s => if db.Opened sha256 then some { s with db := db } else none
  disconnect := fun _ s => s

/-- **A truthful answer**: a payment that is tracked has the hash it is tracked by,
an update is about the payment that was requested, and both are opened. -/
def LndCall.Truthful : (c : LndCall) → c.Reply → Prop
  | .trackedPayment request, r => ∀ p, r = .ok (some p) →
      p.paymentHash = request.paymentHash ∧ p.Opened sha256
  | .update request _, r => ∀ p, r = .ok (some p) →
      some p.paymentHash = parse request.paymentRequest ∧ p.Opened sha256
  | _, _ => True

end Lnd

namespace Lnd

variable {parse : String → Option PaymentHash} {hash : PaymentHash} {label : String}
  {tr : List (Event Lnd Unit)}

variable (sha256) (parse) in
/-- Programs of the client, told the truth. -/
abbrev Tells {α : Type} (P : α → Prop) (p : Prog Lnd α) (tr : List (Event Lnd Unit)) : Prop :=
  Sat (fun (c : LndCall) _ r _ => c.Truthful sha256 parse r) (fun _ _ => True) (fun _ a => P a) p tr

/-- A call whose answer is passed on, or there is an error. -/
theorem orFail_bind_tells {α β ε : Type} {P : Except LightningError β → Prop} {c : LndCall}
    {k : c.Reply → Prog Lnd (Except ε α)} {toError : ε → LightningError} {f : α → LndProgram β}
    (herror : ∀ e, P (.error e))
    (hk : ∀ r, c.Truthful sha256 parse r → ∀ tr, Tells sha256 parse
      (onOutcome (fun _ => True) (fun a => ∀ tr, Tells sha256 parse P (f a).run tr)) (k r) tr) :
    Tells sha256 parse P (orFail toError (.call c k) >>= f).run tr := by
  refine Sat.tryBind ⟨trivial, fun _ r _ htrue => Sat.bind ((hk r htrue _).mono (fun _ o ho => ?_))⟩
  cases o with
  | error e => exact herror _
  | ok a => exact ho _

/-- **Tracking a payment** finds an opened one with the hash. -/
theorem trackPayment_bind_tells {α : Type} {P : Except LightningError α → Prop}
    {f : Option Payment → LndProgram α} (herror : ∀ e, P (.error e))
    (hnone : ∀ tr, Tells sha256 parse P (f none).run tr)
    (hsome : ∀ p : Payment, p.paymentHash = hash → p.Opened sha256 →
      ∀ tr, Tells sha256 parse P (f (some p)).run tr) :
    Tells sha256 parse P (trackPayment hash >>= f).run tr := by
  refine Sat.tryBind (Sat.ask trivial (fun _ r _ _ => ?_))
  cases r with
  | error e =>
    dsimp only
    split
    · exact hnone _
    · exact herror _
  | ok _ =>
    refine Sat.tryBind ⟨trivial, fun _ r _ htrue => ?_⟩
    cases r with
    | error e => exact herror _
    | ok found =>
      cases found with
      | none => exact herror _
      | some p => exact hsome p (htrue p rfl).1 (htrue p rfl).2 _

/-- The state of an opened payment has a preimage that opens it. -/
theorem stateOf_opens {p : Payment} (h : p.Opened sha256) {preimage : Preimage}
    (hstate : stateOf p = .ok (.success preimage)) : sha256 preimage = p.paymentHash := by
  unfold stateOf at hstate
  split at hstate
  next => cases hstate
  next => cases hstate
  next hstatus =>
    split at hstate
    next decoded hdecode =>
      cases hstate
      exact h (Or.inl hstatus) preimage hdecode
    next => cases hstate
  next => cases hstate
  next => cases hstate

theorem toPreimage_bind_tells {α : Type} {P : Except LightningError α → Prop} {text : String}
    {f : Preimage → LndProgram α} (herror : ∀ e, P (.error e))
    (hf : ∀ preimage, decodePreimage text = some preimage →
      Tells sha256 parse P (f preimage).run tr) :
    Tells sha256 parse P (toPreimage text >>= f).run tr := by
  unfold toPreimage
  cases hdecode : decodePreimage text with
  | none => exact herror _
  | some preimage => exact hf preimage hdecode

theorem getPreimage_tells : Tells sha256 parse
    (Reveals sha256 (.getPreimage hash)) (getPreimage hash).run tr := by
  refine Sat.tryBind ⟨trivial, fun _ r _ _ => ?_⟩
  cases r with
  | error e => exact fun _ => nofun
  | ok _ =>
    refine trackPayment_bind_tells (fun _ _ => nofun) (fun _ _ => nofun) (fun p hhash hp tr => ?_)
    dsimp only
    split
    · exact fun _ => nofun
    · split
      · exact fun _ => nofun
      next hzero =>
        refine toPreimage_bind_tells (fun _ _ => nofun) (fun preimage hdecode => ?_)
        refine orFail_bind_tells (fun _ _ => nofun) (fun r _ tr => ?_)
        cases r with
        | error e => trivial
        | ok found =>
          rintro _ _ ⟨⟩
          exact (hp (Or.inr hzero) preimage hdecode).trans hhash

/-- The label is stored first, if it has not been. -/
theorem storeLabel_tells {α : Type} {P : Except LightningError α → Prop} {i : ℕ}
    {paymentIndex : UInt64} {p : LndProgram α} (herror : ∀ e, P (.error e))
    (hp : ∀ tr, Tells sha256 parse P p.run tr) :
    Tells sha256 parse P (if i = 0 then
      orGeneral (Prog.perform (I := Lnd) (.addLabel label paymentIndex)) >>= fun _ => p
      else p).run tr := by
  split
  · refine orFail_bind_tells herror (fun r _ tr => ?_)
    cases r with
    | error e => trivial
    | ok _ => exact hp
  · exact hp tr

theorem readUpdates_tells {request : SendPaymentRequest}
    (h : parse request.paymentRequest = some hash) (n : ℕ) {i : ℕ} : Tells sha256 parse
      (onOutcome (fun _ => True) (fun r => ∀ preimage, r = .success preimage → sha256 preimage = hash))
        (readUpdates request label i n).run tr := by
  induction n generalizing i tr with
  | zero => trivial
  | succ n ih =>
    refine orFail_bind_tells (fun _ => trivial) (fun r htrue tr => ?_)
    cases r with
    | error e => trivial
    | ok update =>
      cases update with
      | none => exact fun _ => trivial
      | some update =>
        obtain ⟨hhash, hopened⟩ := htrue update rfl
        intro tr
        dsimp only
        refine storeLabel_tells (fun _ => trivial) (fun tr => ?_)
        cases hstatus : update.status with
        | succeeded =>
          refine toPreimage_bind_tells (fun _ => trivial) (fun preimage hdecode => ?_)
          rintro _ ⟨⟩
          have hpreimage := hopened (Or.inl hstatus) preimage hdecode
          exact Option.some.inj (hpreimage ▸ hhash.trans h)
        | failed => exact fun _ => nofun
        | unknown => exact ih
        | inFlight => exact ih
        | initiated => exact ih

theorem pay_tells {request : PaymentRequest} (h : parse request.bolt11 = some request.paymentHash) :
    Tells sha256 parse (Reveals sha256 (.pay request)) (pay request).run tr := by
  refine Sat.tryBind ⟨trivial, fun _ r _ _ => ?_⟩
  cases r with
  | error e => exact fun _ => nofun
  | ok _ =>
    refine orFail_bind_tells (fun _ _ => nofun) (fun r _ tr => ?_)
    cases r with
    | error e => trivial
    | ok _ =>
      intro tr
      refine orFail_bind_tells (fun _ _ => nofun) (fun r _ tr => ?_)
      cases r with
      | error e => trivial
      | ok _ =>
        intro tr
        refine Sat.ask trivial (fun _ updates _ _ => ?_)
        refine (readUpdates_tells h updates).mono (fun _ o ho preimage hsuccess => ?_)
        subst hsuccess
        exact ho preimage rfl

end Lnd

namespace LndState

variable {parse : String → Option PaymentHash} {s s' : LndState}

/-- The index that is stored for a label stays. -/
def IndicesStay (s s' : LndState) : Prop :=
  ∀ label index, s.table.getPaymentIndex label = some index →
    s'.table.getPaymentIndex label = some index

theorem indicesStay_of_addLabel {label : String} {index : UInt64} {table : Lnd.PaymentTable}
    (h : s.table.addLabel label index = some table) : s.IndicesStay { s with table := table } := by
  intro label' index' hindex
  unfold Lnd.PaymentTable.addLabel at h
  split at h
  next hfresh =>
    obtain rfl := Option.some.inj h
    obtain ⟨row, hfind, hrow⟩ := Option.map_eq_some_iff.mp hindex
    have hlabel : row.label = label' := by simpa using List.find?_some hfind
    have hne : label ≠ label' := fun heq =>
      hfresh.2 (heq ▸ hlabel ▸ List.mem_map_of_mem (List.mem_of_find?_eq_some hfind))
    rw [Lnd.PaymentTable.getPaymentIndex, List.find?_cons_of_neg (by simpa using hne)]
    exact hindex
  next => cases h

/-- **What a call does**: it leaves the payments alone, and stores a label at
most. -/
theorem serve_eq_some {c : LndCall} {ch : LndChoice} {r : c.Reply}
    (h : serve parse c ch s = some (r, s')) : s'.db = s.db ∧ s.IndicesStay s' := by
  have hsame {α : Type} {o : Option α} {f : α → c.Reply}
      (h : o.map (fun a => (f a, s)) = some (r, s')) : s'.db = s.db ∧ s.IndicesStay s' := by
    obtain ⟨a, -, heq⟩ := Option.map_eq_some_iff.mp h
    obtain rfl := (Prod.mk.inj heq).2
    exact ⟨rfl, fun _ _ => id⟩
  cases c with
  | addLabel label index =>
    simp only [serve] at h
    split at h
    next table htable =>
      obtain rfl := (Prod.mk.inj (Option.some.inj h)).2
      exact ⟨rfl, indicesStay_of_addLabel htable⟩
    next =>
      obtain rfl := (Prod.mk.inj (Option.some.inj h)).2
      exact ⟨rfl, fun _ _ => id⟩
    next table htable =>
      obtain rfl := (Prod.mk.inj (Option.some.inj h)).2
      exact ⟨rfl, indicesStay_of_addLabel htable⟩
    next =>
      obtain rfl := (Prod.mk.inj (Option.some.inj h)).2
      exact ⟨rfl, fun _ _ => id⟩
    next => cases h
  | trackPaymentV2 request =>
    have hperf : Performs parse (.trackPaymentV2 request) s r s' := ⟨ch, h⟩
    obtain rfl := hperf.trackPaymentV2
    exact ⟨rfl, fun _ _ => id⟩
  | countUpdates request =>
    cases ch with
    | payment n =>
      obtain rfl := (Prod.mk.inj (Option.some.inj h)).2
      exact ⟨rfl, fun _ _ => id⟩
    | _ => cases h
  | _ => exact hsame h

end LndState

section LndDeployment

variable {server : SwapServer} {exclusive : Bool} {parse : String → Option PaymentHash}

theorem lndNode_keeps : NodeKeeps (lndNode sha256 parse) (fun s => s.db.Opened sha256)
    LndState.IndicesStay where
  refl := fun _ _ _ => id
  trans := fun h₁ h₂ _ _ h => h₂ _ _ (h₁ _ _ h)
  serve := fun hs h => by
    obtain ⟨hdb, hstay⟩ := LndState.serve_eq_some h
    exact ⟨hdb ▸ hs, hstay⟩
  act := fun _ h => by
    unfold lndNode at h
    dsimp only at h
    split at h
    next hopened =>
      obtain rfl := Option.some.inj h
      exact ⟨hopened, fun _ _ => id⟩
    next => cases h
  disconnect := fun hs => ⟨hs, fun _ _ => id⟩

theorem lndNode_truthful {i proc : ℕ} {c : LndCall} {ch : LndChoice} {s s' : LndState}
    {r : c.Reply} (hs : s.db.Opened sha256)
    (h : (lndNode sha256 parse).serve i proc c ch s = some (r, s')) :
    c.Truthful sha256 parse r := by
  cases c with
  | trackedPayment request =>
    intro p hp
    have hperf : LndState.Performs parse (.trackedPayment request) s r s' := ⟨ch, h⟩
    obtain ⟨hmem, hhash, -⟩ := hperf.trackedPayment.2 p hp
    exact ⟨hhash, hs p hmem⟩
  | update request n =>
    intro p hp
    obtain ⟨o, ho, heq⟩ := Option.map_eq_some_iff.mp h
    obtain ⟨rfl, -⟩ := Prod.mk.inj heq
    subst hp
    obtain ⟨hmem, hparse⟩ := LndState.message_eq_some ho
    exact ⟨hparse, hs p hmem⟩
  | _ => trivial

/-- The payments a call lists. -/
def Call.listing : Call Lnd → Option Lnd.ListPaymentsRequest
  | .node (.listPayments request) => some request
  | _ => none

/-- **Listing an own payment**: the payment after an index that is stored for the
label of an attempt has not succeeded, or has the hash of the attempt. -/
def World.OwnPayments (_ : ℕ) (_ : Task) (c : Call Lnd) (w : World (lndNode sha256 parse)) : Prop :=
  ∀ request ∈ c.listing, ∀ a ∈ w.db.paymentAttempts,
    w.node.table.getPaymentIndex a.label = some request.indexOffset →
    ∀ p ∈ (w.node.db.after request.indexOffset).head?,
      p.status = .succeeded → p.paymentHash = a.swapPaymentHash

instance (i : ℕ) (t : Task) (c : Call Lnd) (w : World (lndNode sha256 parse)) :
    Decidable (w.OwnPayments i t c) :=
  inferInstanceAs (Decidable (∀ request ∈ c.listing, ∀ a ∈ w.db.paymentAttempts,
    w.node.table.getPaymentIndex a.label = some request.indexOffset →
    ∀ p ∈ (w.node.db.after request.indexOffset).head?,
      p.status = .succeeded → p.paymentHash = a.swapPaymentHash))

/-- Programs of the client, in the deployment. -/
abbrev LndSafe (sha256 : Preimage → PaymentHash) (server : SwapServer) (exclusive : Bool) {α : Type}
    (i : ℕ) (t : Task) (P : α → Prop) (p : Prog Lnd α)
    (w : World (lndNode sha256 server.hashOf)) : Prop :=
  (preimages sha256 lndClient server exclusive World.OwnPayments
    (fun s => s.db.Opened sha256) LndState.IndicesStay).Safe i t (fun r _ => P r) (Client.lift p) w

theorem Lnd.Tells.safe {α : Type} {P : α → Prop} {p : Prog Lnd α} {i : ℕ} {t : Task}
    {w : World (lndNode sha256 server.hashOf)} (h : Lnd.Tells sha256 server.hashOf P p []) :
    LndSafe sha256 server exclusive i t P p w :=
  lndNode_keeps.safe_lift _ (fun hs hserve => lndNode_truthful hs hserve) h

section GetPaymentState

variable {i : ℕ} {t : Task} {hash : PaymentHash} {label : String}
  {w : World (lndNode sha256 server.hashOf)}

/-- The attempt is recorded, and the index, if there is one, is that of its label. -/
def World.Indexed (hash : PaymentHash) (label : String) (index : Option UInt64)
    (w : World (lndNode sha256 server.hashOf)) : Prop :=
  w.db.HasAttempt hash label ∧ ∀ n ∈ index, w.node.table.getPaymentIndex label = some n

theorem World.Indexed.stays {index : Option UInt64} {w₁ w₂ : World (lndNode sha256 server.hashOf)}
    (h : w₁.Indexed hash label index) (hattempts : w₁.db.AttemptsStay w₂.db)
    (hindices : w₁.node.IndicesStay w₂.node) : w₂.Indexed hash label index :=
  ⟨hattempts _ _ h.1, fun n hn => hindices _ _ (h.2 n hn)⟩

/-- What is read of a payment with the hash, if it has succeeded. -/
theorem stateOf_reveals {p : Lnd.Payment} (hp : p.Opened sha256)
    (hhash : p.status = .succeeded → p.paymentHash = hash) :
    Reveals sha256 (.getPaymentState hash label) (Lnd.stateOf p) := by
  intro preimage hstate
  have hstatus : p.status = .succeeded := by
    unfold Lnd.stateOf at hstate
    split at hstate <;> first | assumption | cases hstate
  exact (Lnd.stateOf_opens hp hstate).trans (hhash hstatus)

/-- What is read of the payment that is tracked. -/
theorem trackState_safe {f : Option Lnd.Payment → LndProgram PaymentState}
    (hnone : f none = throw .paymentNotFound)
    (hsome : ∀ p, f (some p) = Prog.ofExcept (Lnd.stateOf p)) :
    LndSafe sha256 server exclusive i t (Reveals sha256 (.getPaymentState hash label))
      (Lnd.trackPayment hash >>= f).run w := by
  refine Lnd.Tells.safe (Lnd.trackPayment_bind_tells (fun _ _ => nofun) (fun _ => ?_)
    (fun p hhash hp _ => ?_))
  · rw [hnone]
    exact fun _ => nofun
  · rw [hsome]
    exact stateOf_reveals hp (fun _ => hhash)

/-- **`get_payment_state` reveals the right preimage**: the payment that is listed is
an own one, and the payment that is tracked has the hash. -/
theorem getPaymentState_safe (hattempt : w.db.HasAttempt hash label) :
    LndSafe sha256 server exclusive i t (Reveals sha256 (.getPaymentState hash label))
      (Lnd.getPaymentState hash label).run w := by
  refine lndNode_keeps.safe_node (P := fun w => w.db.HasAttempt hash label) hattempt
    (fun _ _ h hstay _ => hstay _ _ h) (fun w₁ ch r n ha _ _ hserve ha' => ?_)
  cases r with
  | error e => exact fun _ _ _ _ => nofun
  | ok index =>
    have hindexed : World.Indexed hash label index { w₁ with node := n } := by
      have hperf : LndState.Performs server.hashOf (.getPaymentIndex label) w₁.node (.ok index) n :=
        ⟨ch, hserve⟩
      obtain ⟨hn, hindex⟩ := hperf.getPaymentIndex
      refine ⟨ha', fun m hm => ?_⟩
      rw [show n = w₁.node from hn, ← hindex index rfl]
      exact hm
    refine lndNode_keeps.safe_node (P := World.Indexed hash label index) hindexed
      (fun _ _ h => h.stays) (fun w₂ _ r n _ _ _ _ hindexed => ?_)
    cases r with
    | error e => exact fun _ _ _ _ => nofun
    | ok _ =>
      refine lndNode_keeps.safe_node (P := World.Indexed hash label index) hindexed
        (fun _ _ h => h.stays) (fun w₃ _ r n _ _ _ _ hindexed => ?_)
      cases r with
      | error e => exact fun _ _ _ _ => nofun
      | ok _ =>
        cases index with
        | none => exact trackState_safe rfl (fun _ => rfl)
        | some index =>
          refine lndNode_keeps.safe_node (P := World.Indexed hash label (some index)) hindexed
            (fun _ _ h => h.stays) (fun w₄ ch r n hindexed hw hpermits hserve _ => ?_)
          cases r with
          | error e => exact fun _ _ _ _ => nofun
          | ok payments =>
            have hperf : LndState.Performs server.hashOf (.listPayments ⟨true, index, 1⟩) w₄.node
                (.ok payments) n := ⟨ch, hserve⟩
            have hlist := hperf.listPayments.2 payments rfl
            cases payments with
            | nil => exact trackState_safe rfl (fun _ => rfl)
            | cons p ps =>
              have hnext : (w₄.node.db.after index).head? = some p := by
                rw [← w₄.node.db.head?_list index, ← hlist]
                rfl
              have hopened := hw.2 p (List.mem_of_mem_filter (List.mem_of_mem_head? hnext))
              refine fun _ _ _ => stateOf_reveals hopened (fun hstatus => ?_)
              obtain ⟨row, hrow, rfl, rfl⟩ := hindexed.1
              exact hpermits _ rfl row hrow (hindexed.2 index rfl) p hnext hstatus

end GetPaymentState

/-- **The client of LND reveals the right preimages**, while it lists own payments. -/
theorem lndClient_preimageClient :
    PreimageClient (M := lndNode sha256 server.hashOf) sha256 lndClient server exclusive
      World.OwnPayments (fun s => s.db.Opened sha256) LndState.IndicesStay where
  toNodeKeeps := lndNode_keeps
  reveals := fun i t c w _ hasked => by
    cases c with
    | getPaymentState hash label => exact getPaymentState_safe hasked
    | getPreimage hash => exact Lnd.getPreimage_tells.safe
    | hasPendingOrCompletePayment hash =>
      exact Lnd.Tells.safe (P := fun _ => True) (Sat.of_onlyCalls
        (Prog.OnlyCalls.of_forall (fun _ => trivial))
        (Prog.Returns.of_forall (P := fun _ => True) (fun _ => trivial))
        (fun _ _ _ _ => trivial) (fun _ _ _ _ => trivial))
    | pay request => exact (Lnd.pay_tells hasked).safe

/-- **With LND, every stored preimage opens its swap**, in every run that lists own
payments only. -/
theorem lndNode_storedPreimages
    {S : (swapd (lndNode sha256 server.hashOf) lndClient server exclusive).Config}
    (hS : Machine.ReachableIf World.OwnPayments (IsInitial (lndNode sha256 server.hashOf) lndClient
      server exclusive (fun s => s.db.Opened sha256)) S) : S.state.db.PreimagesOpen sha256 :=
  lndClient_preimageClient.storedPreimages hS (fun _ hs => hs)

end LndDeployment

namespace Sample

/-- The payment of the swap, on a node of LND. -/
def lndPayment (status : Lnd.PaymentStatus) (preimage : String) : Lnd.Payment :=
  ⟨.ofByte 1, 3, status, preimage, .none⟩

/-- The payments when it is in flight, and when it has succeeded. -/
def lndInFlight : Lnd.Payments := ⟨[lndPayment .inFlight Lnd.zeroPreimage], by decide⟩

/-- The payments when it has succeeded. -/
def lndSucceeded : Lnd.Payments := ⟨[lndPayment .succeeded (Bytes32.ofByte 7).toHex], by decide⟩

/-- The deployment on a node of LND before anything has happened. -/
def lndStart : (swapd (lndNode opening server.hashOf) lndClient server true).Config :=
  ⟨world (lndNode opening server.hashOf) ⟨⟨[], by decide⟩, ⟨[], by decide, by decide⟩⟩, []⟩

theorem lndStart_initial : IsInitial (lndNode opening server.hashOf) lndClient server true
    (fun s => s.db.Opened opening) lndStart where
  threads := rfl
  node := fun _ hp => nomatch hp
  spawned := rfl
  up := rfl
  serving := rfl
  live := rfl
  attempts := rfl
  refunds := rfl
  checked := rfl
  paymentAttempts := rfl
  swapLocks := rfl
  unpaid := by simp [lndStart, world, tables]

/-- A process starts and pays the swap, and crashes when the label is stored; the
payments move on, and the next one looks up its state. -/
def lndRestart (db : Lnd.Payments) :
    List (swapd (lndNode opening server.hashOf) lndClient server true).Action :=
  [.spawn (.start 1), .run 0 .ok, .run 0 .ok, .spawn (.pay 0 payRequest)] ++
    List.replicate 11 (.run 1 .ok) ++
    [.drift (.node lndInFlight), .run 1 (.node .done), .run 1 (.node .done),
      .run 1 (.node .done), .run 1 (.node (.payment 2)), .run 1 (.node (.payment 0)),
      .run 1 (.node .done), .halt (.crash 0), .drift (.node db), .spawn (.start 1),
      .run 2 .ok] ++ List.replicate 4 (.run 2 (.node .done))

/-- Where that leads when the payment has succeeded and is the last one: it is
tracked. -/
def lndPaid : (swapd (lndNode opening server.hashOf) lndClient server true).Config :=
  Machine.after World.OwnPayments lndStart (lndRestart lndSucceeded ++
    [.run 2 (.node .done), .run 2 (.node (.payment 0)), .run 2 .ok])

/-- The payments when a later one has succeeded. -/
def lndOvertaken : Lnd.Payments :=
  ⟨[lndPayment .inFlight Lnd.zeroPreimage,
    ⟨.ofByte 0, 5, .succeeded, (Bytes32.ofByte 9).toHex, .none⟩], by decide⟩

/-- Where that leads when a later payment has succeeded: it is listed. -/
def lndMistaken : (swapd (lndNode opening server.hashOf) lndClient server true).Config :=
  Machine.after (fun _ _ _ _ => True) lndStart (lndRestart lndOvertaken ++ [.run 2 .ok])

end Sample

open Sample in
set_option maxRecDepth 4000 in
theorem lndNode_storedPreimages_sample :
    lndPaid.state.db.swaps = [⟨swap, some (.ofByte 7)⟩] ∧
      lndPaid.state.db.PreimagesOpen opening :=
  ⟨by decide, lndNode_storedPreimages
    ⟨lndStart, lndStart_initial, Machine.reflTransGen_after _ _⟩⟩

/-- **Every stored preimage opens its swap**, with either client: with Core Lightning in
every run, with LND in every run that lists own payments only. -/
theorem storedPreimage_opensSwap (server : SwapServer) (exclusive : Bool) :
    (∀ S : (swapd (clnNode sha256 server.hashOf) clnClient server exclusive).Config,
      Machine.Reachable (IsInitial (clnNode sha256 server.hashOf) clnClient server exclusive
        (fun _ => True)) S → S.state.db.PreimagesOpen sha256) ∧
      ∀ S : (swapd (lndNode sha256 server.hashOf) lndClient server exclusive).Config,
        Machine.ReachableIf World.OwnPayments (IsInitial (lndNode sha256 server.hashOf) lndClient
          server exclusive (fun s => s.db.Opened sha256)) S → S.state.db.PreimagesOpen sha256 := by
  constructor
  · intro S hS
    exact clnClient_preimageClient.storedPreimages hS (fun _ _ => trivial)
  · intro S hS
    exact lndClient_preimageClient.storedPreimages hS (fun _ hs => hs)

open Sample in
set_option maxRecDepth 4000 in
/-- A preimage is stored with each of the clients. -/
theorem storedPreimage_opensSwap_sample :
    (clnPaid.state.db.swaps = [⟨swap, some (.ofByte 7)⟩] ∧
      clnPaid.state.db.PreimagesOpen opening) ∧
      lndPaid.state.db.swaps = [⟨swap, some (.ofByte 7)⟩] ∧
        lndPaid.state.db.PreimagesOpen opening := by
  obtain ⟨hcln, hlnd⟩ := @storedPreimage_opensSwap opening server true
  have hclnPaid := hcln clnPaid ⟨clnStart, clnStart_initial, Machine.reflTransGen_after _ _⟩
  have hlndPaid := hlnd lndPaid ⟨lndStart, lndStart_initial, Machine.reflTransGen_after _ _⟩
  exact ⟨⟨by decide, hclnPaid⟩, by decide, hlndPaid⟩

open Sample in
set_option maxRecDepth 4000 in
/-- **The preimage of another payment is stored**, where it succeeds between the
payment of the swap and the look at its state. -/
theorem lndNode_storesNext : ¬ ∀ S, Machine.Reachable (IsInitial (lndNode opening server.hashOf)
    lndClient server true (fun s => s.db.Opened opening)) S → S.state.db.PreimagesOpen opening := by
  intro h
  have hopen := h lndMistaken ⟨lndStart, lndStart_initial, Machine.reflTransGen_after _ _⟩
  exact absurd (hopen ⟨swap, some (.ofByte 9)⟩ (by decide) (.ofByte 9) rfl) (by decide)

end Swapd
