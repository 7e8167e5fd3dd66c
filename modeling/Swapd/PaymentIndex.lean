import Mathlib.Data.List.Nodup
import Swapd.Lnd
import Swapd.Table

/-!
# Payments of an LND node, and their indices

LND numbers its payments in the order of their creation, with gaps, and lists
those after a given index. The client stores the index of the payment of a
label, and asks for the payments *after* that index to look the payment up:
what it reads is the next payment, if there is one (`Payments.lookedUp`). Only
when no payment was made since does it read the right one, by its hash.

`getPaymentState_reads_iff` says when the state returned is that of the payment
asked for: when the next payment, if there is one, reports the same.
-/

namespace Swapd

namespace Lnd

/-- **The payments of a node**, in the order of their indices. -/
structure Payments where
  payments : List Payment
  ascending : payments.Pairwise (fun p q => p.paymentIndex < q.paymentIndex)
deriving DecidableEq

namespace Payments

variable (db : Payments)

/-- The payments after an index. -/
def after (index : UInt64) : List Payment :=
  db.payments.filter (fun p => index < p.paymentIndex)

/-- `list_payments`: payments after the offset, in ascending order of their
indices, and at most as many as asked for. -/
def list (request : ListPaymentsRequest) : List Payment :=
  ((db.after request.indexOffset).filter
    (fun p => request.includeIncomplete ∨ p.status = .succeeded)).take request.maxPayments.toNat

/-- The payment with a hash: the last one, if there are several. -/
def Tracks (hash : PaymentHash) (p : Payment) : Prop :=
  p ∈ db.payments ∧ p.paymentHash = hash ∧
    ∀ q ∈ db.payments, q.paymentHash = hash → q.paymentIndex ≤ p.paymentIndex

instance (hash : PaymentHash) (p : Payment) : Decidable (db.Tracks hash p) :=
  inferInstanceAs (Decidable (_ ∧ _ ∧ _))

/-- **What the client reads in the place of a payment**: the next one, if there
is one. -/
def lookedUp (p : Payment) : Payment := (db.after p.paymentIndex).head?.getD p

end Payments

/-- A row of `lnd_payments`. -/
structure PaymentRow where
  paymentIndex : UInt64
  label : String
deriving DecidableEq

/-- **The table `lnd_payments`.** The index is its key, and labels are unique. -/
structure PaymentTable where
  rows : List PaymentRow
  nodup_index : (rows.map (fun row => row.paymentIndex)).Nodup
  nodup_label : (rows.map (fun row => row.label)).Nodup
deriving DecidableEq

namespace PaymentTable

variable (table : PaymentTable)

/-- `get_label`. -/
def getLabel (paymentIndex : UInt64) : Option String :=
  (table.rows.find? (fun row => row.paymentIndex = paymentIndex)).map (fun row => row.label)

/-- `get_payment_index`. -/
def getPaymentIndex (label : String) : Option UInt64 :=
  (table.rows.find? (fun row => row.label = label)).map (fun row => row.paymentIndex)

/-- `add_label`: refused if the index or the label is there. -/
def addLabel (label : String) (paymentIndex : UInt64) : Option PaymentTable :=
  if h : paymentIndex ∉ table.rows.map (fun row => row.paymentIndex) ∧
      label ∉ table.rows.map (fun row => row.label) then
    some ⟨⟨paymentIndex, label⟩ :: table.rows, List.nodup_cons.mpr ⟨h.1, table.nodup_index⟩,
      List.nodup_cons.mpr ⟨h.2, table.nodup_label⟩⟩
  else none

end PaymentTable

end Lnd

/-- **The state of an LND node**, and of the table of its client. -/
structure LndState where
  db : Lnd.Payments
  table : Lnd.PaymentTable
deriving DecidableEq

/-- How a call is resolved: as the state has it, with an error – a row may be
stored all the same –, or with one of the payments. -/
inductive LndChoice where
  | done
  | fails (status : Status)
  | lost (status : Status)
  | payment (n : ℕ)
deriving DecidableEq

namespace LndState

open Lnd

/-- What a call returns if it does not fail. -/
def answer {α : Type} (a : α) (ch : LndChoice) : Option (Except Status α) :=
  match ch with
  | .done => some (.ok a)
  | .fails status => some (.error status)
  | _ => none

/-- A message about a payment, if it is one of those it can be about; the end of
the stream; or an error. -/
def message (db : Payments) (about : Payment → Prop) [DecidablePred about] (ch : LndChoice) :
    Option (Except Status (Option Payment)) :=
  match ch with
  | .done => some (.ok none)
  | .fails status => some (.error status)
  | .payment n =>
    match db.payments[n]? with
    | some p => if about p then some (.ok (some p)) else none
    | none => none
  | .lost _ => none

/-- **Serving a call.** The node reads a payment request with `parse`. -/
def serve (parse : String → Option PaymentHash) : (c : LndCall) → LndChoice → LndState →
    Option (c.Reply × LndState)
  | .getClient, ch, s =>
    (answer () ch).map (fun r => (r.mapError (fun _ => .connectionFailed), s))
  | .getRouterClient, ch, s =>
    (answer () ch).map (fun r => (r.mapError (fun _ => .connectionFailed), s))
  | .addLabel label paymentIndex, ch, s =>
    match ch, s.table.addLabel label paymentIndex with
    | .done, some table => some (.ok (), { s with table := table })
    | .done, none => some (.error (.general "duplicate key"), s)
    | .lost status, some table => some (.error (.general status.message), { s with table := table })
    | .fails status, _ => some (.error (.general status.message), s)
    | _, _ => none
  | .getLabel paymentIndex, ch, s =>
    (answer (s.table.getLabel paymentIndex) ch).map
      (fun r => (r.mapError (fun status => .general status.message), s))
  | .getPaymentIndex label, ch, s =>
    (answer (s.table.getPaymentIndex label) ch).map
      (fun r => (r.mapError (fun status => .general status.message), s))
  | .listPayments request, ch, s => (answer (s.db.list request) ch).map (fun r => (r, s))
  | .trackPaymentV2 request, ch, s =>
    match ch with
    | .done =>
      if s.db.payments.any (fun p => p.paymentHash = request.paymentHash) then some (.ok (), s)
      else some (.error ⟨.notFound, "payment isn't initiated"⟩, s)
    | .fails status => if status.code = .notFound then none else some (.error status, s)
    | _ => none
  | .trackedPayment request, ch, s =>
    (message s.db (s.db.Tracks request.paymentHash) ch).map (fun r => (r, s))
  | .resetMissionControl, ch, s => (answer () ch).map (fun r => (r, s))
  | .sendPaymentV2 _, ch, s => (answer () ch).map (fun r => (r, s))
  | .countUpdates _, ch, s =>
    match ch with
    | .payment n => some (n, s)
    | _ => none
  | .update request _, ch, s =>
    (message s.db (fun p => some p.paymentHash = parse request.paymentRequest) ch).map
      (fun r => (r, s))

/-- A call, as a relation: it can be served so. -/
def Performs (parse : String → Option PaymentHash) (c : LndCall) (s : LndState) (r : c.Reply)
    (s' : LndState) : Prop :=
  ∃ ch, serve parse c ch s = some (r, s')

/-! ## What the client reads -/

variable {parse : String → Option PaymentHash} {s s' : LndState}

theorem answer_eq_some {α : Type} {a : α} {ch : LndChoice} {r : Except Status α}
    (h : answer a ch = some r) : r = .ok a ∨ ∃ status, r = .error status := by
  cases ch with
  | done => exact Or.inl (Option.some.inj h).symm
  | fails status => exact Or.inr ⟨status, (Option.some.inj h).symm⟩
  | _ => cases h

theorem message_eq_some {db : Payments} {about : Payment → Prop} [DecidablePred about]
    {ch : LndChoice} {p : Payment} (h : message db about ch = some (.ok (some p))) :
    p ∈ db.payments ∧ about p := by
  cases ch with
  | payment n =>
    simp only [message] at h
    split at h
    next q hq =>
      split at h
      next hq' =>
        cases h
        exact ⟨List.mem_of_getElem? hq, hq'⟩
      next => cases h
    next => cases h
  | _ => cases h

theorem Performs.getClient {r : Except LightningError Unit}
    (h : Performs parse .getClient s r s') : s' = s := by
  obtain ⟨ch, h⟩ := h
  obtain ⟨_, -, heq⟩ := Option.map_eq_some_iff.mp h
  exact (Prod.mk.inj heq).2.symm

theorem Performs.getRouterClient {r : Except LightningError Unit}
    (h : Performs parse .getRouterClient s r s') : s' = s := by
  obtain ⟨ch, h⟩ := h
  obtain ⟨_, -, heq⟩ := Option.map_eq_some_iff.mp h
  exact (Prod.mk.inj heq).2.symm

theorem Performs.getPaymentIndex {label : String} {r : Except RepositoryError (Option UInt64)}
    (h : Performs parse (.getPaymentIndex label) s r s') :
    s' = s ∧ ∀ index, r = .ok index → index = s.table.getPaymentIndex label := by
  obtain ⟨ch, h⟩ := h
  obtain ⟨o, ho, heq⟩ := Option.map_eq_some_iff.mp h
  obtain ⟨rfl, rfl⟩ := Prod.mk.inj heq
  refine ⟨rfl, fun index hindex => ?_⟩
  rcases answer_eq_some ho with rfl | ⟨status, rfl⟩
  · exact (Except.ok.inj hindex).symm
  · cases hindex

theorem Performs.listPayments {request : ListPaymentsRequest} {r : Except Status (List Payment)}
    (h : Performs parse (.listPayments request) s r s') :
    s' = s ∧ ∀ payments, r = .ok payments → payments = s.db.list request := by
  obtain ⟨ch, h⟩ := h
  obtain ⟨o, ho, heq⟩ := Option.map_eq_some_iff.mp h
  obtain ⟨rfl, rfl⟩ := Prod.mk.inj heq
  refine ⟨rfl, fun payments hpayments => ?_⟩
  rcases answer_eq_some ho with rfl | ⟨status, rfl⟩
  · exact (Except.ok.inj hpayments).symm
  · cases hpayments

theorem Performs.trackPaymentV2 {request : TrackPaymentRequest} {r : Except Status Unit}
    (h : Performs parse (.trackPaymentV2 request) s r s') : s' = s := by
  obtain ⟨ch, h⟩ := h
  simp only [serve] at h
  split at h
  · split at h <;> exact (Prod.mk.inj (Option.some.inj h)).2.symm
  · split at h
    · cases h
    · exact (Prod.mk.inj (Option.some.inj h)).2.symm
  · cases h

theorem Performs.trackedPayment {request : TrackPaymentRequest}
    {r : Except Status (Option Payment)} (h : Performs parse (.trackedPayment request) s r s') :
    s' = s ∧ ∀ p, r = .ok (some p) → s.db.Tracks request.paymentHash p := by
  obtain ⟨ch, h⟩ := h
  obtain ⟨o, ho, heq⟩ := Option.map_eq_some_iff.mp h
  obtain ⟨rfl, rfl⟩ := Prod.mk.inj heq
  refine ⟨rfl, fun p hp => ?_⟩
  subst hp
  exact (message_eq_some ho).2

end LndState

namespace Lnd

variable {parse : String → Option PaymentHash} {s s' : LndState} {hash : PaymentHash}
  {label : String} {p : Payment}

/-- Payments are told apart by their indices. -/
theorem Payments.eq_of_paymentIndex (db : Payments) {p q : Payment} (hp : p ∈ db.payments)
    (hq : q ∈ db.payments) (h : p.paymentIndex = q.paymentIndex) : p = q := by
  have hnodup : (db.payments.map (fun p => p.paymentIndex)).Nodup :=
    List.pairwise_map.mpr (db.ascending.imp (fun hlt => UInt64.ne_of_lt hlt))
  exact List.inj_on_of_nodup_map hnodup hp hq h

/-- The index of a label is that of its row. -/
theorem PaymentTable.getPaymentIndex_eq_some (table : PaymentTable) {row : PaymentRow}
    (h : row ∈ table.rows) : table.getPaymentIndex row.label = some row.paymentIndex := by
  rw [getPaymentIndex, (Table.find?_key_eq_some_iff table.nodup_label).mpr ⟨h, rfl⟩, Option.map_some]

/-- A list of one payment, complete or not. -/
theorem Payments.head?_list (db : Payments) (index : UInt64) :
    (db.list ⟨true, index, 1⟩).head? = (db.after index).head? := by
  rw [list, List.filter_eq_self.mpr (fun q _ => by simp)]
  cases db.after index with
  | nil => rfl
  | cons q qs => rfl

/-- If no payment was made since, the payment with its hash is the payment. -/
theorem Payments.eq_of_tracks (db : Payments) {q : Payment} (hp : p ∈ db.payments)
    (hnone : (db.after p.paymentIndex).head? = none) (hq : db.Tracks p.paymentHash q) : q = p := by
  obtain ⟨hmem, -, hlast⟩ := hq
  refine db.eq_of_paymentIndex hmem hp (UInt64.le_antisymm ?_ (hlast p hp rfl))
  have hempty := List.filter_eq_nil_iff.mp (List.head?_eq_none_iff.mp hnone) q hmem
  rw [decide_eq_true_eq] at hempty
  exact UInt64.not_lt.mp hempty

/-! ## The state of a payment -/

/-- The runs of the client, while the payments stay as they are. -/
abbrev Run {α : Type} (parse : String → Option PaymentHash) (program : Prog Lnd α) (s : LndState)
    (a : α) : Prop :=
  Prog.RunsAlone (LndState.Performs parse) program s (.ret a) s

/-- **Tracking a payment**: what is found is the last payment with the hash. -/
theorem trackPayment_sat {α : Type} {onRet : Except LightningError α → LndState → Prop}
    {f : Option Payment → LndProgram α} (herror : ∀ e s', onRet (.error e) s')
    (hnone : Prog.SatAlone (LndState.Performs parse) (fun _ _ => True) onRet (f none).run s)
    (hsome : ∀ q, s.db.Tracks hash q →
      Prog.SatAlone (LndState.Performs parse) (fun _ _ => True) onRet (f (some q)).run s) :
    Prog.SatAlone (LndState.Performs parse) (fun _ _ => True) onRet
      (trackPayment hash >>= f).run s := by
  refine Prog.SatAlone.tryBind ⟨trivial, fun r s₁ hperf => ?_⟩
  obtain rfl := hperf.trackPaymentV2
  cases r with
  | error e =>
    show Prog.SatAlone _ _ _ (ExceptT.run (if e.code = .notFound then pure none
      else throw (LightningError.general e))) _
    split
    · exact hnone
    · exact herror _ _
  | ok _ =>
    refine ⟨trivial, fun r s₂ hperf => ?_⟩
    obtain ⟨rfl, htracks⟩ := hperf.trackedPayment
    match r, htracks with
    | .error _, _ => exact herror _ _
    | .ok none, _ => exact herror _ _
    | .ok (some q), htracks => exact hsome q (htracks q rfl)

/-- **What is returned** is the state of the payment that is looked up. -/
theorem getPaymentState_sat (hp : p ∈ s.db.payments)
    (hrow : (⟨p.paymentIndex, label⟩ : PaymentRow) ∈ s.table.rows) :
    Prog.SatAlone (LndState.Performs parse) (fun _ _ => True)
      (fun o _ => ∀ st, o = .ok st → stateOf (s.db.lookedUp p) = .ok st)
      (getPaymentState p.paymentHash label).run s := by
  refine Prog.SatAlone.tryBind ⟨trivial, fun r s₁ hperf => ?_⟩
  obtain ⟨rfl, hindex⟩ := hperf.getPaymentIndex
  cases r with
  | error e => exact fun _ => nofun
  | ok index =>
    obtain rfl : index = some p.paymentIndex :=
      (hindex index rfl).trans (s₁.table.getPaymentIndex_eq_some hrow)
    refine Prog.SatAlone.tryBind ⟨trivial, fun r s₂ hperf => ?_⟩
    obtain rfl := hperf.getClient
    cases r with
    | error e => exact fun _ => nofun
    | ok _ =>
      refine Prog.SatAlone.tryBind ⟨trivial, fun r s₃ hperf => ?_⟩
      obtain rfl := hperf.getRouterClient
      cases r with
      | error e => exact fun _ => nofun
      | ok _ =>
        refine Prog.SatAlone.tryBind (Prog.SatAlone.tryBind ⟨trivial, fun r s₄ hperf => ?_⟩)
        obtain ⟨rfl, hlist⟩ := hperf.listPayments
        cases r with
        | error e => exact fun _ => nofun
        | ok payments =>
          obtain rfl := hlist payments rfl
          show Prog.SatAlone _ _ _ (ExceptT.run (match (s₄.db.list ⟨true, p.paymentIndex, 1⟩).head? with
            | some payment => Prog.ofExcept (stateOf payment)
            | none => do
              match ← trackPayment p.paymentHash with
              | some payment => Prog.ofExcept (stateOf payment)
              | none => throw .paymentNotFound)) _
          rw [s₄.db.head?_list]
          unfold Payments.lookedUp
          cases hnext : (s₄.db.after p.paymentIndex).head? with
          | some q => exact fun st hst => hst
          | none =>
            refine trackPayment_sat (fun _ _ _ => nofun) (fun _ => nofun) (fun q hq => ?_)
            obtain rfl := s₄.db.eq_of_tracks hp hnext hq
            exact fun st hst => hst

/-- The state of the next payment is returned, if nothing fails. -/
theorem run_getPaymentState {q : Payment} {st : PaymentState}
    (hrow : (⟨p.paymentIndex, label⟩ : PaymentRow) ∈ s.table.rows)
    (hnext : (s.db.after p.paymentIndex).head? = some q) (hst : stateOf q = .ok st) :
    Run parse (getPaymentState hash label).run s (.ok st) := by
  have hindex : LndState.Performs parse (.getPaymentIndex label) s (.ok (some p.paymentIndex)) s := by
    refine ⟨.done, ?_⟩
    rw [← s.table.getPaymentIndex_eq_some hrow]
    rfl
  have hlist : LndState.Performs parse (.listPayments ⟨true, p.paymentIndex, 1⟩) s
      (.ok (s.db.list ⟨true, p.paymentIndex, 1⟩)) s := ⟨.done, rfl⟩
  have hclient : LndState.Performs parse .getClient s (.ok ()) s := ⟨.done, rfl⟩
  have hrouter : LndState.Performs parse .getRouterClient s (.ok ()) s := ⟨.done, rfl⟩
  refine .step hindex (.step hclient (.step hrouter (.step hlist ?_)))
  show Prog.RunsAlone _ (ExceptT.run (match (s.db.list ⟨true, p.paymentIndex, 1⟩).head? with
    | some payment => Prog.ofExcept (stateOf payment)
    | none => do
      match ← trackPayment hash with
      | some payment => Prog.ofExcept (stateOf payment)
      | none => throw .paymentNotFound)) s _ s
  rw [s.db.head?_list, hnext]
  show Prog.RunsAlone _ (.ret (stateOf q)) s _ s
  rw [hst]
  exact .here _ s

/-- **When the state of the right payment is reported.** Whatever is returned for
the hash of a payment and the label its index is stored with is its state, if,
and only if, the next payment by index, if there is one, reports nothing else. -/
theorem getPaymentState_reads_iff (hp : p ∈ s.db.payments)
    (hrow : (⟨p.paymentIndex, label⟩ : PaymentRow) ∈ s.table.rows) :
    (∀ st s', Prog.RunsAlone (LndState.Performs parse) (getPaymentState p.paymentHash label).run s
        (.ret (.ok st)) s' → stateOf p = .ok st) ↔
      ∀ q, (s.db.after p.paymentIndex).head? = some q →
        ∀ st, stateOf q = .ok st → stateOf p = .ok st := by
  constructor
  · intro hreads q hq st hst
    exact hreads st s (run_getPaymentState hrow hq hst)
  · intro hnext st s' hrun
    have hst : stateOf (s.db.lookedUp p) = .ok st := (getPaymentState_sat hp hrow).runs hrun st rfl
    unfold Payments.lookedUp at hst
    cases hq : (s.db.after p.paymentIndex).head? with
    | some q =>
      rw [hq] at hst
      exact hnext q hq st hst
    | none =>
      rw [hq] at hst
      exact hst

/-! ## Two payments -/

namespace Sample

/-- A payment that is in flight. -/
def first : Payment := ⟨.ofByte 1, 3, .inFlight, zeroPreimage, .none⟩

/-- A payment that has succeeded, of another hash. -/
def second : Payment := ⟨.ofByte 2, 5, .succeeded, (Bytes32.ofByte 7).toHex, .none⟩

/-- The table with the index of the first payment. -/
def table : PaymentTable := ⟨[⟨3, "first"⟩], by decide, by decide⟩

/-- A node with both payments. -/
def lnd : LndState := ⟨⟨[first, second], by decide⟩, table⟩

/-- A payment that is in flight, of a third hash. -/
def between : Payment := ⟨.ofByte 3, 4, .inFlight, zeroPreimage, .none⟩

/-- A node with a payment in flight after the first. -/
def busyLnd : LndState := ⟨⟨[first, between, second], by decide⟩, table⟩

end Sample

/-- Where the next payment is in flight as well, that is what is reported. -/
theorem getPaymentState_reads_sample :
    (Sample.busyLnd.db.after Sample.first.paymentIndex).head? = some Sample.between ∧
      ∀ st s', Prog.RunsAlone (LndState.Performs (fun _ => none))
        (getPaymentState Sample.first.paymentHash "first").run Sample.busyLnd
        (.ret (.ok st)) s' → st = .pending := by
  have hafter : (Sample.busyLnd.db.after Sample.first.paymentIndex).head?
      = some Sample.between := by decide
  refine ⟨hafter, fun st s' hrun => ?_⟩
  have hreads := (getPaymentState_reads_iff (s := Sample.busyLnd) (p := Sample.first)
    (by decide) (by decide)).mpr (fun q hq => ?_) st s' hrun
  · exact (Except.ok.inj hreads).symm
  · rw [hafter] at hq
    obtain rfl := Option.some.inj hq
    exact fun _ hst => hst

/-- **The state of another payment is reported**: a payment in flight is said to
have succeeded, with the preimage of the next payment, which has another hash. -/
theorem getPaymentState_reads_next : ∃ (s : LndState) (p q : Payment) (label : String),
    p ∈ s.db.payments ∧ (⟨p.paymentIndex, label⟩ : PaymentRow) ∈ s.table.rows ∧
      q.paymentHash ≠ p.paymentHash ∧ ∃ preimage, stateOf q = .ok (.success preimage) ∧
        Run (fun _ => none) (getPaymentState p.paymentHash label).run s (.ok (.success preimage)) ∧
        stateOf p ≠ .ok (.success preimage) := by
  have hstate : stateOf Sample.second = .ok (.success (.ofByte 7)) := by decide
  exact ⟨Sample.lnd, Sample.first, Sample.second, "first", by decide, by decide, by decide,
    .ofByte 7, hstate, run_getPaymentState (p := Sample.first) (by decide) (by decide) hstate,
    by decide⟩

end Lnd

end Swapd
