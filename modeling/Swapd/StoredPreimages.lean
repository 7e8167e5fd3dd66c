import Swapd.PaySwapPayment

/-!
# The preimages that are stored

A preimage reaches the swap tables from the client of the node, through a
handler or a monitor. What these do with it is the same whichever the client
is: they store for a swap what the client said of the payment of that swap
(`paySwap_stores`, `main_stores`, `doQueryPreimages_stores`). So if the client
says of a hash only preimages that hash to it, every preimage that is stored
opens its swap, in every run (`PreimageClient.storedPreimages`).

What the client says of a payment may depend on how it was asked: about the
state of a payment only if its attempt is recorded, and for a payment with the
hash of its invoice. `PreimageClient` is what a client owes: under a condition
on the calls of its node, each of its methods reveals preimages of the hash it
was asked about.
-/

namespace Swapd

open Prog (Event Sat onOutcome)

section Told

variable (sha256 : Preimage → PaymentHash)

/-- **What a method reveals** is a preimage of the hash it was asked about. -/
def Reveals : (c : LightningCall) → c.Reply → Prop
  | .getPaymentState hash _, r => ∀ preimage, r = .ok (.success preimage) → sha256 preimage = hash
  | .getPreimage hash, r => ∀ result, r = .ok (some result) → sha256 result.preimage = hash
  | .hasPendingOrCompletePayment _, _ => True
  | .pay req, r => ∀ preimage, r = .ok (.success preimage) → sha256 preimage = req.paymentHash

/-- **How calls are answered**: from the rows of the tables, and with preimages of
the right hash. -/
def Answers : (c : Call Lightning) → SwapTables → c.Reply → SwapTables → Prop
  | .getSwapByHash hash, _, r, _ => ∀ s, r = .ok s → s.swap.pub.hash = hash
  | .getUnhandledPaymentAttempts, db, r, _ => ∀ attempts, r = .ok attempts →
      ∀ a ∈ attempts, db.HasAttempt a.paymentHash a.label
  | .node c, _, r, _ => Reveals sha256 c r
  | _, _, _, _ => True

/-- The hash of a payment request. -/
def SwapServer.hashOf (server : SwapServer) (paymentRequest : String) : Option PaymentHash :=
  (server.codec.parseInvoice paymentRequest).map (fun invoice => invoice.paymentHash)

/-- An attempt was recorded, at some moment. -/
def SeenAttempt (tr : SwapServer.Events SwapTables) (hash : PaymentHash) (label : String) : Prop :=
  ∃ e ∈ tr, e.before.HasAttempt hash label

/-- **What is asked for**: the states of payments that are recorded, payments of
the hash of their invoice, and preimages stored where they belong. -/
def AsksFor (server : SwapServer) (tr : SwapServer.Events SwapTables) : Call Lightning → Prop
  | .unlockAddPaymentResult hash _ (.success preimage) => sha256 preimage = hash
  | .node (.getPaymentState hash label) => SeenAttempt tr hash label
  | .node (.pay req) => server.hashOf req.bolt11 = some req.paymentHash
  | _ => True

/-- **A program stores what it is told.** -/
abbrev Stores (server : SwapServer) {α : Type} (onRet : SwapServer.Events SwapTables → α → Prop)
    (p : Prog (Services Lightning) α) (tr : SwapServer.Events SwapTables) : Prop :=
  Sat (Answers sha256) (AsksFor sha256 server) onRet p tr

end Told

variable {sha256 : Preimage → PaymentHash} {server : SwapServer}
  {tr : SwapServer.Events SwapTables}

theorem SeenAttempt.mono {tr' : SwapServer.Events SwapTables} {hash : PaymentHash} {label : String}
    (h : SeenAttempt tr hash label) (hsub : tr ⊆ tr') : SeenAttempt tr' hash label := by
  obtain ⟨e, he, hattempt⟩ := h
  exact ⟨e, hsub he, hattempt⟩

/-- The calls nothing is asked of. -/
def Call.IsHarmless : Call Lightning → Prop
  | .unlockAddPaymentResult _ _ _ | .node (.getPaymentState _ _) | .node (.pay _) => False
  | _ => True

theorem Call.IsHarmless.asksFor {c : Call Lightning} (h : c.IsHarmless) :
    AsksFor sha256 server tr c := by
  cases c with
  | unlockAddPaymentResult _ _ _ => exact h.elim
  | node c => cases c <;> first | exact h.elim | trivial
  | _ => trivial

theorem Call.IsRead.isHarmless {c : Call Lightning} (h : c.IsRead) : c.IsHarmless := by
  cases c with
  | unlockAddPaymentResult _ _ _ => exact h.elim id (fun ⟨_, h⟩ => nomatch h)
  | node c => exact h.elim False.elim (fun ⟨_, h⟩ => nomatch h)
  | _ => trivial

/-- Programs that make such calls only. -/
theorem stores_of_onlyCalls {α : Type} {p : Prog (Services Lightning) α}
    (h : p.OnlyCalls Call.IsHarmless) : Stores sha256 server (fun _ _ => True) p tr := by
  refine Sat.of_onlyCalls h (Prog.Returns.of_forall (P := fun _ => True) (fun _ => trivial)) ?_ ?_
  · exact fun _ _ _ hc => hc.asksFor
  · exact fun _ _ _ _ => trivial

/-! ## `pay_swap` -/

/-- The result of a payment is stored for the swap it was made for. -/
theorem payLocked_stores {req : PaySwapRequest} {a : SwapServer.Accepted} {label : String}
    (hinvoice : server.codec.parseInvoice req.paymentRequest = some a.invoice)
    (hhash : a.swapState.swap.pub.hash = a.invoice.paymentHash) :
    Stores sha256 server (fun _ _ => True) (server.payLocked req a label).run tr := by
  have hask : server.hashOf req.paymentRequest = some a.invoice.paymentHash := by
    rw [SwapServer.hashOf, hinvoice, Option.map_some]
  refine Sat.tryBind ⟨hask, fun db r _ hreveals => ?_⟩
  cases r with
  | error e => trivial
  | ok result =>
    cases result with
    | success preimage =>
      refine ⟨?_, fun _ _ _ _ => trivial⟩
      show sha256 preimage = a.swapState.swap.pub.hash
      rw [hhash]
      exact hreveals preimage rfl
    | failure error => exact ⟨trivial, fun _ _ _ _ => trivial⟩

theorem paySwap_stores (req : PaySwapRequest) :
    Stores sha256 server (fun _ _ => True) (server.paySwap req).run [] := by
  have hread : (server.acceptPayment req).run.OnlyCalls Call.IsHarmless :=
    SwapServer.acceptPayment_onlyCalls.mono (fun _ h => h.isHarmless)
  have haccept : Sat (Answers sha256) (fun _ _ => True)
      (fun tr => onOutcome (fun _ => True) (SwapServer.AcceptedWith server req tr))
      (server.acceptPayment req).run [] := SwapServer.acceptPayment_sat
  refine Sat.tryBind ((((haccept.performed nofun).and (stores_of_onlyCalls hread)).mono_call
    (fun _ _ h => h.2)).mono (fun tr o ho => ?_))
  cases o with
  | error e => trivial
  | ok a =>
    obtain ⟨⟨hperf, haccepted⟩, -⟩ := ho
    obtain ⟨db, db', hmem⟩ := haccepted.swap
    have hhash : a.swapState.swap.pub.hash = a.invoice.paymentHash := hperf _ hmem _ rfl
    refine Sat.tryBind (SwapServer.lockForPayment_sat (fun _ c _ hc => ?_) (fun _ _ _ => trivial)
      (fun _ _ _ _ _ _ _ => payLocked_stores haccepted.invoice hhash))
    rcases hc with rfl | ⟨attempt, rfl⟩ <;> trivial

/-! ## `refund_swap` -/

theorem refundSwap_stores (req : RefundSwapRequest) :
    Stores sha256 server (fun _ _ => True) (server.refundSwap req).run tr := by
  have hchecks : (server.checkRefund req).run.OnlyCalls Call.IsHarmless :=
    (SwapServer.checkRefund_onlyCalls req).mono (fun _ h => Call.IsRead.isHarmless (Or.inl h))
  refine stores_of_onlyCalls (Prog.OnlyCalls.tryBind hchecks (fun r => ⟨trivial, fun o => ?_⟩))
  match o with
  | .error .alreadyLocked => trivial
  | .error .swapNotFound => trivial
  | .error .general => trivial
  | .ok _ =>
    refine ⟨trivial, fun o => ?_⟩
    match o with
    | .ok false => trivial
    | .ok true => exact ⟨trivial, fun _ => trivial⟩
    | .error _ => exact ⟨trivial, fun _ => trivial⟩

/-! ## The monitors -/

/-- The attempts were recorded. -/
def SeenAttempts (tr : SwapServer.Events SwapTables) (attempts : List PaymentAttempt) : Prop :=
  ∀ a ∈ attempts, SeenAttempt tr a.paymentHash a.label

theorem SeenAttempts.mono {tr' : SwapServer.Events SwapTables} {attempts : List PaymentAttempt}
    (h : SeenAttempts tr attempts) (hsub : tr ⊆ tr') : SeenAttempts tr' attempts :=
  fun a ha => (h a ha).mono hsub

namespace HistoricalPaymentMonitor

theorem handleState_stores {a : PaymentAttempt} {state : PaymentState}
    (h : ∀ preimage, state = .success preimage → sha256 preimage = a.paymentHash) :
    Stores sha256 server (fun _ => onOutcome (fun _ => True) (fun pending => pending ⊆ [a]))
      (handleState a state).run tr := by
  have hstored (r : Except LockSwapError Unit) {tr' : SwapServer.Events SwapTables} :
      Stores sha256 server (fun _ => onOutcome (fun _ => True) (fun pending => pending ⊆ [a]))
        (do
          let _ ← orFail (I := Services Lightning) (fun _ => .general) (pure r)
          pure [] : Program MonitorError (List PaymentAttempt)).run tr' := by
    cases r with
    | error e => trivial
    | ok _ => exact List.nil_subset _
  match state, h with
  | .success preimage, h => exact ⟨h preimage rfl, fun _ r _ _ => hstored r⟩
  | .failure error, _ => exact ⟨trivial, fun _ r _ _ => hstored r⟩
  | .pending, _ => exact List.Subset.refl _

theorem checkPayment_stores {a : PaymentAttempt} (h : SeenAttempt tr a.paymentHash a.label) :
    Stores sha256 server (fun _ => onOutcome (fun _ => True) (fun pending => pending ⊆ [a]))
      (checkPayment a).run tr := by
  refine Sat.ask h (fun _ r _ hreveals => ?_)
  match r, hreveals with
  | .ok state, hreveals => exact handleState_stores (fun preimage hs => hreveals preimage (hs ▸ rfl))
  | .error .paymentNotFound, _ => exact handleState_stores nofun
  | .error .connectionFailed, _ => trivial
  | .error .invalidPreimage, _ => trivial
  | .error (.general _), _ => trivial

theorem doCheckPayments_stores {attempts : List PaymentAttempt} (h : SeenAttempts tr attempts) :
    Stores sha256 server (fun _ => onOutcome (fun _ => True) (fun pending => pending ⊆ attempts))
      (doCheckPayments attempts).run tr := by
  induction attempts generalizing tr with
  | nil => exact List.Subset.refl _
  | cons a attempts ih =>
    obtain ⟨ha, has⟩ := List.forall_mem_cons.mp h
    refine Sat.tryBind ((checkPayment_stores ha).subset.mono (fun tr' o ho => ?_))
    cases o with
    | error e => trivial
    | ok pending =>
      refine Sat.tryBind ((ih (SeenAttempts.mono has ho.1)).mono (fun tr'' o' ho' => ?_))
      cases o' with
      | error e => trivial
      | ok rest =>
        refine List.append_subset.mpr ⟨?_, ?_⟩
        · exact List.Subset.trans ho.2 (List.cons_subset_cons a (List.nil_subset _))
        · exact List.Subset.trans ho' (List.subset_cons_self ..)

theorem start_stores {n : ℕ} {attempts : List PaymentAttempt} (h : SeenAttempts tr attempts) :
    Stores sha256 server (fun _ _ => True) (start n attempts) tr := by
  induction n generalizing attempts tr with
  | zero => trivial
  | succ n ih =>
    cases attempts with
    | nil => trivial
    | cons a attempts =>
      refine Sat.bind ((doCheckPayments_stores h).subset.mono (fun tr' o ho => ?_))
      cases o with
      | error e => exact ih (h.mono ho.1)
      | ok pending => exact ih (fun b hb => (h.mono ho.1) b (ho.2 hb))

end HistoricalPaymentMonitor

open HistoricalPaymentMonitor in
theorem main_stores (passes : ℕ) :
    Stores sha256 server (fun _ _ => True) (main passes) tr := by
  have hinit : Stores sha256 server
      (fun tr' => onOutcome (fun _ => True) (SeenAttempts tr')) initializeAttempts.run tr := by
    refine Sat.tryBind ⟨trivial, fun db r db' hread => ?_⟩
    cases r with
    | error e => trivial
    | ok attempts =>
      have hseen {tr' : SwapServer.Events SwapTables}
          (hsub : tr ++ [⟨.getUnhandledPaymentAttempts, db, .ok attempts, db'⟩] ⊆ tr') :
          SeenAttempts tr' attempts := by
        intro a ha
        exact ⟨_, hsub (List.mem_append_right _ (List.mem_singleton_self _)),
          hread attempts rfl a ha⟩
      refine (doCheckPayments_stores (hseen (List.Subset.refl _))).subset.mono
        (fun tr' o ho => ?_)
      cases o with
      | error e => trivial
      | ok pending => exact fun a ha => hseen ho.1 a (ho.2 ha)
  refine Sat.bind (hinit.mono (fun tr' o ho => ⟨trivial, fun _ _ _ _ => ?_⟩))
  cases o with
  | error e => trivial
  | ok attempts => exact start_stores (SeenAttempts.mono ho (List.subset_append_left _ _))

namespace PreimageMonitor

theorem queryPreimages_stores (hashes : List PaymentHash) :
    Stores sha256 server (fun _ _ => True) (queryPreimages hashes) tr := by
  induction hashes generalizing tr with
  | nil => trivial
  | cons hash hashes ih =>
    refine Sat.bind ?_
    refine ⟨trivial, fun _ r _ hreveals => ?_⟩
    match r, hreveals with
    | .ok (some result), hreveals => exact ⟨hreveals result rfl, fun _ _ _ _ => ih⟩
    | .ok none, _ => exact ih
    | .error _, _ => exact ih

theorem doQueryPreimages_stores :
    Stores sha256 server (fun _ _ => True) doQueryPreimages.run tr := by
  refine Sat.tryBind ⟨trivial, fun _ r _ _ => ?_⟩
  cases r with
  | error e => trivial
  | ok utxos =>
    refine Sat.tryBind ⟨trivial, fun _ r _ _ => ?_⟩
    cases r with
    | error e => trivial
    | ok swaps =>
      refine ⟨trivial, fun _ order _ _ => ?_⟩
      show Sat _ _ _ (queryPreimages _ >>= Prog.ret ∘ Except.ok) _
      exact Sat.bind ((queryPreimages_stores _).mono (fun _ _ _ => trivial))

end PreimageMonitor

/-! ## The tables -/

namespace SwapTables

/-- **Every stored preimage opens its swap.** -/
def PreimagesOpen (sha256 : Preimage → PaymentHash) (db : SwapTables) : Prop :=
  ∀ s ∈ db.swaps, ∀ preimage, s.preimage = some preimage → sha256 preimage = s.swap.pub.hash

/-- Attempts stay recorded. -/
def AttemptsStay (db db' : SwapTables) : Prop :=
  ∀ hash label, db.HasAttempt hash label → db'.HasAttempt hash label

variable {db db' : SwapTables}

/-- A result is stored: its preimage has to be the right one. -/
theorem PreimagesOpen.resulted {hash : PaymentHash} {label : String} {result : PaymentResult}
    (h : db.PreimagesOpen sha256)
    (hresult : ∀ preimage, result = .success preimage → sha256 preimage = hash) :
    (SwapTables.resulted hash label result db).PreimagesOpen sha256 := by
  intro s hs preimage hpreimage
  cases result with
  | failure error => exact h s hs preimage hpreimage
  | success p =>
    obtain ⟨s₀, hs₀, rfl⟩ := List.mem_map.mp hs
    by_cases hhash : s₀.swap.pub.hash = hash
    · rw [if_pos hhash] at hpreimage ⊢
      obtain rfl := Option.some.inj hpreimage
      exact (hresult p rfl).trans hhash.symm
    · rw [if_neg hhash] at hpreimage ⊢
      exact h s₀ hs₀ preimage hpreimage

/-- **What a transaction does** to preimages and attempts. -/
theorem storesPreimages_of_transaction {N : Interface} {c : Call N}
    (h : World.transaction c db = .ok db') (hstores : ∀ hash label preimage,
      c = .unlockAddPaymentResult hash label (.success preimage) → sha256 preimage = hash) :
    (db.PreimagesOpen sha256 → db'.PreimagesOpen sha256) ∧ db.AttemptsStay db' := by
  cases c with
  | lockAddPaymentAttempt a =>
    obtain ⟨-, -, ns, -, rfl⟩ := SwapTables.lockAddPaymentAttempt_eq_ok_iff.mp h
    exact ⟨fun hopen => hopen, fun _ _ ha => SwapTables.hasAttempt_attempted.mpr (Or.inl ha)⟩
  | lockSwapRefund hash refundId =>
    obtain ⟨-, -, rfl⟩ := SwapTables.lockSwapRefund_eq_ok_iff.mp h
    exact ⟨fun hopen => hopen, fun _ _ ha => ha⟩
  | unlockAddPaymentResult hash label result =>
    obtain ⟨-, rfl⟩ := SwapTables.unlockAddPaymentResult_eq_ok_iff.mp h
    exact ⟨fun hopen => hopen.resulted (fun p hp => hstores hash label p (hp ▸ rfl)),
      fun _ _ ha => ha.resulted⟩
  | unlockSwapRefund hash refundId =>
    obtain ⟨-, rfl⟩ := SwapTables.unlockSwapRefund_eq_ok_iff.mp h
    exact ⟨fun hopen => hopen, fun _ _ ha => ha⟩
  | _ =>
    obtain rfl := Except.ok.inj h
    exact ⟨fun hopen => hopen, fun _ _ ha => ha⟩

end SwapTables

/-! ## The deployment -/

section Deployment

variable {N : Interface} {M : NodeModel N}

/-- What a method of the client may be asked for. -/
def Asked (server : SwapServer) (c : LightningCall) (db : SwapTables) : Prop :=
  match c with
  | .getPaymentState hash label => db.HasAttempt hash label
  | .pay req => server.hashOf req.bolt11 = some req.paymentHash
  | _ => True

variable (sha256) in
/-- **The discipline of preimages**, given what holds of the node and how it
moves on. -/
@[reducible] def preimages (client : Client N) (server : SwapServer) (exclusive : Bool)
    (permits : (swapd M client server exclusive).Condition) (nodeInv : M.State → Prop)
    (nodeStays : M.State → M.State → Prop) : Discipline (swapd M client server exclusive) where
  permits := permits
  inv := fun w => w.db.PreimagesOpen sha256 ∧ nodeInv w.node
  rely := fun _ _ w w' => w.db.AttemptsStay w'.db ∧ nodeStays w.node w'.node
  guar := fun _ _ _ w w' => w.db.AttemptsStay w'.db ∧ nodeStays w.node w'.node
  later := fun _ _ => True
  post := fun _ _ _ _ => True

/-- **What holds of a node** from its start on, and how it moves on. -/
structure NodeKeeps (M : NodeModel N) (nodeInv : M.State → Prop)
    (nodeStays : M.State → M.State → Prop) : Prop where
  refl : ∀ s, nodeStays s s
  trans : ∀ {s₁ s₂ s₃}, nodeStays s₁ s₂ → nodeStays s₂ s₃ → nodeStays s₁ s₃
  serve : ∀ {i proc c ch s r s'}, nodeInv s → M.serve i proc c ch s = some (r, s') →
    nodeInv s' ∧ nodeStays s s'
  act : ∀ {a s s'}, nodeInv s → M.act a s = some s' → nodeInv s' ∧ nodeStays s s'
  disconnect : ∀ {proc s}, nodeInv s → nodeInv (M.disconnect proc s) ∧ nodeStays s (M.disconnect proc s)

variable (sha256) in
/-- **A client that reveals the right preimages.** -/
structure PreimageClient (client : Client N) (server : SwapServer) (exclusive : Bool)
    (permits : (swapd M client server exclusive).Condition) (nodeInv : M.State → Prop)
    (nodeStays : M.State → M.State → Prop) : Prop extends NodeKeeps M nodeInv nodeStays where
  /-- What each method reveals is a preimage of the hash it was asked about. -/
  reveals : ∀ i t c (w : World M), w.db.PreimagesOpen sha256 ∧ nodeInv w.node →
    Asked server c w.db →
      (preimages sha256 client server exclusive permits nodeInv nodeStays).Safe i t
        (fun r _ => Reveals sha256 c r) (Client.lift (client c)) w

variable {client : Client N} {exclusive : Bool}
  {permits : (swapd M client server exclusive).Condition} {nodeInv : M.State → Prop}
  {nodeStays : M.State → M.State → Prop}

namespace NodeKeeps

variable (h : NodeKeeps M nodeInv nodeStays) {α : Type} {i : ℕ} {t : Task} {w : World M}

include h in
theorem stable : (preimages sha256 client server exclusive permits nodeInv nodeStays).Stable where
  rely_refl := fun _ _ w => ⟨fun _ _ => id, h.refl w.node⟩
  rely_trans := fun h₁ h₂ => ⟨fun _ _ ha => h₂.1 _ _ (h₁.1 _ _ ha), h.trans h₁.2 h₂.2⟩

include h in
/-- **A call of the client**, made while something holds that others leave alone. -/
theorem safe_node {P : World M → Prop} {c : N.Call} {k : N.Reply c → Prog (Services N) α}
    {Q : α → World M → Prop} (hP : P w)
    (hstable : ∀ w₁ w₂ : World M, P w₁ → w₁.db.AttemptsStay w₂.db → nodeStays w₁.node w₂.node → P w₂)
    (hk : ∀ (w' : World M) (choice : M.Choice) (r : N.Reply c) (n : M.State), P w' →
      w'.db.PreimagesOpen sha256 ∧ nodeInv w'.node → permits i t (.node c) w' →
      M.serve i t.proc c choice w'.node = some (r, n) →
      P { w' with node := n } →
      (preimages sha256 client server exclusive permits nodeInv nodeStays).Safe i t Q (k r)
        { w' with node := n }) :
    (preimages sha256 client server exclusive permits nodeInv nodeStays).Safe i t Q
      (.call (.node c) k) w := by
  refine Discipline.Safe.call_of_stable hP
    (fun w₁ w₂ hw₁ hrely _ => hstable w₁ w₂ hw₁ hrely.1 hrely.2) (fun w' hP' hw' hp ch r w'' hs => ?_)
  cases ch with
  | node choice =>
    obtain ⟨⟨r', n⟩, hserve, heq⟩ := Option.map_eq_some_iff.mp hs
    obtain ⟨rfl, rfl⟩ := Prod.mk.inj heq
    obtain ⟨hinv, hstays⟩ := h.serve hw'.2 hserve
    exact ⟨⟨hw'.1, hinv⟩, ⟨fun _ _ => id, hstays⟩,
      hk w' choice r' n hP' hw' hp hserve (hstable w' _ hP' (fun _ _ => id) hstays)⟩
  | _ => cases hs

include h in
/-- **A program of the client** that is as required whatever the node, which meets
its invariant, answers. -/
theorem safe_lift (perf : (c : N.Call) → Unit → N.Reply c → Unit → Prop) {R : α → Prop}
    {p : Prog N α} {tr : List (Event N Unit)}
    (hperf : ∀ {i proc c ch s r s'}, nodeInv s → M.serve i proc c ch s = some (r, s') → perf c () r ())
    (hp : Sat perf (fun _ _ => True) (fun _ a => R a) p tr) :
    (preimages sha256 client server exclusive permits nodeInv nodeStays).Safe i t
      (fun a _ => R a) (Client.lift p) w := by
  induction p generalizing tr w with
  | ret a => exact fun _ _ _ => hp
  | call c k ih =>
    exact h.safe_node (P := fun _ => True) trivial (fun _ _ _ _ _ => trivial)
      (fun w' choice r n _ hw' _ hserve _ => ih r (hp.2 () r () (hperf hw'.2 hserve)))

end NodeKeeps

namespace PreimageClient

variable (h : PreimageClient sha256 client server exclusive permits nodeInv nodeStays)
  {α : Type} {i : ℕ} {t : Task} {w : World M}

include h in
/-- A call, of a handler or of the client. -/
theorem safe_call {c : Call N} {k : c.Reply → Prog (Services N) α} {Q : α → World M → Prop}
    (hstores : ∀ hash label preimage,
      c = .unlockAddPaymentResult hash label (.success preimage) → sha256 preimage = hash)
    (hk : ∀ w₁ r w₂, World.Performs M i t c w₁ r w₂ → w.db.AttemptsStay w₁.db →
      w₁.db.AttemptsStay w₂.db → w₂.db.PreimagesOpen sha256 ∧ nodeInv w₂.node →
      (preimages sha256 client server exclusive permits nodeInv nodeStays).Safe i t Q (k r) w₂) :
    (preimages sha256 client server exclusive permits nodeInv nodeStays).Safe i t Q
      (.call c k) w := by
  intro w₁ hrely hw₁ _ ch r w₂ hserve
  have hperf : World.Performs M i t c w₁ r w₂ := ⟨ch, hserve⟩
  have hdb : (w₁.db.PreimagesOpen sha256 → w₂.db.PreimagesOpen sha256) ∧
      w₁.db.AttemptsStay w₂.db := by
    rcases hperf.db_eq_or with heq | htransaction
    · rw [heq]
      exact ⟨id, fun _ _ => id⟩
    · exact SwapTables.storesPreimages_of_transaction htransaction hstores
  have hnode : nodeInv w₂.node ∧ nodeStays w₁.node w₂.node := by
    rcases hperf.node_eq_or with heq | ⟨c', r', choice, hnode⟩
    · rw [heq]
      exact ⟨hw₁.2, h.refl _⟩
    · exact h.serve hw₁.2 hnode
  have hw₂ : w₂.db.PreimagesOpen sha256 ∧ nodeInv w₂.node := ⟨hdb.1 hw₁.1, hnode.1⟩
  exact ⟨hw₂, ⟨hdb.2, hnode.2⟩, hk w₁ r w₂ hperf hrely.1 hdb.2 hw₂⟩

include h in
/-- **A program that stores what it is told**, with the client linked in. -/
theorem safe_linked {p : Prog (Services Lightning) α} {tr : SwapServer.Events SwapTables}
    (hp : Stores sha256 server (fun _ _ => True) p tr)
    (htr : ∀ e ∈ tr, e.before.AttemptsStay w.db)
    (hw : w.db.PreimagesOpen sha256 ∧ nodeInv w.node) :
    (preimages sha256 client server exclusive permits nodeInv nodeStays).Safe i t
      (fun _ _ => True) (p.interpret (J := Services N) client.link) w := by
  induction p generalizing tr w with
  | ret a => exact fun _ _ _ => trivial
  | call c k ih =>
    obtain ⟨hasks, hk⟩ := hp
    -- what was seen so far is still there, and so is what the call saw
    have hseen {c : Call Lightning} {r : c.Reply} {w₁ w₂ : World M} {db : SwapTables}
        (h₁ : w.db.AttemptsStay w₁.db) (h₂ : w₁.db.AttemptsStay w₂.db) :
        ∀ e ∈ tr ++ [⟨c, w₁.db, r, db⟩], e.before.AttemptsStay w₂.db := by
      intro e he hash label ha
      rcases List.mem_append.mp he with he | he
      · exact h₂ _ _ (h₁ _ _ (htr e he _ _ ha))
      · obtain rfl := List.mem_singleton.mp he
        exact h₂ _ _ ha
    cases c with
    | node c =>
      have hasked : Asked server c w.db := by
        cases c with
        | getPaymentState hash label =>
          obtain ⟨e, he, hattempt⟩ := hasks
          exact htr e he hash label hattempt
        | pay req => exact hasks
        | _ => trivial
      refine Discipline.Safe.bind h.stable (((h.reveals i t c w hw hasked).frame
        (P := fun w' : World M => w.db.AttemptsStay w'.db) (fun _ _ => id) ?_ ?_).mono ?_) hw
      · exact fun _ _ hstay hrely _ _ _ ha => hrely.1 _ _ (hstay _ _ ha)
      · exact fun _ _ _ hstay _ hguar _ _ ha => hguar.1 _ _ (hstay _ _ ha)
      · intro r w' hw' hr
        exact ih r (hk w'.db r w'.db hr.1) (hseen hr.2 (fun _ _ => id)) hw'
    | getSwapByHash hash =>
      refine h.safe_call nofun (fun w₁ r w₂ hperf h₁ h₂ hw₂ =>
        ih r (hk w₁.db r w₂.db (fun s hs => ?_)) (hseen h₁ h₂) hw₂)
      exact (SwapTables.getSwapByHash_eq_ok (hperf.getSwapByHash.2 s hs)).2
    | getUnhandledPaymentAttempts =>
      refine h.safe_call nofun (fun w₁ r w₂ hperf h₁ h₂ hw₂ =>
        ih r (hk w₁.db r w₂.db (fun attempts hr a ha => ?_)) (hseen h₁ h₂) hw₂)
      subst hr
      rw [hperf.getUnhandledPaymentAttempts] at ha
      obtain ⟨row, hrow, -, hhash, hlabel⟩ := SwapTables.mem_getUnhandledPaymentAttempts ha
      exact ⟨row, hrow, hhash, hlabel⟩
    | unlockAddPaymentResult hash label result =>
      refine h.safe_call (fun hash' label' preimage heq => ?_) (fun w₁ r w₂ _ h₁ h₂ hw₂ =>
        ih r (hk w₁.db r w₂.db trivial) (hseen h₁ h₂) hw₂)
      cases heq
      exact hasks
    | _ =>
      exact h.safe_call nofun (fun w₁ r w₂ _ h₁ h₂ hw₂ =>
        ih r (hk w₁.db r w₂.db trivial) (hseen h₁ h₂) hw₂)

include h in
/-- A job, with the client linked in. -/
theorem safe_job {α : Type} {f : α → Outcome} {p : Prog (Services Lightning) α}
    (hp : Stores sha256 server (fun _ _ => True) p [])
    (hw : w.db.PreimagesOpen sha256 ∧ nodeInv w.node) :
    (preimages sha256 client server exclusive permits nodeInv nodeStays).Safe i t
      (fun _ _ => True) (linked client f p) w :=
  Discipline.Safe.bind h.stable
    ((h.safe_linked hp (fun _ he => nomatch he) hw).mono (fun _ _ _ _ _ _ _ => trivial)) hw

include h in
/-- **The discipline of preimages is sound.** -/
theorem sound : (preimages sha256 client server exclusive permits nodeInv nodeStays).Sound where
  toStable := h.stable
  later_refl := fun _ => trivial
  later_trans := fun _ _ => trivial
  guar_rely := fun _ _ _ hguar => hguar
  guar_later := fun _ _ _ => trivial
  drift := fun {m w w'} hw hmove => by
    cases m with
    | env env =>
      obtain rfl := Option.some.inj hmove
      exact ⟨hw, fun _ _ => ⟨fun _ _ => id, h.refl _⟩, trivial⟩
    | node act =>
      obtain ⟨n, hact, rfl⟩ := Option.map_eq_some_iff.mp hmove
      obtain ⟨hinv, hstays⟩ := h.act hw.2 hact
      exact ⟨⟨hw.1, hinv⟩, fun _ _ => ⟨fun _ _ => id, hstays⟩, trivial⟩
    | addSwap swap =>
      simp only [World.move] at hmove
      split at hmove
      next => cases hmove
      next =>
        obtain rfl := Option.some.inj hmove
        refine ⟨⟨fun s hs => ?_, hw.2⟩, fun _ _ => ⟨fun _ _ => id, h.refl _⟩, trivial⟩
        rcases List.mem_append.mp hs with hs | hs
        · exact hw.1 s hs
        · rw [List.mem_singleton.mp hs]
          exact nofun
  spawn := fun {r n w t p w'} hw hspawn => by
    simp only at hspawn
    split at hspawn
    next hadmits =>
      cases hspawn
      have hsame : (w.spawned r).db = w.db ∧ (w.spawned r).node = w.node := by
        cases r <;> exact ⟨rfl, rfl⟩
      have hw' : (w.spawned r).db.PreimagesOpen sha256 ∧ nodeInv (w.spawned r).node := by
        rw [hsame.1, hsame.2]
        exact hw
      refine ⟨hw', fun _ _ _ => ?_, trivial,
        Discipline.Safe.mono (Q := fun _ _ => True) ?_ (fun _ _ _ _ _ _ _ => trivial)⟩
      · show w.db.AttemptsStay (w.spawned r).db ∧ nodeStays w.node (w.spawned r).node
        rw [hsame.1, hsame.2]
        exact ⟨fun _ _ => id, h.refl _⟩
      · cases r with
        | start passes => exact h.safe_job (main_stores passes) hw'
        | pay proc req => exact h.safe_job (paySwap_stores req) hw'
        | refund proc req => exact h.safe_job (refundSwap_stores req) hw'
        | preimage proc => exact h.safe_job PreimageMonitor.doQueryPreimages_stores hw'
    next => cases hspawn
  halt := fun {s w w'} hw hhalt => by
    obtain rfl := Option.some.inj hhalt
    cases s with
    | drop i => exact ⟨hw, fun _ _ _ => ⟨fun _ _ => id, h.refl _⟩, trivial⟩
    | crash proc =>
      obtain ⟨hinv, hstays⟩ : nodeInv (M.disconnect proc w.node) ∧
          nodeStays w.node (M.disconnect proc w.node) := h.disconnect hw.2
      exact ⟨⟨hw.1, hinv⟩, fun _ _ _ => ⟨fun _ _ => id, hstays⟩, trivial⟩

include h in
/-- **Every stored preimage opens its swap**, in every run of the deployment that
meets the condition. -/
theorem storedPreimages {S : (swapd M client server exclusive).Config} {nodeInit : M.State → Prop}
    (hS : Machine.ReachableIf permits (IsInitial M client server exclusive nodeInit) S)
    (hinit : ∀ s, nodeInit s → nodeInv s) : S.state.db.PreimagesOpen sha256 := by
  refine (h.sound.reachable (fun S₀ h₀ => ⟨⟨fun s hs => ?_, hinit _ h₀.node⟩, fun i T hT => ?_⟩)
    hS).1.1
  · rw [h₀.unpaid s hs]
    exact nofun
  · rw [h₀.threads] at hT
    cases hT

end PreimageClient

end Deployment

namespace Sample

/-- A hash function: the preimage of seven opens the swap. -/
def opening (preimage : Preimage) : PaymentHash :=
  if preimage = .ofByte 7 then .ofByte 1 else .ofByte 0

end Sample

end Swapd
