import Swapd.Cln
import Swapd.StoredPreimages

/-!
# The preimages of Core Lightning

The node reveals a preimage together with the payment it belongs to, and what it
reveals opens that payment (`ClnCall.Truthful`). The client asks by hash in every
one of its methods, so what it reveals opens the swap it is stored for, in every
run (`clnNode_storedPreimages`).
-/

namespace Swapd

open Prog (Event Sat onOutcome)

variable {sha256 : Preimage → PaymentHash}

variable (sha256) in
/-- Some bytes open a hash, if they are a preimage at all. -/
def Opens (hash : PaymentHash) (bytes : Bytes) : Prop :=
  ∀ preimage ∈ Bytes32.ofBytes bytes, sha256 preimage = hash

instance (hash : PaymentHash) (bytes : Bytes) : Decidable (Opens sha256 hash bytes) :=
  inferInstanceAs (Decidable (∀ preimage ∈ Bytes32.ofBytes bytes, sha256 preimage = hash))

/-! ## What the client is told -/

section Cln

variable (sha256) (hashOf : String → Option PaymentHash)

/-- **A truthful answer**: the preimages of payments of a hash open it. The node
reads a payment request with `hashOf`. -/
def ClnCall.Truthful : (c : ClnCall) → c.Reply → Prop
  | .listPays hash, r => ∀ pays ∈ r.toOption, ∀ pay ∈ pays, ∀ bytes ∈ pay.preimage,
      Opens sha256 hash bytes
  | .listSendPays hash _, r => ∀ payments ∈ r.toOption, ∀ payment ∈ payments,
      ∀ bytes ∈ payment.paymentPreimage, Opens sha256 hash bytes
  | .pay request, r => ∀ resp ∈ r.toOption, resp.status = .complete →
      ∀ hash ∈ hashOf request.bolt11, Opens sha256 hash resp.paymentPreimage
  | .waitSendPay hash _ _, r => ∀ resp ∈ r.toOption, ∀ bytes ∈ resp.paymentPreimage,
      Opens sha256 hash bytes
  | _, _ => True

instance (c : ClnCall) (r : c.Reply) : Decidable (c.Truthful sha256 hashOf r) := by
  cases c <;> unfold ClnCall.Truthful <;> infer_instance

/-- **A node of Core Lightning** that says nothing untrue of preimages. What it
answers is not decided by anything else. -/
@[reducible] def clnNode : NodeModel Cln where
  State := Unit
  Choice := (c : ClnCall) × c.Reply
  Act := Empty
  serve := fun _ _ c ch s =>
    if h : ch.1 = c then
      if ch.1.Truthful sha256 hashOf ch.2 then some (h ▸ ch.2, s) else none
    else none
  act := fun _ _ => none
  disconnect := fun _ s => s

end Cln

namespace Cln

variable {hashOf : String → Option PaymentHash} {hash : PaymentHash} {label : String}
  {tr : List (Event Cln Unit)}

variable (sha256) (hashOf) in
/-- Programs of the client, told the truth. -/
abbrev Tells {α : Type} (P : α → Prop) (p : Prog Cln α) (tr : List (Event Cln Unit)) : Prop :=
  Sat (fun (c : ClnCall) _ r _ => c.Truthful sha256 hashOf r) (fun _ _ => True) (fun _ a => P a) p tr

/-- A preimage is decoded. -/
theorem toPreimage_tells {bytes : Bytes} (h : Opens sha256 hash bytes) :
    Tells sha256 hashOf (onOutcome (fun _ => True) (fun preimage => sha256 preimage = hash))
      (toPreimage bytes).run tr := by
  unfold toPreimage
  cases hbytes : Bytes32.ofBytes bytes with
  | none => trivial
  | some preimage => exact h preimage hbytes

/-- A preimage is decoded, and returned. -/
theorem toPreimage_bind_tells {α : Type} {P : Except LightningError α → Prop} {bytes : Bytes}
    {f : Preimage → α} (h : Opens sha256 hash bytes) (herror : ∀ e, P (.error e))
    (hok : ∀ preimage, sha256 preimage = hash → P (.ok (f preimage))) :
    Tells sha256 hashOf P (do return f (← toPreimage bytes) : ClnProgram α).run tr := by
  refine Sat.tryBind ((toPreimage_tells h).mono (fun _ o ho => ?_))
  cases o with
  | error e => exact herror e
  | ok preimage => exact hok preimage ho

/-- The client is connected, or there is an error. -/
theorem getClient_bind_tells {α : Type} {P : Except LightningError α → Prop} {p : ClnProgram α}
    (herror : ∀ e, P (.error e)) (hp : ∀ tr, Tells sha256 hashOf P p.run tr) :
    Tells sha256 hashOf P (getClient >>= fun _ => p).run tr := by
  refine Sat.tryBind ⟨trivial, fun _ r _ _ => ?_⟩
  cases r with
  | error e => exact herror e
  | ok _ => exact hp _

/-- The pays of a hash are listed, or there is an error. -/
theorem listPays_bind_tells {α : Type} {P : Except LightningError α → Prop}
    {f : List ListpaysPays → ClnProgram α} (herror : ∀ e, P (.error e))
    (hf : ∀ pays, (∀ pay ∈ pays, ∀ bytes ∈ pay.preimage, Opens sha256 hash bytes) →
      ∀ tr, Tells sha256 hashOf P (f pays).run tr) :
    Tells sha256 hashOf P
      (do f (← orDisconnected (← Prog.ask (I := Cln) (.listPays hash))) : ClnProgram α).run tr := by
  refine Sat.ask trivial (fun _ r _ htrue => ?_)
  cases r with
  | error e => exact herror _
  | ok pays => exact hf pays (htrue pays rfl) _

/-- An answer that is not an error. -/
theorem orDisconnected_bind_tells {α β : Type} {P : Except LightningError β → Prop}
    {r : Except Status α} {f : α → ClnProgram β} (herror : ∀ e, P (.error e))
    (hf : ∀ a, r = .ok a → Tells sha256 hashOf P (f a).run tr) :
    Tells sha256 hashOf P (orDisconnected r >>= f).run tr := by
  cases r with
  | error e => exact herror _
  | ok a => exact hf a rfl

theorem getPaymentState_tells : Tells sha256 hashOf
    (Reveals sha256 (.getPaymentState hash label)) (getPaymentState hash label).run tr := by
  refine getClient_bind_tells (fun _ _ => nofun) (fun _ => ?_)
  refine listPays_bind_tells (fun _ _ => nofun) (fun pays hpays _ => ?_)
  cases hfind : pays.find? (fun pay => pay.label.getD "" = label) with
  | none => exact fun _ => nofun
  | some payment =>
    have hpayment := hpays payment (List.mem_of_find?_eq_some hfind)
    dsimp only
    split
    · split
      · exact ⟨trivial, fun _ r => r.elim⟩
      next preimage hpreimage =>
        refine toPreimage_bind_tells (hpayment preimage hpreimage) (fun _ _ => nofun) ?_
        rintro p hp _ ⟨⟩
        exact hp
    · exact fun _ => nofun
    · exact fun _ => nofun

theorem getPreimage_tells : Tells sha256 hashOf
    (Reveals sha256 (.getPreimage hash)) (getPreimage hash).run tr := by
  refine getClient_bind_tells (fun _ _ => nofun) (fun _ => ?_)
  refine listPays_bind_tells (fun _ _ => nofun) (fun pays hpays _ => ?_)
  cases hfind : pays.findSome? (fun pay => pay.preimage.map (fun preimage => (pay, preimage))) with
  | none => exact fun _ => nofun
  | some found =>
    obtain ⟨pay, hmem, hpay⟩ := List.exists_of_findSome?_eq_some hfind
    obtain ⟨bytes, hbytes, rfl⟩ := Option.map_eq_some_iff.mp hpay
    refine toPreimage_bind_tells (hpays pay hmem bytes hbytes) (fun _ _ => nofun) ?_
    rintro p hp _ ⟨⟩
    exact hp

/-- What `wait_payment` returns: preimages that open the hash. -/
def Result (sha256 : Preimage → PaymentHash) (hash : PaymentHash) (result : PaymentResult) : Prop :=
  ∀ preimage, result = .success preimage → sha256 preimage = hash

theorem collectParts_tells (payments : List ListsendpaysPayments) : Tells sha256 hashOf
    (onOutcome (fun _ => True) (fun result => ∀ r ∈ result, Result sha256 hash r))
      (collectParts hash payments).run tr := by
  induction payments generalizing tr with
  | nil => exact fun _ => nofun
  | cons payment payments ih =>
    refine Sat.ask trivial (fun _ r _ htrue => ?_)
    cases r with
    | error status =>
      dsimp only
      split
      · split
        · exact ih
        · trivial
      · trivial
    | ok resp =>
      obtain ⟨_ | preimage⟩ := resp
      · exact ih
      · refine toPreimage_bind_tells (htrue _ rfl preimage rfl) (fun _ => trivial) ?_
        rintro p hp _ ⟨⟩ _ ⟨⟩
        exact hp

/-- Parts that are listed, with preimages that open the hash. -/
def ListedParts (sha256 : Preimage → PaymentHash) (hash : PaymentHash)
    (r : Except Status (List ListsendpaysPayments)) : Prop :=
  ∀ payments ∈ r.toOption, ∀ payment ∈ payments, ∀ bytes ∈ payment.paymentPreimage,
    Opens sha256 hash bytes

theorem listParts_tells : Tells sha256 hashOf
    (fun r => ListedParts sha256 hash r.1 ∧ ListedParts sha256 hash r.2) (listParts hash) tr := by
  refine ⟨trivial, fun _ first _ _ => ?_⟩
  cases first with
  | true => exact ⟨trivial, fun _ _ _ h₁ => ⟨trivial, fun _ _ _ h₂ => ⟨h₁, h₂⟩⟩⟩
  | false => exact ⟨trivial, fun _ _ _ h₁ => ⟨trivial, fun _ _ _ h₂ => ⟨h₂, h₁⟩⟩⟩

theorem waitPayment_tells : Tells sha256 hashOf
    (onOutcome (fun _ => True) (fun result => ∀ r ∈ result, Result sha256 hash r))
      (waitPayment hash).run tr := by
  refine Sat.tryBind (Sat.bind (listParts_tells.mono (fun _ parts hparts => ?_)))
  show Tells _ _ _ (ExceptT.run (orDisconnected parts.2 >>= _)) _
  refine orDisconnected_bind_tells (fun _ => trivial) (fun completed hcompleted => ?_)
  refine orDisconnected_bind_tells (fun _ => trivial) (fun pending _ => ?_)
  dsimp only
  split
  next preimage hfind =>
    obtain ⟨payment, hmem, hpayment⟩ := List.exists_of_findSome?_eq_some hfind
    have hopens := hparts.2 completed (hcompleted ▸ rfl) payment hmem preimage hpayment
    refine toPreimage_bind_tells hopens (fun _ => trivial) ?_
    rintro p hp _ ⟨⟩ _ ⟨⟩
    exact hp
  · exact Sat.ask trivial (fun _ _ _ _ => collectParts_tells _)

theorem waitForResult_tells : Tells sha256 hashOf
    (onOutcome (fun _ => True) (Result sha256 hash)) (waitForResult hash).run tr := by
  refine Sat.tryBind (waitPayment_tells.mono (fun _ o ho => ?_))
  cases o with
  | error e => trivial
  | ok result =>
    cases result with
    | none => exact fun _ => nofun
    | some result => exact ho result rfl

theorem pay_tells {request : PaymentRequest} (h : hashOf request.bolt11 = some request.paymentHash) :
    Tells sha256 hashOf (onOutcome (fun _ => True) (Result sha256 request.paymentHash))
      (pay request).run tr := by
  refine getClient_bind_tells (fun _ => trivial) (fun _ => ?_)
  refine Sat.ask trivial (fun _ r _ htrue => ?_)
  cases r with
  | error e => exact waitForResult_tells
  | ok resp =>
    dsimp only
    split
    next hstatus =>
      refine toPreimage_bind_tells (htrue resp rfl hstatus _ h) (fun _ => trivial) ?_
      rintro p hp _ ⟨⟩
      exact hp
    · exact waitForResult_tells
    · split
      · exact waitForResult_tells
      · exact fun _ => nofun

end Cln

section ClnDeployment

variable {server : SwapServer} {exclusive : Bool} {hashOf : String → Option PaymentHash}

/-- A node without a state keeps what there is to keep. -/
theorem clnNode_keeps :
    NodeKeeps (clnNode sha256 hashOf) (fun _ => True) (fun _ _ => True) where
  refl := fun _ => trivial
  trans := fun _ _ => trivial
  serve := fun _ _ => ⟨trivial, trivial⟩
  act := fun _ _ => ⟨trivial, trivial⟩
  disconnect := fun _ => ⟨trivial, trivial⟩

theorem clnNode_truthful {i proc : ℕ} {c : ClnCall} {ch : (c : ClnCall) × c.Reply} {s s' : Unit}
    {r : c.Reply} (h : (clnNode sha256 hashOf).serve i proc c ch s = some (r, s')) :
    c.Truthful sha256 hashOf r := by
  unfold clnNode at h
  dsimp only at h
  split at h
  next heq =>
    subst heq
    split at h
    next htrue =>
      cases h
      exact htrue
    next => cases h
  next => cases h

/-- **The client of Core Lightning reveals the right preimages.** -/
theorem clnClient_preimageClient :
    PreimageClient (M := clnNode sha256 server.hashOf) sha256 clnClient server exclusive
      (fun _ _ _ _ => True) (fun _ => True) (fun _ _ => True) where
  toNodeKeeps := clnNode_keeps
  reveals := fun i t c w _ hasked => by
    have htells : Cln.Tells sha256 server.hashOf (Reveals sha256 c) (clnClient c) [] := by
      cases c with
      | getPaymentState hash label => exact Cln.getPaymentState_tells
      | getPreimage hash => exact Cln.getPreimage_tells
      | hasPendingOrCompletePayment hash =>
        exact Sat.of_onlyCalls (Prog.OnlyCalls.of_forall (fun _ => trivial))
          (Prog.Returns.of_forall (P := fun _ => True) (fun _ => trivial))
          (fun _ _ _ _ => trivial) (fun _ _ _ _ => trivial)
      | pay request =>
        refine (Cln.pay_tells hasked).mono (fun _ o ho preimage hsuccess => ?_)
        subst hsuccess
        exact ho preimage rfl
    exact clnNode_keeps.safe_lift _ (fun _ hserve => clnNode_truthful hserve) htells

/-- **With Core Lightning, every stored preimage opens its swap**, in every run. -/
theorem clnNode_storedPreimages
    {S : (swapd (clnNode sha256 server.hashOf) clnClient server exclusive).Config}
    (hS : Machine.Reachable (IsInitial (clnNode sha256 server.hashOf) clnClient server exclusive
      (fun _ => True)) S) : S.state.db.PreimagesOpen sha256 :=
  clnClient_preimageClient.storedPreimages hS (fun _ _ => trivial)

end ClnDeployment

namespace Sample

/-- The deployment on a node of Core Lightning before anything has happened. -/
def clnStart : (swapd (clnNode opening server.hashOf) clnClient server true).Config :=
  ⟨world (clnNode opening server.hashOf) (), []⟩

theorem clnStart_initial :
    IsInitial (clnNode opening server.hashOf) clnClient server true (fun _ => True) clnStart where
  threads := rfl
  node := trivial
  spawned := rfl
  up := rfl
  serving := rfl
  live := rfl
  attempts := rfl
  refunds := rfl
  checked := rfl
  paymentAttempts := rfl
  swapLocks := rfl
  unpaid := by simp [clnStart, world, tables]

/-- The request that is sent to the node. -/
def clnRequest : PayRequest :=
  ⟨paymentLabel swap.pub.hash 1, payRequest.paymentRequest, 505000, 120, 206⟩

/-- A process starts and pays the swap, with its preimage in the answer. -/
def clnRun : List (swapd (clnNode opening server.hashOf) clnClient server true).Action :=
  [.spawn (.start 1), .run 0 .ok, .run 0 .ok, .spawn (.pay 0 payRequest)] ++
    List.replicate 11 (.run 1 .ok) ++
    [.run 1 (.node ⟨.getClient, .ok ()⟩),
      .run 1 (.node ⟨.pay clnRequest, .ok ⟨(Bytes32.ofByte 7).bytes, .complete, none⟩⟩),
      .run 1 .ok]

/-- Where that leads. -/
def clnPaid : (swapd (clnNode opening server.hashOf) clnClient server true).Config :=
  Machine.after (fun _ _ _ _ => True) clnStart clnRun

end Sample

open Sample in
set_option maxRecDepth 4000 in
theorem clnNode_storedPreimages_sample :
    clnPaid.state.db.swaps = [⟨swap, some (.ofByte 7)⟩] ∧
      clnPaid.state.db.PreimagesOpen opening :=
  ⟨by decide, clnNode_storedPreimages
    ⟨clnStart, clnStart_initial, Machine.reflTransGen_after _ _⟩⟩

end Swapd
