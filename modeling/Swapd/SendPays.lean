import Swapd.Cln

/-!
# Parts of a payment, while they are listed

The client asks for the complete and for the pending parts of a payment in two
queries, and the parts move on in between. A part that is pending when it is
asked for the complete ones and complete when it is asked for the pending ones
is in neither answer, and no other part is missed.

Both methods that list parts are wrong in exactly this case:
`hasPendingOrCompletePayment_notices_iff` and `waitPayment_none_iff`.
-/

namespace Swapd

/-- The status of a part. -/
inductive PartStatus where
  | pending
  | complete (preimage : Bytes)
  | failed
deriving DecidableEq

/-- A part of a payment. -/
structure SendPay where
  paymentHash : PaymentHash
  groupid : UInt64
  partid : Option UInt64
  status : PartStatus
deriving DecidableEq

namespace SendPay

/-- The preimage of a part. -/
def preimage (p : SendPay) : Option Bytes :=
  match p.status with
  | .complete preimage => some preimage
  | _ => none

/-- Whether a part is listed under a status. -/
def HasStatus (p : SendPay) : ListStatus → Prop
  | .pending => p.status = .pending
  | .failed => p.status = .failed
  | .complete => p.preimage.isSome

instance (p : SendPay) (status : ListStatus) : Decidable (p.HasStatus status) := by
  cases status <;> unfold HasStatus <;> infer_instance

/-- A part, as it is listed. -/
def listed (p : SendPay) : ListsendpaysPayments := ⟨p.groupid, p.partid, p.preimage⟩

/-- **A part moves on**: if it is pending, to any status. -/
structure MovesTo (p p' : SendPay) : Prop where
  paymentHash : p'.paymentHash = p.paymentHash
  groupid : p'.groupid = p.groupid
  partid : p'.partid = p.partid
  status : p'.status = p.status ∨ p.status = .pending

theorem MovesTo.refl (p : SendPay) : p.MovesTo p := ⟨rfl, rfl, rfl, Or.inl rfl⟩

theorem MovesTo.trans {p p' p'' : SendPay} (h : p.MovesTo p') (h' : p'.MovesTo p'') :
    p.MovesTo p'' where
  paymentHash := h'.paymentHash.trans h.paymentHash
  groupid := h'.groupid.trans h.groupid
  partid := h'.partid.trans h.partid
  status := by
    rcases h.status with heq | hpending
    · rw [← heq]
      exact h'.status
    · exact Or.inr hpending

/-- A complete part stays as it is. -/
theorem MovesTo.preimage {p p' : SendPay} (h : p.MovesTo p') (hp : p.preimage.isSome) :
    p'.preimage = p.preimage := by
  rcases h.status with heq | hpending
  · rw [SendPay.preimage, SendPay.preimage, heq]
  · rw [SendPay.preimage, hpending] at hp
    cases hp

/-- A part that completes was complete before, or pending. -/
theorem MovesTo.complete_or_pending {p p' : SendPay} (h : p.MovesTo p')
    (hp' : p'.preimage.isSome) : p.preimage.isSome ∨ p.status = .pending := by
  refine h.status.imp_left (fun heq => ?_)
  rwa [SendPay.preimage, ← heq]

end SendPay

/-- The parts of a node. -/
abbrev Parts := List SendPay

namespace Parts

/-- **The parts move on**, and no new ones appear. -/
def MoveTo (s s' : Parts) : Prop := List.Forall₂ SendPay.MovesTo s s'

theorem MoveTo.refl (s : Parts) : MoveTo s s := List.forall₂_same.mpr (fun p _ => .refl p)

theorem MoveTo.trans {s s' s'' : Parts} (h : MoveTo s s') (h' : MoveTo s' s'') : MoveTo s s'' := by
  induction h generalizing s'' with
  | nil => exact h'
  | cons hp _ ih =>
    cases h' with
    | cons hp' h' => exact List.Forall₂.cons (hp.trans hp') (ih h')

/-- What becomes of a part. -/
theorem MoveTo.exists_of_getElem? {s s' : Parts} (h : MoveTo s s') {n : ℕ} {p : SendPay}
    (hp : s[n]? = some p) : ∃ p', s'[n]? = some p' ∧ p.MovesTo p' := by
  induction h generalizing n with
  | nil => cases hp
  | cons hmoves _ ih =>
    cases n with
    | zero =>
      obtain rfl := Option.some.inj hp
      exact ⟨_, rfl, hmoves⟩
    | succ n => exact ih hp

/-- What a part has been. -/
theorem MoveTo.exists_of_getElem?' {s s' : Parts} (h : MoveTo s s') {n : ℕ} {p' : SendPay}
    (hp' : s'[n]? = some p') : ∃ p, s[n]? = some p ∧ p.MovesTo p' := by
  induction h generalizing n with
  | nil => cases hp'
  | cons hmoves _ ih =>
    cases n with
    | zero =>
      obtain rfl := Option.some.inj hp'
      exact ⟨_, rfl, hmoves⟩
    | succ n => exact ih hp'

/-- **How the node answers**, from its parts at the time, which stay as they
are. A part that is waited for has completed, with its preimage, or failed with
one of the codes for that; other errors mean nothing. -/
def Serves (c : ClnCall) (s : Parts) (r : c.Reply) (s' : Parts) : Prop :=
  s' = s ∧ match c, r with
  | .listSendPays hash status, r => ∀ payments, r = .ok payments →
      payments = (s.filter (fun p => p.paymentHash = hash ∧ p.HasStatus status)).map SendPay.listed
  | .waitSendPay hash groupid partid, r =>
    (∀ resp, r = .ok resp → ∃ p ∈ s, p.paymentHash = hash ∧ p.groupid = groupid ∧
      p.partid = partid ∧ p.preimage.isSome ∧ resp.paymentPreimage = p.preimage) ∧
    ∀ status code, r = .error status → Cln.parseClnError status = some code →
      code ∈ Cln.failureCodes → ∀ p ∈ s, p.paymentHash = hash → p.groupid = groupid →
        p.partid = partid → p.status = .failed
  | _, _ => True

/-- The runs of the client, while parts move on. -/
abbrev Run {α : Type} (p : Prog Cln α) (s : Parts) (tr : List (Prog.Event Cln Parts)) (a : α)
    (s' : Parts) : Prop :=
  Prog.RunsAmid MoveTo Serves p s tr (.ret a) s'

/-- Some part of a payment has a status. -/
def Has (s : Parts) (hash : PaymentHash) (status : ListStatus) : Prop :=
  ∃ p ∈ s, p.paymentHash = hash ∧ p.HasStatus status

instance (s : Parts) (hash : PaymentHash) (status : ListStatus) : Decidable (s.Has hash status) :=
  inferInstanceAs (Decidable (∃ p ∈ s, p.paymentHash = hash ∧ p.HasStatus status))

/-- The parts with a status were listed, at some moment. -/
def ListedIn (tr : List (Prog.Event Cln Parts)) (hash : PaymentHash) (status : ListStatus)
    (s : Parts) : Prop :=
  ∃ payments, (⟨.listSendPays hash status, s, .ok payments, s⟩ : Prog.Event Cln Parts) ∈ tr

/-- **A part completes between the queries**: none is complete when the complete
ones are asked for, and one that is pending then is complete when the pending
ones are asked for. -/
structure CompletesBetween (hash : PaymentHash) (atComplete atPending : Parts) : Prop where
  none_complete : ¬atComplete.Has hash .complete
  completes : ∃ (n : ℕ) (p p' : SendPay), atComplete[n]? = some p ∧ atPending[n]? = some p' ∧
    p.status = .pending ∧ p'.paymentHash = hash ∧ p'.preimage.isSome

/-! ## The moments of two queries -/

variable {hash : PaymentHash} {s s' : Parts} {tr : List (Prog.Event Cln Parts)}

/-- What is complete stays so. -/
theorem MoveTo.has_complete (h : MoveTo s s') (hs : s.Has hash .complete) :
    s'.Has hash .complete := by
  obtain ⟨p, hp, hhash, hcomplete⟩ := hs
  obtain ⟨n, hn⟩ := List.getElem?_of_mem hp
  obtain ⟨p', hn', hmoves⟩ := h.exists_of_getElem? hn
  exact ⟨p', List.mem_of_getElem? hn', hmoves.paymentHash.trans hhash,
    (congrArg Option.isSome (hmoves.preimage hcomplete)).trans hcomplete⟩

/-- What is pending has been so. -/
theorem MoveTo.has_pending (h : MoveTo s s') (hs' : s'.Has hash .pending) : s.Has hash .pending := by
  obtain ⟨p', hp', hhash, hpending⟩ := hs'
  obtain ⟨n, hn⟩ := List.getElem?_of_mem hp'
  obtain ⟨p, hp, hmoves⟩ := h.exists_of_getElem?' hn
  refine ⟨p, List.mem_of_getElem? hp, hmoves.paymentHash.symm.trans hhash, ?_⟩
  exact hmoves.status.elim (fun heq => heq.symm.trans hpending) id

theorem listedIn_append {tr' : List (Prog.Event Cln Parts)} {status : ListStatus} {x : Parts} :
    ListedIn (tr ++ tr') hash status x ↔ ListedIn tr hash status x ∨ ListedIn tr' hash status x := by
  rw [ListedIn, ListedIn, ListedIn, ← exists_or]
  exact exists_congr (fun _ => List.mem_append)

theorem not_listedIn_nil {status : ListStatus} {x : Parts} : ¬ListedIn [] hash status x :=
  fun ⟨_, h⟩ => nomatch h

/-- An event of another kind lists nothing. -/
theorem listedIn_cons_of_ne {e : Prog.Event Cln Parts} (he : ∀ status, e.call ≠ .listSendPays hash status)
    {status : ListStatus} {x : Parts} :
    ListedIn (e :: tr) hash status x ↔ ListedIn tr hash status x := by
  refine exists_congr (fun payments => ?_)
  rw [List.mem_cons, or_iff_right]
  exact fun heq => he status (congrArg Prog.Event.call heq).symm

/-- A query lists what it is answered. -/
theorem listedIn_query {status status' : ListStatus} {y x : Parts}
    {r : Except Status (List ListsendpaysPayments)} :
    ListedIn (⟨.listSendPays hash status, y, r, y⟩ :: tr) hash status' x ↔
      (status' = status ∧ x = y ∧ ∃ payments, r = .ok payments) ∨ ListedIn tr hash status' x := by
  rw [ListedIn, ListedIn, ← exists_and_left, ← exists_and_left, ← exists_or]
  refine exists_congr (fun payments => ?_)
  rw [List.mem_cons]
  refine or_congr_left ⟨fun heq => ?_, ?_⟩
  · cases heq
    exact ⟨rfl, rfl, rfl⟩
  · rintro ⟨rfl, rfl, rfl⟩
    rfl

theorem filter_eq_nil_iff {status : ListStatus} :
    s.filter (fun p => p.paymentHash = hash ∧ p.HasStatus status) = [] ↔ ¬s.Has hash status := by
  rw [List.filter_eq_nil_iff, Has, not_exists]
  exact forall_congr' (fun p => by rw [decide_eq_true_eq, ← not_and])

/-- **The two listings**: each is of the parts at its own moment, in either
order. -/
structure Listings (hash : PaymentHash) (tr : List (Prog.Event Cln Parts))
    (pending complete : Except Status (List ListsendpaysPayments)) (s' atPending atComplete : Parts) :
    Prop where
  pending_moves : MoveTo atPending s'
  complete_moves : MoveTo atComplete s'
  order : MoveTo atPending atComplete ∨ MoveTo atComplete atPending
  eq_pending : ∀ payments, pending = .ok payments → payments = (atPending.filter
    (fun p => p.paymentHash = hash ∧ p.HasStatus .pending)).map SendPay.listed
  eq_complete : ∀ payments, complete = .ok payments → payments = (atComplete.filter
    (fun p => p.paymentHash = hash ∧ p.HasStatus .complete)).map SendPay.listed
  listedIn_pending : ∀ x, ListedIn tr hash .pending x ↔ x = atPending ∧ ∃ ps, pending = .ok ps
  listedIn_complete : ∀ x, ListedIn tr hash .complete x ↔ x = atComplete ∧ ∃ ps, complete = .ok ps


namespace Listings

variable {pending complete : Except Status (List ListsendpaysPayments)}
  {ps cs : List ListsendpaysPayments} {atPending atComplete : Parts}

/-- Later, the parts have moved on further. -/
theorem mono (h : Listings hash tr pending complete s' atPending atComplete) {s'' : Parts}
    (hmoves : MoveTo s' s'') : Listings hash tr pending complete s'' atPending atComplete :=
  { h with
    pending_moves := h.pending_moves.trans hmoves
    complete_moves := h.complete_moves.trans hmoves }

/-- Events that list nothing add no listings, before. -/
theorem cons (h : Listings hash tr pending complete s' atPending atComplete)
    {e : Prog.Event Cln Parts} (he : ∀ status, e.call ≠ .listSendPays hash status) :
    Listings hash (e :: tr) pending complete s' atPending atComplete :=
  { h with
    listedIn_pending := fun x => (listedIn_cons_of_ne he).trans (h.listedIn_pending x)
    listedIn_complete := fun x => (listedIn_cons_of_ne he).trans (h.listedIn_complete x) }

/-- Events that list nothing add no listings, afterwards. -/
theorem append (h : Listings hash tr pending complete s' atPending atComplete)
    {tr' : List (Prog.Event Cln Parts)} (htr' : ∀ e ∈ tr', ∀ status, e.call ≠ .listSendPays hash status) :
    Listings hash (tr ++ tr') pending complete s' atPending atComplete := by
  have hnot (status : ListStatus) (x : Parts) : ¬ListedIn tr' hash status x :=
    fun ⟨_, hmem⟩ => htr' _ hmem status rfl
  exact { h with
    listedIn_pending := fun x => by
      rw [listedIn_append, or_iff_left (hnot _ x)]
      exact h.listedIn_pending x
    listedIn_complete := fun x => by
      rw [listedIn_append, or_iff_left (hnot _ x)]
      exact h.listedIn_complete x }

/-- Nothing is listed under a status if, and only if, nothing has it. -/
theorem pending_eq_nil (h : Listings hash tr (.ok ps) complete s' atPending atComplete) :
    ps = [] ↔ ¬atPending.Has hash .pending := by
  rw [h.eq_pending ps rfl, List.map_eq_nil_iff, filter_eq_nil_iff]

theorem complete_eq_nil (h : Listings hash tr pending (.ok cs) s' atPending atComplete) :
    cs = [] ↔ ¬atComplete.Has hash .complete := by
  rw [h.eq_complete cs rfl, List.map_eq_nil_iff, filter_eq_nil_iff]

/-- **What the listings miss.** A part that is complete in the end, when none was
complete when they were asked for, completes between the queries or is listed
as pending. -/
theorem completesBetween_or (h : Listings hash tr pending complete s' atPending atComplete)
    (hnone : ¬atComplete.Has hash .complete) {n : ℕ} {p' : SendPay} (hn : s'[n]? = some p')
    (hhash : p'.paymentHash = hash) (hp' : p'.preimage.isSome) :
    CompletesBetween hash atComplete atPending
      ∨ ∃ p, atPending[n]? = some p ∧ p.status = .pending ∧ p.MovesTo p' := by
  obtain ⟨c, hc, hcmoves⟩ := h.complete_moves.exists_of_getElem?' hn
  obtain ⟨p, hp, hpmoves⟩ := h.pending_moves.exists_of_getElem?' hn
  have hcpending : c.status = .pending :=
    (hcmoves.complete_or_pending hp').resolve_left (fun hcomplete =>
      hnone ⟨c, List.mem_of_getElem? hc, hcmoves.paymentHash.symm.trans hhash, hcomplete⟩)
  rcases hpmoves.complete_or_pending hp' with hcomplete | hpending
  · exact Or.inl ⟨hnone, n, c, p, hc, hp, hcpending, hpmoves.paymentHash.symm.trans hhash, hcomplete⟩
  · exact Or.inr ⟨p, hp, hpending, hpmoves⟩

/-- What completes between the queries is complete in the end. -/
theorem has_complete (h : Listings hash tr pending complete s' atPending atComplete)
    (hbetween : CompletesBetween hash atComplete atPending) : s'.Has hash .complete := by
  obtain ⟨n, p, p', -, hn', -, hhash, hp'⟩ := hbetween.completes
  exact h.pending_moves.has_complete ⟨p', List.mem_of_getElem? hn', hhash, hp'⟩

end Listings

/-- **One query**, at its moment. -/
theorem query_inv {status : ListStatus} {r : Except Status (List ListsendpaysPayments)}
    (h : Run (Prog.perform (I := Cln) (.listSendPays hash status)) s tr r s') :
    ∃ served : Parts, MoveTo s served ∧ MoveTo served s' ∧
      (∀ payments, r = .ok payments → payments = (served.filter
        (fun p => p.paymentHash = hash ∧ p.HasStatus status)).map SendPay.listed) ∧
      tr = [⟨.listSendPays hash status, served, r, served⟩] := by
  obtain ⟨s₁, r', s₂, tr', hmoves, ⟨rfl, hserves⟩, rfl, hret⟩ := Prog.RunsAmid.call_inv h
  obtain ⟨rfl, rfl, hmoves'⟩ := Prog.RunsAmid.ret_inv hret
  exact ⟨s₂, hmoves, hmoves', hserves, rfl⟩

/-- One query after the other. -/
theorem seq_inv {α : Type} {p q : Prog Cln α} {f : α → α → α × α} {c : α × α}
    (h : Run (p >>= fun a => q >>= fun b => pure (f a b)) s tr c s') :
    ∃ a b s₁ s₂ tr₁ tr₂, Run p s tr₁ a s₁ ∧ Run q s₁ tr₂ b s₂ ∧ MoveTo s₂ s' ∧ c = f a b ∧
      tr = tr₁ ++ tr₂ := by
  obtain ⟨a, s₁, tr₁, tr₂, h₁, rfl, hrest⟩ := Prog.RunsAmid.bind_inv h MoveTo.refl
  obtain ⟨b, s₂, tr₃, tr₄, h₂, rfl, hret⟩ := Prog.RunsAmid.bind_inv hrest MoveTo.refl
  obtain ⟨heq, rfl, hlast⟩ := Prog.RunsAmid.ret_inv hret
  exact ⟨a, b, s₁, s₂, tr₁, tr₃, h₁, h₂, hlast, heq.symm, by rw [List.append_nil]⟩

/-- **The two queries**, joined. -/
theorem listParts_inv {pending complete : Except Status (List ListsendpaysPayments)}
    (h : Run (Cln.listParts hash) s tr (pending, complete) s') :
    ∃ atPending atComplete, Listings hash tr pending complete s' atPending atComplete := by
  obtain ⟨s₀, first, s₁, tr', hmoves, ⟨rfl, -⟩, rfl, hrest⟩ := Prog.RunsAmid.call_inv h
  cases first with
  | true =>
    obtain ⟨a, b, s₂, s₃, tr₁, tr₂, h₁, h₂, hlast, heq, rfl⟩ :=
      seq_inv (f := fun a b => (a, b)) hrest
    obtain ⟨rfl, rfl⟩ := Prod.mk.inj heq
    obtain ⟨atPending, -, hp, hpending, rfl⟩ := query_inv h₁
    obtain ⟨atComplete, hc, hc', hcomplete, rfl⟩ := query_inv h₂
    exact ⟨atPending, atComplete, (hp.trans hc).trans (hc'.trans hlast), hc'.trans hlast,
      Or.inl (hp.trans hc), hpending, hcomplete,
      fun x => by simp [listedIn_cons_of_ne, listedIn_query, not_listedIn_nil],
      fun x => by simp [listedIn_cons_of_ne, listedIn_query, not_listedIn_nil]⟩
  | false =>
    obtain ⟨b, a, s₂, s₃, tr₁, tr₂, h₁, h₂, hlast, heq, rfl⟩ :=
      seq_inv (f := fun b a => (a, b)) hrest
    obtain ⟨rfl, rfl⟩ := Prod.mk.inj heq
    obtain ⟨atComplete, -, hc, hcomplete, rfl⟩ := query_inv h₁
    obtain ⟨atPending, hp, hp', hpending, rfl⟩ := query_inv h₂
    exact ⟨atPending, atComplete, hp'.trans hlast, (hc.trans hp).trans (hp'.trans hlast),
      Or.inr (hc.trans hp), hpending, hcomplete,
      fun x => by simp [listedIn_cons_of_ne, listedIn_query, not_listedIn_nil],
      fun x => by simp [listedIn_cons_of_ne, listedIn_query, not_listedIn_nil]⟩

/-! ## A payment of one part -/

/-- A payment of one part. -/
def sampleHash : PaymentHash := ⟨List.replicate 32 1, rfl⟩

/-- The part, with a status. -/
def samplePart (status : PartStatus) : Parts := [⟨sampleHash, 1, some 1, status⟩]

/-- The part, when it is pending. -/
def samplePending : Parts := samplePart .pending

/-- The part, when it is complete. -/
def sampleComplete : Parts := samplePart (.complete (List.replicate 32 2))

theorem samplePending_moveTo (status : PartStatus) : MoveTo samplePending (samplePart status) :=
  List.Forall₂.cons ⟨rfl, rfl, rfl, Or.inr rfl⟩ List.Forall₂.nil

theorem serves_listing (hash : PaymentHash) (status : ListStatus) (s : Parts) :
    Serves (.listSendPays hash status) s (.ok ((s.filter
      (fun p => p.paymentHash = hash ∧ p.HasStatus status)).map SendPay.listed)) s :=
  ⟨rfl, fun _ hpayments => (Except.ok.inj hpayments).symm⟩

/-- The complete parts are asked for first, and the part completes. -/
def sampleMissed : List (Prog.Event Cln Parts) :=
  [⟨.firstServed, samplePending, false, samplePending⟩,
    ⟨.listSendPays sampleHash .complete, samplePending, .ok [], samplePending⟩,
    ⟨.listSendPays sampleHash .pending, sampleComplete, .ok [], sampleComplete⟩]

/-- The pending parts are asked for first, and the part completes. -/
def sampleNoticed : List (Prog.Event Cln Parts) :=
  [⟨.getClient, samplePending, .ok (), samplePending⟩,
    ⟨.firstServed, samplePending, true, samplePending⟩,
    ⟨.listSendPays sampleHash .pending, samplePending, .ok [⟨1, some 1, none⟩], samplePending⟩,
    ⟨.listSendPays sampleHash .complete, sampleComplete,
      .ok [⟨1, some 1, some (List.replicate 32 2)⟩], sampleComplete⟩]

/-- The part is waited for, and fails. -/
def sampleAwaited : List (Prog.Event Cln Parts) :=
  [⟨.firstServed, samplePending, true, samplePending⟩,
    ⟨.listSendPays sampleHash .pending, samplePending, .ok [⟨1, some 1, none⟩], samplePending⟩,
    ⟨.listSendPays sampleHash .complete, samplePending, .ok [], samplePending⟩,
    ⟨.completionOrder 1, samplePending, [0], samplePending⟩,
    ⟨.waitSendPay sampleHash 1 (some 1), samplePart .failed, .error ⟨.unknown, "code: Some(203)"⟩,
      samplePart .failed⟩]

/-! ## Whether there is a payment -/

theorem hasPendingOrCompletePayment_inv {r : Except LightningError Bool}
    (h : Run (Cln.hasPendingOrCompletePayment hash).run s tr r s') :
    ((∀ status x, ¬ListedIn tr hash status x) ∧ r ≠ .ok false) ∨
      ∃ pending complete atPending atComplete,
        Listings hash tr pending complete s' atPending atComplete ∧
        (r = .ok false ↔ pending = .ok [] ∧ complete = .ok []) := by
  obtain ⟨s₁, connected, s₂, tr', hmoves, ⟨rfl, -⟩, rfl, hrest⟩ := Prog.RunsAmid.call_inv h
  cases connected with
  | error e =>
    obtain ⟨rfl, rfl, -⟩ := Prog.RunsAmid.ret_inv hrest
    refine Or.inl ⟨fun status x => ?_, nofun⟩
    refine (listedIn_cons_of_ne ?_).not.mpr not_listedIn_nil
    exact fun status => nofun
  | ok _ =>
    obtain ⟨⟨pending, complete⟩, s₃, tr₁, tr₂, hlist, rfl, hlisted⟩ :=
      Prog.RunsAmid.lift_inv hrest MoveTo.refl
    obtain ⟨atPending, atComplete, hl⟩ := listParts_inv hlist
    have hend : (r = .ok false ↔ pending = .ok [] ∧ complete = .ok []) ∧ tr₂ = [] ∧ MoveTo s₃ s' := by
      match pending, complete, hlisted with
      | .error _, _, hlisted =>
        obtain ⟨rfl, rfl, hlast⟩ := Prog.RunsAmid.ret_inv hlisted
        exact ⟨by simp, rfl, hlast⟩
      | .ok (_ :: _), _, hlisted =>
        obtain ⟨rfl, rfl, hlast⟩ := Prog.RunsAmid.ret_inv hlisted
        exact ⟨by simp, rfl, hlast⟩
      | .ok [], .error _, hlisted =>
        obtain ⟨rfl, rfl, hlast⟩ := Prog.RunsAmid.ret_inv hlisted
        exact ⟨by simp, rfl, hlast⟩
      | .ok [], .ok (_ :: _), hlisted =>
        obtain ⟨rfl, rfl, hlast⟩ := Prog.RunsAmid.ret_inv hlisted
        exact ⟨by simp, rfl, hlast⟩
      | .ok [], .ok [], hlisted =>
        obtain ⟨rfl, rfl, hlast⟩ := Prog.RunsAmid.ret_inv hlisted
        exact ⟨by simp, rfl, hlast⟩
    obtain ⟨hr, rfl, hlast⟩ := hend
    refine Or.inr ⟨pending, complete, atPending, atComplete, ?_, hr⟩
    rw [List.append_nil]
    refine (hl.cons ?_).mono hlast
    exact fun status => nofun

/-- **When `has_pending_or_complete_payment` misses a payment.** A part that is
complete when it returns, or pending all the time, is noticed, except if it is
one that completes between the queries, with no other to notice. -/
theorem hasPendingOrCompletePayment_notices_iff {r : Except LightningError Bool}
    (h : Run (Cln.hasPendingOrCompletePayment hash).run s tr r s') :
    (s'.Has hash .complete ∨ s'.Has hash .pending → r ≠ .ok false) ↔
      ¬∃ atComplete atPending, ListedIn tr hash .complete atComplete ∧
        ListedIn tr hash .pending atPending ∧ CompletesBetween hash atComplete atPending ∧
        ¬atPending.Has hash .pending := by
  constructor
  · rintro hnotices ⟨atComplete, atPending, hcomplete, hpending, hbetween, hnone⟩
    rcases hasPendingOrCompletePayment_inv h with ⟨hnot, -⟩ | ⟨_, _, _, _, hl, hr⟩
    · exact hnot _ _ hcomplete
    · obtain ⟨rfl, cs, rfl⟩ := (hl.listedIn_complete _).mp hcomplete
      obtain ⟨rfl, ps, rfl⟩ := (hl.listedIn_pending _).mp hpending
      refine hnotices (Or.inl (hl.has_complete hbetween)) (hr.mpr ⟨?_, ?_⟩)
      · rw [hl.pending_eq_nil.mpr hnone]
      · rw [hl.complete_eq_nil.mpr hbetween.none_complete]
  · intro hnot hhas hfalse
    rcases hasPendingOrCompletePayment_inv h with ⟨-, hr⟩ | ⟨_, _, atPending, atComplete, hl, hr⟩
    · exact hr hfalse
    · obtain ⟨rfl, rfl⟩ := hr.mp hfalse
      have hnone := hl.pending_eq_nil.mp rfl
      rcases hhas with ⟨p', hp', hhash, hcomplete⟩ | hpending
      · obtain ⟨n, hn⟩ := List.getElem?_of_mem hp'
        rcases hl.completesBetween_or (hl.complete_eq_nil.mp rfl) hn hhash hcomplete with
          hbetween | ⟨p, hp, hpending, hmoves⟩
        · exact hnot ⟨atComplete, atPending, (hl.listedIn_complete _).mpr ⟨rfl, _, rfl⟩,
            (hl.listedIn_pending _).mpr ⟨rfl, _, rfl⟩, hbetween, hnone⟩
        · exact hnone ⟨p, List.mem_of_getElem? hp, hmoves.paymentHash.symm.trans hhash, hpending⟩
      · exact hnone (hl.pending_moves.has_pending hpending)

theorem hasPendingOrCompletePayment_notices_sample :
    ¬∃ atComplete atPending, ListedIn sampleNoticed sampleHash .complete atComplete ∧
      ListedIn sampleNoticed sampleHash .pending atPending ∧
      CompletesBetween sampleHash atComplete atPending ∧ ¬atPending.Has sampleHash .pending := by
  have hrun : Run (Cln.hasPendingOrCompletePayment sampleHash).run samplePending sampleNoticed
      (.ok true) sampleComplete :=
    .step (.refl _) ⟨rfl, trivial⟩ <|
      .step (.refl _) ⟨rfl, trivial⟩ <|
        .step (.refl _) (serves_listing _ _ _) <|
          .step (samplePending_moveTo _) (serves_listing _ _ _) (.here (.refl _))
  exact (hasPendingOrCompletePayment_notices_iff hrun).mp (fun _ => nofun)

/-- The result is false, though the part is complete. -/
theorem hasPendingOrCompletePayment_misses : ∃ s tr s',
    Run (Cln.hasPendingOrCompletePayment sampleHash).run s tr (.ok false) s' ∧
      s'.Has sampleHash .complete := by
  have hrun : Run (Cln.hasPendingOrCompletePayment sampleHash).run samplePending
      (⟨.getClient, samplePending, .ok (), samplePending⟩ :: sampleMissed) (.ok false)
      sampleComplete :=
    .step (.refl _) ⟨rfl, trivial⟩ <|
      .step (.refl _) ⟨rfl, trivial⟩ <|
        .step (.refl _) (serves_listing _ _ _) <|
          .step (samplePending_moveTo _) (serves_listing _ _ _) (.here (.refl _))
  exact ⟨_, _, _, hrun, by decide⟩

/-! ## Waiting for a payment -/

/-- **Every part that is waited for fails**, as the node reports it. -/
def AllFail (tr : List (Prog.Event Cln Parts)) : Prop :=
  ∀ hash groupid partid x reply y,
    (⟨.waitSendPay hash groupid partid, x, reply, y⟩ : Prog.Event Cln Parts) ∈ tr →
      ∃ status code, reply = .error status ∧ Cln.parseClnError status = some code ∧
        code ∈ Cln.failureCodes

theorem AllFail.append_iff {tr' : List (Prog.Event Cln Parts)}
    (htr : ∀ e ∈ tr, ∀ hash groupid partid, e.call ≠ .waitSendPay hash groupid partid) :
    AllFail (tr ++ tr') ↔ AllFail tr' := by
  constructor
  · exact fun h _ _ _ _ _ _ hmem => h _ _ _ _ _ _ (List.mem_append_right _ hmem)
  · intro h _ _ _ _ _ _ hmem
    rcases List.mem_append.mp hmem with hmem | hmem
    · exact absurd rfl (htr _ hmem _ _ _)
    · exact h _ _ _ _ _ _ hmem

/-- An event of another kind is not waited for. -/
theorem AllFail.cons_iff_of_ne {e : Prog.Event Cln Parts}
    (he : ∀ hash groupid partid, e.call ≠ .waitSendPay hash groupid partid) :
    AllFail (e :: tr) ↔ AllFail tr := by
  show AllFail ([e] ++ tr) ↔ AllFail tr
  refine AllFail.append_iff (fun e' he' => ?_)
  obtain rfl := List.mem_singleton.mp he'
  exact he

theorem AllFail.cons_iff {groupid : UInt64} {partid : Option UInt64} {x y : Parts}
    {reply : Except Status WaitsendpayResponse} :
    AllFail (⟨.waitSendPay hash groupid partid, x, reply, y⟩ :: tr) ↔
      (∃ status code, reply = .error status ∧ Cln.parseClnError status = some code ∧
        code ∈ Cln.failureCodes) ∧ AllFail tr := by
  constructor
  · exact fun h => ⟨h _ _ _ _ _ _ List.mem_cons_self,
      fun _ _ _ _ _ _ hmem => h _ _ _ _ _ _ (List.mem_cons_of_mem _ hmem)⟩
  · rintro ⟨hfail, h⟩ _ _ _ _ _ _ hmem
    rcases List.mem_cons.mp hmem with heq | hmem
    · cases heq
      exact hfail
    · exact h _ _ _ _ _ _ hmem

theorem toPreimage_inv {bytes : Bytes} {r : Except LightningError (Option PaymentResult)}
    (h : Run (do return some (.success (← Cln.toPreimage bytes)) :
      ClnProgram (Option PaymentResult)).run s tr r s') : r ≠ .ok none ∧ tr = [] ∧ MoveTo s s' := by
  unfold Cln.toPreimage at h
  split at h
  all_goals
    obtain ⟨rfl, rfl, hmoves⟩ := Prog.RunsAmid.ret_inv h
    exact ⟨nofun, rfl, hmoves⟩

/-- **The parts are waited for**: there is no result if, and only if, every one
is reported failed; then every one has failed. -/
theorem collectParts_inv {payments : List ListsendpaysPayments}
    {r : Except LightningError (Option PaymentResult)}
    (h : Run (Cln.collectParts hash payments).run s tr r s') :
    MoveTo s s' ∧ (r = .ok none ↔ AllFail tr) ∧
      (r = .ok none → ∀ payment ∈ payments, ∃ x, MoveTo s x ∧ MoveTo x s' ∧
        ∀ p ∈ x, p.paymentHash = hash → p.groupid = payment.groupid →
          p.partid = payment.partid → p.status = .failed) := by
  induction payments generalizing s tr with
  | nil =>
    obtain ⟨rfl, rfl, hmoves⟩ := Prog.RunsAmid.ret_inv h
    exact ⟨hmoves, iff_of_true rfl nofun, nofun⟩
  | cons payment payments ih =>
    obtain ⟨s₁, reply, s₂, tr', hmoves, ⟨rfl, hok, herror⟩, rfl, hrest⟩ := Prog.RunsAmid.call_inv h
    rw [AllFail.cons_iff]
    match reply, hok, herror, hrest with
    | .ok ⟨some preimage⟩, _, _, hrest =>
      obtain ⟨hr, rfl, hlast⟩ := toPreimage_inv hrest
      exact ⟨hmoves.trans hlast, iff_of_false hr (fun ⟨⟨_, _, hreply, _⟩, _⟩ => nomatch hreply),
        fun heq => absurd heq hr⟩
    | .ok ⟨none⟩, hok, _, _ =>
      -- a part that has completed comes with its preimage
      obtain ⟨p, -, -, -, -, hcomplete, hnone⟩ := hok _ rfl
      rw [← hnone] at hcomplete
      cases hcomplete
    | .error status, _, herror, hrest =>
      dsimp only [Prog.bind, Function.comp, ExceptT.bindCont] at hrest
      cases hcode : Cln.parseClnError status with
      | none =>
        rw [hcode] at hrest
        obtain ⟨rfl, rfl, hlast⟩ := Prog.RunsAmid.ret_inv hrest
        refine ⟨hmoves.trans hlast, iff_of_false nofun ?_, nofun⟩
        rintro ⟨⟨_, _, heq, hcode', -⟩, -⟩
        cases heq
        rw [hcode] at hcode'
        cases hcode'
      | some code =>
        by_cases hmem : code ∈ Cln.failureCodes
        · simp only [hcode, if_pos hmem] at hrest
          obtain ⟨hlast, hr, hfailed⟩ := ih hrest
          refine ⟨hmoves.trans hlast, ?_, fun hnone => ?_⟩
          · rw [hr, and_iff_right ⟨status, code, rfl, hcode, hmem⟩]
          · intro payment' hpayment'
            rcases List.mem_cons.mp hpayment' with rfl | hpayment'
            · exact ⟨s₂, hmoves, hlast, herror status code rfl hcode hmem⟩
            · obtain ⟨x, hx, hx', hx''⟩ := hfailed hnone payment' hpayment'
              exact ⟨x, hmoves.trans hx, hx', hx''⟩
        · simp only [hcode, if_neg hmem] at hrest
          obtain ⟨rfl, rfl, hlast⟩ := Prog.RunsAmid.ret_inv hrest
          refine ⟨hmoves.trans hlast, iff_of_false nofun ?_, nofun⟩
          rintro ⟨⟨_, code', heq, hcode', hmem'⟩, -⟩
          cases heq
          rw [hcode] at hcode'
          cases hcode'
          exact hmem hmem'

theorem listParts_onlyCalls : (Cln.listParts hash).OnlyCalls
    (fun c : ClnCall => ∀ hash groupid partid, c ≠ .waitSendPay hash groupid partid) := by
  refine ⟨nofun, fun first => ?_⟩
  cases first with
  | true => exact ⟨nofun, fun _ => ⟨nofun, fun _ => trivial⟩⟩
  | false => exact ⟨nofun, fun _ => ⟨nofun, fun _ => trivial⟩⟩

theorem collectParts_onlyCalls (payments : List ListsendpaysPayments) :
    (Cln.collectParts hash payments).run.OnlyCalls
      (fun c : ClnCall => ∀ status, c ≠ .listSendPays hash status) := by
  induction payments with
  | nil => trivial
  | cons payment payments ih =>
    refine ⟨nofun, fun reply => ?_⟩
    match reply with
    | .ok ⟨some preimage⟩ =>
      refine Prog.OnlyCalls.tryBind ?_ (fun _ => trivial)
      unfold Cln.toPreimage
      split <;> trivial
    | .ok ⟨none⟩ => exact ih
    | .error status =>
      dsimp only [Prog.bind, Function.comp, ExceptT.bindCont]
      split
      · split
        · exact ih
        · trivial
      · trivial

/-- A part that has completed comes with its preimage. -/
theorem Listings.findSome?_eq_none {pending : Except Status (List ListsendpaysPayments)}
    {cs : List ListsendpaysPayments} {atPending atComplete : Parts}
    (h : Listings hash tr pending (.ok cs) s' atPending atComplete)
    (hnone : cs.findSome? (fun payment => payment.paymentPreimage) = none) : cs = [] := by
  rw [h.complete_eq_nil]
  rintro ⟨p, hp, hhash, hcomplete⟩
  have hlisted : p.listed ∈ cs := by
    rw [h.eq_complete cs rfl]
    exact List.mem_map_of_mem (List.mem_filter.mpr ⟨hp, decide_eq_true ⟨hhash, hcomplete⟩⟩)
  have hpreimage : p.preimage = none := List.findSome?_eq_none_iff.mp hnone p.listed hlisted
  rw [SendPay.HasStatus, hpreimage] at hcomplete
  cases hcomplete

theorem waitPayment_inv {r : Except LightningError (Option PaymentResult)}
    (h : Run (Cln.waitPayment hash).run s tr r s') :
    ∃ pending complete atPending atComplete,
      Listings hash tr pending complete s' atPending atComplete ∧
      (r = .ok none ↔ (∃ ps, pending = .ok ps) ∧ complete = .ok [] ∧ AllFail tr) ∧
      (r = .ok none → ∀ p ∈ atPending, p.paymentHash = hash → p.status = .pending →
        ∃ x, MoveTo atPending x ∧ MoveTo x s' ∧ ∀ p' ∈ x, p'.paymentHash = hash →
          p'.groupid = p.groupid → p'.partid = p.partid → p'.status = .failed) := by
  obtain ⟨⟨pending, complete⟩, s₁, tr₁, tr₂, hlist, rfl, hrest⟩ :=
    Prog.RunsAmid.lift_inv h MoveTo.refl
  obtain ⟨atPending, atComplete, hl⟩ := listParts_inv hlist
  have hwaits := hlist.call_of_onlyCalls listParts_onlyCalls
  match pending, complete, hl, hrest with
  | _, .error _, hl, hrest =>
    obtain ⟨rfl, rfl, hlast⟩ := Prog.RunsAmid.ret_inv hrest
    rw [List.append_nil]
    exact ⟨_, _, _, _, hl.mono hlast, iff_of_false nofun (fun ⟨_, h, _⟩ => nomatch h), nofun⟩
  | .error _, .ok _, hl, hrest =>
    obtain ⟨rfl, rfl, hlast⟩ := Prog.RunsAmid.ret_inv hrest
    rw [List.append_nil]
    exact ⟨_, _, _, _, hl.mono hlast, iff_of_false nofun (fun ⟨⟨_, h⟩, _⟩ => nomatch h), nofun⟩
  | .ok ps, .ok cs, hl, hrest =>
    have hok {α : Type} (a : α) : Cln.orDisconnected (.ok a) = pure a := rfl
    simp only [hok, pure_bind] at hrest
    cases hfind : cs.findSome? (fun payment => payment.paymentPreimage) with
    | some preimage =>
      rw [hfind] at hrest
      obtain ⟨hr, rfl, hlast⟩ := toPreimage_inv hrest
      rw [List.append_nil]
      refine ⟨_, _, _, _, hl.mono hlast, iff_of_false hr ?_, fun heq => absurd heq hr⟩
      rintro ⟨-, heq, -⟩
      obtain rfl := Except.ok.inj heq
      cases hfind
    | none =>
      obtain rfl := hl.findSome?_eq_none hfind
      obtain ⟨s₂, order, s₃, tr₃, hmoves, ⟨rfl, -⟩, rfl, hcollect⟩ := Prog.RunsAmid.call_inv hrest
      obtain ⟨hlast, hr, hfailed⟩ := collectParts_inv hcollect
      refine ⟨_, _, _, _, (hl.append ?_).mono (hmoves.trans hlast), ?_, fun hnone p hp hhash hpending => ?_⟩
      · intro e he
        rcases List.mem_cons.mp he with rfl | he
        · exact nofun
        · exact hcollect.call_of_onlyCalls (collectParts_onlyCalls _) e he
      · rw [hr, AllFail.append_iff hwaits, AllFail.cons_iff_of_ne]
        · exact ⟨fun h => ⟨⟨_, rfl⟩, rfl, h⟩, fun h => h.2.2⟩
        · exact fun _ _ _ => nofun
      · have hlisted : p.listed ∈ ps := by
          rw [hl.eq_pending ps rfl]
          exact List.mem_map_of_mem (List.mem_filter.mpr ⟨hp, decide_eq_true ⟨hhash, hpending⟩⟩)
        obtain ⟨x, hx, hx', hall⟩ := hfailed hnone p.listed (Table.mem_permute.mpr hlisted)
        exact ⟨x, (hl.pending_moves.trans hmoves).trans hx, hx', hall⟩

/-- **When `wait_payment` misses a payment.** There is no result only if no part
is complete when it returns, except if one completes between the queries and
all that are waited for fail. -/
theorem waitPayment_none_iff {r : Except LightningError (Option PaymentResult)}
    (h : Run (Cln.waitPayment hash).run s tr r s') :
    (r = .ok none → ¬s'.Has hash .complete) ↔
      ¬∃ atComplete atPending, ListedIn tr hash .complete atComplete ∧
        ListedIn tr hash .pending atPending ∧ CompletesBetween hash atComplete atPending ∧
        AllFail tr := by
  obtain ⟨_, _, atPending, atComplete, hl, hr, hfailed⟩ := waitPayment_inv h
  constructor
  · rintro hnone ⟨_, _, hcomplete, hpending, hbetween, hfail⟩
    obtain ⟨rfl, cs, rfl⟩ := (hl.listedIn_complete _).mp hcomplete
    obtain ⟨rfl, ps, rfl⟩ := (hl.listedIn_pending _).mp hpending
    refine hnone (hr.mpr ⟨⟨ps, rfl⟩, ?_, hfail⟩) (hl.has_complete hbetween)
    rw [hl.complete_eq_nil.mpr hbetween.none_complete]
  · rintro hnot hnone ⟨p', hp', hhash, hcomplete⟩
    obtain ⟨⟨ps, rfl⟩, rfl, hfail⟩ := hr.mp hnone
    obtain ⟨n, hn⟩ := List.getElem?_of_mem hp'
    rcases hl.completesBetween_or (hl.complete_eq_nil.mp rfl) hn hhash hcomplete with
      hbetween | ⟨p, hp, hpending, hmoves⟩
    · exact hnot ⟨atComplete, atPending, (hl.listedIn_complete _).mpr ⟨rfl, _, rfl⟩,
        (hl.listedIn_pending _).mpr ⟨rfl, _, rfl⟩, hbetween, hfail⟩
    · -- it was waited for, and had failed by then
      obtain ⟨x, hx, hx', hall⟩ := hfailed hnone p (List.mem_of_getElem? hp)
        (hmoves.paymentHash.symm.trans hhash) hpending
      obtain ⟨q, hq, hpq⟩ := hx.exists_of_getElem? hp
      obtain ⟨q', hq', hqq'⟩ := hx'.exists_of_getElem? hq
      obtain rfl := Option.some.inj (hn.symm.trans hq')
      have hqfailed : q.status = .failed :=
        hall q (List.mem_of_getElem? hq) (hqq'.paymentHash.symm.trans hhash) hpq.groupid hpq.partid
      rcases hqq'.complete_or_pending hcomplete with hq'' | hq''
      · rw [SendPay.preimage, hqfailed] at hq''
        cases hq''
      · rw [hqfailed] at hq''
        cases hq''

theorem waitPayment_none_sample :
    ¬∃ atComplete atPending, ListedIn sampleAwaited sampleHash .complete atComplete ∧
      ListedIn sampleAwaited sampleHash .pending atPending ∧
      CompletesBetween sampleHash atComplete atPending ∧ AllFail sampleAwaited := by
  have hserves : Serves (.waitSendPay sampleHash 1 (some 1)) (samplePart .failed)
      (.error ⟨.unknown, "code: Some(203)"⟩) (samplePart .failed) :=
    ⟨rfl, nofun, fun _ _ _ _ _ => by decide⟩
  have hrun : Run (Cln.waitPayment sampleHash).run samplePending sampleAwaited (.ok none)
      (samplePart .failed) :=
    .step (.refl _) ⟨rfl, trivial⟩ <|
      .step (.refl _) (serves_listing _ _ _) <|
        .step (.refl _) (serves_listing _ _ _) <|
          .step (.refl _) ⟨rfl, trivial⟩ <|
            .step (samplePending_moveTo _) hserves (.here (.refl _))
  exact (waitPayment_none_iff hrun).mp (fun _ => by decide)

/-- There is no result, though the part is complete. -/
theorem waitPayment_misses : ∃ s tr s',
    Run (Cln.waitPayment sampleHash).run s tr (.ok none) s' ∧ s'.Has sampleHash .complete := by
  have hrun : Run (Cln.waitPayment sampleHash).run samplePending
      (sampleMissed ++ [⟨.completionOrder 0, sampleComplete, [], sampleComplete⟩]) (.ok none)
      sampleComplete :=
    .step (.refl _) ⟨rfl, trivial⟩ <|
      .step (.refl _) (serves_listing _ _ _) <|
        .step (samplePending_moveTo _) (serves_listing _ _ _) <|
          .step (.refl _) ⟨rfl, trivial⟩ (.here (.refl _))
  exact ⟨_, _, _, hrun, by decide⟩

end Parts

end Swapd
