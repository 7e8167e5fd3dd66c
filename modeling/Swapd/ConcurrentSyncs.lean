import Swapd.ChainIndex
import Swapd.TipSync

/-!
# Two syncs on one table

`start` runs two tasks side by side: the tip sync, which goes on from the chain that
is loaded, and the full sync, which goes through all blocks from the birthday again
and again. Each has its own chain in memory, and undoes only what it finds there.

As long as every write keeps to the tip of the table (`keepsToTip`), what is stored
comes from blocks of bitcoind, and the blocks are one chain from the birthday
(`kept_reachable`).
-/

namespace Swapd

open Machine (ReachableIf StepIf)

/-- **What bitcoind knows**: a tree of headers, with their blocks. -/
structure BlockSource (codec : ChainCodec) extends HeaderTree, BlockTree codec where
  header_block : ∀ {hash b}, block hash = some b → ∃ h, header hash = some h ∧
    b.bip34Height = some h.height ∧ b.header h.height = h

/-- **What the syncs share**: the tables, the best tip of bitcoind, and which tips were
read. -/
structure SyncsState where
  tables : ChainTables
  best : BlockHash
  told : List BlockHash

variable {codec : ChainCodec}

namespace SyncsState

variable (source : BlockSource codec)

/-- A write commits, fails, or commits and its answer is lost. -/
def write (db : ChainTables) (ch : Answer) (s : SyncsState) :
    Option (Except ChainRepositoryError Unit × SyncsState) :=
  match ch with
  | .ok => some (.ok (), { s with tables := db })
  | .fail => some (.error .general, s)
  | .lost => some (.error .general, { s with tables := db })

/-- A read succeeds or fails. -/
def read {ε α : Type} (failure : ε) (answer : Except ε α) (ch : Answer) (s : SyncsState) :
    Option (Except ε α × SyncsState) :=
  match ch with
  | .ok => some (answer, s)
  | _ => some (.error failure, s)

/-- Serving a call of a sync. -/
def serve : (c : ChainCall) → Answer → SyncsState → Option (c.Reply × SyncsState)
  | .getTipHash, ch, s =>
    match ch with
    | .ok => some (.ok s.best, { s with told := s.best :: s.told })
    | _ => some (.error .general, s)
  | .getBlockHeader hash, ch, s =>
    s.read .general ((source.header hash).elim (.error .general) .ok) ch
  | .getBlock hash, ch, s => s.read .general ((source.block hash).elim (.error .general) .ok) ch
  | .getBlockHeaders, ch, s => s.read .general (.ok s.tables.getBlockHeaders) ch
  | .filterWatchAddresses addresses, ch, s =>
    s.read .general (.ok (s.tables.filterWatchAddresses addresses)) ch
  | .addBlock block txOutputs txInputs, ch, s =>
    s.write (s.tables.addBlock block txOutputs txInputs) ch
  | .undoBlock hash, ch, s => s.write (s.tables.undoBlock hash) ch
  | .isCancelled, ch, s => some (ch != .ok, s)
  | .never, _, _ => none

end SyncsState

/-- The two syncs. -/
inductive SyncTask where
  | tip
  | full
deriving DecidableEq

/-- The world's own moves: bitcoind has another tip, or an address is watched. -/
inductive SyncsMove where
  | tip (best : BlockHash)
  | watch (address : Address)

/-- **The syncs**, as a machine. They stop together. -/
@[reducible] def chainSyncs (source : BlockSource codec) : Machine ChainServices where
  State := SyncsState
  Task := SyncTask
  Result := Except ChainError Unit
  Choice := Answer
  Spawn := Empty
  Halt := Unit
  Drift := SyncsMove
  serve := fun _ _ c ch s => s.serve source c ch
  spawn := fun sp _ _ => sp.elim
  stops := fun _ _ _ => true
  halt := fun _ s => some s
  drift := fun m s =>
    match m with
    | .tip best => some { s with best := best }
    | .watch address => some { s with tables := s.tables.addWatchAddress address }

/-- **What is kept**: the rows come from blocks of bitcoind, and those of `blocks` are one
chain from the birthday. -/
structure ChainTables.Kept (source : BlockSource codec) (base : BlockHeader) (db : ChainTables) :
    Prop where
  sound : db.Sound source.toBlockTree
  single : SingleChain base db.blocks

/-- **The start of the syncs**, by `start`, on tables that are kept, as a run before a crash
leaves them: the tip sync has the chain that is loaded, the full sync its birthday. Rounds
and steps are counted. -/
structure IsSyncsStart (source : BlockSource codec) (steps : ℕ) (base : BlockHeader)
    (S : (chainSyncs source).Config) : Prop where
  kept : S.state.tables.Kept source base
  told : S.state.told = []
  threads : ∃ chain m n, Chain.tryFrom S.state.tables.getBlockHeaders = some (.ok chain) ∧
    chain.baseHeader = some base ∧
    S.threads = [⟨.tip, some (ChainMonitor.startTipSync codec steps m chain).run⟩,
      ⟨.full, some (ChainMonitor.startFullSync codec steps (Chain.new base) n).run⟩]

/-- **Every write keeps to the tip.** -/
def keepsToTip (source : BlockSource codec) (base : BlockHeader) : (chainSyncs source).Condition :=
  fun _ _ c s => s.tables.KeepsToTip base c

instance (source : BlockSource codec) (base : BlockHeader) (i : ℕ) (t : SyncTask) (c : ChainCall)
    (s : SyncsState) : Decidable (keepsToTip source base i t c s) :=
  inferInstanceAs (Decidable (s.tables.KeepsToTip base c))

section Calls

variable {source : BlockSource codec} {base : BlockHeader}

theorem SyncsState.read_eq_some {ε α : Type} {failure : ε} {answer r : Except ε α} {ch : Answer}
    {s s' : SyncsState} (h : s.read failure answer ch = some (r, s')) :
    s' = s ∧ ∀ a, r = .ok a → answer = .ok a := by
  cases ch with
  | ok =>
    obtain ⟨rfl, rfl⟩ := Prod.mk.inj (Option.some.inj h)
    exact ⟨rfl, fun _ hr => hr⟩
  | _ =>
    obtain ⟨rfl, rfl⟩ := Prod.mk.inj (Option.some.inj h)
    exact ⟨rfl, nofun⟩

theorem SyncsState.write_eq_some {db : ChainTables} {r : Except ChainRepositoryError Unit}
    {ch : Answer} {s s' : SyncsState} (h : s.write db ch = some (r, s')) :
    s' = { s with tables := db } ∨ (s' = s ∧ r ≠ .ok ()) := by
  cases ch <;> obtain ⟨rfl, rfl⟩ := Prod.mk.inj (Option.some.inj h)
  · exact Or.inl rfl
  · exact Or.inr ⟨rfl, nofun⟩
  · exact Or.inl rfl

/-- **What a call does to the tables**: nothing, or its write. -/
theorem SyncsState.tables_of_serve {c : ChainCall} {ch : Answer} {s s' : SyncsState} {r : c.Reply}
    (h : s.serve source c ch = some (r, s')) :
    s'.tables = s.tables ∨ s'.tables = s.tables.written c := by
  cases c with
  | getTipHash =>
    cases ch <;> obtain ⟨-, rfl⟩ := Prod.mk.inj (Option.some.inj h) <;> exact Or.inl rfl
  | addBlock block txOutputs txInputs =>
    rcases SyncsState.write_eq_some h with rfl | ⟨rfl, -⟩
    · exact Or.inr rfl
    · exact Or.inl rfl
  | undoBlock hash =>
    rcases SyncsState.write_eq_some h with rfl | ⟨rfl, -⟩
    · exact Or.inr rfl
    · exact Or.inl rfl
  | isCancelled =>
    obtain ⟨-, rfl⟩ := Prod.mk.inj (Option.some.inj h)
    exact Or.inl rfl
  | never => cases h
  | _ => exact Or.inl (congrArg _ (SyncsState.read_eq_some h).1)

/-- A call that succeeds does its write. -/
theorem SyncsState.tables_of_serve_ok {c : ChainCall} {s s' : SyncsState} {r : c.Reply}
    (h : s.serve source c .ok = some (r, s')) : s'.tables = s.tables.written c := by
  cases c with
  | never => cases h
  | _ =>
    obtain ⟨-, rfl⟩ := Prod.mk.inj (Option.some.inj h)
    rfl

/-- A block that is answered is the one that was asked for. -/
theorem SyncsState.block_of_serve {hash : BlockHash} {ch : Answer} {s s' : SyncsState}
    {r : Except ChainError Block} (h : s.serve source (.getBlock hash) ch = some (r, s')) :
    ∀ b, r = .ok b → source.block hash = some b := by
  intro b hr
  have hanswer := (SyncsState.read_eq_some h).2 b hr
  cases hb : source.block hash with
  | none => rw [hb] at hanswer; cases hanswer
  | some b' =>
    rw [hb] at hanswer
    rw [Except.ok.inj hanswer]

/-- A header that is answered is the one that was asked for. -/
theorem SyncsState.header_of_serve {hash : BlockHash} {ch : Answer} {s s' : SyncsState}
    {r : Except ChainError BlockHeader}
    (h : s.serve source (.getBlockHeader hash) ch = some (r, s')) :
    ∀ x, r = .ok x → source.header hash = some x := by
  intro x hr
  have hanswer := (SyncsState.read_eq_some h).2 x hr
  cases hx : source.header hash with
  | none => rw [hx] at hanswer; cases hanswer
  | some x' =>
    rw [hx] at hanswer
    rw [Except.ok.inj hanswer]

/-! ## What is kept -/

/-- A block is stored as it is processed, if it is bitcoind's. -/
def IsStored (source : BlockSource codec) : ChainCall → Prop
  | .addBlock block txOutputs txInputs => ∃ b height watched, source.toBlockTree.Has b ∧
      b.bip34Height = some height ∧ block = b.header height ∧
      txOutputs = codec.watchUtxos b height watched ∧ txInputs = codec.spentTxos b
  | _ => True

/-- **A write that keeps to the tip** keeps what is kept. -/
theorem ChainTables.Kept.written {db : ChainTables} (h : db.Kept source base) {c : ChainCall}
    (hc : IsStored source c) (hkeeps : db.KeepsToTip base c) : (db.written c).Kept source base where
  sound := by
    cases c with
    | addBlock block txOutputs txInputs =>
      obtain ⟨b, height, watched, hb, hheight, rfl, rfl, rfl⟩ := hc
      exact h.sound.stored hb hheight
    | undoBlock hash => exact h.sound.undoBlock hash
    | _ => exact h.sound
  single := (singleChain_written_iff h.single c).mpr hkeeps

end Calls

/-- **The discipline of the syncs**: only blocks of bitcoind are stored. -/
@[reducible] def storing (source : BlockSource codec) (base : BlockHeader) :
    Discipline (chainSyncs source) where
  permits := keepsToTip source base
  inv := fun s => s.tables.Kept source base
  rely := fun _ _ _ _ => True
  guar := fun _ _ _ _ _ => True
  later := fun _ _ => True
  post := fun _ _ _ _ => True

theorem storing_stable {source : BlockSource codec} {base : BlockHeader} :
    (storing source base).Stable where
  rely_refl := fun _ _ _ => trivial
  rely_trans := fun _ _ => trivial

section Programs

variable {source : BlockSource codec} {base : BlockHeader} {i : ℕ} {t : SyncTask} {α β : Type}

/-- **A program indexes blocks of bitcoind only.** -/
abbrev Indexes (source : BlockSource codec) (base : BlockHeader) (i : ℕ) (t : SyncTask)
    (p : Prog ChainServices α) : Prop :=
  ∀ s : SyncsState, s.tables.Kept source base → (storing source base).Safe i t (fun _ _ => True) p s

theorem Indexes.ret {a : α} : Indexes source base i t (.ret a) :=
  fun _ _ _ _ _ => trivial

/-- A call, with what is known of its reply. -/
theorem Indexes.call {c : ChainCall} {k : c.Reply → Prog ChainServices α} (hc : IsStored source c)
    (hk : ∀ ch s r s', SyncsState.serve source c ch s = some (r, s') →
      Indexes source base i t (k r)) :
    Indexes source base i t (.call c k) := by
  intro s hs s₁ _ hs₁ hkeeps ch r s₂ hserve
  have hs₂ : s₂.tables.Kept source base := by
    rcases SyncsState.tables_of_serve hserve with heq | heq
    · exact heq ▸ hs₁
    · exact heq ▸ hs₁.written hc hkeeps
  exact ⟨hs₂, trivial, hk ch s₁ r s₂ hserve s₂ hs₂⟩

/-- Programs that store no block, whatever they are answered. -/
theorem Indexes.of_onlyCalls {p : Prog ChainServices α} (h : p.OnlyCalls (IsStored source)) :
    Indexes source base i t p := by
  induction p with
  | ret a => exact Indexes.ret
  | call c k ih => exact Indexes.call h.1 (fun _ _ r _ _ => ih r (h.2 r))

/-- **Sequencing.** -/
theorem Indexes.bind {p : Monitoring α} {f : α → Monitoring β} (h : Indexes source base i t p.run)
    (hf : ∀ a, Indexes source base i t (f a).run) : Indexes source base i t (p >>= f).run := by
  intro s hs
  refine Discipline.Safe.tryBind storing_stable ((h s hs).mono (fun o s' hs' _ => ?_)) hs
  cases o with
  | error e => exact fun _ _ _ => trivial
  | ok a => exact hf a s' hs'

/-- The calls of the walk back. -/
def ChainCall.AsksHeaders : ChainCall → Prop
  | .getBlockHeader _ | .isCancelled | .never => True
  | _ => False

theorem ChainCall.AsksHeaders.isStored {c : ChainCall} (h : c.AsksHeaders) : IsStored source c := by
  cases c <;> trivial

theorem unwrap_asksHeaders {o : Option α} :
    (ChainMonitor.unwrap o).run.OnlyCalls ChainCall.AsksHeaders := by
  cases o with
  | none => exact ⟨trivial, fun r => nomatch r⟩
  | some a => trivial

theorem walkBack_asksHeaders {existing new : Chain} {n : ℕ} {current : BlockHeader} :
    (ChainMonitor.walkBack existing n current new).run.OnlyCalls ChainCall.AsksHeaders := by
  induction n generalizing current new with
  | zero => exact unwrap_asksHeaders
  | succ n ih =>
    refine ⟨trivial, fun cancelled => ?_⟩
    cases cancelled with
    | true => trivial
    | false =>
      by_cases hknown : existing.containsBlock current.hash = true
      · simp only [hknown]
        trivial
      · simp only [hknown]
        refine ⟨trivial, fun r => ?_⟩
        cases r with
        | error e => trivial
        | ok header =>
          refine Prog.OnlyCalls.tryBind unwrap_asksHeaders (fun prepended => ?_)
          obtain ⟨new', e | ⟨⟩⟩ := prepended
          · trivial
          · exact ih

theorem indexes_unwrap {o : Option α} : Indexes source base i t (ChainMonitor.unwrap o).run :=
  Indexes.of_onlyCalls (unwrap_asksHeaders.mono (fun _ hc => hc.isStored))

/-- **`process_block`** indexes a block of bitcoind. -/
theorem indexes_processBlock {b : Block} (hb : source.toBlockTree.Has b) :
    Indexes source base i t (ChainMonitor.processBlock codec b).run := by
  unfold ChainMonitor.processBlock
  cases hheight : b.bip34Height with
  | none => exact Indexes.ret
  | some height =>
    refine Indexes.call trivial (fun _ _ r _ _ => ?_)
    cases r with
    | error e => exact Indexes.ret
    | ok watched =>
      refine Indexes.call ⟨b, height, watched, hb, hheight, rfl, rfl, rfl⟩ (fun _ _ r _ _ => ?_)
      cases r with
      | error e => exact Indexes.ret
      | ok _ => exact Indexes.ret

theorem indexes_walkBack {existing new : Chain} {n : ℕ} {current : BlockHeader} :
    Indexes source base i t (ChainMonitor.walkBack existing n current new).run :=
  Indexes.of_onlyCalls (walkBack_asksHeaders.mono (fun _ hc => hc.isStored))

theorem indexes_undoBlocks {new : Chain} {blocks : List BlockHeader} :
    Indexes source base i t (ChainMonitor.undoBlocks new blocks).run := by
  induction blocks with
  | nil => exact Indexes.ret
  | cons block blocks ih =>
    refine Indexes.call trivial (fun _ _ cancelled _ _ => ?_)
    cases cancelled with
    | true => exact Indexes.ret
    | false =>
      by_cases hknown : new.containsBlock block.hash = true
      · simp only [hknown]
        exact Indexes.ret
      · simp only [hknown]
        refine Indexes.call trivial (fun _ _ r _ _ => ?_)
        cases r with
        | error e => exact Indexes.ret
        | ok _ => exact ih

theorem indexes_addBlocks {headers : List BlockHeader} :
    Indexes source base i t (ChainMonitor.addBlocks codec headers).run := by
  induction headers with
  | nil => exact Indexes.ret
  | cons header headers ih =>
    refine Indexes.call trivial (fun _ _ cancelled _ _ => ?_)
    cases cancelled with
    | true => exact Indexes.ret
    | false =>
      refine Indexes.call trivial (fun ch s r s' hserve => ?_)
      cases r with
      | error e => exact Indexes.ret
      | ok b =>
        have hb := BlockTree.has_of_block (SyncsState.block_of_serve hserve b rfl)
        exact Indexes.bind (indexes_processBlock hb) (fun _ => ih)

theorem indexes_undoReorged {existing new : Chain} :
    Indexes source base i t (ChainMonitor.undoReorged existing new).run := by
  refine Indexes.bind indexes_unwrap (fun newBase => Indexes.bind indexes_unwrap (fun tip => ?_))
  by_cases heq : newBase = tip
  · rw [if_pos heq]
    exact Indexes.ret
  · rw [if_neg heq]
    exact Indexes.bind indexes_unwrap (fun _ => indexes_undoBlocks)

theorem indexes_extend {existing new : Chain} :
    Indexes source base i t (ChainMonitor.extend codec existing new).run := by
  refine Indexes.bind indexes_unwrap (fun _ => Indexes.bind indexes_addBlocks (fun done => ?_))
  cases done with
  | false => exact Indexes.ret
  | true =>
    refine Indexes.bind indexes_unwrap (fun moved => ?_)
    obtain ⟨chain, e | ⟨⟩⟩ := moved <;> exact Indexes.ret

/-- **`do_sync`** indexes blocks of bitcoind only. -/
theorem indexes_doSync {existing : Chain} {steps : ℕ} :
    Indexes source base i t (ChainMonitor.doSync codec steps existing).run := by
  refine Indexes.call trivial (fun _ _ r _ _ => ?_)
  cases r with
  | error e => exact Indexes.ret
  | ok tipHash =>
    refine Indexes.call trivial (fun _ _ r _ _ => ?_)
    cases r with
    | error e => exact Indexes.ret
    | ok header =>
      refine Indexes.bind indexes_walkBack (fun walked => ?_)
      cases walked with
      | none => exact Indexes.ret
      | some new =>
        refine Indexes.bind indexes_undoReorged (fun done => ?_)
        cases done with
        | false => exact Indexes.ret
        | true => exact indexes_extend

theorem indexes_startTipSync {steps n : ℕ} {chain : Chain} :
    Indexes source base i t (ChainMonitor.startTipSync codec steps n chain).run := by
  induction n generalizing chain with
  | zero => exact Indexes.ret
  | succ n ih =>
    refine Indexes.call trivial (fun _ _ cancelled _ _ => ?_)
    cases cancelled with
    | true => exact Indexes.ret
    | false =>
      refine Indexes.bind indexes_doSync (fun o => ?_)
      cases o with
      | none => exact ih
      | some chain => exact ih

theorem indexes_startFullSync {steps n : ℕ} {birthdayChain : Chain} :
    Indexes source base i t (ChainMonitor.startFullSync codec steps birthdayChain n).run := by
  induction n with
  | zero => exact Indexes.ret
  | succ n ih =>
    refine Indexes.call trivial (fun _ _ cancelled _ _ => ?_)
    cases cancelled with
    | true => exact Indexes.ret
    | false => exact Indexes.bind indexes_doSync (fun _ => ih)

end Programs

/-! ## Every run -/

section Runs

variable {source : BlockSource codec} {base : BlockHeader} {steps : ℕ}
  {S S' : (chainSyncs source).Config}

theorem storing_sound : (storing source base).Sound where
  toStable := storing_stable
  later_refl := fun _ => trivial
  later_trans := fun _ _ => trivial
  guar_rely := fun _ _ _ _ => trivial
  guar_later := fun _ _ _ => trivial
  drift := fun {m s s'} hs hmove => by
    refine ⟨?_, fun _ _ => trivial, trivial⟩
    cases m with
    | tip best =>
      obtain rfl := Option.some.inj hmove
      exact hs
    | watch address =>
      obtain rfl := Option.some.inj hmove
      exact ⟨{ hs.sound with }, hs.single⟩
  spawn := fun {sp} => sp.elim
  halt := fun hs hhalt => by
    obtain rfl := Option.some.inj hhalt
    exact ⟨hs, fun _ _ _ => trivial, trivial⟩

/-- Two threads, from the start. -/
theorem ok_of_pair {D : Discipline (chainSyncs source)} (hD : D.Sound) {s : SyncsState}
    {p q : Prog ChainServices (Except ChainError Unit)} (hs : D.inv s)
    (hstate : S.state = s) (hthreads : S.threads = [⟨.tip, some p⟩, ⟨.full, some q⟩])
    (hp : D.Safe 0 .tip (fun a s => ∀ s', D.later s s' → D.inv s' → D.post 0 .tip a s') p s)
    (hq : D.Safe 1 .full (fun a s => ∀ s', D.later s s' → D.inv s' → D.post 1 .full a s') q s) :
    D.Ok S := by
  subst hstate
  refine ⟨hs, fun i T hT => ?_⟩
  rw [hthreads] at hT
  match i with
  | 0 =>
    obtain rfl := Option.some.inj hT
    exact Discipline.ThreadOk.of_safe hD hs hp
  | 1 =>
    obtain rfl := Option.some.inj hT
    exact Discipline.ThreadOk.of_safe hD hs hq
  | i + 2 => cases hT

/-- **Whenever every write keeps to the tip**, the rows come from blocks of bitcoind and
those of `blocks` are one chain. -/
theorem kept_reachable
    (h : ReachableIf (keepsToTip source base) (IsSyncsStart source steps base) S) :
    S.state.tables.Kept source base := by
  have hok : (storing source base).Ok S := storing_sound.reachable (fun S₀ h₀ => by
    obtain ⟨chain, m, n, -, -, hthreads⟩ := h₀.threads
    exact ok_of_pair storing_sound h₀.kept rfl hthreads
      ((indexes_startTipSync _ h₀.kept).mono (fun _ _ _ _ _ _ _ => trivial))
      ((indexes_startFullSync _ h₀.kept).mono (fun _ _ _ _ _ _ _ => trivial))) h
  exact hok.1

end Runs

end Swapd
