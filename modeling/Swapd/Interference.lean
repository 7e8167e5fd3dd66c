import Mathlib.Data.List.Basic
import Mathlib.Logic.Relation
import Swapd.Interaction

/-!
# Programs that run side by side

A `Machine` runs any number of interactive programs over one shared state. Its
steps are the ones a real deployment has: a thread is served the call it is
waiting on, a new thread is spawned, a set of threads is stopped where it
stands – a handler abandoned by its client, a process that crashed – and the
world drifts on its own. `Machine.step` computes each of them, so a schedule
can be run; `Machine.Reachable` closes them under every interleaving.

What such a machine guarantees is proved thread by thread. A `Discipline`
fixes an invariant of the shared state, the effects a thread may have
(`guar`), and what a thread may rely on while others run (`rely`);
`Discipline.Safe` says of one program, by recursion over it, that it keeps the
discipline whatever happens between its calls. Because interference is built
into `Safe`, the predicate is stable by construction
(`Discipline.Safe.of_rely`), and `Discipline.Sound.reachable` puts the threads
together: the invariant holds in every reachable state, every thread is safe
there, and a thread that has finished has the result it promised, for good.

A discipline also names the steps it is about. `permits` is a condition on a
call and the state in which it is served; the runs all of whose steps meet it
are those of `Machine.ReachableIf`, and with the trivial condition they are
all runs.
-/

/-- **A machine**: a shared state, and what serving a call, spawning a thread,
stopping threads and the world's own motion do to it. -/
structure Machine (I : Interface) where
  /-- The shared state. -/
  State : Type
  /-- What a thread is there for. -/
  Task : Type
  /-- What threads return. -/
  Result : Type
  /-- How a call is resolved where the state does not decide it. -/
  Choice : Type
  /-- The requests that spawn a thread. -/
  Spawn : Type
  /-- The ways threads are stopped. -/
  Halt : Type
  /-- The world's own moves. -/
  Drift : Type
  /-- Serving a call of the `i`-th thread. -/
  serve : ℕ → Task → (c : I.Call) → Choice → State → Option (I.Reply c × State)
  /-- The thread a request spawns, under the index given, and the state it
  leaves. -/
  spawn : Spawn → ℕ → State → Option ((Task × Prog I Result) × State)
  /-- Whether a thread is stopped. -/
  stops : Halt → ℕ → Task → Bool
  /-- What stopping threads does to the state. -/
  halt : Halt → State → Option State
  /-- A move of the world. -/
  drift : Drift → State → Option State

namespace Machine

variable {I : Interface} (M : Machine I)

/-- **A thread**: its task, and what remains of its program – nothing at all
once it has been stopped. -/
structure Thread where
  /-- What the thread is there for. -/
  task : M.Task
  /-- What remains of its program. -/
  prog : Option (Prog I M.Result)

/-- **A configuration**: the shared state and the threads, in the order in
which they were spawned. -/
structure Config where
  /-- The shared state. -/
  state : M.State
  /-- The threads. -/
  threads : List M.Thread

/-- The steps a machine can be asked to take. -/
inductive Action where
  | run (i : ℕ) (ch : M.Choice)
  | spawn (sp : M.Spawn)
  | halt (h : M.Halt)
  | drift (d : M.Drift)

variable {M}

/-- A thread after a halt: stopped if it was running and is concerned. -/
def Thread.halted (h : M.Halt) (i : ℕ) (t : M.Thread) : M.Thread :=
  match t.prog with
  | some (.call c k) => if M.stops h i t.task then ⟨t.task, none⟩ else ⟨t.task, some (.call c k)⟩
  | _ => t

/-- **One step**, where it is possible. -/
def step (S : M.Config) : M.Action → Option M.Config
  | .run i ch =>
    match S.threads[i]? with
    | some ⟨t, some (.call c k)⟩ =>
      (M.serve i t c ch S.state).map (fun rs =>
        ⟨rs.2, S.threads.set i ⟨t, some (k rs.1)⟩⟩)
    | _ => none
  | .spawn sp =>
    (M.spawn sp S.threads.length S.state).map (fun tps =>
      ⟨tps.2, S.threads ++ [⟨tps.1.1, some tps.1.2⟩]⟩)
  | .halt h =>
    (M.halt h S.state).map (fun s' =>
      ⟨s', S.threads.mapIdx (Thread.halted h)⟩)
  | .drift d => (M.drift d S.state).map (fun s' => ⟨s', S.threads⟩)

/-- A condition on the calls served: what the thread, its task and its call
are, and the state before. -/
abbrev Condition (M : Machine I) : Type :=
  ℕ → M.Task → I.Call → M.State → Prop

/-- **A step meets a condition** when the call it serves, if any, does. -/
def Meets (cond : M.Condition) (S : M.Config) : M.Action → Prop
  | .run i _ => ∀ t c k, S.threads[i]? = some ⟨t, some (.call c k)⟩ →
      cond i t c S.state
  | _ => True

/-- One step that meets a condition. -/
def StepIf (cond : M.Condition) (S S' : M.Config) : Prop :=
  ∃ a, Meets cond S a ∧ step S a = some S'

/-- **The configurations reachable** from an initial one by steps that meet a
condition. -/
def ReachableIf (cond : M.Condition) (init : M.Config → Prop)
    (S : M.Config) : Prop :=
  ∃ S₀, init S₀ ∧ Relation.ReflTransGen (StepIf cond) S₀ S

/-- The configurations reachable from an initial one by any steps. -/
abbrev Reachable (init : M.Config → Prop) (S : M.Config) : Prop :=
  ReachableIf (fun _ _ _ _ => True) init S

/-- A weaker condition is met a fortiori. -/
theorem ReachableIf.mono {cond cond' : M.Condition} {init : M.Config → Prop} {S : M.Config}
    (h : ReachableIf cond init S) (hcond : ∀ i t c s, cond i t c s → cond' i t c s) :
    ReachableIf cond' init S := by
  obtain ⟨S₀, h₀, hrun⟩ := h
  refine ⟨S₀, h₀, Relation.ReflTransGen.mono (fun S₁ S₂ hstep => ?_) S₀ S hrun⟩
  obtain ⟨a, hmeets, hs⟩ := hstep
  refine ⟨a, ?_, hs⟩
  cases a with
  | run i ch => exact fun t c k hT => hcond i t c S₁.state (hmeets t c k hT)
  | _ => trivial

/-- Whether a step meets a condition. -/
def meets (cond : M.Condition) [∀ i t c s, Decidable (cond i t c s)] (S : M.Config) :
    M.Action → Bool
  | .run i _ =>
    match S.threads[i]? with
    | some ⟨t, some (.call c _)⟩ => decide (cond i t c S.state)
    | _ => true
  | _ => true

theorem meets_of_eq_true {cond : M.Condition} [∀ i t c s, Decidable (cond i t c s)]
    {S : M.Config} {a : M.Action} (h : meets cond S a = true) : Meets cond S a := by
  cases a with
  | run i ch =>
    intro t c k hT
    simpa [meets, hT] using h
  | _ => trivial

/-- **A schedule, run** from a configuration as far as its steps are possible
and meet a condition. -/
def runs (cond : M.Condition) [∀ i t c s, Decidable (cond i t c s)] (S : M.Config) :
    List M.Action → Option M.Config
  | [] => some S
  | a :: as =>
    if meets cond S a then (step S a).bind (fun S' => runs cond S' as) else none

/-- Where a schedule leads, or where it started if it is not possible. -/
def after (cond : M.Condition) [∀ i t c s, Decidable (cond i t c s)] (S : M.Config)
    (as : List M.Action) : M.Config :=
  (runs cond S as).getD S

/-- What a schedule leads to is reachable. -/
theorem reflTransGen_of_runs {cond : M.Condition} [∀ i t c s, Decidable (cond i t c s)]
    {S S' : M.Config} {as : List M.Action} (h : runs cond S as = some S') :
    Relation.ReflTransGen (StepIf cond) S S' := by
  induction as generalizing S with
  | nil =>
    obtain rfl : S = S' := Option.some.inj h
    exact .refl
  | cons a as ih =>
    simp only [runs] at h
    split at h
    next hmeets =>
      obtain ⟨S₁, h₁, h₂⟩ := Option.bind_eq_some_iff.mp h
      exact .head ⟨a, meets_of_eq_true hmeets, h₁⟩ (ih h₂)
    next => cases h

theorem reflTransGen_after {cond : M.Condition} [∀ i t c s, Decidable (cond i t c s)]
    (S : M.Config) (as : List M.Action) :
    Relation.ReflTransGen (StepIf cond) S (after cond S as) := by
  unfold after
  cases h : runs cond S as with
  | none => exact .refl
  | some S' => exact reflTransGen_of_runs h

/-- The `i`-th thread waits for a call to be served. -/
def Config.Awaits (S : M.Config) (i : ℕ) (t : M.Task) (c : I.Call) : Prop :=
  ∃ k, S.threads[i]? = some ⟨t, some (.call c k)⟩

/-- The task of a thread. -/
def Config.task (S : M.Config) (i : ℕ) : Option M.Task := S.threads[i]?.map Thread.task

/-- A thread that takes a step awaits the call that is served. -/
theorem Config.awaits_of_step {S S' : M.Config} {i : ℕ} {ch : M.Choice} {t : M.Task}
    (ht : S.task i = some t) (h : step S (.run i ch) = some S') :
    ∃ c, S.Awaits i t c := by
  simp only [step] at h
  split at h
  next t' c k hT =>
    simp only [Config.task, hT, Option.map_some, Option.some.injEq] at ht
    exact ⟨c, k, ht ▸ hT⟩
  next => cases h

/-- The result of a thread that has finished. -/
def Config.result (S : M.Config) (i : ℕ) : Option M.Result :=
  match S.threads[i]? with
  | some ⟨_, some (.ret a)⟩ => some a
  | _ => none

theorem Config.result_eq_some {S : M.Config} {i : ℕ} {a : M.Result}
    (h : S.result i = some a) : ∃ t, S.threads[i]? = some ⟨t, some (.ret a)⟩ := by
  unfold Config.result at h
  split at h
  next t a' hT => exact ⟨t, by rw [hT, Option.some.inj h]⟩
  next => cases h

/-- What the `i`-th thread is after a halt. -/
theorem getElem?_mapIdx_halted (h : M.Halt) (ts : List M.Thread) (i : ℕ) :
    (ts.mapIdx (Thread.halted h))[i]? = ts[i]?.map (Thread.halted h i) :=
  List.getElem?_mapIdx

/-- The result of a thread depends on that thread only. -/
theorem Config.result_congr {S S' : M.Config} {i : ℕ} (h : S'.threads[i]? = S.threads[i]?) :
    S'.result i = S.result i := by
  unfold Config.result
  rw [h]

/-- A thread that awaits a call has no result. -/
theorem Config.result_of_call {S : M.Config} {i : ℕ} {t : M.Task} {c : I.Call}
    {k : I.Reply c → Prog I M.Result} (h : S.threads[i]? = some ⟨t, some (.call c k)⟩) :
    S.result i = none := by
  unfold Config.result
  rw [h]

theorem Config.result_of_ret {S : M.Config} {i : ℕ} {t : M.Task} {a : M.Result}
    (h : S.threads[i]? = some ⟨t, some (.ret a)⟩) : S.result i = some a := by
  unfold Config.result
  rw [h]

/-- A thread that is stopped has no result, and none that has one is stopped. -/
theorem Config.result_halted {S : M.Config} {s' : M.State} {h : M.Halt} (i : ℕ) :
    Config.result ⟨s', S.threads.mapIdx (Thread.halted h)⟩ i = S.result i := by
  have hget : (S.threads.mapIdx (Thread.halted h))[i]? = S.threads[i]?.map (Thread.halted h i) :=
    List.getElem?_mapIdx
  unfold Config.result
  dsimp only
  rw [hget]
  cases S.threads[i]? with
  | none => rfl
  | some T =>
    obtain ⟨t, _ | (a | ⟨c, k⟩)⟩ := T
    · rfl
    · rfl
    · simp only [Option.map_some, Thread.halted]
      cases M.stops h i t <;> rfl

/-- A thread that is spawned has a result if there is nothing left to do. -/
theorem Config.result_append {S : M.Config} {s' : M.State} {T : M.Thread} {i : ℕ}
    {a : M.Result} : Config.result ⟨s', S.threads ++ [T]⟩ i = some a ↔
      S.result i = some a ∨ i = S.threads.length ∧ T.prog = some (.ret a) := by
  rcases Nat.lt_trichotomy i S.threads.length with hlt | rfl | hgt
  · rw [Config.result_congr (S := S) (List.getElem?_append_left hlt), iff_self_or]
    exact fun h => absurd h.1 (Nat.ne_of_lt hlt)
  · have hnone : S.result S.threads.length = none := by
      unfold Config.result
      rw [List.getElem?_eq_none (Nat.le_refl _)]
    rw [hnone]
    obtain ⟨t, _ | (b | ⟨c, k⟩)⟩ := T
    · simp [Config.result]
    · simp [Config.result]
    · simp [Config.result]
  · have hnone (S : M.Config) (h : S.threads.length ≤ i) : S.result i = none := by
      unfold Config.result
      rw [List.getElem?_eq_none h]
    rw [hnone S (Nat.le_of_lt hgt), hnone _ (by simpa using Nat.succ_le_of_lt hgt)]
    simp [Nat.ne_of_gt hgt]

/-- A thread that goes on has the task it had. -/
theorem map_task_set {ts : List M.Thread} {i : ℕ} {t : M.Task} {p q : Option (Prog I M.Result)}
    (h : ts[i]? = some ⟨t, p⟩) : (ts.set i ⟨t, q⟩).map Thread.task = ts.map Thread.task := by
  refine List.ext_getElem? (fun j => ?_)
  rw [List.getElem?_map, List.getElem?_map]
  by_cases hij : i = j
  · subst hij
    rw [List.getElem?_set_self (List.getElem?_eq_some_iff.mp h).1, h]
    rfl
  · rw [List.getElem?_set_ne hij]

/-- A thread that is stopped has the task it had. -/
theorem map_task_halted {h : M.Halt} {ts : List M.Thread} :
    (ts.mapIdx (Thread.halted h)).map Thread.task = ts.map Thread.task := by
  refine List.ext_getElem? (fun j => ?_)
  rw [List.getElem?_map, List.getElem?_map, getElem?_mapIdx_halted, Option.map_map]
  refine congrArg (fun f => ts[j]?.map f) (funext (fun T => ?_))
  show (T.halted h j).task = T.task
  unfold Thread.halted
  split
  next => split <;> rfl
  next => rfl

end Machine

/-! ## Disciplines -/

/-- **A discipline** for the threads of a machine. -/
structure Discipline {I : Interface} (M : Machine I) where
  /-- The steps considered. -/
  permits : M.Condition
  /-- The invariant of the shared state. -/
  inv : M.State → Prop
  /-- What a thread may rely on while it waits. -/
  rely : ℕ → M.Task → M.State → M.State → Prop
  /-- The effects a thread's call may have. -/
  guar : ℕ → M.Task → I.Call → M.State → M.State → Prop
  /-- How the state may evolve by any step at all. -/
  later : M.State → M.State → Prop
  /-- What holds of the result of a finished thread, for good. -/
  post : ℕ → M.Task → M.Result → M.State → Prop

namespace Discipline

variable {I : Interface} {M : Machine I} (D : Discipline M)

/-- **A program keeps the discipline**: between two of its calls anything the
thread may rely on can happen, each call preserves the invariant and has an
allowed effect, and the result is as promised in every later state.

The postcondition is a parameter, so that a program can be proved in parts. -/
def Safe {α : Type} (i : ℕ) (t : M.Task) (Q : α → M.State → Prop) :
    Prog I α → M.State → Prop
  | .ret a, s => ∀ s', D.rely i t s s' → D.inv s' → Q a s'
  | .call c k, s => ∀ s', D.rely i t s s' → D.inv s' → D.permits i t c s' →
      ∀ ch r s'', M.serve i t c ch s' = some (r, s'') →
        D.inv s'' ∧ D.guar i t c s' s'' ∧ Safe i t Q (k r) s''

/-- What may be relied on is closed under repetition. -/
structure Stable : Prop where
  rely_refl : ∀ i t s, D.rely i t s s
  rely_trans : ∀ {i t s₁ s₂ s₃}, D.rely i t s₁ s₂ → D.rely i t s₂ s₃ →
    D.rely i t s₁ s₃

/-- What a discipline owes for its threads to be put together. -/
structure Sound : Prop extends D.Stable where
  later_refl : ∀ s, D.later s s
  later_trans : ∀ {s₁ s₂ s₃}, D.later s₁ s₂ → D.later s₂ s₃ → D.later s₁ s₃
  /-- What one thread does, the others may rely on. -/
  guar_rely : ∀ {i j t u c s s'}, i ≠ j → D.inv s → D.inv s' →
    D.guar i t c s s' → D.rely j u s s'
  guar_later : ∀ {i t c s s'}, D.inv s → D.inv s' → D.guar i t c s s' →
    D.later s s'
  /-- The world's moves keep the invariant, and everybody may rely on them. -/
  drift : ∀ {d s s'}, D.inv s → M.drift d s = some s' →
    D.inv s' ∧ (∀ i t, D.rely i t s s') ∧ D.later s s'
  /-- A new thread keeps the discipline and disturbs nobody. -/
  spawn : ∀ {sp n s t p s'}, D.inv s → M.spawn sp n s = some ((t, p), s') →
    D.inv s' ∧ (∀ i u, i ≠ n → D.rely i u s s') ∧ D.later s s' ∧
      D.Safe n t (fun a s => ∀ s', D.later s s' → D.inv s' → D.post n t a s') p s'
  /-- Stopping threads disturbs none of the others. -/
  halt : ∀ {h s s'}, D.inv s → M.halt h s = some s' →
    D.inv s' ∧ (∀ i t, M.stops h i t = false → D.rely i t s s') ∧ D.later s s'

variable {D}

namespace Safe

variable {α β : Type} {i : ℕ} {t : M.Task} {Q Q' : α → M.State → Prop}

/-- **A safe program is safe after interference.** -/
theorem of_rely (hD : D.Stable) {p : Prog I α} {s s' : M.State}
    (h : D.Safe i t Q p s) (hr : D.rely i t s s') : D.Safe i t Q p s' := by
  cases p with
  | ret a => exact fun s'' hr' hi => h s'' (hD.rely_trans hr hr') hi
  | call c k => exact fun s'' hr' hi => h s'' (hD.rely_trans hr hr') hi

/-- A weaker postcondition is met a fortiori. -/
theorem mono {p : Prog I α} {s : M.State} (h : D.Safe i t Q p s)
    (hQ : ∀ a s', D.inv s' → Q a s' → Q' a s') : D.Safe i t Q' p s := by
  induction p generalizing s with
  | ret a => exact fun s' hr hi => hQ a s' hi (h s' hr hi)
  | call c k ih =>
    intro s' hr hi hp ch r s'' hs
    obtain ⟨h₁, h₂, h₃⟩ := h s' hr hi hp ch r s'' hs
    exact ⟨h₁, h₂, ih r h₃⟩

/-- **A result is returned** once its postcondition is stable. -/
theorem ret {a : α} {s : M.State}
    (h : ∀ s', D.rely i t s s' → D.inv s' → Q a s') :
    D.Safe i t Q (.ret a) s := h

/-- **Sequencing.** -/
theorem bind (hD : D.Stable) {p : Prog I α} {f : α → Prog I β}
    {R : β → M.State → Prop} {s : M.State}
    (h : D.Safe i t (fun a s' => D.Safe i t R (f a) s') p s)
    (hi : D.inv s) : D.Safe i t R (p >>= f) s := by
  induction p generalizing s with
  | ret a => exact h s (hD.rely_refl i t s) hi
  | call c k ih =>
    intro s' hr hi' hp ch r s'' hs
    obtain ⟨h₁, h₂, h₃⟩ := h s' hr hi' hp ch r s'' hs
    exact ⟨h₁, h₂, ih r h₃ h₁⟩

/-- **Sequencing, with failure.** -/
theorem tryBind (hD : D.Stable) {ε : Type} {x : ExceptT ε (Prog I) α}
    {f : α → ExceptT ε (Prog I) β} {R : Except ε β → M.State → Prop} {s : M.State}
    (h : D.Safe i t (fun o s' => Prog.onOutcome (fun e => D.Safe i t R (.ret (.error e)) s')
      (fun a => D.Safe i t R (f a).run s') o) x.run s) (hi : D.inv s) :
    D.Safe i t R (x >>= f).run s := by
  rw [Prog.run_bind_eq]
  refine bind hD (h.mono (fun o s' _ ho => ?_)) hi
  cases o with
  | error e => exact ho
  | ok a => exact ho

/-- **Recovery from a failure.** -/
theorem tryCatch (hD : D.Stable) {ε : Type} {x : ExceptT ε (Prog I) α}
    {f : ε → ExceptT ε (Prog I) α} {R : Except ε α → M.State → Prop} {s : M.State}
    (h : D.Safe i t (fun o s' => Prog.onOutcome (fun e => D.Safe i t R (f e).run s')
      (fun a => D.Safe i t R (.ret (.ok a)) s') o) x.run s) (hi : D.inv s) :
    D.Safe i t R (tryCatch x f).run s := by
  show D.Safe i t R (x.run >>= _) s
  refine bind hD (h.mono (fun o s' _ ho => ?_)) hi
  cases o with
  | error e => exact ho
  | ok a => exact ho

/-- **A call under a stable assertion.** If `P` survives interference, it is
enough to look at the call where `P` holds. -/
theorem call_of_stable {P : M.State → Prop} {c : I.Call}
    {k : I.Reply c → Prog I α} {s : M.State} (hP : P s)
    (hstable : ∀ s s', P s → D.rely i t s s' → D.inv s' → P s')
    (h : ∀ s', P s' → D.inv s' → D.permits i t c s' → ∀ ch r s'',
      M.serve i t c ch s' = some (r, s'') →
        D.inv s'' ∧ D.guar i t c s' s'' ∧ D.Safe i t Q (k r) s'') :
    D.Safe i t Q (.call c k) s :=
  fun s' hr hi hp ch r s'' hs => h s' (hstable s s' hP hr hi) hi hp ch r s'' hs

/-- **A stretch of calls that leave an assertion alone.** If every call of a
program is of a kind that preserves `P`, the invariant and the discipline, and
`P` is stable, then `P` still holds at the end. -/
theorem of_onlyCalls {P : M.State → Prop}
    {kind : I.Call → Prop} {p : Prog I α} (hk : p.OnlyCalls kind)
    (hstable : ∀ s s', P s → D.rely i t s s' → D.inv s' → P s')
    (hserve : ∀ c, kind c → ∀ s ch r s', P s → D.inv s → D.permits i t c s →
      M.serve i t c ch s = some (r, s') →
        D.inv s' ∧ D.guar i t c s s' ∧ P s')
    {s : M.State} (hP : P s) : D.Safe i t (fun _ s' => P s') p s := by
  induction p generalizing s with
  | ret a => exact fun s' hr hi => hstable s s' hP hr hi
  | call c k ih =>
    refine call_of_stable hP hstable (fun s' hP' hi hp ch r s'' hs => ?_)
    obtain ⟨h₁, h₂, h₃⟩ := hserve c hk.1 s' ch r s'' hP' hi hp hs
    exact ⟨h₁, h₂, ih r (hk.2 r) h₃⟩

/-- **The frame rule.** What neither the others nor the thread's own calls can
take away still holds at the end. -/
theorem frame {P : M.State → Prop} {p : Prog I α} {s : M.State}
    (h : D.Safe i t Q p s) (hP : P s)
    (hrely : ∀ s s', P s → D.rely i t s s' → D.inv s' → P s')
    (hguar : ∀ c s s', P s → D.inv s → D.guar i t c s s' → P s') :
    D.Safe i t (fun a s' => Q a s' ∧ P s') p s := by
  induction p generalizing s with
  | ret a => exact fun s' hr hi => ⟨h s' hr hi, hrely s s' hP hr hi⟩
  | call c k ih =>
    intro s' hr hi hp ch r s'' hs
    obtain ⟨h₁, h₂, h₃⟩ := h s' hr hi hp ch r s'' hs
    exact ⟨h₁, h₂, ih r h₃ (hguar c s' s'' (hrely s s' hP hr hi) hi h₂)⟩

/-- Sequencing, for a program that has been implemented. -/
theorem interpret_bind (hD : D.Stable) {J : Interface}
    {impl : (c : J.Call) → Prog I (J.Reply c)} {p : Prog J α} {f : α → Prog J β}
    {R : β → M.State → Prop} {s : M.State}
    (h : D.Safe i t (fun a s' => D.Safe i t R ((f a).interpret impl) s')
      (p.interpret impl) s) (hi : D.inv s) :
    D.Safe i t R ((p >>= f).interpret impl) s := by
  rw [Prog.interpret_bind]
  exact Safe.bind hD h hi

/-- Sequencing, for a program that may fail and has been implemented. -/
theorem interpret_tryBind (hD : D.Stable) {J : Interface} {ε : Type}
    {impl : (c : J.Call) → Prog I (J.Reply c)} {x : ExceptT ε (Prog J) α}
    {f : α → ExceptT ε (Prog J) β} {R : Except ε β → M.State → Prop} {s : M.State}
    (h : D.Safe i t (fun o s' => Prog.onOutcome
        (fun e => D.Safe i t R (.ret (.error e)) s')
        (fun a => D.Safe i t R ((f a).run.interpret impl) s') o)
      (x.run.interpret impl) s) (hi : D.inv s) :
    D.Safe i t R ((x >>= f).run.interpret impl) s := by
  rw [Prog.run_bind_eq]
  refine interpret_bind hD (h.mono (fun o s' _ ho => ?_)) hi
  cases o with
  | error e => exact ho
  | ok a => exact ho

/-- **A stretch of calls that leave an assertion alone**, for a program that has
been implemented, with what is known of its results. -/
theorem interpret_of_onlyCalls {J : Interface}
    {impl : (c : J.Call) → Prog I (J.Reply c)} (hD : D.Stable) {P : M.State → Prop}
    {R : α → Prop} {kind : J.Call → Prop} {p : Prog J α} (hk : p.OnlyCalls kind)
    (hr : p.Returns R)
    (hstable : ∀ s s', P s → D.rely i t s s' → D.inv s' → P s')
    (hserve : ∀ c, kind c → ∀ s, P s → D.inv s →
      D.Safe i t (fun _ s' => P s') (impl c) s)
    {s : M.State} (hP : P s) (hi : D.inv s) :
    D.Safe i t (fun a s' => R a ∧ P s') (p.interpret impl) s := by
  induction p generalizing s with
  | ret a => exact fun s' hrel hi' => ⟨hr, hstable s s' hP hrel hi'⟩
  | call c k ih =>
    refine Safe.bind hD ((hserve c hk.1 s hP hi).mono (fun r s' hi' hP' => ?_)) hi
    exact ih r (hk.2 r) (hr r) hP' hi'

end Safe

/-! ## Putting the threads together -/

/-- What is invariantly true of a thread: it keeps the discipline, and its
result, once it has one, is as promised. -/
def ThreadOk (D : Discipline M) (i : ℕ) (T : M.Thread) (s : M.State) : Prop :=
  match T.prog with
  | none => True
  | some (.ret a) => ∀ s', D.later s s' → D.inv s' → D.post i T.task a s'
  | some (.call c k) => D.Safe i T.task
      (fun a s => ∀ s', D.later s s' → D.inv s' → D.post i T.task a s')
      (.call c k) s

/-- The invariant of the configurations of a disciplined machine. -/
def Ok (D : Discipline M) (S : M.Config) : Prop :=
  D.inv S.state ∧ ∀ i T, S.threads[i]? = some T → D.ThreadOk i T S.state

theorem ThreadOk.of_safe (hD : D.Sound) {i : ℕ} {t : M.Task}
    {p : Prog I M.Result} {s : M.State} (hi : D.inv s)
    (h : D.Safe i t
      (fun a s => ∀ s', D.later s s' → D.inv s' → D.post i t a s') p s) :
    D.ThreadOk i ⟨t, some p⟩ s := by
  cases p with
  | ret a => exact h s (hD.rely_refl i t s) hi
  | call c k => exact h

theorem ThreadOk.of_rely (hD : D.Sound) {i : ℕ} {T : M.Thread}
    {s s' : M.State} (h : D.ThreadOk i T s) (hl : D.later s s')
    (hr : D.rely i T.task s s') : D.ThreadOk i T s' := by
  obtain ⟨t, _ | (a | ⟨c, k⟩)⟩ := T
  · trivial
  · exact fun s'' hl' hi => h s'' (hD.later_trans hl hl') hi
  · exact Safe.of_rely (p := .call c k) hD.toStable h hr

/-- **Each step keeps a disciplined machine disciplined**, and the call it
serves has an allowed effect. -/
theorem Ok.step (hD : D.Sound) {S S' : M.Config} {a : M.Action}
    (h : D.Ok S) (hm : Machine.Meets D.permits S a)
    (hs : Machine.step S a = some S') :
    D.Ok S' ∧ ∀ i ch, a = .run i ch → ∀ t c k,
      S.threads[i]? = some ⟨t, some (.call c k)⟩ →
        D.guar i t c S.state S'.state := by
  obtain ⟨hinv, hthreads⟩ := h
  cases a with
  | run i ch =>
    simp only [Machine.step] at hs
    split at hs
    case h_2 => cases hs
    case h_1 t c k hT =>
      obtain ⟨⟨r, s'⟩, hserve, rfl⟩ := Option.map_eq_some_iff.mp hs
      have hsafe : D.Safe i t _ (.call c k) S.state := hthreads i _ hT
      obtain ⟨hinv', hguar, hsafe'⟩ := hsafe S.state (hD.rely_refl i t _) hinv
        (hm t c k hT) ch r s' hserve
      refine ⟨⟨hinv', fun j T hj => ?_⟩, fun i' ch' hrun t' c' k' hT' => ?_⟩
      · by_cases hij : i = j
        · subst hij
          have hlt : i < S.threads.length := (List.getElem?_eq_some_iff.mp hT).1
          rw [List.getElem?_set_self hlt] at hj
          obtain rfl := Option.some.inj hj
          exact ThreadOk.of_safe hD hinv' hsafe'
        · rw [List.getElem?_set_ne hij] at hj
          exact (hthreads j T hj).of_rely hD (hD.guar_later hinv hinv' hguar)
            (hD.guar_rely hij hinv hinv' hguar)
      · obtain ⟨rfl, rfl⟩ := Machine.Action.run.inj hrun
        rw [hT] at hT'
        cases hT'
        exact hguar
  | spawn sp =>
    obtain ⟨⟨⟨t, p⟩, s'⟩, hspawn, rfl⟩ := Option.map_eq_some_iff.mp hs
    obtain ⟨hinv', hrely, hlater, hsafe⟩ := hD.spawn hinv hspawn
    refine ⟨⟨hinv', fun j T hj => ?_⟩, fun i ch hrun => nomatch hrun⟩
    rcases Nat.lt_or_ge j S.threads.length with hlt | hge
    · rw [List.getElem?_append_left hlt] at hj
      exact (hthreads j T hj).of_rely hD hlater (hrely j _ (Nat.ne_of_lt hlt))
    · rw [List.getElem?_append_right hge] at hj
      obtain ⟨hj0, hget⟩ := List.getElem?_eq_some_iff.mp hj
      rw [List.length_singleton] at hj0
      obtain rfl : j = S.threads.length := by omega
      simp only [Nat.sub_self, List.getElem_cons_zero] at hget
      subst hget
      exact ThreadOk.of_safe hD hinv' hsafe
  | halt h =>
    obtain ⟨s', hhalt, rfl⟩ := Option.map_eq_some_iff.mp hs
    obtain ⟨hinv', hrely, hlater⟩ := hD.halt hinv hhalt
    refine ⟨⟨hinv', fun j T hj => ?_⟩, fun i ch hrun => nomatch hrun⟩
    rw [Machine.getElem?_mapIdx_halted] at hj
    obtain ⟨T₀, hT₀, rfl⟩ := Option.map_eq_some_iff.mp hj
    have hok := hthreads j T₀ hT₀
    obtain ⟨t, _ | (a | ⟨c, k⟩)⟩ := T₀
    · trivial
    · exact fun s'' hl' hi => hok s'' (hD.later_trans hlater hl') hi
    · simp only [Machine.Thread.halted]
      split
      · trivial
      · rename_i hstops
        exact hok.of_rely hD hlater (hrely j t (by simpa using hstops))
  | drift d =>
    obtain ⟨s', hdrift, rfl⟩ := Option.map_eq_some_iff.mp hs
    obtain ⟨hinv', hrely, hlater⟩ := hD.drift hinv hdrift
    exact ⟨⟨hinv', fun j T hj => (hthreads j T hj).of_rely hD hlater (hrely j _)⟩,
      fun i ch hrun => nomatch hrun⟩

/-- **Soundness.** Every configuration reachable by permitted steps from a
disciplined one is disciplined. -/
theorem Sound.reachable (hD : D.Sound) {init : M.Config → Prop}
    (hinit : ∀ S, init S → D.Ok S) {S : M.Config}
    (h : Machine.ReachableIf D.permits init S) : D.Ok S := by
  obtain ⟨S₀, h₀, hrun⟩ := h
  induction hrun with
  | refl => exact hinit S₀ h₀
  | tail _ hstep ih =>
    obtain ⟨a, hm, hs⟩ := hstep
    exact (ih.step hD hm hs).1

/-- The result of a finished thread of a disciplined configuration. -/
theorem Ok.post (hD : D.Sound) {S : M.Config} (h : D.Ok S) {i : ℕ} {a : M.Result}
    (hT : S.result i = some a) : ∃ t, D.post i t a S.state := by
  obtain ⟨t, hT⟩ := Machine.Config.result_eq_some hT
  exact ⟨t, h.2 i _ hT S.state (hD.later_refl _) h.1⟩

/-- The shared state evolves as `later` allows along permitted steps. -/
theorem Ok.later_of_steps (hD : D.Sound) {S S' : M.Config} (h : D.Ok S)
    (hrun : Relation.ReflTransGen (Machine.StepIf D.permits) S S') :
    D.Ok S' ∧ D.later S.state S'.state := by
  induction hrun with
  | refl => exact ⟨h, hD.later_refl _⟩
  | tail _ hstep ih =>
    obtain ⟨hok, hlater⟩ := ih
    obtain ⟨a, hm, hs⟩ := hstep
    refine ⟨(hok.step hD hm hs).1, hD.later_trans hlater ?_⟩
    have hguar := (hok.step hD hm hs).2
    have hinv' := (hok.step hD hm hs).1.1
    cases a with
    | run i ch =>
      simp only [Machine.step] at hs
      split at hs
      case h_2 => cases hs
      case h_1 t c k hT =>
        exact hD.guar_later hok.1 hinv' (hguar i ch rfl t c k hT)
    | spawn sp =>
      obtain ⟨⟨⟨t, p⟩, s'⟩, hspawn, rfl⟩ := Option.map_eq_some_iff.mp hs
      exact (hD.spawn hok.1 hspawn).2.2.1
    | halt h =>
      obtain ⟨s', hhalt, rfl⟩ := Option.map_eq_some_iff.mp hs
      exact (hD.halt hok.1 hhalt).2.2
    | drift d =>
      obtain ⟨s', hdrift, rfl⟩ := Option.map_eq_some_iff.mp hs
      exact (hD.drift hok.1 hdrift).2.2

end Discipline
