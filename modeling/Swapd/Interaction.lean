import Mathlib.Data.List.Forall2
import Mathlib.Data.Nat.Notation
import Mathlib.Logic.Relation

/-!
# Interactive programs

A program that talks to a world it does not own – a database, a node, a
clock – is a tree: it is finished, or it makes a call and goes on with the
reply. `Prog` is that tree, over an interface that says which calls exist and
what each one answers. It is a monad, so a program is written in `do` notation
in the order in which its source awaits things, and it is data, so what a
program does next can be asked of it – which is what lets several programs be
interleaved, and one be abandoned between two of its calls.

Two readings of a single program are given here. `Prog.Runs` is the relation
between a program, the events of an initial part of its run, and what remains
of it; nothing ties the state after one event to the state before the next, so
a run is a run under arbitrary interference. `Prog.Sat` is the corresponding
predicate transformer: every call the program makes, and every result it
returns, is as prescribed, given the events so far. `Prog.Sat.runs` says that
the second is sound for the first.
-/

/-- **An interface**: the calls a program may make and the replies each of
them may receive. -/
structure Interface where
  /-- The calls. -/
  Call : Type
  /-- The replies of a call. -/
  Reply : Call → Type

/-- **An interactive program**: a result, or a call with the program that
continues from each of its replies. -/
inductive Prog (I : Interface) (α : Type) : Type where
  | ret (a : α) : Prog I α
  | call (c : I.Call) (k : I.Reply c → Prog I α) : Prog I α

namespace Prog

variable {I : Interface} {α β γ σ : Type}

/-- Sequencing: the continuation is grafted on every result. -/
protected def bind : Prog I α → (α → Prog I β) → Prog I β
  | ret a, f => f a
  | call c k, f => call c (fun r => (k r).bind f)

instance : Monad (Prog I) where
  pure := ret
  bind := Prog.bind

/-- A single call, returning its reply. -/
def perform (c : I.Call) : Prog I (I.Reply c) := call c ret

@[simp] theorem pure_eq (a : α) : (pure a : Prog I α) = ret a := rfl

@[simp] theorem ret_bind (a : α) (f : α → Prog I β) : (ret a >>= f) = f a := rfl

@[simp] theorem call_bind (c : I.Call) (k : I.Reply c → Prog I α)
    (f : α → Prog I β) : (call c k >>= f) = call c (fun r => k r >>= f) := rfl

@[simp] theorem perform_bind (c : I.Call) (f : I.Reply c → Prog I β) :
    (perform c >>= f) = call c f := rfl

instance : LawfulMonad (Prog I) := by
  refine LawfulMonad.mk' (Prog I) (fun x => ?_) (fun _ _ => rfl) (fun x f g => ?_)
  · induction x with
    | ret a => rfl
    | call c k ih => exact congrArg (call c) (funext ih)
  · induction x with
    | ret a => rfl
    | call c k ih => exact congrArg (call c) (funext ih)

/-! ## Runs of one program -/

/-- **An event**: a call, the state it was served in, its reply, and the state
it left. -/
structure Event (I : Interface) (σ : Type) where
  /-- The call. -/
  call : I.Call
  /-- The state in which the call was served. -/
  before : σ
  /-- What it answered. -/
  reply : I.Reply call
  /-- The state it left behind. -/
  after : σ

variable (perf : (c : I.Call) → σ → I.Reply c → σ → Prop)

/-- **The runs of a program under interference.** `Runs perf p tr q` says that
`p`, after the events `tr`, is at `q`. The state before an event is not tied
to the state after the previous one: between two calls anything may happen. -/
inductive Runs : Prog I α → List (Event I σ) → Prog I α → Prop where
  | here (p : Prog I α) : Runs p [] p
  | step {c : I.Call} {k : I.Reply c → Prog I α} {s s' : σ} {r : I.Reply c}
      {tr : List (Event I σ)} {q : Prog I α} :
      perf c s r s' → Runs (k r) tr q →
      Runs (call c k) (⟨c, s, r, s'⟩ :: tr) q

/-- Every event of a run is one that could happen. -/
theorem Runs.perf_of_mem {perf : (c : I.Call) → σ → I.Reply c → σ → Prop}
    {p q : Prog I α} {tr : List (Event I σ)} (h : Runs perf p tr q) :
    ∀ e ∈ tr, perf e.call e.before e.reply e.after := by
  induction h with
  | here p => exact fun e he => nomatch he
  | step hperf _ ih =>
    intro e he
    rcases List.mem_cons.mp he with rfl | he
    · exact hperf
    · exact ih e he

/-- A run of a program to its end, and one of what follows it. -/
theorem Runs.bind {perf : (c : I.Call) → σ → I.Reply c → σ → Prop} {p : Prog I α}
    {f : α → Prog I β} {q : Prog I β} {tr tr' : List (Event I σ)} {a : α}
    (hp : Runs perf p tr (ret a)) (hf : Runs perf (f a) tr' q) :
    Runs perf (p >>= f) (tr ++ tr') q := by
  generalize hend : ret a = e at hp
  induction hp with
  | here p => exact hend ▸ hf
  | step hperf _ ih => exact .step hperf (ih hend)

/-- **A run, played**: up to so many calls are answered by a function of the
state, until one has no answer. -/
def play (serve : (c : I.Call) → σ → Option (I.Reply c × σ)) :
    ℕ → σ → Prog I α → List (Event I σ) × Prog I α
  | 0, _, p => ([], p)
  | _ + 1, _, ret a => ([], ret a)
  | n + 1, s, call c k =>
    match serve c s with
    | none => ([], call c k)
    | some (r, s') =>
      let rest := play serve n s' (k r)
      (⟨c, s, r, s'⟩ :: rest.1, rest.2)

/-- What is played is a run. -/
theorem runs_play {serve : (c : I.Call) → σ → Option (I.Reply c × σ)}
    {perf : (c : I.Call) → σ → I.Reply c → σ → Prop}
    (hserve : ∀ c s r s', serve c s = some (r, s') → perf c s r s') (n : ℕ) (s : σ)
    (p : Prog I α) : Runs perf p (play serve n s p).1 (play serve n s p).2 := by
  induction n generalizing s p with
  | zero => exact .here p
  | succ n ih =>
    cases p with
    | ret a => exact .here _
    | call c k =>
      simp only [play]
      split
      next => exact .here _
      next r s' h => exact .step (hserve c s r s' h) (ih s' (k r))

/-- **A program run to its end**, with nobody interfering, by one that serves
its calls. -/
def exec (serve : (c : I.Call) → σ → Option (I.Reply c × σ)) :
    Prog I α → σ → Option (α × σ)
  | ret a, s => some (a, s)
  | call c k, s => (serve c s).bind (fun rs => (k rs.1).exec serve rs.2)

@[simp] theorem exec_ret (serve : (c : I.Call) → σ → Option (I.Reply c × σ)) (a : α) (s : σ) :
    (ret a : Prog I α).exec serve s = some (a, s) := rfl

@[simp] theorem exec_call (serve : (c : I.Call) → σ → Option (I.Reply c × σ)) (c : I.Call)
    (k : I.Reply c → Prog I α) (s : σ) :
    (call c k).exec serve s = (serve c s).bind (fun rs => (k rs.1).exec serve rs.2) := rfl

/-- **What a program is required to do**, along every run that continues the
events `tr`: each call it makes satisfies `onCall` and each result it returns
satisfies `onRet`, given the events before. -/
def Sat (onCall : List (Event I σ) → I.Call → Prop)
    (onRet : List (Event I σ) → α → Prop) :
    Prog I α → List (Event I σ) → Prop
  | ret a, tr => onRet tr a
  | call c k, tr => onCall tr c ∧ ∀ s r s', perf c s r s' →
      Sat onCall onRet (k r) (tr ++ [⟨c, s, r, s'⟩])

namespace Sat

variable {perf} {onCall : List (Event I σ) → I.Call → Prop}
  {onRet onRet' : List (Event I σ) → α → Prop} {tr : List (Event I σ)}

@[simp] theorem ret_iff (a : α) :
    Sat perf onCall onRet (ret a) tr ↔ onRet tr a := Iff.rfl

@[simp] theorem call_iff (c : I.Call) (k : I.Reply c → Prog I α) :
    Sat perf onCall onRet (call c k) tr
      ↔ onCall tr c ∧ ∀ s r s', perf c s r s' →
          Sat perf onCall onRet (k r) (tr ++ [⟨c, s, r, s'⟩]) := Iff.rfl

/-- A weaker requirement on the results is met a fortiori. -/
theorem mono {p : Prog I α} (h : Sat perf onCall onRet p tr)
    (hret : ∀ tr' a, onRet tr' a → onRet' tr' a) :
    Sat perf onCall onRet' p tr := by
  induction p generalizing tr with
  | ret a => exact hret tr a h
  | call c k ih => exact ⟨h.1, fun s r s' hp => ih r (h.2 s r s' hp)⟩

/-- A weaker requirement on the calls is met a fortiori. -/
theorem mono_call {onCall' : List (Event I σ) → I.Call → Prop} {p : Prog I α}
    (h : Sat perf onCall onRet p tr) (hcall : ∀ tr' c, onCall tr' c → onCall' tr' c) :
    Sat perf onCall' onRet p tr := by
  induction p generalizing tr with
  | ret a => exact h
  | call c k ih =>
    exact ⟨hcall tr c h.1, fun s r s' hp => ih r (h.2 s r s' hp)⟩

/-- The events before are still there afterwards. -/
theorem subset {p : Prog I α} (h : Sat perf onCall onRet p tr) :
    Sat perf onCall (fun tr' a => tr ⊆ tr' ∧ onRet tr' a) p tr := by
  induction p generalizing tr with
  | ret a => exact ⟨List.Subset.refl tr, h⟩
  | call c k ih =>
    refine ⟨h.1, fun s r s' hp => (ih r (h.2 s r s' hp)).mono (fun tr' a ha => ?_)⟩
    exact ⟨fun e he => ha.1 (List.mem_append_left _ he), ha.2⟩

/-- Every event is one that could happen. -/
theorem performed {p : Prog I α} (h : Sat perf onCall onRet p tr)
    (htr : ∀ e ∈ tr, perf e.call e.before e.reply e.after) :
    Sat perf onCall (fun tr' a => (∀ e ∈ tr', perf e.call e.before e.reply e.after) ∧ onRet tr' a)
      p tr := by
  induction p generalizing tr with
  | ret a => exact ⟨htr, h⟩
  | call c k ih =>
    refine ⟨h.1, fun s r s' hp => ih r (h.2 s r s' hp) (fun e he => ?_)⟩
    rcases List.mem_append.mp he with he | he
    · exact htr e he
    · obtain rfl := List.mem_singleton.mp he
      exact hp

/-- **Sequencing**: the first program establishes what the second needs. -/
theorem bind {p : Prog I α} {f : α → Prog I β}
    {onRetβ : List (Event I σ) → β → Prop}
    (hp : Sat perf onCall (fun tr' a => Sat perf onCall onRetβ (f a) tr') p tr) :
    Sat perf onCall onRetβ (p >>= f) tr := by
  induction p generalizing tr with
  | ret a => exact hp
  | call c k ih => exact ⟨hp.1, fun s r s' h => ih r (hp.2 s r s' h)⟩

/-- **Soundness**: along every run of a program that meets its requirement,
what remains still meets it, given the events of the run. -/
theorem runs {p q : Prog I α} {tr' : List (Event I σ)}
    (h : Sat perf onCall onRet p tr) (hr : Runs perf p tr' q) :
    Sat perf onCall onRet q (tr ++ tr') := by
  induction hr generalizing tr with
  | here p => rwa [List.append_nil]
  | step hperf _ ih =>
    have := ih (h.2 _ _ _ hperf)
    rwa [List.append_assoc, List.singleton_append] at this

end Sat

/-- **Soundness, for the calls**: each call of a run is as prescribed, given the
events before it. -/
theorem Sat.onCall_of_runs {perf : (c : I.Call) → σ → I.Reply c → σ → Prop}
    {onCall : List (Event I σ) → I.Call → Prop} {onRet : List (Event I σ) → α → Prop}
    {p q : Prog I α} {tr tr' tr₁ tr₂ : List (Event I σ)} {e : Event I σ}
    (h : Sat perf onCall onRet p tr) (hr : Runs perf p tr' q) (htr : tr' = tr₁ ++ e :: tr₂) :
    onCall (tr ++ tr₁) e.call := by
  induction hr generalizing tr tr₁ with
  | here p => exact absurd htr (List.append_ne_nil_of_right_ne_nil _ (List.cons_ne_nil _ _)).symm
  | step hperf _ ih =>
    cases tr₁ with
    | nil =>
      rw [List.append_nil]
      rw [← (List.cons.inj htr).1]
      exact h.1
    | cons e' tr₁ =>
      obtain ⟨rfl, hrest⟩ := List.cons.inj htr
      have := ih (h.2 _ _ _ hperf) hrest
      rwa [List.append_assoc, List.singleton_append] at this

/-- **A program all of whose calls are of one kind**: `p.OnlyCalls P` says
that `P` holds of every call `p` can make, whatever the replies. -/
def OnlyCalls (P : I.Call → Prop) : Prog I α → Prop
  | ret _ => True
  | call c k => P c ∧ ∀ r, (k r).OnlyCalls P

namespace OnlyCalls

variable {P : I.Call → Prop}

@[simp] theorem ret (a : α) : (Prog.ret a : Prog I α).OnlyCalls P := trivial

@[simp] theorem call_iff (c : I.Call) (k : I.Reply c → Prog I α) :
    (call c k).OnlyCalls P ↔ P c ∧ ∀ r, (k r).OnlyCalls P := Iff.rfl

theorem mono {p : Prog I α} {Q : I.Call → Prop} (h : p.OnlyCalls P)
    (hPQ : ∀ c, P c → Q c) : p.OnlyCalls Q := by
  induction p with
  | ret a => trivial
  | call c k ih => exact ⟨hPQ c h.1, fun r => ih r (h.2 r)⟩

theorem of_forall {p : Prog I α} (h : ∀ c, P c) : p.OnlyCalls P := by
  induction p with
  | ret a => trivial
  | call c k ih => exact ⟨h c, ih⟩

theorem bind {p : Prog I α} {f : α → Prog I β} (hp : p.OnlyCalls P)
    (hf : ∀ a, (f a).OnlyCalls P) : (p >>= f).OnlyCalls P := by
  induction p with
  | ret a => exact hf a
  | call c k ih => exact ⟨hp.1, fun r => ih r (hp.2 r)⟩

end OnlyCalls

/-- **A program all of whose results are of one kind**: `p.Returns P` says
that `P` holds of every result `p` can return, whatever the replies. -/
def Returns (P : α → Prop) : Prog I α → Prop
  | ret a => P a
  | call _ k => ∀ r, (k r).Returns P

namespace Returns

variable {P : α → Prop}

@[simp] theorem ret_iff (a : α) : (ret a : Prog I α).Returns P ↔ P a := Iff.rfl

@[simp] theorem call_iff (c : I.Call) (k : I.Reply c → Prog I α) :
    (call c k).Returns P ↔ ∀ r, (k r).Returns P := Iff.rfl

theorem bind {p : Prog I α} {f : α → Prog I β} {Q : β → Prop}
    (hp : p.Returns (fun a => (f a).Returns Q)) : (p >>= f).Returns Q := by
  induction p with
  | ret a => exact hp
  | call c k ih => exact fun r => ih r (hp r)

theorem mono {p : Prog I α} {Q : α → Prop} (h : p.Returns P)
    (hPQ : ∀ a, P a → Q a) : p.Returns Q := by
  induction p with
  | ret a => exact hPQ a h
  | call c k ih => exact fun r => ih r (h r)

theorem of_forall {p : Prog I α} (h : ∀ a, P a) : p.Returns P := by
  induction p with
  | ret a => exact h a
  | call c k ih => exact fun r => ih r

end Returns

/-- **A program that makes so many calls at most**, whatever the replies. -/
def Within : Prog I α → ℕ → Prop
  | ret _, _ => True
  | call _ _, 0 => False
  | call _ k, n + 1 => ∀ r, (k r).Within n

namespace Within

variable {m n : ℕ}

@[simp] theorem ret (a : α) : (Prog.ret a : Prog I α).Within n := by
  cases n <;> trivial

@[simp] theorem call_iff (c : I.Call) (k : I.Reply c → Prog I α) :
    (call c k).Within (n + 1) ↔ ∀ r, (k r).Within n := Iff.rfl

theorem mono {p : Prog I α} (h : p.Within m) (hmn : m ≤ n) : p.Within n := by
  induction p generalizing m n with
  | ret a => exact .ret a
  | call c k ih =>
    cases m with
    | zero => exact h.elim
    | succ m =>
      cases n with
      | zero => exact absurd hmn (Nat.not_succ_le_zero m)
      | succ n => exact fun r => ih r (h r) (Nat.le_of_succ_le_succ hmn)

theorem bind {p : Prog I α} {f : α → Prog I β} (hp : p.Within m) (hf : ∀ a, (f a).Within n) :
    (p >>= f).Within (m + n) := by
  induction p generalizing m with
  | ret a => exact (hf a).mono (Nat.le_add_left n m)
  | call c k ih =>
    cases m with
    | zero => exact hp.elim
    | succ m =>
      rw [Nat.succ_add]
      exact fun r => ih r (hp r)

end Within

/-- A call was answered, at some point of a run, with this reply. -/
def Replied (tr : List (Event I σ)) (c : I.Call) (r : I.Reply c) : Prop :=
  ∃ s s', (⟨c, s, r, s'⟩ : Event I σ) ∈ tr

namespace Sat

variable {perf} {onCall onCall' : List (Event I σ) → I.Call → Prop}
  {onRet onRet' : List (Event I σ) → α → Prop} {tr : List (Event I σ)}

/-- Two requirements are met together. -/
theorem and {p : Prog I α} (h : Sat perf onCall onRet p tr)
    (h' : Sat perf onCall' onRet' p tr) :
    Sat perf (fun tr' c => onCall tr' c ∧ onCall' tr' c)
      (fun tr' a => onRet tr' a ∧ onRet' tr' a) p tr := by
  induction p generalizing tr with
  | ret a => exact ⟨h, h'⟩
  | call c k ih =>
    exact ⟨⟨h.1, h'.1⟩, fun s r s' hp => ih r (h.2 s r s' hp) (h'.2 s r s' hp)⟩

/-- **Calls and results of one kind.** A program whose calls are of one kind
and whose results are of another only adds events of that kind. -/
theorem of_onlyCalls {kind : I.Call → Prop} {P : α → Prop} {p : Prog I α}
    (hk : p.OnlyCalls kind) (hr : p.Returns P)
    (hcall : ∀ new c, (∀ e ∈ new, kind e.call) → kind c → onCall (tr ++ new) c)
    (hret : ∀ new a, (∀ e ∈ new, kind e.call) → P a → onRet (tr ++ new) a) :
    Sat perf onCall onRet p tr := by
  induction p generalizing tr with
  | ret a =>
    have := hret [] a (fun e he => nomatch he) hr
    rwa [List.append_nil] at this
  | call c k ih =>
    have hcons (s : σ) (r : I.Reply c) (s' : σ) (new : List (Event I σ))
        (hnew : ∀ e ∈ new, kind e.call) :
        ∀ e ∈ (⟨c, s, r, s'⟩ :: new : List (Event I σ)), kind e.call := by
      intro e he
      rcases List.mem_cons.mp he with rfl | he
      · exact hk.1
      · exact hnew e he
    have hnil := hcall [] c (fun e he => nomatch he) hk.1
    rw [List.append_nil] at hnil
    refine ⟨hnil, fun s r s' _ => ih r (hk.2 r) (hr r) ?_ ?_⟩
    · intro new c' hnew hc'
      rw [List.append_assoc]
      exact hcall _ c' (hcons s r s' new hnew) hc'
    · intro new a hnew ha
      rw [List.append_assoc]
      exact hret _ a (hcons s r s' new hnew) ha

/-- A program that ends has run to its end. -/
theorem self {p : Prog I α} (hcall : ∀ tr c, onCall tr c) :
    Sat perf onCall (fun tr' a => ∃ new, tr' = tr ++ new ∧ Runs perf p new (ret a)) p tr := by
  induction p generalizing tr with
  | ret a => exact ⟨[], (List.append_nil _).symm, .here _⟩
  | call c k ih =>
    refine ⟨hcall _ _, fun s r s' hp => (ih r).mono ?_⟩
    rintro tr' a ⟨new, rfl, hrun⟩
    exact ⟨⟨c, s, r, s'⟩ :: new, List.append_assoc _ _ _, .step hp hrun⟩

end Sat

/-! ## Programs that may fail

A program that may fail is one in `ExceptT ε (Prog I)`. Its rules are those of
its run, with the failure passed through a sequence. -/

section Fallible

variable {ε : Type}

/-- A single call, in a program that may fail. -/
def ask (c : I.Call) : ExceptT ε (Prog I) (I.Reply c) := ExceptT.lift (perform c)

/-- An early return with an error. -/
def rejectIf (bad : Prop) [Decidable bad] (e : ε) : ExceptT ε (Prog I) Unit :=
  if bad then throw e else pure ()

/-- A computation that makes no calls. -/
def ofExcept (x : Except ε α) : ExceptT ε (Prog I) α := ExceptT.mk (pure x)

/-- The outcomes of a program that may fail, the failures passed through. -/
def onOutcome {P : Type} (onError : ε → P) (onOk : α → P) : Except ε α → P
  | .error e => onError e
  | .ok a => onOk a

theorem run_bind_eq (x : ExceptT ε (Prog I) α) (f : α → ExceptT ε (Prog I) β) :
    (x >>= f).run = x.run >>= onOutcome (fun e => ret (.error e)) (fun a => (f a).run) := by
  rw [ExceptT.run_bind]
  exact congrArg (x.run >>= ·) (funext (fun o => by cases o <;> rfl))

variable {onCall : List (Event I σ) → I.Call → Prop}
  {perf : (c : I.Call) → σ → I.Reply c → σ → Prop} {tr : List (Event I σ)}

/-- **Sequencing, with failure.** -/
theorem Sat.tryBind {onRet : List (Event I σ) → Except ε β → Prop}
    {x : ExceptT ε (Prog I) α} {f : α → ExceptT ε (Prog I) β}
    (h : Sat perf onCall (fun tr' => onOutcome (fun e => onRet tr' (.error e))
      (fun a => Sat perf onCall onRet (f a).run tr')) x.run tr) :
    Sat perf onCall onRet (x >>= f).run tr := by
  rw [run_bind_eq]
  refine Sat.bind (h.mono (fun tr' o ho => ?_))
  cases o with
  | error e => exact ho
  | ok a => exact ho

theorem Runs.tryBind {x : ExceptT ε (Prog I) α} {f : α → ExceptT ε (Prog I) β} {a : α}
    {q : Prog I (Except ε β)} {tr' : List (Event I σ)} (hx : Runs perf x.run tr (ret (.ok a)))
    (hf : Runs perf (f a).run tr' q) : Runs perf (x >>= f).run (tr ++ tr') q := by
  rw [run_bind_eq]
  exact hx.bind hf

theorem rejectIf_runs {bad : Prop} [Decidable bad] {e : ε} (h : ¬bad) :
    Runs perf (rejectIf bad e : ExceptT ε (Prog I) Unit).run [] (ret (.ok ())) := by
  rw [rejectIf, if_neg h]
  exact .here _

/-- A call, and what follows it. -/
theorem Sat.ask {onRet : List (Event I σ) → Except ε β → Prop} {c : I.Call}
    {f : I.Reply c → ExceptT ε (Prog I) β} (hcall : onCall tr c)
    (h : ∀ s r s', perf c s r s' →
      Sat perf onCall onRet (f r).run (tr ++ [⟨c, s, r, s'⟩])) :
    Sat perf onCall onRet (Prog.ask c >>= f).run tr :=
  ⟨hcall, h⟩

/-- A computation that makes no calls returns its result. -/
theorem Sat.ofExcept {onRet : List (Event I σ) → Except ε α → Prop} {x : Except ε α}
    (h : onRet tr x) : Sat perf onCall onRet (Prog.ofExcept x).run tr := h

theorem OnlyCalls.tryBind {P : I.Call → Prop} {x : ExceptT ε (Prog I) α}
    {f : α → ExceptT ε (Prog I) β} (hx : x.run.OnlyCalls P)
    (hf : ∀ a, (f a).run.OnlyCalls P) : (x >>= f).run.OnlyCalls P := by
  rw [run_bind_eq]
  refine hx.bind (fun o => ?_)
  cases o with
  | error e => trivial
  | ok a => exact hf a

theorem rejectIf_onlyCalls {P : I.Call → Prop} {bad : Prop} [Decidable bad] {e : ε} :
    (rejectIf bad e : ExceptT ε (Prog I) Unit).run.OnlyCalls P := by
  unfold rejectIf
  split <;> trivial

theorem Within.tryBind {m n : ℕ} {x : ExceptT ε (Prog I) α} {f : α → ExceptT ε (Prog I) β}
    (hx : x.run.Within m) (hf : ∀ a, (f a).run.Within n) : (x >>= f).run.Within (m + n) := by
  rw [run_bind_eq]
  refine hx.bind (fun o => ?_)
  cases o with
  | error e => exact .ret _
  | ok a => exact hf a

theorem Returns.tryBind {P : Except ε β → Prop} {x : ExceptT ε (Prog I) α}
    {f : α → ExceptT ε (Prog I) β}
    (h : x.run.Returns (onOutcome (fun e => P (.error e)) (fun a => (f a).run.Returns P))) :
    (x >>= f).run.Returns P := by
  rw [run_bind_eq]
  refine Returns.bind (h.mono (fun o ho => ?_))
  cases o with
  | error e => exact ho
  | ok a => exact ho

theorem OnlyCalls.mapM {P : I.Call → Prop} {f : α → ExceptT ε (Prog I) β}
    (hf : ∀ a, (f a).run.OnlyCalls P) (xs : List α) :
    (xs.mapM f).run.OnlyCalls P := by
  induction xs with
  | nil => trivial
  | cons x xs ih =>
    rw [List.mapM_cons]
    exact tryBind (hf x) (fun b => tryBind ih (fun bs => trivial))

/-- **One after the other.** A program for each element ends with the first
failure, or with what holds of each element and its result. -/
theorem Sat.mapM {P : α → β → Prop} {F : α → List (Event I σ) → Prop}
    {f : α → ExceptT ε (Prog I) β} (xs : List α)
    (h : ∀ x ∈ xs, ∀ tr, Sat perf onCall (fun tr' => onOutcome (fun _ => F x tr') (P x))
      (f x).run tr) (tr : List (Event I σ)) :
    Sat perf onCall (fun tr' => onOutcome (fun _ => ∃ x ∈ xs, F x tr') (List.Forall₂ P xs))
      (xs.mapM f).run tr := by
  induction xs generalizing tr with
  | nil => exact List.Forall₂.nil
  | cons x xs ih =>
    rw [List.mapM_cons]
    refine tryBind ((h x List.mem_cons_self tr).mono (fun tr' o ho => ?_))
    cases o with
    | error e => exact ⟨x, List.mem_cons_self, ho⟩
    | ok b =>
      have ih := ih (fun y hy => h y (List.mem_cons_of_mem x hy))
      refine tryBind ((ih tr').mono (fun tr'' o' ho' => ?_))
      cases o' with
      | error e =>
        obtain ⟨y, hy, hF⟩ := ho'
        exact ⟨y, List.mem_cons_of_mem x hy, hF⟩
      | ok bs => exact List.Forall₂.cons ho ho'

/-- **What each keeps, all keep**: of the events, as long as there is no failure. -/
theorem Sat.mapM_keeps {K : List (Event I σ) → Prop} {f : α → ExceptT ε (Prog I) β}
    (xs : List α) (h : ∀ x ∈ xs, ∀ tr, K tr →
      Sat perf onCall (fun tr' => onOutcome (fun _ => True) (fun _ => K tr')) (f x).run tr)
    {tr : List (Event I σ)} (htr : K tr) :
    Sat perf onCall (fun tr' => onOutcome (fun _ => True) (fun _ => K tr'))
      (xs.mapM f).run tr := by
  induction xs generalizing tr with
  | nil => exact htr
  | cons x xs ih =>
    rw [List.mapM_cons]
    refine tryBind ((h x List.mem_cons_self tr htr).mono (fun tr' o ho => ?_))
    cases o with
    | error e => trivial
    | ok b =>
      have hrest := ih (fun y hy => h y (List.mem_cons_of_mem x hy)) ho
      refine tryBind (hrest.mono (fun tr'' o' ho' => ?_))
      cases o' with
      | error e => trivial
      | ok bs => exact ho'

end Fallible

/-! ## Programs run alone

Where nobody else changes the state, the state before an event is the one the
event before left. -/

section Alone

variable (perf : (c : I.Call) → σ → I.Reply c → σ → Prop)

/-- **The runs of a program alone**: `RunsAlone perf p s q s'` says that `p`,
started in `s`, can get to `q` with the state at `s'`. -/
inductive RunsAlone : Prog I α → σ → Prog I α → σ → Prop where
  | here (p : Prog I α) (s : σ) : RunsAlone p s p s
  | step {c : I.Call} {k : I.Reply c → Prog I α} {s s' s'' : σ} {r : I.Reply c}
      {q : Prog I α} : perf c s r s' → RunsAlone (k r) s' q s'' →
      RunsAlone (call c k) s q s''

/-- **What a program alone is required to do**: each call it makes and each
result it returns is as prescribed for the state it finds. -/
def SatAlone (onCall : I.Call → σ → Prop) (onRet : α → σ → Prop) : Prog I α → σ → Prop
  | ret a, s => onRet a s
  | call c k, s => onCall c s ∧ ∀ r s', perf c s r s' → SatAlone onCall onRet (k r) s'

variable {perf} {onCall : I.Call → σ → Prop} {onRet onRet' : α → σ → Prop} {s : σ}

/-- What is played is a run. -/
theorem runsAlone_play {serve : (c : I.Call) → σ → Option (I.Reply c × σ)}
    (hserve : ∀ c s r s', serve c s = some (r, s') → perf c s r s') (n : ℕ) (s : σ)
    (p : Prog I α) :
    RunsAlone perf p s (play serve n s p).2
      (((play serve n s p).1.getLast?.map Event.after).getD s) := by
  induction n generalizing s p with
  | zero => exact .here p s
  | succ n ih =>
    cases p with
    | ret a => exact .here _ s
    | call c k =>
      simp only [play]
      split
      next => exact .here _ s
      next r s' h =>
        have hlast : (((play serve n s' (k r)).1.getLast?.map Event.after).getD s')
            = (((⟨c, s, r, s'⟩ :: (play serve n s' (k r)).1).getLast?.map Event.after).getD s) := by
          rw [List.getLast?_cons]
          cases (play serve n s' (k r)).1.getLast? <;> rfl
        rw [← hlast]
        exact .step (hserve c s r s' h) (ih s' (k r))

namespace SatAlone

theorem mono {p : Prog I α} (h : SatAlone perf onCall onRet p s)
    (hret : ∀ a s', onRet a s' → onRet' a s') : SatAlone perf onCall onRet' p s := by
  induction p generalizing s with
  | ret a => exact hret a s h
  | call c k ih => exact ⟨h.1, fun r s' hperf => ih r (h.2 r s' hperf)⟩

/-- In a world that does less, of a requirement on calls that says less. -/
theorem weaken {perf' : (c : I.Call) → σ → I.Reply c → σ → Prop} {onCall' : I.Call → σ → Prop}
    {p : Prog I α} (h : SatAlone perf onCall onRet p s)
    (hperf : ∀ c s r s', perf' c s r s' → perf c s r s')
    (hcall : ∀ c s, onCall c s → onCall' c s) : SatAlone perf' onCall' onRet p s := by
  induction p generalizing s with
  | ret a => exact h
  | call c k ih =>
    exact ⟨hcall c s h.1, fun r s' hperf' => ih r (h.2 r s' (hperf c s r s' hperf'))⟩

/-- **Sequencing.** -/
theorem bind {p : Prog I α} {f : α → Prog I β} {onRetβ : β → σ → Prop}
    (h : SatAlone perf onCall (fun a s' => SatAlone perf onCall onRetβ (f a) s') p s) :
    SatAlone perf onCall onRetβ (p >>= f) s := by
  induction p generalizing s with
  | ret a => exact h
  | call c k ih => exact ⟨h.1, fun r s' hperf => ih r (h.2 r s' hperf)⟩

/-- **Soundness.** -/
theorem runs {p q : Prog I α} {s' : σ} (h : SatAlone perf onCall onRet p s)
    (hr : RunsAlone perf p s q s') : SatAlone perf onCall onRet q s' := by
  induction hr with
  | here p s => exact h
  | step hperf _ ih => exact ih (h.2 _ _ hperf)

/-- **Sequencing, with failure.** -/
theorem tryBind {ε : Type} {onRetβ : Except ε β → σ → Prop} {x : ExceptT ε (Prog I) α}
    {f : α → ExceptT ε (Prog I) β}
    (h : SatAlone perf onCall (fun o s' => onOutcome (fun e => onRetβ (.error e) s')
      (fun a => SatAlone perf onCall onRetβ (f a).run s') o) x.run s) :
    SatAlone perf onCall onRetβ (x >>= f).run s := by
  rw [run_bind_eq]
  refine bind (h.mono (fun o s' ho => ?_))
  cases o with
  | error e => exact ho
  | ok a => exact ho

end SatAlone

end Alone

/-! ## Programs in a world that moves

Between two calls, and after the last, the state moves on as it may. -/

section Amid

variable (moves : σ → σ → Prop) (perf : (c : I.Call) → σ → I.Reply c → σ → Prop)

/-- **The runs of a program in a world that moves**: `RunsAmid moves perf p s tr
q s'` says that `p`, started in `s`, is at `q` after the events `tr`, with the
state at `s'`. -/
inductive RunsAmid : Prog I α → σ → List (Event I σ) → Prog I α → σ → Prop where
  | here {p : Prog I α} {s s' : σ} : moves s s' → RunsAmid p s [] p s'
  | step {c : I.Call} {k : I.Reply c → Prog I α} {s s₁ s₂ s' : σ} {r : I.Reply c}
      {tr : List (Event I σ)} {q : Prog I α} : moves s s₁ → perf c s₁ r s₂ →
      RunsAmid (k r) s₂ tr q s' → RunsAmid (call c k) s (⟨c, s₁, r, s₂⟩ :: tr) q s'

variable {moves perf} {s s' : σ} {tr : List (Event I σ)}

namespace RunsAmid

/-- A program that has ended does nothing more. -/
theorem ret_inv {a b : α} (h : RunsAmid moves perf (ret a) s tr (ret b) s') :
    a = b ∧ tr = [] ∧ moves s s' := by
  cases h with
  | here hmoves => exact ⟨rfl, rfl, hmoves⟩

/-- A program that makes a call and has ended has been served. -/
theorem call_inv {c : I.Call} {k : I.Reply c → Prog I α} {a : α}
    (h : RunsAmid moves perf (call c k) s tr (ret a) s') :
    ∃ s₁ r s₂ tr', moves s s₁ ∧ perf c s₁ r s₂ ∧ tr = ⟨c, s₁, r, s₂⟩ :: tr' ∧
      RunsAmid moves perf (k r) s₂ tr' (ret a) s' := by
  cases h with
  | step hmoves hperf h => exact ⟨_, _, _, _, hmoves, hperf, rfl, h⟩

/-- **Sequencing**: the first program has ended where the second began. -/
theorem bind_inv {p : Prog I α} {f : α → Prog I β} {b : β}
    (h : RunsAmid moves perf (p >>= f) s tr (ret b) s') (hrefl : ∀ s, moves s s) :
    ∃ a s₁ tr₁ tr₂, RunsAmid moves perf p s tr₁ (ret a) s₁ ∧ tr = tr₁ ++ tr₂ ∧
      RunsAmid moves perf (f a) s₁ tr₂ (ret b) s' := by
  induction p generalizing s tr with
  | ret a => exact ⟨a, s, [], tr, .here (hrefl s), rfl, h⟩
  | call c k ih =>
    obtain ⟨s₁, r, s₂, tr', hmoves, hperf, rfl, hrest⟩ := call_inv h
    obtain ⟨a, s₃, tr₁, tr₂, h₁, rfl, h₂⟩ := ih r hrest
    exact ⟨a, s₃, _, tr₂, .step hmoves hperf h₁, rfl, h₂⟩

/-- **Sequencing**, of a run that may not have come to its end: the first program is
still running, or has ended. -/
theorem bind_cases {p : Prog I α} {f : α → Prog I β} {q : Prog I β}
    (h : RunsAmid moves perf (p >>= f) s tr q s') (hrefl : ∀ s, moves s s) :
    (∃ p', RunsAmid moves perf p s tr p' s' ∧ q = p' >>= f) ∨
      ∃ a s₁ tr₁ tr₂, RunsAmid moves perf p s tr₁ (ret a) s₁ ∧ tr = tr₁ ++ tr₂ ∧
        RunsAmid moves perf (f a) s₁ tr₂ q s' := by
  induction p generalizing s tr with
  | ret a => exact Or.inr ⟨a, s, [], tr, .here (hrefl s), rfl, h⟩
  | call c k ih =>
    cases h with
    | here hmoves => exact Or.inl ⟨call c k, .here hmoves, rfl⟩
    | step hmoves hperf hrest =>
      rcases ih _ hrest with ⟨p', hp', rfl⟩ | ⟨a, s₁, tr₁, tr₂, h₁, rfl, h₂⟩
      · exact Or.inl ⟨p', .step hmoves hperf hp', rfl⟩
      · exact Or.inr ⟨a, s₁, _, tr₂, .step hmoves hperf h₁, rfl, h₂⟩

/-- A run of the first program is one of the sequence. -/
theorem bind {p q : Prog I α} (h : RunsAmid moves perf p s tr q s') (f : α → Prog I β) :
    RunsAmid moves perf (p >>= f) s tr (q >>= f) s' := by
  induction h with
  | here hmoves => exact .here hmoves
  | step hmoves hperf _ ih => exact .step hmoves hperf ih

/-- **What is left of a run** after one of its events. -/
theorem split {p q : Prog I α} {tr₁ tr₂ : List (Event I σ)} {e : Event I σ}
    (h : RunsAmid moves perf p s (tr₁ ++ e :: tr₂) q s') :
    perf e.call e.before e.reply e.after ∧ ∃ p', RunsAmid moves perf p' e.after tr₂ q s' := by
  induction tr₁ generalizing p s with
  | nil =>
    cases h with
    | step hmoves hperf hrest => exact ⟨hperf, _, hrest⟩
  | cons e' tr₁ ih =>
    cases h with
    | step hmoves hperf hrest => exact ih hrest

/-- A run whose calls are of one kind is one of calls of that kind. -/
theorem restrict {Q : (c : I.Call) → I.Reply c → Prop} {p q : Prog I α}
    (h : RunsAmid moves perf p s tr q s') (hQ : ∀ e ∈ tr, Q e.call e.reply) :
    RunsAmid moves (fun c s r s' => perf c s r s' ∧ Q c r) p s tr q s' := by
  induction h with
  | here hmoves => exact .here hmoves
  | step hmoves hperf _ ih =>
    rw [List.forall_mem_cons] at hQ
    exact .step hmoves ⟨hperf, hQ.1⟩ (ih hQ.2)

/-- **Sequencing**, after a program that cannot fail. -/
theorem lift_inv {ε : Type} {p : Prog I α} {f : α → ExceptT ε (Prog I) β} {o : Except ε β}
    (h : RunsAmid moves perf (ExceptT.lift p >>= f).run s tr (ret o) s') (hrefl : ∀ s, moves s s) :
    ∃ a s₁ tr₁ tr₂, RunsAmid moves perf p s tr₁ (ret a) s₁ ∧ tr = tr₁ ++ tr₂ ∧
      RunsAmid moves perf (f a).run s₁ tr₂ (ret o) s' := by
  rw [ExceptT.run_bind_lift] at h
  exact bind_inv h hrefl

/-- A program all of whose calls are of one kind makes calls of that kind. -/
theorem call_of_onlyCalls {P : I.Call → Prop} {p q : Prog I α} (h : RunsAmid moves perf p s tr q s')
    (hp : p.OnlyCalls P) : ∀ e ∈ tr, P e.call := by
  induction h with
  | here hmoves => exact fun e he => nomatch he
  | step hmoves hperf _ ih =>
    intro e he
    rcases List.mem_cons.mp he with rfl | he
    · exact hp.1
    · exact ih (hp.2 _) e he

/-- The events are those of a run. -/
theorem runs {p q : Prog I α} (h : RunsAmid moves perf p s tr q s') : Runs perf p tr q := by
  induction h with
  | here _ => exact .here _
  | step _ hperf _ ih => exact .step hperf ih

/-- A run in a world is one in a world that can do more. -/
theorem mono {moves' : σ → σ → Prop} {perf' : (c : I.Call) → σ → I.Reply c → σ → Prop}
    {p q : Prog I α} (h : RunsAmid moves perf p s tr q s') (hmoves : ∀ a b, moves a b → moves' a b)
    (hperf : ∀ c a r b, perf c a r b → perf' c a r b) : RunsAmid moves' perf' p s tr q s' := by
  induction h with
  | here hm => exact .here (hmoves _ _ hm)
  | step hm hp _ ih => exact .step (hmoves _ _ hm) (hperf _ _ _ _ hp) ih

/-- What is played is a run, in a world that may also stand still. -/
theorem play {serve : (c : I.Call) → σ → Option (I.Reply c × σ)}
    (hserve : ∀ c s r s', serve c s = some (r, s') → perf c s r s') (hrefl : ∀ s, moves s s)
    (n : ℕ) (s : σ) (p : Prog I α) :
    ∃ s', RunsAmid moves perf p s (Prog.play serve n s p).1 (Prog.play serve n s p).2 s' := by
  induction n generalizing s p with
  | zero => exact ⟨s, .here (hrefl s)⟩
  | succ n ih =>
    cases p with
    | ret a => exact ⟨s, .here (hrefl s)⟩
    | call c k =>
      simp only [Prog.play]
      split
      next => exact ⟨s, .here (hrefl s)⟩
      next r s' h =>
        obtain ⟨s'', hrun⟩ := ih s' (k r)
        exact ⟨s'', .step (hrefl s) (hserve c s r s' h) hrun⟩

/-- What has been run to its end is a run, each call of which was served. -/
theorem of_exec {serve : (c : I.Call) → σ → Option (I.Reply c × σ)}
    (hserve : ∀ c s r s', serve c s = some (r, s') → perf c s r s') (hrefl : ∀ s, moves s s)
    {p : Prog I α} {a : α} (h : p.exec serve s = some (a, s')) :
    ∃ tr, RunsAmid moves perf p s tr (ret a) s' ∧
      ∀ e ∈ tr, serve e.call e.before = some (e.reply, e.after) := by
  induction p generalizing s with
  | ret b =>
    obtain ⟨rfl, rfl⟩ := Prod.mk.inj (Option.some.inj h)
    exact ⟨[], .here (hrefl s), fun e he => nomatch he⟩
  | call c k ih =>
    obtain ⟨⟨r, s₁⟩, hcall, hrest⟩ := Option.bind_eq_some_iff.mp h
    obtain ⟨tr, hrun, hserved⟩ := ih r hrest
    exact ⟨_, .step (hrefl s) (hserve c s r s₁ hcall) hrun,
      List.forall_mem_cons.mpr ⟨hcall, hserved⟩⟩

/-- **What every move and every call keeps**, holds whenever a call is served and
at the end. -/
theorem invariant {p q : Prog I α} {Inv : σ → Prop} (h : RunsAmid moves perf p s tr q s')
    (hmoves : ∀ {a b}, Inv a → moves a b → Inv b)
    (hperf : ∀ {c a r b}, Inv a → perf c a r b → Inv b) (hs : Inv s) :
    (∀ e ∈ tr, Inv e.before) ∧ Inv s' := by
  induction h with
  | here hm => exact ⟨fun e he => (nomatch he), hmoves hs hm⟩
  | step hm hp _ ih =>
    have hserved := hmoves hs hm
    have hrest := ih (hperf hserved hp)
    exact ⟨List.forall_mem_cons.mpr ⟨hserved, hrest.1⟩, hrest.2⟩

/-- The state at the end is one the world can have moved to, if the calls of the
program do what the world might do. -/
theorem moves_of_onlyCalls {P : I.Call → Prop} {p q : Prog I α}
    (h : RunsAmid moves perf p s tr q s') (hp : p.OnlyCalls P)
    (hperf : ∀ {c s r s'}, P c → perf c s r s' → moves s s')
    (htrans : ∀ {a b c}, moves a b → moves b c → moves a c) : moves s s' := by
  induction h with
  | here hmoves => exact hmoves
  | step hmoves hperforms _ ih =>
    exact htrans (htrans hmoves (hperf hp.1 hperforms)) (ih (hp.2 _))

/-- The state at the end is one the world can have moved to. -/
theorem moves_of {p q : Prog I α} (h : RunsAmid moves perf p s tr q s')
    (hperf : ∀ {c s r s'}, perf c s r s' → moves s s')
    (htrans : ∀ {a b c}, moves a b → moves b c → moves a c) : moves s s' :=
  h.moves_of_onlyCalls (OnlyCalls.of_forall (fun _ => trivial)) (fun _ hp => hperf hp) htrans

end RunsAmid

end Amid

/-! ## Implementing an interface by another -/

section Interpret

variable {J : Interface} (impl : (c : I.Call) → Prog J (I.Reply c))

/-- **The program of an implementation**: each call is replaced by the program
that implements it. -/
def interpret : Prog I α → Prog J α
  | ret a => ret a
  | call c k => impl c >>= fun r => (k r).interpret

@[simp] theorem interpret_ret (a : α) : (ret a : Prog I α).interpret impl = ret a := rfl

@[simp] theorem interpret_call (c : I.Call) (k : I.Reply c → Prog I α) :
    (call c k).interpret impl = impl c >>= fun r => (k r).interpret impl := rfl

theorem interpret_bind (p : Prog I α) (f : α → Prog I β) :
    (p >>= f).interpret impl = p.interpret impl >>= fun a => (f a).interpret impl := by
  induction p with
  | ret a => rfl
  | call c k ih =>
    rw [call_bind, interpret_call, interpret_call, bind_assoc]
    exact congrArg (impl c >>= ·) (funext ih)

end Interpret

end Prog
