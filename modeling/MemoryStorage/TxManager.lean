import MemoryStorage.Backoff

/-!
# `Manager.ExecuteReadWriteWithContext`: the retry loop

Each attempt checks the context, opens a read-write transaction, runs `action` on it (a panic is
recovered into an error), checks the context again and commits; a commit that fails with
`ErrConflict` while `attempt < maxRetries` discards the transaction, sleeps
(`sleepWithJitter(..., attempt+1)`) and starts the next attempt. Everything the loop learns from
outside is an answer of its environment `Env`, attempt by attempt; the loop's calls on
transactions are the trace of `Event`s it returns with its error.

Both versions of the loop in the package are the same code. A run is a sequence of attempts:
every attempt but the last retried, and each attempt opens its own transaction, runs `action` on
it once and ends it, by a successful commit or a discard, before the next is opened
(`executeReadWriteWithContext_segments`).
-/

namespace MemoryStorage
namespace Sdk

/-- `Manager`, without its store: the loop reaches the store only through the transactions whose
answers `Env` gives. -/
structure Manager where
  maxRetries : Int
  baseBackoff : Duration
  maxBackoff : Duration

/-- `TxManagerOptions`. -/
structure TxManagerOptions where
  maxRetries : Int
  baseBackoff : Duration
  maxBackoff : Duration

/-- `NewTransactionManager(store, opts...)`: five retries, a 5 ms base and a 150 ms cap, each
replaced by the first option's field when that field is positive. -/
def newTransactionManager (opts : List TxManagerOptions) : Manager :=
  let o : TxManagerOptions := ⟨5, 5000000, 150000000⟩
  let o := match opts with
    | [] => o
    | o₀ :: _ =>
      let o := if 0 < o₀.maxRetries then { o with maxRetries := o₀.maxRetries } else o
      let o := if 0 < o₀.baseBackoff.toInt then { o with baseBackoff := o₀.baseBackoff } else o
      if 0 < o₀.maxBackoff.toInt then { o with maxBackoff := o₀.maxBackoff } else o
  ⟨o.maxRetries, o.baseBackoff, o.maxBackoff⟩

/-- A manager from `NewTransactionManager` retries at least once and has positive backoffs. -/
theorem newTransactionManager_pos (opts : List TxManagerOptions) :
    1 ≤ (newTransactionManager opts).maxRetries ∧ 0 < (newTransactionManager opts).baseBackoff.toInt ∧
      0 < (newTransactionManager opts).maxBackoff.toInt := by
  unfold newTransactionManager
  cases opts with
  | nil => decide
  | cons o₀ _ =>
    have h5 : (0 : Int) < (5000000 : Duration).toInt := by decide
    have h150 : (0 : Int) < (150000000 : Duration).toInt := by decide
    dsimp only
    split_ifs <;> simp only [] <;> omega

/-- What one call of `action` does. -/
inductive ActionOutcome
  | ok
  | err
  | panic
deriving DecidableEq

/-- What `tx.Commit()` returns. -/
inductive CommitOutcome
  | ok
  | conflict
  | err
deriving DecidableEq

/-- The answers a run gets from outside, by attempt: `ctx.Err()` at the top of the attempt and
after `action`, what `action` and `Commit` do, and whether `sleepWithJitter` returns the context's
error. -/
structure Env where
  ctxErrAtStart : Nat → Bool
  action : Nat → ActionOutcome
  ctxErrAfterAction : Nat → Bool
  commit : Nat → CommitOutcome
  sleepErr : Nat → Bool

/-- A call the loop makes: on the transaction opened by attempt `a`, or `sleepWithJitter` with
the given `attempt` argument. -/
inductive Event
  | newTransaction (a : Nat)
  | action (a : Nat)
  | commit (a : Nat)
  | discard (a : Nat)
  | sleep (attempt : Nat)
deriving DecidableEq

/-- The error the loop returns. -/
inductive TxError
  | ctx
  | action
  | panic
  | conflict
  | commit
  | sleep
deriving DecidableEq

/-- Whether an event is a call of `action`. -/
def Event.isAction : Event → Bool
  | .action _ => true
  | _ => false

/-- The transaction an event opens, if it opens one. -/
def Event.opened : Event → Option Nat
  | .newTransaction a => some a
  | _ => none

/-- The transaction an event commits, if it is a commit. -/
def Event.committed : Event → Option Nat
  | .commit a => some a
  | _ => none

/-- The attempt whose transaction the last `Commit` of a trace was on. -/
def lastCommit (trace : List Event) : Option Nat := (trace.filterMap Event.committed).getLast?

/-- How an iteration of the loop ends: with the next iteration, or returning the error (`none` for
nil). -/
inductive Next
  | retry
  | ret (err : Option TxError)
deriving DecidableEq

namespace Manager

/-- One iteration of the `for attempt` loop: its calls and how it ends. -/
def attempt (m : Manager) (env : Env) (a : Nat) : List Event × Next :=
  if env.ctxErrAtStart a then ([], .ret (some .ctx))
  else
    let opened := [Event.newTransaction a, Event.action a]
    match env.action a with
    | .err => (opened ++ [.discard a], .ret (some .action))
    | .panic => (opened ++ [.discard a], .ret (some .panic))
    | .ok =>
      if env.ctxErrAfterAction a then (opened ++ [.discard a], .ret (some .ctx))
      else
        match env.commit a with
        | .ok => (opened ++ [.commit a], .ret none)
        | .conflict =>
          if (a : Int) < m.maxRetries then
            (opened ++ [.commit a, .discard a, .sleep (a + 1)],
              if env.sleepErr a then .ret (some .sleep) else .retry)
          else (opened ++ [.commit a, .discard a], .ret (some .conflict))
        | .err => (opened ++ [.commit a, .discard a], .ret (some .commit))

/-- The calls an opened transaction of attempt `a` sees after it is opened, and how the attempt
ends, as `attempt` can make them. -/
inductive Shape (m : Manager) (env : Env) (a : Nat) : List Event → Next → Prop
  | failed {err : TxError} : env.action a ≠ .ok ∨ env.ctxErrAfterAction a = true →
      Shape m env a [.action a, .discard a] (.ret (some err))
  | committed : env.action a = .ok → env.ctxErrAfterAction a = false → env.commit a = .ok →
      Shape m env a [.action a, .commit a] (.ret none)
  | commitFailed {err : TxError} : env.action a = .ok → env.ctxErrAfterAction a = false →
      env.commit a ≠ .ok → Shape m env a [.action a, .commit a, .discard a] (.ret (some err))
  | sleepFailed : env.action a = .ok → env.ctxErrAfterAction a = false →
      env.commit a = .conflict → (a : Int) < m.maxRetries →
      Shape m env a [.action a, .commit a, .discard a, .sleep (a + 1)] (.ret (some .sleep))
  | retried : env.action a = .ok → env.ctxErrAfterAction a = false →
      env.commit a = .conflict → (a : Int) < m.maxRetries →
      Shape m env a [.action a, .commit a, .discard a, .sleep (a + 1)] .retry

variable {m : Manager} {env : Env}

/-- An attempt either finds the context cancelled and returns at once, or opens its transaction
and goes on as `Shape` allows. -/
theorem attempt_cases (m : Manager) (env : Env) (a : Nat) :
    (env.ctxErrAtStart a = true ∧ m.attempt env a = ([], .ret (some .ctx))) ∨
    (env.ctxErrAtStart a = false ∧ ∃ rest next,
      m.attempt env a = (.newTransaction a :: rest, next) ∧ Shape m env a rest next) := by
  unfold attempt
  cases hs : env.ctxErrAtStart a
  · refine .inr ⟨rfl, ?_⟩
    simp only [Bool.false_eq_true, if_false]
    cases ha : env.action a with
    | err => exact ⟨_, _, rfl, .failed (.inl (by simp [ha]))⟩
    | panic => exact ⟨_, _, rfl, .failed (.inl (by simp [ha]))⟩
    | ok =>
      cases hc : env.ctxErrAfterAction a
      · simp only [Bool.false_eq_true, if_false]
        cases hk : env.commit a with
        | ok => exact ⟨_, _, rfl, .committed ha hc hk⟩
        | err => exact ⟨_, _, rfl, .commitFailed ha hc (by simp [hk])⟩
        | conflict =>
          dsimp only
          split_ifs with hr hz
          · exact ⟨_, _, rfl, .sleepFailed ha hc hk hr⟩
          · exact ⟨_, _, rfl, .retried ha hc hk hr⟩
          · exact ⟨_, _, rfl, .commitFailed ha hc (by simp [hk])⟩
      · exact ⟨_, _, rfl, .failed (.inr hc)⟩
  · exact .inl ⟨rfl, rfl⟩

/-- An attempt that retries made the calls of a conflicted commit and stayed within the budget. -/
theorem attempt_retry {a : Nat} (h : (m.attempt env a).2 = .retry) :
    (a : Int) < m.maxRetries ∧
      (m.attempt env a).1 = [.newTransaction a, .action a, .commit a, .discard a, .sleep (a + 1)] ∧
      env.commit a = .conflict := by
  rcases attempt_cases m env a with ⟨-, he⟩ | ⟨-, rest, next, he, hs⟩
  · rw [he] at h; cases h
  · rw [he] at h ⊢
    cases hs with
    | retried _ _ hk hr => exact ⟨hr, rfl, hk⟩
    | _ => cases h

/-- The loop from attempt `a` on: the calls of every attempt, and the error of the last. -/
def loop (m : Manager) (env : Env) (a : Nat) : List Event × Option TxError :=
  match _h : (m.attempt env a).2 with
  | .ret err => ((m.attempt env a).1, err)
  | .retry =>
    let rest := m.loop env (a + 1)
    ((m.attempt env a).1 ++ rest.1, rest.2)
termination_by (m.maxRetries - a).toNat
decreasing_by have := (attempt_retry _h).1; omega

/-- `ExecuteReadWriteWithContext(ctx, action)`: the calls it makes and the error it returns. -/
def executeReadWriteWithContext (m : Manager) (env : Env) : List Event × Option TxError :=
  m.loop env 0

theorem loop_ret {a : Nat} {err : Option TxError} (h : (m.attempt env a).2 = .ret err) :
    m.loop env a = ((m.attempt env a).1, err) := by
  rw [loop]; split <;> simp_all

theorem loop_retry {a : Nat} (h : (m.attempt env a).2 = .retry) :
    m.loop env a = ((m.attempt env a).1 ++ (m.loop env (a + 1)).1, (m.loop env (a + 1)).2) := by
  rw [loop]; split <;> simp_all

/-! ### Runs, attempt by attempt -/

/-- A run from attempt `a`: its calls and its error, one attempt after another. -/
inductive Run (m : Manager) (env : Env) : Nat → List Event → Option TxError → Prop
  | cancelled {a : Nat} : env.ctxErrAtStart a = true → Run m env a [] (some .ctx)
  | last {a : Nat} {rest : List Event} {err : Option TxError} : env.ctxErrAtStart a = false →
      Shape m env a rest (.ret err) → Run m env a (.newTransaction a :: rest) err
  | retried {a : Nat} {rest trace : List Event} {err : Option TxError} :
      env.ctxErrAtStart a = false → Shape m env a rest .retry → Run m env (a + 1) trace err →
      Run m env a (.newTransaction a :: rest ++ trace) err

theorem loop_run (a : Nat) : Run m env a (m.loop env a).1 (m.loop env a).2 := by
  induction a using loop.induct m env with
  | case1 a err h =>
    rw [loop_ret h]
    rcases attempt_cases m env a with ⟨hc, he⟩ | ⟨hc, rest, next, he, hs⟩ <;> rw [he] at h ⊢ <;>
      cases h
    · exact .cancelled hc
    · exact .last hc hs
  | case2 a h ih =>
    rw [loop_retry h]
    rcases attempt_cases m env a with ⟨hc, he⟩ | ⟨hc, rest, next, he, hs⟩ <;> rw [he] at h ⊢ <;>
      cases h
    exact .retried hc hs ih

namespace Shape
variable {a : Nat} {rest : List Event} {next : Next}

theorem lt_of_retry (h : Shape m env a rest .retry) : (a : Int) < m.maxRetries := by
  cases h; assumption

/-- What every attempt does with its transaction: `action` runs once, right after the open; no
other transaction is opened meanwhile; `Commit` is called on this transaction only, and only after
`action` returned nil and the context was still live; and the transaction ends committed or
discarded. -/
theorem props (h : Shape m env a rest next) :
    rest.head? = some (.action a) ∧ rest.countP Event.isAction = 1 ∧
      (∀ e ∈ rest, e.opened = none) ∧
      (∀ b, Event.commit b ∈ rest → b = a ∧ env.action a = .ok ∧ env.ctxErrAfterAction a = false) ∧
      (Event.discard a ∈ rest ∨ (Event.commit a ∈ rest ∧ env.commit a = .ok)) := by
  cases h <;> simp_all [Event.isAction, Event.opened]

theorem sleep_mem (h : Shape m env a rest next) {b : Nat} (hb : Event.sleep b ∈ rest) :
    b = a + 1 ∧ (a : Int) < m.maxRetries := by
  cases h <;> simp_all

end Shape

namespace Run
variable {a : Nat} {trace : List Event} {err : Option TxError}

/-- A run from attempt `a` calls `action` at most once per attempt up to `maxRetries`. -/
theorem countP_action_le (h : Run m env a trace err) :
    trace.countP Event.isAction ≤ (m.maxRetries - a).toNat + 1 := by
  induction h with
  | cancelled => simp
  | last _ hs => simp [Event.isAction, hs.props.2.1]
  | retried _ hs _ ih =>
    have := hs.lt_of_retry
    simp [List.countP_append, hs.props.2.1, Event.isAction]
    omega

/-- The calls of a run are the attempts' transactions in turn, each with the calls `Shape`
allows on it. -/
theorem segments (h : Run m env a trace err) :
    ∃ segs : List (Nat × List Event),
      trace = segs.flatMap (fun s => .newTransaction s.1 :: s.2) ∧
        segs.map Prod.fst = List.range' a segs.length ∧
        ∀ s ∈ segs, ∃ next, Shape m env s.1 s.2 next := by
  induction h with
  | cancelled => exact ⟨[], rfl, rfl, by simp⟩
  | @last a rest _ _ hs => exact ⟨[(a, rest)], by simp, rfl, by simpa using ⟨_, hs⟩⟩
  | @retried a rest _ _ _ hs _ ih =>
    obtain ⟨segs, ht, hids, hsh⟩ := ih
    refine ⟨(a, rest) :: segs, by simp [ht], by simp [hids, List.range'_succ], ?_⟩
    exact List.forall_mem_cons.2 ⟨⟨_, hs⟩, hsh⟩

/-- A run returns nil exactly when its last `Commit` succeeded. -/
theorem err_eq_none_iff (h : Run m env a trace err) :
    err = none ↔ ∃ b, lastCommit trace = some b ∧ env.commit b = .ok := by
  induction h with
  | cancelled => simp [lastCommit]
  | last _ hs => cases hs <;> simp_all [lastCommit, Event.committed]
  | @retried a rest trace err _ hs _ ih =>
    have hk : env.commit a = .conflict := by cases hs; assumption
    have hrest : rest = [.action a, .commit a, .discard a, .sleep (a + 1)] := by cases hs; rfl
    subst hrest
    have hlast : lastCommit ((Event.newTransaction a ::
        [.action a, .commit a, .discard a, .sleep (a + 1)]) ++ trace) =
        (lastCommit trace).or (some a) := by
      simp only [lastCommit, List.filterMap_append, List.getLast?_append, List.filterMap_cons,
        Event.committed, List.filterMap_nil]
      rfl
    rw [ih, hlast]
    cases lastCommit trace <;> simp [hk]

/-- The `attempt` a run passes to `sleepWithJitter` is at least one more than the run's first
attempt, and at most `maxRetries`. -/
theorem sleep_mem (h : Run m env a trace err) {b : Nat} (hb : Event.sleep b ∈ trace) :
    a + 1 ≤ b ∧ (b : Int) ≤ m.maxRetries := by
  induction h with
  | cancelled => simp at hb
  | last _ hs =>
    obtain ⟨rfl, hlt⟩ := hs.sleep_mem (by simpa using hb)
    omega
  | retried _ hs _ ih =>
    simp only [List.cons_append, List.mem_cons, Event.sleep.injEq, reduceCtorEq, false_or,
      List.mem_append] at hb
    rcases hb with hb | hb
    · obtain ⟨rfl, hlt⟩ := hs.sleep_mem hb
      omega
    · have := ih hb
      omega

end Run

/-- Whatever its environment answers, `ExecuteReadWriteWithContext` calls `action` at most
`MaxRetries+1` times. Its calls are a sequence of attempts, each opening a fresh transaction
(attempts `0, 1, ...` in turn), calling `action` on it once right after opening it, calling
`Commit` on it only after `action` returned nil without panicking and the context was still live,
and committing it successfully or discarding it before the next transaction is opened or the
call returns. It returns nil exactly when its last `Commit` succeeded. -/
theorem executeReadWriteWithContext_contract (m : Manager) (env : Env) :
    (m.executeReadWriteWithContext env).1.countP Event.isAction ≤ m.maxRetries.toNat + 1 ∧
    (∃ segs : List (Nat × List Event),
      (m.executeReadWriteWithContext env).1 = segs.flatMap (fun s => .newTransaction s.1 :: s.2) ∧
      segs.map Prod.fst = List.range segs.length ∧
      ∀ s ∈ segs,
        s.2.head? = some (.action s.1) ∧ s.2.countP Event.isAction = 1 ∧
        (∀ e ∈ s.2, e.opened = none) ∧
        (∀ b, Event.commit b ∈ s.2 →
          b = s.1 ∧ env.action s.1 = .ok ∧ env.ctxErrAfterAction s.1 = false) ∧
        (Event.discard s.1 ∈ s.2 ∨ (Event.commit s.1 ∈ s.2 ∧ env.commit s.1 = .ok))) ∧
    ((m.executeReadWriteWithContext env).2 = none ↔
      ∃ b, lastCommit (m.executeReadWriteWithContext env).1 = some b ∧ env.commit b = .ok) := by
  have h := @loop_run m env 0
  obtain ⟨segs, ht, hids, hsh⟩ := h.segments
  refine ⟨by simpa using h.countP_action_le, ⟨segs, ht, by rw [hids, List.range_eq_range'], ?_⟩,
    h.err_eq_none_iff⟩
  intro s hs
  obtain ⟨_, hshape⟩ := hsh s hs
  exact hshape.props

/-! ### Every commit conflicting -/

/-- The environment in which nothing is cancelled, `action` always succeeds and every `Commit`
fails with `ErrConflict`. -/
def conflictEnv : Env := ⟨fun _ => false, fun _ => .ok, fun _ => false, fun _ => .conflict, fun _ => false⟩

/-- When every commit conflicts the loop retries until the budget runs out, passing every attempt
from `a + 1` to `maxRetries` to `sleepWithJitter`. -/
theorem sleep_mem_loop_conflictEnv (a : Nat) :
    ∀ b, a < b → (b : Int) ≤ m.maxRetries → Event.sleep b ∈ (m.loop conflictEnv a).1 := by
  induction a using loop.induct m conflictEnv with
  | case1 a err h =>
    intro b hab hb
    have hlt : (a : Int) < m.maxRetries := by omega
    simp [attempt, conflictEnv, hlt] at h
  | case2 a h ih =>
    intro b hab hb
    rw [loop_retry h, (attempt_retry h).2.1]
    rcases Nat.lt_or_ge (a + 1) b with hb' | hb'
    · exact List.mem_append_right _ (ih b hb' hb)
    · simp [show b = a + 1 by omega]

/-- With `MaxRetries` 42 and the default 5 ms base and 150 ms cap, a run whose commits all conflict
passes attempt 42 to `sleepWithJitter`, where `5 ms * 2^41` wraps to a negative `int64`: the
jitter ceiling is 0, not `min(150 ms, 5 ms * 2^41) = 150 ms`, so the retry does not sleep at all,
while attempts 41 and 43 get the full 150 ms. -/
theorem jitterCeiling_zero_at_attempt_42 :
    Event.sleep 42 ∈ ((newTransactionManager [⟨42, 0, 0⟩]).executeReadWriteWithContext conflictEnv).1 ∧
    (newTransactionManager [⟨42, 0, 0⟩]).baseBackoff.toInt = 5000000 ∧
    (newTransactionManager [⟨42, 0, 0⟩]).maxBackoff.toInt = 150000000 ∧
    (jitterCeiling 5000000 150000000 42).toInt = 0 ∧
    min (150000000 : Int) (5000000 * 2 ^ 41) = 150000000 ∧
    sleepWithJitter 5000000 150000000 42 = none ∧
    (jitterCeiling 5000000 150000000 41).toInt = 150000000 ∧
    (jitterCeiling 5000000 150000000 43).toInt = 150000000 :=
  ⟨sleep_mem_loop_conflictEnv 0 42 (by decide) (by decide), by decide, by decide, by decide,
    by decide, by decide, by decide, by decide⟩

end Manager

end Sdk
end MemoryStorage
