import Mathlib.Data.List.Basic

/-!
# Transactions, statement by statement

The body of a transaction makes statements, one after another, on a working copy of the state.  Each
of them may fail for a reason of its own, and any of them for one outside the program: a full disk,
an interrupted call.  The working copy is kept by the commit, and only by it.

* `Body` is the tree of what a body does next, and `Body.run` runs it, with a `Fault` that strikes
  after some number of statements.  Bodies are a monad, so they are written as the code they stand
  for is.
* `Body.run_of_length_le` and `Body.run_of_lt_length`: a fault strikes the statement it is due at,
  if so many are made, and otherwise none.
* `Body.eval` is what a body makes of the state without one, with a rule for each way to build a
  body.
* `transact` is the whole transaction, with the statements that begin and commit it, and
  `transact_cases` what a fault can do to it.
-/

set_option autoImplicit false

namespace Statements

/-- A program that makes statements on a `σ`, which may fail with an `ε`, and ends with an `α`. -/
inductive Body (σ ε α : Type) : Type 1
  | done (result : Except ε α) : Body σ ε α
  | statement {β : Type} (f : σ → Except ε (β × σ)) (k : β → Body σ ε α) : Body σ ε α

/-- So many statements are made, and the next one fails with the error. -/
abbrev Fault (ε : Type) := ℕ × ε

namespace Body

variable {σ ε α β : Type}

def bind : Body σ ε α → (α → Body σ ε β) → Body σ ε β
  | done (.ok a), g => g a
  | done (.error e), _ => done (.error e)
  | statement f k, g => statement f fun b ↦ (k b).bind g

instance : Monad (Body σ ε) where
  pure a := done (.ok a)
  bind := bind

/-- Make a statement. -/
def perform (f : σ → Except ε (β × σ)) : Body σ ε β := statement f fun b ↦ done (.ok b)

/-- Make a statement that only reads. -/
def read (f : σ → β) : Body σ ε β := perform fun s ↦ .ok (f s, s)

/-- Make a statement that only writes. -/
def write (f : σ → Except ε σ) : Body σ ε Unit := perform fun s ↦ (f s).map fun s' ↦ ((), s')

/-- What a body ends with, and what the working copy has become by then. -/
def run : Body σ ε α → Option (Fault ε) → σ → Except ε α × σ
  | done result, _, s => (result, s)
  | statement _ _, some (0, e), s => (.error e, s)
  | statement f k, some (n + 1, e), s =>
    match f s with
    | .error e' => (.error e', s)
    | .ok (b, s') => (k b).run (some (n, e)) s'
  | statement f k, none, s =>
    match f s with
    | .error e' => (.error e', s)
    | .ok (b, s') => (k b).run none s'

/-- How many statements are made. -/
def length : Body σ ε α → σ → ℕ
  | done _, _ => 0
  | statement f k, s =>
    match f s with
    | .error _ => 1
    | .ok (b, s') => (k b).length s' + 1

/-- A fault that is due after the last statement strikes none. -/
theorem run_of_length_le {body : Body σ ε α} {s : σ} {n : ℕ} (h : body.length s ≤ n) (e : ε) :
    body.run (some (n, e)) s = body.run none s := by
  induction body generalizing s n with
  | done result => rfl
  | statement f k ih =>
    cases n with
    | zero =>
      rw [length] at h
      split at h <;> exact absurd h (by simp)
    | succ n =>
      rw [length] at h
      rw [run, run]
      split
      · rfl
      · rename_i b s' hf
        rw [hf] at h
        exact ih b (Nat.le_of_succ_le_succ h)

/-- **Any other fault strikes, and that is what the body ends with.** -/
theorem run_of_lt_length {body : Body σ ε α} {s : σ} {n : ℕ} (h : n < body.length s) (e : ε) :
    (body.run (some (n, e)) s).1 = .error e := by
  induction body generalizing s n with
  | done result => exact absurd h (Nat.not_lt_zero n)
  | statement f k ih =>
    cases n with
    | zero => rfl
    | succ n =>
      rw [length] at h
      rw [run]
      split
      · rename_i e' hf
        rw [hf] at h
        exact absurd h (by simp)
      · rename_i b s' hf
        rw [hf] at h
        exact ih b (Nat.lt_of_succ_lt_succ h)

/-- Keep the elements that a body says to keep, asked from the first to the last. -/
def filter (p : β → Body σ ε Bool) : List β → Body σ ε (List β)
  | [] => pure []
  | b :: bs => do
    let keep ← p b
    let kept ← filter p bs
    return if keep then b :: kept else kept

/-! ### Without a fault -/

/-- What a body makes of the state when no fault strikes. -/
def eval (body : Body σ ε α) (s : σ) : Except ε (α × σ) :=
  (body.run none s).1.map fun a ↦ (a, (body.run none s).2)

section Eval

variable {s : σ} {g : β → Body σ ε α}

@[simp] theorem eval_pure (a : α) : (pure a : Body σ ε α).eval s = .ok (a, s) := rfl

@[simp] theorem eval_done_error (e : ε) : (done (.error e) : Body σ ε α).eval s = .error e := rfl

theorem eval_statement (f : σ → Except ε (β × σ)) :
    (statement f g).eval s = f s >>= fun p ↦ (g p.1).eval p.2 := by
  rw [eval, run]
  cases f s with
  | error e => rfl
  | ok p => rfl

/-- A body goes on from where the one before it has got to. -/
theorem eval_bind (body : Body σ ε β) :
    (body >>= g).eval s = body.eval s >>= fun p ↦ (g p.1).eval p.2 := by
  induction body generalizing s with
  | done result =>
    cases result with
    | error e => rfl
    | ok b => rfl
  | statement f k ih =>
    show (statement f fun b ↦ k b >>= g).eval s = _
    rw [eval_statement, eval_statement]
    cases f s with
    | error e => rfl
    | ok p => exact ih p.1

theorem eval_perform (f : σ → Except ε (β × σ)) : (perform f).eval s = f s := by
  rw [perform, eval_statement]
  cases f s <;> rfl

@[simp] theorem eval_read_bind (f : σ → β) : (read f >>= g).eval s = (g (f s)).eval s := by
  rw [eval_bind, read, eval_perform]
  rfl

@[simp] theorem eval_perform_bind (f : σ → Except ε (β × σ)) :
    (perform f >>= g).eval s = f s >>= fun p ↦ (g p.1).eval p.2 := by
  rw [eval_bind, eval_perform]

@[simp] theorem eval_write_bind (f : σ → Except ε σ) {g : Unit → Body σ ε α} :
    (write f >>= g).eval s = f s >>= fun s' ↦ (g ()).eval s' := by
  rw [eval_bind, write, eval_perform]
  cases f s <;> rfl

/-- A loop of statements that write. -/
theorem eval_forM (step : σ → β → Except ε σ) (l : List β) :
    (forM l fun b ↦ write fun s ↦ step s b).eval s =
      (l.foldlM step s).map fun s' ↦ (PUnit.unit, s') := by
  induction l generalizing s with
  | nil => rfl
  | cons b l ih =>
    rw [List.forM_cons, List.foldlM_cons, eval_write_bind]
    cases step s b with
    | error e => rfl
    | ok s' => exact ih

@[simp] theorem eval_forM_bind (step : σ → β → Except ε σ) (l : List β) {g : PUnit → Body σ ε α} :
    ((forM l fun b ↦ write fun s ↦ step s b) >>= g).eval s =
      l.foldlM step s >>= fun s' ↦ (g ⟨⟩).eval s' := by
  rw [eval_bind, eval_forM]
  cases l.foldlM step s <;> rfl

/-- A loop of statements that read. -/
theorem eval_filter (p : β → σ → Bool) (l : List β) :
    (filter (fun b ↦ (read (p b) : Body σ ε Bool)) l).eval s = .ok (l.filter fun b ↦ p b s, s) := by
  induction l with
  | nil => rfl
  | cons b l ih =>
    rw [filter, eval_read_bind, eval_bind, ih, List.filter_cons]
    cases p b s <;> rfl

@[simp] theorem eval_filter_bind (p : β → σ → Bool) (l : List β) {g : List β → Body σ ε α} :
    (filter (fun b ↦ read (p b)) l >>= g).eval s = (g (l.filter fun b ↦ p b s)).eval s := by
  rw [eval_bind, eval_filter]
  rfl

end Eval

end Body

/-! ## The whole transaction -/

/-- How a body ends that has not failed. -/
inductive Verdict (ω : Type)
  | commit (outcome : ω)
  | rollback (outcome : ω)

def Verdict.map {ω ω' : Type} (g : ω → ω') : Verdict ω → Verdict ω'
  | commit outcome => commit (g outcome)
  | rollback outcome => rollback (g outcome)

section Transact

open Body

variable {σ ε ω : Type}

/-- A body, with the statement that begins the transaction and the one that commits it. -/
def enclose (body : Body σ ε (Verdict ω)) : Body σ ε (Verdict ω) := do
  Body.read fun _ ↦ ()
  match ← body with
  | .commit outcome =>
    Body.read fun _ ↦ ()
    pure (.commit outcome)
  | .rollback outcome => pure (.rollback outcome)

/-- Run a transaction.  The state becomes the working copy when it has been committed, and a
transaction that is dropped, because of a verdict or of an error, leaves it as it was. -/
def transact (fault : Option (Fault ε)) (s : σ) (body : Body σ ε (Verdict ω)) : Except ε ω × σ :=
  match (enclose body).run fault s with
  | (.ok (.commit outcome), s') => (.ok outcome, s')
  | (.ok (.rollback outcome), _) => (.ok outcome, s)
  | (.error e, _) => (.error e, s)

/-- Without a fault, the body decides. -/
theorem transact_none (s : σ) (body : Body σ ε (Verdict ω)) :
    transact none s body =
      match body.eval s with
      | .ok (.commit outcome, s') => (.ok outcome, s')
      | .ok (.rollback outcome, _) => (.ok outcome, s)
      | .error e => (.error e, s) := by
  have heval : (enclose body).eval s = body.eval s := by
    rw [enclose, eval_read_bind, eval_bind]
    cases body.eval s with
    | error e => rfl
    | ok p =>
      obtain ⟨verdict, s'⟩ := p
      cases verdict <;> rfl
  rw [← heval, transact, eval]
  rcases (enclose body).run none s with ⟨_ | ⟨_ | _⟩, s'⟩ <;> rfl

/-- **A transaction with a fault does what it does without one, or fails and changes nothing.** -/
theorem transact_cases (n : ℕ) (e : ε) (s : σ) (body : Body σ ε (Verdict ω)) :
    ((enclose body).length s ≤ n ∧ transact (some (n, e)) s body = transact none s body) ∨
      (n < (enclose body).length s ∧ transact (some (n, e)) s body = (.error e, s)) := by
  rcases Nat.lt_or_ge n ((enclose body).length s) with h | h
  · refine Or.inr ⟨h, ?_⟩
    have herror := Body.run_of_lt_length h e
    rw [transact]
    split <;> simp_all
  · exact Or.inl ⟨h, by rw [transact, Body.run_of_length_le h e, transact]⟩

end Transact

end Statements
