import Mathlib.Algebra.Group.Nat.Defs
import Mathlib.Order.Nat
import Renee.Library.SlidingWindow

/-!
# The restart budget

How often a child may fail before its whole group is restarted: five times in thirty seconds.  The
supervisor keeps the times of the failures it has permitted, evicts from the front those that are
thirty seconds old, and permits another while fewer than five are left.

A span of time is a number of nanoseconds, and an instant the span since some origin;
`duration_since` gives zero for an instant that is yet to come.

The budget is the queue of a sliding window (`RestartBudget.recordFailure_eq_offer`), in which a
failure counts for `maxRestartTime` (`counts_window`).  `restartBudget_exact_window` says what
follows for any calls in order of time.
-/

set_option autoImplicit false

namespace Renee.Supervisor

/-! ## The budget -/

/-- Permitted failures of one child within `maxRestartTime`. -/
def maxRestarts : ℕ := 5

/-- How long a permitted failure counts. -/
def maxRestartTime : ℕ := 30 * 10 ^ 9

/-- The time from an earlier instant, or nothing. -/
def durationSince (now earlier : ℕ) : ℕ := now - earlier

/-- Sliding-window failure history for one child role. -/
structure RestartBudget where
  /-- The permitted failures, oldest first. -/
  failures : List ℕ
deriving DecidableEq

namespace RestartBudget

def new : RestartBudget := ⟨[]⟩

/-- The failures that are left when those at the front that lie outside the window are gone. -/
def evict (now : ℕ) : List ℕ → List ℕ
  | [] => []
  | instant :: failures =>
    if durationSince now instant ≥ maxRestartTime then evict now failures else instant :: failures

/-- Whether a failure at this time is permitted, and the history after it. -/
def recordFailure (budget : RestartBudget) (now : ℕ) : Bool × RestartBudget :=
  -- evict before testing the limit, so that failures outside the window never count
  let failures := evict now budget.failures
  if failures.length ≥ maxRestarts then (false, ⟨failures⟩) else (true, ⟨failures ++ [now]⟩)

/-- The budget after calls at these times. -/
def afterCalls (times : List ℕ) : RestartBudget :=
  times.foldl (fun budget now ↦ (budget.recordFailure now).2) new

/-- The calls that a budget permits, of calls at these times. -/
def permittedBy : RestartBudget → List ℕ → List ℕ
  | _, [] => []
  | budget, now :: times =>
    let rest := permittedBy (budget.recordFailure now).2 times
    if (budget.recordFailure now).1 then now :: rest else rest

/-- The calls that are permitted, of calls at these times. -/
def permitted (times : List ℕ) : List ℕ := permittedBy new times

end RestartBudget

/-! ## The window -/

/-- Whether a failure counts at this time. -/
def counts (now instant : ℕ) : Bool := decide (now < instant + maxRestartTime)

/-- Whether an instant lies in the window `(now - maxRestartTime, now]`. -/
def inWindow (now instant : ℕ) : Bool := decide (instant ≤ now) && counts now instant

/-- An earlier time is in the window of one that counts, and so is a later failure. -/
theorem counts_window : SlidingWindow.Window counts where
  of_later hle h := decide_eq_true (Nat.lt_of_le_of_lt hle (of_decide_eq_true h))
  of_earlier hle h :=
    decide_eq_true (Nat.lt_of_lt_of_le (of_decide_eq_true h) (Nat.add_le_add_right hle _))

theorem counts_self (now : ℕ) : counts now now = true := by
  rw [counts, decide_eq_true_eq]
  exact Nat.lt_add_of_pos_right (by decide)

namespace RestartBudget

theorem durationSince_ge_iff {now instant : ℕ} :
    durationSince now instant ≥ maxRestartTime ↔ counts now instant = false := by
  have hpos : 0 < maxRestartTime := by decide
  rw [counts, decide_eq_false_iff_not, durationSince]
  omega

theorem evict_eq_dropWhile (now : ℕ) (failures : List ℕ) :
    evict now failures = failures.dropWhile fun instant ↦ !counts now instant := by
  induction failures with
  | nil => rfl
  | cons instant failures ih =>
    rw [evict, List.dropWhile_cons, ih]
    exact if_congr (durationSince_ge_iff.trans (Bool.not_eq_true' _ ▸ Iff.rfl)) rfl rfl

theorem recordFailure_eq_offer (budget : RestartBudget) (now : ℕ) :
    budget.recordFailure now =
      ((SlidingWindow.offer counts maxRestarts budget.failures now).1,
        ⟨(SlidingWindow.offer counts maxRestarts budget.failures now).2⟩) := by
  rw [recordFailure, evict_eq_dropWhile, SlidingWindow.offer]
  split
  · rename_i hfull
    rw [if_neg (Nat.not_lt.mpr hfull)]
  · rename_i hroom
    rw [if_pos (Nat.lt_of_not_le hroom)]

theorem permittedBy_append (budget : RestartBudget) (times times' : List ℕ) :
    budget.permittedBy (times ++ times') =
      budget.permittedBy times ++
        (times.foldl (fun budget now ↦ (budget.recordFailure now).2) budget).permittedBy
          times' := by
  induction times generalizing budget with
  | nil => rfl
  | cons now times ih =>
    rw [List.cons_append, permittedBy, permittedBy, ih, List.foldl_cons]
    split <;> rfl

theorem afterCalls_concat (times : List ℕ) (now : ℕ) :
    afterCalls (times ++ [now]) = ((afterCalls times).recordFailure now).2 := by
  rw [afterCalls, List.foldl_append]
  rfl

theorem permitted_concat (times : List ℕ) (now : ℕ) :
    permitted (times ++ [now]) =
      if ((afterCalls times).recordFailure now).1 then permitted times ++ [now]
      else permitted times := by
  rw [permitted, permittedBy_append]
  show permitted times ++ (if ((afterCalls times).recordFailure now).1 then [now] else []) = _
  split
  · rfl
  · exact List.append_nil _

/-- The budget runs as the sliding window does. -/
theorem run_eq (times : List ℕ) :
    SlidingWindow.run counts maxRestarts times =
      ((afterCalls times).failures, permitted times) := by
  induction times using List.reverseRecOn with
  | nil => rfl
  | append_singleton times now ih =>
    rw [SlidingWindow.run_concat, ih, afterCalls_concat, permitted_concat, recordFailure_eq_offer]

/-- Of calls so far, those that count are those in the window. -/
theorem filter_inWindow {times : List ℕ} {now : ℕ} (h : ∀ t ∈ times, t ≤ now) :
    (permitted times).filter (inWindow now) = (permitted times).filter (counts now) := by
  have hsublist := SlidingWindow.admitted_sublist counts maxRestarts times
  rw [run_eq] at hsublist
  refine List.filter_congr fun t ht ↦ ?_
  rw [inWindow, decide_eq_true (h t (hsublist.subset ht)), Bool.true_and]

/-- **The restart budget is an exact sliding window.**  For calls in order of time,

* a call is permitted iff fewer than `maxRestarts` of the permitted calls before it lie in its
  window;
* the history a call leaves is what has been permitted in its window, so nothing that has expired is
  ever counted;
* no window holds more than `maxRestarts` permitted calls. -/
theorem restartBudget_exact_window {times : List ℕ} (hsorted : times.Pairwise (· ≤ ·)) :
    (∀ before now after, times = before ++ now :: after →
      (((afterCalls before).recordFailure now).1 = true ↔
        (permitted before).countP (inWindow now) < maxRestarts) ∧
      ((afterCalls before).recordFailure now).2.failures =
        (permitted (before ++ [now])).filter (inWindow now)) ∧
    ∀ now, (permitted times).countP (inWindow now) ≤ maxRestarts := by
  refine ⟨fun before now after htimes ↦ ?_, fun now ↦ ?_⟩
  · subst htimes
    obtain ⟨hbefore, -, hlater⟩ := List.pairwise_append.mp hsorted
    have hnow : ∀ t ∈ before, t ≤ now := fun t ht ↦ hlater t ht now (by simp)
    constructor
    · have hpermitted := counts_window.offer_run_iff maxRestarts hbefore hnow
      rw [run_eq] at hpermitted
      rw [recordFailure_eq_offer, hpermitted, List.countP_eq_length_filter,
        List.countP_eq_length_filter, filter_inWindow hnow]
    · have hkept := counts_window.kept_run_concat maxRestarts (counts_self now) hbefore hnow
      rw [run_eq, afterCalls_concat] at hkept
      have hle : ∀ t ∈ before ++ [now], t ≤ now := List.forall_mem_append.mpr ⟨hnow, by simp⟩
      exact hkept.trans (filter_inWindow hle).symm
  · have hcount := counts_window.countP_live_le maxRestarts hsorted now
    rw [run_eq] at hcount
    exact hcount

/-- The sixth failure in thirty seconds is refused, and one at the moment the first expires is
not. -/
theorem restartBudget_exact_window_sample :
    let times := [0, 1, 2, 3, 4].map (· * 10 ^ 9)
    (times.Pairwise (· ≤ ·) ∧ (times ++ [29 * 10 ^ 9, 30 * 10 ^ 9]).Pairwise (· ≤ ·)) ∧
      ((afterCalls times).recordFailure (29 * 10 ^ 9)).1 = false ∧
      ((afterCalls (times ++ [29 * 10 ^ 9])).recordFailure (30 * 10 ^ 9)).1 = true ∧
      ∀ now, (permitted (times ++ [29 * 10 ^ 9, 30 * 10 ^ 9])).countP (inWindow now) ≤
        maxRestarts :=
  ⟨by decide, by decide, by decide, (restartBudget_exact_window (by decide)).2⟩

end RestartBudget

end Renee.Supervisor
