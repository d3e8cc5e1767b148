import Mathlib.Data.List.Pairwise
import Mathlib.Data.List.Induction
import Mathlib.Order.Lattice

/-!
# Admission by a sliding window

At most `limit` entries are admitted while they count.  A queue holds the entries that were
admitted, oldest first; at each request those at its front that no longer count are dropped, and the
request is admitted, and enters at the back, if there is room.

When an entry counts is a parameter: `live now entry`.  All that is asked of it is that an entry
that counts now has counted before, and that a later entry counts at least as long (`Window`).
Then, for requests in order of time, the queue is exactly the admitted entries that still count
(`Window.kept_eq`), although it is looked at only from the front.  So a request is admitted iff
fewer than `limit` of the admitted entries count (`Window.offer_run_iff`), and there is no time at
which more than `limit` of them do (`Window.countP_live_le`).
-/

set_option autoImplicit false

namespace SlidingWindow

variable {τ : Type} (live : τ → τ → Bool) (limit : ℕ)

/-- Drop what no longer counts from the front, and take the request if there is room. -/
def offer (kept : List τ) (now : τ) : Bool × List τ :=
  let kept := kept.dropWhile fun entry ↦ !live now entry
  if kept.length < limit then (true, kept ++ [now]) else (false, kept)

theorem offer_eq {kept kept' : List τ} {now : τ}
    (h : kept.dropWhile (fun entry ↦ !live now entry) = kept') :
    offer live limit kept now =
      if kept'.length < limit then (true, kept' ++ [now]) else (false, kept') := by
  subst h
  rfl

/-- The queue after a sequence of requests, and what was admitted of them. -/
def run (requests : List τ) : List τ × List τ :=
  requests.foldl (fun s now ↦
    ((offer live limit s.1 now).2, if (offer live limit s.1 now).1 then s.2 ++ [now] else s.2))
      ([], [])

theorem run_concat (requests : List τ) (now : τ) :
    run live limit (requests ++ [now]) =
      ((offer live limit (run live limit requests).1 now).2,
        if (offer live limit (run live limit requests).1 now).1
        then (run live limit requests).2 ++ [now] else (run live limit requests).2) := by
  rw [run, List.foldl_append]
  rfl

/-- Only requests are admitted, in their order. -/
theorem admitted_sublist (requests : List τ) : (run live limit requests).2.Sublist requests := by
  induction requests using List.reverseRecOn with
  | nil => exact List.Sublist.refl _
  | append_singleton requests now ih =>
    rw [run_concat]
    dsimp only
    split
    · exact ih.append_right [now]
    · exact ih.trans (List.sublist_append_left requests [now])

/-- What is in the queue has been admitted. -/
theorem kept_sublist (requests : List τ) :
    (run live limit requests).1.Sublist (run live limit requests).2 := by
  induction requests using List.reverseRecOn with
  | nil => exact List.Sublist.refl _
  | append_singleton requests now ih =>
    have hdrop := (List.dropWhile_sublist (fun entry ↦ !live now entry)).trans ih
    rw [run_concat]
    dsimp only [offer]
    split
    · exact hdrop.append_right [now]
    · exact hdrop

/-! ## What the queue holds -/

variable [LinearOrder τ]

/-- When an entry counts, as time passes. -/
structure Window (live : τ → τ → Bool) : Prop where
  /-- What counts later counts now. -/
  of_later : ∀ {now later entry}, now ≤ later → live later entry = true → live now entry = true
  /-- What entered later counts at least as long. -/
  of_earlier : ∀ {now entry entry'}, entry ≤ entry' → live now entry = true → live now entry' = true

variable {live} {requests : List τ} {now : τ}

namespace Window

/-- In a sorted queue what no longer counts is at the front. -/
theorem dropWhile_eq_filter (w : Window live) {kept : List τ} (h : kept.Pairwise (· ≤ ·)) :
    kept.dropWhile (fun entry ↦ !live now entry) = kept.filter (live now) := by
  induction kept with
  | nil => rfl
  | cons entry kept ih =>
    obtain ⟨hentry, hkept⟩ := List.pairwise_cons.mp h
    cases hlive : live now entry with
    | false =>
      rw [List.dropWhile_cons_of_pos (by rw [hlive]; rfl),
        List.filter_cons_of_neg (by simp [hlive]), ih hkept]
    | true =>
      rw [List.dropWhile_cons_of_neg (by simp [hlive]), List.filter_cons_of_pos hlive]
      congr 1
      exact (List.filter_eq_self.mpr fun entry' hmem ↦ w.of_earlier (hentry entry' hmem) hlive).symm

/-- What counts later counts now, so nothing is lost by keeping what counts now. -/
theorem filter_filter (w : Window live) {later : τ} (h : now ≤ later) (entries : List τ) :
    (entries.filter (live now)).filter (live later) = entries.filter (live later) := by
  rw [List.filter_filter]
  refine List.filter_congr fun entry _ ↦ ?_
  cases hlater : live later entry with
  | false => rfl
  | true => rw [w.of_later h hlater]; rfl

/-- **What a request finds in the queue is what has been admitted and counts.** -/
theorem kept_eq (w : Window live) (hsorted : requests.Pairwise (· ≤ ·))
    (hnow : ∀ r ∈ requests, r ≤ now) :
    (run live limit requests).1.dropWhile (fun entry ↦ !live now entry) =
      (run live limit requests).2.filter (live now) := by
  have hqueue := (hsorted.sublist (admitted_sublist live limit _)).sublist
    (kept_sublist live limit _)
  rw [w.dropWhile_eq_filter hqueue]
  clear hqueue
  induction requests using List.reverseRecOn generalizing now with
  | nil => rfl
  | append_singleton requests last ih =>
    obtain ⟨hrequests, -, hbefore⟩ := List.pairwise_append.mp hsorted
    have hlast : ∀ r ∈ requests, r ≤ last := fun r hr ↦ hbefore r hr last (by simp)
    have hle : last ≤ now := hnow last (by simp)
    have hqueue := (hrequests.sublist (admitted_sublist live limit _)).sublist
      (kept_sublist live limit _)
    have hkept := ih hrequests hlast
    rw [run_concat, offer_eq live limit ((w.dropWhile_eq_filter hqueue).trans hkept)]
    split
    · dsimp only
      rw [if_pos rfl, List.filter_append, List.filter_append, w.filter_filter hle]
    · dsimp only
      rw [if_neg (by simp), w.filter_filter hle]

/-- **A request is admitted iff there is room beside the admitted entries that count.** -/
theorem offer_run_iff (w : Window live) (hsorted : requests.Pairwise (· ≤ ·))
    (hnow : ∀ r ∈ requests, r ≤ now) :
    (offer live limit (run live limit requests).1 now).1 = true ↔
      (run live limit requests).2.countP (live now) < limit := by
  rw [offer_eq live limit (w.kept_eq limit hsorted hnow), List.countP_eq_length_filter]
  split
  · rename_i hroom; exact iff_of_true rfl hroom
  · rename_i hroom; exact iff_of_false (by simp) hroom

/-- After a request the queue is what has been admitted and counts. -/
theorem kept_run_concat (w : Window live) (hself : live now now = true)
    (hsorted : requests.Pairwise (· ≤ ·)) (hnow : ∀ r ∈ requests, r ≤ now) :
    (run live limit (requests ++ [now])).1 =
      (run live limit (requests ++ [now])).2.filter (live now) := by
  rw [run_concat, offer_eq live limit (w.kept_eq limit hsorted hnow)]
  split
  · dsimp only
    rw [if_pos rfl, List.filter_append, List.filter_cons_of_pos hself, List.filter_nil]
  · dsimp only
    rw [if_neg (by simp)]

/-- **At no time do more than `limit` of the admitted entries count.** -/
theorem countP_live_le (w : Window live) (hsorted : requests.Pairwise (· ≤ ·)) (t : τ) :
    (run live limit requests).2.countP (fun entry ↦ decide (entry ≤ t) && live t entry) ≤
      limit := by
  induction requests using List.reverseRecOn with
  | nil => exact Nat.zero_le limit
  | append_singleton requests now ih =>
    obtain ⟨hrequests, -, hbefore⟩ := List.pairwise_append.mp hsorted
    have hnow : ∀ r ∈ requests, r ≤ now := fun r hr ↦ hbefore r hr now (by simp)
    have hle := ih hrequests
    rw [run_concat]
    dsimp only
    split
    · rename_i hadmitted
      rw [List.countP_append, List.countP_singleton]
      split
      · -- what counts at `t` beside the new entry counted when that was admitted
        rename_i ht
        rw [Bool.and_eq_true, decide_eq_true_eq] at ht
        have hcount : (run live limit requests).2.countP
            (fun entry ↦ decide (entry ≤ t) && live t entry) ≤
              (run live limit requests).2.countP (live now) := by
          refine List.countP_mono_left fun entry _ hentry ↦ ?_
          rw [Bool.and_eq_true] at hentry
          exact w.of_later ht.1 hentry.2
        have hroom := (w.offer_run_iff limit hrequests hnow).mp hadmitted
        exact Nat.succ_le_of_lt (Nat.lt_of_le_of_lt hcount hroom)
      · exact hle
    · exact hle

end Window

end SlidingWindow
