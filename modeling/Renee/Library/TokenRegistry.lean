import Mathlib.Data.List.Nodup
import Mathlib.Data.List.Perm.Basic

/-!
# Registries of entries that answer to tokens

A server that hands out one-time tokens keeps a list of entries, each answering to a few tokens, and
looks an entry up by a token presented to it.  Entries are filtered, appended, replaced in place and
removed by swapping; none of this may ever leave a token that two entries answer to.

* `Distinct tokens entries` says that no token occurs twice.  It survives every one of these
  operations (`Distinct.filter`, `Distinct.concat`, `Distinct.set`, `Distinct.swapRemove`), and it
  makes a token name one entry (`Distinct.eq_of_mem`).
* `mint` draws random tokens until one is free; `mint_fresh` says that what it returns is.
* `mem_set_of_ne` and `mem_swapRemove_of_ne` are the frame: the operations on one entry leave the
  others where they can be found.
* A `Quota` bounds how many entries may agree on a key.  It too survives the operations, provided
  that an entry is appended only where there is room (`Quota.Holds.concat`); and a key that has just
  lost an entry has room (`Quota.Holds.lt_of_removed`).
* A *ticket* is a token together with what it is good for.  `Issued` says that the tickets of the
  entries are, for each token, the last in a log of what has been issued; a log only ever grows, and
  a fresh token does not shadow a live one (`Issued.concat`, `Issued.set`).
-/

set_option autoImplicit false

namespace TokenRegistry

universe u v w

variable {π : Type u} {τ : Type v} {ε : Type w}

/-! ## One entry of a list -/

/-- `Vec::swap_remove`: the last element takes the place of the one removed. -/
def swapRemove (l : List π) (i : ℕ) : List π :=
  match l.getLast? with
  | none => []
  | some last => (l.set i last).dropLast

variable {l : List π} {i : ℕ} {a b : π}

theorem perm_cons_eraseIdx (h : l[i]? = some a) : l.Perm (a :: l.eraseIdx i) := by
  obtain ⟨hi, rfl⟩ := List.getElem?_eq_some_iff.mp h
  exact (List.getElem_cons_eraseIdx_perm hi).symm

theorem set_perm (h : l[i]? = some a) (b : π) : (l.set i b).Perm (b :: l.eraseIdx i) :=
  List.set_perm_cons_eraseIdx (List.getElem?_eq_some_iff.mp h).1 b

theorem swapRemove_perm (h : l[i]? = some a) : (swapRemove l i).Perm (l.eraseIdx i) := by
  have hi := (List.getElem?_eq_some_iff.mp h).1
  rcases List.eq_nil_or_concat l with rfl | ⟨front, last, rfl⟩
  · exact absurd hi (by simp)
  rw [List.concat_eq_append] at hi ⊢
  rw [List.length_append, List.length_singleton] at hi
  simp only [swapRemove, List.getLast?_concat]
  by_cases hlast : i < front.length
  · rw [List.set_append_left _ _ hlast, List.dropLast_concat,
      List.eraseIdx_append_of_lt_length hlast]
    exact (List.set_perm_cons_eraseIdx hlast last).trans (List.perm_append_singleton _ _).symm
  · obtain rfl : i = front.length := by omega
    rw [List.set_append_right _ _ (Nat.le_refl _), List.eraseIdx_append_of_length_le
      (Nat.le_refl _)]
    simp

theorem mem_of_mem_swapRemove {x : π} (h : l[i]? = some a) (hx : x ∈ swapRemove l i) : x ∈ l :=
  List.mem_of_mem_eraseIdx ((swapRemove_perm h).mem_iff.mp hx)

theorem mem_set_self (h : l[i]? = some a) : b ∈ l.set i b :=
  (set_perm h b).mem_iff.mpr (List.mem_cons_self ..)

theorem mem_eraseIdx_of_ne {x : π} (hx : x ∈ l) (h : l[i]? = some a) (hne : x ≠ a) :
    x ∈ l.eraseIdx i := by
  rcases List.mem_cons.mp ((perm_cons_eraseIdx h).mem_iff.mp hx) with rfl | hmem
  · exact absurd rfl hne
  · exact hmem

theorem mem_set_of_ne {x : π} (hx : x ∈ l) (h : l[i]? = some a) (hne : x ≠ a) : x ∈ l.set i b :=
  (set_perm h b).mem_iff.mpr (List.mem_cons_of_mem _ (mem_eraseIdx_of_ne hx h hne))

theorem mem_swapRemove_of_ne {x : π} (hx : x ∈ l) (h : l[i]? = some a) (hne : x ≠ a) :
    x ∈ swapRemove l i :=
  (swapRemove_perm h).mem_iff.mpr (mem_eraseIdx_of_ne hx h hne)

/-- An entry that a condition passes over may be removed or replaced. -/
theorem filter_swapRemove_perm {p : π → Bool} (h : l[i]? = some a) (ha : p a = false) :
    ((swapRemove l i).filter p).Perm (l.filter p) := by
  have hsplit := (perm_cons_eraseIdx h).filter p
  rw [List.filter_cons_of_neg (by rw [ha]; simp)] at hsplit
  exact ((swapRemove_perm h).filter p).trans hsplit.symm

theorem filter_set_perm {p : π → Bool} (h : l[i]? = some a) (ha : p a = false)
    (hb : p b = false) : ((l.set i b).filter p).Perm (l.filter p) := by
  have hsplit := (perm_cons_eraseIdx h).filter p
  rw [List.filter_cons_of_neg (by rw [ha]; simp)] at hsplit
  refine ((set_perm h b).filter p).trans ?_
  rw [List.filter_cons_of_neg (by rw [hb]; simp)]
  exact hsplit.symm

/-! ## Distinct tokens -/

/-- No token occurs twice, in one entry or in two. -/
def Distinct (tokens : π → List τ) (entries : List π) : Prop := (entries.flatMap tokens).Nodup

variable {tokens : π → List τ} {entries entries' : List π} {entry entry' : π}

theorem distinct_nil : Distinct tokens [] := List.nodup_nil

theorem distinct_cons : Distinct tokens (entry :: entries) ↔
    (tokens entry).Nodup ∧ Distinct tokens entries ∧
      ∀ x ∈ tokens entry, ∀ other ∈ entries, x ∉ tokens other := by
  rw [Distinct, List.flatMap_cons, List.nodup_append']
  refine and_congr Iff.rfl (and_congr Iff.rfl ?_)
  rw [List.disjoint_left]
  simp only [List.mem_flatMap, not_exists, not_and]

theorem Distinct.perm (h : Distinct tokens entries) (hp : entries.Perm entries') :
    Distinct tokens entries' := (hp.flatMap_right tokens).nodup_iff.mp h

theorem Distinct.filter (h : Distinct tokens entries) (p : π → Bool) :
    Distinct tokens (entries.filter p) := by
  induction entries with
  | nil => exact h
  | cons entry entries ih =>
    obtain ⟨hnodup, hrest, hdisjoint⟩ := distinct_cons.mp h
    rw [List.filter_cons]
    split
    · exact distinct_cons.mpr ⟨hnodup, ih hrest,
        fun x hx other ho ↦ hdisjoint x hx other (List.mem_filter.mp ho).1⟩
    · exact ih hrest

theorem Distinct.concat (h : Distinct tokens entries) (hnodup : (tokens entry).Nodup)
    (hfresh : ∀ x ∈ tokens entry, ∀ other ∈ entries, x ∉ tokens other) :
    Distinct tokens (entries ++ [entry]) :=
  (distinct_cons.mpr ⟨hnodup, h, hfresh⟩).perm (List.perm_append_singleton _ _).symm

/-- An entry may be replaced by one that answers to tokens of the old one and to free ones. -/
theorem Distinct.set (h : Distinct tokens entries) (hi : entries[i]? = some entry)
    (hnodup : (tokens entry').Nodup)
    (hfresh : ∀ x ∈ tokens entry', x ∈ tokens entry ∨ ∀ other ∈ entries, x ∉ tokens other) :
    Distinct tokens (entries.set i entry') := by
  have hsplit := perm_cons_eraseIdx hi
  obtain ⟨-, hrest, hdisjoint⟩ := distinct_cons.mp (h.perm hsplit)
  refine (distinct_cons.mpr ⟨hnodup, hrest, fun x hx other ho ↦ ?_⟩).perm (set_perm hi _).symm
  rcases hfresh x hx with hold | hfree
  · exact hdisjoint x hold other ho
  · exact hfree other (hsplit.mem_iff.mpr (List.mem_cons_of_mem _ ho))

theorem Distinct.swapRemove (h : Distinct tokens entries) (hi : entries[i]? = some entry) :
    Distinct tokens (swapRemove entries i) :=
  (distinct_cons.mp (h.perm (perm_cons_eraseIdx hi))).2.1.perm (swapRemove_perm hi).symm

/-- **A token names one entry.** -/
theorem Distinct.eq_of_mem (h : Distinct tokens entries) (he : entry ∈ entries)
    (he' : entry' ∈ entries) {x : τ} (hx : x ∈ tokens entry) (hx' : x ∈ tokens entry') :
    entry = entry' := by
  obtain ⟨i, hi⟩ := List.mem_iff_getElem?.mp he
  have hsplit := perm_cons_eraseIdx hi
  rcases List.mem_cons.mp (hsplit.mem_iff.mp he') with rfl | hrest
  · rfl
  · exact absurd hx' ((distinct_cons.mp (h.perm hsplit)).2.2 x hx entry' hrest)

theorem Distinct.nodup (h : Distinct tokens entries) (he : entry ∈ entries) :
    (tokens entry).Nodup := by
  obtain ⟨i, hi⟩ := List.mem_iff_getElem?.mp he
  exact (distinct_cons.mp (h.perm (perm_cons_eraseIdx hi))).1

theorem Distinct.findIdx? (h : Distinct tokens entries) (he : entry ∈ entries) {x : τ}
    {p : π → Bool} (hp : p entry = true) (hx : ∀ e, p e = true → x ∈ tokens e) :
    ∃ i, entries.findIdx? p = some i ∧ entries[i]? = some entry := by
  cases hfind : entries.findIdx? p with
  | none => exact absurd hp (by rw [List.findIdx?_eq_none_iff.mp hfind entry he]; simp)
  | some i =>
    obtain ⟨hi, hpi, -⟩ := List.findIdx?_eq_some_iff_getElem.mp hfind
    refine ⟨i, rfl, ?_⟩
    rw [List.getElem?_eq_getElem hi,
      h.eq_of_mem (List.getElem_mem hi) he (hx _ hpi) (hx _ hp)]

/-- What a look-up finds is an entry that answers. -/
theorem answers_of_findIdx? {p : π → Bool} {i : ℕ} (hfind : entries.findIdx? p = some i)
    (hi : entries[i]? = some entry) : entry ∈ entries ∧ p entry = true := by
  obtain ⟨hlt, hp, -⟩ := List.findIdx?_eq_some_iff_getElem.mp hfind
  obtain ⟨_, rfl⟩ := List.getElem?_eq_some_iff.mp hi
  exact ⟨List.getElem_mem hlt, hp⟩

/-! ## Quotas -/

/-- A bound on the number of entries with one key. -/
structure Quota (π : Type u) where
  {κ : Type}
  [decidableEq : DecidableEq κ]
  key : π → κ
  limit : ℕ

attribute [instance] Quota.decidableEq

namespace Quota

variable {q : Quota π}

/-- How many entries have a key. -/
def count (q : Quota π) (k : q.κ) (entries : List π) : ℕ :=
  entries.countP fun entry ↦ q.key entry = k

/-- No key has too many entries. -/
def Holds (q : Quota π) (entries : List π) : Prop := ∀ k, q.count k entries ≤ q.limit

theorem holds_nil : q.Holds [] := fun _ ↦ Nat.zero_le _

theorem Holds.perm (h : q.Holds entries) (hp : entries.Perm entries') : q.Holds entries' := by
  intro k
  rw [count, ← hp.countP_eq]
  exact h k

theorem Holds.sublist (h : q.Holds entries) (hs : entries'.Sublist entries) : q.Holds entries' :=
  fun k ↦ Nat.le_trans hs.countP_le (h k)

theorem Holds.filter (h : q.Holds entries) (p : π → Bool) : q.Holds (entries.filter p) :=
  h.sublist List.filter_sublist

theorem Holds.swapRemove (h : q.Holds entries) (hi : entries[i]? = some entry) :
    q.Holds (swapRemove entries i) :=
  (h.sublist (List.eraseIdx_sublist ..)).perm (swapRemove_perm hi).symm

theorem count_cons (k : q.κ) : q.count k (entry :: entries) =
    q.count k entries + if q.key entry = k then 1 else 0 := by
  simp only [count, List.countP_cons, decide_eq_true_eq]

theorem Holds.cons (h : q.Holds entries) (hroom : q.count (q.key entry) entries < q.limit) :
    q.Holds (entry :: entries) := by
  intro k
  rw [count_cons]
  split
  · rename_i hk
    rw [← hk]
    exact hroom
  · exact h k

theorem Holds.concat (h : q.Holds entries) (hroom : q.count (q.key entry) entries < q.limit) :
    q.Holds (entries ++ [entry]) :=
  (h.cons hroom).perm (List.perm_append_singleton _ _).symm

/-- An entry may be replaced by one with the same key. -/
theorem Holds.set (h : q.Holds entries) (hi : entries[i]? = some entry)
    (hkey : q.key entry' = q.key entry) : q.Holds (entries.set i entry') := by
  have hsplit := h.perm (perm_cons_eraseIdx hi)
  refine Holds.perm (fun k ↦ ?_) (set_perm hi _).symm
  have hk := hsplit k
  rw [count_cons] at hk ⊢
  rw [hkey]
  exact hk

/-- **Where an entry has been removed there is room for one.** -/
theorem Holds.lt_of_removed (h : q.Holds entries) (he : entry ∈ entries) (p : π → Bool)
    (hp : p entry = false) (k : q.κ) (hk : q.key entry = k) :
    q.count k (entries.filter p) < q.limit := by
  obtain ⟨j, hj⟩ := List.mem_iff_getElem?.mp he
  have hsplit := perm_cons_eraseIdx hj
  have hle := h.perm hsplit k
  have hcount : q.count k (entries.filter p) = q.count k ((entries.eraseIdx j).filter p) := by
    have hfilter := (hsplit.filter p).countP_eq fun e ↦ decide (q.key e = k)
    rw [List.filter_cons_of_neg (by rw [hp]; simp)] at hfilter
    exact hfilter
  have hsub : q.count k ((entries.eraseIdx j).filter p) ≤ q.count k (entries.eraseIdx j) :=
    (List.filter_sublist).countP_le
  rw [count_cons, if_pos hk] at hle
  omega

end Quota

/-! ## Minting -/

/-- Draw tokens until one is free, at most `attempts` times from draw number `n` on.  A draw that
fails ends the attempt with an error, and running out of attempts with nothing. -/
def mint (unavailable : ε) (taken : τ → Bool) (draw : ℕ → Option τ) :
    ℕ → ℕ → Except ε (Option τ)
  | 0, _ => .ok none
  | attempts + 1, n =>
    match draw n with
    | none => .error unavailable
    | some token =>
      if taken token then mint unavailable taken draw attempts (n + 1) else .ok (some token)

/-- **A minted token is free.** -/
theorem mint_fresh {unavailable : ε} {taken : τ → Bool} {draw : ℕ → Option τ} {attempts n : ℕ}
    {token : τ} (h : mint unavailable taken draw attempts n = .ok (some token)) :
    taken token = false := by
  induction attempts generalizing n with
  | zero => exact absurd h (by simp [mint])
  | succ attempts ih =>
    rw [mint] at h
    split at h
    · exact absurd h (by simp)
    · split at h
      · exact ih h
      · rename_i hfree
        rw [Except.ok.injEq, Option.some_inj] at h
        rw [← h]
        exact Bool.eq_false_iff.mpr hfree

/-- Where fewer tokens are taken, minting succeeds as well. -/
theorem exists_mint_of_taken {unavailable : ε} {taken taken' : τ → Bool} {draw : ℕ → Option τ}
    {attempts n : ℕ} (h : ∀ x, taken' x = true → taken x = true)
    (hmint : ∃ token, mint unavailable taken draw attempts n = .ok (some token)) :
    ∃ token, mint unavailable taken' draw attempts n = .ok (some token) := by
  obtain ⟨token, hmint⟩ := hmint
  induction attempts generalizing n with
  | zero => exact absurd hmint (by simp [mint])
  | succ attempts ih =>
    rw [mint] at hmint ⊢
    split at hmint
    · exact absurd hmint (by simp)
    rename_i drawn _
    split at hmint
    · split
      · exact ih hmint
      · exact ⟨drawn, rfl⟩
    · rename_i hfree
      rw [if_neg (mt (h drawn) hfree)]
      exact ⟨drawn, rfl⟩

/-- Minting fails only when a draw does. -/
theorem draw_of_mint_eq_error {unavailable : ε} {taken : τ → Bool} {draw : ℕ → Option τ}
    {attempts n : ℕ} {e : ε} (h : mint unavailable taken draw attempts n = .error e) :
    e = unavailable ∧ ∃ i, draw i = none := by
  induction attempts generalizing n with
  | zero => exact absurd h (by simp [mint])
  | succ attempts ih =>
    rw [mint] at h
    split at h
    · rename_i hdraw
      exact ⟨(Except.error.inj h).symm, n, hdraw⟩
    · split at h
      · exact ih h
      · exact absurd h (by simp)

/-- Running out of attempts takes that many draws of tokens that are taken. -/
theorem taken_of_mint_eq_none {unavailable : ε} {taken : τ → Bool} {draw : ℕ → Option τ}
    {attempts n : ℕ} (h : mint unavailable taken draw attempts n = .ok none) {i : ℕ}
    (hi : i < attempts) : ∃ token, draw (n + i) = some token ∧ taken token = true := by
  induction attempts generalizing n i with
  | zero => exact absurd hi (Nat.not_lt_zero _)
  | succ attempts ih =>
    rw [mint] at h
    split at h
    · exact absurd h (by simp)
    rename_i token hdraw
    split at h
    · rename_i htaken
      cases i with
      | zero => exact ⟨token, hdraw, htaken⟩
      | succ i =>
        have hrest := ih h (Nat.lt_of_succ_lt_succ hi)
        rwa [Nat.add_right_comm, Nat.add_assoc] at hrest
    · exact absurd h (by simp)

/-! ## Tickets -/

section Tickets

variable [BEq τ] [LawfulBEq τ] {κ : Type*} {tickets : π → List (τ × κ)} {log : List (τ × κ)}
  {entries entries' : List π} {entry entry' : π} {x : τ} {k : κ}

/-- The tickets of the entries are the last ones issued, in a log with the newest first. -/
def Issued (tickets : π → List (τ × κ)) (log : List (τ × κ)) (entries : List π) : Prop :=
  ∀ entry ∈ entries, ∀ ticket ∈ tickets entry, log.lookup ticket.1 = some ticket.2

omit [LawfulBEq τ] in
theorem issued_nil : Issued tickets log [] := fun _ h ↦ absurd h List.not_mem_nil

omit [LawfulBEq τ] in
theorem Issued.mono (h : Issued tickets log entries) (hsub : ∀ e ∈ entries', e ∈ entries) :
    Issued tickets log entries' := fun e he ↦ h e (hsub e he)

/-- Issuing a fresh token leaves the tickets valid. -/
theorem Issued.fresh (h : Issued tickets log entries)
    (hfresh : ∀ e ∈ entries, ∀ ticket ∈ tickets e, ticket.1 ≠ x) :
    Issued tickets ((x, k) :: log) entries := by
  intro e he ticket ht
  rw [List.lookup_cons, beq_eq_false_iff_ne.mpr (hfresh e he ticket ht)]
  exact h e he ticket ht

/-- So does issuing a token again for what it was issued for. -/
theorem Issued.again (h : Issued tickets log entries) (hsame : log.lookup x = some k) :
    Issued tickets ((x, k) :: log) entries := by
  intro e he ticket ht
  by_cases heq : ticket.1 = x
  · rw [heq, List.lookup_cons_self, ← hsame, ← heq]
    exact h e he ticket ht
  · rw [List.lookup_cons, beq_eq_false_iff_ne.mpr heq]
    exact h e he ticket ht

/-- A new entry with a fresh token. -/
theorem Issued.concat (h : Issued tickets log entries)
    (hfresh : ∀ e ∈ entries, ∀ ticket ∈ tickets e, ticket.1 ≠ x)
    (htickets : ∀ ticket ∈ tickets entry, ticket = (x, k)) :
    Issued tickets ((x, k) :: log) (entries ++ [entry]) := by
  intro e he ticket ht
  rcases List.mem_append.mp he with hold | hnew
  · exact h.fresh hfresh e hold ticket ht
  · rw [List.mem_singleton.mp hnew] at ht
    rw [htickets ticket ht]
    exact List.lookup_cons_self

/-- An entry is replaced by one with a fresh token and tickets of the old one. -/
theorem Issued.set {i : ℕ} (h : Issued tickets log entries) (hi : entries[i]? = some entry)
    (hfresh : ∀ e ∈ entries, ∀ ticket ∈ tickets e, ticket.1 ≠ x)
    (htickets : ∀ ticket ∈ tickets entry', ticket = (x, k) ∨ ticket ∈ tickets entry) :
    Issued tickets ((x, k) :: log) (entries.set i entry') := by
  intro e he ticket ht
  rcases List.mem_or_eq_of_mem_set he with hold | rfl
  · exact h.fresh hfresh e hold ticket ht
  · rcases htickets ticket ht with rfl | hold
    · exact List.lookup_cons_self
    · exact h.fresh hfresh entry (List.mem_of_getElem? hi) ticket hold

end Tickets

end TokenRegistry
