import Mathlib.Data.List.Perm.Subperm
import Mathlib.Data.Set.Insert

/-!
# A line of responses and events

Several parties put items on a line, one takes them off at its head.  Items are responses or events.
A response may be put anywhere on the line, an event only at its end, and items may be lost.

* `Announced`: what an item requires is known when the item is reached, from the beginning or since
  an earlier item has announced it.
* `Carried`: the events that have been taken off, and those still on the line after them, come in
  the order in which they were produced, and no response has been taken off more often than it was
  sent.

Both are stated of the line as it is, and there is one lemma for each thing that can happen to it.
-/

set_option autoImplicit false

namespace SharedLine

variable {β ι : Type*}

/-! ## Announcements -/

/-- Every item of a line requires only what is known when it is reached. -/
def Announced (requires announces : β → Option ι) (known : Set ι) : List β → Prop
  | [] => True
  | b :: line => (∀ i ∈ requires b, i ∈ known) ∧
      Announced requires announces (known ∪ {i | i ∈ announces b}) line

/-- What is known when a line has been taken. -/
def after (announces : β → Option ι) (known : Set ι) (line : List β) : Set ι :=
  known ∪ {i | ∃ b ∈ line, i ∈ announces b}

variable {requires announces : β → Option ι} {known known' : Set ι} {line line' : List β} {b : β}
  {i : ι}

@[simp] theorem after_nil : after announces known [] = known := by
  simp [after]

theorem after_cons : after announces known (b :: line) =
    after announces (known ∪ {i | i ∈ announces b}) line := by
  ext i
  simp only [after, List.mem_cons, Set.mem_union, Set.mem_ofPred_eq, or_assoc]
  refine or_congr_right ⟨?_, ?_⟩
  · rintro ⟨b', rfl | hb', hi⟩
    · exact .inl hi
    · exact .inr ⟨b', hb', hi⟩
  · rintro (hi | ⟨b', hb', hi⟩)
    · exact ⟨b, .inl rfl, hi⟩
    · exact ⟨b', .inr hb', hi⟩

theorem mem_after_of_known (h : i ∈ known) : i ∈ after announces known line := .inl h

theorem mem_after_of_mem (hb : b ∈ line) (hi : i ∈ announces b) :
    i ∈ after announces known line := .inr ⟨b, hb, hi⟩

theorem after_subset (hknown : known ⊆ after announces known' line')
    (hline : ∀ b ∈ line, ∀ i ∈ announces b, i ∈ after announces known' line') :
    after announces known line ⊆ after announces known' line' := by
  rintro i (hi | ⟨b, hb, hi⟩)
  · exact hknown hi
  · exact hline b hb i hi

theorem after_mono (hknown : known ⊆ known') :
    after announces known line ⊆ after announces known' line :=
  after_subset (hknown.trans fun _ ↦ mem_after_of_known) fun _ hb _ hi ↦ mem_after_of_mem hb hi

theorem after_of_subset (hline : line ⊆ line') :
    after announces known line ⊆ after announces known line' :=
  after_subset (fun _ ↦ mem_after_of_known) fun _ hb _ hi ↦ mem_after_of_mem (hline hb) hi

/-- What announces nothing is not missed. -/
theorem after_lose (hb : announces b = none) :
    after announces known (line ++ b :: line') ⊆ after announces known (line ++ line') := by
  refine after_subset (fun _ ↦ mem_after_of_known) fun b' hb' i hi ↦ ?_
  rcases List.mem_append.mp hb' with hb' | hb'
  · exact mem_after_of_mem (List.mem_append_left _ hb') hi
  · rcases List.mem_cons.mp hb' with rfl | hb'
    · rw [hb] at hi
      exact absurd hi (by simp)
    · exact mem_after_of_mem (List.mem_append_right _ hb') hi

theorem announced_append : Announced requires announces known (line ++ line') ↔
    Announced requires announces known line ∧
      Announced requires announces (after announces known line) line' := by
  induction line generalizing known with
  | nil => simp [Announced]
  | cons b line ih => rw [List.cons_append, Announced, Announced, ih, after_cons, and_assoc]

theorem Announced.mono (h : Announced requires announces known line) (hknown : known ⊆ known') :
    Announced requires announces known' line := by
  induction line generalizing known known' with
  | nil => trivial
  | cons b line ih =>
    exact ⟨fun i hi ↦ hknown (h.1 i hi), ih h.2 (Set.union_subset_union_left _ hknown)⟩

/-- What requires nothing may be put anywhere. -/
theorem Announced.insert (h : Announced requires announces known (line ++ line'))
    (hb : requires b = none) : Announced requires announces known (line ++ b :: line') := by
  obtain ⟨hline, hline'⟩ := announced_append.mp h
  refine announced_append.mpr ⟨hline, fun i hi ↦ ?_, hline'.mono Set.subset_union_left⟩
  rw [hb] at hi
  exact absurd hi (by simp)

/-- What announces nothing may be lost. -/
theorem Announced.lose (h : Announced requires announces known (line ++ b :: line'))
    (hb : announces b = none) : Announced requires announces known (line ++ line') := by
  obtain ⟨hline, -, hline'⟩ := announced_append.mp h
  refine announced_append.mpr ⟨hline, hline'.mono (Set.union_subset (fun _ hi ↦ hi) fun i hi ↦ ?_)⟩
  rw [hb] at hi
  exact absurd hi (by simp)

theorem Announced.concat (h : Announced requires announces known line)
    (hb : ∀ i ∈ requires b, i ∈ after announces known line) :
    Announced requires announces known (line ++ [b]) :=
  announced_append.mpr ⟨h, hb, trivial⟩

/-- **What an item requires has been announced before it.** -/
theorem Announced.mem_after (h : Announced requires announces known (line ++ b :: line'))
    (hi : i ∈ requires b) : i ∈ after announces known line :=
  (announced_append.mp h).2.1 i hi

/-- What is taken off the line becomes known. -/
theorem Announced.tail (h : Announced requires announces known (b :: line))
    (hknown : known ∪ {i | i ∈ announces b} ⊆ known') : Announced requires announces known' line :=
  h.2.mono hknown

theorem after_tail (hknown : known ∪ {i | i ∈ announces b} ⊆ known') :
    after announces known (b :: line) ⊆ after announces known' line := by
  rw [after_cons]
  exact after_mono hknown

/-! ## What is carried -/

/-- Events leave a line in the order in which they came, and responses at most once. -/
structure Carried (event : β → Bool) (opened handed line produced sent : List β) : Prop where
  events : (opened ++ line.filter event).Sublist produced
  responses : (handed ++ line.filter fun b ↦ !event b).Subperm sent

namespace Carried

variable {event : β → Bool} {opened handed produced sent : List β}

theorem nil : Carried event [] [] [] ([] : List β) [] := ⟨.slnil, List.Subperm.refl _⟩

/-- More may have been produced and sent than is carried. -/
theorem mono (h : Carried event opened handed line produced sent) (produced' sent' : List β) :
    Carried event opened handed line (produced ++ produced') (sent ++ sent') :=
  ⟨h.events.trans (List.sublist_append_left ..),
    h.responses.trans (List.sublist_append_left ..).subperm⟩

/-- It does not matter in which order responses have been sent. -/
theorem perm {sent' : List β} (h : Carried event opened handed line produced sent)
    (hsent : sent.Perm sent') : Carried event opened handed line produced sent' :=
  ⟨h.events, h.responses.trans hsent.subperm⟩

/-- Items are lost. -/
theorem lose (h : Carried event opened handed line produced sent) (hline : line'.Sublist line) :
    Carried event opened handed line' produced sent :=
  ⟨((hline.filter _).append_left _).trans h.events,
    (((hline.filter _).append_left _).subperm).trans h.responses⟩

/-- A response is put somewhere on the line. -/
theorem respond (h : Carried event opened handed (line ++ line') produced sent)
    (hb : event b = false) :
    Carried event opened handed (line ++ b :: line') produced (sent ++ [b]) := by
  refine ⟨?_, ?_⟩
  · rw [List.filter_append, List.filter_cons_of_neg (by simp [hb]), ← List.filter_append]
    exact h.events
  · have hperm : (handed ++ (line ++ b :: line').filter fun b ↦ !event b).Perm
        ((handed ++ (line ++ line').filter fun b ↦ !event b) ++ [b]) := by
      rw [List.filter_append, List.filter_cons_of_pos (by simp [hb]), List.filter_append,
        List.append_assoc]
      exact (List.perm_middle.trans (List.perm_append_singleton b _).symm).append_left _
    exact hperm.subperm.trans (h.responses.append (List.Subperm.refl _))

/-- An event is put at the end of the line. -/
theorem produce (h : Carried event opened handed line produced sent) (hb : event b = true) :
    Carried event opened handed (line ++ [b]) (produced ++ [b]) sent := by
  refine ⟨?_, ?_⟩
  · rw [List.filter_append, ← List.append_assoc]
    exact h.events.append (List.filter_sublist ..)
  · rw [List.filter_append, List.filter_cons_of_neg (by simp [hb]), List.filter_nil,
      List.append_nil]
    exact h.responses

/-- An event is taken off. -/
theorem take_event (h : Carried event opened handed (b :: line) produced sent)
    (hb : event b = true) : Carried event (opened ++ [b]) handed line produced sent := by
  obtain ⟨hevents, hresponses⟩ := h
  rw [List.filter_cons_of_pos hb, List.append_cons] at hevents
  rw [List.filter_cons_of_neg (by simp [hb])] at hresponses
  exact ⟨hevents, hresponses⟩

/-- A response is taken off. -/
theorem take_response (h : Carried event opened handed (b :: line) produced sent)
    (hb : event b = false) : Carried event opened (handed ++ [b]) line produced sent := by
  obtain ⟨hevents, hresponses⟩ := h
  rw [List.filter_cons_of_neg (by simp [hb])] at hevents
  rw [List.filter_cons_of_pos (by simp [hb]), List.append_cons] at hresponses
  exact ⟨hevents, hresponses⟩

end Carried

end SharedLine
