import Mathlib.Data.List.Basic

/-!
# Programs that share a state

A program reaches a state that it shares with others through atomic accesses.  Between any two of
its accesses the others may change the state, within what they have promised.

* `Program` is the tree of what a program does next: it has a result, or it makes an access and goes
  on as the answer says.  Programs are a monad, so they are written as the code they stand for is.
* `Program.Every` says something of each access that a program may come to, and `Program.Yields` of
  each result.
* `Program.run` is what a program does when nobody else does anything.
* `Program.Meets` is what it does among others: as long as they keep to the relation `rely`, its own
  accesses keep to `guarantee` and its result satisfies a postcondition.
* `Meets.step` and `Meets.of_rely` are what a scheduler needs: the property survives an access of
  the program and whatever the others do.  `meets_bind`, `Meets.mono`, `Meets.frame` and
  `meets_filter` are the rules for establishing it.
-/

set_option autoImplicit false

namespace Interference

/-- A program that answers with an `α`, after accesses `o` that are answered with a `Res o`. -/
inductive Program {Op : Type} (Res : Op → Type) (α : Type) : Type
  | result (a : α) : Program Res α
  | access (o : Op) (k : Res o → Program Res α) : Program Res α

namespace Program

variable {Op : Type} {Res : Op → Type} {α β : Type}

def bind : Program Res α → (α → Program Res β) → Program Res β
  | result a, f => f a
  | access o k, f => access o fun r ↦ (k r).bind f

instance : Monad (Program Res) where
  pure := result
  bind := bind

/-- The program that makes one access. -/
def perform (o : Op) : Program Res (Res o) := access o result

@[simp] theorem pure_eq (a : α) : (pure a : Program Res α) = result a := rfl

@[simp] theorem result_bind (a : α) (f : α → Program Res β) : (result a >>= f) = f a := rfl

@[simp] theorem access_bind (o : Op) (k : Res o → Program Res α) (f : α → Program Res β) :
    (access o k >>= f) = access o fun r ↦ k r >>= f := rfl

@[simp] theorem perform_bind (o : Op) (f : Res o → Program Res β) :
    (perform o >>= f) = access o f := rfl

/-- Keep the elements that a program says to keep, asked from the first to the last. -/
def filter (p : β → Program Res Bool) : List β → Program Res (List β)
  | [] => pure []
  | b :: bs => do
    let keep ← p b
    let kept ← filter p bs
    return if keep then b :: kept else kept

/-- Every access that a program may come to satisfies `P`. -/
def Every (P : Op → Prop) : Program Res α → Prop
  | result _ => True
  | access o k => P o ∧ ∀ r, (k r).Every P

variable {P : Op → Prop}

theorem every_perform {o : Op} (h : P o) : (perform o : Program Res (Res o)).Every P :=
  ⟨h, fun _ ↦ trivial⟩

theorem Every.bind {x : Program Res α} {f : α → Program Res β} (hx : x.Every P)
    (hf : ∀ a, (f a).Every P) : (x >>= f).Every P := by
  induction x with
  | result a => exact hf a
  | access o k ih => exact ⟨hx.1, fun r ↦ ih r (hx.2 r)⟩

theorem every_filter {p : β → Program Res Bool} (h : ∀ b, (p b).Every P) (bs : List β) :
    (filter p bs).Every P := by
  induction bs with
  | nil => trivial
  | cons b bs ih => exact (h b).bind fun keep ↦ ih.bind fun kept ↦ trivial

/-- Every result that a program may come to satisfies `Q`. -/
def Yields (Q : α → Prop) : Program Res α → Prop
  | result a => Q a
  | access _ k => ∀ r, (k r).Yields Q

theorem Yields.bind {Q : α → Prop} {Q' : β → Prop} {x : Program Res α} {f : α → Program Res β}
    (hx : x.Yields Q) (hf : ∀ a, Q a → (f a).Yields Q') : (x >>= f).Yields Q' := by
  induction x with
  | result a => exact hf a hx
  | access o k ih => exact fun r ↦ ih r (hx r)

theorem yields_of_forall {Q : α → Prop} (h : ∀ a, Q a) (x : Program Res α) : x.Yields Q := by
  induction x with
  | result a => exact h a
  | access o k ih => exact ih

theorem yields_perform (o : Op) : (perform o : Program Res (Res o)).Yields fun _ ↦ True :=
  fun _ ↦ trivial

/-- What is kept is among what there was, and has been kept for a reason. -/
theorem yields_filter {p : β → Program Res Bool} {Q : β → Prop}
    (h : ∀ b, (p b).Yields fun keep ↦ keep = true → Q b) (bs : List β) :
    (filter p bs).Yields fun kept ↦ ∀ b ∈ kept, b ∈ bs ∧ Q b := by
  induction bs with
  | nil => exact fun b hmem ↦ absurd hmem (by simp)
  | cons b bs ih =>
    refine (h b).bind fun keep hkeep ↦ ih.bind fun kept hkept b' hmem ↦ ?_
    have hrest (hmem : b' ∈ kept) : b' ∈ b :: bs ∧ Q b' :=
      (hkept b' hmem).imp (List.mem_cons_of_mem _) id
    cases keep with
    | false => exact hrest hmem
    | true =>
      rcases List.mem_cons.mp hmem with rfl | hmem
      · exact ⟨List.mem_cons_self .., hkeep rfl⟩
      · exact hrest hmem

section Semantics

variable {σ : Type} (exec : (o : Op) → σ → Res o × σ)

/-- What a program does alone. -/
def run : Program Res α → σ → α × σ
  | result a, s => (a, s)
  | access o k, s => run (k (exec o s).1) (exec o s).2

@[simp] theorem run_result (a : α) (s : σ) : run exec (result a) s = (a, s) := rfl

@[simp] theorem run_access (o : Op) (k : Res o → Program Res α) (s : σ) :
    run exec (access o k) s = run exec (k (exec o s).1) (exec o s).2 := rfl

theorem run_bind (x : Program Res α) (f : α → Program Res β) (s : σ) :
    run exec (x >>= f) s = run exec (f (run exec x s).1) (run exec x s).2 := by
  induction x generalizing s with
  | result a => rfl
  | access o k ih => exact ih (exec o s).1 (exec o s).2

/-! ## What a program does among others -/

variable (rely guarantee : σ → σ → Prop)

/-- Whatever the others do within `rely`, the program keeps to `guarantee`, and what it answers with
satisfies the postcondition in the state of its last access. -/
def Meets (post : α → σ → Prop) : Program Res α → σ → Prop
  | result a, s => post a s
  | access o k, s => ∀ s', rely s s' → guarantee s' (exec o s').2 ∧
    Meets post (k (exec o s').1) (exec o s').2

variable {exec rely guarantee} {post post' : α → σ → Prop} {s s' : σ}

@[simp] theorem meets_result {a : α} :
    Meets exec rely guarantee post (result a : Program Res α) s ↔ post a s := Iff.rfl

theorem meets_access {o : Op} {k : Res o → Program Res α} :
    Meets exec rely guarantee post (access o k) s ↔ ∀ s', rely s s' →
      guarantee s' (exec o s').2 ∧ Meets exec rely guarantee post (k (exec o s').1) (exec o s').2 :=
  Iff.rfl

/-- An access of the program. -/
theorem Meets.step (hrefl : ∀ s, rely s s) {o : Op} {k : Res o → Program Res α}
    (h : Meets exec rely guarantee post (access o k) s) :
    guarantee s (exec o s).2 ∧ Meets exec rely guarantee post (k (exec o s).1) (exec o s).2 :=
  h s (hrefl s)

/-- A step of the others, while the program is not done. -/
theorem Meets.of_rely (htrans : ∀ {s₁ s₂ s₃}, rely s₁ s₂ → rely s₂ s₃ → rely s₁ s₃) {o : Op}
    {k : Res o → Program Res α} (h : Meets exec rely guarantee post (access o k) s)
    (hrely : rely s s') : Meets exec rely guarantee post (access o k) s' :=
  fun s'' h'' ↦ h s'' (htrans hrely h'')

/-- Programs one after the other. -/
theorem meets_bind {x : Program Res α} {f : α → Program Res β} {post : β → σ → Prop} :
    Meets exec rely guarantee post (x >>= f) s ↔
      Meets exec rely guarantee (fun a s ↦ Meets exec rely guarantee post (f a) s) x s := by
  induction x generalizing s with
  | result a => exact Iff.rfl
  | access o k ih =>
    rw [access_bind, meets_access, meets_access]
    exact forall₂_congr fun s' _ ↦ and_congr_right fun _ ↦ ih (exec o s').1

theorem Meets.mono {x : Program Res α} (h : Meets exec rely guarantee post x s)
    (hpost : ∀ a s, post a s → post' a s) : Meets exec rely guarantee post' x s := by
  induction x generalizing s with
  | result a => exact hpost a s h
  | access o k ih => exact fun s' hs' ↦ ⟨(h s' hs').1, ih _ (h s' hs').2⟩

/-- Others may be promised less than is kept. -/
theorem Meets.mono_guarantee {guarantee' : σ → σ → Prop} {x : Program Res α}
    (h : Meets exec rely guarantee post x s) (hle : ∀ s s', guarantee s s' → guarantee' s s') :
    Meets exec rely guarantee' post x s := by
  induction x generalizing s with
  | result a => exact h
  | access o k ih => exact fun s' hs' ↦ ⟨hle _ _ (h s' hs').1, ih _ (h s' hs').2⟩

variable (rely guarantee) in
/-- What neither the others nor the program can undo. -/
def Stable (F : σ → Prop) : Prop := ∀ s s', F s → rely s s' ∨ guarantee s s' → F s'

/-- **The frame rule**: what nobody can undo still holds at the end. -/
theorem Meets.frame {x : Program Res α} {F : σ → Prop} (h : Meets exec rely guarantee post x s)
    (hF : Stable rely guarantee F) (hs : F s) :
    Meets exec rely guarantee (fun a s ↦ post a s ∧ F s) x s := by
  induction x generalizing s with
  | result a => exact ⟨h, hs⟩
  | access o k ih =>
    intro s' hs'
    obtain ⟨hown, hrest⟩ := h s' hs'
    exact ⟨hown, ih _ hrest (hF _ _ (hF _ _ hs (.inl hs')) (.inr hown))⟩

/-- **The loop rule**: if what a turn keeps is `P`, and what it does not keep is made `D` for good,
then the loop leaves a part of the list in which everything is `P`, and outside of which everything
is `D`. -/
theorem meets_filter {p : β → Program Res Bool} {I : σ → Prop} {P : β → Prop} {D : β → σ → Prop}
    {bs : List β} (hI : Stable rely guarantee I) (hD : ∀ b, Stable rely guarantee (D b))
    (hturn : ∀ b ∈ bs, ∀ s, I s →
      Meets exec rely guarantee (fun keep s ↦ if keep then P b else D b s) (p b) s)
    (hs : I s) :
    Meets exec rely guarantee (fun kept s ↦ kept.Sublist bs ∧ (∀ b ∈ kept, P b) ∧
      ∀ b ∈ bs, b ∈ kept ∨ D b s) (filter p bs) s := by
  induction bs generalizing s with
  | nil => exact ⟨.slnil, by simp, by simp⟩
  | cons b bs ih =>
    rw [filter, meets_bind]
    refine ((hturn b (List.mem_cons_self ..) s hs).frame hI hs).mono fun keep s ⟨hkeep, hs⟩ ↦ ?_
    rw [meets_bind]
    have hrest := ih (fun b' hb' ↦ hturn b' (List.mem_cons_of_mem _ hb')) hs
    cases keep with
    | true =>
      refine hrest.mono fun kept s ⟨hsub, hkept, hdropped⟩ ↦ ⟨hsub.cons_cons b, ?_, ?_⟩
      · exact List.forall_mem_cons.mpr ⟨hkeep, hkept⟩
      · refine List.forall_mem_cons.mpr ⟨.inl (List.mem_cons_self ..), fun b' hb' ↦ ?_⟩
        exact (hdropped b' hb').imp (List.mem_cons_of_mem _) id
    | false =>
      -- later turns do not undo what this one has done
      refine (hrest.frame (hD b) hkeep).mono fun kept s ⟨⟨hsub, hkept, hdropped⟩, hD⟩ ↦
        ⟨hsub.cons b, hkept, ?_⟩
      exact List.forall_mem_cons.mpr ⟨.inr hD, hdropped⟩

end Semantics

end Program

end Interference
