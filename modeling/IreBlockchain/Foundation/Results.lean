import Mathlib.Data.List.Forall2

/-!
# Computations that can fail

Checks in the error monad, and the rules that take a successful computation
apart.
-/

namespace IreBlockchain.Foundation

def ensure {ε : Type} (p : Prop) [Decidable p] (e : ε) : Except ε Unit :=
  if p then .ok () else .error e

section Results

variable {ε α β : Type}

@[simp] theorem ensure_eq_ok_iff {p : Prop} [Decidable p] {e : ε} {u : Unit} :
    ensure p e = .ok u ↔ p := by
  by_cases h : p <;> simp [ensure, h]

theorem ensure_of {p : Prop} [Decidable p] {e : ε} (h : p) :
    ensure p e = .ok () := ensure_eq_ok_iff.mpr h

theorem bind_eq_ok_iff {x : Except ε α} {f : α → Except ε β} {b : β} :
    (x >>= f) = .ok b ↔ ∃ a, x = .ok a ∧ f a = .ok b := by
  cases x <;> simp [bind, Except.bind]

@[simp] theorem ok_bind (a : α) (f : α → Except ε β) :
    ((Except.ok a : Except ε α) >>= f) = f a := rfl

theorem ite_error_eq_ok_iff {p : Prop} [Decidable p] {e : ε} {x : Except ε α}
    {a : α} : (if p then .error e else x) = .ok a ↔ ¬ p ∧ x = .ok a := by
  by_cases h : p <;> simp [h]

theorem map_eq_ok_iff {x : Except ε α} {f : α → β} {b : β} :
    f <$> x = .ok b ↔ ∃ a, x = .ok a ∧ f a = b := by
  cases x <;> simp [Functor.map, Except.map]

theorem mapError_eq_ok_iff {ε' : Type} {x : Except ε α} {f : ε → ε'} {a : α} :
    x.mapError f = .ok a ↔ x = .ok a := by
  cases x <;> simp [Except.mapError]

theorem mapM_isOk {f : α → Except ε β} {p : α → β → Prop} {l : List α}
    (h : ∀ a ∈ l, ∃ b, f a = .ok b ∧ p a b) :
    ∃ bs, l.mapM f = .ok bs ∧ List.Forall₂ p l bs := by
  induction l with
  | nil => exact ⟨[], rfl, .nil⟩
  | cons a l ih =>
      obtain ⟨b, hb, hp⟩ := h a (by simp)
      obtain ⟨bs, hbs, hall⟩ := ih fun a ha => h a (by simp [ha])
      exact ⟨b :: bs, by rw [List.mapM_cons, hb, hbs]; rfl, .cons hp hall⟩

theorem exists_of_mem_mapM {f : α → Option β} {l : List α}
    {bs : List β} {b : β} (h : l.mapM f = some bs) (hb : b ∈ bs) :
    ∃ a ∈ l, f a = some b := by
  induction l generalizing bs with
  | nil =>
      cases h
      cases hb
  | cons a l ih =>
      rw [List.mapM_cons] at h
      obtain ⟨first, hfirst, h⟩ := Option.bind_eq_some_iff.mp h
      obtain ⟨rest, hrest, h⟩ := Option.bind_eq_some_iff.mp h
      cases h
      rcases List.mem_cons.mp hb with rfl | hb
      · exact ⟨a, by simp, hfirst⟩
      · obtain ⟨a', hmem, ha'⟩ := ih hrest hb
        exact ⟨a', by simp [hmem], ha'⟩

theorem foldlM_eq_of_forall {f : β → α → Except ε β} {l : List α} {b : β}
    (h : ∀ a ∈ l, f b a = .ok b) : l.foldlM f b = .ok b := by
  induction l with
  | nil => rfl
  | cons a l ih =>
      rw [List.foldlM_cons, h a (by simp), ok_bind]
      exact ih fun a ha => h a (by simp [ha])

theorem foldlM_invariant (inv : β → Prop) {f : β → α → Except ε β} {l : List α}
    {b b' : β} (hstep : ∀ b a b', inv b → f b a = .ok b' → inv b')
    (hinit : inv b) (h : l.foldlM f b = .ok b') : inv b' := by
  induction l generalizing b with
  | nil => exact Except.ok.inj h ▸ hinit
  | cons a l ih =>
      rw [List.foldlM_cons, bind_eq_ok_iff] at h
      obtain ⟨mid, hmid, hrest⟩ := h
      exact ih (hstep b a mid hinit hmid) hrest

theorem foldlM_collect {f : List α → α → Except ε (List α)} {p : α → Prop}
    [DecidablePred p] {l : List α}
    (h : ∀ kept, ∀ a ∈ l, f kept a = .ok (if p a then kept ++ [a] else kept))
    (kept : List α) : l.foldlM f kept = .ok (kept ++ l.filter (p ·)) := by
  induction l generalizing kept with
  | nil => simp [pure, Except.pure]
  | cons a l ih =>
      rw [List.foldlM_cons, h kept a (by simp), ok_bind,
        ih fun kept b hb => h kept b (by simp [hb])]
      by_cases ha : p a <;> simp [ha]

end Results

/-! ## Loops that can end early -/

/-- A loop ends early exactly at an element that no state of it gets past. -/
theorem foldlM_eq_none_iff {α β : Type} {f : β → α → Option β}
    (inv : β → Prop) {bad : α → Prop}
    (hinv : ∀ b a b', inv b → f b a = some b' → inv b')
    (hbad : ∀ b a, inv b → (f b a = none ↔ bad a)) {l : List α} {b : β}
    (hb : inv b) : l.foldlM f b = none ↔ ∃ a ∈ l, bad a := by
  induction l generalizing b with
  | nil => simp
  | cons a l ih =>
      have ha := hbad b a hb
      rw [List.foldlM_cons]
      cases h : f b a with
      | none => simpa using Or.inl (ha.mp h)
      | some b' =>
          have hnot : ¬ bad a := by
            rw [← ha, h]
            simp
          have hrest := ih (hinv b a b' hb h)
          simpa [hnot] using hrest

end IreBlockchain.Foundation
