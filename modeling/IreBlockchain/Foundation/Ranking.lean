import Mathlib.Data.List.Perm.Subperm
import Mathlib.Data.List.Induction
import Mathlib.Data.List.Dedup
import Mathlib.Data.List.Nodup
import Mathlib.Algebra.BigOperators.Group.List.Basic
import Mathlib.Algebra.GroupWithZero.Nat
import Mathlib.Logic.Function.Basic

/-!
# Tallies and rankings

A tally adds up credits and keeps its keys in the order in which they came.
Ranked by their counts, keys with the same count stay in that order.
-/

namespace IreBlockchain.Foundation

variable {κ : Type}

structure Tally (κ : Type) where
  keys : List κ
  count : κ → Nat

namespace Tally

def empty : Tally κ := ⟨[], fun _ => 0⟩

variable [DecidableEq κ]

def add (tally : Tally κ) (credit : κ × Nat) : Tally κ where
  keys :=
    if credit.1 ∈ tally.keys then tally.keys else tally.keys ++ [credit.1]
  count := Function.update tally.count credit.1
    (tally.count credit.1 + credit.2)

def of (credits : List (κ × Nat)) : Tally κ := credits.foldl add empty

def rows (tally : Tally κ) : List (κ × Nat) :=
  tally.keys.map fun a => (a, tally.count a)

theorem of_concat (credits : List (κ × Nat)) (credit : κ × Nat) :
    of (credits ++ [credit]) = (of credits).add credit := by
  simp [of]

def total (credits : List (κ × Nat)) (a : κ) : Nat :=
  (credits.map fun c => if c.1 = a then c.2 else 0).sum

theorem count_of (credits : List (κ × Nat)) (a : κ) :
    (of credits).count a = total credits a := by
  induction credits using List.reverseRecOn with
  | nil => rfl
  | append_singleton credits credit ih =>
      rw [of_concat, total, List.map_append, List.sum_append, ← total, ← ih]
      by_cases h : credit.1 = a
      · subst h
        simp [add]
      · simp [add, h, Function.update_of_ne (Ne.symm h)]

theorem count_perm {credits credits' : List (κ × Nat)}
    (h : credits.Perm credits') (a : κ) :
    (of credits).count a = (of credits').count a := by
  rw [count_of, count_of]
  exact (h.map _).sum_eq

theorem mem_keys_of {credits : List (κ × Nat)} {a : κ} :
    a ∈ (of credits).keys ↔ a ∈ credits.map Prod.fst := by
  induction credits using List.reverseRecOn with
  | nil => rfl
  | append_singleton credits credit ih =>
      rw [of_concat, List.map_append, List.mem_append, ← ih]
      simp only [add]
      split
      next hmem =>
        simp only [List.map_cons, List.map_nil, List.mem_singleton,
          iff_self_or]
        rintro rfl
        exact hmem
      next => simp

theorem nodup_keys_of (credits : List (κ × Nat)) : (of credits).keys.Nodup := by
  induction credits using List.reverseRecOn with
  | nil => exact List.nodup_nil
  | append_singleton credits credit ih =>
      rw [of_concat]
      simp only [add]
      split
      · exact ih
      next hnot => exact List.nodup_append.mpr ⟨ih, List.nodup_singleton _,
          fun a ha b hb hab => hnot (List.mem_singleton.mp hb ▸ hab ▸ ha)⟩

theorem find?_keys_of (credits : List (κ × Nat)) (q : κ → Bool) :
    (of credits).keys.find? q = (credits.map Prod.fst).find? q := by
  induction credits using List.reverseRecOn with
  | nil => rfl
  | append_singleton credits credit ih =>
      rw [of_concat, List.map_append, List.find?_append, ← ih]
      simp only [add]
      split
      next hmem =>
        cases hfind : (of credits).keys.find? q with
        | some a => rfl
        | none =>
            have hnot := List.find?_eq_none.mp hfind _ hmem
            simp [hnot]
      next => rw [List.find?_append]; rfl

end Tally

/-! ## Two elements of a list -/

section Pairs

variable {α : Type} {l l' : List α} {a b : α}

theorem pair_sublist_cons_iff {c : α} :
    [a, b].Sublist (c :: l) ↔ [a, b].Sublist l ∨ c = a ∧ b ∈ l := by
  rw [List.sublist_cons_iff]
  simp [eq_comm]

theorem pair_sublist_or (hne : a ≠ b) (ha : a ∈ l) (hb : b ∈ l) :
    [a, b].Sublist l ∨ [b, a].Sublist l := by
  induction l with
  | nil => cases ha
  | cons c l ih =>
      rw [pair_sublist_cons_iff, pair_sublist_cons_iff]
      rcases List.mem_cons.mp ha with hac | ha
      · have hb : b ∈ l := (List.mem_cons.mp hb).resolve_left
          fun hbc => hne (hac.trans hbc.symm)
        exact .inl (.inr ⟨hac.symm, hb⟩)
      · rcases List.mem_cons.mp hb with hbc | hb
        · exact .inr (.inr ⟨hbc.symm, ha⟩)
        · exact (ih ha hb).imp .inl .inl

theorem not_pair_sublist_swap (hnodup : l.Nodup) (h : [a, b].Sublist l) :
    ¬[b, a].Sublist l := by
  induction l with
  | nil => simp at h
  | cons c l ih =>
      obtain ⟨hc, hnodup⟩ := List.nodup_cons.mp hnodup
      rw [pair_sublist_cons_iff] at h ⊢
      rintro (h' | ⟨rfl, ha⟩)
      · rcases h with h | ⟨rfl, hb⟩
        · exact ih hnodup h h'
        · exact hc (h'.subset (by simp))
      · rcases h with h | ⟨rfl, hb⟩
        · exact hc (h.subset (by simp))
        · exact hc hb

theorem pair_sublist_iff_find? [DecidableEq α] (hnodup : l.Nodup)
    (hne : a ≠ b) (hb : b ∈ l) :
    [a, b].Sublist l ↔ l.find? (fun c => c = a || c = b) = some a := by
  induction l with
  | nil => cases hb
  | cons c l ih =>
      obtain ⟨hc, hnodup⟩ := List.nodup_cons.mp hnodup
      rw [pair_sublist_cons_iff]
      by_cases hca : c = a
      · have hbl : b ∈ l :=
          (List.mem_cons.mp hb).resolve_left fun hbc => hne (hca ▸ hbc.symm)
        simp [hca, hbl]
      · by_cases hcb : c = b
        · have hnot : ¬[a, b].Sublist l := fun h =>
            hc (hcb ▸ h.subset (by simp))
          simp [hcb, hne.symm, hnot]
        · have hbl : b ∈ l :=
            (List.mem_cons.mp hb).resolve_left fun hbc => hcb hbc.symm
          simp [hca, hcb, ih hnodup hbl]

/--
Two orders of the same elements begin with the same `k` elements exactly if
those of the first order keep what comes after them behind them.
-/
theorem take_eq_take_iff {k : Nat} (hnodup : l.Nodup) (hperm : l'.Perm l) :
    l'.take k = l.take k ↔
      ∀ a b, a ∈ l.take k → [a, b].Sublist l → [a, b].Sublist l' := by
  constructor
  · intro htake a b ha hab
    by_cases hb : b ∈ l.take k
    · have hne : a ≠ b := by
        rintro rfl
        exact not_pair_sublist_swap hnodup hab hab
      have hfront : [a, b].Sublist (l.take k) :=
        (pair_sublist_or hne ha hb).resolve_right fun hba =>
          not_pair_sublist_swap hnodup hab (hba.trans (List.take_sublist k l))
      rw [← htake] at hfront
      exact hfront.trans (List.take_sublist k l')
    · have hb' : b ∈ l'.take k ++ l'.drop k := by
        rw [List.take_append_drop]
        exact hperm.mem_iff.mpr (hab.subset (by simp))
      rw [htake] at hb'
      have hdrop := (List.mem_append.mp hb').resolve_left hb
      rw [← htake] at ha
      rw [← List.take_append_drop k l']
      exact (List.singleton_sublist.mpr ha).append
        (List.singleton_sublist.mpr hdrop)
  · intro h
    induction k generalizing l l' with
    | zero => rfl
    | succ k ih =>
        cases l with
        | nil => rw [hperm.eq_nil]
        | cons a l =>
            cases l' with
            | nil => cases hperm.symm.eq_nil
            | cons c l' =>
                have hnodup' := hperm.nodup_iff.mpr hnodup
                obtain ⟨ha, hl⟩ := List.nodup_cons.mp hnodup
                obtain ⟨hc, -⟩ := List.nodup_cons.mp hnodup'
                have hca : c = a := by
                  by_contra hne
                  have hmem : c ∈ l := (List.mem_cons.mp
                    (hperm.mem_iff.mp List.mem_cons_self)).resolve_left hne
                  have hpair := h a c (by simp)
                    (pair_sublist_cons_iff.mpr (.inr ⟨rfl, hmem⟩))
                  rcases pair_sublist_cons_iff.mp hpair with hsub | ⟨heq, -⟩
                  · exact hc (hsub.subset (by simp))
                  · exact hne heq
                subst hca
                rw [List.take_succ_cons, List.take_succ_cons,
                  ih hl hperm.cons_inv]
                intro x y hx hxy
                have hpair := h x y (List.mem_cons_of_mem _ hx)
                  (hxy.trans (List.sublist_cons_self _ _))
                refine (pair_sublist_cons_iff.mp hpair).resolve_right ?_
                rintro ⟨rfl, -⟩
                exact ha (List.mem_of_mem_take hx)

theorem mem_take_iff_countP [DecidableEq α] {k : Nat} (hnodup : l.Nodup)
    (ha : a ∈ l) :
    a ∈ l.take k ↔ (l.countP fun c => [c, a].Sublist l) < k := by
  induction l generalizing k with
  | nil => cases ha
  | cons c l ih =>
      obtain ⟨hc, hnodup⟩ := List.nodup_cons.mp hnodup
      by_cases hca : c = a
      · subst hca
        have hnone : ((c :: l).countP fun d => [d, c].Sublist (c :: l)) = 0 := by
          rw [List.countP_eq_zero]
          intro d _
          simp only [decide_eq_true_eq, pair_sublist_cons_iff, not_or, not_and]
          exact ⟨fun h => hc (h.subset (by simp)), fun _ => hc⟩
        rw [hnone]
        cases k <;> simp
      · have hal : a ∈ l := (List.mem_cons.mp ha).resolve_left (Ne.symm hca)
        have hrest : (l.countP fun d => [d, a].Sublist (c :: l)) =
            l.countP fun d => [d, a].Sublist l := by
          apply List.countP_congr
          intro d hd
          have hcd : c ≠ d := fun h => hc (h ▸ hd)
          simp [pair_sublist_cons_iff, hcd]
        have hfirst : [c, a].Sublist (c :: l) :=
          pair_sublist_cons_iff.mpr (.inr ⟨rfl, hal⟩)
        rw [List.countP_cons_of_pos (by simpa using hfirst), hrest]
        cases k with
        | zero => simp
        | succ k =>
            rw [List.take_succ_cons, List.mem_cons, ih hnodup hal]
            constructor
            · rintro (h | h)
              · exact absurd h.symm hca
              · omega
            · exact fun h => .inr (by omega)

end Pairs

/-! ## Rankings -/

/-- The highest counts first, as a stable sort leaves them. -/
def ranked (rows : List (κ × Nat)) : List (κ × Nat) :=
  rows.mergeSort fun x y => y.2 ≤ x.2

theorem ranked_perm (rows : List (κ × Nat)) : (ranked rows).Perm rows :=
  List.mergeSort_perm _ _

theorem le_of_ranked {rows : List (κ × Nat)} {x y : κ × Nat}
    (h : [x, y].Sublist (ranked rows)) : y.2 ≤ x.2 := by
  have hsorted : (ranked rows).Pairwise fun x y =>
      decide (y.2 ≤ x.2) = true :=
    List.pairwise_mergeSort (fun a b c hab hbc => by
      simp only [decide_eq_true_eq] at hab hbc ⊢
      omega) (fun a b => by
      simp only [Bool.or_eq_true, decide_eq_true_eq]
      omega) rows
  have hpair := hsorted.sublist h
  simpa using hpair

theorem ranked_stable {rows : List (κ × Nat)} {x y : κ × Nat}
    (hrows : [x, y].Sublist rows) (hle : y.2 ≤ x.2) :
    [x, y].Sublist (ranked rows) :=
  List.pair_sublist_mergeSort (fun a b c hab hbc => by
      simp only [decide_eq_true_eq] at hab hbc ⊢
      omega) (fun a b => by
      simp only [Bool.or_eq_true, decide_eq_true_eq]
      omega) (by simpa using hle) hrows

theorem pair_sublist_ranked_iff {rows : List (κ × Nat)} {x y : κ × Nat}
    (hnodup : rows.Nodup) (hx : x ∈ rows) (hy : y ∈ rows) :
    [x, y].Sublist (ranked rows) ↔
      y.2 < x.2 ∨ x.2 = y.2 ∧ [x, y].Sublist rows := by
  have hperm := ranked_perm rows
  have hranked : (ranked rows).Nodup := hperm.nodup_iff.mpr hnodup
  constructor
  · intro h
    have hne : x ≠ y := by
      rintro rfl
      exact not_pair_sublist_swap hranked h h
    rcases Nat.lt_or_eq_of_le (le_of_ranked h) with hlt | htie
    · exact .inl hlt
    · refine .inr ⟨htie.symm, (pair_sublist_or hne hx hy).resolve_right ?_⟩
      intro hyx
      exact not_pair_sublist_swap hranked h
        (ranked_stable hyx (Nat.le_of_eq htie.symm))
  · rintro (hlt | ⟨htie, h⟩)
    · have hne : x ≠ y := by
        rintro rfl
        exact Nat.lt_irrefl _ hlt
      refine (pair_sublist_or hne (hperm.mem_iff.mpr hx)
        (hperm.mem_iff.mpr hy)).resolve_right fun hyx => ?_
      exact absurd (le_of_ranked hyx) (Nat.not_le.mpr hlt)
    · exact ranked_stable h (Nat.le_of_eq htie.symm)

/--
Two lists of the same rows show the same `k` ranks exactly if the second list
has each of them before the rows that share its count and rank behind it.
-/
theorem take_ranked_eq_iff {rows rows' : List (κ × Nat)} {k : Nat}
    (hnodup : rows.Nodup) (hperm : rows'.Perm rows) :
    (ranked rows').take k = (ranked rows).take k ↔
      ∀ x y, x ∈ (ranked rows).take k → x.2 = y.2 → [x, y].Sublist rows →
        [x, y].Sublist rows' := by
  have hnodup' : rows'.Nodup := hperm.nodup_iff.mpr hnodup
  have hranked : (ranked rows).Nodup := (ranked_perm rows).nodup_iff.mpr hnodup
  have hsame : (ranked rows').Perm (ranked rows) :=
    (ranked_perm rows').trans (hperm.trans (ranked_perm rows).symm)
  have hmem : ∀ {x y}, [x, y].Sublist (ranked rows) → x ∈ rows ∧ y ∈ rows :=
    fun h => ⟨(ranked_perm rows).mem_iff.mp (h.subset (by simp)),
      (ranked_perm rows).mem_iff.mp (h.subset (by simp))⟩
  rw [take_eq_take_iff hranked hsame]
  constructor
  · intro h x y hx htie hxy
    have hrows : x ∈ rows ∧ y ∈ rows :=
      ⟨hxy.subset (by simp), hxy.subset (by simp)⟩
    have hbefore := h x y hx (ranked_stable hxy (Nat.le_of_eq htie.symm))
    rcases (pair_sublist_ranked_iff hnodup' (hperm.mem_iff.mpr hrows.1)
      (hperm.mem_iff.mpr hrows.2)).mp hbefore with hlt | ⟨-, hxy'⟩
    · omega
    · exact hxy'
  · intro h x y hx hxy
    obtain ⟨hxrows, hyrows⟩ := hmem hxy
    apply (pair_sublist_ranked_iff hnodup' (hperm.mem_iff.mpr hxrows)
      (hperm.mem_iff.mpr hyrows)).mpr
    rcases (pair_sublist_ranked_iff hnodup hxrows hyrows).mp hxy with
      hlt | ⟨htie, hrows⟩
    · exact .inl hlt
    · exact .inr ⟨htie, h x y hx htie hrows⟩

namespace Tally

variable [DecidableEq κ] {credits credits' : List (κ × Nat)} {a b : κ}

def Leads (credits : List (κ × Nat)) (a b : κ) : Prop :=
  (credits.map Prod.fst).find? (fun c => c = a || c = b) = some a

instance : Decidable (Leads credits a b) :=
  inferInstanceAs (Decidable (_ = _))

/-- A key with a higher count, or with the same count and credited first. -/
def Above (credits : List (κ × Nat)) (c a : κ) : Prop :=
  total credits a < total credits c ∨
    total credits c = total credits a ∧ c ≠ a ∧ Leads credits c a

instance : Decidable (Above credits a b) :=
  inferInstanceAs (Decidable (_ ∨ _))

def Shown (credits : List (κ × Nat)) (k : Nat) (a : κ) : Prop :=
  ((credits.map Prod.fst).dedup.countP fun c => Above credits c a) < k

instance {k : Nat} : Decidable (Shown credits k a) :=
  inferInstanceAs (Decidable (_ < _))

theorem keys_pair_iff (hb : b ∈ credits.map Prod.fst) :
    [a, b].Sublist (of credits).keys ↔ a ≠ b ∧ Leads credits a b := by
  have hkeys := nodup_keys_of credits
  have hiff := fun hne : a ≠ b =>
    pair_sublist_iff_find? hkeys hne (mem_keys_of.mpr hb)
  rw [Leads, ← find?_keys_of]
  constructor
  · intro h
    have hne : a ≠ b := by
      rintro rfl
      exact not_pair_sublist_swap hkeys h h
    exact ⟨hne, (hiff hne).mp h⟩
  · rintro ⟨hne, h⟩
    exact (hiff hne).mpr h

def row (credits : List (κ × Nat)) (a : κ) : κ × Nat := (a, total credits a)

theorem rows_of (credits : List (κ × Nat)) :
    (of credits).rows = (of credits).keys.map (row credits) := by
  simp only [rows, count_of]
  rfl

theorem nodup_rows_of (credits : List (κ × Nat)) : (of credits).rows.Nodup := by
  rw [rows_of]
  exact (nodup_keys_of credits).map fun a b h => congrArg Prod.fst h

theorem row_mem_rows_of (ha : a ∈ credits.map Prod.fst) :
    row credits a ∈ (of credits).rows := by
  rw [rows_of]
  exact List.mem_map_of_mem (mem_keys_of.mpr ha)

theorem rows_pair_iff (hb : b ∈ credits.map Prod.fst) :
    [row credits a, row credits b].Sublist (of credits).rows ↔
      a ≠ b ∧ Leads credits a b := by
  rw [← keys_pair_iff hb, rows_of]
  constructor
  · intro h
    obtain ⟨pair, hpair, heq⟩ := List.sublist_map_iff.mp h
    have hkeys := congrArg (List.map Prod.fst) heq
    have hsame : [a, b] = pair := by simpa [row, Function.comp_def] using hkeys
    rwa [hsame]
  · exact fun h => h.map (row credits)

theorem row_mem_take_iff {k : Nat} (ha : a ∈ credits.map Prod.fst) :
    row credits a ∈ (ranked (of credits).rows).take k ↔ Shown credits k a := by
  have hnodup := nodup_rows_of credits
  have hperm := ranked_perm (of credits).rows
  have hkeys : (of credits).keys.Perm (credits.map Prod.fst).dedup :=
    (List.perm_ext_iff_of_nodup (nodup_keys_of credits)
      (List.nodup_dedup _)).mpr fun c => by rw [mem_keys_of, List.mem_dedup]
  have habove : ∀ c ∈ (credits.map Prod.fst).dedup,
      [row credits c, row credits a].Sublist (ranked (of credits).rows) ↔
        Above credits c a := by
    intro c hc
    rw [pair_sublist_ranked_iff hnodup
      (row_mem_rows_of (List.mem_dedup.mp hc)) (row_mem_rows_of ha),
      rows_pair_iff ha]
    rfl
  let before (x : κ × Nat) : Bool :=
    [x, row credits a].Sublist (ranked (of credits).rows)
  have hcount : (ranked (of credits).rows).countP before =
      (credits.map Prod.fst).dedup.countP fun c => Above credits c a := by
    calc
      (ranked (of credits).rows).countP before =
          (of credits).rows.countP before := hperm.countP_eq _
      _ = (of credits).keys.countP (before ∘ row credits) :=
          (congrArg _ (rows_of credits)).trans List.countP_map
      _ = (credits.map Prod.fst).dedup.countP (before ∘ row credits) :=
          hkeys.countP_eq _
      _ = (credits.map Prod.fst).dedup.countP fun c => Above credits c a :=
          List.countP_congr fun c hc => by simpa [before] using habove c hc
  rw [mem_take_iff_countP (hperm.nodup_iff.mpr hnodup)
    (hperm.mem_iff.mpr (row_mem_rows_of ha)), Shown, ← hcount]

theorem rows_of_perm (hperm : credits'.Perm credits) :
    (of credits').rows.Perm (of credits).rows := by
  have htotal : row credits' = row credits := by
    funext a
    rw [row, row, ← count_of, ← count_of, count_perm hperm]
  rw [rows_of, rows_of, htotal]
  refine List.Perm.map _ ((List.perm_ext_iff_of_nodup (nodup_keys_of _)
    (nodup_keys_of _)).mpr fun c => ?_)
  rw [mem_keys_of, mem_keys_of]
  exact (hperm.map _).mem_iff

/--
The first `k` ranks are the same for credits in another order exactly if each
key there still leads the keys with its count that it led.
-/
theorem take_ranked_rows_iff {k : Nat} (hperm : credits'.Perm credits) :
    (ranked (of credits').rows).take k = (ranked (of credits).rows).take k ↔
      ∀ a ∈ credits.map Prod.fst, ∀ b ∈ credits.map Prod.fst, a ≠ b →
        total credits a = total credits b → Leads credits a b →
          Shown credits k a → Leads credits' a b := by
  have htotal : row credits' = row credits := by
    funext a
    rw [row, row, ← count_of, ← count_of, count_perm hperm]
  have hkeys : ∀ {a}, a ∈ credits.map Prod.fst ↔ a ∈ credits'.map Prod.fst :=
    (hperm.map _).mem_iff.symm
  rw [take_ranked_eq_iff (nodup_rows_of credits) (rows_of_perm hperm)]
  constructor
  · intro h a ha b hb hne htie hleads hshown
    have hrows := h (row credits a) (row credits b)
      ((row_mem_take_iff ha).mpr hshown) htie
      ((rows_pair_iff hb).mpr ⟨hne, hleads⟩)
    rw [← htotal] at hrows
    exact ((rows_pair_iff (hkeys.mp hb)).mp hrows).2
  · intro h x y hx htie hxy
    have hrow : ∀ z ∈ (of credits).rows,
        ∃ c ∈ credits.map Prod.fst, row credits c = z := by
      intro z hz
      rw [rows_of] at hz
      obtain ⟨c, hc, rfl⟩ := List.mem_map.mp hz
      exact ⟨c, mem_keys_of.mp hc, rfl⟩
    obtain ⟨a, ha, rfl⟩ := hrow x (hxy.subset (by simp))
    obtain ⟨b, hb, rfl⟩ := hrow y (hxy.subset (by simp))
    obtain ⟨hne, hleads⟩ := (rows_pair_iff hb).mp hxy
    rw [← htotal]
    exact (rows_pair_iff (hkeys.mp hb)).mpr ⟨hne,
      h a ha b hb hne htie hleads ((row_mem_take_iff ha).mp hx)⟩

end Tally

end IreBlockchain.Foundation
