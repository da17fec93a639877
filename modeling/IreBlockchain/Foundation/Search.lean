import Mathlib.Data.List.Basic
import Mathlib.Data.List.DropRight
import Mathlib.Data.List.Infix
import Mathlib.Data.List.TakeWhile

/-!
# Searching a list for a pattern

The first place of a fixed pattern, and the successive matches of a pattern
that is given by how much it takes from the front.
-/

namespace IreBlockchain.Foundation

variable {α : Type}

/-! ## Runs of elements with a property -/

section Span

variable {α : Type} {p : α → Bool} {l m : List α} {a : α}

theorem takeWhile_append_cons (hl : ∀ b ∈ l, p b = true) (ha : p a = false) :
    (l ++ a :: m).takeWhile p = l := by
  rw [List.takeWhile_append_of_pos hl,
    List.takeWhile_cons_of_neg (by simp [ha]), List.append_nil]

theorem dropWhile_append_cons (hl : ∀ b ∈ l, p b = true) (ha : p a = false) :
    (l ++ a :: m).dropWhile p = a :: m := by
  rw [List.dropWhile_append_of_pos hl, List.dropWhile_cons_of_neg (by simp [ha])]

theorem takeWhile_append_of_neg (ha : p a = false) (l m : List α) :
    (l ++ a :: m).takeWhile p = l.takeWhile p := by
  induction l with
  | nil => simp [ha]
  | cons b l ih =>
      rw [List.cons_append, List.takeWhile_cons, List.takeWhile_cons, ih]

theorem dropWhile_eq_nil_or_cons (p : α → Bool) (l : List α) :
    l.dropWhile p = [] ∨ ∃ a m, l.dropWhile p = a :: m ∧ p a = false := by
  cases h : l.dropWhile p with
  | nil => exact Or.inl rfl
  | cons a m =>
      right
      refine ⟨a, m, rfl, ?_⟩
      have hhead := List.head_dropWhile_not (l := l) (p := p) (by simp [h])
      simpa [h] using hhead

theorem rdropWhile_append_cons (ha : p a = false) :
    (l ++ a :: m).rdropWhile p = l ++ a :: m.rdropWhile p := by
  induction m using List.reverseRecOn with
  | nil => exact List.rdropWhile_concat_neg p l a (by simp [ha])
  | append_singleton m b ih =>
      rw [← List.cons_append, ← List.append_assoc, List.rdropWhile_concat,
        List.rdropWhile_concat]
      split
      next => exact ih
      next => simp

theorem append_cons_inj_of_not_mem {a : α} {l l' m m' : List α}
    (hm : a ∉ m) (hm' : a ∉ m') (h : l ++ a :: m = l' ++ a :: m') :
    l = l' ∧ m = m' := by
  have hfront : l = l' := by
    rcases List.append_eq_append_iff.mp h with ⟨d, hl, hd⟩ | ⟨d, hl, hd⟩
    · cases d with
      | nil => simpa using hl.symm
      | cons b d =>
          rw [List.cons_append, List.cons.injEq] at hd
          exact absurd (hd.2 ▸ List.mem_append_right _ List.mem_cons_self) hm
    · cases d with
      | nil => simpa using hl
      | cons b d =>
          rw [List.cons_append, List.cons.injEq] at hd
          exact absurd (hd.2 ▸ List.mem_append_right _ List.mem_cons_self) hm'
  rw [hfront] at h
  exact ⟨hfront, (List.cons.inj (List.append_cancel_left h)).2⟩

end Span

/-! ## Cutting at a separator -/

def cutAt [DecidableEq α] (separator : α) (l : List α) : List α :=
  l.takeWhile (· ≠ separator)

section Cut

variable [DecidableEq α] {separator : α}

theorem not_mem_cutAt (l : List α) : separator ∉ cutAt separator l := by
  intro hmem
  have hne := List.mem_takeWhile_imp hmem
  simp at hne

theorem cutAt_append_cons {l : List α} (h : separator ∉ l) (m : List α) :
    cutAt separator (l ++ separator :: m) = l := by
  have hall : ∀ a ∈ l, decide (a ≠ separator) = true := by
    intro a ha
    simp only [ne_eq, decide_not, Bool.not_eq_eq_eq_not, Bool.not_true,
      decide_eq_false_iff_not]
    intro heq
    exact h (heq ▸ ha)
  rw [cutAt, List.takeWhile_append_of_pos hall, List.takeWhile_cons]
  simp

theorem cutAt_append {l : List α} (h : separator ∉ l) (m : List α) :
    cutAt separator (l ++ m) = l ++ cutAt separator m := by
  apply List.takeWhile_append_of_pos
  intro a ha
  simp only [ne_eq, decide_not, Bool.not_eq_eq_eq_not, Bool.not_true,
    decide_eq_false_iff_not]
  intro heq
  exact h (heq ▸ ha)

theorem cutAt_append_separator (l m : List α) :
    cutAt separator (l ++ separator :: m) = cutAt separator l :=
  takeWhile_append_of_neg (by simp) l m

theorem exists_eq_cutAt_append (separator : α) (l : List α) :
    ∃ rest, l = cutAt separator l ++ rest ∧
      (rest = [] ∨ ∃ m, rest = separator :: m) := by
  refine ⟨l.dropWhile (· ≠ separator),
    (List.takeWhile_append_dropWhile).symm, ?_⟩
  induction l with
  | nil => exact Or.inl rfl
  | cons a l ih =>
      by_cases h : a = separator
      · exact Or.inr ⟨l, by simp [h]⟩
      · simpa [List.dropWhile_cons, h] using ih

end Cut

/-! ## The first place of a pattern -/

section Pattern

variable [DecidableEq α]

def dropUntil (pattern : List α) : List α → Option (List α)
  | [] => if pattern = [] then some [] else none
  | a :: rest =>
      if pattern <+: a :: rest then some (a :: rest)
      else dropUntil pattern rest

def occurs (pattern text : List α) : Bool :=
  (dropUntil pattern text).isSome

variable {pattern : List α}

theorem dropUntil_of_prefix {text : List α} (h : pattern <+: text) :
    dropUntil pattern text = some text := by
  cases text with
  | nil => simp [dropUntil, List.prefix_nil.mp h]
  | cons a rest => simp [dropUntil, h]

theorem dropUntil_eq_none_iff {text : List α} :
    dropUntil pattern text = none ↔ ¬ pattern <:+: text := by
  induction text with
  | nil => simp [dropUntil]
  | cons a rest ih =>
      rw [dropUntil, List.infix_cons_iff]
      split
      next h => simp [h]
      next h => simp [h, ih]

theorem occurs_iff {text : List α} :
    occurs pattern text = true ↔ pattern <:+: text := by
  rw [occurs, Option.isSome_iff_ne_none, ne_eq, dropUntil_eq_none_iff, not_not]

theorem dropUntil_eq_some_iff (hne : pattern ≠ []) {text found : List α} :
    dropUntil pattern text = some found ↔
      ∃ skipped, text = skipped ++ found ∧ pattern <+: found ∧
        ¬ pattern <:+: skipped ++ pattern.dropLast := by
  have hshort : ¬ pattern <:+: pattern.dropLast := by
    intro h
    have hlength := h.length_le
    have hpos := List.length_pos_iff.mpr hne
    rw [List.length_dropLast] at hlength
    omega
  have hlast {text : List α} (h : pattern <+: text) :
      pattern.dropLast <+: text := (List.dropLast_prefix pattern).trans h
  induction text with
  | nil =>
      simp only [dropUntil, hne, if_false, reduceCtorEq, false_iff, not_exists]
      rintro skipped ⟨htext, hfound, _⟩
      rw [(List.append_eq_nil_iff.mp htext.symm).2] at hfound
      exact hne (List.prefix_nil.mp hfound)
  | cons a rest ih =>
      rw [dropUntil]
      split
      next hfront =>
        constructor
        · intro h
          cases h
          exact ⟨[], rfl, hfront, hshort⟩
        · rintro ⟨skipped, htext, hfound, hearlier⟩
          cases skipped with
          | nil => rw [htext, List.nil_append]
          | cons b skipped =>
              exfalso
              apply hearlier
              apply List.IsPrefix.isInfix
              have hle : pattern.length ≤
                  ((b :: skipped) ++ pattern.dropLast).length := by
                simp only [List.length_append, List.length_cons,
                  List.length_dropLast]
                omega
              apply List.prefix_of_prefix_length_le hfront _ hle
              rw [htext]
              exact (List.prefix_append_right_inj _).mpr (hlast hfound)
      next hfront =>
        apply Iff.trans ih
        constructor
        · rintro ⟨skipped, rfl, hfound, hearlier⟩
          refine ⟨a :: skipped, rfl, hfound, ?_⟩
          rw [List.cons_append, List.infix_cons_iff, not_or]
          refine ⟨?_, hearlier⟩
          intro h
          apply hfront
          rw [← List.cons_append] at h ⊢
          exact h.trans
            ((List.prefix_append_right_inj _).mpr (hlast hfound))
        · rintro ⟨skipped, htext, hfound, hearlier⟩
          cases skipped with
          | nil => exact absurd (htext ▸ hfound) hfront
          | cons b skipped =>
              cases htext
              refine ⟨skipped, rfl, hfound, ?_⟩
              intro h
              exact hearlier (List.infix_cons_iff.mpr (Or.inr h))

theorem dropUntil_singleton_eq_some_iff {a : α} {text found : List α} :
    dropUntil [a] text = some found ↔
      ∃ skipped rest, text = skipped ++ a :: rest ∧ found = a :: rest ∧
        a ∉ skipped := by
  rw [dropUntil_eq_some_iff (List.cons_ne_nil a [])]
  constructor
  · rintro ⟨skipped, rfl, ⟨rest, rfl⟩, hskipped⟩
    refine ⟨skipped, rest, rfl, rfl, ?_⟩
    simpa [List.singleton_infix_iff] using hskipped
  · rintro ⟨skipped, rest, rfl, rfl, hskipped⟩
    refine ⟨skipped, rfl, ⟨rest, rfl⟩, ?_⟩
    simpa [List.singleton_infix_iff] using hskipped

omit [DecidableEq α] in
theorem prefix_append_separator_iff {separator : α}
    (hpattern : separator ∉ pattern) {l m : List α} :
    pattern <+: l ++ separator :: m ↔ pattern <+: l := by
  induction pattern generalizing l with
  | nil => simp
  | cons b pattern ih =>
      rw [List.mem_cons, not_or] at hpattern
      cases l with
      | nil => simp [Ne.symm hpattern.1]
      | cons a l =>
          rw [List.cons_append, List.cons_prefix_cons, List.cons_prefix_cons,
            ih hpattern.2]

/-- No proper beginning of the pattern is an end of it. -/
def Borderless (pattern : List α) : Prop :=
  ∀ k < pattern.length, 0 < k → pattern.drop k ≠ pattern.take (pattern.length - k)

instance (pattern : List α) : Decidable (Borderless pattern) :=
  inferInstanceAs (Decidable (∀ k < pattern.length, 0 < k → _))

omit [DecidableEq α] in
theorem infix_append_separator_iff {separator : α} (hne : pattern ≠ [])
    (hpattern : separator ∉ pattern) {l m : List α} :
    pattern <:+: l ++ separator :: m ↔ pattern <:+: l ∨ pattern <:+: m := by
  have hhead {p : List α} (hp : p ≠ []) (hfront : p <+: separator :: m) :
      separator ∈ p := by
    cases p with
    | nil => exact absurd rfl hp
    | cons a p =>
        rw [List.cons_prefix_cons] at hfront
        rw [hfront.1]
        exact List.mem_cons_self
  constructor
  · intro h
    rcases List.infix_append_iff_ne_nil.mp h with
      h | h | ⟨start, rest, _, hrest, heq, _, hfront⟩
    · exact Or.inl h
    · cases List.infix_cons_iff.mp h with
      | inl hfront => exact absurd (hhead hne hfront) hpattern
      | inr hinfix => exact Or.inr hinfix
    · apply absurd _ hpattern
      rw [heq]
      exact List.mem_append_right _ (hhead hrest hfront)
  · intro h
    cases h with
    | inl h => exact List.infix_append_iff.mpr (Or.inl h)
    | inr h => exact List.infix_append_iff.mpr (Or.inr (Or.inl
        (List.infix_cons_iff.mpr (Or.inr h))))

/-- A pattern with no border is first found where it is first put. -/
theorem dropUntil_append_of_borderless (hne : pattern ≠ [])
    (hborder : Borderless pattern) {before : List α}
    (hbefore : ¬ pattern <:+: before) {found : List α}
    (hfound : pattern <+: found) :
    dropUntil pattern (before ++ found) = some found := by
  apply (dropUntil_eq_some_iff hne).mpr
  refine ⟨before, rfl, hfound, ?_⟩
  intro hinfix
  rcases List.infix_append_iff_ne_nil.mp hinfix with
    h | h | ⟨start, rest, hstart, hrest, heq, _, hfront⟩
  · exact hbefore h
  · have hlength := h.length_le
    have hpos := List.length_pos_iff.mpr hne
    rw [List.length_dropLast] at hlength
    omega
  · have hborder' := hborder start.length
      (by
        have hpos := List.length_pos_iff.mpr hrest
        rw [heq, List.length_append]
        omega)
      (List.length_pos_iff.mpr hstart)
    apply hborder'
    have hdrop : pattern.drop start.length = rest := by simp [heq]
    have hlength : pattern.length - start.length = rest.length := by
      simp [heq]
    rw [hdrop, hlength]
    exact List.prefix_iff_eq_take.mp
      (hfront.trans (List.dropLast_prefix pattern))

theorem dropUntil_append (hne : pattern ≠ []) {text found : List α}
    (h : dropUntil pattern text = some found) (rest : List α) :
    dropUntil pattern (text ++ rest) = some (found ++ rest) := by
  obtain ⟨skipped, htext, hfound, hearlier⟩ :=
    (dropUntil_eq_some_iff hne).mp h
  apply (dropUntil_eq_some_iff hne).mpr
  refine ⟨skipped, ?_, hfound.trans (List.prefix_append _ _), hearlier⟩
  rw [htext, List.append_assoc]

end Pattern

/-! ## The first suffix that a pattern reads -/

section FirstRead

variable {β : Type} {f : List α → Option β} {l m : List α}

theorem findSome?_tails_cons (a : α) (l : List α) :
    (a :: l).tails.findSome? f = (f (a :: l)).or (l.tails.findSome? f) := by
  rw [List.tails_cons, List.findSome?_cons]
  cases f (a :: l) <;> rfl

theorem findSome?_tails_eq_none_iff : l.tails.findSome? f = none ↔
    ∀ suffix, suffix <:+ l → f suffix = none := by
  simp only [List.findSome?_eq_none_iff, List.mem_tails]

theorem findSome?_tails_eq_some_iff {b : β} :
    l.tails.findSome? f = some b ↔ ∃ before text, l = before ++ text ∧
      f text = some b ∧
      ∀ more ≠ [], more <:+ before → f (more ++ text) = none := by
  induction l with
  | nil =>
      constructor
      · intro h
        have hread : f [] = some b := by simpa using h
        refine ⟨[], [], rfl, hread, fun more hne hmore => ?_⟩
        exact absurd (List.suffix_nil.mp hmore) hne
      · rintro ⟨before, text, heq, hread, -⟩
        obtain ⟨rfl, rfl⟩ := List.append_eq_nil_iff.mp heq.symm
        simpa using hread
  | cons a l ih =>
      rw [findSome?_tails_cons, Option.or_eq_some_iff]
      constructor
      · rintro (hread | ⟨hnone, hrest⟩)
        · refine ⟨[], a :: l, rfl, hread, fun more hne hmore => ?_⟩
          exact absurd (List.suffix_nil.mp hmore) hne
        · obtain ⟨before, text, rfl, hread, hbefore⟩ := ih.mp hrest
          refine ⟨a :: before, text, rfl, hread, fun more hne hmore => ?_⟩
          rcases List.suffix_cons_iff.mp hmore with rfl | hmore
          · exact hnone
          · exact hbefore more hne hmore
      · rintro ⟨before, text, heq, hread, hbefore⟩
        cases before with
        | nil =>
            rw [List.nil_append] at heq
            exact .inl (heq ▸ hread)
        | cons c before =>
            obtain ⟨rfl, rfl⟩ := List.cons_eq_cons.mp heq
            refine .inr ⟨hbefore _ (List.cons_ne_nil _ _) (List.suffix_refl _), ?_⟩
            exact ih.mpr ⟨before, text, rfl, hread, fun more hne hmore =>
              hbefore more hne (hmore.trans (List.suffix_cons _ _))⟩

theorem findSome?_tails_append {g : List α → Option β} (hnil : g [] = none)
    (h : ∀ suffix ≠ [], suffix <:+ l → f (suffix ++ m) = g suffix) :
    (l ++ m).tails.findSome? f =
      (l.tails.findSome? g).or (m.tails.findSome? f) := by
  induction l with
  | nil => simp [hnil]
  | cons a l ih =>
      have hfirst := h (a :: l) (List.cons_ne_nil a l) (List.suffix_refl _)
      have hrest := ih fun suffix hne hsuffix =>
        h suffix hne (hsuffix.trans (List.suffix_cons a l))
      rw [List.cons_append] at hfirst ⊢
      rw [findSome?_tails_cons, findSome?_tails_cons, hfirst, hrest,
        Option.or_assoc]

theorem findSome?_tails_append_of_none
    (h : ∀ suffix ≠ [], suffix <:+ l → f (suffix ++ m) = none) :
    (l ++ m).tails.findSome? f = m.tails.findSome? f := by
  have hnone : l.tails.findSome? (fun _ => (none : Option β)) = none := by
    rw [List.findSome?_eq_none_iff]
    exact fun _ _ => rfl
  have happend := findSome?_tails_append (g := fun _ => none) rfl h
  rw [happend, hnone, Option.none_or]

end FirstRead

/-! ## Successive matches -/

section Matches

/--
The successive matches of a pattern that takes `width text` elements from the
front of `text`, none where that is zero.  `skip` elements belong to the last
match.
-/
def matchesFrom (width : List α → Nat) : Nat → List α → List (List α)
  | _, [] => []
  | skip + 1, _ :: rest => matchesFrom width skip rest
  | 0, a :: rest =>
      match width (a :: rest) with
      | 0 => matchesFrom width 0 rest
      | n + 1 => (a :: rest).take (n + 1) :: matchesFrom width n rest

def allMatches (width : List α → Nat) (text : List α) : List (List α) :=
  matchesFrom width 0 text

variable {width : List α → Nat}

theorem matchesFrom_eq_nil {text : List α}
    (h : ∀ suffix, suffix <:+ text → width suffix = 0) (skip : Nat) :
    matchesFrom width skip text = [] := by
  induction text generalizing skip with
  | nil => cases skip <;> rfl
  | cons a rest ih =>
      have hrest := ih fun suffix hsuffix =>
        h suffix (hsuffix.trans (List.suffix_cons a rest))
      cases skip with
      | zero =>
          rw [matchesFrom, h _ (List.suffix_refl _)]
          exact hrest 0
      | succ skip => exact hrest skip

theorem matchesFrom_of_length_le {text : List α} {skip : Nat}
    (h : text.length ≤ skip) : matchesFrom width skip text = [] := by
  induction text generalizing skip with
  | nil => cases skip <;> rfl
  | cons a rest ih =>
      cases skip with
      | zero => exact absurd h (by simp)
      | succ skip => exact ih (by simpa using h)

theorem allMatches_of_width_eq_length {text : List α} (hne : text ≠ [])
    (h : width text = text.length) : allMatches width text = [text] := by
  cases text with
  | nil => exact absurd rfl hne
  | cons a rest =>
      rw [List.length_cons] at h
      rw [allMatches, matchesFrom, h]
      simp only [matchesFrom_of_length_le (le_refl rest.length)]
      rw [List.take_of_length_le (by simp)]

theorem allMatches_cons_of_width_eq_zero {a : α} {rest : List α}
    (h : width (a :: rest) = 0) :
    allMatches width (a :: rest) = allMatches width rest := by
  rw [allMatches, matchesFrom, h]
  rfl

theorem allMatches_eq_nil_iff (hnil : width [] = 0) {text : List α} :
    allMatches width text = [] ↔
      ∀ suffix, suffix <:+ text → width suffix = 0 := by
  constructor
  · induction text with
    | nil =>
        intro _ suffix hsuffix
        rw [List.suffix_nil.mp hsuffix, hnil]
    | cons a rest ih =>
        intro h suffix hsuffix
        have hfirst : width (a :: rest) = 0 := by
          cases hwidth : width (a :: rest) with
          | zero => rfl
          | succ n =>
              rw [allMatches, matchesFrom, hwidth] at h
              cases h
        rw [allMatches_cons_of_width_eq_zero hfirst] at h
        rw [List.suffix_cons_iff] at hsuffix
        cases hsuffix with
        | inl heq => rw [heq, hfirst]
        | inr hsuffix => exact ih h suffix hsuffix
  · intro h
    exact matchesFrom_eq_nil h 0

theorem allMatches_append_cons {separator : α}
    (hlocal : ∀ l m, width (l ++ separator :: m) = width l)
    (hle : ∀ l, width l ≤ l.length) (text rest : List α) :
    allMatches width (text ++ separator :: rest) =
      allMatches width text ++ allMatches width rest := by
  have hskip : ∀ skip ≤ text.length,
      matchesFrom width skip (text ++ separator :: rest) =
        matchesFrom width skip text ++ allMatches width rest := by
    induction text with
    | nil =>
        intro skip hle'
        have hzero : width (separator :: rest) = 0 := by
          have hwidth := hlocal [] rest
          have hnil := hle []
          simp only [List.nil_append] at hwidth
          simpa [hwidth] using hnil
        cases Nat.le_zero.mp hle'
        simp only [List.nil_append, matchesFrom, hzero, allMatches]
    | cons a text ih =>
        intro skip hle'
        cases skip with
        | succ skip =>
            exact ih skip (by simpa using hle')
        | zero =>
            have hwidth := hlocal (a :: text) rest
            have hbound := hle (a :: text)
            rw [List.cons_append] at hwidth ⊢
            rw [matchesFrom, matchesFrom, hwidth]
            cases hn : width (a :: text) with
            | zero => exact ih 0 (Nat.zero_le _)
            | succ n =>
                rw [hn, List.length_cons] at hbound
                have htake : (a :: (text ++ separator :: rest)).take (n + 1) =
                    (a :: text).take (n + 1) := by
                  rw [← List.cons_append, List.take_append_of_le_length]
                  simpa using hbound
                simp only [htake, List.cons_append]
                rw [ih n (by omega)]
  exact hskip 0 (Nat.zero_le _)

end Matches

end IreBlockchain.Foundation
