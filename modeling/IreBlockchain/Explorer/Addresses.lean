import IreBlockchain.Explorer.Inscription

/-!
# Addresses in printable text

The pages take for an address what looks like one, at every place of the
printable text of a transaction.
-/

namespace IreBlockchain.Explorer

open IreBlockchain.Foundation

def isAddrChar (c : Char) : Bool := isDigit c || ('a' ≤ c && c ≤ 'z')

def addrPrefix : Text := "ire1".toList

theorem isAddrChar_iff {c : Char} : isAddrChar c = true ↔
    (48 ≤ c.toNat ∧ c.toNat ≤ 57) ∨ (97 ≤ c.toNat ∧ c.toNat ≤ 122) := by
  simp only [isAddrChar, isDigit, Bool.or_eq_true, Bool.and_eq_true,
    decide_eq_true_eq, Char.le_def, UInt32.le_iff_toNat_le]
  rfl

/-- What `/ire1[0-9a-z]{38,58}/` takes from the front. -/
def addrWidth (text : Text) : Nat :=
  if addrPrefix <+: text then
    let run := (text.drop addrPrefix.length).takeWhile isAddrChar
    if 38 ≤ run.length then addrPrefix.length + min run.length 58 else 0
  else 0

def distinct {α : Type} [DecidableEq α] (l : List α) : List α :=
  l.foldl (fun seen a => if a ∈ seen then seen else seen ++ [a]) []

def extractAddrs (ascii : Text) : List Text :=
  distinct (allMatches addrWidth ascii)

def isIreAddr (value : Text) : Bool :=
  addrPrefix <+: value && 42 ≤ value.length && value.length ≤ 62 &&
    (value.drop addrPrefix.length).all isAddrChar

structure IreAddr where
  text : Text
  isIreAddr_text : isIreAddr text = true
  deriving DecidableEq

theorem IreAddr.ext {a b : IreAddr} (h : a.text = b.text) : a = b := by
  cases a
  cases b
  cases h
  rfl

/-! ## The pattern of an address -/

theorem addrWidth_le (text : Text) : addrWidth text ≤ text.length := by
  rw [addrWidth]
  split
  next hfront =>
    obtain ⟨rest, rfl⟩ := hfront
    have hrun := (List.takeWhile_sublist isAddrChar (l := rest)).length_le
    simp only [List.drop_left, List.length_append]
    split
    next => omega
    next => exact Nat.zero_le _
  next => exact Nat.zero_le _

theorem addrWidth_eq_zero_of_short {text : Text} (h : text.length < 42) :
    addrWidth text = 0 := by
  rw [addrWidth]
  split
  next hfront =>
    obtain ⟨rest, rfl⟩ := hfront
    have hlength : addrPrefix.length = 4 := by decide
    have hrun := (List.takeWhile_sublist isAddrChar (l := rest)).length_le
    simp only [List.drop_left, List.length_append] at h ⊢
    split
    next => omega
    next => rfl
  next => rfl

theorem addrWidth_append_cons {c : Char} (hc : isAddrChar c = false)
    (l m : Text) : addrWidth (l ++ c :: m) = addrWidth l := by
  have hmem : c ∉ addrPrefix := by
    have hall : ∀ d ∈ addrPrefix, isAddrChar d = true :=
      List.all_eq_true.mp (by decide)
    intro hmem
    rw [hall c hmem] at hc
    cases hc
  rw [addrWidth, addrWidth]
  simp only [prefix_append_separator_iff hmem]
  split
  next hfront =>
    obtain ⟨rest, rfl⟩ := hfront
    rw [List.append_assoc, List.drop_left, List.drop_left,
      takeWhile_append_of_neg hc]
  next => rfl

theorem addrWidth_cons {c : Char} (hc : c ≠ 'i') (text : Text) :
    addrWidth (c :: text) = 0 := by
  rw [addrWidth, if_neg]
  intro hfront
  exact hc (List.cons_prefix_cons.mp hfront).1.symm

theorem addrWidth_ireAddr (addr : IreAddr) :
    addrWidth addr.text = addr.text.length := by
  obtain ⟨text, htext⟩ := addr
  simp only [isIreAddr, Bool.and_eq_true, decide_eq_true_eq,
    List.all_eq_true] at htext
  obtain ⟨⟨⟨⟨rest, rfl⟩, hge⟩, hle⟩, hall⟩ := htext
  have hlength : addrPrefix.length = 4 := by decide
  rw [List.drop_left] at hall
  rw [List.length_append] at hge hle ⊢
  rw [addrWidth, if_pos (List.prefix_append _ _), List.drop_left,
    List.takeWhile_eq_self_iff.mpr hall, if_pos (by omega)]
  omega

/-! ## Matches between separators -/

theorem allMatches_addr_append_cons {c : Char} (hc : isAddrChar c = false)
    (l m : Text) : allMatches addrWidth (l ++ c :: m) =
      allMatches addrWidth l ++ allMatches addrWidth m :=
  allMatches_append_cons (addrWidth_append_cons hc) addrWidth_le l m

theorem allMatches_addr_of_short {text : Text} (h : text.length < 42) :
    allMatches addrWidth text = [] := by
  apply matchesFrom_eq_nil
  intro suffix hsuffix
  have hlength := hsuffix.length_le
  exact addrWidth_eq_zero_of_short (by omega)

theorem allMatches_addr_cons {c : Char} (hc : isAddrChar c = false)
    (m : Text) : allMatches addrWidth (c :: m) = allMatches addrWidth m :=
  allMatches_addr_append_cons hc [] m

theorem IreAddr.text_ne_nil (addr : IreAddr) : addr.text ≠ [] := by
  intro hnil
  have hvalid := addr.isIreAddr_text
  rw [hnil] at hvalid
  exact absurd hvalid (by decide)

theorem allMatches_ireAddr (addr : IreAddr) :
    allMatches addrWidth addr.text = [addr.text] :=
  allMatches_of_width_eq_length addr.text_ne_nil (addrWidth_ireAddr addr)

theorem IreAddr.length_bounds (addr : IreAddr) :
    42 ≤ addr.text.length ∧ addr.text.length ≤ 62 := by
  have hvalid := addr.isIreAddr_text
  simp only [isIreAddr, Bool.and_eq_true, decide_eq_true_eq] at hvalid
  exact ⟨hvalid.1.1.2, hvalid.1.2⟩

theorem IreAddr.isAddrChar_of_mem (addr : IreAddr) :
    ∀ c ∈ addr.text, isAddrChar c = true := by
  obtain ⟨text, htext⟩ := addr
  simp only [isIreAddr, Bool.and_eq_true, decide_eq_true_eq,
    List.all_eq_true] at htext
  obtain ⟨⟨⟨⟨rest, rfl⟩, _⟩, _⟩, hall⟩ := htext
  rw [List.drop_left] at hall
  have hfront : ∀ c ∈ addrPrefix, isAddrChar c = true :=
    List.all_eq_true.mp (by decide)
  intro c hc
  cases List.mem_append.mp hc with
  | inl hc => exact hfront c hc
  | inr hc => exact hall c hc

/-! ## The distinct elements of a list -/

section Distinct

variable {α : Type} [DecidableEq α]

theorem distinct_cons (a : α) (l : List α) :
    distinct (a :: l) =
      l.foldl (fun seen b => if b ∈ seen then seen else seen ++ [b]) [a] := rfl

theorem prefix_foldl_distinct (seen l : List α) :
    seen <+: l.foldl (fun seen a => if a ∈ seen then seen else seen ++ [a])
      seen := by
  induction l generalizing seen with
  | nil => exact List.prefix_refl _
  | cons a l ih =>
      rw [List.foldl_cons]
      split
      next => exact ih seen
      next => exact (List.prefix_append seen [a]).trans (ih (seen ++ [a]))

theorem foldl_distinct_of_nodup {seen l : List α} (h : (seen ++ l).Nodup) :
    l.foldl (fun seen a => if a ∈ seen then seen else seen ++ [a]) seen =
      seen ++ l := by
  induction l generalizing seen with
  | nil => exact (List.append_nil seen).symm
  | cons a l ih =>
      have hnot : a ∉ seen := by
        intro hmem
        exact (List.nodup_append.mp h).2.2 a hmem a List.mem_cons_self rfl
      rw [List.append_cons] at h ⊢
      rw [List.foldl_cons, if_neg hnot, ih h]

theorem distinct_of_nodup {l : List α} (h : l.Nodup) : distinct l = l :=
  foldl_distinct_of_nodup (show ([] ++ l).Nodup from h)

theorem mem_foldl_distinct {seen l : List α} {b : α} :
    b ∈ l.foldl (fun seen a => if a ∈ seen then seen else seen ++ [a]) seen ↔
      b ∈ seen ∨ b ∈ l := by
  induction l generalizing seen with
  | nil => simp
  | cons a l ih =>
      rw [List.foldl_cons, ih, List.mem_cons]
      split
      next hmem =>
        constructor
        · exact Or.imp_right .inr
        · rintro (h | rfl | h)
          · exact .inl h
          · exact .inl hmem
          · exact .inr h
      next => rw [List.mem_append, List.mem_singleton, or_assoc]

theorem mem_distinct {l : List α} {b : α} : b ∈ distinct l ↔ b ∈ l := by
  rw [distinct, mem_foldl_distinct]
  simp

theorem distinct_eq_cons (a : α) (l : List α) :
    ∃ rest, distinct (a :: l) = a :: rest ∧
      rest.head? = l.find? (· ≠ a) := by
  rw [distinct_cons]
  induction l with
  | nil => exact ⟨[], rfl, rfl⟩
  | cons b l ih =>
      rw [List.foldl_cons]
      by_cases hb : b = a
      · rw [if_pos (by simp [hb])]
        obtain ⟨rest, heq, hhead⟩ := ih
        refine ⟨rest, heq, ?_⟩
        rw [hhead, List.find?_cons_of_neg (by simp [hb])]
      · rw [if_neg (by simpa using hb)]
        obtain ⟨rest, hrest⟩ := prefix_foldl_distinct ([a] ++ [b]) l
        refine ⟨b :: rest, hrest.symm, ?_⟩
        rw [List.find?_cons_of_pos (by simpa using hb)]
        rfl

end Distinct

end IreBlockchain.Explorer
