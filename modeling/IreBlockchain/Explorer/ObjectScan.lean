import IreBlockchain.Explorer.Inscription
import IreBlockchain.Foundation.JsonTexts

/-!
# The scan for a closing brace

In the text of a value the scan comes back to the depth it started from, so the
object it finds is the one whose text the grammar sees.
-/

namespace IreBlockchain.Explorer

open IreBlockchain.Foundation

theorem closeObject_cons {s s' : Scan} {c : Char} (h : s.step c = some s')
    (rest : Text) :
    closeObject s (c :: rest) = (closeObject s' rest).map (c :: ·) := by
  rw [closeObject, h]

/-- The scan passes over the text and goes on as before. -/
def Transparent (text : Text) : Prop :=
  ∀ depth rest, 0 < depth →
    closeObject ⟨depth, false, false⟩ (text ++ rest) =
      (closeObject ⟨depth, false, false⟩ rest).map (text ++ ·)

def ClosesString (text : Text) : Prop :=
  ∀ depth rest,
    closeObject ⟨depth, true, false⟩ (text ++ rest) =
      (closeObject ⟨depth, false, false⟩ rest).map (text ++ ·)

theorem ClosesString.cons {c : Char} {text : Text} (hquote : c ≠ '"')
    (hslash : c ≠ '\\') (h : ClosesString text) : ClosesString (c :: text) := by
  intro depth rest
  have hstep : Scan.step ⟨depth, true, false⟩ c =
      some ⟨depth, true, false⟩ := by
    simp [Scan.step, hquote, hslash]
  rw [List.cons_append, closeObject_cons hstep, h depth rest, Option.map_map]
  rfl

theorem ClosesString.escape {e : Char} {text : Text} (h : ClosesString text) :
    ClosesString ('\\' :: e :: text) := by
  intro depth rest
  have hslash : Scan.step ⟨depth, true, false⟩ '\\' =
      some ⟨depth, true, true⟩ := rfl
  have hstep : Scan.step ⟨depth, true, true⟩ e =
      some ⟨depth, true, false⟩ := rfl
  rw [List.cons_append, List.cons_append, closeObject_cons hslash,
    closeObject_cons hstep, h depth rest, Option.map_map, Option.map_map]
  rfl

theorem closesString_quote : ClosesString ['"'] := by
  intro depth rest
  exact closeObject_cons rfl rest

theorem plain_of_hexValue {c : Char} {n : Nat} (h : hexValue c = some n) :
    c ≠ '"' ∧ c ≠ '\\' := by
  have hquote : hexValue '"' = none := by decide
  have hslash : hexValue '\\' = none := by decide
  constructor
  · intro heq
    rw [heq, hquote] at h
    cases h
  · intro heq
    rw [heq, hslash] at h
    cases h

theorem plain_of_readHex {x y z w : Char} {u : UInt16}
    (h : readHex x y z w = some u) :
    (x ≠ '"' ∧ x ≠ '\\') ∧ (y ≠ '"' ∧ y ≠ '\\') ∧ (z ≠ '"' ∧ z ≠ '\\') ∧
      w ≠ '"' ∧ w ≠ '\\' := by
  obtain ⟨a, ha, h⟩ := Option.bind_eq_some_iff.mp h
  obtain ⟨b, hb, h⟩ := Option.bind_eq_some_iff.mp h
  obtain ⟨c, hc, h⟩ := Option.bind_eq_some_iff.mp h
  obtain ⟨d, hd, h⟩ := Option.bind_eq_some_iff.mp h
  exact ⟨plain_of_hexValue ha, plain_of_hexValue hb, plain_of_hexValue hc,
    plain_of_hexValue hd⟩

theorem closesString_of_parseString {text rest : Text} {s : JsString}
    (h : parseString text = some (s, rest)) :
    ∃ body, text = body ++ rest ∧ ClosesString body := by
  fun_induction parseString text generalizing s with
  | case1 => exact absurd h (by simp)
  | case2 text =>
      cases h
      exact ⟨['"'], rfl, closesString_quote⟩
  | case3 => exact absurd h (by simp)
  | case4 x y z w text _ ih =>
      obtain ⟨u, hu, hrest⟩ := Option.bind_eq_some_iff.mp h
      obtain ⟨⟨s', rest'⟩, hrest, heq⟩ := Option.map_eq_some_iff.mp hrest
      cases heq
      obtain ⟨body, rfl, hbody⟩ := ih hrest
      obtain ⟨hx, hy, hz, hw⟩ := plain_of_readHex hu
      refine ⟨'\\' :: 'u' :: x :: y :: z :: w :: body, rfl, ?_⟩
      apply ClosesString.escape
      apply ClosesString.cons hx.1 hx.2
      apply ClosesString.cons hy.1 hy.2
      apply ClosesString.cons hz.1 hz.2
      exact ClosesString.cons hw.1 hw.2 hbody
  | case5 => exact absurd h (by simp)
  | case6 e text _ _ ih =>
      obtain ⟨u, _, hrest⟩ := Option.bind_eq_some_iff.mp h
      obtain ⟨⟨s', rest'⟩, hrest, heq⟩ := Option.map_eq_some_iff.mp hrest
      cases heq
      obtain ⟨body, rfl, hbody⟩ := ih hrest
      exact ⟨'\\' :: e :: body, rfl, hbody.escape⟩
  | case7 => exact absurd h (by simp)
  | case8 c text hquote hslash _ ih =>
      obtain ⟨⟨s', rest'⟩, hrest, heq⟩ := Option.map_eq_some_iff.mp h
      cases heq
      obtain ⟨body, rfl, hbody⟩ := ih hrest
      exact ⟨c :: body, rfl, hbody.cons hquote hslash⟩

theorem textClosed_transparent : TextClosed Transparent where
  nil := by
    intro depth rest _
    simp
  append := by
    intro l m hl hm depth rest hdepth
    rw [List.append_assoc, hl depth (m ++ rest) hdepth, hm depth rest hdepth,
      Option.map_map]
    congr 1
    funext x
    simp
  char := by
    intro c hquote hopen hclose depth rest _
    have hstep : Scan.step ⟨depth, false, false⟩ c =
        some ⟨depth, false, false⟩ := by
      simp [Scan.step, hquote, hopen, hclose]
    exact closeObject_cons hstep rest
  string := by
    intro body rest s hparse depth rest' _
    obtain ⟨body', heq, hbody⟩ := closesString_of_parseString hparse
    have hstep : Scan.step ⟨depth, false, false⟩ '"' =
        some ⟨depth, true, false⟩ := rfl
    rw [List.append_cancel_right heq, List.cons_append,
      closeObject_cons hstep, hbody depth rest', Option.map_map]
    rfl
  braces := by
    intro l hl depth rest hdepth
    have hopen : Scan.step ⟨depth, false, false⟩ '{' =
        some ⟨depth + 1, false, false⟩ := rfl
    have hclose : Scan.step ⟨depth + 1, false, false⟩ '}' =
        some ⟨depth, false, false⟩ := by
      simp [Scan.step, Nat.ne_of_gt hdepth]
    rw [List.cons_append, List.append_assoc, closeObject_cons hopen,
      hl (depth + 1) _ (Nat.succ_pos depth), List.singleton_append,
      closeObject_cons hclose, Option.map_map, Option.map_map]
    congr 1
    funext x
    simp

/-! ## Objects -/

theorem eq_of_step_eq_none {s : Scan} {c : Char} (h : s.step c = none) :
    c = '}' := by
  simp only [Scan.step] at h
  grind

theorem closeObject_eq_some {s : Scan} {text found : Text}
    (h : closeObject s text = some found) :
    ∃ inner rest, found = inner ++ ['}'] ∧ text = found ++ rest := by
  induction text generalizing s found with
  | nil => cases h
  | cons c text ih =>
      rw [closeObject] at h
      split at h
      next hclose =>
        cases h
        exact ⟨[], text, by rw [eq_of_step_eq_none hclose]; rfl, rfl⟩
      next s' _ =>
        obtain ⟨found', hfound, rfl⟩ := Option.map_eq_some_iff.mp h
        obtain ⟨inner, rest, rfl, rfl⟩ := ih hfound
        exact ⟨c :: inner, rest, rfl, rfl⟩

theorem closeObject_append {s : Scan} {text found : Text}
    (h : closeObject s text = some found) (rest : Text) :
    closeObject s (text ++ rest) = some found := by
  induction text generalizing s found with
  | nil => cases h
  | cons c text ih =>
      rw [closeObject] at h
      rw [List.cons_append, closeObject]
      cases hstep : s.step c with
      | none =>
          rw [hstep] at h
          exact h
      | some s' =>
          rw [hstep] at h
          obtain ⟨found', hfound, rfl⟩ := Option.map_eq_some_iff.mp h
          simp only [ih hfound, Option.map_some]

variable {fmt : NumberFormat}

/-- The text of an object is closed where it ends, whatever follows. -/
theorem closeObject_of_parse {inner : Text} {o : Json fmt.Number}
    (h : Json.parse fmt ('{' :: (inner ++ ['}'])) = some o) (rest : Text) :
    closeObject ⟨0, false, false⟩ ('{' :: (inner ++ ['}']) ++ rest) =
      some ('{' :: (inner ++ ['}'])) := by
  have hinner := parse_braces_eq_some textClosed_transparent h
  have hopen : Scan.step ⟨0, false, false⟩ '{' =
      some ⟨1, false, false⟩ := rfl
  have hclose : closeObject ⟨1, false, false⟩ ('}' :: rest) = some ['}'] := rfl
  rw [List.cons_append, List.append_assoc, closeObject_cons hopen,
    hinner 1 _ Nat.one_pos, List.singleton_append, hclose]
  rfl

theorem closeObject_of_prefix {inner cut : Text} {o : Json fmt.Number}
    (h : Json.parse fmt ('{' :: (inner ++ ['}'])) = some o)
    (hcut : cut <+: '{' :: inner) :
    closeObject ⟨0, false, false⟩ cut = none := by
  by_contra hsome
  obtain ⟨found, hfound⟩ := Option.ne_none_iff_exists'.mp hsome
  obtain ⟨tail, htail⟩ := hcut
  have hopen : Scan.step ⟨0, false, false⟩ '{' =
      some ⟨1, false, false⟩ := rfl
  have hinner := parse_braces_eq_some textClosed_transparent h 1 [] Nat.one_pos
  have hopened : closeObject ⟨0, false, false⟩ ('{' :: inner) = none := by
    rw [List.append_nil] at hinner
    rw [closeObject_cons hopen, hinner]
    rfl
  have hlong := closeObject_append hfound tail
  rw [htail, hopened] at hlong
  cases hlong

/-- The object whose text starts at the first brace. -/
def FirstObject (fmt : NumberFormat) (payload : Text)
    (o : Json fmt.Number) : Prop :=
  ∃ before inner rest, payload = before ++ ('{' :: (inner ++ ['}']) ++ rest) ∧
    '{' ∉ before ∧ Json.parse fmt ('{' :: (inner ++ ['}'])) = some o

theorem extractJson_eq_some_iff {payload : Text} {o : Json fmt.Number} :
    extractJson fmt payload = some o ↔ FirstObject fmt payload o := by
  constructor
  · intro h
    obtain ⟨text, htext, hscan⟩ := Option.bind_eq_some_iff.mp h
    obtain ⟨found, hfound, hparse⟩ := Option.bind_eq_some_iff.mp hscan
    obtain ⟨before, tail, rfl, rfl, hbefore⟩ :=
      dropUntil_singleton_eq_some_iff.mp htext
    obtain ⟨inner, rest, rfl, heq⟩ := closeObject_eq_some hfound
    cases inner with
    | nil => cases heq
    | cons c inner =>
        cases heq
        exact ⟨before, inner, rest, rfl, hbefore, hparse⟩
  · rintro ⟨before, inner, rest, rfl, hbefore, hparse⟩
    have hfound : dropUntil ['{']
        (before ++ ('{' :: (inner ++ ['}']) ++ rest)) =
          some ('{' :: (inner ++ ['}']) ++ rest) :=
      dropUntil_singleton_eq_some_iff.mpr ⟨before, _, rfl, rfl, hbefore⟩
    rw [extractJson, hfound, Option.bind_some, closeObject_of_parse hparse]
    exact hparse

end IreBlockchain.Explorer
