import IreBlockchain.Explorer.ObjectScan
import IreBlockchain.Foundation.JsonSpaces

/-!
# Objects in a payload

The scan of `extractJson` and the grammar agree on where an object ends,
whatever stands before its first brace and behind its last one.
-/

namespace IreBlockchain.Explorer

open IreBlockchain.Foundation

variable {fmt : NumberFormat} {text : Text} {v : Json fmt.Number}
  {ms : List (JsString × Json fmt.Number)}

theorem parseScalar_ne_object {rest : Text} :
    parseScalar fmt text ≠ some (.object ms, rest) := by
  intro h
  simp only [parseScalar] at h
  split at h
  · cases h
  split at h
  · cases h
  split at h
  · cases h
  split at h <;> cases h

theorem eq_object_of_parse (h : Json.parse fmt ('{' :: text) = some v) :
    ∃ ms, v = .object ms := by
  obtain ⟨fuel, rest, hvalue, -⟩ := parse_eq_some_iff.mp h
  have hopen : expect '{' ('{' :: text) = some text :=
    expect_self (by decide) text
  cases fuel with
  | zero => cases hvalue
  | succ fuel =>
      cases parseValue_eq_some_iff.mp hvalue with
      | emptyObject => exact ⟨_, rfl⟩
      | object => exact ⟨_, rfl⟩
      | emptyArray hbrace => simp [hopen] at hbrace
      | array hbrace => simp [hopen] at hbrace
      | string hbrace => simp [hopen] at hbrace
      | scalar hbrace => simp [hopen] at hbrace

theorem expect_brace_of_parse (h : Json.parse fmt text = some (.object ms)) :
    ∃ rest, expect '{' text = some rest := by
  obtain ⟨fuel, rest, hvalue, -⟩ := parse_eq_some_iff.mp h
  cases fuel with
  | zero => cases hvalue
  | succ fuel =>
      cases parseValue_eq_some_iff.mp hvalue with
      | emptyObject hopen => exact ⟨_, hopen⟩
      | object hopen => exact ⟨_, hopen⟩
      | scalar _ _ _ hscalar => exact absurd hscalar parseScalar_ne_object

theorem braces_of_parse (h : Json.parse fmt text = some (.object ms)) :
    ∃ gap inner gap', text = gap ++ ('{' :: (inner ++ ['}']) ++ gap') ∧
      '{' ∉ gap ∧ Json.parse fmt ('{' :: (inner ++ ['}'])) =
        some (.object ms) := by
  obtain ⟨rest, hopen⟩ := expect_brace_of_parse h
  obtain ⟨gap, rfl, hgap⟩ := expect_eq_some hopen
  have hnone : ∀ c ∈ ([] : Text), isJsonSpace c = true := by simp
  have hfront := parse_spaces fmt hgap hnone ('{' :: rest)
  rw [List.append_nil, h] at hfront
  obtain ⟨inner, gap', rfl, -, hgap'⟩ :=
    parse_object_eq_some textClosed_true hfront.symm
  have hback := parse_spaces fmt hnone hgap' ('{' :: (inner ++ ['}']))
  refine ⟨gap, inner, gap', by simp, ?_, ?_⟩
  · intro hmem
    exact absurd (hgap _ hmem) (by decide)
  · rw [← hback, hfront]
    simp

/--
`extractJson` finds the object whose text comes first, and nothing where no text
of an object starts at the first brace.
-/
theorem extractJson_finds_object (fmt : NumberFormat) :
    (∀ (text : Text) (ms : List (JsString × Json fmt.Number)),
      Json.parse fmt text = some (.object ms) →
        ∀ before behind : Text, '{' ∉ before →
          extractJson fmt (before ++ (text ++ behind)) =
            Json.parse fmt text) ∧
    ∀ payload : Text,
      (∀ before text behind : Text, payload = before ++ (text ++ behind) →
        '{' ∉ before → text.head? = some '{' →
          ∀ ms, Json.parse fmt text ≠ some (.object ms)) →
      extractJson fmt payload = none := by
  constructor
  · intro text ms h before behind hbefore
    obtain ⟨gap, inner, gap', rfl, hgap, hparse⟩ := braces_of_parse h
    rw [h, extractJson_eq_some_iff]
    refine ⟨before ++ gap, inner, gap' ++ behind, by simp, ?_, hparse⟩
    simp [hbefore, hgap]
  · intro payload h
    by_contra hsome
    obtain ⟨o, ho⟩ := Option.ne_none_iff_exists'.mp hsome
    obtain ⟨before, inner, behind, rfl, hbefore, hparse⟩ :=
      extractJson_eq_some_iff.mp ho
    obtain ⟨ms, rfl⟩ := eq_object_of_parse hparse
    exact h before _ behind rfl hbefore rfl ms hparse

def bracedText : Text :=
  '{' :: (['"', 'a', '"', ':', '"', '}', '"'] ++ ['}'])

theorem extractJson_finds_object_sample :
    (extractJson literalFormat ("see ".toList ++ (bracedText ++ ['}']))).isSome =
      true := by
  have hsome : (Json.parse literalFormat bracedText).isSome = true := by
    decide +kernel
  obtain ⟨o, ho⟩ := Option.isSome_iff_exists.mp hsome
  obtain ⟨ms, rfl⟩ := eq_object_of_parse ho
  have hfound := (extractJson_finds_object literalFormat).1 bracedText ms ho
    "see ".toList ['}'] (by decide)
  rw [hfound]
  exact hsome

end IreBlockchain.Explorer
