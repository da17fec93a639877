import IreBlockchain.Foundation.Json

/-!
# Coercions of values

`String(v)`, `Number(v)` and the functions of strings that callers use on what
they are given.  An object with a member `toString` of its own cannot be
coerced: the member hides the inherited method and is no function itself.
-/

namespace IreBlockchain.Foundation

/-! ## Strings -/

def isSpaceUnit (u : UInt16) : Bool := isSpace (Char.ofNat u.toNat)

def unitChar (u : UInt16) : Char :=
  if isHighSurrogate u || isLowSurrogate u then Char.ofNat 0xfffd
  else Char.ofNat u.toNat

/-- The text that is encoded as UTF-8; lone surrogates are replaced. -/
def toText : JsString → Text
  | [] => []
  | [u] => [unitChar u]
  | u :: v :: rest =>
      if isHighSurrogate u && isLowSurrogate v then
        surrogatePair u v :: toText rest
      else unitChar u :: toText (v :: rest)

def trimString (s : JsString) : JsString :=
  (s.dropWhile isSpaceUnit).rdropWhile isSpaceUnit

def isDigitUnit (u : UInt16) : Bool := 0x30 ≤ u.toNat && u.toNat ≤ 0x39

def unitsValue (digits : JsString) : Nat :=
  digits.foldl (fun n u => 10 * n + (u.toNat - 0x30)) 0

def lowerUnit (u : UInt16) : UInt16 :=
  if 0x41 ≤ u.toNat && u.toNat ≤ 0x5a then u + 0x20 else u

def isLowerUnit (u : UInt16) : Bool := 0x61 ≤ u.toNat && u.toNat ≤ 0x7a

/--
`toLowerCase` and `toUpperCase`.  A word of ASCII letters is the lower case of
its own spellings alone, unless it has a `k`, which is also that of U+212A.
-/
structure CaseMapping where
  toLowerCase : JsString → JsString
  toUpperCase : JsString → JsString
  toLowerCase_eq_iff : ∀ s word : JsString,
    (∀ u ∈ word, isLowerUnit u = true ∧ u ≠ 0x6b) →
    (toLowerCase s = word ↔ s.map lowerUnit = word)

def asciiLetters : CaseMapping where
  toLowerCase := List.map lowerUnit
  toUpperCase := List.map fun u => if isLowerUnit u then u - 0x20 else u
  toLowerCase_eq_iff _ _ _ := Iff.rfl

/-! ## Values -/

/-- The object has a member of its own that hides the inherited one. -/
def hasMember {Number : Type} (key : Text)
    (members : List (JsString × Json Number)) : Bool :=
  members.any fun member => member.1 = toJsString key

section Coercions

variable (fmt : NumberFormat)

mutual

/-- `String(v)`; `none` is a `TypeError`. -/
def stringOf : Json fmt.Number → Option JsString
  | .null => some (toJsString "null".toList)
  | .bool true => some (toJsString "true".toList)
  | .bool false => some (toJsString "false".toList)
  | .number n => some (toJsString (fmt.toText n))
  | .string s => some s
  | .array vs => (elementTexts vs).map ([0x2c] : JsString).intercalate
  | .object members =>
      if hasMember "toString".toList members then none
      else some (toJsString "[object Object]".toList)

def elementTexts : List (Json fmt.Number) → Option (List JsString)
  | [] => some []
  | .null :: vs => (elementTexts vs).map ([] :: ·)
  | v :: vs =>
      (stringOf v).bind fun s => (elementTexts vs).map (s :: ·)

end

/-- `!v`; an absent property is `undefined`. -/
def isFalsy : Option (Json fmt.Number) → Bool
  | none => true
  | some .null => true
  | some (.bool b) => !b
  | some (.number n) => fmt.toText n = ['0']
  | some (.string s) => s = []
  | some (.array _) => false
  | some (.object _) => false

def textOr (v : Option (Json fmt.Number)) : Option JsString :=
  if isFalsy fmt v then some []
  else
    match v with
    | none => some []
    | some v => stringOf fmt v

/-- `Number(v)`; the inner `none` is `NaN`. -/
def toNumber : Option (Json fmt.Number) → Option (Option fmt.Number)
  | none => some none
  | some .null => some (fmt.ofString [])
  | some (.bool b) =>
      some (fmt.ofString (toJsString (if b then ['1'] else ['0'])))
  | some (.number n) => some (some n)
  | some (.string s) => some (fmt.ofString s)
  | some (.array vs) => (stringOf fmt (.array vs)).map fmt.ofString
  | some (.object ms) => (stringOf fmt (.object ms)).map fmt.ofString

/-- `Number.isFinite(n) ? n : null` for `n = Number(v)` -/
def numberOf (v : Option (Json fmt.Number)) : Option (Option fmt.Number) :=
  (toNumber fmt v).map fun n => n.filter fmt.isFinite

def trimmedOr (v : Option (Json fmt.Number)) : JsString :=
  match v with
  | some (.string s) => trimString s
  | _ => []

/-! ## Values that cannot be coerced -/

/-- An object with a `toString` of its own, or an array with one inside. -/
inductive Uncoercible {Number : Type} : Json Number → Prop
  | object {members : List (JsString × Json Number)}
      (h : hasMember "toString".toList members = true) :
      Uncoercible (.object members)
  | array {vs : List (Json Number)} {v : Json Number} (hmem : v ∈ vs)
      (h : Uncoercible v) : Uncoercible (.array vs)

mutual

theorem stringOf_eq_none_iff : ∀ v : Json fmt.Number,
    stringOf fmt v = none ↔ Uncoercible v
  | .null => iff_of_false (by simp [stringOf]) nofun
  | .bool true => iff_of_false (by simp [stringOf]) nofun
  | .bool false => iff_of_false (by simp [stringOf]) nofun
  | .number n => iff_of_false (by simp [stringOf]) nofun
  | .string s => iff_of_false (by simp [stringOf]) nofun
  | .array vs => by
      rw [stringOf, Option.map_eq_none_iff, elementTexts_eq_none_iff vs]
      constructor
      · rintro ⟨v, hmem, h⟩
        exact .array hmem h
      · intro h
        cases h with
        | array hmem h => exact ⟨_, hmem, h⟩
  | .object members => by
      rw [stringOf]
      split
      next hmember => exact iff_of_true rfl (.object hmember)
      next hmember =>
        refine iff_of_false (by simp) ?_
        intro h
        cases h with
        | object h => exact hmember h

theorem elementTexts_eq_none_iff : ∀ vs : List (Json fmt.Number),
    elementTexts fmt vs = none ↔ ∃ v ∈ vs, Uncoercible v
  | [] => by simp [elementTexts]
  | v :: vs => by
      have hv := stringOf_eq_none_iff v
      have hvs := elementTexts_eq_none_iff vs
      have hcons : elementTexts fmt (v :: vs) = none ↔
          stringOf fmt v = none ∨ elementTexts fmt vs = none := by
        cases v with
        | null => simp [elementTexts, stringOf]
        | _ =>
            rw [elementTexts, Option.bind_eq_none_iff]
            · simp only [Option.map_eq_none_iff]
              constructor
              · intro h
                cases hs : stringOf fmt _ with
                | none => exact Or.inl rfl
                | some s => exact Or.inr (h s hs)
              · rintro (h | h) s hs
                · rw [h] at hs
                  cases hs
                · exact h
            · simp
      rw [hcons, hv, hvs]
      simp only [List.mem_cons, exists_eq_or_imp]

end

end Coercions

end IreBlockchain.Foundation
