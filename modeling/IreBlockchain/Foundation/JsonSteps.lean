import IreBlockchain.Foundation.JsonRoundTrip

/-!
# What the parser can do

One inversion for each of the three functions that call each other: the cases
in which it reads something, with all that it has checked.
-/

namespace IreBlockchain.Foundation

section Reads

variable (fmt : NumberFormat) (fuel : Nat) (text : Text)

inductive ReadsValue : Json fmt.Number → Text → Prop
  | emptyObject {inner rest : Text} (hopen : expect '{' text = some inner)
      (hclose : expect '}' inner = some rest) : ReadsValue (.object []) rest
  | object {inner rest : Text} {ms : List (JsString × Json fmt.Number)}
      (hopen : expect '{' text = some inner)
      (hclose : expect '}' inner = none)
      (hms : parseMembers fmt fuel inner = some (ms, rest)) :
      ReadsValue (.object (lastWins ms)) rest
  | emptyArray {inner rest : Text} (hbrace : expect '{' text = none)
      (hopen : expect '[' text = some inner)
      (hclose : expect ']' inner = some rest) : ReadsValue (.array []) rest
  | array {inner rest : Text} {vs : List (Json fmt.Number)}
      (hbrace : expect '{' text = none) (hopen : expect '[' text = some inner)
      (hclose : expect ']' inner = none)
      (hvs : parseElements fmt fuel inner = some (vs, rest)) :
      ReadsValue (.array vs) rest
  | string {inner rest : Text} {s : JsString}
      (hbrace : expect '{' text = none) (hbracket : expect '[' text = none)
      (hopen : expect '"' text = some inner)
      (hs : parseString inner = some (s, rest)) : ReadsValue (.string s) rest
  | scalar {rest : Text} {v : Json fmt.Number}
      (hbrace : expect '{' text = none) (hbracket : expect '[' text = none)
      (hquote : expect '"' text = none)
      (hscalar : parseScalar fmt (skipSpace text) = some (v, rest)) :
      ReadsValue v rest

inductive ReadsElements : List (Json fmt.Number) → Text → Prop
  | last {between rest : Text} {v : Json fmt.Number}
      (hv : parseValue fmt fuel text = some (v, between))
      (hcomma : expect ',' between = none)
      (hclose : expect ']' between = some rest) : ReadsElements [v] rest
  | more {between behind rest : Text} {v : Json fmt.Number}
      {vs : List (Json fmt.Number)}
      (hv : parseValue fmt fuel text = some (v, between))
      (hcomma : expect ',' between = some behind)
      (hvs : parseElements fmt fuel behind = some (vs, rest)) :
      ReadsElements (v :: vs) rest

/-- One member, up to the comma or brace behind it. -/
inductive ReadsMember : JsString → Json fmt.Number → Text → Prop
  | mk {inner behind value rest : Text} {key : JsString}
      {v : Json fmt.Number} (hquote : expect '"' text = some inner)
      (hkey : parseString inner = some (key, behind))
      (hcolon : expect ':' behind = some value)
      (hv : parseValue fmt fuel value = some (v, rest)) :
      ReadsMember key v rest

inductive ReadsMembers : List (JsString × Json fmt.Number) → Text → Prop
  | last {between rest : Text} {key : JsString} {v : Json fmt.Number}
      (hmember : ReadsMember fmt fuel text key v between)
      (hcomma : expect ',' between = none)
      (hclose : expect '}' between = some rest) : ReadsMembers [(key, v)] rest
  | more {between behind rest : Text} {key : JsString} {v : Json fmt.Number}
      {ms : List (JsString × Json fmt.Number)}
      (hmember : ReadsMember fmt fuel text key v between)
      (hcomma : expect ',' between = some behind)
      (hms : parseMembers fmt fuel behind = some (ms, rest)) :
      ReadsMembers ((key, v) :: ms) rest

end Reads

variable {fmt : NumberFormat} {fuel : Nat} {text rest : Text}

theorem parseValue_eq_some_iff {v : Json fmt.Number} :
    parseValue fmt (fuel + 1) text = some (v, rest) ↔
      ReadsValue fmt fuel text v rest := by
  constructor
  · intro h
    rw [parseValue] at h
    split at h
    next inner hopen =>
      split at h
      next last hclose =>
        cases h
        exact .emptyObject hopen hclose
      next hclose =>
        obtain ⟨⟨ms, last⟩, hms, heq⟩ := Option.map_eq_some_iff.mp h
        cases heq
        exact .object hopen hclose hms
    next hbrace =>
      split at h
      next inner hopen =>
        split at h
        next last hclose =>
          cases h
          exact .emptyArray hbrace hopen hclose
        next hclose =>
          obtain ⟨⟨vs, last⟩, hvs, heq⟩ := Option.map_eq_some_iff.mp h
          cases heq
          exact .array hbrace hopen hclose hvs
      next hbracket =>
        split at h
        next inner hopen =>
          obtain ⟨⟨s, last⟩, hs, heq⟩ := Option.map_eq_some_iff.mp h
          cases heq
          exact .string hbrace hbracket hopen hs
        next hquote => exact .scalar hbrace hbracket hquote h
  · intro h
    rw [parseValue]
    cases h with
    | emptyObject hopen hclose => simp [hopen, hclose]
    | object hopen hclose hms => simp [hopen, hclose, hms]
    | emptyArray hbrace hopen hclose => simp [hbrace, hopen, hclose]
    | array hbrace hopen hclose hvs => simp [hbrace, hopen, hclose, hvs]
    | string hbrace hbracket hopen hs => simp [hbrace, hbracket, hopen, hs]
    | scalar hbrace hbracket hquote hscalar =>
        simp [hbrace, hbracket, hquote, hscalar]

theorem parseElements_eq_some_iff {vs : List (Json fmt.Number)} :
    parseElements fmt (fuel + 1) text = some (vs, rest) ↔
      ReadsElements fmt fuel text vs rest := by
  constructor
  · intro h
    rw [parseElements] at h
    obtain ⟨⟨v, between⟩, hv, h⟩ := Option.bind_eq_some_iff.mp h
    dsimp only at h
    split at h
    next behind hcomma =>
      obtain ⟨⟨vs', last⟩, hvs, heq⟩ := Option.map_eq_some_iff.mp h
      cases heq
      exact .more hv hcomma hvs
    next hcomma =>
      obtain ⟨last, hclose, heq⟩ := Option.map_eq_some_iff.mp h
      cases heq
      exact .last hv hcomma hclose
  · intro h
    rw [parseElements]
    cases h with
    | last hv hcomma hclose => simp [hv, hcomma, hclose]
    | more hv hcomma hvs => simp [hv, hcomma, hvs]

theorem parseMembers_eq_some_iff {ms : List (JsString × Json fmt.Number)} :
    parseMembers fmt (fuel + 1) text = some (ms, rest) ↔
      ReadsMembers fmt fuel text ms rest := by
  constructor
  · intro h
    rw [parseMembers] at h
    obtain ⟨inner, hquote, h⟩ := Option.bind_eq_some_iff.mp h
    obtain ⟨⟨key, behind⟩, hkey, h⟩ := Option.bind_eq_some_iff.mp h
    obtain ⟨value, hcolon, h⟩ := Option.bind_eq_some_iff.mp h
    obtain ⟨⟨v, between⟩, hv, h⟩ := Option.bind_eq_some_iff.mp h
    have hmember := ReadsMember.mk hquote hkey hcolon hv
    dsimp only at h
    split at h
    next behind hcomma =>
      obtain ⟨⟨ms', last⟩, hms, heq⟩ := Option.map_eq_some_iff.mp h
      cases heq
      exact .more hmember hcomma hms
    next hcomma =>
      obtain ⟨last, hclose, heq⟩ := Option.map_eq_some_iff.mp h
      cases heq
      exact .last hmember hcomma hclose
  · intro h
    rw [parseMembers]
    cases h with
    | last hmember hcomma hclose =>
        obtain ⟨hquote, hkey, hcolon, hv⟩ := hmember
        simp [hquote, hkey, hcolon, hv, hcomma, hclose]
    | more hmember hcomma hms =>
        obtain ⟨hquote, hkey, hcolon, hv⟩ := hmember
        simp [hquote, hkey, hcolon, hv, hcomma, hms]

end IreBlockchain.Foundation
