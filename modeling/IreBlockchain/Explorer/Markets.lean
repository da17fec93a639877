import IreBlockchain.Explorer.Grammar
import IreBlockchain.Explorer.Transaction
import IreBlockchain.Foundation.JsonRoundTrip

/-!
# The market indexer

`decodeBets` of the markets page, and the memos it reads as it should.
-/

namespace IreBlockchain.Explorer

open IreBlockchain.Foundation

structure Meta where
  height : Option Nat
  pending : Bool

structure BetEvent (fmt : NumberFormat) where
  op : JsString
  body : Json fmt.Number
  id : JsString
  hash : Text
  msgs : Nat
  height : Option Nat
  pending : Bool
  id_eq : id = toJsString (hash ++ "i0".toList)

/-- What `/\/(?:cosmos|ibc)\.[A-Za-z0-9./]+/` takes from the front. -/
def typeUrlWidth (text : Text) : Nat :=
  let name (start : Text) : Nat :=
    if start <+: text then
      let run := (text.drop start.length).takeWhile fun c =>
        isDigit c || ('a' ≤ c && c ≤ 'z') || ('A' ≤ c && c ≤ 'Z') ||
          c = '.' || c = '/'
      if run = [] then 0 else start.length + run.length
    else 0
  if name "/cosmos.".toList ≠ 0 then name "/cosmos.".toList
  else name "/ibc.".toList

def messageCount (ascii : Text) : Nat :=
  max 1 (allMatches typeUrlWidth ascii).length

def decodeBets (fmt : NumberFormat) (sha256Hex : Bytes → Text)
    (bytes : Bytes) (info : Meta) : List (BetEvent fmt) :=
  let hash := sha256Hex bytes
  let ascii := asciiFromBytes bytes
  match parseInscription ascii with
  | none => []
  | some ins =>
      match extractJson fmt ins.payload with
      | none => []
      | some body =>
          match body.get "p".toList, body.get "op".toList with
          | some (.string p), some (.string op) =>
              if p = toJsString "ire-bet".toList then
                [{ op := op, body := body, hash := hash
                   id := toJsString (hash ++ "i0".toList)
                   msgs := messageCount ascii, height := info.height
                   pending := info.pending, id_eq := rfl }]
              else []
          | _, _ => []

/-! ## Bets -/

variable {fmt : NumberFormat}

/-- An object with `p` for `ire-bet` and a string for `op`. -/
def IsIreBet (o : Json fmt.Number) : Prop :=
  o.get "p".toList = some (.string (toJsString "ire-bet".toList)) ∧
    ∃ op, o.get "op".toList = some (.string op)

section Events

variable (sha256Hex : Bytes → Text) {bytes : Bytes} (info : Meta)

theorem decodeBets_of_read {o : Json fmt.Number}
    (h : readInscription fmt (asciiFromBytes bytes) = some o) :
    (IsIreBet o →
      ∃ event, decodeBets fmt sha256Hex bytes info = [event] ∧
        event.body = o) ∧
    (¬ IsIreBet o → decodeBets fmt sha256Hex bytes info = []) := by
  obtain ⟨ins, hins, hbody⟩ := Option.bind_eq_some_iff.mp h
  constructor
  · rintro ⟨hp, op, hop⟩
    simp only [decodeBets, hins, hbody, hp, hop, if_true]
    exact ⟨_, rfl, rfl⟩
  · intro hnot
    simp only [decodeBets, hins, hbody]
    split
    next p op hp hop =>
      split
      next heq => exact absurd ⟨heq ▸ hp, op, hop⟩ hnot
      next => rfl
    next => rfl

theorem decodeBets_of_none
    (h : readInscription fmt (asciiFromBytes bytes) = none) :
    decodeBets fmt sha256Hex bytes info = [] := by
  simp only [decodeBets]
  split
  next => rfl
  next ins hins =>
    rw [readInscription, hins, Option.bind_some] at h
    rw [h]

theorem decodeBets_eq_singleton_iff {o : Json fmt.Number} (ho : IsIreBet o) :
    (∃ event, decodeBets fmt sha256Hex bytes info = [event] ∧
      event.body = o) ↔
      readInscription fmt (asciiFromBytes bytes) = some o := by
  constructor
  · rintro ⟨event, hevent, hbody⟩
    cases hread : readInscription fmt (asciiFromBytes bytes) with
    | none =>
        rw [decodeBets_of_none sha256Hex info hread] at hevent
        cases hevent
    | some o' =>
        by_cases hbet : IsIreBet o'
        · obtain ⟨event', hevent', hbody'⟩ :=
            (decodeBets_of_read sha256Hex info hread).1 hbet
          rw [hevent'] at hevent
          cases hevent
          rw [← hbody, hbody']
        · rw [(decodeBets_of_read sha256Hex info hread).2 hbet] at hevent
          cases hevent
  · intro hread
    exact (decodeBets_of_read sha256Hex info hread).1 ho

theorem decodeBets_eq_nil_iff :
    decodeBets fmt sha256Hex bytes info = [] ↔
      ∀ o : Json fmt.Number, IsIreBet o →
        readInscription fmt (asciiFromBytes bytes) ≠ some o := by
  constructor
  · intro hnil o ho hread
    obtain ⟨event, hevent, _⟩ := (decodeBets_of_read sha256Hex info hread).1 ho
    rw [hnil] at hevent
    cases hevent
  · intro hnone
    cases hread : readInscription fmt (asciiFromBytes bytes) with
    | none => exact decodeBets_of_none sha256Hex info hread
    | some o =>
        apply (decodeBets_of_read sha256Hex info hread).2
        intro ho
        exact hnone o ho hread

end Events

end IreBlockchain.Explorer
