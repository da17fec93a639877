import IreBlockchain.Foundation.JsonStrings
import Mathlib.Data.List.Nodup
import Mathlib.Data.List.TakeWhile

/-!
# Values in JSON texts

A value is read back from its text, and the text determines it.
-/

namespace IreBlockchain.Foundation

/-! ## Number literals -/

theorem isNumberChar_of_isDigit {c : Char} (h : isDigit c = true) :
    isNumberChar c = true := by
  simp [isNumberChar, h]

theorem mem_of_dropSign (signs : List Char) {text : Text} {c : Char}
    (hc : c ∈ text) : c ∈ signs ∨ c ∈ dropSign signs text := by
  cases text with
  | nil => exact absurd hc (by simp)
  | cons d rest =>
      simp only [dropSign]
      split
      next hsign =>
        cases List.mem_cons.mp hc with
        | inl heq => exact Or.inl (heq ▸ hsign)
        | inr hrest => exact Or.inr hrest
      next => exact Or.inr hc

theorem isNumberChar_of_isExponent {text : Text} (h : isExponent text = true) :
    ∀ c ∈ text, isNumberChar c = true := by
  intro c hc
  cases text with
  | nil => exact absurd hc (by simp)
  | cons d rest =>
      simp only [isExponent, Bool.and_eq_true, Bool.or_eq_true,
        decide_eq_true_eq, List.all_eq_true] at h
      obtain ⟨⟨hd, _⟩, hdigits⟩ := h
      cases List.mem_cons.mp hc with
      | inl heq =>
          subst heq
          cases hd with
          | inl he => subst he; decide
          | inr hE => subst hE; decide
      | inr hrest =>
          cases mem_of_dropSign ['+', '-'] hrest with
          | inl hsign =>
              simp only [List.mem_cons, List.not_mem_nil, or_false] at hsign
              cases hsign with
              | inl hplus => subst hplus; decide
              | inr hminus => subst hminus; decide
          | inr hdigit => exact isNumberChar_of_isDigit (hdigits c hdigit)

theorem mem_takeWhile_or_dropWhile (p : Char → Bool) {text : Text} {c : Char}
    (hc : c ∈ text) : p c = true ∨ c ∈ text.dropWhile p := by
  rw [← List.takeWhile_append_dropWhile (p := p) (l := text)] at hc
  cases List.mem_append.mp hc with
  | inl htake => exact Or.inl (List.mem_takeWhile_imp htake)
  | inr hdrop => exact Or.inr hdrop

theorem isNumberChar_of_isFraction {text : Text} (h : isFraction text = true) :
    ∀ c ∈ text, isNumberChar c = true := by
  intro c hc
  cases text with
  | nil => exact absurd hc (by simp)
  | cons d rest =>
      rw [isFraction] at h
      split at h
      next hdot =>
        rw [Bool.and_eq_true] at h
        cases List.mem_cons.mp hc with
        | inl heq => subst heq hdot; decide
        | inr hrest =>
            cases mem_takeWhile_or_dropWhile isDigit hrest with
            | inl hdigit => exact isNumberChar_of_isDigit hdigit
            | inr hexp => exact isNumberChar_of_isExponent h.2 c hexp
      next => exact isNumberChar_of_isExponent h c hc

theorem isNumberChar_of_isNumberLiteral {text : Text}
    (h : isNumberLiteral text = true) : ∀ c ∈ text, isNumberChar c = true := by
  intro c hc
  simp only [isNumberLiteral, Bool.and_eq_true] at h
  cases mem_of_dropSign ['-'] hc with
  | inl hsign => rw [List.mem_singleton.mp hsign]; decide
  | inr hrest =>
      cases mem_takeWhile_or_dropWhile isDigit hrest with
      | inl hdigit => exact isNumberChar_of_isDigit hdigit
      | inr hfraction => exact isNumberChar_of_isFraction h.2 c hfraction

theorem head_of_isNumberLiteral {text : Text}
    (h : isNumberLiteral text = true) :
    ∃ c rest, text = c :: rest ∧ (c = '-' ∨ isDigit c = true) := by
  simp only [isNumberLiteral, Bool.and_eq_true, decide_eq_true_eq] at h
  have hdigits := h.1.1
  cases text with
  | nil => exact absurd rfl hdigits
  | cons c rest =>
      refine ⟨c, rest, rfl, ?_⟩
      simp only [dropSign] at hdigits
      split at hdigits
      next hsign => exact Or.inl (List.mem_singleton.mp hsign)
      next =>
        right
        by_contra hc
        rw [List.takeWhile_cons_of_neg hc] at hdigits
        exact hdigits rfl

/-! ## Single steps of the parser -/

/-- What may follow a value: nothing that could belong to a number. -/
def EndsValue (rest : Text) : Prop :=
  ∀ c ∈ rest.head?, isNumberChar c = false

theorem expect_self {c : Char} (hc : isJsonSpace c = false) (rest : Text) :
    expect c (c :: rest) = some rest := by
  simp [expect, skipSpace, hc]

theorem expect_other {c d : Char} (hd : isJsonSpace d = false) (hne : d ≠ c)
    (rest : Text) : expect c (d :: rest) = none := by
  simp [expect, skipSpace, hd, hne]

variable {fmt : NumberFormat}

theorem parseValue_scalar {c : Char} (hspace : isJsonSpace c = false)
    (hbrace : c ≠ '{') (hbracket : c ≠ '[') (hquote : c ≠ '"') (fuel : Nat)
    (rest : Text) :
    parseValue fmt (fuel + 1) (c :: rest) = parseScalar fmt (c :: rest) := by
  rw [parseValue, expect_other hspace hbrace, expect_other hspace hbracket,
    expect_other hspace hquote]
  simp [skipSpace, hspace]

theorem parseValue_string (s : JsString) (fuel : Nat) (rest : Text) :
    parseValue fmt (fuel + 1) (quote s ++ rest) = some (.string s, rest) := by
  have hquote : isJsonSpace '"' = false := by decide
  rw [quote, List.append_assoc, List.cons_append, parseValue,
    expect_other hquote (by decide), expect_other hquote (by decide),
    expect_self hquote]
  simp [parseString_quoteUnits]

theorem parseScalar_number {n : fmt.Number} (hn : fmt.isFinite n = true)
    {rest : Text} (hrest : EndsValue rest) :
    parseScalar fmt (fmt.toText n ++ rest) = some (.number n, rest) := by
  have hliteral := fmt.isNumberLiteral_toText n hn
  have hchars := isNumberChar_of_isNumberLiteral hliteral
  obtain ⟨c, digits, htext, hhead⟩ := head_of_isNumberLiteral hliteral
  have htake : (fmt.toText n ++ rest).takeWhile isNumberChar =
      fmt.toText n := by
    rw [List.takeWhile_append_of_pos hchars]
    cases rest with
    | nil => simp
    | cons d rest =>
        rw [List.takeWhile_cons_of_neg (by simp [hrest d rfl]),
          List.append_nil]
  have hdrop : (fmt.toText n ++ rest).dropWhile isNumberChar = rest := by
    rw [List.dropWhile_append_of_pos hchars]
    cases rest with
    | nil => rfl
    | cons d rest => simp [hrest d rfl]
  have hletter (l : Char) (word : Text) (hl : isNumberChar l = false) :
      ¬ l :: word <+: fmt.toText n ++ rest := by
    intro hfront
    rw [htext, List.cons_append, List.cons_prefix_cons] at hfront
    have hc := hchars c (by simp [htext])
    rw [← hfront.1, hl] at hc
    exact Bool.noConfusion hc
  have hnull : ¬ "null".toList <+: fmt.toText n ++ rest :=
    hletter 'n' "ull".toList (by decide)
  have htrue : ¬ "true".toList <+: fmt.toText n ++ rest :=
    hletter 't' "rue".toList (by decide)
  have hfalse : ¬ "false".toList <+: fmt.toText n ++ rest :=
    hletter 'f' "alse".toList (by decide)
  rw [parseScalar, if_neg hnull, if_neg htrue, if_neg hfalse]
  simp only [htake, hliteral, if_true, hdrop, fmt.ofText_toText n hn]

theorem stringify_head (v : Json fmt.Number) :
    ∃ c rest, v.stringify fmt = c :: rest ∧ isJsonSpace c = false ∧
      c ≠ ']' := by
  cases v with
  | null => exact ⟨_, _, rfl, by decide, by decide⟩
  | bool b => cases b <;> exact ⟨_, _, rfl, by decide, by decide⟩
  | number n =>
      by_cases hn : fmt.isFinite n = true
      · obtain ⟨c, rest, htext, hhead⟩ :=
          head_of_isNumberLiteral (fmt.isNumberLiteral_toText n hn)
        refine ⟨c, rest, by rw [Json.stringify, if_pos hn, htext], ?_⟩
        have hc : isNumberChar c = true := by
          cases hhead with
          | inl hminus => rw [hminus]; decide
          | inr hdigit => exact isNumberChar_of_isDigit hdigit
        constructor
        · by_contra hspace
          rw [Bool.not_eq_false] at hspace
          simp only [isJsonSpace, Bool.or_eq_true, decide_eq_true_eq] at hspace
          rcases hspace with ((h | h) | h) | h
          all_goals
            rw [h] at hc
            exact absurd hc (by decide)
        · intro h
          rw [h] at hc
          exact absurd hc (by decide)
      · rw [Json.stringify, if_neg hn]
        exact ⟨_, _, rfl, by decide, by decide⟩
  | string s => exact ⟨_, _, rfl, by decide, by decide⟩
  | array vs => cases vs <;> exact ⟨_, _, rfl, by decide, by decide⟩
  | object ms => cases ms <;> exact ⟨_, _, rfl, by decide, by decide⟩

/-! ## Members -/

theorem setMember_of_not_mem {α : Type} {members : List (JsString × α)}
    {key : JsString} (h : key ∉ members.map Prod.fst) (value : α) :
    setMember members key value = members ++ [(key, value)] := by
  have hany : members.any (·.1 = key) = false := by
    rw [List.any_eq_false]
    intro member hmember
    simp only [decide_eq_true_eq]
    intro heq
    exact h (List.mem_map.mpr ⟨member, hmember, heq⟩)
  simp [setMember, hany]

theorem lastWins_of_nodup {α : Type} {members : List (JsString × α)}
    (h : (members.map Prod.fst).Nodup) : lastWins members = members := by
  have hfold : ∀ done : List (JsString × α),
      ((done ++ members).map Prod.fst).Nodup →
      members.foldl (fun done member => setMember done member.1 member.2)
        done = done ++ members := by
    induction members with
    | nil => simp
    | cons member members ih =>
        intro done hdone
        have hnew : member.1 ∉ done.map Prod.fst := by
          rw [List.map_append, List.nodup_append] at hdone
          intro hmem
          exact hdone.2.2 _ hmem member.1 (by simp) rfl
        rw [List.foldl_cons, setMember_of_not_mem hnew,
          ih (List.nodup_cons.mp h).2 _ (by simpa using hdone)]
        simp
  simpa [lastWins] using hfold [] (by simpa using h)

/-! ## The round trip -/

theorem endsValue_cons {c : Char} (h : isNumberChar c = false) (rest : Text) :
    EndsValue (c :: rest) := by
  intro d hd
  cases hd
  exact h

theorem endsValue_elements (vs : List (Json fmt.Number)) (rest : Text) :
    EndsValue (stringifyElements fmt vs ++ ']' :: rest) := by
  cases vs with
  | nil => exact endsValue_cons (by decide) _
  | cons v vs => exact endsValue_cons (c := ',') (by decide) _

theorem endsValue_members (ms : List (JsString × Json fmt.Number))
    (rest : Text) : EndsValue (stringifyMembers fmt ms ++ '}' :: rest) := by
  cases ms with
  | nil => exact endsValue_cons (by decide) _
  | cons m ms => exact endsValue_cons (c := ',') (by decide) _

theorem stringify_length_pos (v : Json fmt.Number) :
    1 ≤ (v.stringify fmt).length := by
  obtain ⟨c, rest, htext, _⟩ := stringify_head v
  simp [htext]

section RoundTrip

variable (fmt)

mutual

theorem parseValue_stringify : ∀ (v : Json fmt.Number) (fuel : Nat)
    (rest : Text), v.WellFormed fmt → 2 * (v.stringify fmt).length ≤ fuel →
    EndsValue rest →
    parseValue fmt fuel (v.stringify fmt ++ rest) = some (v, rest)
  | v, 0, rest, _, hfuel, _ => by
      have hpos := stringify_length_pos v
      omega
  | .null, fuel + 1, rest, _, _, _ => by
      rw [Json.stringify]
      exact parseValue_scalar (c := 'n') (by decide) (by decide) (by decide)
        (by decide) fuel _
  | .bool true, fuel + 1, rest, _, _, _ => by
      rw [Json.stringify]
      exact parseValue_scalar (c := 't') (by decide) (by decide) (by decide)
        (by decide) fuel _
  | .bool false, fuel + 1, rest, _, _, _ => by
      rw [Json.stringify]
      exact parseValue_scalar (c := 'f') (by decide) (by decide) (by decide)
        (by decide) fuel _
  | .number n, fuel + 1, rest, hn, _, hrest => by
      rw [Json.WellFormed] at hn
      have hliteral := fmt.isNumberLiteral_toText n hn
      have hchars := isNumberChar_of_isNumberLiteral hliteral
      obtain ⟨c, digits, htext, _⟩ := head_of_isNumberLiteral hliteral
      have hc : isNumberChar c = true := hchars c (by simp [htext])
      have hother {d : Char} (hd : isNumberChar d = false) : c ≠ d := by
        intro heq
        rw [← heq, hc] at hd
        exact Bool.noConfusion hd
      obtain ⟨c', rest', hhead, hspace, _⟩ :=
        stringify_head (Json.number n : Json fmt.Number)
      rw [Json.stringify, if_pos hn, htext, List.cons.injEq] at hhead
      rw [Json.stringify, if_pos hn, ← parseScalar_number hn hrest, htext,
        List.cons_append]
      exact parseValue_scalar (hhead.1 ▸ hspace) (hother (by decide))
        (hother (by decide)) (hother (by decide)) fuel _
  | .string s, fuel + 1, rest, _, _, _ => parseValue_string s fuel rest
  | .array [], fuel + 1, rest, _, _, _ => by
      simp [Json.stringify, parseValue, expect_other, expect_self, isJsonSpace]
  | .array (v :: vs), fuel + 1, rest, hwf, hfuel, _ => by
      have helements := parseElements_stringify v vs fuel rest hwf.1 hwf.2
        (by
          simp only [Json.stringify, List.length_append, List.length_cons,
            List.length_nil] at hfuel
          omega)
      have htext : (Json.array (v :: vs)).stringify fmt ++ rest =
          '[' :: (v.stringify fmt ++ stringifyElements fmt vs ++
            ']' :: rest) := by
        simp [Json.stringify]
      have hfirst : expect ']' (v.stringify fmt ++ stringifyElements fmt vs ++
          ']' :: rest) = none := by
        obtain ⟨c, rest', hhead, hspace, hne⟩ := stringify_head v
        rw [hhead]
        exact expect_other hspace hne _
      rw [htext, parseValue, expect_other (by decide) (by decide),
        expect_self (by decide)]
      simp only [hfirst, helements, Option.map_some]
  | .object [], fuel + 1, rest, _, _, _ => by
      simp [Json.stringify, parseValue, expect_self, isJsonSpace]
  | .object ((key, v) :: ms), fuel + 1, rest, hwf, hfuel, _ => by
      have hmembers := parseMembers_stringify key v ms fuel rest hwf.2.1
        hwf.2.2
        (by
          simp only [Json.stringify, List.length_append, List.length_cons,
            List.length_nil] at hfuel
          omega)
      have htext : (Json.object ((key, v) :: ms)).stringify fmt ++ rest =
          '{' :: (quote key ++ ':' :: v.stringify fmt ++
            stringifyMembers fmt ms ++ '}' :: rest) := by
        simp [Json.stringify]
      have hfirst : expect '}' (quote key ++ ':' :: v.stringify fmt ++
          stringifyMembers fmt ms ++ '}' :: rest) = none :=
        expect_other (d := '"') (by decide) (by decide) _
      rw [htext, parseValue, expect_self (by decide)]
      simp only [hfirst, hmembers, Option.map_some,
        lastWins_of_nodup hwf.1]

theorem parseElements_stringify : ∀ (v : Json fmt.Number)
    (vs : List (Json fmt.Number)) (fuel : Nat) (rest : Text),
    v.WellFormed fmt → WellFormedElements fmt vs →
    2 * ((v.stringify fmt).length + (stringifyElements fmt vs).length) + 1 ≤
      fuel →
    parseElements fmt fuel
        (v.stringify fmt ++ stringifyElements fmt vs ++ ']' :: rest) =
      some (v :: vs, rest)
  | v, vs, 0, rest, _, _, hfuel => by omega
  | v, [], fuel + 1, rest, hv, _, hfuel => by
      have hvalue := parseValue_stringify v fuel (']' :: rest) hv (by omega)
        (endsValue_cons (by decide) rest)
      rw [stringifyElements, List.append_nil, parseElements, hvalue]
      simp only [Option.bind_some]
      rw [expect_other (by decide) (by decide), expect_self (by decide)]
      rfl
  | v, w :: vs, fuel + 1, rest, hv, hvs, hfuel => by
      have hvalue := parseValue_stringify v fuel
        (stringifyElements fmt (w :: vs) ++ ']' :: rest) hv (by omega)
        (endsValue_elements (w :: vs) rest)
      have hmore := parseElements_stringify w vs fuel rest hvs.1 hvs.2
        (by
          simp only [stringifyElements, List.length_append,
            List.length_cons] at hfuel
          omega)
      have htext : stringifyElements fmt (w :: vs) ++ ']' :: rest =
          ',' :: (w.stringify fmt ++ stringifyElements fmt vs ++
            ']' :: rest) := by
        simp [stringifyElements]
      rw [List.append_assoc, parseElements, hvalue, htext]
      simp only [Option.bind_some]
      rw [expect_self (by decide)]
      simp only [hmore, Option.map_some]

theorem parseMembers_stringify : ∀ (key : JsString) (v : Json fmt.Number)
    (ms : List (JsString × Json fmt.Number)) (fuel : Nat) (rest : Text),
    v.WellFormed fmt → WellFormedMembers fmt ms →
    2 * ((quote key).length + (v.stringify fmt).length +
      (stringifyMembers fmt ms).length) + 1 ≤ fuel →
    parseMembers fmt fuel (quote key ++ ':' :: v.stringify fmt ++
        stringifyMembers fmt ms ++ '}' :: rest) =
      some ((key, v) :: ms, rest)
  | key, v, ms, 0, rest, _, _, hfuel => by omega
  | key, v, [], fuel + 1, rest, hv, _, hfuel => by
      have hvalue := parseValue_stringify v fuel ('}' :: rest) hv (by omega)
        (endsValue_cons (by decide) rest)
      have htext : quote key ++ ':' :: v.stringify fmt ++
          stringifyMembers fmt [] ++ '}' :: rest =
          '"' :: (quoteUnits key ++ '"' :: ':' ::
            (v.stringify fmt ++ '}' :: rest)) := by
        simp [quote, stringifyMembers]
      rw [htext, parseMembers, expect_self (by decide)]
      simp only [Option.bind_some, parseString_quoteUnits]
      rw [expect_self (by decide)]
      simp only [Option.bind_some, hvalue]
      rw [expect_other (by decide) (by decide), expect_self (by decide)]
      rfl
  | key, v, (key', w) :: ms, fuel + 1, rest, hv, hms, hfuel => by
      have hvalue := parseValue_stringify v fuel
        (stringifyMembers fmt ((key', w) :: ms) ++ '}' :: rest) hv (by omega)
        (endsValue_members ((key', w) :: ms) rest)
      have hmore := parseMembers_stringify key' w ms fuel rest hms.1 hms.2
        (by
          simp only [stringifyMembers, List.length_append,
            List.length_cons] at hfuel
          omega)
      have htext : quote key ++ ':' :: v.stringify fmt ++
          stringifyMembers fmt ((key', w) :: ms) ++ '}' :: rest =
          '"' :: (quoteUnits key ++ '"' :: ':' ::
            (v.stringify fmt ++
              (stringifyMembers fmt ((key', w) :: ms) ++ '}' :: rest))) := by
        simp [quote]
      have hrest : stringifyMembers fmt ((key', w) :: ms) ++ '}' :: rest =
          ',' :: (quote key' ++ ':' :: w.stringify fmt ++
            stringifyMembers fmt ms ++ '}' :: rest) := by
        simp [stringifyMembers]
      rw [htext, parseMembers, expect_self (by decide)]
      simp only [Option.bind_some, parseString_quoteUnits]
      rw [expect_self (by decide)]
      simp only [Option.bind_some, hvalue]
      rw [hrest, expect_self (by decide)]
      simp only [hmore, Option.map_some]

end

/-- `JSON.parse` undoes `JSON.stringify`. -/
theorem parse_stringify (v : Json fmt.Number) (h : v.WellFormed fmt) :
    Json.parse fmt (v.stringify fmt) = some v := by
  have hvalue := parseValue_stringify fmt v
    (2 * (v.stringify fmt).length + 1) [] h (by omega)
    (by intro c hc; cases hc)
  rw [List.append_nil] at hvalue
  rw [Json.parse, hvalue]
  rfl

end RoundTrip

end IreBlockchain.Foundation
