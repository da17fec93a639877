import IreBlockchain.Foundation.JsonTexts

/-!
# White space around a text

White space before and behind a text makes no difference to the parser, and its
fuel is never what makes it fail.
-/

namespace IreBlockchain.Foundation

/-! ## Lists with a tail that has other elements -/

theorem dropWhile_append_tail {p : Char → Bool} {gap : Text}
    (h : ∀ c ∈ gap, p c = false) (text : Text) :
    (text ++ gap).takeWhile p = text.takeWhile p ∧
      (text ++ gap).dropWhile p = text.dropWhile p ++ gap := by
  induction text with
  | nil =>
      cases gap with
      | nil => exact ⟨rfl, rfl⟩
      | cons c gap =>
          have hc := h c List.mem_cons_self
          exact ⟨List.takeWhile_cons_of_neg (by simp [hc]),
            List.dropWhile_cons_of_neg (by simp [hc])⟩
  | cons c text ih =>
      cases hc : p c with
      | true =>
          rw [List.cons_append, List.takeWhile_cons_of_pos hc,
            List.takeWhile_cons_of_pos hc, List.dropWhile_cons_of_pos hc,
            List.dropWhile_cons_of_pos hc, ih.1]
          exact ⟨rfl, ih.2⟩
      | false =>
          have hneg : ¬ p c = true := by simp [hc]
          rw [List.cons_append, List.takeWhile_cons_of_neg hneg,
            List.takeWhile_cons_of_neg hneg, List.dropWhile_cons_of_neg hneg,
            List.dropWhile_cons_of_neg hneg]
          exact ⟨rfl, rfl⟩

theorem prefix_append_tail {p : Char → Bool} {gap word : Text}
    (hgap : ∀ c ∈ gap, p c = true) (hword : ∀ c ∈ word, p c = false)
    {text : Text} : word <+: text ++ gap ↔ word <+: text := by
  refine ⟨?_, fun h => h.trans (List.prefix_append _ _)⟩
  intro h
  induction text generalizing word with
  | nil =>
      cases word with
      | nil => exact List.nil_prefix
      | cons c word =>
          have hmem : c ∈ gap := h.mem List.mem_cons_self
          have hspace := hgap c hmem
          rw [hword c List.mem_cons_self] at hspace
          cases hspace
  | cons d text ih =>
      cases word with
      | nil => exact List.nil_prefix
      | cons c word =>
          obtain ⟨rfl, hrest⟩ := List.cons_prefix_cons.mp h
          have htail : ∀ b ∈ word, p b = false := by
            intro b hb
            exact hword b (List.mem_cons_of_mem c hb)
          exact List.cons_prefix_cons.mpr ⟨rfl, ih htail hrest⟩

/-! ## Single steps of the parser -/

section Steps

variable {gap : Text} (hgap : ∀ c ∈ gap, isJsonSpace c = true)

include hgap

theorem skipSpace_append (text : Text) :
    skipSpace (text ++ gap) =
      if skipSpace text = [] then [] else skipSpace text ++ gap := by
  have hskip : skipSpace gap = [] := List.dropWhile_eq_nil_iff.mpr hgap
  rw [skipSpace, List.dropWhile_append, ← skipSpace, ← skipSpace, hskip]
  simp only [List.isEmpty_iff]

theorem expect_append (c : Char) (text : Text) :
    expect c (text ++ gap) = (expect c text).map (· ++ gap) := by
  rw [expect, expect, skipSpace_append hgap]
  cases skipSpace text with
  | nil => rfl
  | cons d rest =>
      rw [if_neg (List.cons_ne_nil d rest), List.cons_append]
      dsimp only
      split <;> rfl

theorem isNumberChar_of_mem_gap {c : Char} (hc : c ∈ gap) :
    isNumberChar c = false := by
  have hspace := hgap c hc
  simp only [isJsonSpace, Bool.or_eq_true, decide_eq_true_eq] at hspace
  rcases hspace with ((rfl | rfl) | rfl) | rfl
  all_goals decide

omit hgap in
theorem parseScalar_nil {fmt : NumberFormat} : parseScalar fmt [] = none := by
  have hempty : isNumberLiteral [] = false := by decide
  simp [parseScalar, hempty]

def withBehind {α : Type} (gap : Text) : α × Text → α × Text
  | (a, rest) => (a, rest ++ gap)

theorem parseScalar_append {fmt : NumberFormat} (text : Text) :
    parseScalar fmt (text ++ gap) =
      (parseScalar fmt text).map (withBehind gap) := by
  have hnullWord : "null".toList <+: text ++ gap ↔ "null".toList <+: text :=
    prefix_append_tail hgap (List.all_iff_forall_prop.mp (by decide))
  have htrueWord : "true".toList <+: text ++ gap ↔ "true".toList <+: text :=
    prefix_append_tail hgap (List.all_iff_forall_prop.mp (by decide))
  have hfalseWord :
      "false".toList <+: text ++ gap ↔ "false".toList <+: text :=
    prefix_append_tail hgap (List.all_iff_forall_prop.mp (by decide))
  have hdrop {word : Text} (n : Nat) (hfront : word <+: text)
      (hn : word.length = n) : (text ++ gap).drop n = text.drop n ++ gap :=
    List.drop_append_of_le_length (hn ▸ hfront.length_le)
  obtain ⟨htake, hrest⟩ := dropWhile_append_tail
    (fun c => isNumberChar_of_mem_gap hgap) text
  simp only [parseScalar, hnullWord, htrueWord, hfalseWord, htake, hrest]
  by_cases hnull : "null".toList <+: text
  · rw [if_pos hnull, if_pos hnull, hdrop 4 hnull rfl]
    rfl
  by_cases htrue : "true".toList <+: text
  · rw [if_neg hnull, if_neg hnull, if_pos htrue, if_pos htrue,
      hdrop 4 htrue rfl]
    rfl
  by_cases hfalse : "false".toList <+: text
  · rw [if_neg hnull, if_neg hnull, if_neg htrue, if_neg htrue, if_pos hfalse,
      if_pos hfalse, hdrop 5 hfalse rfl]
    rfl
  · rw [if_neg hnull, if_neg hnull, if_neg htrue, if_neg htrue, if_neg hfalse,
      if_neg hfalse]
    split <;> rfl

theorem ordinary_of_mem_gap {c : Char} (hc : c ∈ gap) :
    c ≠ '"' ∧ c ≠ 'u' ∧ readEscape c = none ∧ hexValue c = none := by
  have hspace := hgap c hc
  simp only [isJsonSpace, Bool.or_eq_true, decide_eq_true_eq] at hspace
  rcases hspace with ((rfl | rfl) | rfl) | rfl
  all_goals decide

theorem parseString_gap : parseString gap = none := by
  induction gap with
  | nil => rfl
  | cons c gap ih =>
      obtain ⟨hquote, -, -, -⟩ := ordinary_of_mem_gap hgap List.mem_cons_self
      have hslash : c ≠ '\\' := by
        rintro rfl
        exact absurd (hgap _ List.mem_cons_self) (by decide)
      have hrest := ih fun d hd => hgap d (List.mem_cons_of_mem c hd)
      rw [parseString.eq_def]
      simp [hquote, hslash, hrest]

theorem readHex_eq_none {x y z w : Char} (hw : w ∈ gap) :
    readHex x y z w = none := by
  obtain ⟨-, -, -, hhex⟩ := ordinary_of_mem_gap hgap hw
  rw [readHex]
  cases hexValue x <;> cases hexValue y <;> cases hexValue z <;> simp [hhex]

omit hgap in
theorem fourth_mem_gap {text rest : Text} {x y z w : Char}
    (hshort : ∀ a b c d tail, text = a :: b :: c :: d :: tail → False)
    (h : text ++ gap = x :: y :: z :: w :: rest) : w ∈ gap := by
  rcases text with _ | ⟨a, _ | ⟨b, _ | ⟨c, _ | ⟨d, tail⟩⟩⟩⟩
  all_goals simp only [List.nil_append, List.cons_append, List.cons.injEq] at h
  · simp [h]
  · simp [h]
  · simp [h]
  · simp [h]
  · exact absurd rfl (hshort a b c d tail)

omit hgap in
theorem map_prepend (units : JsString) (x : Option (JsString × Text)) :
    (x.map (withBehind gap)).map (prepend units) =
      (x.map (prepend units)).map (withBehind gap) := by
  cases x <;> rfl

theorem parseString_append (text : Text) :
    parseString (text ++ gap) = (parseString text).map (withBehind gap) := by
  fun_induction parseString text with
  | case1 => exact parseString_gap hgap
  | case2 text => exact parseString_close _
  | case3 =>
      cases gap with
      | nil => rfl
      | cons c gap =>
          obtain ⟨-, hu, hescape, -⟩ :=
            ordinary_of_mem_gap hgap (List.mem_cons_self (a := c))
          rw [List.singleton_append, parseString.eq_def]
          simp [hu, hescape]
  | case4 x y z w text _ ih =>
      simp only [List.cons_append]
      rw [parseString.eq_def]
      simp only [ih, map_prepend]
      cases readHex x y z w <;> simp
  | case5 text hshort =>
      simp only [List.cons_append]
      rw [parseString.eq_def]
      simp only [if_true]
      rw [if_neg (by decide)]
      split
      next x y z w rest heq =>
        have hw : w ∈ gap := fourth_mem_gap hshort heq
        rw [readHex_eq_none hgap hw]
        rfl
      next => rfl
  | case6 e text he _ ih =>
      simp only [List.cons_append]
      rw [parseString.eq_def]
      simp only [ih, map_prepend, he]
      cases readEscape e <;> simp
  | case7 c text hquote hslash hcontrol =>
      rw [List.cons_append, parseString.eq_def]
      simp [hquote, hslash, hcontrol]
  | case8 c text hquote hslash hcontrol ih =>
      rw [List.cons_append, parseString_char hquote hslash (by omega), ih,
        map_prepend]

end Steps

/-! ## The parser -/

section Parser

variable {fmt : NumberFormat} {gap : Text}

/-- The three functions of the parser, by the fuel they share. -/
theorem parser_append (hgap : ∀ c ∈ gap, isJsonSpace c = true) (fuel : Nat) :
    (∀ text, parseValue fmt fuel (text ++ gap) =
      (parseValue fmt fuel text).map (withBehind gap)) ∧
    (∀ text, parseElements fmt fuel (text ++ gap) =
      (parseElements fmt fuel text).map (withBehind gap)) ∧
    ∀ text, parseMembers fmt fuel (text ++ gap) =
      (parseMembers fmt fuel text).map (withBehind gap) := by
  induction fuel with
  | zero => simp [parseValue, parseElements, parseMembers]
  | succ fuel ih =>
      obtain ⟨hvalue, helements, hmembers⟩ := ih
      refine ⟨?_, ?_, ?_⟩
      · intro text
        rw [parseValue, parseValue]
        simp only [expect_append hgap]
        cases expect '{' text with
        | some rest =>
            simp only [Option.map_some, expect_append hgap]
            cases expect '}' rest with
            | some rest => rfl
            | none =>
                simp only [Option.map_none, hmembers]
                cases parseMembers fmt fuel rest <;> rfl
        | none =>
            cases expect '[' text with
            | some rest =>
                simp only [Option.map_some, Option.map_none, expect_append hgap]
                cases expect ']' rest with
                | some rest => rfl
                | none =>
                    simp only [Option.map_none, helements]
                    cases parseElements fmt fuel rest <;> rfl
            | none =>
                cases expect '"' text with
                | some rest =>
                    simp only [Option.map_some, Option.map_none,
                      parseString_append hgap]
                    cases parseString rest <;> rfl
                | none =>
                    simp only [Option.map_none, skipSpace_append hgap]
                    split
                    next hnil => simp [hnil, parseScalar_nil]
                    next hne => exact parseScalar_append hgap _
      · intro text
        rw [parseElements, parseElements, hvalue]
        cases parseValue fmt fuel text with
        | none => rfl
        | some read =>
            obtain ⟨v, rest⟩ := read
            simp only [Option.map_some, Option.bind_some, withBehind,
              expect_append hgap]
            cases expect ',' rest with
            | some rest =>
                simp only [Option.map_some, helements]
                cases parseElements fmt fuel rest <;> rfl
            | none => cases expect ']' rest <;> rfl
      · intro text
        rw [parseMembers, parseMembers, expect_append hgap]
        cases expect '"' text with
        | none => rfl
        | some rest =>
            simp only [Option.map_some, Option.bind_some,
              parseString_append hgap]
            cases parseString rest with
            | none => rfl
            | some read =>
                obtain ⟨key, rest⟩ := read
                simp only [Option.map_some, Option.bind_some, withBehind,
                  expect_append hgap]
                cases expect ':' rest with
                | none => rfl
                | some rest =>
                    simp only [Option.map_some, Option.bind_some, hvalue]
                    cases parseValue fmt fuel rest with
                    | none => rfl
                    | some read =>
                        obtain ⟨v, rest⟩ := read
                        simp only [Option.map_some, Option.bind_some,
                          withBehind, expect_append hgap]
                        cases expect ',' rest with
                        | some rest =>
                            simp only [Option.map_some, hmembers]
                            cases parseMembers fmt fuel rest <;> rfl
                        | none => cases expect '}' rest <;> rfl

/-! ## How much fuel is enough -/

theorem expect_shortens {c : Char} {text rest : Text}
    (h : expect c text = some rest) : rest.length < text.length := by
  obtain ⟨w, rfl, -⟩ := expect_eq_some h
  simp
  omega

theorem parseString_shortens {text rest : Text} {s : JsString}
    (h : parseString text = some (s, rest)) : rest.length ≤ text.length := by
  obtain ⟨body, rfl⟩ := parseString_eq_some h
  simp

theorem parseScalar_shortens {text rest : Text} {v : Json fmt.Number}
    (h : parseScalar fmt text = some (v, rest)) :
    rest.length < text.length := by
  have hword {word : Text} (n : Nat) (hfront : word <+: text)
      (hn : word.length = n) (hpos : 0 < n) :
      (text.drop n).length < text.length := by
    have := hfront.length_le
    rw [List.length_drop]
    omega
  rw [parseScalar] at h
  split at h
  next hfront =>
    cases h
    exact hword 4 hfront rfl (by decide)
  split at h
  next hfront =>
    cases h
    exact hword 4 hfront rfl (by decide)
  split at h
  next hfront =>
    cases h
    exact hword 5 hfront rfl (by decide)
  next =>
    dsimp only at h
    split at h
    next hliteral =>
      cases h
      have hpos : 0 < (text.takeWhile isNumberChar).length := by
        rw [List.length_pos_iff]
        intro hnil
        rw [hnil] at hliteral
        exact absurd hliteral (by decide)
      have hsum := congrArg List.length
        (List.takeWhile_append_dropWhile (p := isNumberChar) (l := text))
      rw [List.length_append] at hsum
      omega
    next => cases h

theorem textClosed_true : TextClosed fun _ => True :=
  ⟨trivial, fun _ _ => trivial, fun _ _ _ => trivial, fun _ => trivial,
    fun _ => trivial⟩

theorem parseElements_shortens {fuel : Nat} {text rest : Text}
    {vs : List (Json fmt.Number)}
    (h : parseElements fmt fuel text = some (vs, rest)) :
    rest.length < text.length := by
  obtain ⟨w, rfl, -⟩ := (parser_consumes textClosed_true fuel).2.1 _ _ _ h
  simp
  omega

theorem parseMembers_shortens {fuel : Nat} {text rest : Text}
    {ms : List (JsString × Json fmt.Number)}
    (h : parseMembers fmt fuel text = some (ms, rest)) :
    rest.length < text.length := by
  obtain ⟨w, rfl, -⟩ := (parser_consumes textClosed_true fuel).2.2 _ _ _ h
  simp
  omega

theorem ReadsValue.shortens {fuel : Nat} {text rest : Text}
    {v : Json fmt.Number} (h : ReadsValue fmt fuel text v rest) :
    rest.length < text.length := by
  cases h with
  | emptyObject hopen hclose =>
      exact (expect_shortens hclose).trans (expect_shortens hopen)
  | object hopen _ hms =>
      exact (parseMembers_shortens hms).trans (expect_shortens hopen)
  | emptyArray _ hopen hclose =>
      exact (expect_shortens hclose).trans (expect_shortens hopen)
  | array _ hopen _ hvs =>
      exact (parseElements_shortens hvs).trans (expect_shortens hopen)
  | string _ _ hopen hs =>
      exact (parseString_shortens hs).trans_lt (expect_shortens hopen)
  | scalar _ _ _ hscalar =>
      have hskip : (skipSpace text).length ≤ text.length :=
        (List.dropWhile_suffix _).length_le
      exact (parseScalar_shortens hscalar).trans_le hskip

theorem parseValue_shortens {fuel : Nat} {text rest : Text}
    {v : Json fmt.Number} (h : parseValue fmt fuel text = some (v, rest)) :
    rest.length < text.length := by
  cases fuel with
  | zero => cases h
  | succ fuel => exact (parseValue_eq_some_iff.mp h).shortens

/-- Two units for each character that is read are enough. -/
theorem parser_fuel (fuel : Nat) :
    (∀ (enough : Nat) (text : Text) (v : Json fmt.Number) (rest : Text),
      2 * text.length ≤ enough + 2 * rest.length →
      parseValue fmt fuel text = some (v, rest) →
      parseValue fmt enough text = some (v, rest)) ∧
    (∀ (enough : Nat) (text : Text) (vs : List (Json fmt.Number)) (rest : Text),
      2 * text.length ≤ enough + 2 * rest.length →
      parseElements fmt fuel text = some (vs, rest) →
      parseElements fmt enough text = some (vs, rest)) ∧
    ∀ (enough : Nat) (text : Text) (ms : List (JsString × Json fmt.Number))
      (rest : Text), 2 * text.length ≤ enough + 2 * rest.length →
      parseMembers fmt fuel text = some (ms, rest) →
      parseMembers fmt enough text = some (ms, rest) := by
  induction fuel with
  | zero => simp [parseValue, parseElements, parseMembers]
  | succ fuel ih =>
      obtain ⟨hvalue, helements, hmembers⟩ := ih
      have hmember (enough : Nat) {text rest : Text} {key : JsString}
          {v : Json fmt.Number}
          (henough : 2 * text.length ≤ enough + 2 * rest.length)
          (hreads : ReadsMember fmt fuel text key v rest) :
          ReadsMember fmt enough text key v rest ∧
            rest.length < text.length := by
        obtain ⟨hquote, hkey, hcolon, hv⟩ := hreads
        have hopen := expect_shortens hquote
        have hname := parseString_shortens hkey
        have hbehind := expect_shortens hcolon
        have hmore := hvalue enough _ _ _ (by omega) hv
        have hshort := parseValue_shortens hv
        exact ⟨⟨hquote, hkey, hcolon, hmore⟩, by omega⟩
      refine ⟨?_, ?_, ?_⟩
      · intro enough text v rest henough hparse
        have hshort := parseValue_shortens hparse
        obtain ⟨enough, rfl⟩ : ∃ n, enough = n + 1 := ⟨enough - 1, by omega⟩
        rw [parseValue_eq_some_iff] at hparse ⊢
        cases hparse with
        | emptyObject hopen hclose => exact .emptyObject hopen hclose
        | object hopen hclose hms =>
            have := expect_shortens hopen
            exact .object hopen hclose (hmembers _ _ _ _ (by omega) hms)
        | emptyArray hbrace hopen hclose =>
            exact .emptyArray hbrace hopen hclose
        | array hbrace hopen hclose hvs =>
            have := expect_shortens hopen
            exact .array hbrace hopen hclose (helements _ _ _ _ (by omega) hvs)
        | string hbrace hbracket hopen hs =>
            exact .string hbrace hbracket hopen hs
        | scalar hbrace hbracket hquote hscalar =>
            exact .scalar hbrace hbracket hquote hscalar
      · intro enough text vs rest henough hparse
        have hshort := parseElements_shortens hparse
        obtain ⟨enough, rfl⟩ : ∃ n, enough = n + 1 := ⟨enough - 1, by omega⟩
        rw [parseElements_eq_some_iff] at hparse ⊢
        cases hparse with
        | last hv hcomma hclose =>
            have := expect_shortens hclose
            exact .last (hvalue _ _ _ _ (by omega) hv) hcomma hclose
        | more hv hcomma hvs =>
            have := expect_shortens hcomma
            have := parseElements_shortens hvs
            have := parseValue_shortens hv
            exact .more (hvalue _ _ _ _ (by omega) hv) hcomma
              (helements _ _ _ _ (by omega) hvs)
      · intro enough text ms rest henough hparse
        have hshort := parseMembers_shortens hparse
        obtain ⟨enough, rfl⟩ : ∃ n, enough = n + 1 := ⟨enough - 1, by omega⟩
        rw [parseMembers_eq_some_iff] at hparse ⊢
        cases hparse with
        | last hreads hcomma hclose =>
            have := expect_shortens hclose
            exact .last (hmember _ (by omega) hreads).1 hcomma hclose
        | more hreads hcomma hms =>
            have := expect_shortens hcomma
            have := parseMembers_shortens hms
            obtain ⟨hmore, hlong⟩ := hmember enough (by omega) hreads
            exact .more hmore hcomma (hmembers _ _ _ _ (by omega) hms)

theorem parse_eq_some_iff {text : Text} {v : Json fmt.Number} :
    Json.parse fmt text = some v ↔ ∃ fuel rest,
      parseValue fmt fuel text = some (v, rest) ∧ skipSpace rest = [] := by
  constructor
  · intro h
    rw [Json.parse] at h
    obtain ⟨⟨v', rest⟩, hvalue, hend⟩ := Option.bind_eq_some_iff.mp h
    dsimp only at hend
    split at hend
    next hskip =>
      cases hend
      exact ⟨_, rest, hvalue, hskip⟩
    next => cases hend
  · rintro ⟨fuel, rest, hvalue, hskip⟩
    have henough := (parser_fuel fuel).1 (2 * text.length + 1) _ _ _ (by omega)
      hvalue
    rw [Json.parse, henough, Option.bind_some]
    exact if_pos hskip

/-! ## White space around a text -/

theorem skipSpace_spaces {gap : Text} (hgap : ∀ c ∈ gap, isJsonSpace c = true)
    (text : Text) : skipSpace (gap ++ text) = skipSpace text :=
  List.dropWhile_append_of_pos hgap

theorem parseValue_spaces {gap : Text} (hgap : ∀ c ∈ gap, isJsonSpace c = true)
    (fuel : Nat) (text : Text) :
    parseValue fmt fuel (gap ++ text) = parseValue fmt fuel text := by
  have hexpect (c : Char) : expect c (gap ++ text) = expect c text := by
    rw [expect, expect, skipSpace_spaces hgap]
  cases fuel with
  | zero => rfl
  | succ fuel =>
      rw [parseValue, parseValue, hexpect, hexpect, hexpect,
        skipSpace_spaces hgap]

theorem parse_spaces (fmt : NumberFormat) {gap gap' : Text}
    (hgap : ∀ c ∈ gap, isJsonSpace c = true)
    (hgap' : ∀ c ∈ gap', isJsonSpace c = true) (text : Text) :
    Json.parse fmt (gap ++ (text ++ gap')) = Json.parse fmt text := by
  apply Option.ext
  intro v
  simp only [parse_eq_some_iff, parseValue_spaces hgap,
    (parser_append hgap' _).1, Option.map_eq_some_iff]
  constructor
  · rintro ⟨fuel, _, ⟨⟨v', rest⟩, hvalue, heq⟩, hskip⟩
    cases heq
    refine ⟨fuel, rest, hvalue, ?_⟩
    rw [skipSpace_append hgap'] at hskip
    split at hskip
    next hnil => exact hnil
    next => exact (List.append_eq_nil_iff.mp hskip).1
  · rintro ⟨fuel, rest, hvalue, hskip⟩
    refine ⟨fuel, rest ++ gap', ⟨(v, rest), hvalue, rfl⟩, ?_⟩
    rw [skipSpace_append hgap', if_pos hskip]

theorem parse_append {text : Text} {v : Json fmt.Number}
    (h : Json.parse fmt text = some v)
    (hgap : ∀ c ∈ gap, isJsonSpace c = true) :
    Json.parse fmt (text ++ gap) = some v := by
  have hnone : ∀ c ∈ ([] : Text), isJsonSpace c = true := by simp
  exact (parse_spaces fmt hnone hgap text).trans h

end Parser

end IreBlockchain.Foundation
