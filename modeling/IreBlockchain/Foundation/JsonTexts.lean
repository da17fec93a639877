import IreBlockchain.Foundation.JsonSteps

/-!
# What the texts of values are made of

A property of texts that is closed under the ways in which the grammar puts a
text together holds of whatever the parser consumes.
-/

namespace IreBlockchain.Foundation

/-- Closed under the constructions of the grammar. -/
structure TextClosed (T : Text → Prop) : Prop where
  nil : T []
  append : ∀ {l m : Text}, T l → T m → T (l ++ m)
  char : ∀ {c : Char}, c ≠ '"' → c ≠ '{' → c ≠ '}' → T [c]
  string : ∀ {body rest : Text} {s : JsString},
    parseString (body ++ rest) = some (s, rest) → T ('"' :: body)
  braces : ∀ {l : Text}, T l → T ('{' :: (l ++ ['}']))

namespace TextClosed

variable {T : Text → Prop} (h : TextClosed T)

include h

theorem chars {text : Text}
    (htext : ∀ c ∈ text, c ≠ '"' ∧ c ≠ '{' ∧ c ≠ '}') : T text := by
  induction text with
  | nil => exact h.nil
  | cons c rest ih =>
      obtain ⟨hquote, hopen, hclose⟩ := htext c List.mem_cons_self
      apply h.append (h.char hquote hopen hclose)
      apply ih
      intro d hd
      exact htext d (List.mem_cons_of_mem c hd)

theorem spaces {text : Text} (htext : ∀ c ∈ text, isJsonSpace c = true) :
    T text := by
  apply h.chars
  intro c hc
  have hspace := htext c hc
  simp only [isJsonSpace, Bool.or_eq_true, decide_eq_true_eq] at hspace
  rcases hspace with ((rfl | rfl) | rfl) | rfl
  all_goals exact ⟨by decide, by decide, by decide⟩

theorem cons {c : Char} {text : Text} (hquote : c ≠ '"') (hopen : c ≠ '{')
    (hclose : c ≠ '}') (htext : T text) : T (c :: text) :=
  h.append (h.char hquote hopen hclose) htext

theorem brackets {text : Text} (htext : T text) :
    T ('[' :: (text ++ [']'])) :=
  h.cons (by decide) (by decide) (by decide)
    (h.append htext (h.char (by decide) (by decide) (by decide)))

theorem comma {gap text : Text} (hgap : T gap) (htext : T text) :
    T (gap ++ ',' :: text) :=
  h.append hgap (h.cons (by decide) (by decide) (by decide) htext)

end TextClosed

/-! ## What each function of the parser consumes -/

theorem expect_eq_some {c : Char} {text rest : Text}
    (h : expect c text = some rest) :
    ∃ w, text = w ++ c :: rest ∧ ∀ d ∈ w, isJsonSpace d = true := by
  refine ⟨text.takeWhile isJsonSpace, ?_, fun d => List.mem_takeWhile_imp⟩
  simp only [expect, skipSpace] at h
  split at h
  next => exact absurd h (by simp)
  next d rest' hdrop =>
    split at h
    next heq =>
      cases h
      rw [← heq, ← hdrop, List.takeWhile_append_dropWhile]
    next => exact absurd h (by simp)

theorem parseString_eq_some {text rest : Text} {s : JsString}
    (h : parseString text = some (s, rest)) : ∃ body, text = body ++ rest := by
  fun_induction parseString text generalizing s with
  | case1 => exact absurd h (by simp)
  | case2 text => cases h; exact ⟨['"'], rfl⟩
  | case3 => exact absurd h (by simp)
  | case4 x y z w text _ ih =>
      obtain ⟨u, _, hrest⟩ := Option.bind_eq_some_iff.mp h
      obtain ⟨⟨s', rest'⟩, hrest, heq⟩ := Option.map_eq_some_iff.mp hrest
      cases heq
      obtain ⟨body, rfl⟩ := ih hrest
      exact ⟨'\\' :: 'u' :: x :: y :: z :: w :: body, rfl⟩
  | case5 => exact absurd h (by simp)
  | case6 e text _ _ ih =>
      obtain ⟨u, _, hrest⟩ := Option.bind_eq_some_iff.mp h
      obtain ⟨⟨s', rest'⟩, hrest, heq⟩ := Option.map_eq_some_iff.mp hrest
      cases heq
      obtain ⟨body, rfl⟩ := ih hrest
      exact ⟨'\\' :: e :: body, rfl⟩
  | case7 => exact absurd h (by simp)
  | case8 c text _ _ _ ih =>
      obtain ⟨⟨s', rest'⟩, hrest, heq⟩ := Option.map_eq_some_iff.mp h
      cases heq
      obtain ⟨body, rfl⟩ := ih hrest
      exact ⟨c :: body, rfl⟩

variable {fmt : NumberFormat} {T : Text → Prop}

theorem parseScalar_consumes (h : TextClosed T) {text rest : Text}
    {v : Json fmt.Number} (hparse : parseScalar fmt text = some (v, rest)) :
    ∃ w, text = w ++ rest ∧ T w := by
  have hword {word : Text} (n : Nat) (hfront : word <+: text)
      (hn : word.length = n)
      (hchars : word.all (fun c => c ≠ '"' ∧ c ≠ '{' ∧ c ≠ '}') = true) :
      ∃ w, text = w ++ text.drop n ∧ T w := by
    obtain ⟨tail, htail⟩ := hfront
    refine ⟨word, ?_, h.chars ?_⟩
    · rw [← htail, ← hn, List.drop_left]
    · intro c hc
      exact of_decide_eq_true (List.all_eq_true.mp hchars c hc)
  rw [parseScalar] at hparse
  split at hparse
  next hfront =>
    cases hparse
    exact hword 4 hfront rfl (by decide)
  split at hparse
  next hfront =>
    cases hparse
    exact hword 4 hfront rfl (by decide)
  split at hparse
  next hfront =>
    cases hparse
    exact hword 5 hfront rfl (by decide)
  next =>
    simp only [] at hparse
    split at hparse
    next =>
      cases hparse
      refine ⟨_, (List.takeWhile_append_dropWhile).symm, ?_⟩
      apply h.chars
      intro c hc
      have hnumber := List.mem_takeWhile_imp hc
      refine ⟨?_, ?_, ?_⟩
      all_goals
        intro heq
        rw [heq] at hnumber
        exact absurd hnumber (by decide)
    next => exact absurd hparse (by simp)

theorem parser_consumes (h : TextClosed T) (fuel : Nat) :
    (∀ (text : Text) (v : Json fmt.Number) (rest : Text),
      parseValue fmt fuel text = some (v, rest) →
      ∃ w, text = w ++ rest ∧ T w) ∧
    (∀ (text : Text) (vs : List (Json fmt.Number)) (rest : Text),
      parseElements fmt fuel text = some (vs, rest) →
      ∃ w, text = w ++ ']' :: rest ∧ T w) ∧
    ∀ (text : Text) (ms : List (JsString × Json fmt.Number)) (rest : Text),
      parseMembers fmt fuel text = some (ms, rest) →
      ∃ w, text = w ++ '}' :: rest ∧ T w := by
  induction fuel with
  | zero => simp [parseValue, parseElements, parseMembers]
  | succ fuel ih =>
      obtain ⟨hvalue, helements, hmembers⟩ := ih
      have hmember {text rest : Text} {key : JsString} {v : Json fmt.Number}
          (hreads : ReadsMember fmt fuel text key v rest) :
          ∃ w, text = w ++ rest ∧ T w := by
        obtain ⟨hquote, hkey, hcolon, hv⟩ := hreads
        obtain ⟨gap, rfl, hgap⟩ := expect_eq_some hquote
        obtain ⟨body, rfl⟩ := parseString_eq_some hkey
        obtain ⟨gap', rfl, hgap'⟩ := expect_eq_some hcolon
        obtain ⟨w, rfl, hw⟩ := hvalue _ _ _ hv
        refine ⟨gap ++ ('"' :: body ++ (gap' ++ ':' :: w)), by simp, ?_⟩
        apply h.append (h.spaces hgap)
        apply h.append (h.string hkey)
        apply h.append (h.spaces hgap')
        exact h.cons (by decide) (by decide) (by decide) hw
      refine ⟨?_, ?_, ?_⟩
      · intro text v rest hparse
        cases parseValue_eq_some_iff.mp hparse with
        | emptyObject hopen hclose =>
            obtain ⟨gap, rfl, hgap⟩ := expect_eq_some hopen
            obtain ⟨gap', rfl, hgap'⟩ := expect_eq_some hclose
            exact ⟨gap ++ '{' :: (gap' ++ ['}']), by simp,
              h.append (h.spaces hgap) (h.braces (h.spaces hgap'))⟩
        | object hopen _ hms =>
            obtain ⟨gap, rfl, hgap⟩ := expect_eq_some hopen
            obtain ⟨w, rfl, hw⟩ := hmembers _ _ _ hms
            exact ⟨gap ++ '{' :: (w ++ ['}']), by simp,
              h.append (h.spaces hgap) (h.braces hw)⟩
        | emptyArray _ hopen hclose =>
            obtain ⟨gap, rfl, hgap⟩ := expect_eq_some hopen
            obtain ⟨gap', rfl, hgap'⟩ := expect_eq_some hclose
            exact ⟨gap ++ '[' :: (gap' ++ [']']), by simp,
              h.append (h.spaces hgap) (h.brackets (h.spaces hgap'))⟩
        | array _ hopen _ hvs =>
            obtain ⟨gap, rfl, hgap⟩ := expect_eq_some hopen
            obtain ⟨w, rfl, hw⟩ := helements _ _ _ hvs
            exact ⟨gap ++ '[' :: (w ++ [']']), by simp,
              h.append (h.spaces hgap) (h.brackets hw)⟩
        | string _ _ hopen hs =>
            obtain ⟨gap, rfl, hgap⟩ := expect_eq_some hopen
            obtain ⟨body, rfl⟩ := parseString_eq_some hs
            exact ⟨gap ++ '"' :: body, by simp,
              h.append (h.spaces hgap) (h.string hs)⟩
        | scalar _ _ _ hscalar =>
            obtain ⟨w, hskip, hw⟩ := parseScalar_consumes h hscalar
            refine ⟨text.takeWhile isJsonSpace ++ w, ?_, ?_⟩
            · rw [List.append_assoc, ← hskip]
              exact (List.takeWhile_append_dropWhile).symm
            · exact h.append (h.spaces fun c => List.mem_takeWhile_imp) hw
      · intro text vs rest hparse
        cases parseElements_eq_some_iff.mp hparse with
        | last hv _ hclose =>
            obtain ⟨w, rfl, hw⟩ := hvalue _ _ _ hv
            obtain ⟨gap, rfl, hgap⟩ := expect_eq_some hclose
            exact ⟨w ++ gap, by simp, h.append hw (h.spaces hgap)⟩
        | more hv hcomma hvs =>
            obtain ⟨w, rfl, hw⟩ := hvalue _ _ _ hv
            obtain ⟨gap, rfl, hgap⟩ := expect_eq_some hcomma
            obtain ⟨w', rfl, hw'⟩ := helements _ _ _ hvs
            exact ⟨w ++ (gap ++ ',' :: w'), by simp,
              h.append hw (h.comma (h.spaces hgap) hw')⟩
      · intro text ms rest hparse
        cases parseMembers_eq_some_iff.mp hparse with
        | last hreads _ hclose =>
            obtain ⟨w, rfl, hw⟩ := hmember hreads
            obtain ⟨gap, rfl, hgap⟩ := expect_eq_some hclose
            exact ⟨w ++ gap, by simp, h.append hw (h.spaces hgap)⟩
        | more hreads hcomma hms =>
            obtain ⟨w, rfl, hw⟩ := hmember hreads
            obtain ⟨gap, rfl, hgap⟩ := expect_eq_some hcomma
            obtain ⟨w', rfl, hw'⟩ := hmembers _ _ _ hms
            exact ⟨w ++ (gap ++ ',' :: w'), by simp,
              h.append hw (h.comma (h.spaces hgap) hw')⟩

theorem parse_object_eq_some (h : TextClosed T) {text : Text}
    {v : Json fmt.Number}
    (hparse : Json.parse fmt ('{' :: text) = some v) :
    ∃ inner gap, text = inner ++ '}' :: gap ∧ T inner ∧
      ∀ c ∈ gap, isJsonSpace c = true := by
  rw [Json.parse, parseValue, expect_self (by decide)] at hparse
  obtain ⟨⟨v', rest⟩, hvalue, hend⟩ := Option.bind_eq_some_iff.mp hparse
  dsimp only at hvalue hend
  have hgap : ∀ c ∈ rest, isJsonSpace c = true := by
    split at hend
    next hskip => exact List.dropWhile_eq_nil_iff.mp hskip
    next => exact absurd hend (by simp)
  split at hvalue
  next last hclose =>
    cases hvalue
    obtain ⟨gap, rfl, hspaces⟩ := expect_eq_some hclose
    exact ⟨gap, rest, rfl, h.spaces hspaces, hgap⟩
  next =>
    obtain ⟨⟨ms, last⟩, hms, heq⟩ := Option.map_eq_some_iff.mp hvalue
    cases heq
    obtain ⟨w, rfl, hw⟩ := (parser_consumes h _).2.2 _ _ _ hms
    exact ⟨w, last, rfl, hw, hgap⟩

theorem parse_braces_eq_some (h : TextClosed T) {inner : Text}
    {v : Json fmt.Number}
    (hparse : Json.parse fmt ('{' :: (inner ++ ['}'])) = some v) :
    T inner := by
  obtain ⟨inner', gap, heq, hinner, hgap⟩ := parse_object_eq_some h hparse
  cases gap.eq_nil_or_concat with
  | inl hnil =>
      subst hnil
      rw [List.append_left_inj] at heq
      exact heq ▸ hinner
  | inr hconcat =>
      obtain ⟨gap', c, rfl⟩ := hconcat
      have hends : inner ++ ['}'] = (inner' ++ '}' :: gap') ++ [c] := by
        simpa using heq
      have hlast : ['}'] = [c] := (List.append_inj' hends rfl).2
      have hspace := hgap c (by simp)
      rw [← List.singleton_inj.mp hlast] at hspace
      exact absurd hspace (by decide)

/-! ## The characters of objects -/

section Characters

variable {P : Char → Prop}

theorem forall_mem_stringifyMembers (hcomma : P ',') (hcolon : P ':')
    {members : List (JsString × Json fmt.Number)} :
    (∀ c ∈ stringifyMembers fmt members, P c) ↔
      ∀ member ∈ members, (∀ c ∈ quote member.1, P c) ∧
        ∀ c ∈ member.2.stringify fmt, P c := by
  induction members with
  | nil => simp [stringifyMembers]
  | cons member members ih =>
      obtain ⟨key, v⟩ := member
      simp only [stringifyMembers, List.cons_append, List.append_assoc,
        List.mem_cons, List.mem_append, or_imp, forall_and, forall_eq,
        hcomma, hcolon, true_and, ih]
      tauto

theorem forall_mem_object (hpunctuation : ∀ c ∈ ['{', '}', ',', ':'], P c)
    {members : List (JsString × Json fmt.Number)} :
    (∀ c ∈ (Json.object members).stringify fmt, P c) ↔
      ∀ member ∈ members, (∀ c ∈ quote member.1, P c) ∧
        ∀ c ∈ member.2.stringify fmt, P c := by
  have hopen : P '{' := hpunctuation _ (by decide)
  have hclose : P '}' := hpunctuation _ (by decide)
  have hcomma : P ',' := hpunctuation _ (by decide)
  have hcolon : P ':' := hpunctuation _ (by decide)
  cases members with
  | nil => simp [Json.stringify, hopen, hclose]
  | cons member members =>
      obtain ⟨key, v⟩ := member
      simp only [Json.stringify, List.cons_append, List.append_assoc,
        List.mem_cons, List.mem_append, List.not_mem_nil, or_false, or_imp,
        forall_and, forall_eq, hopen, hclose, hcolon, true_and, and_true,
        forall_mem_stringifyMembers hcomma hcolon]
      tauto

end Characters

end IreBlockchain.Foundation
