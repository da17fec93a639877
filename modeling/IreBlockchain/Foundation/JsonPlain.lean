import IreBlockchain.Foundation.JsonSpaces

/-!
# Strings without escapes

In a text without a backslash every string stands as it is written: the strings
that the parser returns are parts of the text.
-/

namespace IreBlockchain.Foundation

/-! ## Texts as strings -/

theorem toNat_codeUnit {n : Nat} (h : n < 0x10000) :
    (UInt16.ofNat n).toNat = n := by
  simp only [UInt16.toNat_ofNat']
  omega

theorem codeUnits_append_inj {c d : Char} {l m : JsString}
    (h : codeUnits c ++ l = codeUnits d ++ m) : c = d ∧ l = m := by
  have hc : c.toNat.isValidChar := c.valid
  have hd : d.toNat.isValidChar := d.valid
  simp only [Nat.isValidChar] at hc hd
  have hunit {x y : Nat} (hx : x < 0x10000) (hy : y < 0x10000)
      (heq : UInt16.ofNat x = UInt16.ofNat y) : x = y := by
    have := congrArg UInt16.toNat heq
    rwa [toNat_codeUnit hx, toNat_codeUnit hy] at this
  simp only [codeUnits] at h
  split at h
  next hsmall =>
    split at h
    next hsmall' =>
      obtain ⟨hunits, hrest⟩ := List.cons_eq_cons.mp h
      exact ⟨Char.toNat_inj.mp (hunit hsmall hsmall' hunits), hrest⟩
    next hlarge' =>
      have hfirst := hunit hsmall (by omega) (List.cons_eq_cons.mp h).1
      omega
  next hlarge =>
    split at h
    next hsmall' =>
      have hfirst := hunit (by omega) hsmall' (List.cons_eq_cons.mp h).1
      omega
    next hlarge' =>
      obtain ⟨hhigh, hrest⟩ := List.cons_eq_cons.mp h
      obtain ⟨hlow, hrest⟩ := List.cons_eq_cons.mp hrest
      have hhigh := hunit (by omega) (by omega) hhigh
      have hlow := hunit (by omega) (by omega) hlow
      refine ⟨Char.toNat_inj.mp ?_, hrest⟩
      omega

theorem codeUnits_ne_nil (c : Char) : codeUnits c ≠ [] := by
  simp only [codeUnits]
  split
  · exact List.cons_ne_nil _ _
  · exact List.cons_ne_nil _ _

theorem toJsString_injective : Function.Injective toJsString := by
  intro text
  induction text with
  | nil =>
      intro text' h
      cases text' with
      | nil => rfl
      | cons d text' =>
          have hnil := List.append_eq_nil_iff.mp h.symm
          exact absurd hnil.1 (codeUnits_ne_nil d)
  | cons c text ih =>
      intro text' h
      cases text' with
      | nil => exact absurd (List.append_eq_nil_iff.mp h).1 (codeUnits_ne_nil c)
      | cons d text' =>
          obtain ⟨rfl, hrest⟩ := codeUnits_append_inj h
          rw [ih hrest]

/-! ## What the parser returns -/

def StandsIn (text : Text) (s : JsString) : Prop :=
  ∃ body, body <:+: text ∧ toJsString body = s

theorem StandsIn.mono {text text' : Text} {s : JsString}
    (h : StandsIn text s) (hin : text <:+: text') : StandsIn text' s := by
  obtain ⟨body, hbody, rfl⟩ := h
  exact ⟨body, hbody.trans hin, rfl⟩

theorem parseString_of_plain {text rest : Text} {s : JsString}
    (hplain : '\\' ∉ text) (h : parseString text = some (s, rest)) :
    ∃ body, text = body ++ '"' :: rest ∧ toJsString body = s := by
  fun_induction parseString text generalizing s with
  | case1 => exact absurd h (by simp)
  | case2 text =>
      cases h
      exact ⟨[], rfl, rfl⟩
  | case3 => exact absurd h (by simp)
  | case4 | case5 | case6 => exact absurd List.mem_cons_self hplain
  | case7 => exact absurd h (by simp)
  | case8 c text _ _ _ ih =>
      obtain ⟨⟨s', rest'⟩, hrest, heq⟩ := Option.map_eq_some_iff.mp h
      cases heq
      obtain ⟨body, rfl, rfl⟩ := ih (List.not_mem_of_not_mem_cons hplain) hrest
      exact ⟨c :: body, rfl, rfl⟩

variable {fmt : NumberFormat} {fuel : Nat} {text rest : Text}

theorem expect_suffix {c : Char} (h : expect c text = some rest) :
    rest <:+ text := by
  obtain ⟨w, rfl, -⟩ := expect_eq_some h
  exact ⟨w ++ [c], by simp⟩

theorem parseScalar_plain {v : Json fmt.Number}
    (h : parseScalar fmt text = some (v, rest)) :
    (∀ s, v ≠ .string s) ∧ ∀ key, v.get key = none := by
  simp only [parseScalar] at h
  split at h
  · cases h
    exact ⟨fun _ hs => (by cases hs), fun _ => rfl⟩
  split at h
  · cases h
    exact ⟨fun _ hs => (by cases hs), fun _ => rfl⟩
  split at h
  · cases h
    exact ⟨fun _ hs => (by cases hs), fun _ => rfl⟩
  split at h
  · cases h
    exact ⟨fun _ hs => (by cases hs), fun _ => rfl⟩
  · cases h

theorem parseValue_string_of_plain {s : JsString} (hplain : '\\' ∉ text)
    (h : parseValue fmt fuel text = some (.string s, rest)) :
    StandsIn text s := by
  cases fuel with
  | zero => simp [parseValue] at h
  | succ fuel =>
      cases parseValue_eq_some_iff.mp h with
      | string _ _ hopen hs =>
          have hsuffix := expect_suffix hopen
          obtain ⟨body, rfl, hbody⟩ :=
            parseString_of_plain (mt (hsuffix.subset ·) hplain) hs
          exact ⟨body, (List.prefix_append _ _).isInfix.trans hsuffix.isInfix,
            hbody⟩
      | scalar _ _ _ hscalar =>
          exact absurd rfl ((parseScalar_plain hscalar).1 s)

theorem ReadsMember.suffix {key : JsString} {v : Json fmt.Number}
    (h : ReadsMember fmt fuel text key v rest) : rest <:+ text := by
  obtain ⟨hquote, hkey, hcolon, hv⟩ := h
  obtain ⟨body, hbody⟩ := parseString_eq_some hkey
  obtain ⟨w, hw, -⟩ := (parser_consumes textClosed_true fuel).1 _ _ _ hv
  have hbehind := (List.suffix_append body _).trans
    (hbody ▸ expect_suffix hquote)
  exact (List.suffix_append w rest).trans
    (hw ▸ (expect_suffix hcolon).trans hbehind)

theorem ReadsMember.standsIn {key s : JsString}
    (hplain : '\\' ∉ text)
    (h : ReadsMember fmt fuel text key (.string s) rest) : StandsIn text s := by
  obtain ⟨hquote, hkey, hcolon, hv⟩ := h
  obtain ⟨body, hbody⟩ := parseString_eq_some hkey
  have hbehind := (List.suffix_append body _).trans
    (hbody ▸ expect_suffix hquote)
  have hsuffix := (expect_suffix hcolon).trans hbehind
  exact (parseValue_string_of_plain (mt (hsuffix.subset ·) hplain) hv).mono
    hsuffix.isInfix

theorem parseMembers_of_plain {ms : List (JsString × Json fmt.Number)}
    (hplain : '\\' ∉ text)
    (h : parseMembers fmt fuel text = some (ms, rest)) {key s : JsString}
    (hmem : (key, Json.string s) ∈ ms) : StandsIn text s := by
  induction fuel generalizing text rest ms with
  | zero => simp [parseMembers] at h
  | succ fuel ih =>
      cases parseMembers_eq_some_iff.mp h with
      | last hmember _ _ =>
          cases List.mem_singleton.mp hmem
          exact hmember.standsIn hplain
      | more hmember hcomma hms =>
          cases hmem with
          | head => exact hmember.standsIn hplain
          | tail _ hmem =>
              have hsuffix := (expect_suffix hcomma).trans hmember.suffix
              exact (ih (mt (hsuffix.subset ·) hplain) hms hmem).mono
                hsuffix.isInfix

theorem mem_of_mem_setMember {α : Type} {members : List (JsString × α)}
    {key : JsString} {value : α} {member : JsString × α}
    (h : member ∈ setMember members key value) :
    member ∈ members ∨ member = (key, value) := by
  unfold setMember at h
  split at h
  · obtain ⟨old, hold, heq⟩ := List.mem_map.mp h
    split at heq
    · exact .inr heq.symm
    · exact .inl (heq ▸ hold)
  · cases List.mem_append.mp h with
    | inl hmem => exact .inl hmem
    | inr hmem => exact .inr (List.mem_singleton.mp hmem)

theorem mem_of_mem_foldl_setMember {α : Type}
    {done members : List (JsString × α)} {member : JsString × α}
    (h : member ∈ members.foldl
      (fun done member => setMember done member.1 member.2) done) :
    member ∈ done ∨ member ∈ members := by
  induction members generalizing done with
  | nil => exact .inl h
  | cons next members ih =>
      cases ih h with
      | inr hmem => exact .inr (List.mem_cons_of_mem _ hmem)
      | inl hmem =>
          cases mem_of_mem_setMember hmem with
          | inl hmem => exact .inl hmem
          | inr heq => exact .inr (heq ▸ List.mem_cons_self)

theorem mem_of_mem_lastWins {α : Type} {members : List (JsString × α)}
    {member : JsString × α} (h : member ∈ lastWins members) :
    member ∈ members :=
  (mem_of_mem_foldl_setMember h).resolve_left List.not_mem_nil

/-- A property that is a string stands in the text as it is. -/
theorem parse_get_of_plain {o : Json fmt.Number} (hplain : '\\' ∉ text)
    (hparse : Json.parse fmt text = some o) {key : Text} {s : JsString}
    (hget : o.get key = some (.string s)) : StandsIn text s := by
  obtain ⟨⟨v, rest⟩, hvalue, hend⟩ := Option.bind_eq_some_iff.mp hparse
  dsimp only at hend
  split at hend
  next =>
    cases hend
    cases parseValue_eq_some_iff.mp hvalue with
    | emptyObject => simp [Json.get] at hget
    | object hopen _ hms =>
        obtain ⟨member, hfind, hmember⟩ := Option.map_eq_some_iff.mp hget
        obtain ⟨key', v⟩ := member
        cases hmember
        have hsuffix := expect_suffix hopen
        have hmem := mem_of_mem_lastWins (List.mem_of_find?_eq_some hfind)
        exact (parseMembers_of_plain (mt (hsuffix.subset ·) hplain) hms
          hmem).mono hsuffix.isInfix
    | emptyArray | array | string => simp [Json.get] at hget
    | scalar _ _ _ hscalar =>
        rw [(parseScalar_plain hscalar).2 key] at hget
        cases hget
  next => cases hend

end IreBlockchain.Foundation
