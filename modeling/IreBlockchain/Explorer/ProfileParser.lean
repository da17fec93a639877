import IreBlockchain.Explorer.Profile
import IreBlockchain.Foundation.JsonSpaces

/-!
# The parser of the profile page

The other pages look for the brace that closes an object; this one parses up to
the end of the printable text.
-/

namespace IreBlockchain.Explorer

open IreBlockchain.Foundation

def readProfile (fmt : NumberFormat) (ascii : Text) :
    Option (Json fmt.Number) :=
  (dropUntil marker ascii).bind fun found =>
    parseFromBrace fmt (dropHead (cutAt nul found))

theorem profileIn_eq (fmt : NumberFormat) (addr : Text) (raw : Bytes) :
    profileIn fmt addr raw =
      if occurs addr (asciiFromBytes raw) then
        (readProfile fmt (asciiFromBytes raw)).filter fun o =>
          isText fmt (o.get "p".toList) "ire-id".toList &&
            isText fmt (o.get "op".toList) "set".toList
      else none := by
  rw [profileIn, readProfile]
  split
  next =>
    cases dropUntil marker (asciiFromBytes raw) with
    | none => rfl
    | some found => rfl
  next => rfl

def EndsInObject (fmt : NumberFormat) (payload : Text) : Prop :=
  ∃ before inner gap, payload = before ++ ('{' :: (inner ++ ['}']) ++ gap) ∧
    '{' ∉ before ∧ (Json.parse fmt ('{' :: (inner ++ ['}']))).isSome = true ∧
    ∀ c ∈ gap, isSpace c = true

/--
The object ends the payload, and is not in a single word behind the marker with
white space behind it.
-/
def ProfileReads (fmt : NumberFormat) (ascii : Text) : Prop :=
  ∃ found payload, FirstInscription ascii found ∧ ¬ HasHead found [] ∧
    IsPayload (trim found) payload ∧ EndsInObject fmt payload

/-! ## White space in printable text -/

theorem isSpace_of_isJsonSpace {c : Char} (h : isJsonSpace c = true) :
    isSpace c = true := by
  simp only [isJsonSpace, Bool.or_eq_true, decide_eq_true_eq] at h
  rcases h with ((rfl | rfl) | rfl) | rfl
  all_goals decide

theorem FirstInscription.unique {ascii found found' : Text}
    (h : FirstInscription ascii found) (h' : FirstInscription ascii found') :
    found = found' := by
  obtain ⟨text, htext, rfl⟩ := firstInscription_iff.mp h
  obtain ⟨text', htext', rfl⟩ := firstInscription_iff.mp h'
  rw [htext] at htext'
  cases htext'
  rfl

theorem isJsonSpace_of_mem {raw : Bytes} {found : Text}
    (h : FirstInscription (asciiFromBytes raw) found) {c : Char}
    (hc : c ∈ found) (hspace : isSpace c = true) : isJsonSpace c = true := by
  obtain ⟨before, after, hascii, _, _, hnul, _⟩ := h
  have hmem : c ∈ asciiFromBytes raw := by
    rw [hascii]
    exact List.mem_append_right _ (List.mem_append_left _ hc)
  obtain ⟨b, _, rfl⟩ := List.mem_map.mp hmem
  have hbytes : ∀ n < 256, asciiOfByte (UInt8.ofNat n) ≠ nul →
      isSpace (asciiOfByte (UInt8.ofNat n)) = true →
      isJsonSpace (asciiOfByte (UInt8.ofNat n)) = true := by decide +kernel
  have hb := hbytes b.toNat b.toNat_lt
  rw [UInt8.ofNat_toNat] at hb
  exact hb (fun heq => hnul (heq ▸ hc)) hspace

theorem IsPayload.mem {slice payload : Text} (h : IsPayload slice payload)
    {c : Char} (hc : c ∈ payload) : c ∈ slice := by
  rcases h with ⟨mediaType, gap, gap', rfl, _⟩ | ⟨_, rfl⟩
  · simp [hc]
  · exact hc

theorem trim_marker_append (rest : Text) :
    trim (marker ++ rest) = (marker ++ rest).rdropWhile isSpace := by
  have hfront : marker = 'I' :: marker.tail := by decide
  have hdrop : (marker ++ rest).dropWhile isSpace = marker ++ rest := by
    rw [hfront]
    exact List.dropWhile_cons_of_neg (by decide)
  rw [trim, hdrop]

theorem exists_eq_trim_append {found : Text} (h : marker <+: found) :
    ∃ gap, found = trim found ++ gap ∧ ∀ c ∈ gap, isSpace c = true := by
  obtain ⟨rest, rfl⟩ := h
  refine ⟨(marker ++ rest).rtakeWhile isSpace, ?_, ?_⟩
  · rw [trim_marker_append, List.rdropWhile_append_rtakeWhile]
  · intro c hc
    exact List.mem_rtakeWhile_imp hc

/-! ## What is left to be parsed -/

section Head

variable {found payload gap : Text}

theorem hasHead_of_hasFields {mediaType : Text}
    (h : HasFields (trim found) mediaType payload)
    (hfound : found = trim found ++ gap) :
    HasHead found (payload ++ gap) := by
  obtain ⟨g, g', hslice, hg, hmedia, hg', c, rest, rfl, hc⟩ := h
  refine ⟨g, mediaType, g', ?_, hg, hmedia, hg', ?_⟩
  · rw [hfound, hslice]
    simp
  · intro d hd
    cases hd
    exact hc

theorem hasFields_or_eq_nil {text : Text} (h : HasHead found text) :
    text = [] ∨ ∃ mediaType payload, HasFields (trim found) mediaType payload := by
  obtain ⟨g, word, g', rfl, hg, hword, hg', hhead⟩ := h
  cases text with
  | nil => exact Or.inl rfl
  | cons c rest =>
      have hc : isSpace c = false := hhead c rfl
      refine Or.inr ⟨word, c :: rest.rdropWhile isSpace, g, g', ?_, hg, hword,
        hg', c, _, rfl, hc⟩
      rw [trim_marker_append]
      simp only [← List.append_assoc]
      exact rdropWhile_append_cons hc

theorem dropHead_eq (hmarker : marker <+: found)
    (hfound : found = trim found ++ gap) (hpayload : IsPayload (trim found) payload)
    (hword : ¬ HasHead found []) : dropHead found = payload ++ gap := by
  cases hpayload with
  | inl hfields =>
      obtain ⟨mediaType, hfields⟩ := hfields
      exact dropHead_of_hasHead (hasHead_of_hasFields hfields hfound)
  | inr hnone =>
      obtain ⟨hnone, rfl⟩ := hnone
      cases hasHead_or_dropHead hmarker with
      | inl hhead =>
          cases hasFields_or_eq_nil hhead with
          | inl hnil => exact absurd (hnil ▸ hhead) hword
          | inr hfields => exact absurd hfields hnone
      | inr heq => rw [heq, ← hfound]

end Head

/-! ## Parsing to the end -/

section Parsing

variable {fmt : NumberFormat}

theorem parseFromBrace_eq {before json : Text} (h : '{' ∉ before) :
    parseFromBrace fmt (before ++ '{' :: json) =
      Json.parse fmt ('{' :: json) := by
  have hfound : dropUntil ['{'] (before ++ '{' :: json) =
      some ('{' :: json) :=
    dropUntil_singleton_eq_some_iff.mpr ⟨before, json, rfl, rfl, h⟩
  rw [parseFromBrace, hfound, Option.bind_some]

theorem isJsonSpace_of_parse {inner rest : Text} {o v : Json fmt.Number}
    (h : Json.parse fmt ('{' :: (inner ++ ['}'])) = some o)
    (hlong : Json.parse fmt ('{' :: (inner ++ ['}']) ++ rest) = some v) :
    ∀ c ∈ rest, isJsonSpace c = true := by
  rw [List.cons_append] at hlong
  obtain ⟨inner', gap, heq, hinner', hgap⟩ :=
    parse_object_eq_some textClosed_transparent hlong
  have hopen : Scan.step ⟨0, false, false⟩ '{' =
      some ⟨1, false, false⟩ := rfl
  have hclose : closeObject ⟨1, false, false⟩ ('}' :: gap) = some ['}'] := rfl
  have hscan : closeObject ⟨0, false, false⟩ ('{' :: (inner' ++ '}' :: gap)) =
      some ('{' :: (inner' ++ ['}'])) := by
    rw [closeObject_cons hopen, hinner' 1 _ Nat.one_pos, hclose]
    rfl
  have hsame := closeObject_of_parse h rest
  rw [List.cons_append, heq, hscan] at hsame
  have hfront : inner' ++ ['}'] = inner ++ ['}'] := by
    injection hsame with hsame
    exact (List.cons.inj hsame).2
  have hrest : inner ++ ['}'] ++ rest = inner ++ ['}'] ++ gap := by
    rw [heq, ← hfront]
    simp
  rw [List.append_cancel_left hrest]
  exact hgap

theorem parseFromBrace_object_iff {before inner rest gap : Text}
    {o : Json fmt.Number} (hbefore : '{' ∉ before)
    (h : Json.parse fmt ('{' :: (inner ++ ['}'])) = some o)
    (hgap : ∀ c ∈ gap, isJsonSpace c = true) :
    parseFromBrace fmt (before ++ ('{' :: (inner ++ ['}']) ++ rest) ++ gap) =
        some o ↔
      ∀ c ∈ rest, isJsonSpace c = true := by
  have htext : before ++ ('{' :: (inner ++ ['}']) ++ rest) ++ gap =
      before ++ '{' :: (inner ++ ['}'] ++ (rest ++ gap)) := by simp
  rw [htext, parseFromBrace_eq hbefore, ← List.cons_append]
  constructor
  · intro hlong c hc
    exact isJsonSpace_of_parse h hlong c (List.mem_append_left _ hc)
  · intro hrest
    apply parse_append h
    intro c hc
    cases List.mem_append.mp hc with
    | inl hc => exact hrest c hc
    | inr hc => exact hgap c hc

end Parsing

/-! ## Where the parsers agree -/

section Agreement

variable {fmt : NumberFormat}

theorem readProfile_of_first {ascii found : Text}
    (h : FirstInscription ascii found) :
    readProfile fmt ascii = parseFromBrace fmt (dropHead found) := by
  obtain ⟨text, htext, rfl⟩ := firstInscription_iff.mp h
  rw [readProfile, htext, Option.bind_some]

theorem parse_dropHead_iff {raw : Bytes} {found before inner rest : Text}
    {o : Json fmt.Number}
    (hfirst : FirstInscription (asciiFromBytes raw) found)
    (hword : ¬ HasHead found [])
    (hpayload : IsPayload (trim found) (before ++ ('{' :: (inner ++ ['}']) ++ rest)))
    (hbefore : '{' ∉ before)
    (h : Json.parse fmt ('{' :: (inner ++ ['}'])) = some o) :
    parseFromBrace fmt (dropHead found) = some o ↔
      ∀ c ∈ rest, isSpace c = true := by
  have hmarker := hfirst.marker_prefix
  obtain ⟨gap, hfound, hgap⟩ := exists_eq_trim_append hmarker
  have hjsonGap : ∀ c ∈ gap, isJsonSpace c = true := by
    intro c hc
    have hmem : c ∈ found := by
      rw [hfound]
      exact List.mem_append_right _ hc
    exact isJsonSpace_of_mem hfirst hmem (hgap c hc)
  rw [dropHead_eq hmarker hfound hpayload hword,
    parseFromBrace_object_iff hbefore h hjsonGap]
  constructor
  · intro hrest c hc
    exact isSpace_of_isJsonSpace (hrest c hc)
  · intro hrest c hc
    have htrim : c ∈ trim found := hpayload.mem (by simp [hc])
    have hmem : c ∈ found := by
      rw [hfound]
      exact List.mem_append_left _ htrim
    exact isJsonSpace_of_mem hfirst hmem (hrest c hc)

/--
Of a transaction from which the other pages read an object, the profile page
reads the same exactly if the object ends the payload.
-/
theorem profile_parser_agrees (fmt : NumberFormat) {raw : Bytes}
    {o : Json fmt.Number}
    (h : readInscription fmt (asciiFromBytes raw) = some o) :
    readProfile fmt (asciiFromBytes raw) = some o ↔
      ProfileReads fmt (asciiFromBytes raw) := by
  obtain ⟨found, payload, hfirst, hpayload, hobject⟩ :=
    readInscription_eq_some_iff.mp h
  rw [readProfile_of_first hfirst]
  constructor
  · intro hread
    have hword : ¬ HasHead found [] := by
      intro hhead
      rw [dropHead_of_hasHead hhead] at hread
      cases hread
    obtain ⟨before, inner, rest, rfl, hbefore, hparse⟩ := hobject
    have hrest := (parse_dropHead_iff hfirst hword hpayload hbefore
      hparse).mp hread
    exact ⟨found, _, hfirst, hword, hpayload, before, inner, rest, rfl, hbefore,
      Option.isSome_of_eq_some hparse, hrest⟩
  · rintro ⟨found', payload', hfirst', hword, hpayload', before, inner, rest,
      rfl, hbefore, hsome, hrest⟩
    obtain rfl := hfirst.unique hfirst'
    obtain ⟨o', hparse⟩ := Option.isSome_iff_exists.mp hsome
    have hobject' : extractJson fmt payload = some o' := by
      rw [← isPayload_iff.mp hpayload, isPayload_iff.mp hpayload']
      exact extractJson_eq_some_iff.mpr
        ⟨before, inner, rest, rfl, hbefore, hparse⟩
    rw [extractJson_eq_some_iff.mpr hobject] at hobject'
    cases hobject'
    exact (parse_dropHead_iff hfirst hword hpayload' hbefore hparse).mpr hrest

end Agreement

/-! ## Sample transactions -/

def emptyProfile : Text :=
  '{' :: ("\"p\":\"ire-id\",\"op\":\"set\"".toList ++ ['}'])

def emptyProfileMemo : Text := profilePrefix ++ emptyProfile

theorem profile_parser_agrees_sample :
    (readProfile literalFormat (asciiFromBytes (utf8 emptyProfileMemo))).isSome =
      true := by
  have hread : (readInscription literalFormat
      (asciiFromBytes (utf8 emptyProfileMemo))).isSome = true := by decide +kernel
  obtain ⟨o, ho⟩ := Option.isSome_iff_exists.mp hread
  have hfirst : FirstInscription (asciiFromBytes (utf8 emptyProfileMemo))
      emptyProfileMemo := by
    have hfound : (dropUntil marker (asciiFromBytes (utf8 emptyProfileMemo))).map
        (cutAt nul) = some emptyProfileMemo := by decide +kernel
    exact firstInscription_iff.mpr (Option.map_eq_some_iff.mp hfound)
  have hword : ¬ HasHead emptyProfileMemo [] := by
    intro hhead
    exact absurd (dropHead_of_hasHead hhead) (by decide +kernel)
  have hpayload : IsPayload (trim emptyProfileMemo) emptyProfile :=
    isPayload_iff.mpr (by decide +kernel)
  have hends : EndsInObject literalFormat emptyProfile :=
    ⟨[], _, [], (List.append_nil _).symm, nofun, by decide +kernel, nofun⟩
  have hagrees := (profile_parser_agrees literalFormat ho).mpr
    ⟨_, _, hfirst, hword, hpayload, hends⟩
  rw [hagrees]
  rfl

theorem profile_parser_disagrees :
    ¬ ∀ (raw : Bytes) (o : Json literalFormat.Number),
      readInscription literalFormat (asciiFromBytes raw) = some o →
      readProfile literalFormat (asciiFromBytes raw) = some o := by
  intro h
  have hread : (readInscription literalFormat
      (asciiFromBytes (utf8 (emptyProfileMemo ++ " hi".toList)))).isSome =
        true := by decide +kernel
  have hnone : (readProfile literalFormat
      (asciiFromBytes (utf8 (emptyProfileMemo ++ " hi".toList)))).isNone =
        true := by decide +kernel
  obtain ⟨o, ho⟩ := Option.isSome_iff_exists.mp hread
  rw [h _ o ho] at hnone
  cases hnone

end IreBlockchain.Explorer
