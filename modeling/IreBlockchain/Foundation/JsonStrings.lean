import IreBlockchain.Foundation.Json

/-!
# Strings in JSON texts

A quoted string is read back, whatever its code units are: a pair of surrogates
is written as one character, a lone one as an escape.
-/

namespace IreBlockchain.Foundation

/-! ## Code units of characters -/

theorem toNat_ofNat_of_isValidChar {n : Nat} (h : n.isValidChar) :
    (Char.ofNat n).toNat = n := by
  rw [Char.ofNat, dif_pos h]
  exact UInt32.toNat_ofNatLT ..

theorem isValidChar_of_lone {u : UInt16} (hhigh : isHighSurrogate u = false)
    (hlow : isLowSurrogate u = false) : u.toNat.isValidChar := by
  have hbound := u.toNat_lt
  simp only [isHighSurrogate, isLowSurrogate, Bool.and_eq_false_iff,
    decide_eq_false_iff_not] at hhigh hlow
  simp only [Nat.isValidChar]
  omega

theorem codeUnits_ofNat {u : UInt16} (hhigh : isHighSurrogate u = false)
    (hlow : isLowSurrogate u = false) :
    codeUnits (Char.ofNat u.toNat) = [u] := by
  have hbound : u.toNat < 0x10000 := u.toNat_lt
  simp only [codeUnits,
    toNat_ofNat_of_isValidChar (isValidChar_of_lone hhigh hlow)]
  rw [if_pos hbound, UInt16.ofNat_toNat]

theorem toNat_surrogatePair {u v : UInt16} (hhigh : isHighSurrogate u = true)
    (hlow : isLowSurrogate v = true) :
    (surrogatePair u v).toNat = 0x10000 + (u.toNat - 0xd800) * 0x400 +
      (v.toNat - 0xdc00) := by
  simp only [isHighSurrogate, isLowSurrogate, Bool.and_eq_true,
    decide_eq_true_eq] at hhigh hlow
  have hvalid : (0x10000 + (u.toNat - 0xd800) * 0x400 +
      (v.toNat - 0xdc00)).isValidChar := by
    simp only [Nat.isValidChar]
    omega
  exact toNat_ofNat_of_isValidChar hvalid

theorem surrogatePair_ge {u v : UInt16} (hhigh : isHighSurrogate u = true)
    (hlow : isLowSurrogate v = true) :
    0x10000 ≤ (surrogatePair u v).toNat := by
  rw [toNat_surrogatePair hhigh hlow]
  omega

theorem codeUnits_surrogatePair {u v : UInt16}
    (hhigh : isHighSurrogate u = true) (hlow : isLowSurrogate v = true) :
    codeUnits (surrogatePair u v) = [u, v] := by
  have hpair := toNat_surrogatePair hhigh hlow
  simp only [isHighSurrogate, isLowSurrogate, Bool.and_eq_true,
    decide_eq_true_eq] at hhigh hlow
  have hu : 0xd800 + ((surrogatePair u v).toNat - 0x10000) / 0x400 =
      u.toNat := by omega
  have hv : 0xdc00 + ((surrogatePair u v).toNat - 0x10000) % 0x400 =
      v.toNat := by omega
  simp only [codeUnits, hu, hv, UInt16.ofNat_toNat]
  rw [if_neg (by omega)]

/-! ## Reading one unit back -/

theorem hexValue_digitChar {d : Nat} (h : d < 16) :
    hexValue (Nat.digitChar d) = some d := by
  revert d
  decide

theorem readHex_hexDigits (u : UInt16) :
    readHex (Nat.digitChar (u.toNat / 4096 % 16))
      (Nat.digitChar (u.toNat / 256 % 16)) (Nat.digitChar (u.toNat / 16 % 16))
      (Nat.digitChar (u.toNat % 16)) = some u := by
  have hbound := u.toNat_lt
  have hmod (n : Nat) : n % 16 < 16 := Nat.mod_lt n (by decide)
  simp only [readHex, hexValue_digitChar (hmod _), Option.bind_eq_bind,
    Option.bind_some, Option.pure_def, Option.some.injEq]
  have hsum : ((u.toNat / 4096 % 16 * 16 + u.toNat / 256 % 16) * 16 +
      u.toNat / 16 % 16) * 16 + u.toNat % 16 = u.toNat := by omega
  rw [hsum, UInt16.ofNat_toNat]

theorem readEscape_of_shortEscape {u : UInt16} {e : Char}
    (h : shortEscape u.toNat = some e) :
    e ≠ 'u' ∧ readEscape e = some u := by
  have hunit {n : Nat} (hn : u.toNat = n) : UInt16.ofNat n = u := by
    rw [← hn, UInt16.ofNat_toNat]
  simp only [shortEscape] at h
  split at h
  next hn => cases h; exact ⟨by decide, congrArg some (hunit hn)⟩
  split at h
  next hn => cases h; exact ⟨by decide, congrArg some (hunit hn)⟩
  split at h
  next hn => cases h; exact ⟨by decide, congrArg some (hunit hn)⟩
  split at h
  next hn => cases h; exact ⟨by decide, congrArg some (hunit hn)⟩
  split at h
  next hn => cases h; exact ⟨by decide, congrArg some (hunit hn)⟩
  split at h
  next hn => cases h; exact ⟨by decide, congrArg some (hunit hn)⟩
  split at h
  next hn => cases h; exact ⟨by decide, congrArg some (hunit hn)⟩
  next => cases h

theorem parseString_escape {e : Char} {u : UInt16} (he : e ≠ 'u')
    (hu : readEscape e = some u) (rest : Text) :
    parseString ('\\' :: e :: rest) =
      (parseString rest).map (prepend [u]) := by
  rw [parseString.eq_def]
  simp [he, hu]

theorem parseString_unicodeEscape (u : UInt16) (rest : Text) :
    parseString (unicodeEscape u ++ rest) =
      (parseString rest).map (prepend [u]) := by
  simp only [unicodeEscape, hexDigits, List.cons_append, List.nil_append]
  rw [parseString.eq_def]
  simp [readHex_hexDigits]

theorem parseString_char {c : Char} (hquote : c ≠ '"') (hslash : c ≠ '\\')
    (hcontrol : 0x20 ≤ c.toNat) (rest : Text) :
    parseString (c :: rest) = (parseString rest).map (prepend (codeUnits c)) := by
  rw [parseString.eq_def]
  simp only [hquote, hslash, if_false]
  rw [if_neg (by omega)]

theorem parseString_close (rest : Text) :
    parseString ('"' :: rest) = some ([], rest) := by
  rw [parseString.eq_def]
  simp

theorem parseString_quoteUnit (u : UInt16) (rest : Text) :
    parseString (quoteUnit u ++ rest) =
      (parseString rest).map (prepend [u]) := by
  rw [quoteUnit]
  split
  next e he =>
    obtain ⟨hne, hread⟩ := readEscape_of_shortEscape he
    exact parseString_escape hne hread rest
  next hnone =>
    split
    next => exact parseString_unicodeEscape u rest
    next hplain =>
      simp only [Bool.or_eq_true, decide_eq_true_eq, not_or,
        Bool.not_eq_true] at hplain
      obtain ⟨⟨hcontrol, hhigh⟩, hlow⟩ := hplain
      have hunits := codeUnits_ofNat hhigh hlow
      have htoNat :=
        toNat_ofNat_of_isValidChar (isValidChar_of_lone hhigh hlow)
      have hshort {n : Nat} {c : Char} (hc : c.toNat = n)
          (hs : shortEscape n ≠ none) : Char.ofNat u.toNat ≠ c := by
        intro heq
        rw [← hc, ← heq, htoNat] at hs
        exact hs hnone
      rw [List.singleton_append, parseString_char, hunits]
      · exact hshort (n := 0x22) rfl (by decide)
      · exact hshort (n := 0x5c) rfl (by decide)
      · rw [htoNat]
        omega

theorem parseString_quoteUnits (s : JsString) (rest : Text) :
    parseString (quoteUnits s ++ '"' :: rest) = some (s, rest) := by
  fun_induction quoteUnits s with
  | case1 => exact parseString_close rest
  | case2 u =>
      rw [parseString_quoteUnit, parseString_close]
      rfl
  | case3 u v s hpair ih =>
      rw [Bool.and_eq_true] at hpair
      have hge := surrogatePair_ge hpair.1 hpair.2
      have hne {c : Char} (hc : c.toNat < 0x10000) : surrogatePair u v ≠ c := by
        intro heq
        rw [heq] at hge
        omega
      rw [List.cons_append,
        parseString_char (hne (by decide)) (hne (by decide)) (by omega), ih,
        codeUnits_surrogatePair hpair.1 hpair.2]
      rfl
  | case4 u v s hpair ih =>
      rw [List.append_assoc, parseString_quoteUnit, ih]
      rfl

end IreBlockchain.Foundation
