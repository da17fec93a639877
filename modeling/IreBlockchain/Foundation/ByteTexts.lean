import IreBlockchain.Foundation.JsonStrings

/-!
# Bytes as texts

Bytes are written with two hex digits each, or in base64, where four characters
stand for three bytes and the last group is padded.  `atob` reads base64 back;
it skips white space and does not ask for the padding.
-/

namespace IreBlockchain.Foundation

/-! ## Hex -/

def hexText (bytes : Bytes) : Text :=
  bytes.flatMap fun b =>
    [Nat.digitChar (b.toNat / 16), Nat.digitChar (b.toNat % 16)]

def isHexDigit (c : Char) : Bool := (hexValue c).isSome

def readHexBytes : Text → Bytes
  | a :: b :: rest =>
      UInt8.ofNat ((hexValue a).getD 0 * 16 + (hexValue b).getD 0) ::
        readHexBytes rest
  | _ => []

/-! ## Base64 -/

def base64Alphabet : Text :=
  "ABCDEFGHIJKLMNOPQRSTUVWXYZabcdefghijklmnopqrstuvwxyz0123456789+/".toList

def base64Char (n : Nat) : Char := base64Alphabet.getD n '='

def base64Value (c : Char) : Option Nat := base64Alphabet.idxOf? c

/-- The bits of the bytes in groups of six, the last one filled with zeros. -/
def sextets : Bytes → List Nat
  | [] => []
  | [a] => [a.toNat / 4, a.toNat % 4 * 16]
  | [a, b] =>
      [a.toNat / 4, a.toNat % 4 * 16 + b.toNat / 16, b.toNat % 16 * 4]
  | a :: b :: c :: rest =>
      a.toNat / 4 :: (a.toNat % 4 * 16 + b.toNat / 16) ::
        (b.toNat % 16 * 4 + c.toNat / 64) :: c.toNat % 64 :: sextets rest

def base64 (bytes : Bytes) : Text :=
  (sextets bytes).map base64Char ++
    List.replicate ((3 - bytes.length % 3) % 3) '='

def ofSextets : List Nat → Bytes
  | a :: b :: c :: d :: rest =>
      UInt8.ofNat (a * 4 + b / 16) :: UInt8.ofNat (b % 16 * 16 + c / 4) ::
        UInt8.ofNat (c % 4 * 64 + d) :: ofSextets rest
  | [a, b, c] =>
      [UInt8.ofNat (a * 4 + b / 16), UInt8.ofNat (b % 16 * 16 + c / 4)]
  | [a, b] => [UInt8.ofNat (a * 4 + b / 16)]
  | _ => []

def isAsciiSpace (c : Char) : Bool :=
  c = '\t' || c = '\n' || c = '\x0c' || c = '\r' || c = ' '

def dropPadding (text : Text) : Text :=
  if text.length % 4 = 0 then
    if "==".toList <:+ text then text.take (text.length - 2)
    else if "=".toList <:+ text then text.dropLast
    else text
  else text

/-- The bytes of a base64 text, or none where `atob` throws. -/
def atob (text : Text) : Option Bytes :=
  let data := dropPadding (text.filter fun c => !isAsciiSpace c)
  if data.length % 4 = 1 then none
  else (data.mapM base64Value).map ofSextets

/-! ## Reading hex back -/

theorem hexValue_toLower (c : Char) : hexValue c.toLower = hexValue c := by
  by_cases hupper : c.isUpper = true
  · obtain ⟨hge, hle⟩ := isUpper_iff_toNat.mp hupper
    obtain ⟨n, hn⟩ := Nat.exists_eq_add_of_le hge
    have hc : c = Char.ofNat (65 + n) := by rw [← hn, Char.ofNat_toNat]
    have hlt : n < 26 := by omega
    subst hc
    clear hupper hge hle hn
    revert n
    decide
  · have hsame : c.toLower = c :=
      dif_neg fun hc => hupper (decide_eq_true hc)
    rw [hsame]

theorem readHexBytes_lower (text : Text) :
    readHexBytes (lower text) = readHexBytes text := by
  induction text using readHexBytes.induct with
  | case1 a b rest ih =>
      simp only [lower, List.map_cons] at ih ⊢
      simp only [readHexBytes, hexValue_toLower, ih]
  | case2 text hshort =>
      cases text with
      | nil => rfl
      | cons a text =>
          cases text with
          | nil => rfl
          | cons b rest => exact absurd rfl (hshort a b rest)

theorem all_isHexDigit_lower (text : Text) :
    (lower text).all isHexDigit = text.all isHexDigit := by
  rw [lower, List.all_map]
  congr 1
  funext c
  simp only [Function.comp_apply, isHexDigit, hexValue_toLower]

@[simp] theorem length_hexText (bytes : Bytes) :
    (hexText bytes).length = 2 * bytes.length := by
  induction bytes with
  | nil => rfl
  | cons b bytes ih =>
      simp only [hexText, List.flatMap_cons, List.length_append] at ih ⊢
      simp [ih]
      omega

theorem all_isHexDigit_hexText (bytes : Bytes) :
    (hexText bytes).all isHexDigit = true := by
  rw [List.all_eq_true]
  intro c hc
  obtain ⟨b, -, hc⟩ := List.mem_flatMap.mp hc
  have hb := b.toNat_lt
  have hdigit {d : Nat} (hd : d < 16) : isHexDigit (Nat.digitChar d) = true := by
    rw [isHexDigit, hexValue_digitChar hd]
    rfl
  rcases List.mem_cons.mp hc with rfl | hc
  · exact hdigit (by omega)
  · obtain rfl := List.mem_singleton.mp hc
    exact hdigit (by omega)

theorem readHexBytes_hexText (bytes : Bytes) :
    readHexBytes (hexText bytes) = bytes := by
  induction bytes with
  | nil => rfl
  | cons b bytes ih =>
      have hb := b.toNat_lt
      have hsum : b.toNat / 16 * 16 + b.toNat % 16 = b.toNat := by omega
      rw [hexText, List.flatMap_cons, ← hexText]
      simp only [List.cons_append, List.nil_append, readHexBytes, ih,
        hexValue_digitChar (show b.toNat / 16 < 16 by omega),
        hexValue_digitChar (show b.toNat % 16 < 16 by omega),
        Option.getD_some, hsum, UInt8.ofNat_toNat]

/-! ## Reading base64 back -/

theorem base64_alphabet {n : Nat} (h : n < 64) :
    base64Value (base64Char n) = some n ∧ base64Char n ≠ '=' ∧
      isAsciiSpace (base64Char n) = false := by
  revert n
  decide

theorem sextets_lt (bytes : Bytes) : ∀ n ∈ sextets bytes, n < 64 := by
  induction bytes using sextets.induct with
  | case1 => simp [sextets]
  | case2 a =>
      have ha := a.toNat_lt
      simp [sextets]
      omega
  | case3 a b =>
      have ha := a.toNat_lt
      have hb := b.toNat_lt
      simp [sextets]
      omega
  | case4 a b c rest ih =>
      have ha := a.toNat_lt
      have hb := b.toNat_lt
      have hc := c.toNat_lt
      intro n hn
      simp only [sextets, List.mem_cons] at hn
      rcases hn with rfl | rfl | rfl | rfl | hn
      · omega
      · omega
      · omega
      · omega
      · exact ih n hn

theorem length_sextets (bytes : Bytes) :
    (sextets bytes).length + (3 - bytes.length % 3) % 3 =
      4 * ((bytes.length + 2) / 3) := by
  induction bytes using sextets.induct with
  | case1 => simp [sextets]
  | case2 a => simp [sextets]
  | case3 a b => simp [sextets]
  | case4 a b c rest ih =>
      simp only [sextets, List.length_cons]
      omega

theorem ofSextets_sextets (bytes : Bytes) : ofSextets (sextets bytes) = bytes := by
  have hbyte {n : Nat} {b : UInt8} (h : n = b.toNat) : UInt8.ofNat n = b := by
    rw [h, UInt8.ofNat_toNat]
  induction bytes using sextets.induct with
  | case1 => rfl
  | case2 a => rw [sextets, ofSextets, hbyte (b := a) (by omega)]
  | case3 a b =>
      have hb := b.toNat_lt
      rw [sextets, ofSextets, hbyte (b := a) (by omega), hbyte (b := b) (by omega)]
  | case4 a b c rest ih =>
      have hb := b.toNat_lt
      have hc := c.toNat_lt
      rw [sextets, ofSextets, hbyte (b := a) (by omega),
        hbyte (b := b) (by omega), hbyte (b := c) (by omega), ih]

theorem dropPadding_append {text : Text} {n : Nat} (htext : '=' ∉ text)
    (hn : n ≤ 2) (hlength : (text.length + n) % 4 = 0) :
    dropPadding (text ++ List.replicate n '=') = text := by
  rw [dropPadding, if_pos (by simpa using hlength)]
  obtain rfl | rfl | rfl : n = 0 ∨ n = 1 ∨ n = 2 := by omega
  · have hone : ¬ "=".toList <:+ text := fun h => htext (h.subset (by decide))
    have htwo : ¬ "==".toList <:+ text := fun h => htext (h.subset (by decide))
    simp only [List.replicate_zero, List.append_nil, if_neg hone, if_neg htwo]
  · have htwo : ¬ "==".toList <:+ text ++ ['='] := by
      rintro ⟨before, h⟩
      have hlast : before ++ ['='] = text :=
        List.append_cancel_right
          (show before ++ ['='] ++ ['='] = text ++ ['='] by simpa using h)
      exact htext (hlast ▸ List.mem_append_right _ List.mem_cons_self)
    have hone : "=".toList <:+ text ++ ['='] := ⟨text, rfl⟩
    simp only [List.replicate_one, if_neg htwo, if_pos hone, List.dropLast_concat]
  · simp

theorem mapM_base64Value {ns : List Nat} (h : ∀ n ∈ ns, n < 64) :
    (ns.map base64Char).mapM base64Value = some ns := by
  induction ns with
  | nil => rfl
  | cons n ns ih =>
      have hn := (base64_alphabet (h n List.mem_cons_self)).1
      have hns := ih fun m hm => h m (List.mem_cons_of_mem n hm)
      rw [List.map_cons, List.mapM_cons, hn, hns]
      rfl

theorem atob_base64 (bytes : Bytes) : atob (base64 bytes) = some bytes := by
  have hlt := sextets_lt bytes
  have hlength := length_sextets bytes
  have hspace : (base64 bytes).filter (fun c => !isAsciiSpace c) = base64 bytes := by
    rw [List.filter_eq_self]
    intro c hc
    rcases List.mem_append.mp hc with hc | hc
    · obtain ⟨n, hn, rfl⟩ := List.mem_map.mp hc
      rw [(base64_alphabet (hlt n hn)).2.2]
      rfl
    · rw [List.eq_of_mem_replicate hc]
      rfl
  have hpad : '=' ∉ (sextets bytes).map base64Char := by
    intro hmem
    obtain ⟨n, hn, heq⟩ := List.mem_map.mp hmem
    exact (base64_alphabet (hlt n hn)).2.1 heq
  have hdata : dropPadding (base64 bytes) = (sextets bytes).map base64Char := by
    apply dropPadding_append hpad
    · omega
    · rw [List.length_map, hlength]
      omega
  have hfull : (sextets bytes).length % 4 ≠ 1 := by omega
  simp only [atob, hspace, hdata, List.length_map, if_neg hfull,
    mapM_base64Value hlt, Option.map_some, ofSextets_sextets]

theorem base64_cons (b : UInt8) (bytes : Bytes) :
    ∃ n rest, n < 16 ∧ base64 (b :: bytes) =
      base64Char (b.toNat / 4) :: base64Char (b.toNat % 4 * 16 + n) :: rest := by
  cases bytes with
  | nil => exact ⟨0, _, by decide, rfl⟩
  | cons c bytes =>
      have hc := c.toNat_lt
      cases bytes with
      | nil => exact ⟨c.toNat / 16, _, by omega, rfl⟩
      | cons d bytes => exact ⟨c.toNat / 16, _, by omega, rfl⟩

end IreBlockchain.Foundation
