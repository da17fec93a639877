import IreBlockchain.Foundation.Coercions
import IreBlockchain.Foundation.JsonStrings

/-!
# Lengths in bytes

A string of the language is measured in code units, what is stored of it in
bytes.  The two lengths are compared unit by unit, for the string itself and for
its quotation.
-/

namespace IreBlockchain.Foundation

def weigh (w : Char → Nat) (text : Text) : Nat := (text.map w).sum

/-- The units outside surrogate pairs together, with four bytes for a pair. -/
def pairedLength (unit : UInt16 → Nat) : JsString → Nat
  | [] => 0
  | [u] => unit u
  | u :: v :: rest =>
      if isHighSurrogate u && isLowSurrogate v then 4 + pairedLength unit rest
      else unit u + pairedLength unit (v :: rest)

def unitBytes (u : UInt16) : Nat :=
  if u.toNat < 0x80 then 1 else if u.toNat < 0x800 then 2 else 3

def quotedBytes (u : UInt16) : Nat :=
  if (shortEscape u.toNat).isSome then 2
  else if u.toNat < 0x20 || isHighSurrogate u || isLowSurrogate u then 6
  else unitBytes u

def textBytes : JsString → Nat := pairedLength unitBytes

/-- The bytes between the quotes of a quoted string. -/
def jsonBytes : JsString → Nat := pairedLength quotedBytes

/-- The same when the apostrophes of the quoted string are taken out. -/
def bareBytes : JsString → Nat :=
  pairedLength fun u => if u = 0x27 then 0 else quotedBytes u

def bareSize (c : Char) : Nat := if c = '\'' then 0 else c.utf8Size

/-! ## Weights -/

section Weights

variable {w : Char → Nat}

theorem weigh_cons (c : Char) (text : Text) :
    weigh w (c :: text) = w c + weigh w text := by
  rw [weigh, List.map_cons, List.sum_cons]
  rfl

theorem weigh_append (l m : Text) :
    weigh w (l ++ m) = weigh w l + weigh w m := by
  rw [weigh, List.map_append, List.sum_append]
  rfl

theorem weigh_congr {w' : Char → Nat} {text : Text}
    (h : ∀ c ∈ text, w c = w' c) : weigh w text = weigh w' text :=
  congrArg List.sum (List.map_congr_left h)

theorem weigh_eq_length {text : Text} (h : ∀ c ∈ text, w c = 1) :
    weigh w text = text.length := by
  induction text with
  | nil => rfl
  | cons c text ih =>
      rw [weigh_cons, h c List.mem_cons_self,
        ih fun d hd => h d (List.mem_cons_of_mem c hd), List.length_cons]
      omega

theorem byteLength_eq_weigh (text : Text) :
    byteLength text = weigh Char.utf8Size text := rfl

theorem byteLength_bare (text : Text) :
    byteLength (text.filter fun c => c ≠ '\'') = weigh bareSize text := by
  induction text with
  | nil => rfl
  | cons c text ih =>
      by_cases hc : c = '\''
      · rw [List.filter_cons_of_neg (by simpa using hc), ih, weigh_cons,
          bareSize, if_pos hc, Nat.zero_add]
      · rw [List.filter_cons_of_pos (by simpa using hc), byteLength_eq_weigh,
          weigh_cons, ← byteLength_eq_weigh, ih, weigh_cons, bareSize,
          if_neg hc]

end Weights

/-! ## Characters -/

theorem utf8Size_eq (c : Char) : c.utf8Size =
    if c.toNat < 0x80 then 1 else if c.toNat < 0x800 then 2
    else if c.toNat < 0x10000 then 3 else 4 := by
  unfold Char.utf8Size
  simp only [UInt32.le_iff_toNat_le, Char.toNat]
  have h7 : (UInt32.ofNatLT 127 (by decide)).toNat = 127 := rfl
  have h11 : (UInt32.ofNatLT 2047 (by decide)).toNat = 2047 := rfl
  have h16 : (UInt32.ofNatLT 65535 (by decide)).toNat = 65535 := rfl
  rw [h7, h11, h16]
  split_ifs <;> omega

theorem utf8Size_of_lt {c : Char} (h : c.toNat < 0x80) : c.utf8Size = 1 := by
  rw [utf8Size_eq, if_pos h]

theorem utf8Size_ofNat {u : UInt16} (hhigh : isHighSurrogate u = false)
    (hlow : isLowSurrogate u = false) :
    (Char.ofNat u.toNat).utf8Size = unitBytes u := by
  have hbound := u.toNat_lt
  have hsmall : u.toNat < 0x10000 := hbound
  rw [utf8Size_eq, toNat_ofNat_of_isValidChar (isValidChar_of_lone hhigh hlow),
    unitBytes, if_pos hsmall]

theorem utf8Size_surrogatePair {u v : UInt16} (hhigh : isHighSurrogate u = true)
    (hlow : isLowSurrogate v = true) : (surrogatePair u v).utf8Size = 4 := by
  have hge := surrogatePair_ge hhigh hlow
  rw [utf8Size_eq, if_neg (by omega), if_neg (by omega), if_neg (by omega)]

/-! ## Strings that are encoded -/

theorem utf8Size_unitChar (u : UInt16) :
    (unitChar u).utf8Size = unitBytes u := by
  rw [unitChar]
  split
  next hsurrogate =>
    simp only [isHighSurrogate, isLowSurrogate, Bool.or_eq_true,
      Bool.and_eq_true, decide_eq_true_eq] at hsurrogate
    rw [unitBytes, if_neg (by omega), if_neg (by omega)]
    decide
  next hlone =>
    rw [Bool.or_eq_true, not_or, Bool.not_eq_true, Bool.not_eq_true] at hlone
    exact utf8Size_ofNat hlone.1 hlone.2

theorem byteLength_toText (s : JsString) :
    byteLength (toText s) = textBytes s := by
  rw [textBytes, byteLength_eq_weigh]
  fun_induction toText s with
  | case1 => rfl
  | case2 u => rw [weigh_cons, utf8Size_unitChar, pairedLength]; rfl
  | case3 u v rest hpair ih =>
      rw [weigh_cons, ih, pairedLength, if_pos hpair]
      rw [Bool.and_eq_true] at hpair
      rw [utf8Size_surrogatePair hpair.1 hpair.2]
  | case4 u v rest hpair ih =>
      rw [weigh_cons, ih, utf8Size_unitChar, pairedLength, if_neg hpair]

/-! ## Strings that are quoted -/

theorem shortEscape_mem {n : Nat} {e : Char} (h : shortEscape n = some e) :
    e ∈ ['"', '\\', 'b', 'f', 'n', 'r', 't'] := by
  unfold shortEscape at h
  split_ifs at h
  all_goals
    cases h
    decide

theorem digitChar_ascii {d : Nat} (h : d < 16) :
    (Nat.digitChar d).toNat < 0x80 ∧ Nat.digitChar d ≠ '\'' := by
  revert d
  decide

theorem unicodeEscape_ascii (u : UInt16) :
    ∀ c ∈ unicodeEscape u, c.toNat < 0x80 ∧ c ≠ '\'' := by
  have hmod (n : Nat) : n % 16 < 16 := Nat.mod_lt n (by decide)
  intro c hc
  simp only [unicodeEscape, hexDigits, List.mem_cons, List.not_mem_nil,
    or_false] at hc
  rcases hc with rfl | rfl | rfl | rfl | rfl | rfl
  · decide
  · decide
  all_goals exact digitChar_ascii (hmod _)

theorem weigh_quoteUnit (u : UInt16) :
    weigh Char.utf8Size (quoteUnit u) = quotedBytes u := by
  rw [quoteUnit, quotedBytes]
  split
  next e he =>
    have hsize : ∀ c ∈ ['"', '\\', 'b', 'f', 'n', 'r', 't'],
        c.utf8Size = 1 := List.all_iff_forall_prop.mp (by decide)
    have hescape := hsize e (shortEscape_mem he)
    rw [he, Option.isSome_some, if_pos rfl, weigh_cons, weigh_cons, hescape]
    rfl
  next hnone =>
    simp only [hnone, Option.isSome_none, Bool.false_eq_true, if_false]
    split
    next =>
      have hsize : ∀ c ∈ unicodeEscape u, c.utf8Size = 1 := by
        intro c hc
        exact utf8Size_of_lt (unicodeEscape_ascii u c hc).1
      exact weigh_eq_length hsize
    next hplain =>
      simp only [Bool.or_eq_true, not_or, Bool.not_eq_true] at hplain
      rw [weigh_cons, utf8Size_ofNat hplain.1.2 hplain.2]
      rfl

theorem apostrophe_mem_quoteUnit {u : UInt16} :
    '\'' ∈ quoteUnit u ↔ u = 0x27 := by
  constructor
  · intro hmem
    rw [quoteUnit] at hmem
    split at hmem
    next e he =>
      have hletters : ∀ c ∈ ['"', '\\', 'b', 'f', 'n', 'r', 't'],
          '\'' ∉ ['\\', c] :=
        List.all_iff_forall_prop.mp (by decide)
      exact absurd hmem (hletters e (shortEscape_mem he))
    next =>
      split at hmem
      next => exact absurd rfl (unicodeEscape_ascii u _ hmem).2
      next hplain =>
        simp only [Bool.or_eq_true, not_or, Bool.not_eq_true] at hplain
        have hvalid := isValidChar_of_lone hplain.1.2 hplain.2
        have hchar : Char.ofNat u.toNat = '\'' :=
          (List.mem_singleton.mp hmem).symm
        have hnat : u.toNat = 0x27 := by
          rw [← toNat_ofNat_of_isValidChar hvalid, hchar]
          rfl
        exact UInt16.toNat_inj.mp hnat
  · rintro rfl
    decide

theorem weigh_bare_quoteUnit (u : UInt16) :
    weigh bareSize (quoteUnit u) = if u = 0x27 then 0 else quotedBytes u := by
  split
  next hu =>
    rw [hu]
    decide
  next hu =>
    rw [← weigh_quoteUnit]
    apply weigh_congr
    intro c hc
    rw [bareSize, if_neg]
    rintro rfl
    exact hu (apostrophe_mem_quoteUnit.mp hc)

theorem weigh_quoteUnits {w : Char → Nat} {unit : UInt16 → Nat}
    (hunit : ∀ u, weigh w (quoteUnit u) = unit u)
    (hpair : ∀ u v, isHighSurrogate u = true → isLowSurrogate v = true →
      w (surrogatePair u v) = 4) (s : JsString) :
    weigh w (quoteUnits s) = pairedLength unit s := by
  fun_induction quoteUnits s with
  | case1 => rfl
  | case2 u => rw [hunit, pairedLength]
  | case3 u v rest huv ih =>
      rw [weigh_cons, ih, pairedLength, if_pos huv]
      rw [Bool.and_eq_true] at huv
      rw [hpair u v huv.1 huv.2]
  | case4 u v rest huv ih =>
      rw [weigh_append, ih, hunit, pairedLength, if_neg huv]

theorem weigh_quote {w : Char → Nat} (hquote : w '"' = 1) (s : JsString) :
    weigh w (quote s) = weigh w (quoteUnits s) + 2 := by
  rw [quote, List.cons_append, weigh_cons, weigh_append, weigh_cons, hquote]
  change 1 + (_ + (1 + 0)) = _
  omega

theorem byteLength_quote (s : JsString) :
    byteLength (quote s) = jsonBytes s + 2 := by
  rw [byteLength_eq_weigh, weigh_quote (by decide),
    weigh_quoteUnits weigh_quoteUnit fun u v => utf8Size_surrogatePair]
  rfl

theorem surrogatePair_ne_apostrophe {u v : UInt16}
    (hhigh : isHighSurrogate u = true) (hlow : isLowSurrogate v = true) :
    surrogatePair u v ≠ '\'' := by
  intro heq
  have hge := surrogatePair_ge hhigh hlow
  rw [heq] at hge
  exact absurd hge (by decide)

theorem weigh_bare_quote (s : JsString) :
    weigh bareSize (quote s) = bareBytes s + 2 := by
  rw [weigh_quote (by decide), weigh_quoteUnits weigh_bare_quoteUnit]
  · rfl
  · intro u v hhigh hlow
    rw [bareSize, if_neg (surrogatePair_ne_apostrophe hhigh hlow),
      utf8Size_surrogatePair hhigh hlow]

/-! ## Strings without apostrophes -/

theorem apostrophe_not_mem_quote {s : JsString} (h : 0x27 ∉ s) :
    '\'' ∉ quote s := by
  have hunits : '\'' ∉ quoteUnits s := by
    fun_induction quoteUnits s with
    | case1 => exact List.not_mem_nil
    | case2 u =>
        rw [apostrophe_mem_quoteUnit]
        exact fun heq => h (List.mem_singleton.mpr heq.symm)
    | case3 u v rest huv ih =>
        rw [Bool.and_eq_true] at huv
        rw [List.mem_cons, not_or]
        refine ⟨(surrogatePair_ne_apostrophe huv.1 huv.2).symm, ih ?_⟩
        exact fun hmem => h (List.mem_cons_of_mem u (List.mem_cons_of_mem v hmem))
    | case4 u v rest huv ih =>
        rw [List.mem_append, not_or, apostrophe_mem_quoteUnit]
        refine ⟨fun heq => h (List.mem_cons.mpr (Or.inl heq.symm)), ih ?_⟩
        exact fun hmem => h (List.mem_cons_of_mem u hmem)
  simp [quote, hunits]

theorem unitChar_ne_apostrophe {u : UInt16} (h : u ≠ 0x27) :
    unitChar u ≠ '\'' := by
  rw [unitChar]
  split
  next => decide
  next hlone =>
    rw [Bool.or_eq_true, not_or, Bool.not_eq_true, Bool.not_eq_true] at hlone
    intro heq
    have hvalid := isValidChar_of_lone hlone.1 hlone.2
    have hnat : u.toNat = 0x27 := by
      rw [← toNat_ofNat_of_isValidChar hvalid, heq]
      rfl
    exact h (UInt16.toNat_inj.mp hnat)

theorem apostrophe_not_mem_toText {s : JsString} (h : 0x27 ∉ s) :
    '\'' ∉ toText s := by
  fun_induction toText s with
  | case1 => exact List.not_mem_nil
  | case2 u =>
      have hu : u ≠ 0x27 := fun heq => h (List.mem_singleton.mpr heq.symm)
      rw [List.mem_singleton]
      exact (unitChar_ne_apostrophe hu).symm
  | case3 u v rest huv ih =>
      rw [Bool.and_eq_true] at huv
      rw [List.mem_cons, not_or]
      refine ⟨(surrogatePair_ne_apostrophe huv.1 huv.2).symm, ih ?_⟩
      exact fun hmem => h (List.mem_cons_of_mem u (List.mem_cons_of_mem v hmem))
  | case4 u v rest huv ih =>
      have hu : u ≠ 0x27 := fun heq => h (List.mem_cons.mpr (Or.inl heq.symm))
      rw [List.mem_cons, not_or]
      refine ⟨(unitChar_ne_apostrophe hu).symm, ih ?_⟩
      exact fun hmem => h (List.mem_cons_of_mem u hmem)

/-! ## Objects -/

section Objects

variable {fmt : NumberFormat} {w : Char → Nat}

/-- A member with its colon and the comma or brace behind it. -/
def memberWeight (w : Char → Nat) (member : JsString × Json fmt.Number) : Nat :=
  weigh w (quote member.1) + weigh w (member.2.stringify fmt) + 2

theorem weigh_stringifyMembers (hcomma : w ',' = 1) (hcolon : w ':' = 1)
    (members : List (JsString × Json fmt.Number)) :
    weigh w (stringifyMembers fmt members) =
      (members.map (memberWeight w)).sum := by
  induction members with
  | nil => rfl
  | cons member members ih =>
      obtain ⟨key, v⟩ := member
      rw [stringifyMembers, List.cons_append, List.cons_append, weigh_cons,
        weigh_append, weigh_append, weigh_cons, ih, hcomma, hcolon,
        List.map_cons, List.sum_cons, memberWeight]
      dsimp only
      omega

theorem weigh_object (hopen : w '{' = 1) (hclose : w '}' = 1)
    (hcomma : w ',' = 1) (hcolon : w ':' = 1)
    (member : JsString × Json fmt.Number)
    (members : List (JsString × Json fmt.Number)) :
    weigh w ((Json.object (member :: members)).stringify fmt) =
      1 + ((member :: members).map (memberWeight w)).sum := by
  obtain ⟨key, v⟩ := member
  rw [Json.stringify]
  simp only [List.cons_append, List.append_assoc, weigh_cons, weigh_append,
    weigh_stringifyMembers hcomma hcolon, List.map_cons, List.sum_cons,
    memberWeight, hopen, hclose, hcolon]
  change 1 + (_ + (1 + (_ + (_ + (1 + 0))))) = _
  omega

end Objects

end IreBlockchain.Foundation
