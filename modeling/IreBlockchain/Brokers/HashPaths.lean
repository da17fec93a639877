import IreBlockchain.Brokers.LongStrings
import IreBlockchain.Brokers.Mandates
import IreBlockchain.Brokers.Skills

/-!
# The two paths of the hash

Under Node the digests come from `crypto`, in the browser from `sha256pure`.  The
tables of the brokers hash short ASCII texts only, and are the same on both paths.
-/

namespace IreBlockchain.Brokers

open IreBlockchain.Foundation

/-- `crypto` is what `require("crypto")` makes of bytes, none where it is not there. -/
def sha256hex (T : Sha256Tables) (crypto : Bytes → Option Text) (str : Text) : Text :=
  (crypto (utf8 str)).getD (sha256pure T (toJsString str))

theorem sha256pure_hex (T : Sha256Tables) (ascii : JsString) :
    ∃ bytes : Bytes, sha256pure T ascii = hexText bytes ∧ bytes.length = 32 :=
  ⟨_, Sha256Pure.resultText_eq _, rfl⟩

theorem sha256Hex_hex (message : Bytes) :
    ∃ bytes : Bytes, sha256Hex message = hexText bytes ∧ bytes.length = 32 :=
  ⟨_, rfl, rfl⟩

def browserHash (T : Sha256Tables) : HexHash where
  sha256hex := sha256hex T fun _ => none
  length_le str := by
    obtain ⟨bytes, htext, hlen⟩ := sha256pure_hex T (toJsString str)
    simp [sha256hex, htext, hlen]
  all_isHexDigit str := by
    obtain ⟨bytes, htext, -⟩ := sha256pure_hex T (toJsString str)
    simp only [sha256hex, htext, Option.getD_none]
    exact all_isHexDigit_hexText bytes

def nodeHash (T : Sha256Tables) : HexHash where
  sha256hex := sha256hex T fun message => some (sha256Hex message)
  length_le str := by
    obtain ⟨bytes, htext, hlen⟩ := sha256Hex_hex (utf8 str)
    simp [sha256hex, htext, hlen]
  all_isHexDigit str := by
    obtain ⟨bytes, htext, -⟩ := sha256Hex_hex (utf8 str)
    simp only [sha256hex, htext, Option.getD_some]
    exact all_isHexDigit_hexText bytes

/-! ## Short texts -/

/-- ASCII characters, and at most `n` of them. -/
structure Ascii (n : Nat) (text : Text) : Prop where
  lt : ∀ c ∈ text, c.toNat < 128
  length_le : text.length ≤ n

def isWord (text : Text) : Bool :=
  text.all (fun c => c.toNat < 128) && text.length ≤ 32

theorem Ascii.append {n m : Nat} {a b : Text} (ha : Ascii n a) (hb : Ascii m b) :
    Ascii (n + m) (a ++ b) where
  lt c hc := by
    rcases List.mem_append.mp hc with hc | hc
    · exact ha.lt c hc
    · exact hb.lt c hc
  length_le := by
    rw [List.length_append]
    exact Nat.add_le_add ha.length_le hb.length_le

theorem ascii_of_isWord {word : Text} (h : isWord word = true) : Ascii 32 word := by
  simp only [isWord, Bool.and_eq_true, List.all_eq_true, decide_eq_true_eq] at h
  exact ⟨h.1, h.2⟩

theorem ascii_decimal_of_lt {n : Nat} (h : n < 2 ^ 53) : Ascii 16 (decimal n) where
  lt c hc := by
    have hdigit : c.isDigit = true :=
      Nat.isDigit_of_mem_toDigits (by decide) (by decide) hc
    have hle : c.toNat ≤ 57 := (Char.isDigit_iff_toNat.mp hdigit).2
    omega
  length_le :=
    (Nat.length_toDigits_le_iff (by decide) (by decide)).mpr (by omega)

/-! ## Hashes that agree on them -/

def Agree (H H' : HexHash) : Prop :=
  ∀ n str, Ascii n str → n + 8 < 2 ^ 31 → H.sha256hex str = H'.sha256hex str

theorem browserHash_agree (T : Sha256Tables) :
    Agree (browserHash T) (nodeHash T) := by
  intro n str hstr hn
  exact sha256pure_eq_sha256Hex T hstr.lt (by have := hstr.length_le; omega)

section Congr

variable {H H' : HexHash} (h : Agree H H')

include h

theorem rngMod_congr {id n : Nat} {salt : Text} (hn : n + 8 < 2 ^ 31)
    (htext : Ascii n (rngText id salt)) (size : Nat) :
    rngMod H id salt size = rngMod H' id salt size := by
  simp only [rngMod, HexHash.leading, h n _ htext hn]

variable {id : Nat}

theorem rngMod_word {salt : Text} (hid : id < 2 ^ 53) (hsalt : isWord salt = true)
    (size : Nat) : rngMod H id salt size = rngMod H' id salt size := by
  have hfront : Ascii 32 "crypto-brokers-".toList := ascii_of_isWord (by decide)
  have hdash : Ascii 32 ['-'] := ascii_of_isWord (by decide)
  have htext := (hfront.append (ascii_decimal_of_lt hid)).append
    (hdash.append (ascii_of_isWord hsalt))
  exact rngMod_congr h (by omega) htext size

theorem pick_congr {α : Type} {salt : Text} (hid : id < 2 ^ 53)
    (hsalt : isWord salt = true) (options : List α) (hne : 0 < options.length) :
    pick H id salt options hne = pick H' id salt options hne := by
  simp only [pick, rngMod_word h hid hsalt]

theorem traitsFor_congr (id : Nat) : traitsFor H id = traitsFor H' id := by
  unfold traitsFor
  split
  next => rfl
  next hrange =>
    have hid : id < 2 ^ 53 := by
      simp only [Config.collectionSize] at hrange
      omega
    simp (disch := decide) only [pick_congr h hid, rarity, rngMod_word h hid]

/-! ## The mandate table -/

theorem onStockSide_congr (hid : id < 2 ^ 53) :
    onStockSide H id = onStockSide H' id := by
  simp (disch := decide) only [onStockSide, universeOf, pick_congr h hid,
    rngMod_word h hid]

theorem onStockSide_of_mem_ids : ∀ id ∈ ids, onStockSide H id = onStockSide H' id := by
  intro id hmem
  apply onStockSide_congr h
  simp only [ids, Config.collectionSize, List.mem_range'_1] at hmem
  omega

theorem stockIds_congr : stockIds H = stockIds H' :=
  List.filter_congr (onStockSide_of_mem_ids h)

theorem tokenIds_congr : tokenIds H = tokenIds H' :=
  List.filter_congr fun id hmem => by rw [onStockSide_of_mem_ids h id hmem]

theorem pools_congr : pools H = pools H' := by
  simp only [pools, stockIds_congr h, tokenIds_congr h]

theorem shuffleFrom_congr {salt : Text} (hsalt : isWord salt = true) {i : Nat}
    (hi : i < 2 ^ 52) (arr : List Text) :
    shuffleFrom H salt i arr = shuffleFrom H' salt i arr := by
  induction i generalizing arr with
  | zero => rfl
  | succ i ih =>
      rw [shuffleFrom, shuffleFrom, rngMod_word h (by omega) hsalt, ih (by omega)]

theorem mandateTable_congr : mandateTable H = mandateTable H' := by
  obtain ⟨stocks, tokens, hpools, hstocks, htokens, -⟩ := pools_eq_some H'
  have hsides := length_sides H'
  simp only [Config.collectionSize] at hsides
  have hword : isWord "asset".toList = true := by decide
  simp only [mandateTable, pools_congr h, stockIds_congr h, tokenIds_congr h, hpools,
    Option.map_some, shuffle]
  rw [shuffleFrom_congr h hword (by omega), shuffleFrom_congr h hword (by omega)]

/-! ## The skill table -/

theorem comboStart_congr (hid : id < 2 ^ 53) : comboStart H id = comboStart H' id := by
  have hfront : Ascii 32 "crypto-brokers-skill-".toList := ascii_of_isWord (by decide)
  have hback : Ascii 32 "-combo".toList := ascii_of_isWord (by decide)
  have htext := (hfront.append (ascii_decimal_of_lt hid)).append hback
  have hdigest := h _ (comboText id) htext (by omega)
  rw [comboStart, comboStart, HexHash.leading, HexHash.leading, hdigest]

theorem sidText_congr (hid : id < 2 ^ 53) {sidProbe : Nat}
    (hprobe : sidProbe < 2 ^ 53) : sidText H id sidProbe = sidText H' id sidProbe := by
  have hfront : Ascii 32 "crypto-brokers-skillid-".toList :=
    ascii_of_isWord (by decide)
  have hmark : Ascii 32 "-p".toList := ascii_of_isWord (by decide)
  have hfirst := hfront.append (ascii_decimal_of_lt hid)
  have hnext := (hfirst.append hmark).append (ascii_decimal_of_lt hprobe)
  unfold sidText
  split
  next => simp only [h _ _ hfirst (by omega)]
  next => simp only [h _ _ hnext (by omega)]

theorem findSid_congr (hid : id < 2 ^ 53) (usedSid : List Text)
    {tries sidProbe : Nat} (hprobe : sidProbe + tries < 2 ^ 53) :
    findSid H usedSid id tries sidProbe = findSid H' usedSid id tries sidProbe := by
  induction tries generalizing sidProbe with
  | zero =>
      have hprobe' : sidProbe < 2 ^ 53 := by omega
      simp only [findSid, sidText_congr h hid hprobe']
  | succ tries ih =>
      have hprobe' : sidProbe < 2 ^ 53 := by omega
      have hnext := ih (show sidProbe + 1 + tries < 2 ^ 53 by omega)
      simp only [findSid, sidText_congr h hid hprobe', hnext]

theorem addSkill_congr (hid : id < 2 ^ 53) (t : SkillTable) :
    addSkill H t id = addSkill H' t id := by
  have hsid : findSid H t.usedSid id 64 0 = findSid H' t.usedSid id 64 0 :=
    findSid_congr h hid t.usedSid (by omega)
  simp only [addSkill, findCombo, comboStart_congr h hid, hsid]

theorem foldlM_addSkill_congr {ids : List Nat} (hids : ∀ id ∈ ids, id < 2 ^ 53)
    (t : SkillTable) : ids.foldlM (addSkill H) t = ids.foldlM (addSkill H') t := by
  induction ids generalizing t with
  | nil => rfl
  | cons id ids ih =>
      rw [List.foldlM_cons, List.foldlM_cons,
        addSkill_congr h (hids id List.mem_cons_self) t]
      congr 1
      funext t'
      exact ih (fun id' hid' => hids id' (List.mem_cons_of_mem id hid')) t'

theorem skillTable_congr {collectionSize : Nat} (hsize : collectionSize < 2 ^ 53) :
    skillTable H collectionSize = skillTable H' collectionSize := by
  have hids : ∀ id ∈ List.range' 1 collectionSize, id < 2 ^ 53 := by
    intro id hid
    rw [List.mem_range'_1] at hid
    omega
  rw [skillTable, skillTable, foldlM_addSkill_congr h hids]

end Congr

/-! ## Both paths -/

/--
`sha256pure` writes the digest of the standard for every ASCII string whose
padding ends before the place `2 ^ 31`; the traits and both tables are those of
Node in the browser.
-/
theorem browser_agrees_with_node (T : Sha256Tables) :
    (∀ text : Text, (∀ c ∈ text, c.toNat < 128) → text.length + 8 < 2 ^ 31 →
      sha256pure T (toJsString text) = sha256Hex (utf8 text)) ∧
    (∀ id salt size, (∀ c ∈ rngText id salt, c.toNat < 128) →
      (rngText id salt).length + 8 < 2 ^ 31 →
      rngMod (browserHash T) id salt size = rngMod (nodeHash T) id salt size) ∧
    (∀ id, traitsFor (browserHash T) id = traitsFor (nodeHash T) id) ∧
    mandateTable (browserHash T) = mandateTable (nodeHash T) ∧
    ∀ collectionSize < 2 ^ 53, skillTable (browserHash T) collectionSize =
      skillTable (nodeHash T) collectionSize := by
  have hagree := browserHash_agree T
  refine ⟨fun text => sha256pure_eq_sha256Hex T, ?_, traitsFor_congr hagree,
    mandateTable_congr hagree, fun _ => skillTable_congr hagree⟩
  intro id salt size hascii hlen
  exact rngMod_congr hagree hlen ⟨hascii, le_rfl⟩ size

def fipsTables : Sha256Tables where
  h := Sha256.HashValue.initial.words.map JsNum.ofInt32
  k := Sha256.roundConstants.map JsNum.ofInt32
  take_h := rfl
  k_eq := rfl

theorem browser_agrees_with_node_sample :
    sha256pure fipsTables (toJsString "abc".toList) =
      ("ba7816bf8f01cfea414140de5dae2223".toList ++
        "b00361a396177a9cb410ff61f20015ad".toList) := by
  have hword : Ascii 32 "abc".toList := ascii_of_isWord (by decide)
  have hdigest := (browser_agrees_with_node fipsTables).1 "abc".toList hword.lt
    (by decide)
  rw [hdigest]
  decide +kernel

/-- With `2 ^ 31 + 1` characters the digest is another, the last one being lost. -/
theorem long_string_not_hashed :
    ¬ ∀ (T : Sha256Tables) (text : Text), (∀ c ∈ text, c.toNat < 128) →
      8 * text.length < 2 ^ 52 →
      sha256pure T (toJsString text) = sha256Hex (utf8 text) := by
  intro hclaim
  obtain ⟨n, hn⟩ : ∃ n, 64 * n = 2 ^ 31 := ⟨2 ^ 25, by decide⟩
  obtain ⟨front, hlen, hascii⟩ : ∃ front : Text, front.length = 64 * n ∧
      ∀ c ∈ front, c.toNat < 128 := by
    refine ⟨List.replicate (64 * n) 'a', List.length_replicate, ?_⟩
    intro c hc
    rw [List.eq_of_mem_replicate hc]
    decide
  have hback {c : Char} {b : UInt8} (hc : c.toNat < 128) (hb : utf8 [c] = [b]) :
      Sha256.unrounds (Sha256Pure.lastBlock b) 0 64 Sha256Pure.lastHash =
        Sha256.hashBlocks .initial n (Sha256.toWords (utf8 front)) := by
    have hall : ∀ c' ∈ front ++ [c], c'.toNat < 128 := by
      intro c' hc'
      rcases List.mem_append.mp hc' with hc' | hc'
      · exact hascii c' hc'
      · rwa [List.mem_singleton.mp hc']
    have hlength : 8 * (front ++ [c]).length < 2 ^ 52 := by
      rw [List.length_append, hlen, hn, List.length_singleton]
      decide
    have hbytes : utf8 (front ++ [c]) = utf8 front ++ [b] := by
      rw [← hb]
      exact List.flatMap_append
    have hdigest := hclaim fipsTables (front ++ [c]) hall hlength
    rw [(toJsString_eq_map_utf8 hall).1, hbytes] at hdigest
    have hfront := (toJsString_eq_map_utf8 hascii).2.trans hlen
    exact Sha256Pure.unrounds_lastHash hn hfront b fipsTables hdigest
  have ha := hback (c := 'a') (b := 0x61) (by decide) rfl
  have hb := hback (c := 'b') (b := 0x62) (by decide) rfl
  exact Sha256Pure.unrounds_differ (ha.trans hb.symm)

end IreBlockchain.Brokers
