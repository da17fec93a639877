import IreBlockchain.Foundation.PrefixStore
import IreBlockchain.Foundation.Protobuf

/-!
# Stores of encoded keys and values

An encoding of the keys that keeps their order carries a store over to a store
of encodings, where gets, sets and iterators do the same.  UTF-8 is one.
-/

namespace IreBlockchain.Foundation

namespace KVStore

variable {Key Key' Value Value' : Type} [LinearOrder Key] [LinearOrder Key']

def encode (f : Key → Key') (hf : StrictMono f) (g : Value → Value')
    (s : KVStore Key Value) : KVStore Key' Value' where
  entries := s.entries.map fun entry => (f entry.1, g entry.2)
  sorted := by
    rw [List.pairwise_map]
    exact s.sorted.imp fun hlt => hf hlt

variable {f : Key → Key'} (hf : StrictMono f) {g : Value → Value'}

theorem get_encode (s : KVStore Key Value) (key : Key) :
    (s.encode f hf g).get (f key) = (s.get key).map g := by
  obtain ⟨entries, hsorted⟩ := s
  simp only [get, encode]
  clear hsorted
  induction entries with
  | nil => rfl
  | cons entry entries ih =>
      by_cases h : entry.1 = key
      · simp [h]
      · simpa [h, hf.injective.ne h] using ih

include hf in
theorem insertEntry_encode (key : Key) (value : Value)
    (entries : List (Key × Value)) :
    (insertEntry key value entries).map (fun entry => (f entry.1, g entry.2)) =
      insertEntry (f key) (g value)
        (entries.map fun entry => (f entry.1, g entry.2)) := by
  induction entries with
  | nil => rfl
  | cons entry entries ih =>
      simp only [List.map_cons, insertEntry, hf.lt_iff_lt,
        hf.injective.eq_iff]
      split
      · rfl
      · split
        · rfl
        · rw [List.map_cons, ih]

theorem set_encode (s : KVStore Key Value) (key : Key) (value : Value) :
    (s.set key value).encode f hf g =
      (s.encode f hf g).set (f key) (g value) := by
  unfold set encode
  simp only [insertEntry_encode hf]

theorem iterate_encode (s : KVStore Key Value) {range : Key → Bool}
    {range' : Key' → Bool} (h : ∀ key, range' (f key) = range key) :
    (s.encode f hf g).iterate range' =
      (s.iterate range).map fun entry => (f entry.1, g entry.2) := by
  unfold iterate encode
  simp only [List.filter_map, Function.comp_def, h]

end KVStore

/-! ## The order of UTF-8 -/

instance linearOrderByte : LinearOrder UInt8 where
  le_refl := UInt8.le_refl
  le_trans _ _ _ := UInt8.le_trans
  le_antisymm _ _ := UInt8.le_antisymm
  le_total := UInt8.le_total
  lt_iff_le_not_ge a b := by
    rw [UInt8.lt_iff_toNat_lt, UInt8.le_iff_toNat_le, UInt8.le_iff_toNat_le]
    omega
  toDecidableLE := inferInstance
  toDecidableEq := inferInstance

theorem digits_lt {v w : Nat} (h : v < w) :
    v / 262144 < w / 262144 ∨ v / 262144 = w / 262144 ∧
      (v / 4096 % 64 < w / 4096 % 64 ∨ v / 4096 % 64 = w / 4096 % 64 ∧
        (v / 64 % 64 < w / 64 % 64 ∨ v / 64 % 64 = w / 64 % 64 ∧
          v % 64 < w % 64)) := by
  have hv : v / 4096 = v / 64 / 64 := (Nat.div_div_eq_div_mul v 64 64).symm
  have hw : w / 4096 = w / 64 / 64 := (Nat.div_div_eq_div_mul w 64 64).symm
  have hv' : v / 262144 = v / 64 / 64 / 64 := by
    rw [Nat.div_div_eq_div_mul, Nat.div_div_eq_div_mul]
  have hw' : w / 262144 = w / 64 / 64 / 64 := by
    rw [Nat.div_div_eq_div_mul, Nat.div_div_eq_div_mul]
  rw [hv, hw, hv', hw']
  omega

/-- An earlier character has an earlier encoding, whatever follows the two. -/
theorem utf8EncodeChar_lt {c d : Char} (h : c < d) (rest rest' : Bytes) :
    String.utf8EncodeChar c ++ rest < String.utf8EncodeChar d ++ rest' := by
  have hlt : c.val.toNat < d.val.toNat := h
  have hmax : d.val.toNat < 0x110000 := by
    rcases d.valid with hd | hd <;> (simp only [UInt32.toNat] at *; omega)
  have hdigits := digits_lt hlt
  unfold String.utf8EncodeChar
  dsimp only
  split_ifs <;>
    simp (disch := omega) only [List.cons_append, List.nil_append,
      List.cons_lt_cons_iff, UInt8.lt_iff_toNat_lt, ← UInt8.toNat_inj,
      UInt8.toNat_ofNat', Nat.mod_eq_of_lt] <;>
    omega

theorem utf8_strictMono : StrictMono utf8 := by
  intro text text' h
  induction text generalizing text' with
  | nil =>
      cases text' with
      | nil => exact absurd h (lt_irrefl _)
      | cons d text' =>
          rw [utf8_cons]
          have hne := String.utf8EncodeChar_ne_nil (c := d)
          cases hd : String.utf8EncodeChar d with
          | nil => exact absurd hd hne
          | cons b bytes => exact List.nil_lt_cons _ _
  | cons c text ih =>
      cases text' with
      | nil => exact absurd h (List.not_lt_nil _)
      | cons d text' =>
          rw [utf8_cons, utf8_cons]
          rcases List.cons_lt_cons_iff.mp h with hlt | ⟨rfl, hlt⟩
          · exact utf8EncodeChar_lt hlt _ _
          · exact List.append_left_lt (ih hlt)

theorem utf8_prefix_iff {stem key : Text} :
    utf8 stem <+: utf8 key ↔ stem <+: key := by
  constructor
  · intro h
    induction stem generalizing key with
    | nil => exact List.nil_prefix
    | cons c stem ih =>
        obtain ⟨rest, hrest⟩ := h
        rw [utf8_cons, List.append_assoc] at hrest
        cases key with
        | nil =>
            have hnil := (List.append_eq_nil_iff.mp hrest).1
            exact absurd hnil (String.utf8EncodeChar_ne_nil)
        | cons d key =>
            rw [utf8_cons] at hrest
            rcases lt_trichotomy c d with hlt | rfl | hlt
            · exact absurd hrest (utf8EncodeChar_lt hlt _ _).ne
            · have hstem := ih ⟨rest, List.append_cancel_left hrest⟩
              exact List.cons_prefix_cons.mpr ⟨rfl, hstem⟩
            · exact absurd hrest (utf8EncodeChar_lt hlt _ _).ne'
  · rintro ⟨rest, rfl⟩
    rw [utf8_append]
    exact List.prefix_append _ _

theorem KVStore.iterateUnder_encode {Value Value' : Type}
    (s : KVStore Text Value) {g : Value → Value'} (stem : Text) :
    (s.encode utf8 utf8_strictMono g).iterateUnder (utf8 stem) =
      (s.iterateUnder stem).map fun entry => (utf8 entry.1, g entry.2) := by
  have hrange : ∀ key : Text,
      (utf8 stem).isPrefixOf (utf8 key) = stem.isPrefixOf key := by
    intro key
    rw [Bool.eq_iff_iff, List.isPrefixOf_iff_prefix,
      List.isPrefixOf_iff_prefix]
    exact utf8_prefix_iff
  have hvisited : (s.encode utf8 utf8_strictMono g).iterate
      (fun key => (utf8 stem).isPrefixOf key) =
        (s.iterate fun key => stem.isPrefixOf key).map fun entry =>
          (utf8 entry.1, g entry.2) := iterate_encode utf8_strictMono s hrange
  unfold iterateUnder
  rw [hvisited, List.map_map, List.map_map]
  apply List.map_congr_left
  intro entry hentry
  obtain ⟨rest, hrest⟩ := List.isPrefixOf_iff_prefix.mp
    (mem_iterate_iff.mp hentry).2
  simp only [Function.comp, ← hrest, utf8_append, List.drop_left]

end IreBlockchain.Foundation
