import IreBlockchain.Foundation.Text

/-!
# Protobuf encoding

The wire format of the fields that transactions are made of.
-/

namespace IreBlockchain.Foundation

/-- Seven bits a byte, the lowest first; `fuel` bounds the number of bytes. -/
def varintFrom : Nat → Nat → Bytes
  | 0, n => [UInt8.ofNat (n % 128)]
  | fuel + 1, n =>
      if n < 128 then [UInt8.ofNat n]
      else UInt8.ofNat (n % 128 + 128) :: varintFrom fuel (n / 128)

def varint (n : Nat) : Bytes := varintFrom n n

def tag (field wireType : Nat) : Bytes := varint (field * 8 + wireType)

def varintField (field n : Nat) : Bytes :=
  if n = 0 then [] else tag field 0 ++ varint n

/-- A field of known length, written even if it is empty. -/
def messageField (field : Nat) (payload : Bytes) : Bytes :=
  tag field 2 ++ varint payload.length ++ payload

def bytesField (field : Nat) (payload : Bytes) : Bytes :=
  if payload = [] then [] else messageField field payload

def utf8 (text : Text) : Bytes := text.flatMap String.utf8EncodeChar

theorem varintFrom_eq (fuel n : Nat) :
    ∃ high last, varintFrom fuel n = high ++ [last] ∧
      (∀ b ∈ high, 128 ≤ b.toNat) ∧ last.toNat < 128 := by
  induction fuel generalizing n with
  | zero =>
      refine ⟨[], UInt8.ofNat (n % 128), rfl, by simp, ?_⟩
      rw [UInt8.toNat_ofNat']
      omega
  | succ fuel ih =>
      rw [varintFrom]
      split
      next hlt =>
        refine ⟨[], UInt8.ofNat n, rfl, by simp, ?_⟩
        rw [UInt8.toNat_ofNat']
        omega
      next =>
        obtain ⟨high, last, heq, hhigh, hlast⟩ := ih (n / 128)
        refine ⟨UInt8.ofNat (n % 128 + 128) :: high, last, by rw [heq]; rfl,
          ?_, hlast⟩
        intro b hb
        cases List.mem_cons.mp hb with
        | inl heq =>
            rw [heq, UInt8.toNat_ofNat']
            omega
        | inr hmem => exact hhigh b hmem

theorem varint_of_lt {n : Nat} (h : n < 128) : varint n = [UInt8.ofNat n] := by
  cases n with
  | zero => rfl
  | succ n => rw [varint, varintFrom, if_pos h]

theorem utf8_append (l m : Text) : utf8 (l ++ m) = utf8 l ++ utf8 m :=
  List.flatMap_append

theorem utf8_cons (c : Char) (text : Text) :
    utf8 (c :: text) = String.utf8EncodeChar c ++ utf8 text := rfl

theorem utf8_eq_nil_iff {text : Text} : utf8 text = [] ↔ text = [] := by
  cases text with
  | nil => simp [utf8]
  | cons c text => simp [utf8_cons, String.utf8EncodeChar_ne_nil]

theorem utf8EncodeChar_of_lt {c : Char} (h : c.toNat < 128) :
    String.utf8EncodeChar c = [UInt8.ofNat c.toNat] := by
  fun_cases String.utf8EncodeChar c with
  | case1 => rfl
  | case2 v hv => exact absurd h (by simp only [Char.toNat]; omega)
  | case3 => exact absurd h (by simp only [Char.toNat]; omega)
  | case4 => exact absurd h (by simp only [Char.toNat]; omega)

theorem utf8EncodeChar_of_ge {c : Char} (h : 128 ≤ c.toNat) :
    ∃ b rest, String.utf8EncodeChar c = b :: rest ∧ 128 ≤ b.toNat := by
  rw [Char.toNat] at h
  fun_cases String.utf8EncodeChar c with
  | case1 v hv => exact absurd h (by omega)
  | case2 v _ hv =>
      refine ⟨_, _, rfl, ?_⟩
      rw [UInt8.toNat_ofNat']
      omega
  | case3 v _ _ hv =>
      refine ⟨_, _, rfl, ?_⟩
      rw [UInt8.toNat_ofNat']
      omega
  | case4 v =>
      refine ⟨_, _, rfl, ?_⟩
      rw [UInt8.toNat_ofNat']
      omega

end IreBlockchain.Foundation
