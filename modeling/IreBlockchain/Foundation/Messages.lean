import IreBlockchain.Foundation.Wire
import Mathlib.Algebra.Order.BigOperators.Group.List
import Mathlib.Algebra.Order.Ring.Nat
import Mathlib.Data.List.Flatten

/-!
# Codecs of generated message types

A message type is given by its fields.  From them come the three functions that
are generated for it, and the laws that tie the three together.
-/

namespace IreBlockchain.Foundation.Wire

open IreBlockchain.Foundation

/-- The functions that are generated for a type, and that they fit. -/
structure Codec (α : Type) where
  zero : α
  size : α → Nat
  marshalToSizedBuffer : α → Bytes
  unmarshal : α → Bytes → Except Error α
  length_marshalToSizedBuffer : ∀ a, (marshalToSizedBuffer a).length = size a
  unmarshal_marshalToSizedBuffer : ∀ a, size a < 2 ^ 63 →
    unmarshal zero (marshalToSizedBuffer a) = .ok a

/--
A buffer of the computed size is filled from its end, and as many bytes as were
written are taken from its start.  There is no result where it is too small.
-/
def Codec.marshal {α : Type} (c : Codec α) (a : α) : Option Bytes :=
  let dAtA := c.marshalToSizedBuffer a
  if c.size a < dAtA.length then none
  else
    some ((List.replicate (c.size a - dAtA.length) 0 ++ dAtA).take
      dAtA.length)

theorem Codec.marshal_eq {α : Type} (c : Codec α) (a : α) :
    c.marshal a = some (c.marshalToSizedBuffer a) := by
  have hlength := c.length_marshalToSizedBuffer a
  unfold marshal
  rw [if_neg (by omega), hlength, Nat.sub_self, List.replicate_zero,
    List.nil_append, ← hlength, List.take_length]

/-! ## Fields -/

structure Lens (M α : Type) where
  get : M → α
  set : M → α → M
  get_set : ∀ m a, get (set m a) = a := by intros; rfl
  set_set : ∀ m a b, set (set m a) b = set m b := by intros; rfl
  set_get : ∀ m, set m (get m) = m := by intros; rfl

/--
How the generated code handles one field.  `copy m a` is `a` with the field of
`m`, and `blank` holds where the field has nothing in it yet.
-/
structure Field (M : Type) where
  number : Nat
  name : Text
  kind : Kind
  payloads : M → List kind.Payload
  sizes : M → List Nat
  put : M → kind.Payload → Except Error M
  copy : M → M → M
  blank : M → Prop
  number_pos : 0 < number
  number_lt : number < 16
  length_payloads : ∀ m,
    (payloads m).map (fun payload => (kind.write payload).length) = sizes m
  put_payloads : ∀ m a, blank a → (∀ n ∈ sizes m, n < 2 ^ 63) →
    (payloads m).foldlM put a = .ok (copy m a)

namespace Field

variable {M α : Type}

def string (number : Nat) (name : String) (lens : Lens M Bytes)
    (hpos : 0 < number := by decide) (hlt : number < 16 := by decide) :
    Field M where
  number := number
  name := name.toList
  kind := .lengthDelimited
  payloads m := if 0 < (lens.get m).length then [lens.get m] else []
  sizes m :=
    if 0 < (lens.get m).length then
      [(lens.get m).length + sov (lens.get m).length]
    else []
  put m payload := .ok (lens.set m payload)
  copy m a := lens.set a (lens.get m)
  blank a := lens.get a = []
  number_pos := hpos
  number_lt := hlt
  length_payloads m := by
    split
    next hlength =>
      rw [List.map_singleton, Kind.write, List.length_append, length_varint,
        Nat.add_comm]
    next => rfl
  put_payloads m a hblank _ := by
    split
    · simp [pure, Except.pure]
    next hempty =>
      have hnil : lens.get m = [] := by simpa using hempty
      have hset := lens.set_get a
      rw [hblank] at hset
      simp [hnil, hset, pure, Except.pure]

def uint64 (number : Nat) (name : String) (lens : Lens M UInt64)
    (hpos : 0 < number := by decide) (hlt : number < 16 := by decide) :
    Field M where
  number := number
  name := name.toList
  kind := .varint
  payloads m := if lens.get m ≠ 0 then [lens.get m] else []
  sizes m := if lens.get m ≠ 0 then [sov (lens.get m).toNat] else []
  put m payload := .ok (lens.set m payload)
  copy m a := lens.set a (lens.get m)
  blank a := lens.get a = 0
  number_pos := hpos
  number_lt := hlt
  length_payloads m := by
    split
    · rw [List.map_singleton, Kind.write, length_varint]
    · rfl
  put_payloads m a hblank _ := by
    split
    · simp [pure, Except.pure]
    next hzero =>
      have hget : lens.get m = 0 := by simpa using hzero
      have hset := lens.set_get a
      rw [hblank] at hset
      simp [hget, hset, pure, Except.pure]

/-- A message inside of a message, written also where it is the zero value. -/
def message (number : Nat) (name : String) (c : Codec α) (lens : Lens M α)
    (hpos : 0 < number := by decide) (hlt : number < 16 := by decide) :
    Field M where
  number := number
  name := name.toList
  kind := .lengthDelimited
  payloads m := [c.marshalToSizedBuffer (lens.get m)]
  sizes m := [c.size (lens.get m) + sov (c.size (lens.get m))]
  put m payload := do
    let value ← c.unmarshal (lens.get m) payload
    return lens.set m value
  copy m a := lens.set a (lens.get m)
  blank a := lens.get a = c.zero
  number_pos := hpos
  number_lt := hlt
  length_payloads m := by
    simp [Kind.write, length_varint, c.length_marshalToSizedBuffer,
      Nat.add_comm]
  put_payloads m a hblank hsizes := by
    have hsize : c.size (lens.get m) < 2 ^ 63 := by
      have := hsizes _ (List.mem_singleton_self _)
      omega
    simp [hblank, c.unmarshal_marshalToSizedBuffer _ hsize, pure, Except.pure]

def repeated (number : Nat) (name : String) (c : Codec α)
    (lens : Lens M (List α)) (hpos : 0 < number := by decide)
    (hlt : number < 16 := by decide) : Field M where
  number := number
  name := name.toList
  kind := .lengthDelimited
  payloads m := (lens.get m).map c.marshalToSizedBuffer
  sizes m := (lens.get m).map fun e => c.size e + sov (c.size e)
  put m payload := do
    let value ← c.unmarshal c.zero payload
    return lens.set m (lens.get m ++ [value])
  copy m a := lens.set a (lens.get m)
  blank a := lens.get a = []
  number_pos := hpos
  number_lt := hlt
  length_payloads m := by
    simp [Kind.write, length_varint, c.length_marshalToSizedBuffer,
      Nat.add_comm]
  put_payloads m a hblank hsizes := by
    have hread : ∀ (l : List α) (a : M), (∀ e ∈ l, c.size e < 2 ^ 63) →
        (l.map c.marshalToSizedBuffer).foldlM (fun a payload => do
          let value ← c.unmarshal c.zero payload
          return lens.set a (lens.get a ++ [value])) a =
        (.ok (lens.set a (lens.get a ++ l)) : Except Error M) := by
      intro l
      induction l with
      | nil => intro a _; simp [lens.set_get, pure, Except.pure]
      | cons e l ih =>
          intro a hl
          rw [List.map_cons, List.foldlM_cons,
            c.unmarshal_marshalToSizedBuffer e (hl e (by simp)), ok_bind]
          change List.foldlM _ _ _ = _
          rw [ih _ fun e he => hl e (by simp [he]), lens.get_set, lens.set_set,
            List.append_assoc]
          rfl
    rw [hread _ a ?_, hblank, List.nil_append]
    intro e he
    have := hsizes _ (List.mem_map_of_mem he)
    omega

section Numbers

variable {number : Nat} {name : String} {hpos : 0 < number}
  {hlt : number < 16}

@[simp] theorem number_string (lens : Lens M Bytes) :
    (string number name lens hpos hlt).number = number := rfl

@[simp] theorem number_uint64 (lens : Lens M UInt64) :
    (uint64 number name lens hpos hlt).number = number := rfl

@[simp] theorem number_message (c : Codec α) (lens : Lens M α) :
    (message number name c lens hpos hlt).number = number := rfl

@[simp] theorem number_repeated (c : Codec α) (lens : Lens M (List α)) :
    (repeated number name c lens hpos hlt).number = number := rfl

end Numbers

end Field

def stringCodec : Codec Bytes where
  zero := []
  size s := s.length
  marshalToSizedBuffer s := s
  unmarshal _ payload := .ok payload
  length_marshalToSizedBuffer _ := rfl
  unmarshal_marshalToSizedBuffer _ _ := rfl

/-! ## Messages -/

section Messages

variable {M : Type}

def Field.tagByte (f : Field M) : UInt8 :=
  UInt8.ofNat (f.number * 8 + f.kind.wireType)

/-- The field is written in front of what is already there, from its last payload on. -/
def Field.writeBefore (f : Field M) (m : M) (dAtA : Bytes) : Bytes :=
  (f.payloads m).foldr
    (fun payload dAtA => f.tagByte :: (f.kind.write payload ++ dAtA)) dAtA

/-- The fields, copied from `m` one after the other, make `m` of `a`. -/
def Completes (m : M) : M → List (Field M) → Prop
  | a, [] => a = m
  | a, f :: fields => f.blank a ∧ Completes m (f.copy m a) fields

structure Message (M : Type) where
  name : Text
  zero : M
  fields : List (Field M)
  distinct : (fields.map Field.number).Nodup := by simp
  complete : ∀ m, Completes m zero fields

namespace Message

def empty (name : String) (zero : M) (h : ∀ m, zero = m := by intros; rfl) :
    Message M where
  name := name.toList
  zero := zero
  fields := []
  distinct := .nil
  complete := h

variable (d : Message M)

def size (m : M) : Nat :=
  (d.fields.map fun f => ((f.sizes m).map (1 + ·)).sum).sum

def marshalToSizedBuffer (m : M) : Bytes :=
  d.fields.foldr (fun f dAtA => f.writeBefore m dAtA) []

def field (fieldNum : Int) : Option (Field M) :=
  d.fields.find? fun f => decide ((f.number : Int) = fieldNum)

/-- The conversion to a signed integer of 32 bits. -/
def int32 (n : Nat) : Int := Int.bmod n (2 ^ 32)

/-- The loop of `Unmarshal` over a slice of length `l`. -/
def unmarshalFrom (l : Nat) : Nat → M → Bytes → Except Error M
  | 0, m, _ => .ok m
  | fuel + 1, m, data =>
      if data = [] then .ok m
      else do
        let (wire, rest) ← readVarint data
        let fieldNum := int32 (wire / 8)
        let wireType := wire % 8
        if wireType = 4 then .error (.endGroup d.name)
        else if fieldNum ≤ 0 then
          .error (.illegalTag d.name fieldNum wire)
        else
          match d.field fieldNum with
          | some f =>
              if wireType ≠ f.kind.wireType then
                .error (.wrongWireType wireType f.name)
              else do
                let (payload, rest) ← f.kind.read l rest
                let m ← f.put m payload
                unmarshalFrom l fuel m rest
          | none => do
              let skippy ← skip data
              if 2 ^ 63 ≤ l - data.length + skippy then
                .error .invalidLength
              else if data.length < skippy then .error .unexpectedEOF
              else unmarshalFrom l fuel m (data.drop skippy)

def unmarshal (m : M) (data : Bytes) : Except Error M :=
  d.unmarshalFrom data.length data.length m data

end Message

/-! ## What is written is read -/

inductive Item (M : Type)
  | known (f : Field M) (payload : f.kind.Payload)
  | unknown (u : Unknown)

namespace Item

def write : Item M → Bytes
  | known f payload => f.tagByte :: f.kind.write payload
  | unknown u => u.write

def apply (m : M) : Item M → Except Error M
  | known f payload => f.put m payload
  | unknown _ => .ok m

def isKnown : Item M → Bool
  | known _ _ => true
  | unknown _ => false

end Item

theorem Field.tag_eq (f : Field M) :
    tag f.number f.kind.wireType = [f.tagByte] := by
  have hlt := f.number_lt
  have hwire : f.kind.wireType ≤ 2 := by cases f.kind <;> simp [Kind.wireType]
  exact varint_of_lt (by omega)

theorem Field.writeBefore_eq (f : Field M) (m : M) (dAtA : Bytes) :
    f.writeBefore m dAtA =
      ((f.payloads m).map (Item.known f)).flatMap Item.write ++ dAtA := by
  unfold writeBefore
  induction f.payloads m with
  | nil => rfl
  | cons payload payloads ih => simp [ih, Item.write]

namespace Message

variable (d : Message M)

def items (m : M) : List (Item M) :=
  d.fields.flatMap fun f => (f.payloads m).map (Item.known f)

/-- A field of another version has a number that this one does not use. -/
def Admits : Item M → Prop
  | .known f _ => f ∈ d.fields
  | .unknown u => 0 < u.number.toNat ∧ u.number.toNat < 2 ^ 31 ∧
      ∀ f ∈ d.fields, f.number ≠ u.number.toNat

theorem marshalToSizedBuffer_eq (m : M) :
    d.marshalToSizedBuffer m = (d.items m).flatMap Item.write := by
  unfold marshalToSizedBuffer items
  induction d.fields with
  | nil => rfl
  | cons f fields ih =>
      rw [List.foldr_cons, ih, Field.writeBefore_eq, List.flatMap_cons,
        List.flatMap_append]

theorem length_marshalToSizedBuffer (m : M) :
    (d.marshalToSizedBuffer m).length = d.size m := by
  rw [marshalToSizedBuffer_eq]
  unfold items size
  induction d.fields with
  | nil => rfl
  | cons f fields ih =>
      rw [List.flatMap_cons, List.flatMap_append, List.length_append, ih,
        List.map_cons, List.sum_cons, ← f.length_payloads]
      congr 1
      induction f.payloads m with
      | nil => rfl
      | cons payload payloads ih =>
          rw [List.map_cons, List.flatMap_cons, List.length_append, ih]
          simp [Item.write, Nat.add_comm]

theorem le_size {f : Field M} (hf : f ∈ d.fields) {m : M} {n : Nat}
    (hn : n ∈ f.sizes m) : n ≤ d.size m := by
  have hfield : 1 + n ≤ ((f.sizes m).map (1 + ·)).sum :=
    List.single_le_sum (fun _ _ => Nat.zero_le _) _ (List.mem_map_of_mem hn)
  have hsize : ((f.sizes m).map (1 + ·)).sum ≤ d.size m :=
    List.single_le_sum (fun _ _ => Nat.zero_le _) _ (List.mem_map_of_mem
      (f := fun f : Field M => ((f.sizes m).map (1 + ·)).sum) hf)
  omega

theorem field_eq {f : Field M} (hf : f ∈ d.fields) :
    d.field f.number = some f := by
  have hdistinct := d.distinct
  unfold field
  generalize d.fields = fields at hf hdistinct ⊢
  induction fields with
  | nil => cases hf
  | cons g fields ih =>
      rw [List.map_cons, List.nodup_cons] at hdistinct
      cases List.mem_cons.mp hf with
      | inl heq => simp [heq]
      | inr hmem =>
          have hne : g.number ≠ f.number := by
            intro heq
            exact hdistinct.1 (heq ▸ List.mem_map_of_mem hmem)
          rw [List.find?_cons_of_neg (by simp only [decide_eq_true_eq]; omega)]
          exact ih hmem hdistinct.2

theorem field_eq_none {n : Nat} (h : ∀ f ∈ d.fields, f.number ≠ n) :
    d.field n = none := by
  unfold field
  rw [List.find?_eq_none]
  intro f hf
  have hne := h f hf
  simp only [decide_eq_true_eq]
  omega

theorem int32_of_lt {n : Nat} (h : n < 2 ^ 31) : int32 n = n := by
  unfold int32
  rw [Int.bmod_eq_of_le] <;> omega

theorem unmarshalFrom_item {item : Item M} (hitem : d.Admits item)
    {l fuel : Nat} {m : M} {rest : Bytes} (hl : l < 2 ^ 63)
    (h : (item.write ++ rest).length ≤ l) :
    d.unmarshalFrom l (fuel + 1) m (item.write ++ rest) =
      (item.apply m >>= fun m => d.unmarshalFrom l fuel m rest) := by
  cases item with
  | known f payload =>
      have hpos := f.number_pos
      have hlt := f.number_lt
      have hwire : f.kind.wireType ≤ 2 := by
        cases f.kind <;> simp [Kind.wireType]
      have hbytes : (Item.known f payload).write ++ rest =
          tag f.number f.kind.wireType ++ (f.kind.write payload ++ rest) := by
        rw [f.tag_eq]
        rfl
      rw [hbytes] at h ⊢
      have hroom : (f.kind.write payload ++ rest).length ≤ l := by
        rw [List.length_append] at h
        omega
      have hne : tag f.number f.kind.wireType ++
          (f.kind.write payload ++ rest) ≠ [] := by
        rw [f.tag_eq]
        exact List.cons_ne_nil _ _
      rw [unmarshalFrom, if_neg hne, tag, readVarint_varint (by omega), ok_bind]
      simp only [show (f.number * 8 + f.kind.wireType) / 8 = f.number by omega,
        show (f.number * 8 + f.kind.wireType) % 8 = f.kind.wireType by omega,
        int32_of_lt (show f.number < 2 ^ 31 by omega)]
      rw [if_neg (by omega), if_neg (by omega), d.field_eq hitem]
      simp only [ne_eq, not_true, if_false,
        f.kind.read_write payload hl hroom, ok_bind]
      rfl
  | unknown u =>
      obtain ⟨hpos, hlt, hnone⟩ := hitem
      have hwire := u.wireType_lt
      have hend : u.wireType ≠ 4 := by cases u <;> simp [Unknown.wireType]
      have hlength := u.turns_le_length
      have hturns : 0 < u.turns := by cases u <;> simp [Unknown.turns]
      simp only [Item.write, Item.apply, ok_bind] at h ⊢
      have hne : u.write ++ rest ≠ [] := by
        intro hnil
        have := congrArg List.length hnil
        rw [List.length_append, List.length_nil] at this
        omega
      have htag : readVarint (u.write ++ rest) =
          .ok (u.number.toNat * 8 + u.wireType, u.writeValue ++ rest) := by
        rw [Unknown.write, List.append_assoc, readVarint_tag u.number hwire]
      rw [unmarshalFrom, if_neg hne, htag, ok_bind]
      simp only [
        show (u.number.toNat * 8 + u.wireType) / 8 = u.number.toNat by omega,
        show (u.number.toNat * 8 + u.wireType) % 8 = u.wireType by omega,
        int32_of_lt hlt]
      rw [if_neg hend, if_neg (by omega), d.field_eq_none hnone]
      simp only [u.skip_write (lt_of_le_of_lt h hl), ok_bind]
      rw [List.length_append] at h ⊢
      rw [if_neg (by omega), if_neg (by omega), List.drop_left]

theorem unmarshalFrom_items {l : Nat} (hl : l < 2 ^ 63) {items : List (Item M)}
    (hitems : ∀ item ∈ items, d.Admits item) (fuel : Nat) (m : M)
    (h : (items.flatMap Item.write).length ≤ l) :
    d.unmarshalFrom l (fuel + items.length) m (items.flatMap Item.write) =
      items.foldlM Item.apply m := by
  induction items generalizing m with
  | nil => cases fuel <;> simp [unmarshalFrom, pure, Except.pure]
  | cons item items ih =>
      rw [List.flatMap_cons] at h ⊢
      rw [List.length_cons, ← Nat.add_assoc,
        d.unmarshalFrom_item (hitems item (by simp)) hl h, List.foldlM_cons]
      rw [List.length_append] at h
      congr 1
      funext m
      exact ih (fun item hmem => hitems item (by simp [hmem])) m (by omega)

theorem foldlM_filter_isKnown (items : List (Item M)) (m : M) :
    items.foldlM Item.apply m =
      (items.filter Item.isKnown).foldlM Item.apply m := by
  induction items generalizing m with
  | nil => rfl
  | cons item items ih =>
      cases item with
      | known f payload =>
          rw [List.filter_cons_of_pos rfl, List.foldlM_cons, List.foldlM_cons]
          simp only [ih]
      | unknown u =>
          rw [List.filter_cons_of_neg (by simp [Item.isKnown]),
            List.foldlM_cons, Item.apply, ok_bind, ih]

theorem foldlM_items {m : M} (hsize : d.size m < 2 ^ 63) :
    (d.items m).foldlM Item.apply d.zero = .ok m := by
  have hsizes : ∀ f ∈ d.fields, ∀ n ∈ f.sizes m, n < 2 ^ 63 :=
    fun f hf n hn => lt_of_le_of_lt (d.le_size hf hn) hsize
  have hcomplete := d.complete m
  unfold items
  generalize d.zero = a at hcomplete ⊢
  generalize d.fields = fields at hcomplete hsizes ⊢
  induction fields generalizing a with
  | nil => exact congrArg Except.ok hcomplete
  | cons f fields ih =>
      obtain ⟨hblank, hrest⟩ := hcomplete
      have hfield : ((f.payloads m).map (Item.known f)).foldlM Item.apply a =
          .ok (f.copy m a) := by
        rw [List.foldlM_map]
        exact f.put_payloads m a hblank (hsizes f (by simp))
      rw [List.flatMap_cons, List.foldlM_append, hfield, ok_bind]
      exact ih _ hrest fun g hg => hsizes g (by simp [hg])

/-- Fields of other versions may stand anywhere between a message's own. -/
theorem unmarshal_of_items {m : M} {items : List (Item M)}
    (hitems : ∀ item ∈ items, d.Admits item)
    (hknown : items.filter Item.isKnown = d.items m)
    (hl : (items.flatMap Item.write).length < 2 ^ 63) :
    d.unmarshal d.zero (items.flatMap Item.write) = .ok m := by
  have hlength : ∀ l : List (Item M),
      l.length ≤ (l.flatMap Item.write).length := by
    intro l
    induction l with
    | nil => simp
    | cons item l ih =>
        have hitem : 0 < item.write.length := by
          cases item with
          | known f payload => simp [Item.write]
          | unknown u =>
              have hturns : 0 < u.turns := by cases u <;> simp [Unknown.turns]
              exact lt_of_lt_of_le hturns u.turns_le_length
        rw [List.flatMap_cons, List.length_append, List.length_cons]
        omega
  have hsize : d.size m < 2 ^ 63 := by
    have hle := (List.filter_sublist.flatMap Item.write :
      ((items.filter Item.isKnown).flatMap Item.write).Sublist _).length_le
    rw [hknown, ← d.marshalToSizedBuffer_eq, d.length_marshalToSizedBuffer]
      at hle
    omega
  have hread := d.unmarshalFrom_items hl hitems
    ((items.flatMap Item.write).length - items.length) d.zero (le_refl _)
  rw [Nat.sub_add_cancel (hlength items)] at hread
  unfold unmarshal
  rw [hread, foldlM_filter_isKnown, hknown, d.foldlM_items hsize]

theorem admits_items {m : M} : ∀ item ∈ d.items m, d.Admits item := by
  intro item hitem
  obtain ⟨f, hf, hitem⟩ := List.mem_flatMap.mp hitem
  obtain ⟨payload, -, rfl⟩ := List.mem_map.mp hitem
  exact hf

theorem filter_items (m : M) :
    (d.items m).filter Item.isKnown = d.items m := by
  rw [List.filter_eq_self]
  intro item hitem
  obtain ⟨f, -, hitem⟩ := List.mem_flatMap.mp hitem
  obtain ⟨payload, -, rfl⟩ := List.mem_map.mp hitem
  rfl

def codec : Codec M where
  zero := d.zero
  size := d.size
  marshalToSizedBuffer := d.marshalToSizedBuffer
  unmarshal := d.unmarshal
  length_marshalToSizedBuffer := d.length_marshalToSizedBuffer
  unmarshal_marshalToSizedBuffer m hsize := by
    rw [← d.length_marshalToSizedBuffer, d.marshalToSizedBuffer_eq] at hsize
    rw [d.marshalToSizedBuffer_eq]
    exact d.unmarshal_of_items d.admits_items (d.filter_items m) hsize

end Message

end Messages

end IreBlockchain.Foundation.Wire
