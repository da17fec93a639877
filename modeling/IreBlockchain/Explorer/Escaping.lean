import IreBlockchain.Explorer.SentAmount
import IreBlockchain.Foundation.HtmlNewlines

/-!
# Escaped text

`escapeHtml`, which the pages of the explorer share, the texts that they write
without it, and the names of their elements.
-/

namespace IreBlockchain.Explorer

open IreBlockchain.Foundation
open IreBlockchain.Foundation.Html

def replaceAll (u : UInt16) (text : String) (s : JsString) : JsString :=
  s.flatMap fun v => if v = u then toJsString text.toList else [v]

def escapeHtml (value : JsString) : JsString :=
  replaceAll (unitOf '"') "&quot;"
    (replaceAll (unitOf '>') "&gt;"
      (replaceAll (unitOf '<') "&lt;"
        (replaceAll (unitOf '&') "&amp;" value)))

def markup (text : String) : JsString := toJsString text.toList

theorem replaceAll_append (u : UInt16) (text : String) (s t : JsString) :
    replaceAll u text (s ++ t) = replaceAll u text s ++ replaceAll u text t := by
  simp [replaceAll]

theorem replaceAll_of_ne {u v : UInt16} (h : v ≠ u) (text : String) :
    replaceAll u text [v] = [v] := by
  simp only [replaceAll, List.flatMap_cons, if_neg h, List.flatMap_nil,
    List.append_nil]

theorem escapeHtml_singleton (u : UInt16) : escapeHtml [u] = escapeUnit u := by
  by_cases hspecial : u ∈ specials
  · simp only [specials, List.mem_cons, List.not_mem_nil, or_false] at hspecial
    rcases hspecial with rfl | rfl | rfl | rfl <;> decide
  · rw [escapeUnit_of_plain hspecial]
    simp only [specials, List.mem_cons, List.not_mem_nil, or_false, not_or]
      at hspecial
    obtain ⟨hamp, hlt, hgt, hquot⟩ := hspecial
    rw [escapeHtml, replaceAll_of_ne hamp, replaceAll_of_ne hlt,
      replaceAll_of_ne hgt, replaceAll_of_ne hquot]

theorem escapeHtml_eq (value : JsString) : escapeHtml value = escape value := by
  induction value with
  | nil => rfl
  | cons u value ih =>
      have hsplit : escapeHtml ([u] ++ value) =
          escapeHtml [u] ++ escapeHtml value := by
        simp only [escapeHtml, replaceAll_append]
      rw [escape, List.flatMap_cons, ← escape, ← ih, ← escapeHtml_singleton,
        ← hsplit, List.singleton_append]

/-! ## What needs no escaping -/

theorem markup_eq {l : List Char} {s : JsString} (h : toJsString l = s) :
    markup (String.ofList l) = s := by
  rw [markup, String.toList_ofList]
  exact h

theorem escape_markup {l : List Char}
    (h : (toJsString l).all (· ∉ specials) = true) :
    escape (markup (String.ofList l)) = markup (String.ofList l) := by
  rw [markup, String.toList_ofList]
  apply escape_of_plain
  intro u hu
  exact of_decide_eq_true (List.all_eq_true.mp h u hu)

theorem escape_toJsString {text : Text}
    (h : ∀ c ∈ text, c.toNat < 128 ∧ c ∉ ['&', '<', '>', '"']) :
    escape (toJsString text) = toJsString text := by
  apply escape_of_plain
  intro u hu hspecial
  obtain ⟨c, hc, hu⟩ := List.mem_flatMap.mp hu
  obtain ⟨hascii, hne⟩ := h c hc
  have hunits : codeUnits c = [unitOf c] := if_pos (by omega)
  rw [hunits, List.mem_singleton] at hu
  have hsame {d : Char} (hd : d.toNat < 128) (heq : u = unitOf d) : c = d := by
    apply Char.toNat_inj.mp
    have hval := congrArg UInt16.toNat (hu.symm.trans heq)
    simp only [unitOf, UInt16.toNat_ofNat'] at hval
    omega
  apply hne
  simp only [specials, List.mem_cons, List.not_mem_nil, or_false]
    at hspecial ⊢
  rcases hspecial with hspecial | hspecial | hspecial | hspecial
  · exact .inl (hsame (by decide) hspecial)
  · exact .inr (.inl (hsame (by decide) hspecial))
  · exact .inr (.inr (.inl (hsame (by decide) hspecial)))
  · exact .inr (.inr (.inr (hsame (by decide) hspecial)))

def decimalUnits (n : Nat) : JsString := toJsString (decimal n)

theorem plain_of_isDigit {c : Char} (h : isDigit c = true) :
    c.toNat < 128 ∧ c ∉ ['&', '<', '>', '"'] := by
  have hbound : c ≤ '9' := by
    simp only [isDigit, Bool.and_eq_true, decide_eq_true_eq] at h
    exact h.2
  constructor
  · exact lt_of_le_of_lt hbound (by decide : '9'.toNat < 128)
  · simp only [List.mem_cons, List.not_mem_nil, or_false, not_or]
    refine ⟨?_, ?_, ?_, ?_⟩
    all_goals
      rintro rfl
      exact absurd h (by decide)

theorem escape_decimalUnits (n : Nat) :
    escape (decimalUnits n) = decimalUnits n :=
  escape_toJsString fun c hc => plain_of_isDigit (isDigit_of_mem_decimal c hc)

/-- `Intl.NumberFormat` on an amount; `none` where the amount is not finite. -/
structure AmountFormat where
  format : Nat → Option Text
  chars : ∀ n text, format n = some text →
    ∀ c ∈ text, isDigit c = true ∨ c = ',' ∨ c = '.'

/-! ### `new Intl.NumberFormat('en-US', { maximumFractionDigits: 6 })` -/

def groupThousands : Text → Text
  | a :: b :: c :: d :: rest => a :: b :: c :: ',' :: groupThousands (d :: rest)
  | digits => digits

def fractionDigits (uire : Nat) : Text :=
  ((decimal (10 ^ 6 + uire % 10 ^ 6)).drop 1).rdropWhile (· = '0')

/--
The amount in IRE, digit by digit: what the double that the page formats shows
up to 2 ^ 33 IRE.  Nothing is formatted where the double is infinite.
-/
def formatIre (uire : Nat) : Option Text :=
  let whole := (groupThousands (decimal (uire / 10 ^ 6)).reverse).reverse
  let fraction := fractionDigits uire
  if 2 ^ 1024 - 2 ^ 970 ≤ uire then none
  else if fraction = [] then some whole
  else some (whole ++ '.' :: fraction)

theorem mem_groupThousands {c : Char} {digits : Text}
    (h : c ∈ groupThousands digits) : c ∈ digits ∨ c = ',' := by
  fun_induction groupThousands digits with
  | case1 x y z d rest ih =>
      simp only [List.mem_cons] at h ⊢
      rcases h with h | h | h | h | h
      · exact .inl (.inl h)
      · exact .inl (.inr (.inl h))
      · exact .inl (.inr (.inr (.inl h)))
      · exact .inr h
      · rcases ih h with hmem | hcomma
        · exact .inl (.inr (.inr (.inr (List.mem_cons.mp hmem))))
        · exact .inr hcomma
  | case2 digits => exact .inl h

theorem isDigit_of_mem_fractionDigits {c : Char} {uire : Nat}
    (h : c ∈ fractionDigits uire) : isDigit c = true :=
  isDigit_of_mem_decimal c
    (List.mem_of_mem_drop ((List.rdropWhile_prefix _ _).subset h))

def enUS : AmountFormat where
  format := formatIre
  chars uire text h c hc := by
    have hwhole {c : Char}
        (hc : c ∈ (groupThousands (decimal (uire / 10 ^ 6)).reverse).reverse) :
        isDigit c = true ∨ c = ',' := by
      rcases mem_groupThousands (List.mem_reverse.mp hc) with hmem | hcomma
      · exact .inl (isDigit_of_mem_decimal c (List.mem_reverse.mp hmem))
      · exact .inr hcomma
    simp only [formatIre] at h
    split at h
    · cases h
    split at h
    · cases h
      exact (hwhole hc).imp_right .inl
    · cases h
      rcases List.mem_append.mp hc with hc | hc
      · exact (hwhole hc).imp_right .inl
      rcases List.mem_cons.mp hc with rfl | hc
      · exact .inr (.inr rfl)
      · exact .inl (isDigit_of_mem_fractionDigits hc)

example : formatIre 1234567500000 = some "1,234,567.5".toList := by
  decide +kernel

def fmtIre (amounts : AmountFormat) (uire : Nat) : JsString :=
  match amounts.format uire with
  | none => markup "—"
  | some text => toJsString text

theorem escape_fmtIre (amounts : AmountFormat) (uire : Nat) :
    escape (fmtIre amounts uire) = fmtIre amounts uire := by
  rw [fmtIre]
  split
  next => exact escape_markup (by decide)
  next text htext =>
    apply escape_toJsString
    intro c hc
    rcases amounts.chars uire text htext c hc with h | rfl | rfl
    · exact plain_of_isDigit h
    · decide
    · decide

/-! ## Names -/

namespace Tag

def article : Name := ⟨"article".toList, by decide⟩
def button : Name := ⟨"button".toList, by decide⟩
def code : Name := ⟨"code".toList, by decide⟩
def dd : Name := ⟨"dd".toList, by decide⟩
def details : Name := ⟨"details".toList, by decide⟩
def div : Name := ⟨"div".toList, by decide⟩
def dl : Name := ⟨"dl".toList, by decide⟩
def dt : Name := ⟨"dt".toList, by decide⟩
def figure : Name := ⟨"figure".toList, by decide⟩
def h3 : Name := ⟨"h3".toList, by decide⟩
def p : Name := ⟨"p".toList, by decide⟩
def pre : Name := ⟨"pre".toList, by decide⟩
def span : Name := ⟨"span".toList, by decide⟩
def strong : Name := ⟨"strong".toList, by decide⟩
def summary : Name := ⟨"summary".toList, by decide⟩

end Tag

namespace Key

def class' : Name := ⟨"class".toList, by decide⟩
def dataCopy : Name := ⟨"data-copy".toList, by decide⟩
def style : Name := ⟨"style".toList, by decide⟩
def type' : Name := ⟨"type".toList, by decide⟩

end Key

def classed (value : JsString) : Attr := ⟨Key.class', some value⟩

end IreBlockchain.Explorer
