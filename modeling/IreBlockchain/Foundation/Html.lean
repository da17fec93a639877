import IreBlockchain.Foundation.Json

/-!
# Reading markup

How a browser tokenizes the markup that a page writes, one code unit at a time.
Its newlines are read as LF, a NUL is dropped from text and replaced elsewhere.
A unit of text or of an attribute's value is reported by itself, so that the
reader keeps nothing but the name it is in.  Comments are skipped, and of the
character references only those are known that the pages write; a doctype and
the elements whose contents are no markup are not read.

The other way around, a tree of elements is written with its texts escaped.
What is written is read as the tree that it was written from, up to newlines and
NULs.
-/

namespace IreBlockchain.Foundation.Html

open IreBlockchain.Foundation

inductive Event
  | startTag (name : Text)
  | endTag (name : Text)
  | attr (name : Text)
  | valueUnit (u : UInt16)
  | tagEnd (selfClosing : Bool)
  | unit (u : UInt16)
  deriving DecidableEq

inductive Quotes
  | double
  | single
  | none
  deriving DecidableEq

inductive Place
  | data
  | value (quotes : Quotes)
  deriving DecidableEq

/-- Where the reader stands. -/
inductive State
  | within (place : Place)
  | reference (place : Place) (name : Text)
  | tagOpen
  | endTagOpen
  | tagName (closing : Bool) (name : Text)
  | beforeAttributeName
  | attributeName (name : Text)
  | afterAttributeName
  | beforeAttributeValue
  | afterAttributeValue
  | selfClosing
  | bogusComment
  deriving DecidableEq

abbrev State.data : State := .within .data

def unitOf (c : Char) : UInt16 := .ofNat c.toNat

def charOf (u : UInt16) : Char := .ofNat u.toNat

def isBlankUnit (u : UInt16) : Bool :=
  u ∈ [0x09, 0x0a, 0x0c, 0x0d, 0x20]

def isLetterUnit (u : UInt16) : Bool := (charOf u).isAlpha

def nameChar (u : UInt16) : Char :=
  if u = 0 then '\ufffd' else (charOf u).toLower

/-- What a unit of content is reported as. -/
def Place.report : Place → UInt16 → List Event
  | data, u => if u = 0 then [] else [.unit u]
  | value _, u => [.valueUnit (if u = 0 then 0xfffd else u)]

/-- The character references of the pages. -/
def references : List (Text × UInt16) :=
  [("amp".toList, unitOf '&'), ("lt".toList, unitOf '<'),
    ("gt".toList, unitOf '>'), ("quot".toList, unitOf '"'),
    ("#39".toList, unitOf '\'')]

def Place.unresolved (place : Place) (name : Text) : List Event :=
  place.report (unitOf '&') ++ name.flatMap fun c => place.report (unitOf c)

def readWithin (place : Place) (u : UInt16) : List Event × State :=
  if u = unitOf '&' then ([], .reference place [])
  else
    match place with
    | .data =>
        if u = unitOf '<' then ([], .tagOpen) else (place.report u, .data)
    | .value .double =>
        if u = unitOf '"' then ([], .afterAttributeValue)
        else (place.report u, .within place)
    | .value .single =>
        if u = unitOf '\'' then ([], .afterAttributeValue)
        else (place.report u, .within place)
    | .value .none =>
        if isBlankUnit u then ([], .beforeAttributeName)
        else if u = unitOf '>' then ([.tagEnd false], .data)
        else (place.report u, .within place)

def readReference (place : Place) (name : Text) (u : UInt16) :
    List Event × State :=
  if u = unitOf ';' then
    match references.lookup name with
    | some v => (place.report v, .within place)
    | none => (place.unresolved name ++ place.report u, .within place)
  else if (charOf u).isAlphanum || u = unitOf '#' then
    ([], .reference place (name ++ [charOf u]))
  else
    let (events, state) := readWithin place u
    (place.unresolved name ++ events, state)

def tagEvent (closing : Bool) (name : Text) : Event :=
  if closing then .endTag name else .startTag name

def readAttribute (u : UInt16) : List Event × State :=
  if isBlankUnit u then ([], .beforeAttributeName)
  else if u = unitOf '/' then ([], .selfClosing)
  else if u = unitOf '>' then ([.tagEnd false], .data)
  else ([], .attributeName [nameChar u])

def step : State → UInt16 → List Event × State
  | .within place, u => readWithin place u
  | .reference place name, u => readReference place name u
  | .tagOpen, u =>
      if u = unitOf '/' then ([], .endTagOpen)
      else if isLetterUnit u then
        ([], .tagName false [nameChar u])
      else if u = unitOf '!' ∨ u = unitOf '?' then ([], .bogusComment)
      else
        let (events, state) := readWithin .data u
        (.unit (unitOf '<') :: events, state)
  | .endTagOpen, u =>
      if isLetterUnit u then ([], .tagName true [nameChar u])
      else if u = unitOf '>' then ([], .data)
      else ([], .bogusComment)
  | .tagName closing name, u =>
      if isBlankUnit u then ([tagEvent closing name], .beforeAttributeName)
      else if u = unitOf '/' then ([tagEvent closing name], .selfClosing)
      else if u = unitOf '>' then
        ([tagEvent closing name, .tagEnd false], .data)
      else ([], .tagName closing (name ++ [nameChar u]))
  | .beforeAttributeName, u => readAttribute u
  | .attributeName name, u =>
      if isBlankUnit u then ([.attr name], .afterAttributeName)
      else if u = unitOf '/' then ([.attr name], .selfClosing)
      else if u = unitOf '>' then ([.attr name, .tagEnd false], .data)
      else if u = unitOf '=' then ([.attr name], .beforeAttributeValue)
      else ([], .attributeName (name ++ [nameChar u]))
  | .afterAttributeName, u =>
      if isBlankUnit u then ([], .afterAttributeName)
      else if u = unitOf '=' then ([], .beforeAttributeValue)
      else readAttribute u
  | .beforeAttributeValue, u =>
      if isBlankUnit u then ([], .beforeAttributeValue)
      else if u = unitOf '"' then ([], .within (.value .double))
      else if u = unitOf '\'' then ([], .within (.value .single))
      else readWithin (.value .none) u
  | .afterAttributeValue, u => readAttribute u
  | .selfClosing, u =>
      if u = unitOf '>' then ([.tagEnd true], .data) else readAttribute u
  | .bogusComment, u =>
      if u = unitOf '>' then ([], .data) else ([], .bogusComment)

def feed : State → JsString → List Event × State
  | s, [] => ([], s)
  | s, u :: rest =>
      let (events, s) := step s u
      let (more, s) := feed s rest
      (events ++ more, s)

def State.finish : State → List Event
  | reference .data name => Place.unresolved .data name
  | tagOpen => [.unit (unitOf '<')]
  | endTagOpen => [.unit (unitOf '<'), .unit (unitOf '/')]
  | _ => []

/-- The text with its newlines as LF; an LF behind a CR belongs to it. -/
def newlinesFrom : Bool → JsString → JsString
  | _, [] => []
  | afterCR, u :: rest =>
      if afterCR = true ∧ u = 0x0a then newlinesFrom false rest
      else if u = 0x0d then 0x0a :: newlinesFrom true rest
      else u :: newlinesFrom false rest

def newlines (text : JsString) : JsString := newlinesFrom false text

/-- What a browser makes of a text that is set as markup. -/
def events (text : JsString) : List Event :=
  let (events, s) := feed .data (newlines text)
  events ++ s.finish

/-! ## Reading in parts -/

/-- From `s`, the reader reports `es` on the text and is left in `s'`. -/
def Reads (s : State) (text : JsString) (es : List Event) (s' : State) : Prop :=
  feed s text = (es, s')

instance decidableReads (s : State) (text : JsString) (es : List Event)
    (s' : State) : Decidable (Reads s text es s') :=
  inferInstanceAs (Decidable (feed s text = (es, s')))

section Reads

variable {s s' s'' : State} {front rest : JsString} {es es' : List Event}

theorem Reads.nil (s : State) : Reads s [] [] s := rfl

theorem Reads.append (hfront : Reads s front es s')
    (hrest : Reads s' rest es' s'') :
    Reads s (front ++ rest) (es ++ es') s'' := by
  induction front generalizing s es with
  | nil =>
      cases hfront
      exact hrest
  | cons u front ih =>
      simp only [Reads, feed, Prod.mk.injEq] at hfront
      obtain ⟨rfl, rfl⟩ := hfront
      have htail : Reads (step s u).2 (front ++ rest)
          ((feed (step s u).2 front).1 ++ es') s'' := ih rfl
      rw [Reads] at htail
      simp only [Reads, List.cons_append, feed, htail, List.append_assoc]

theorem reads_flatMap {α : Type} {l : List α} {f : α → JsString}
    {g : α → List Event} (h : ∀ a ∈ l, Reads s (f a) (g a) s) :
    Reads s (l.flatMap f) (l.flatMap g) s := by
  induction l with
  | nil => exact .nil s
  | cons a l ih =>
      rw [List.flatMap_cons, List.flatMap_cons]
      exact (h a List.mem_cons_self).append
        (ih fun b hb => h b (List.mem_cons_of_mem a hb))

theorem events_of_reads {text : JsString}
    (h : Reads .data (newlines text) es .data) : events text = es := by
  rw [Reads] at h
  simp [events, h, State.finish]

end Reads

/-! ## Escaping -/

def specials : List UInt16 := [unitOf '&', unitOf '<', unitOf '>', unitOf '"']

/-- A unit as it is written in text and between double quotes. -/
def escapeUnit (u : UInt16) : JsString :=
  if u = unitOf '&' then toJsString "&amp;".toList
  else if u = unitOf '<' then toJsString "&lt;".toList
  else if u = unitOf '>' then toJsString "&gt;".toList
  else if u = unitOf '"' then toJsString "&quot;".toList
  else [u]

def escape (text : JsString) : JsString := text.flatMap escapeUnit

def Place.Covered (place : Place) : Prop :=
  place = .data ∨ place = .value .double

theorem escapeUnit_of_plain {u : UInt16} (h : u ∉ specials) :
    escapeUnit u = [u] := by
  simp only [specials, List.mem_cons, List.not_mem_nil, or_false, not_or] at h
  simp [escapeUnit, h]

theorem escape_of_plain {text : JsString} (h : ∀ u ∈ text, u ∉ specials) :
    escape text = text := by
  induction text with
  | nil => rfl
  | cons u text ih =>
      rw [escape, List.flatMap_cons, escapeUnit_of_plain (h u List.mem_cons_self),
        ← escape, ih fun v hv => h v (List.mem_cons_of_mem u hv),
        List.singleton_append]

theorem escape_append (s t : JsString) :
    escape (s ++ t) = escape s ++ escape t := by
  simp [escape]

theorem reads_escapeUnit {place : Place} (h : place.Covered) (u : UInt16) :
    Reads (.within place) (escapeUnit u) (place.report u) (.within place) := by
  by_cases hspecial : u ∈ specials
  · simp only [specials, List.mem_cons, List.not_mem_nil, or_false] at hspecial
    rcases h with rfl | rfl
    · rcases hspecial with rfl | rfl | rfl | rfl <;> decide
    · rcases hspecial with rfl | rfl | rfl | rfl <;> decide
  · rw [escapeUnit_of_plain hspecial]
    simp only [specials, List.mem_cons, List.not_mem_nil, or_false, not_or]
      at hspecial
    obtain ⟨hamp, hlt, hgt, hquot⟩ := hspecial
    rcases h with rfl | rfl
    · simp [Reads, feed, step, readWithin, hamp, hlt]
    · simp [Reads, feed, step, readWithin, hamp, hquot]

theorem reads_escape {place : Place} (h : place.Covered) (text : JsString) :
    Reads (.within place) (escape text) (text.flatMap place.report)
      (.within place) :=
  reads_flatMap fun u _ => reads_escapeUnit h u

/-! ## Elements -/

def isNameChar (c : Char) : Bool :=
  ('a' ≤ c && c ≤ 'z') || ('0' ≤ c && c ≤ '9') || c = '-'

def isName : Text → Bool
  | [] => false
  | c :: rest => 'a' ≤ c && c ≤ 'z' && rest.all isNameChar

structure Name where
  text : Text
  isName : isName text = true

structure Attr where
  name : Name
  value : Option JsString

inductive Node
  | text (s : JsString)
  | void (name : Name) (attrs : List Attr)
  | element (name : Name) (attrs : List Attr) (children : List Node)

section Writing

def Attr.write (attr : Attr) : JsString :=
  unitOf ' ' :: (attr.name.text.map unitOf ++
    match attr.value with
    | none => []
    | some value =>
        unitOf '=' :: unitOf '"' :: (escape value ++ [unitOf '"']))

def writeOpen (name : Name) (attrs : List Attr) : JsString :=
  unitOf '<' :: (name.text.map unitOf ++
    (attrs.flatMap Attr.write ++ [unitOf '>']))

def writeClose (name : Name) : JsString :=
  unitOf '<' :: unitOf '/' :: (name.text.map unitOf ++ [unitOf '>'])

mutual

def Node.write : Node → JsString
  | .text s => escape s
  | .void name attrs => writeOpen name attrs
  | .element name attrs children =>
      writeOpen name attrs ++ (writeNodes children ++ writeClose name)

def writeNodes : List Node → JsString
  | [] => []
  | node :: rest => node.write ++ writeNodes rest

end

def Attr.events (attr : Attr) : List Event :=
  .attr attr.name.text ::
    (attr.value.getD []).flatMap (Place.value .double).report

def openTag (name : Name) (attrs : List Attr) : List Event :=
  .startTag name.text :: (attrs.flatMap Attr.events ++ [.tagEnd false])

def closeTag (name : Name) : List Event :=
  [.endTag name.text, .tagEnd false]

mutual

def Node.events : Node → List Event
  | .text s => s.flatMap Place.data.report
  | .void name attrs => openTag name attrs
  | .element name attrs children =>
      openTag name attrs ++ (nodesEvents children ++ closeTag name)

def nodesEvents : List Node → List Event
  | [] => []
  | node :: rest => node.events ++ nodesEvents rest

end

theorem infix_nodesEvents {node : Node} {nodes : List Node}
    (h : node ∈ nodes) : node.events <:+: nodesEvents nodes := by
  induction nodes with
  | nil => cases h
  | cons first rest ih =>
      rw [nodesEvents]
      cases h with
      | head => exact (List.prefix_append _ _).isInfix
      | tail _ h => exact (ih h).trans (List.suffix_append _ _).isInfix

theorem infix_element {node : Node} {name : Name} {attrs : List Attr}
    {children : List Node} (h : node ∈ children) :
    node.events <:+: (Node.element name attrs children).events := by
  rw [Node.events]
  exact (infix_nodesEvents h).trans ⟨openTag name attrs, closeTag name, by simp⟩

theorem writeNodes_append (l m : List Node) :
    writeNodes (l ++ m) = writeNodes l ++ writeNodes m := by
  induction l with
  | nil => simp [writeNodes]
  | cons node l ih => simp [writeNodes, ih]

theorem writeNodes_map {α : Type} (f : α → Node) (l : List α) :
    writeNodes (l.map f) = l.flatMap fun a => (f a).write := by
  induction l with
  | nil => simp [writeNodes]
  | cons a l ih => simp [writeNodes, ih]

theorem write_element {name : Name} {attrs : List Attr} {children : List Node}
    {start inner stop : JsString} (hstart : start = writeOpen name attrs)
    (hinner : inner = writeNodes children) (hstop : stop = writeClose name) :
    start ++ inner ++ stop = (Node.element name attrs children).write := by
  rw [Node.write, hstart, hinner, hstop, List.append_assoc]

theorem writeNodes_singleton (node : Node) : writeNodes [node] = node.write := by
  simp [writeNodes]

theorem write_text (s : JsString) : (Node.text s).write = escape s := by
  simp [Node.write]

end Writing

/-! ## What is written is read -/

section RoundTrip

theorem isNameChar_of_mem {name : Name} {c : Char} (h : c ∈ name.text) :
    isNameChar c = true := by
  obtain ⟨text, hname⟩ := name
  cases text with
  | nil => cases h
  | cons d rest =>
      simp only [isName, Bool.and_eq_true, List.all_eq_true] at hname
      cases List.mem_cons.mp h with
      | inl h =>
          rw [h, isNameChar]
          simp [hname.1]
      | inr h => exact hname.2 c h

structure NameUnit (c : Char) : Prop where
  char : charOf (unitOf c) = c
  nameChar : nameChar (unitOf c) = c
  not_blank : isBlankUnit (unitOf c) = false
  ne : ∀ d ∈ ['/', '>', '=', '"', '!', '?'], unitOf c ≠ unitOf d

instance decidableNameUnit (c : Char) : Decidable (NameUnit c) :=
  decidable_of_iff (charOf (unitOf c) = c ∧ nameChar (unitOf c) = c ∧
      isBlankUnit (unitOf c) = false ∧
      ['/', '>', '=', '"', '!', '?'].all (fun d => unitOf c ≠ unitOf d) = true)
    (by
      simp only [List.all_eq_true, decide_eq_true_eq]
      exact ⟨fun h => ⟨h.1, h.2.1, h.2.2.1, h.2.2.2⟩,
        fun h => ⟨h.char, h.nameChar, h.not_blank, h.ne⟩⟩)

theorem nameUnit_of_isNameChar {c : Char} (h : isNameChar c = true) :
    NameUnit c := by
  have hall : (List.range 128).all (fun n =>
      !isNameChar (Char.ofNat n) || NameUnit (Char.ofNat n)) = true := by
    decide +kernel
  have hbound : c.toNat < 128 := by
    have hle (d : Char) (hd : d.toNat < 128) (hcd : c ≤ d) : c.toNat < 128 :=
      lt_of_le_of_lt hcd hd
    simp only [isNameChar, Bool.or_eq_true, Bool.and_eq_true,
      decide_eq_true_eq] at h
    rcases h with (h | h) | h
    · exact hle 'z' (by decide) h.2
    · exact hle '9' (by decide) h.2
    · exact hle '-' (by decide) (le_of_eq h)
  have hc := List.all_eq_true.mp hall c.toNat (List.mem_range.mpr hbound)
  rw [Char.ofNat_toNat, h] at hc
  simpa using hc

theorem NameUnit.step_tagName {c : Char} (h : NameUnit c) (closing : Bool)
    (front : Text) :
    step (.tagName closing front) (unitOf c) =
      ([], .tagName closing (front ++ [c])) := by
  simp [step, h.not_blank, h.ne, h.nameChar]

theorem NameUnit.step_attributeName {c : Char} (h : NameUnit c)
    (front : Text) :
    step (.attributeName front) (unitOf c) =
      ([], .attributeName (front ++ [c])) := by
  simp [step, h.not_blank, h.ne, h.nameChar]

theorem NameUnit.readAttribute {c : Char} (h : NameUnit c) :
    readAttribute (unitOf c) = ([], .attributeName [c]) := by
  simp [Html.readAttribute, h.not_blank, h.ne, h.nameChar]

theorem reads_tagName (closing : Bool) {rest : Text}
    (h : ∀ c ∈ rest, isNameChar c = true) (front : Text) :
    Reads (.tagName closing front) (rest.map unitOf) []
      (.tagName closing (front ++ rest)) := by
  induction rest generalizing front with
  | nil => simp [Reads, feed]
  | cons c rest ih =>
      have hc := nameUnit_of_isNameChar (h c List.mem_cons_self)
      have hstep : Reads (.tagName closing front) [unitOf c] []
          (.tagName closing (front ++ [c])) := by
        simp [Reads, feed, hc.step_tagName]
      have hrest := ih (fun d hd => h d (List.mem_cons_of_mem c hd))
        (front ++ [c])
      rw [List.append_assoc, List.singleton_append] at hrest
      exact hstep.append hrest

theorem reads_attributeName {rest : Text}
    (h : ∀ c ∈ rest, isNameChar c = true) (front : Text) :
    Reads (.attributeName front) (rest.map unitOf) []
      (.attributeName (front ++ rest)) := by
  induction rest generalizing front with
  | nil => simp [Reads, feed]
  | cons c rest ih =>
      have hc := nameUnit_of_isNameChar (h c List.mem_cons_self)
      have hstep : Reads (.attributeName front) [unitOf c] []
          (.attributeName (front ++ [c])) := by
        simp [Reads, feed, hc.step_attributeName]
      have hrest := ih (fun d hd => h d (List.mem_cons_of_mem c hd))
        (front ++ [c])
      rw [List.append_assoc, List.singleton_append] at hrest
      exact hstep.append hrest

theorem Name.exists_cons (name : Name) :
    ∃ c rest, name.text = c :: rest ∧ isLetterUnit (unitOf c) = true ∧
      NameUnit c ∧ ∀ d ∈ rest, isNameChar d = true := by
  obtain ⟨text, hname⟩ := name
  cases text with
  | nil => cases hname
  | cons c rest =>
      simp only [Html.isName, Bool.and_eq_true, List.all_eq_true,
        decide_eq_true_eq] at hname
      have hc : isNameChar c = true := by simp [isNameChar, hname.1]
      have hunit := nameUnit_of_isNameChar hc
      refine ⟨c, rest, rfl, ?_, hunit, hname.2⟩
      rw [isLetterUnit, hunit.char]
      exact isAlpha_iff_toNat.mpr (.inr hname.1)

theorem reads_startName (name : Name) :
    Reads .data (unitOf '<' :: name.text.map unitOf) []
      (.tagName false name.text) := by
  obtain ⟨c, rest, hname, hletter, hc, hrest⟩ := name.exists_cons
  have hstart : Reads .data [unitOf '<', unitOf c] [] (.tagName false [c]) := by
    have hopen : readWithin .data (unitOf '<') = ([], .tagOpen) := by decide
    simp [Reads, feed, step, hopen, hc.ne, hletter, hc.nameChar]
  rw [hname]
  exact hstart.append (reads_tagName false hrest [c])

theorem reads_close (name : Name) :
    Reads .data (writeClose name) (closeTag name) .data := by
  obtain ⟨c, rest, hname, hletter, hc, hrest⟩ := name.exists_cons
  have hstart : Reads .data [unitOf '<', unitOf '/', unitOf c] []
      (.tagName true [c]) := by
    have hopen : readWithin .data (unitOf '<') = ([], .tagOpen) := by decide
    simp [Reads, feed, step, hopen, hletter, hc.nameChar]
  have hend : Reads (.tagName true (c :: rest)) [unitOf '>']
      [.endTag (c :: rest), .tagEnd false] .data := by
    have hblank : isBlankUnit (unitOf '>') = false := by decide
    have hslash : unitOf '>' ≠ unitOf '/' := by decide
    simp [Reads, feed, step, hblank, hslash, tagEvent]
  rw [writeClose, closeTag, hname]
  exact hstart.append ((reads_tagName true hrest [c]).append hend)

/--
Between the attributes of a tag: what the reader still has to report when the
tag ends here or an attribute follows.
-/
structure Pending (s : State) (es : List Event) : Prop where
  close : step s (unitOf '>') = (es ++ [.tagEnd false], .data)
  next : ∀ c, NameUnit c →
    Reads s [unitOf ' ', unitOf c] es (.attributeName [c])

theorem pending_tagName (name : Text) :
    Pending (.tagName false name) [.startTag name] := by
  have hblank : isBlankUnit (unitOf '>') = false := by decide
  have hslash : unitOf '>' ≠ unitOf '/' := by decide
  have hspace : isBlankUnit (unitOf ' ') = true := by decide
  constructor
  · simp [step, hblank, hslash, tagEvent]
  · intro c hc
    simp [Reads, feed, step, hspace, tagEvent, hc.readAttribute]

theorem pending_attributeName (name : Text) :
    Pending (.attributeName name) [.attr name] := by
  have hblank : isBlankUnit (unitOf '>') = false := by decide
  have hslash : unitOf '>' ≠ unitOf '/' := by decide
  have hspace : isBlankUnit (unitOf ' ') = true := by decide
  constructor
  · simp [step, hblank, hslash]
  · intro c hc
    simp [Reads, feed, step, hspace, hc.not_blank, hc.ne, hc.readAttribute]

theorem pending_afterAttributeValue : Pending .afterAttributeValue [] := by
  have hclose : readAttribute (unitOf '>') = ([.tagEnd false], .data) := by
    decide
  have hspace : readAttribute (unitOf ' ') = ([], .beforeAttributeName) := by
    decide
  constructor
  · simp [step, hclose]
  · intro c hc
    simp [Reads, feed, step, hspace, hc.readAttribute]

theorem reads_quoted (name : Text) (value : JsString) :
    Reads (.attributeName name)
      (unitOf '=' :: unitOf '"' :: (escape value ++ [unitOf '"']))
      (.attr name :: value.flatMap (Place.value .double).report)
      .afterAttributeValue := by
  have hopen : Reads (.attributeName name) [unitOf '=', unitOf '"']
      [.attr name] (.within (.value .double)) := by
    have hblank : isBlankUnit (unitOf '=') = false := by decide
    have hslash : unitOf '=' ≠ unitOf '/' := by decide
    have hend : unitOf '=' ≠ unitOf '>' := by decide
    have hquote : isBlankUnit (unitOf '"') = false := by decide
    simp [Reads, feed, step, hblank, hslash, hend, hquote]
  have hclose : Reads (.within (.value .double)) [unitOf '"'] []
      .afterAttributeValue := by decide
  have hvalue := (reads_escape (.inr rfl) value).append hclose
  rw [List.append_nil] at hvalue
  exact hopen.append hvalue

theorem Pending.attr {s : State} {es : List Event} (h : Pending s es)
    (attr : Attr) :
    ∃ fired s' es', Reads s attr.write fired s' ∧ Pending s' es' ∧
      fired ++ es' = es ++ attr.events := by
  obtain ⟨c, rest, hname, -, hc, hrest⟩ := attr.name.exists_cons
  have hread : Reads s (unitOf ' ' :: attr.name.text.map unitOf) es
      (.attributeName attr.name.text) := by
    have hall := (h.next c hc).append (reads_attributeName hrest [c])
    rw [List.append_nil] at hall
    rw [hname]
    exact hall
  rw [Attr.write, Attr.events]
  cases attr.value with
  | none =>
      refine ⟨es, _, [.attr attr.name.text], ?_, pending_attributeName _, rfl⟩
      rw [List.append_nil]
      exact hread
  | some value =>
      refine ⟨_, _, [], hread.append (reads_quoted _ value),
        pending_afterAttributeValue, ?_⟩
      rw [List.append_nil]
      rfl

theorem Pending.attrs {s : State} {es : List Event} (h : Pending s es)
    (attrs : List Attr) :
    Reads s (attrs.flatMap Attr.write ++ [unitOf '>'])
      (es ++ (attrs.flatMap Attr.events ++ [.tagEnd false])) .data := by
  induction attrs generalizing s es with
  | nil => simp [Reads, feed, h.close]
  | cons attr attrs ih =>
      obtain ⟨fired, s', es', hread, hpending, hsame⟩ := h.attr attr
      have hall := hread.append (ih hpending)
      rw [← List.append_assoc, ← List.append_assoc, hsame] at hall
      simpa only [List.flatMap_cons, List.append_assoc] using hall

theorem reads_open (name : Name) (attrs : List Attr) :
    Reads .data (writeOpen name attrs) (openTag name attrs) .data :=
  (reads_startName name).append ((pending_tagName name.text).attrs attrs)

mutual

/-- What is written is read as the elements and the texts that it is of. -/
theorem Node.reads : ∀ node : Node,
    Reads .data node.write node.events .data
  | .text s => by
      rw [Node.write, Node.events]
      exact reads_escape (.inl rfl) s
  | .void name attrs => by
      rw [Node.write, Node.events]
      exact reads_open name attrs
  | .element name attrs children => by
      rw [Node.write, Node.events]
      exact (reads_open name attrs).append
        ((reads_all children).append (reads_close name))

theorem reads_all : ∀ nodes : List Node,
    Reads .data (writeNodes nodes) (nodesEvents nodes) .data
  | [] => by
      rw [writeNodes, nodesEvents]
      exact .nil _
  | node :: rest => by
      rw [writeNodes, nodesEvents]
      exact (Node.reads node).append (reads_all rest)

end

end RoundTrip

/-! ## What a tree puts on a page -/

section Uses

def Event.Allowed (tags attrs : List Name) : Event → Prop
  | .startTag name => name ∈ tags.map Name.text
  | .endTag name => name ∈ tags.map Name.text
  | .attr name => name ∈ attrs.map Name.text
  | _ => True

mutual

def Node.Uses (tags attrs : List Name) : Node → Prop
  | .text _ => True
  | .void name own => name ∈ tags ∧ ∀ attr ∈ own, attr.name ∈ attrs
  | .element name own children =>
      (name ∈ tags ∧ ∀ attr ∈ own, attr.name ∈ attrs) ∧
        UsesAll tags attrs children

def UsesAll (tags attrs : List Name) : List Node → Prop
  | [] => True
  | node :: rest => node.Uses tags attrs ∧ UsesAll tags attrs rest

end

variable {tags attrs : List Name}

theorem usesAll_append {l m : List Node} :
    UsesAll tags attrs (l ++ m) ↔
      UsesAll tags attrs l ∧ UsesAll tags attrs m := by
  induction l with
  | nil => simp [UsesAll]
  | cons node l ih => simp [UsesAll, ih, and_assoc]

theorem usesAll_iff {l : List Node} :
    UsesAll tags attrs l ↔ ∀ node ∈ l, node.Uses tags attrs := by
  induction l with
  | nil => simp [UsesAll]
  | cons node l ih => simp [UsesAll, ih]

theorem allowed_report (place : Place) {text : JsString} {e : Event}
    (he : e ∈ text.flatMap place.report) : e.Allowed tags attrs := by
  obtain ⟨u, -, he⟩ := List.mem_flatMap.mp he
  cases place with
  | data =>
      rw [Place.report] at he
      split at he
      next => cases he
      next =>
        rw [List.mem_singleton.mp he]
        trivial
  | value quotes =>
      rw [List.mem_singleton.mp he]
      trivial

theorem allowed_openTag {name : Name} {own : List Attr}
    (h : name ∈ tags ∧ ∀ attr ∈ own, attr.name ∈ attrs) :
    ∀ e ∈ openTag name own, e.Allowed tags attrs := by
  intro e he
  simp only [openTag, List.mem_cons, List.mem_append, List.mem_flatMap,
    List.not_mem_nil, or_false] at he
  rcases he with rfl | ⟨attr, hattr, he⟩ | rfl
  · exact List.mem_map_of_mem h.1
  · rw [Attr.events, List.mem_cons] at he
    rcases he with rfl | he
    · exact List.mem_map_of_mem (h.2 attr hattr)
    · exact allowed_report _ he
  · trivial

mutual

theorem Node.allowed : ∀ node : Node, node.Uses tags attrs →
    ∀ e ∈ node.events, e.Allowed tags attrs
  | .text s, _ => by
      intro e he
      rw [Node.events] at he
      exact allowed_report _ he
  | .void name own, h => by
      rw [Node.Uses] at h
      rw [Node.events]
      exact allowed_openTag h
  | .element name own children, h => by
      intro e he
      rw [Node.Uses] at h
      simp only [Node.events, closeTag, List.mem_append, List.mem_cons,
        List.not_mem_nil, or_false] at he
      rcases he with he | he | rfl | rfl
      · exact allowed_openTag h.1 e he
      · exact allowed_all children h.2 e he
      · exact List.mem_map_of_mem h.1.1
      · trivial

theorem allowed_all : ∀ nodes : List Node, UsesAll tags attrs nodes →
    ∀ e ∈ nodesEvents nodes, e.Allowed tags attrs
  | [], _ => by
      intro e he
      rw [nodesEvents] at he
      cases he
  | node :: rest, h => by
      intro e he
      rw [UsesAll] at h
      rw [nodesEvents, List.mem_append] at he
      cases he with
      | inl he => exact Node.allowed node h.1 e he
      | inr he => exact allowed_all rest h.2 e he

end

end Uses

end IreBlockchain.Foundation.Html
