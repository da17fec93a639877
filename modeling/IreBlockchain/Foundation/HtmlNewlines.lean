import IreBlockchain.Foundation.Html

/-!
# Newlines in what is written

The markup around the texts of a tree has no newlines, so the newlines of the
written tree are those of its texts, unless two texts stand side by side.
-/

namespace IreBlockchain.Foundation.Html

open IreBlockchain.Foundation

/-! ## Newlines of parts -/

def crAfter : Bool → JsString → Bool
  | afterCR, [] => afterCR
  | _, u :: rest => crAfter (u = 0x0d) rest

/-- Behind the state `b`, the text has the newlines of `out` and leaves `b'`. -/
structure Settles (b : Bool) (text out : JsString) (b' : Bool) : Prop where
  newlines : newlinesFrom b text = out
  after : crAfter b text = b'

section Settles

variable {b b' b'' : Bool} {s t out out' : JsString}

theorem Settles.nil (b : Bool) : Settles b [] [] b := ⟨rfl, rfl⟩

theorem crAfter_append (b : Bool) (s t : JsString) :
    crAfter b (s ++ t) = crAfter (crAfter b s) t := by
  induction s generalizing b with
  | nil => rfl
  | cons u s ih => exact ih _

theorem newlinesFrom_append (b : Bool) (s t : JsString) :
    newlinesFrom b (s ++ t) =
      newlinesFrom b s ++ newlinesFrom (crAfter b s) t := by
  induction s generalizing b with
  | nil => rfl
  | cons u s ih =>
      rw [List.cons_append, newlinesFrom, newlinesFrom, crAfter]
      split
      next hlf =>
        have hcr : decide (u = 0x0d) = false := by
          rw [hlf.2]
          decide
        rw [ih, hcr]
      next =>
        split
        next hcr =>
          rw [ih, List.cons_append, decide_eq_true hcr]
        next hcr =>
          rw [ih, List.cons_append, decide_eq_false hcr]

theorem Settles.append (hs : Settles b s out b') (ht : Settles b' t out' b'') :
    Settles b (s ++ t) (out ++ out') b'' := by
  constructor
  · rw [newlinesFrom_append, hs.newlines, hs.after, ht.newlines]
  · rw [crAfter_append, hs.after, ht.after]

def Steady (s : JsString) : Prop := ∀ u ∈ s, u ≠ 0x0d ∧ u ≠ 0x0a

instance decidableSteady (s : JsString) : Decidable (Steady s) :=
  List.decidableBAll (fun u : UInt16 => u ≠ 0x0d ∧ u ≠ 0x0a) s

theorem Settles.steady_cons {u : UInt16} (h : Steady (u :: s)) :
    Settles b (u :: s) (u :: s) false := by
  induction s generalizing b u with
  | nil =>
      obtain ⟨hcr, hlf⟩ := h u List.mem_cons_self
      exact ⟨by simp [newlinesFrom, hcr, hlf], by simp [crAfter, hcr]⟩
  | cons v s ih =>
      obtain ⟨hcr, hlf⟩ := h u List.mem_cons_self
      have hrest := ih (b := false)
        fun w hw => h w (List.mem_cons_of_mem u hw)
      constructor
      · rw [newlinesFrom, if_neg (fun h => hlf h.2), if_neg hcr, hrest.newlines]
      · rw [crAfter, decide_eq_false hcr, hrest.after]

theorem Settles.steady (h : Steady s) (hne : s ≠ []) : Settles b s s false := by
  cases s with
  | nil => exact absurd rfl hne
  | cons u s => exact .steady_cons h

theorem Settles.prepend {u : UInt16} (h : Steady [u])
    (hs : Settles false s out b') : Settles b (u :: s) (u :: out) b' :=
  (Settles.steady_cons h).append hs

theorem steady_escapeUnit {u : UInt16} (h : u ∈ specials) :
    Steady (escapeUnit u) ∧ escapeUnit u ≠ [] := by
  simp only [specials, List.mem_cons, List.not_mem_nil, or_false] at h
  rcases h with rfl | rfl | rfl | rfl <;> decide

theorem Settles.escape (b : Bool) (s : JsString) :
    Settles b (escape s) (escape (newlinesFrom b s)) (crAfter b s) := by
  induction s generalizing b with
  | nil => exact .nil b
  | cons u s ih =>
      have hcons (v : UInt16) (rest : JsString) :
          Html.escape (v :: rest) = escapeUnit v ++ Html.escape rest := rfl
      have hlf : escapeUnit 0x0a = [0x0a] := by decide
      rw [hcons]
      by_cases hspecial : u ∈ specials
      · have hu : u ≠ 0x0d ∧ u ≠ 0x0a := by
          simp only [specials, List.mem_cons, List.not_mem_nil, or_false]
            at hspecial
          rcases hspecial with rfl | rfl | rfl | rfl <;> decide
        obtain ⟨hsteady, hne⟩ := steady_escapeUnit hspecial
        have hall := (Settles.steady (b := b) hsteady hne).append (ih false)
        rw [newlinesFrom, crAfter, if_neg (fun h => hu.2 h.2), if_neg hu.1,
          hcons, decide_eq_false hu.1]
        exact hall
      · rw [escapeUnit_of_plain hspecial, List.singleton_append]
        constructor
        · rw [newlinesFrom, newlinesFrom]
          split
          next hpair => exact (ih false).newlines
          next =>
            split
            next hcr => rw [(ih true).newlines, hcons, hlf]; rfl
            next hcr =>
              rw [(ih false).newlines, hcons, escapeUnit_of_plain hspecial]
              rfl
        · exact (ih _).after

end Settles

/-! ## Newlines of trees -/

def Attr.settle (attr : Attr) : Attr :=
  { attr with value := attr.value.map Html.newlines }

mutual

def Node.settle : Node → Node
  | .text s => .text (newlines s)
  | .void name attrs => .void name (attrs.map Attr.settle)
  | .element name attrs children =>
      .element name (attrs.map Attr.settle) (settleNodes children)

def settleNodes : List Node → List Node
  | [] => []
  | node :: rest => node.settle :: settleNodes rest

end

theorem mem_settleNodes {node : Node} {nodes : List Node} (h : node ∈ nodes) :
    node.settle ∈ settleNodes nodes := by
  induction nodes with
  | nil => cases h
  | cons first rest ih =>
      rw [settleNodes]
      cases h with
      | head => exact List.mem_cons_self
      | tail _ h => exact List.mem_cons_of_mem _ (ih h)

theorem infix_settle {node : Node} {name : Name} {attrs : List Attr}
    {children : List Node} (h : node ∈ children) :
    node.settle.events <:+:
      (Node.element name attrs children).settle.events := by
  rw [Node.settle]
  exact infix_element (mem_settleNodes h)

def Node.isText : Node → Bool
  | .text _ => true
  | _ => false

mutual

/-- No two texts stand side by side. -/
def Node.Separated : Node → Prop
  | .element _ _ children => SeparatedAll children
  | _ => True

def SeparatedAll : List Node → Prop
  | [] => True
  | node :: rest =>
      (node.isText = true → ∀ next ∈ rest.head?, next.isText = false) ∧
        node.Separated ∧ SeparatedAll rest

end

theorem separatedAll_of_forall {nodes : List Node}
    (h : ∀ node ∈ nodes, node.isText = false ∧ node.Separated) :
    SeparatedAll nodes := by
  induction nodes with
  | nil => simp [SeparatedAll]
  | cons node rest ih =>
      obtain ⟨htext, hnode⟩ := h node List.mem_cons_self
      rw [SeparatedAll]
      refine ⟨?_, hnode, ih fun next hnext => h next (List.mem_cons_of_mem _ hnext)⟩
      intro hself
      rw [hself] at htext
      cases htext

theorem steady_name (name : Name) : Steady (name.text.map unitOf) := by
  intro u hu
  obtain ⟨c, hc, rfl⟩ := List.mem_map.mp hu
  have hblank := (nameUnit_of_isNameChar (isNameChar_of_mem hc)).not_blank
  constructor
  all_goals
    intro heq
    rw [heq] at hblank
    exact absurd hblank (by decide)

theorem Settles.attr (b : Bool) (attr : Attr) :
    Settles b attr.write attr.settle.write false := by
  obtain ⟨name, value⟩ := attr
  have hname : Steady (unitOf ' ' :: name.text.map unitOf) := by
    intro u hu
    rcases List.mem_cons.mp hu with rfl | hu
    · decide
    · exact steady_name name u hu
  cases value with
  | none =>
      simp only [Attr.write, Attr.settle, Option.map_none, List.append_nil]
      exact .steady_cons hname
  | some value =>
      simp only [Attr.write, Attr.settle, Option.map_some]
      rw [← List.cons_append, ← List.cons_append]
      apply (Settles.steady_cons hname).append
      apply Settles.prepend (by decide)
      apply Settles.prepend (by decide)
      apply (Settles.escape false value).append
      exact .steady_cons (by decide)

theorem Settles.attrs (attrs : List Attr) :
    Settles false (attrs.flatMap Attr.write)
      ((attrs.map Attr.settle).flatMap Attr.write) false := by
  induction attrs with
  | nil => exact .nil false
  | cons attr attrs ih => exact (Settles.attr false attr).append ih

theorem Settles.writeOpen (b : Bool) (name : Name) (attrs : List Attr) :
    Settles b (writeOpen name attrs)
      (writeOpen name (attrs.map Attr.settle)) false := by
  have hname : Steady (unitOf '<' :: name.text.map unitOf) := by
    intro u hu
    rcases List.mem_cons.mp hu with rfl | hu
    · decide
    · exact steady_name name u hu
  rw [Html.writeOpen, Html.writeOpen, ← List.cons_append, ← List.cons_append]
  apply (Settles.steady_cons hname).append
  exact (Settles.attrs attrs).append (.steady_cons (by decide))

theorem Settles.writeClose (b : Bool) (name : Name) :
    Settles b (writeClose name) (writeClose name) false := by
  apply Settles.steady_cons
  intro u hu
  simp only [List.mem_cons, List.mem_append, List.not_mem_nil, or_false] at hu
  rcases hu with rfl | rfl | hu | rfl
  · decide
  · decide
  · exact steady_name name u hu
  · decide

mutual

theorem Node.settles : ∀ (node : Node) (b : Bool), node.Separated →
    (b = true → node.isText = false) →
    Settles b node.write node.settle.write
      (node.isText && crAfter b node.write)
  | .text s, b, _, hb => by
      cases b with
      | true => exact absurd (hb rfl) (by simp [Node.isText])
      | false =>
          have h := Settles.escape false s
          rw [Node.settle, Node.write, Node.write, Node.isText, Bool.true_and,
            h.after]
          exact h
  | .void name attrs, b, _, _ => by
      rw [Node.settle, Node.write, Node.write]
      exact .writeOpen b name attrs
  | .element name attrs children, b, h, _ => by
      rw [Node.Separated] at h
      rw [Node.settle, Node.write, Node.write]
      apply (Settles.writeOpen b name attrs).append
      apply (settles_all children false h nofun).append
      exact .writeClose _ name

theorem settles_all : ∀ (nodes : List Node) (b : Bool), SeparatedAll nodes →
    (b = true → ∀ node ∈ nodes.head?, node.isText = false) →
    Settles b (writeNodes nodes) (writeNodes (settleNodes nodes))
      (crAfter b (writeNodes nodes))
  | [], b, _, _ => by
      rw [settleNodes, writeNodes]
      exact .nil b
  | node :: rest, b, h, hb => by
      rw [SeparatedAll] at h
      obtain ⟨hnext, hnode, hrest⟩ := h
      have hfirst := Node.settles node b hnode fun hcr => hb hcr node rfl
      have hmore := settles_all rest (node.isText && crAfter b node.write) hrest
        fun hcr => hnext (Bool.and_eq_true_iff.mp hcr).1
      have hall := hfirst.append hmore
      rw [settleNodes, writeNodes, writeNodes, hall.after]
      exact hall

end

theorem newlines_writeNodes {nodes : List Node} (h : SeparatedAll nodes) :
    newlines (writeNodes nodes) = writeNodes (settleNodes nodes) :=
  (settles_all nodes false h nofun).newlines

/--
A tree that is written is read as the tree with its newlines settled, a unit of
text or of a value at a time.
-/
theorem events_writeNodes {nodes : List Node} (h : SeparatedAll nodes) :
    events (writeNodes nodes) = nodesEvents (settleNodes nodes) := by
  apply events_of_reads
  rw [newlines_writeNodes h]
  exact reads_all _

/-! ## What a settled tree is made of -/

section Uses

variable {tags attrs : List Name}

theorem uses_settle_attrs {own : List Attr}
    (h : ∀ attr ∈ own, attr.name ∈ attrs) :
    ∀ attr ∈ own.map Attr.settle, attr.name ∈ attrs := by
  intro attr hattr
  obtain ⟨old, hold, rfl⟩ := List.mem_map.mp hattr
  exact h old hold

mutual

theorem Node.uses_settle : ∀ node : Node, node.Uses tags attrs →
    node.settle.Uses tags attrs
  | .text s, _ => by
      rw [Node.settle, Node.Uses]
      trivial
  | .void name own, h => by
      rw [Node.Uses] at h
      rw [Node.settle, Node.Uses]
      exact ⟨h.1, uses_settle_attrs h.2⟩
  | .element name own children, h => by
      rw [Node.Uses] at h
      rw [Node.settle, Node.Uses]
      exact ⟨⟨h.1.1, uses_settle_attrs h.1.2⟩, usesAll_settle children h.2⟩

theorem usesAll_settle : ∀ nodes : List Node, UsesAll tags attrs nodes →
    UsesAll tags attrs (settleNodes nodes)
  | [], _ => by
      rw [settleNodes, UsesAll]
      trivial
  | node :: rest, h => by
      rw [UsesAll] at h
      rw [settleNodes, UsesAll]
      exact ⟨Node.uses_settle node h.1, usesAll_settle rest h.2⟩

end

end Uses

end IreBlockchain.Foundation.Html
