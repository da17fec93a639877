import IreBlockchain.Foundation.Search
import IreBlockchain.Foundation.Text

/-!
# Absolute paths

A path is the list of its names.  One path is a beginning of another as a text
not only where it is a directory above it.
-/

namespace IreBlockchain.Foundation

def dot : Text := ".".toList

def dotDot : Text := "..".toList

structure IsName (name : Text) : Prop where
  ne_nil : name ≠ []
  ne_dot : name ≠ dot
  ne_dotDot : name ≠ dotDot
  noSlash : '/' ∉ name

structure Path where
  names : List Text
  isName : ∀ name ∈ names, IsName name
  deriving DecidableEq

namespace Path

def text (path : Path) : Text := '/' :: join ['/'] path.names

def pushName (names : List Text) (part : Text) : List Text :=
  if part = [] ∨ part = dot then names
  else if part = dotDot then names.dropLast
  else names ++ [part]

def normalize (names : List Text) (path : Text) : List Text :=
  (path.splitOn '/').foldl pushName names

theorem not_mem_of_mem_splitOn {c : Char} {text part : Text}
    (h : part ∈ text.splitOn c) : c ∉ part := by
  induction text generalizing part with
  | nil =>
      rw [List.splitOn_nil, List.mem_singleton] at h
      simp [h]
  | cons d text ih =>
      rw [List.splitOn_eq_splitOnP, List.splitOnP_cons_eq_if_modifyHead] at h
      by_cases hd : (d == c) = true
      · rw [if_pos hd] at h
        cases List.mem_cons.mp h with
        | inl hnil => simp [hnil]
        | inr hmem => exact ih hmem
      · rw [if_neg hd] at h
        obtain ⟨first, rest, hsplit⟩ :=
          List.exists_cons_of_ne_nil (List.splitOn_ne_nil c text)
        rw [List.splitOn_eq_splitOnP] at hsplit
        rw [hsplit, List.modifyHead_cons] at h
        have hmem {part : Text} (hpart : part ∈ first :: rest) : c ∉ part :=
          ih (by rw [List.splitOn_eq_splitOnP, hsplit]; exact hpart)
        cases List.mem_cons.mp h with
        | inl hfirst =>
            have hne : c ≠ d := fun heq => hd (by simp [heq])
            rw [hfirst, List.mem_cons, not_or]
            exact ⟨hne, hmem List.mem_cons_self⟩
        | inr hrest => exact hmem (List.mem_cons_of_mem first hrest)

theorem isName_pushName {names : List Text} {part : Text}
    (hnames : ∀ name ∈ names, IsName name) (hpart : '/' ∉ part) :
    ∀ name ∈ pushName names part, IsName name := by
  intro name hname
  unfold pushName at hname
  split at hname
  next => exact hnames name hname
  next hkept =>
    rw [not_or] at hkept
    split at hname
    next => exact hnames name (List.mem_of_mem_dropLast hname)
    next hup =>
      cases List.mem_append.mp hname with
      | inl hmem => exact hnames name hmem
      | inr hmem =>
          rw [List.mem_singleton.mp hmem]
          exact ⟨hkept.1, hkept.2, hup, hpart⟩

theorem isName_normalize {names : List Text} (path : Text)
    (hnames : ∀ name ∈ names, IsName name) :
    ∀ name ∈ normalize names path, IsName name := by
  have hparts : ∀ part ∈ path.splitOn '/', '/' ∉ part :=
    fun part hpart => not_mem_of_mem_splitOn hpart
  unfold normalize
  generalize path.splitOn '/' = parts at hparts
  induction parts generalizing names with
  | nil => exact hnames
  | cons part parts ih =>
      exact ih (isName_pushName hnames (hparts part List.mem_cons_self))
        fun other hother => hparts other (List.mem_cons_of_mem part hother)

/-- `path.resolve(directory, relative)` -/
def resolve (directory : Path) (relative : Text) : Path :=
  if relative.head? = some '/' then
    ⟨normalize [] relative, isName_normalize relative nofun⟩
  else
    ⟨normalize directory.names relative,
      isName_normalize relative directory.isName⟩

/-- `path.extname`: what the last dot of the last name starts, unless it
starts the name. -/
def extname (path : Path) : Text :=
  let name := path.names.getLastD []
  let front := name.rdropWhile (· ≠ '.')
  if front.length ≤ 1 then [] else '.' :: name.rtakeWhile (· ≠ '.')

/-! ## Paths below and beside a path -/

variable {p q : Path}

/-- `p` is a directory above `q`. -/
def Above (p q : Path) : Prop :=
  ∃ name rest, q.names = p.names ++ name :: rest

/-- `q` goes through another name that starts with the last one of `p`. -/
def Beside (p q : Path) : Prop :=
  ∃ parent name suffix rest, suffix ≠ [] ∧ p.names = parent ++ [name] ∧
    q.names = parent ++ (name ++ suffix) :: rest

theorem Beside.not_above (h : p.Beside q) : ¬ p.Above q := by
  rintro ⟨name, rest, hq⟩
  obtain ⟨parent, last, suffix, more, hsuffix, hp, hq'⟩ := h
  rw [hq, hp, List.append_assoc, List.append_cancel_left_eq,
    List.singleton_append, List.cons.injEq] at hq'
  exact hsuffix (List.self_eq_append_right.mp hq'.1)

theorem join_cons (name : Text) (names : List Text) :
    join ['/'] (name :: names) = name ++ names.flatMap ('/' :: ·) := by
  induction names generalizing name with
  | nil => simp [join, List.intercalate]
  | cons other names ih =>
      have hcons : join ['/'] (name :: other :: names) =
          name ++ '/' :: join ['/'] (other :: names) := by
        simp [join, List.intercalate]
      rw [hcons, ih, List.flatMap_cons, List.cons_append]

theorem name_prefix {name other : Text} {names : List Text}
    (hname : '/' ∉ name) (h : name <+: other ++ names.flatMap ('/' :: ·)) :
    name <+: other := by
  cases names with
  | nil => simpa using h
  | cons next names =>
      rw [List.flatMap_cons, List.cons_append] at h
      exact (prefix_append_separator_iff hname).mp h

theorem name_eq {name other : Text} {names : List Text} {rest : Text}
    (hname : '/' ∉ name) (hother : '/' ∉ other)
    (h : name ++ '/' :: rest <+: other ++ names.flatMap ('/' :: ·)) :
    name = other ∧ '/' :: rest <+: names.flatMap ('/' :: ·) := by
  have hbegins : name <+: other :=
    name_prefix hname ((List.prefix_append _ _).trans h)
  obtain ⟨suffix, rfl⟩ := hbegins
  rw [List.append_assoc, List.prefix_append_right_inj] at h
  cases suffix with
  | nil => exact ⟨(List.append_nil name).symm, h⟩
  | cons c suffix =>
      rw [List.cons_append, List.cons_prefix_cons] at h
      exact absurd (List.mem_append_right name (h.1 ▸ List.mem_cons_self))
        hother

theorem names_prefix {names others : List Text} {name : Text}
    (hnames : ∀ n ∈ names ++ [name], '/' ∉ n) (hothers : ∀ n ∈ others, '/' ∉ n)
    (h : (names ++ [name]).flatMap ('/' :: ·) <+:
      others.flatMap ('/' :: ·)) :
    ∃ suffix rest, others = names ++ (name ++ suffix) :: rest := by
  induction names generalizing others with
  | nil =>
      cases others with
      | nil => simp at h
      | cons other others =>
          simp only [List.nil_append, List.flatMap_cons, List.flatMap_nil,
            List.append_nil, List.cons_append, List.cons_prefix_cons,
            true_and] at h
          obtain ⟨suffix, hsuffix⟩ := name_prefix (hnames name (by simp)) h
          exact ⟨suffix, others, by rw [hsuffix, List.nil_append]⟩
  | cons first names ih =>
      cases others with
      | nil => simp at h
      | cons other others =>
          rw [List.cons_append, List.flatMap_cons, List.flatMap_cons,
            List.cons_append, List.cons_append, List.cons_prefix_cons] at h
          have hfirst := hnames first (by simp)
          have hother := hothers other List.mem_cons_self
          obtain ⟨next, rest, hnext⟩ : ∃ next rest, names ++ [name] =
              next :: rest :=
            List.exists_cons_of_ne_nil (by simp)
          have hrest := h.2
          rw [hnext, List.flatMap_cons, List.cons_append] at hrest
          obtain ⟨rfl, hmore⟩ := name_eq hfirst hother hrest
          obtain ⟨suffix, more, rfl⟩ := ih
            (fun n hn => hnames n (List.mem_cons_of_mem first hn))
            (fun n hn => hothers n (List.mem_cons_of_mem first hn))
            (by rw [hnext, List.flatMap_cons, List.cons_append]; exact hmore)
          exact ⟨suffix, more, rfl⟩

theorem text_eq_flatMap (h : p.names ≠ []) :
    p.text = p.names.flatMap ('/' :: ·) := by
  obtain ⟨name, names, hnames⟩ := List.exists_cons_of_ne_nil h
  rw [text, hnames, join_cons, List.flatMap_cons, List.cons_append]

theorem text_prefix_iff :
    p.text <+: q.text ↔ q.names = p.names ∨ p.Above q ∨ p.Beside q := by
  have hslash (path : Path) : ∀ n ∈ path.names, '/' ∉ n :=
    fun n hn => (path.isName n hn).noSlash
  rcases List.eq_nil_or_concat p.names with hnil | ⟨parent, name, hp⟩
  · -- The root is a beginning of every path.
    refine iff_of_true ?_ ?_
    · rw [text, hnil, text, List.cons_prefix_cons]
      exact ⟨rfl, List.nil_prefix⟩
    · cases hq : q.names with
      | nil => exact Or.inl hnil.symm
      | cons name rest => exact Or.inr (Or.inl ⟨name, rest, by rw [hnil, hq]; rfl⟩)
  · rw [List.concat_eq_append] at hp
    have hpne : p.names ≠ [] := by simp [hp]
    rw [text_eq_flatMap hpne]
    constructor
    · intro h
      have hqne : q.names ≠ [] := by
        intro hnil
        rw [text, hnil, hp] at h
        have hlength := h.length_le
        have hname := (p.isName name (by simp [hp])).ne_nil
        have hpos := List.length_pos_of_ne_nil hname
        simp [join, List.intercalate] at hlength
        omega
      rw [text_eq_flatMap hqne, hp] at h
      obtain ⟨suffix, rest, hq⟩ := names_prefix
        (fun n hn => hslash p n (hp ▸ hn)) (hslash q) h
      cases suffix with
      | nil =>
          rw [List.append_nil] at hq
          cases rest with
          | nil => exact Or.inl (hq.trans hp.symm)
          | cons next rest =>
              refine Or.inr (Or.inl ⟨next, rest, ?_⟩)
              rw [hq, hp, List.append_assoc, List.singleton_append]
      | cons c suffix =>
          exact Or.inr (Or.inr ⟨parent, name, c :: suffix, rest, by simp, hp, hq⟩)
    · have hwhole (suffix : Text) (rest : List Text)
          (hq : q.names = parent ++ (name ++ suffix) :: rest) :
          p.names.flatMap ('/' :: ·) <+: q.text := by
        rw [text_eq_flatMap (by simp [hq]), hq, hp]
        simp [List.flatMap_append, List.append_assoc]
      rintro (hq | ⟨next, rest, hq⟩ | ⟨parent', name', suffix, rest, -, hp', hq⟩)
      · exact hwhole [] [] (by rw [hq, hp, List.append_nil])
      · apply hwhole [] (next :: rest)
        rw [hq, hp, List.append_nil, List.append_assoc, List.singleton_append]
      · obtain ⟨rfl, hname⟩ := List.append_inj' (hp.symm.trans hp') rfl
        obtain rfl := List.cons.inj hname |>.1
        exact hwhole suffix rest hq

end Path

end IreBlockchain.Foundation
