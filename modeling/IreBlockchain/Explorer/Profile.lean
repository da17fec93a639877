import IreBlockchain.Explorer.BankSend
import IreBlockchain.Explorer.Grammar

/-!
# The profile page

`loadOnchain` goes through the blocks downwards, and through the transactions of
each upwards, to the first that mentions the address and spells a profile.
-/

namespace IreBlockchain.Explorer

open IreBlockchain.Foundation

section Page

variable (fmt : NumberFormat)

/-- `/^ire1[0-9a-z]{38,90}$/` -/
def ireOk (a : Text) : Bool :=
  addrPrefix <+: a && 42 ≤ a.length && a.length ≤ 94 &&
    (a.drop addrPrefix.length).all isAddrChar

/-- `slice.replace(/^IREINSCRIBE1\s+\S+\s+/, "")`, from the marker on. -/
def dropHead (slice : Text) : Text :=
  let rest := slice.drop marker.length
  let fields := rest.dropWhile isSpace
  let tail := fields.dropWhile fun c => !isSpace c
  if rest.takeWhile isSpace ≠ [] ∧ (fields.takeWhile fun c => !isSpace c) ≠ [] ∧
      tail.takeWhile isSpace ≠ [] then
    tail.dropWhile isSpace
  else slice

/-- `extractJson` of this page: the object has to end the text. -/
def parseFromBrace (payload : Text) : Option (Json fmt.Number) :=
  (dropUntil ['{'] payload).bind (Json.parse fmt)

def IsProfileSet (o : Json fmt.Number) : Prop :=
  o.get "p".toList = some (.string (toJsString "ire-id".toList)) ∧
    o.get "op".toList = some (.string (toJsString "set".toList))

def isText (v : Option (Json fmt.Number)) (text : Text) : Bool :=
  match v with
  | some (.string s) => s = toJsString text
  | _ => false

def profileIn (addr : Text) (raw : Bytes) : Option (Json fmt.Number) :=
  let ascii := asciiFromBytes raw
  if occurs addr ascii then
    (dropUntil marker ascii).bind fun found =>
      (parseFromBrace fmt (dropHead (cutAt nul found))).filter fun o =>
        isText fmt (o.get "p".toList) "ire-id".toList &&
          isText fmt (o.get "op".toList) "set".toList
  else none

def profileWindow (height : Nat) : List Nat :=
  let minH := max 1 (height + 1 - 80)
  (List.range (height + 1 - minH)).map (minH + ·)

/-- The profile that is found for an address, when every block is served. -/
def loadOnchain (chain : Nat → List Bytes) (height : Nat) (addr : Text) :
    Option (Json fmt.Number) :=
  if ireOk addr then
    (profileWindow height).reverse.findSome? fun h =>
      (chain h).findSome? (profileIn fmt addr)
  else none

end Page

/-! ## The grammar of a profile -/

section Grammar

variable {fmt : NumberFormat}

theorem isText_iff {v : Option (Json fmt.Number)} {text : Text} :
    isText fmt v text = true ↔ v = some (.string (toJsString text)) := by
  cases v with
  | none => simp [isText]
  | some v => cases v <;> simp [isText]

def HasHead (slice text : Text) : Prop :=
  ∃ gap word gap', slice = marker ++ (gap ++ (word ++ (gap' ++ text))) ∧
    (gap ≠ [] ∧ ∀ c ∈ gap, isSpace c = true) ∧
    (word ≠ [] ∧ ∀ c ∈ word, isSpace c = false) ∧
    (gap' ≠ [] ∧ ∀ c ∈ gap', isSpace c = true) ∧
    ∀ c ∈ text.head?, isSpace c = false

def IsBody (slice text : Text) : Prop :=
  HasHead slice text ∨ (¬ ∃ text, HasHead slice text) ∧ text = slice

/-- The printable text mentions the address and spells a profile. -/
def SpellsProfile (fmt : NumberFormat) (addr ascii : Text)
    (o : Json fmt.Number) : Prop :=
  addr <:+: ascii ∧ ∃ found skipped json, FirstInscription ascii found ∧
    IsBody found (skipped ++ '{' :: json) ∧ '{' ∉ skipped ∧
    Json.parse fmt ('{' :: json) = some o ∧ IsProfileSet fmt o

theorem takeWhile_of_head {p : Char → Bool} {text : Text}
    (h : ∀ c ∈ text.head?, p c = false) :
    text.takeWhile p = [] ∧ text.dropWhile p = text := by
  cases text with
  | nil => exact ⟨rfl, rfl⟩
  | cons c rest =>
      have hc : ¬ p c = true := by simpa using h c rfl
      exact ⟨List.takeWhile_cons_of_neg hc, List.dropWhile_cons_of_neg hc⟩

theorem dropHead_of_hasHead {slice text : Text} (h : HasHead slice text) :
    dropHead slice = text := by
  obtain ⟨gap, word, gap', rfl, ⟨hgap, hgaps⟩, ⟨hword, hletters⟩,
    ⟨hgap', hgaps'⟩, hhead⟩ := h
  obtain ⟨w, word, rfl⟩ := List.exists_cons_of_ne_nil hword
  obtain ⟨g, more, rfl⟩ := List.exists_cons_of_ne_nil hgap'
  have hw := hletters w List.mem_cons_self
  have hg := hgaps' g List.mem_cons_self
  have hnonspace : ∀ b ∈ w :: word, (!isSpace b) = true := by
    intro b hb
    simp [hletters b hb]
  obtain ⟨htake, hdrop⟩ := takeWhile_of_head hhead
  have hfields : (gap ++ (w :: word ++ (g :: more ++ text))).dropWhile
      isSpace = w :: word ++ (g :: more ++ text) :=
    dropWhile_append_cons hgaps hw
  have hgapTake : (gap ++ (w :: word ++ (g :: more ++ text))).takeWhile
      isSpace = gap := takeWhile_append_cons hgaps hw
  have hwordTake : (w :: word ++ (g :: more ++ text)).takeWhile
      (fun c => !isSpace c) = w :: word :=
    takeWhile_append_cons hnonspace (by simp [hg])
  have htail : (w :: word ++ (g :: more ++ text)).dropWhile
      (fun c => !isSpace c) = g :: more ++ text :=
    dropWhile_append_cons hnonspace (by simp [hg])
  have hgapTake' : (g :: more ++ text).takeWhile isSpace = g :: more := by
    rw [List.takeWhile_append_of_pos hgaps', htake, List.append_nil]
  have htext : (g :: more ++ text).dropWhile isSpace = text := by
    rw [List.dropWhile_append_of_pos hgaps', hdrop]
  rw [dropHead]
  simp only [List.drop_left, hfields, hgapTake, hwordTake, htail, hgapTake',
    htext]
  rw [if_pos ⟨hgap, by simp, by simp⟩]

theorem hasHead_or_dropHead {slice : Text} (h : marker <+: slice) :
    HasHead slice (dropHead slice) ∨ dropHead slice = slice := by
  obtain ⟨rest, rfl⟩ := h
  rw [dropHead]
  simp only [List.drop_left]
  split
  next hne =>
    obtain ⟨hgap, hword, hgap'⟩ := hne
    refine Or.inl ⟨rest.takeWhile isSpace, _, _, ?_,
      ⟨hgap, fun c => List.mem_takeWhile_imp⟩, ⟨hword, ?_⟩,
      ⟨hgap', fun c => List.mem_takeWhile_imp⟩, ?_⟩
    · simp only [List.takeWhile_append_dropWhile]
    · intro c hc
      simpa using List.mem_takeWhile_imp hc
    · intro c hc
      cases dropWhile_eq_nil_or_cons isSpace
          ((rest.dropWhile isSpace).dropWhile fun c => !isSpace c) with
      | inl hnil =>
          rw [hnil] at hc
          cases hc
      | inr hcons =>
          obtain ⟨d, more, hcons, hd⟩ := hcons
          rw [hcons] at hc
          cases hc
          exact hd
  next => exact Or.inr rfl

theorem isBody_iff {slice text : Text} (h : marker <+: slice) :
    IsBody slice text ↔ dropHead slice = text := by
  constructor
  · rintro (hhead | ⟨hnone, rfl⟩)
    · exact dropHead_of_hasHead hhead
    · cases hasHead_or_dropHead h with
      | inl hhead => exact absurd ⟨_, hhead⟩ hnone
      | inr heq => exact heq
  · rintro rfl
    cases hasHead_or_dropHead h with
    | inl hhead => exact Or.inl hhead
    | inr heq =>
        by_cases hhead : ∃ text, HasHead slice text
        · obtain ⟨text, hhead⟩ := hhead
          rw [dropHead_of_hasHead hhead]
          exact Or.inl hhead
        · exact Or.inr ⟨hhead, heq⟩

theorem parseFromBrace_eq_some_iff {payload : Text} {o : Json fmt.Number} :
    parseFromBrace fmt payload = some o ↔
      ∃ skipped json, payload = skipped ++ '{' :: json ∧ '{' ∉ skipped ∧
        Json.parse fmt ('{' :: json) = some o := by
  rw [parseFromBrace, Option.bind_eq_some_iff]
  constructor
  · rintro ⟨text, htext, hparse⟩
    obtain ⟨skipped, json, rfl, rfl, hskipped⟩ :=
      dropUntil_singleton_eq_some_iff.mp htext
    exact ⟨skipped, json, rfl, hskipped, hparse⟩
  · rintro ⟨skipped, json, rfl, hskipped, hparse⟩
    exact ⟨'{' :: json, dropUntil_singleton_eq_some_iff.mpr
      ⟨skipped, json, rfl, rfl, hskipped⟩, hparse⟩

theorem isProfileSet_iff {o : Json fmt.Number} :
    (isText fmt (o.get "p".toList) "ire-id".toList &&
        isText fmt (o.get "op".toList) "set".toList) = true ↔
      IsProfileSet fmt o := by
  rw [Bool.and_eq_true, isText_iff, isText_iff]
  rfl

theorem profileIn_eq_some_iff {addr : Text} {raw : Bytes}
    {o : Json fmt.Number} :
    profileIn fmt addr raw = some o ↔
      SpellsProfile fmt addr (asciiFromBytes raw) o := by
  have hfilter {x : Option (Json fmt.Number)} : x.filter (fun o =>
      isText fmt (o.get "p".toList) "ire-id".toList &&
        isText fmt (o.get "op".toList) "set".toList) = some o ↔
      x = some o ∧ IsProfileSet fmt o := by
    rw [Option.filter_eq_some_iff, isProfileSet_iff]
  rw [profileIn, SpellsProfile]
  split
  next hmention =>
    rw [occurs_iff] at hmention
    simp only [hmention, true_and, Option.bind_eq_some_iff]
    constructor
    · rintro ⟨text, htext, hprofile⟩
      obtain ⟨hparse, hset⟩ := hfilter.mp hprofile
      obtain ⟨skipped, json, heq, hskipped, hparse⟩ :=
        parseFromBrace_eq_some_iff.mp hparse
      have hfirst := firstInscription_iff.mpr ⟨text, htext, rfl⟩
      exact ⟨cutAt nul text, skipped, json, hfirst,
        (isBody_iff hfirst.marker_prefix).mpr heq, hskipped, hparse, hset⟩
    · rintro ⟨found, skipped, json, hfirst, hbody, hskipped, hparse, hset⟩
      have hmarker := hfirst.marker_prefix
      obtain ⟨text, htext, rfl⟩ := firstInscription_iff.mp hfirst
      refine ⟨text, htext, hfilter.mpr ⟨?_, hset⟩⟩
      exact parseFromBrace_eq_some_iff.mpr
        ⟨skipped, json, (isBody_iff hmarker).mp hbody, hskipped, hparse⟩
  next hmention =>
    rw [occurs_iff] at hmention
    simp [hmention]

end Grammar

/-! ## The window -/

section Window

variable {fmt : NumberFormat} {sender : TxRaw → Text}
  {chain : Nat → List TxRaw} {height : Nat} {addr : Text}

def profilePrefix : Text := "IREINSCRIBE1 application/json ".toList

def InscribesProfile (fmt : NumberFormat) (memo : Text)
    (o : Json fmt.Number) : Prop :=
  ∃ text, memo = profilePrefix ++ text ∧ Json.parse fmt text = some o ∧
    IsProfileSet fmt o

/-- The transaction is the address's own and sets its profile. -/
def Sets (fmt : NumberFormat) (sender : TxRaw → Text) (addr : Text)
    (tx : TxRaw) (o : Json fmt.Number) : Prop :=
  sender tx = addr ∧ InscribesProfile fmt tx.body.memo o

def windowTxs (chain : Nat → List TxRaw) (height : Nat) : List TxRaw :=
  (profileWindow height).flatMap chain

def scanTxs (chain : Nat → List TxRaw) (height : Nat) : List TxRaw :=
  (profileWindow height).reverse.flatMap chain

/-- The last transaction of the window to set the address's profile. -/
def LastSet (fmt : NumberFormat) (sender : TxRaw → Text)
    (chain : Nat → List TxRaw) (height : Nat) (addr : Text)
    (o : Json fmt.Number) : Prop :=
  ∃ before tx after, windowTxs chain height = before ++ tx :: after ∧
    Sets fmt sender addr tx o ∧
    ∀ later ∈ after, ∀ o', ¬ Sets fmt sender addr later o'

def Spells (fmt : NumberFormat) (addr : Text) (tx : TxRaw)
    (o : Json fmt.Number) : Prop :=
  SpellsProfile fmt addr (asciiFromBytes tx.encode) o

/--
Some transaction spells the profile, and the scan reaches one that does before
any that spells another.
-/
structure ReachedFirst (fmt : NumberFormat) (chain : Nat → List TxRaw)
    (height : Nat) (addr : Text) (o : Json fmt.Number) : Prop where
  spelt : ∃ tx ∈ windowTxs chain height, Spells fmt addr tx o
  others : ∀ earlier tx later o', scanTxs chain height = earlier ++ tx :: later →
    Spells fmt addr tx o' → o' ≠ o → ∃ same ∈ earlier, Spells fmt addr same o

theorem mem_scanTxs {tx : TxRaw} :
    tx ∈ scanTxs chain height ↔ tx ∈ windowTxs chain height := by
  simp only [scanTxs, windowTxs, List.mem_flatMap, List.mem_reverse]

theorem findSome?_flatMap {α β γ : Type} (l : List α) (f : α → List β)
    (p : β → Option γ) :
    (l.flatMap f).findSome? p = l.findSome? fun a => (f a).findSome? p := by
  induction l with
  | nil => rfl
  | cons a l ih =>
      rw [List.flatMap_cons, List.findSome?_append, List.findSome?_cons, ih]
      cases (f a).findSome? p with
      | none => rfl
      | some c => rfl

theorem loadOnchain_eq (haddr : ireOk addr = true) :
    loadOnchain fmt (fun h => (chain h).map TxRaw.encode) height addr =
      (scanTxs chain height).findSome? fun tx =>
        profileIn fmt addr tx.encode := by
  rw [loadOnchain, if_pos haddr, scanTxs, findSome?_flatMap]
  simp only [List.findSome?_map]
  rfl

theorem profileIn_eq_none_iff {tx : TxRaw} :
    profileIn fmt addr tx.encode = none ↔ ∀ o, ¬ Spells fmt addr tx o := by
  simp only [Spells, ← profileIn_eq_some_iff, Option.eq_none_iff_forall_ne_some,
    ne_eq]

theorem Spells.unique {tx : TxRaw} {o o' : Json fmt.Number}
    (h : Spells fmt addr tx o) (h' : Spells fmt addr tx o') : o' = o := by
  have hfound := profileIn_eq_some_iff.mpr h
  rw [profileIn_eq_some_iff.mpr h'] at hfound
  exact Option.some.inj hfound

theorem loadOnchain_eq_some (haddr : ireOk addr = true) {o : Json fmt.Number}
    (h : loadOnchain fmt (fun h => (chain h).map TxRaw.encode) height addr =
      some o) :
    ∃ before tx after, scanTxs chain height = before ++ tx :: after ∧
      Spells fmt addr tx o ∧ ∀ e ∈ before, ∀ o', ¬ Spells fmt addr e o' := by
  rw [loadOnchain_eq haddr, List.findSome?_eq_some_iff] at h
  obtain ⟨before, tx, after, hscan, htx, hbefore⟩ := h
  exact ⟨before, tx, after, hscan, profileIn_eq_some_iff.mp htx,
    fun e he => profileIn_eq_none_iff.mp (hbefore e he)⟩

theorem loadOnchain_eq_none_iff (haddr : ireOk addr = true) :
    loadOnchain fmt (fun h => (chain h).map TxRaw.encode) height addr =
        none ↔
      ∀ tx ∈ windowTxs chain height, ∀ o, ¬ Spells fmt addr tx o := by
  rw [loadOnchain_eq haddr, List.findSome?_eq_none_iff]
  simp only [profileIn_eq_none_iff, mem_scanTxs]

theorem loadOnchain_eq_some_iff (haddr : ireOk addr = true)
    {o : Json fmt.Number} :
    loadOnchain fmt (fun h => (chain h).map TxRaw.encode) height addr =
        some o ↔
      ReachedFirst fmt chain height addr o := by
  constructor
  · intro h
    obtain ⟨before, tx, after, hscan, htx, hbefore⟩ :=
      loadOnchain_eq_some haddr h
    constructor
    · exact ⟨tx, mem_scanTxs.mp (by simp [hscan]), htx⟩
    · intro earlier other later o' hscan' hother hne
      rw [hscan, List.append_eq_append_iff] at hscan'
      obtain ⟨between, rfl, hrest⟩ | ⟨between, rfl, hrest⟩ := hscan'
      · cases between with
        | nil =>
            obtain ⟨rfl, -⟩ := List.cons_eq_cons.mp hrest
            exact absurd (htx.unique hother) hne
        | cons first between =>
            obtain ⟨rfl, -⟩ := List.cons_eq_cons.mp hrest
            exact ⟨tx, by simp, htx⟩
      · cases between with
        | nil =>
            obtain ⟨rfl, -⟩ := List.cons_eq_cons.mp hrest
            exact absurd (htx.unique hother) hne
        | cons first between =>
            obtain ⟨rfl, -⟩ := List.cons_eq_cons.mp hrest
            exact absurd hother (hbefore other (by simp) o')
  · rintro ⟨⟨tx, hmem, htx⟩, hothers⟩
    cases hshown : loadOnchain fmt (fun h => (chain h).map TxRaw.encode) height
        addr with
    | none => exact absurd htx ((loadOnchain_eq_none_iff haddr).mp hshown tx hmem o)
    | some shown =>
        obtain ⟨before, first, after, hscan, hfirst, hbefore⟩ :=
          loadOnchain_eq_some haddr hshown
        by_contra hne
        obtain ⟨same, hsame, hspells⟩ :=
          hothers before first after shown hscan hfirst fun h => hne (h ▸ rfl)
        exact hbefore same hsame o hspells

theorem not_lastSet_iff : (∀ o, ¬ LastSet fmt sender chain height addr o) ↔
    ∀ tx ∈ windowTxs chain height, ∀ o, ¬ Sets fmt sender addr tx o := by
  classical
  constructor
  · intro hnone tx hmem o hset
    have hsome : ((windowTxs chain height).reverse.find? fun tx =>
        decide (∃ o, Sets fmt sender addr tx o)).isSome = true := by
      rw [List.find?_isSome]
      exact ⟨tx, List.mem_reverse.mpr hmem, decide_eq_true ⟨o, hset⟩⟩
    obtain ⟨last, hlast⟩ := Option.isSome_iff_exists.mp hsome
    obtain ⟨hsets, later, sooner, hwindow, hlater⟩ :=
      List.find?_eq_some_iff_append.mp hlast
    obtain ⟨o', hset'⟩ := of_decide_eq_true hsets
    refine hnone o' ⟨sooner.reverse, last, later.reverse, ?_, hset', ?_⟩
    · simpa using congrArg List.reverse hwindow
    · intro tx' hmem' o'' hset''
      have := hlater tx' (List.mem_reverse.mp hmem')
      simp only [Bool.not_eq_true', decide_eq_false_iff_not] at this
      exact this ⟨o'', hset''⟩
  · rintro hnone o ⟨before, tx, after, hwindow, hset, -⟩
    exact hnone tx (by simp [hwindow]) o hset

/--
The profile that is shown is the last that the address set, or none if it set
none, exactly if a transaction that spells the last one is reached before any
that spells another, and if none spells one for an address that set none.
-/
theorem shown_is_last_set (fmt : NumberFormat) (sender : TxRaw → Text)
    (chain : Nat → List TxRaw) (height : Nat) (haddr : ireOk addr = true) :
    (∀ o, loadOnchain fmt (fun h => (chain h).map TxRaw.encode) height addr =
        some o ↔ LastSet fmt sender chain height addr o) ↔
      (∀ o, LastSet fmt sender chain height addr o →
        ReachedFirst fmt chain height addr o) ∧
      ((∀ tx ∈ windowTxs chain height, ∀ o, ¬ Sets fmt sender addr tx o) →
        ∀ tx ∈ windowTxs chain height, ∀ o, ¬ Spells fmt addr tx o) := by
  rw [← loadOnchain_eq_none_iff haddr, ← not_lastSet_iff]
  simp only [← loadOnchain_eq_some_iff haddr]
  constructor
  · intro h
    refine ⟨fun o => (h o).mpr, ?_⟩
    intro hnone
    rw [Option.eq_none_iff_forall_ne_some]
    intro o ho
    exact hnone o ((h o).mp ho)
  · rintro ⟨hset, hunset⟩ o
    refine ⟨?_, hset o⟩
    intro ho
    by_contra hnot
    have hnone : ∀ o', ¬ LastSet fmt sender chain height addr o' := by
      intro o' ho'
      have heq : some o = some o' := ho.symm.trans (hset o' ho')
      cases heq
      exact hnot ho'
    rw [hunset hnone] at ho
    cases ho

end Window

/-! ## Sample profiles -/

def sampleProfile (name : String) : Json literalFormat.Number :=
  .object [(toJsString "p".toList, .string (toJsString "ire-id".toList)),
    (toJsString "op".toList, .string (toJsString "set".toList)),
    (toJsString "n".toList, .string (toJsString name.toList))]

def profileTx (msg : MsgSend) (name : String) : TxRaw :=
  sendTx msg (profilePrefix ++ (sampleProfile name).stringify literalFormat)

theorem parse_sampleProfile (name : String) :
    Json.parse literalFormat ((sampleProfile name).stringify literalFormat) =
      some (sampleProfile name) := by
  apply parse_stringify
  have hkeys : [toJsString "p".toList, toJsString "op".toList,
      toJsString "n".toList].Nodup := by decide
  exact ⟨hkeys, trivial, trivial, trivial, trivial⟩

theorem sets_profileTx (name : String) :
    Sets literalFormat (fun _ => addrA.text) addrA.text
      (profileTx selfPayment name) (sampleProfile name) :=
  ⟨rfl, _, rfl, parse_sampleProfile name, rfl, rfl⟩

def chainOf (txs : List TxRaw) (height : Nat) : List TxRaw :=
  if height = 5 then txs else []

theorem windowTxs_chainOf (txs : List TxRaw) :
    windowTxs (chainOf txs) 5 = txs ∧ scanTxs (chainOf txs) 5 = txs := by
  have hup : profileWindow 5 = [1, 2, 3, 4, 5] := rfl
  rw [windowTxs, scanTxs, hup]
  simp [chainOf]

theorem spells_profileTx :
    SpellsProfile literalFormat addrA.text
      (asciiFromBytes (profileTx selfPayment "mia").encode)
      (sampleProfile "mia") := by
  have hmention : addrA.text <:+:
      asciiFromBytes (profileTx selfPayment "mia").encode := by
    rw [← occurs_iff]
    decide +kernel
  have hfirst : FirstInscription
      (asciiFromBytes (profileTx selfPayment "mia").encode)
      (profilePrefix ++
        (sampleProfile "mia").stringify literalFormat) := by
    have hfound : (dropUntil marker (asciiFromBytes
        (profileTx selfPayment "mia").encode)).map (cutAt nul) =
          some (profilePrefix ++
            (sampleProfile "mia").stringify literalFormat) := by
      decide +kernel
    exact firstInscription_iff.mpr (Option.map_eq_some_iff.mp hfound)
  refine ⟨hmention, _, [], ((sampleProfile "mia").stringify
    literalFormat).tail, hfirst, ?_, nofun, parse_sampleProfile "mia", rfl,
    rfl⟩
  exact (isBody_iff hfirst.marker_prefix).mpr (by decide +kernel)

theorem shown_is_last_set_sample :
    loadOnchain literalFormat
        (fun h => (chainOf [profileTx selfPayment "mia"] h).map TxRaw.encode)
        5 addrA.text = some (sampleProfile "mia") ↔
      LastSet literalFormat (fun _ => addrA.text)
        (chainOf [profileTx selfPayment "mia"]) 5 addrA.text
        (sampleProfile "mia") := by
  obtain ⟨hwindow, hscan⟩ := windowTxs_chainOf [profileTx selfPayment "mia"]
  have hlast : LastSet literalFormat (fun _ => addrA.text)
      (chainOf [profileTx selfPayment "mia"]) 5 addrA.text
      (sampleProfile "mia") :=
    ⟨[], _, [], hwindow, sets_profileTx _, nofun⟩
  refine (shown_is_last_set literalFormat (fun _ => addrA.text)
    (chainOf [profileTx selfPayment "mia"]) 5 (by decide +kernel)).mpr
      ⟨?_, fun hnone => absurd hlast (not_lastSet_iff.mpr hnone _)⟩
        (sampleProfile "mia")
  rintro o ⟨before, tx, after, heq, ⟨_, text, hmemo, hparse, _⟩, _⟩
  rw [hwindow] at heq
  obtain ⟨rfl, rfl, rfl⟩ : before = [] ∧ tx = profileTx selfPayment "mia" ∧
      after = [] := by
    cases before with
    | nil =>
        cases heq
        exact ⟨rfl, rfl, rfl⟩
    | cons => simp at heq
  have htext : (sampleProfile "mia").stringify literalFormat = text :=
    List.append_cancel_left hmemo
  rw [← htext, parse_sampleProfile] at hparse
  cases hparse
  constructor
  · exact ⟨_, by simp [hwindow], spells_profileTx⟩
  · intro earlier other later o' heq hother hne
    rw [hscan] at heq
    have hsame : other = profileTx selfPayment "mia" := by
      have hmem : other ∈ earlier ++ other :: later := by simp
      rw [← heq] at hmem
      exact List.mem_singleton.mp hmem
    exact absurd (Spells.unique spells_profileTx (hsame ▸ hother)) hne

/--
Of two profiles in one block the older one is shown, and one that another
address put into a payment is shown to its recipient.
-/
theorem shown_is_not_last_set :
    (¬ ∀ o, loadOnchain literalFormat (fun h => (chainOf
          [profileTx selfPayment "old", profileTx selfPayment "new"] h).map
            TxRaw.encode) 5 addrA.text = some o ↔
        LastSet literalFormat (fun _ => addrA.text) (chainOf
          [profileTx selfPayment "old", profileTx selfPayment "new"]) 5
          addrA.text o) ∧
    ¬ ∀ o, loadOnchain literalFormat (fun h =>
          (chainOf [profileTx payment "fake"] h).map TxRaw.encode) 5
            addrB.text = some o ↔
        LastSet literalFormat (fun _ => addrA.text)
          (chainOf [profileTx payment "fake"]) 5 addrB.text o := by
  have hold : (loadOnchain literalFormat (fun h => (chainOf
      [profileTx selfPayment "old", profileTx selfPayment "new"] h).map
        TxRaw.encode) 5 addrA.text).any (fun o =>
          isText literalFormat (o.get "n".toList) "old".toList) = true := by
    decide +kernel
  have hfake : (loadOnchain literalFormat (fun h =>
      (chainOf [profileTx payment "fake"] h).map TxRaw.encode) 5
        addrB.text).isSome = true := by decide +kernel
  constructor
  · intro h
    have hlast : LastSet literalFormat (fun _ => addrA.text) (chainOf
        [profileTx selfPayment "old", profileTx selfPayment "new"]) 5
        addrA.text (sampleProfile "new") :=
      ⟨[profileTx selfPayment "old"], _, [], (windowTxs_chainOf _).1,
        sets_profileTx _, nofun⟩
    rw [(h _).mpr hlast] at hold
    exact absurd hold (by decide)
  · intro h
    obtain ⟨o, ho⟩ := Option.isSome_iff_exists.mp hfake
    obtain ⟨_, _, _, _, ⟨hsender, _⟩, _⟩ := (h o).mp ho
    have hsame : addrA.text = addrB.text := hsender
    exact absurd hsame (by decide)

end IreBlockchain.Explorer
