import IreBlockchain.Brokers.Traits
import IreBlockchain.Foundation.Slots
import Mathlib.Data.List.Dedup

/-!
# The skill of a token

Every token of the collection has one skill: what it does at which desk, with
which pair, at which time frame and risk.  The hash says where to start, and
the next combination that is still free is taken.
-/

namespace IreBlockchain.Brokers

open IreBlockchain.Foundation

def pairCount : Nat := 21

structure Desk where
  id : String
  name : String
  pairs : List String
  length_pairs : pairs.length = pairCount := by rfl

def desks : List Desk :=
  [{ id := "kraken-spot"
     name := "Kraken public ticker"
     pairs :=
       ["XBTUSD", "ETHUSD", "SOLUSD", "XRPUSD", "ADAUSD", "LTCUSD", "DOGEUSD",
        "DOTUSD", "LINKUSD", "UNIUSD", "ATOMUSD", "AVAXUSD", "FILUSD", "NEARUSD",
        "APTUSD", "SUIUSD", "XLMUSD", "ALGOUSD", "TRXUSD", "BCHUSD", "AAVEUSD"] },
   { id := "kraken-fut"
     name := "Kraken futures ticker"
     pairs :=
       ["PF_XBTUSD", "PF_ETHUSD", "PF_SOLUSD", "PF_XRPUSD", "PF_LTCUSD",
        "PF_BCHUSD", "PF_ADAUSD", "PF_DOTUSD", "PF_LINKUSD", "PF_UNIUSD",
        "PF_AVAXUSD", "PF_ATOMUSD", "PF_NEARUSD", "PF_APTUSD", "PF_FILUSD",
        "PF_XLMUSD", "PF_ALGOUSD", "PF_TRXUSD", "PF_AAVEUSD", "PF_DOGEUSD",
        "PF_SUIUSD"] },
   { id := "phantom-sol"
     name := "Phantom/SOL watch"
     pairs :=
       ["SOL", "JUP", "BONK", "WIF", "PYTH", "JTO", "RAY", "MSOL", "JITOSOL",
        "RENDER", "ORCA", "MNDE", "HNT", "W", "TNSR", "USDC", "WBTC", "WETH",
        "JTO-SOL", "BONK-SOL", "JUP-SOL"] },
   { id := "ire-rpc"
     name := "IRE testnet RPC"
     pairs :=
       ["uire", "IREVAL1", "ire-1-height", "ire-1-mempool", "inscriptions",
        "markets", "points", "vault-gas", "seed-status", "join-wait", "bank-send",
        "note-memo", "validator-set", "consensus-power", "gov-proposal",
        "staking-bonded", "supply-uire", "community-pool", "fee-collector",
        "unconfirmed-txs", "latest-block"] },
   { id := "codex-read"
     name := "Codex Supergraph (read)"
     pairs :=
       ["ETH", "BTC", "SOL", "UNI", "LINK", "AAVE", "MKR", "ARB", "OP", "SUI",
        "APT", "TIA", "JUP", "WIF", "ONDO", "ENA", "PENDLE", "LDO", "RPL", "GRT",
        "ENS"] },
   { id := "rh-blockscout"
     name := "Robinhood Blockscout floor"
     pairs :=
       ["CRYPTO-BROKERS", "NINJAAGENT", "RH-ETH", "token-holders", "totalSupply",
        "NFT-1", "NFT-42", "NFT-2500", "contract-metadata", "gas-ETH",
        "latest-block", "token-transfers", "NFT-inventory", "ERC721-count",
        "floor-stats", "ownerOf-scan", "OpenSea-link", "mint-bar", "SeaDrop",
        "collection-page", "Blockscout-counters"] },
   { id := "combat-dea"
     name := "Combat DEA token"
     pairs :=
       ["NINJAAGENT", "CRYPTO-BROKERS", "RH-ETH", "Combat-watch", "DEA-watch",
        "holders", "transfers", "token-stats", "related-RH", "collection-floor",
        "inventory", "metadata", "owner-scan", "combat-desk", "dea-ticker",
        "ninja-quote", "broker-quote", "gas-ETH", "latest-block",
        "verified-contract", "Blockscout-token"] },
   { id := "ire-volt"
     name := "IRE Volt"
     pairs :=
       ["VOLT-POOL", "uire-balance", "community_tax", "fee-split", "height",
        "rewards-spend", "airdrop-gov", "ops-spend", "no-treasury", "genesis-tax",
        "proposal-001", "module-distribution", "bank-balances", "status",
        "supply", "bonded", "unbonding", "inflation-0", "points-fund",
        "vault-page", "gas-in"] }]

def roles : List String :=
  ["Scanner", "Clock-In crank helper", "Drawdown guard", "Portfolio snapshot",
   "Grid designer", "DCA planner", "Funding scan", "TBA collector",
   "Mempool watch", "Validator waitlist"]

def timeframes : List String := ["1m", "5m", "15m", "1h", "4h", "1d", "1w", "8h-funding"]

def risks : List String := ["watch-only", "tight", "standard", "wide", "halt-first"]

def space : Nat :=
  desks.length * roles.length * pairCount * timeframes.length * risks.length

/-! ## Combinations -/

structure Combo where
  deskI : Fin desks.length
  roleI : Fin roles.length
  pairI : Fin pairCount
  tfI : Fin timeframes.length
  riskI : Fin risks.length
  deriving DecidableEq

def digit (size n : Nat) (h : 0 < size) : Fin size := ⟨n % size, Nat.mod_lt n h⟩

/-- The digits of an index, the one of the risk being the last. -/
def decodeIndex (idx : Nat) : Combo :=
  let n := idx
  let riskI := digit risks.length n (by decide)
  let n := n / risks.length
  let tfI := digit timeframes.length n (by decide)
  let n := n / timeframes.length
  let pairI := digit pairCount n (by decide)
  let n := n / pairCount
  let roleI := digit roles.length n (by decide)
  let n := n / roles.length
  let deskI := digit desks.length n (by decide)
  { deskI, roleI, pairI, tfI, riskI }

def comboKey (d : Combo) : Text :=
  join ['|'] [decimal d.deskI, decimal d.roleI, decimal d.pairI, decimal d.tfI,
    decimal d.riskI]

def Combo.desk (d : Combo) : Desk := desks.get d.deskI

def Combo.role (d : Combo) : String := roles.get d.roleI

def Combo.pair (d : Combo) : String :=
  d.desk.pairs.get (d.pairI.cast d.desk.length_pairs.symm)

def Combo.timeframe (d : Combo) : String := timeframes.get d.tfI

def Combo.risk (d : Combo) : String := risks.get d.riskI

def Combo.name (d : Combo) : Text :=
  d.role.toList ++ " · ".toList ++ d.pair.toList ++ " ".toList ++
    d.timeframe.toList ++ " · ".toList ++ d.desk.name.toList ++
    " · ".toList ++ d.risk.toList

/-! ## The table -/

structure Skill where
  tokenId : Nat
  skillId : Text
  name : Text
  desk : String
  deskId : String
  role : String
  pair : String
  timeframe : String
  risk : String
  execution : Text
  deriving DecidableEq

def skillOf (id : Nat) (sid : Text) (d : Combo) : Skill where
  tokenId := id
  skillId := sid
  name := d.name
  desk := d.desk.name
  deskId := d.desk.id
  role := d.role
  pair := d.pair
  timeframe := d.timeframe
  risk := d.risk
  execution := "owner-signed".toList

/-- What `buildTable` fills: the keys that are taken, and the skills. -/
structure SkillTable where
  usedCombo : List Text
  usedSid : List Text
  table : List Skill

def comboExhausted (id : Nat) : Error :=
  ⟨none, "skill combo space exhausted at id ".toList ++ decimal id⟩

def sidFailed (id : Nat) : Error :=
  ⟨none, "skillId probe failed at ".toList ++ decimal id⟩

variable (H : HexHash)

def comboText (id : Nat) : Text :=
  "crypto-brokers-skill-".toList ++ decimal id ++ "-combo".toList

def comboStart (id : Nat) : Nat := H.leading (comboText id) % space

def sidText (id sidProbe : Nat) : Text :=
  let str := "crypto-brokers-skillid-".toList ++ decimal id
  let str := if sidProbe = 0 then str
    else str ++ "-p".toList ++ decimal sidProbe
  "CBK-S-".toList ++ upper ((H.sha256hex str).take 10)

/-- The `while` loop over the skill ids; it gives up after 64 of them. -/
def findSid (usedSid : List Text) (id : Nat) : Nat → Nat → Except Error Text
  | tries, sidProbe =>
      let sid := sidText H id sidProbe
      if sid ∈ usedSid then
        match tries with
        | 0 => .error (sidFailed id)
        | tries + 1 => findSid usedSid id tries (sidProbe + 1)
      else .ok sid

def findCombo (usedCombo : List Text) (id : Nat) : Except Error Combo :=
  match probe (fun idx => comboKey (decodeIndex idx) ∈ usedCombo) space space
      (comboStart H id) with
  | some idx => .ok (decodeIndex idx)
  | none => .error (comboExhausted id)

def addSkill (t : SkillTable) (id : Nat) : Except Error SkillTable := do
  let dec ← findCombo H t.usedCombo id
  let sid ← findSid H t.usedSid id 64 0
  return {
    usedCombo := comboKey dec :: t.usedCombo
    usedSid := sid :: t.usedSid
    table := t.table ++ [skillOf id sid dec] }

def skillTable (collectionSize : Nat) : Except Error (List Skill) := do
  let t ← (List.range' 1 collectionSize).foldlM (addSkill H) ⟨[], [], []⟩
  return t.table

/-! ## The check -/

def comboOf (s : Skill) : Text :=
  join ['|'] [s.deskId.toList, s.role.toList, s.pair.toList,
    s.timeframe.toList, s.risk.toList]

inductive Clash
  | missing (i : Nat)
  | execution (i : Nat)
  | skillId (a b : Nat)
  | name (a b : Nat)
  | combo (a b : Nat)
  deriving DecidableEq

structure UniqueReport where
  size : Nat
  distinctSkillIds : Nat
  distinctNames : Nat
  space : Nat
  deriving DecidableEq

/-- The loop of `assertUnique`; `seen` is what its three maps hold. -/
def checkUnique (seen : List (Nat × Skill)) :
    List (Nat × Option Skill) → Except Clash (List (Nat × Skill))
  | [] => .ok seen
  | (i, none) :: _ => .error (.missing i)
  | (i, some s) :: rest =>
      if s.execution ≠ "owner-signed".toList then .error (.execution i)
      else
        match seen.find? fun e => e.2.skillId = s.skillId with
        | some e => .error (.skillId e.1 i)
        | none =>
            match seen.find? fun e => e.2.name = s.name with
            | some e => .error (.name e.1 i)
            | none =>
                match seen.find? fun e => comboOf e.2 = comboOf s with
                | some e => .error (.combo e.1 i)
                | none => checkUnique ((i, s) :: seen) rest

/-- The row of a token is one place before its id. -/
def assertUnique (collectionSize : Nat) (table : List Skill) :
    Except Clash UniqueReport := do
  let rows := (List.range' 1 collectionSize).map fun i => (i, table[i - 1]?)
  let seen ← checkUnique [] rows
  return {
    size := collectionSize
    distinctSkillIds := (seen.map fun e => e.2.skillId).dedup.length
    distinctNames := (seen.map fun e => e.2.name).dedup.length
    space := space }

/-! ## Combinations are told apart -/

def isPlain (c : Char) : Bool := c ≠ ' ' && c ≠ '·' && c ≠ '|'

theorem pairs_plain : ∀ desk ∈ desks, desk.pairs.Nodup ∧
    ∀ pair ∈ desk.pairs, pair.toList.all isPlain = true := by
  decide +kernel

theorem desks_plain : (desks.map Desk.name).Nodup ∧ (desks.map Desk.id).Nodup ∧
    ∀ desk ∈ desks, '·' ∉ desk.name.toList ∧ '|' ∉ desk.id.toList := by
  decide +kernel

theorem roles_plain : roles.Nodup ∧
    ∀ role ∈ roles, '·' ∉ role.toList ∧ '|' ∉ role.toList := by
  decide +kernel

theorem timeframes_plain : timeframes.Nodup ∧
    ∀ tf ∈ timeframes, '·' ∉ tf.toList ∧ '|' ∉ tf.toList := by
  decide +kernel

theorem risks_plain : risks.Nodup ∧
    ∀ risk ∈ risks, '·' ∉ risk.toList ∧ '|' ∉ risk.toList := by
  decide +kernel

theorem eq_of_get_eq {α β : Type} {l : List α} {key : α → β}
    (hnodup : (l.map key).Nodup) {i j : Fin l.length}
    (h : key (l.get i) = key (l.get j)) : i = j := by
  have hsame := List.inj_on_of_nodup_map hnodup (List.get_mem l i)
    (List.get_mem l j) h
  exact (hnodup.of_map key).get_inj_iff.mp hsame

variable {d d' : Combo}

theorem Combo.ext_words (hdesk : d.deskI = d'.deskI) (hrole : d.role = d'.role)
    (hpair : d.pair = d'.pair) (htf : d.timeframe = d'.timeframe)
    (hrisk : d.risk = d'.risk) : d = d' := by
  obtain ⟨deskI, roleI, pairI, tfI, riskI⟩ := d
  obtain ⟨deskI', roleI', pairI', tfI', riskI'⟩ := d'
  obtain rfl : deskI = deskI' := hdesk
  have hpairs := (pairs_plain _ (List.get_mem desks deskI)).1
  obtain rfl : roleI = roleI' := roles_plain.1.get_inj_iff.mp hrole
  obtain rfl : tfI = tfI' := timeframes_plain.1.get_inj_iff.mp htf
  obtain rfl : riskI = riskI' := risks_plain.1.get_inj_iff.mp hrisk
  have hcast := hpairs.get_inj_iff.mp hpair
  have hval := congrArg Fin.val hcast
  obtain rfl : pairI = pairI' := Fin.ext hval
  rfl

theorem Combo.not_mem_words (d : Combo) :
    ('·' ∉ d.role.toList ∧ '|' ∉ d.role.toList) ∧
    (' ' ∉ d.pair.toList ∧ '·' ∉ d.pair.toList ∧ '|' ∉ d.pair.toList) ∧
    ('·' ∉ d.timeframe.toList ∧ '|' ∉ d.timeframe.toList) ∧
    ('·' ∉ d.desk.name.toList ∧ '|' ∉ d.desk.id.toList) ∧
    ('·' ∉ d.risk.toList ∧ '|' ∉ d.risk.toList) := by
  have hpair := (pairs_plain d.desk (List.get_mem _ _)).2 d.pair (List.get_mem _ _)
  have hchar {c : Char} (hc : isPlain c = false) : c ∉ d.pair.toList := by
    intro hmem
    rw [List.all_eq_true.mp hpair c hmem] at hc
    exact Bool.noConfusion hc
  exact ⟨roles_plain.2 d.role (List.get_mem _ _),
    ⟨hchar (by decide), hchar (by decide), hchar (by decide)⟩,
    timeframes_plain.2 d.timeframe (List.get_mem _ _),
    desks_plain.2.2 d.desk (List.get_mem _ _),
    risks_plain.2 d.risk (List.get_mem _ _)⟩

theorem Combo.name_eq (d : Combo) :
    d.name = join ['·'] [d.role.toList ++ [' '],
      ' ' :: d.pair.toList ++ ' ' :: d.timeframe.toList ++ [' '],
      ' ' :: d.desk.name.toList ++ [' '], ' ' :: d.risk.toList] := by
  have hdot : " · ".toList = [' ', '·', ' '] := by decide
  have hspace : " ".toList = [' '] := by decide
  simp [Combo.name, hdot, hspace, join, List.intercalate]

theorem Combo.not_mem_name_parts (d : Combo) : ∀ part ∈
    [d.role.toList ++ [' '],
      ' ' :: d.pair.toList ++ ' ' :: d.timeframe.toList ++ [' '],
      ' ' :: d.desk.name.toList ++ [' '], ' ' :: d.risk.toList],
    '·' ∉ part := by
  obtain ⟨hrole, hpair, htf, hdesk, hrisk⟩ := d.not_mem_words
  simp [hrole.1, hpair.2.1, htf.1, hdesk.1, hrisk.1]

theorem Combo.name_injective (h : d.name = d'.name) : d = d' := by
  rw [Combo.name_eq, Combo.name_eq,
    join_inj (by simp) (by simp) d.not_mem_name_parts d'.not_mem_name_parts] at h
  simp only [List.cons.injEq, List.append_cancel_right_eq, and_true,
    List.cons_append, true_and, String.toList_inj] at h
  obtain ⟨hrole, hmiddle, hdesk, hrisk⟩ := h
  obtain ⟨hpair, htf⟩ : d.pair = d'.pair ∧ d.timeframe = d'.timeframe := by
    have hspace := d.not_mem_words.2.1.1
    have hspace' := d'.not_mem_words.2.1.1
    have hsplit := congrArg (List.splitOn ' ') hmiddle
    rw [List.splitOn_append_cons_self_of_not_mem hspace,
      List.splitOn_append_cons_self_of_not_mem hspace', List.cons.injEq] at hsplit
    obtain ⟨hpair, -⟩ := hsplit
    rw [hpair] at hmiddle
    have htf := (List.cons.inj (List.append_cancel_left hmiddle)).2
    exact ⟨String.toList_inj.mp hpair, String.toList_inj.mp htf⟩
  have hdeskI : d.deskI = d'.deskI := eq_of_get_eq desks_plain.1 hdesk
  exact Combo.ext_words hdeskI hrole hpair htf hrisk

theorem comboOf_injective {id id' : Nat} {sid sid' : Text}
    (h : comboOf (skillOf id sid d) = comboOf (skillOf id' sid' d')) :
    d = d' := by
  have hbar (d : Combo) : ∀ part ∈ [d.desk.id.toList, d.role.toList,
      d.pair.toList, d.timeframe.toList, d.risk.toList], '|' ∉ part := by
    obtain ⟨hrole, hpair, htf, hdesk, hrisk⟩ := d.not_mem_words
    simp [hrole.2, hpair.2.2, htf.2, hdesk.2, hrisk.2]
  simp only [comboOf, skillOf] at h
  rw [join_inj (by simp) (by simp) (hbar d) (hbar d')] at h
  simp only [List.cons.injEq, and_true, String.toList_inj] at h
  obtain ⟨hdesk, hrole, hpair, htf, hrisk⟩ := h
  have hdeskI : d.deskI = d'.deskI := eq_of_get_eq desks_plain.2.1 hdesk
  exact Combo.ext_words hdeskI hrole hpair htf hrisk

theorem comboKey_injective (h : comboKey d = comboKey d') : d = d' := by
  have hbar (d : Combo) : ∀ part ∈ [decimal d.deskI, decimal d.roleI,
      decimal d.pairI, decimal d.tfI, decimal d.riskI], '|' ∉ part := by
    have hdigits (n : Nat) : '|' ∉ decimal n := by
      intro hmem
      have hdigit : '|'.isDigit = true :=
        Nat.isDigit_of_mem_toDigits (by decide) (by decide) hmem
      exact absurd hdigit (by decide)
    simp [hdigits]
  rw [comboKey, comboKey, join_inj (by simp) (by simp) (hbar d) (hbar d')] at h
  simp only [List.cons.injEq, and_true] at h
  obtain ⟨hdesk, hrole, hpair, htf, hrisk⟩ := h
  obtain ⟨deskI, roleI, pairI, tfI, riskI⟩ := d
  obtain ⟨deskI', roleI', pairI', tfI', riskI'⟩ := d'
  obtain rfl := Fin.ext (decimal_injective hdesk)
  obtain rfl := Fin.ext (decimal_injective hrole)
  obtain rfl := Fin.ext (decimal_injective hpair)
  obtain rfl := Fin.ext (decimal_injective htf)
  obtain rfl := Fin.ext (decimal_injective hrisk)
  rfl

theorem eq_of_digits_eq {size n m : Nat} (hmod : n % size = m % size)
    (hdiv : n / size = m / size) : n = m := by
  rw [← Nat.div_add_mod n size, ← Nat.div_add_mod m size, hmod, hdiv]

theorem decodeIndex_injective : ∀ i < space, ∀ j < space,
    decodeIndex i = decodeIndex j → i = j := by
  intro i hi j hj h
  simp only [decodeIndex, digit, Combo.mk.injEq, Fin.mk.injEq] at h
  obtain ⟨hdesk, hrole, hpair, htf, hrisk⟩ := h
  apply eq_of_digits_eq hrisk
  apply eq_of_digits_eq htf
  apply eq_of_digits_eq hpair
  apply eq_of_digits_eq hrole
  have hlast {n : Nat} (hn : n < space) :
      n / risks.length / timeframes.length / pairCount / roles.length <
        desks.length := by
    have hsizes : risks.length = 5 ∧ timeframes.length = 8 ∧ pairCount = 21 ∧
        roles.length = 10 ∧ desks.length = 8 := ⟨rfl, rfl, rfl, rfl, rfl⟩
    obtain ⟨hr, ht, hp, ho, hd⟩ := hsizes
    simp only [space, hr, ht, hp, ho, hd] at hn ⊢
    omega
  rwa [Nat.mod_eq_of_lt (hlast hi), Nat.mod_eq_of_lt (hlast hj)] at hdesk

/-! ## Filling the table -/

structure Placed where
  id : Nat
  sid : Text
  dec : Combo

def Placed.skill (p : Placed) : Skill := skillOf p.id p.sid p.dec

/-- The table after the tokens of `placed`, whatever the hash has made of them. -/
structure Filled (placed : List Placed) (t : SkillTable) : Prop where
  table_eq : t.table = placed.map Placed.skill
  usedCombo : t.usedCombo.Perm (placed.map fun p => comboKey p.dec)
  usedSid : t.usedSid.Perm (placed.map Placed.sid)
  combos : (placed.map Placed.dec).Nodup
  sids : (placed.map Placed.sid).Nodup

variable {placed : List Placed} {t t' : SkillTable} {id : Nat}

theorem filled_empty : Filled [] ⟨[], [], []⟩ :=
  ⟨rfl, .nil, .nil, List.nodup_nil, List.nodup_nil⟩

theorem mem_usedCombo (h : Filled placed t) (dec : Combo) :
    comboKey dec ∈ t.usedCombo ↔ dec ∈ placed.map Placed.dec := by
  rw [h.usedCombo.mem_iff, List.mem_map, List.mem_map]
  constructor
  · rintro ⟨p, hp, hkey⟩
    exact ⟨p, hp, comboKey_injective hkey⟩
  · rintro ⟨p, hp, rfl⟩
    exact ⟨p, hp, rfl⟩

theorem findCombo_of_filled (h : Filled placed t) (hroom : placed.length < space)
    (id : Nat) :
    ∃ dec, findCombo H t.usedCombo id = .ok dec ∧
      dec ∉ placed.map Placed.dec := by
  have hspace : 0 < space := by omega
  have hstart : comboStart H id < space := Nat.mod_lt _ hspace
  have htaken : (placed.map Placed.dec).length < space := by
    rwa [List.length_map]
  obtain ⟨free, hfree, hfresh⟩ := exists_fresh decodeIndex_injective htaken
  rw [← mem_usedCombo h] at hfresh
  let used (idx : Nat) : Bool := comboKey (decodeIndex idx) ∈ t.usedCombo
  have hunused : used free = false := decide_eq_false hfresh
  have hfound := probe_ne_none hfree hunused hstart
  unfold findCombo
  split
  next idx hprobe =>
    have hchosen := (probe_eq_some hstart hprobe).1
    rw [decide_eq_false_iff_not, mem_usedCombo h] at hchosen
    exact ⟨_, rfl, hchosen⟩
  next hprobe => exact absurd hprobe hfound

theorem findSid_spec (usedSid : List Text) (id tries sidProbe : Nat) :
    findSid H usedSid id tries sidProbe = .error (sidFailed id) ∨
      ∃ sid, findSid H usedSid id tries sidProbe = .ok sid ∧ sid ∉ usedSid := by
  induction tries generalizing sidProbe with
  | zero =>
      unfold findSid
      by_cases hused : sidText H id sidProbe ∈ usedSid
      · simp [hused]
      · simp [hused]
  | succ tries ih =>
      unfold findSid
      by_cases hused : sidText H id sidProbe ∈ usedSid
      · simpa [hused] using ih (sidProbe + 1)
      · simp [hused]

theorem Filled.addSkill (h : Filled placed t) (hroom : placed.length < space)
    (id : Nat) :
    Brokers.addSkill H t id = .error (sidFailed id) ∨
      ∃ p t', Brokers.addSkill H t id = .ok t' ∧ p.id = id ∧
        Filled (placed ++ [p]) t' := by
  obtain ⟨dec, hdec, hnew⟩ := findCombo_of_filled H h hroom id
  rcases findSid_spec H t.usedSid id 64 0 with hsid | ⟨sid, hsid, hfresh⟩
  · left
    simp only [Brokers.addSkill, hdec, hsid, ok_bind]
    rfl
  · right
    refine ⟨⟨id, sid, dec⟩, ⟨comboKey dec :: t.usedCombo, sid :: t.usedSid,
      t.table ++ [skillOf id sid dec]⟩, ?_, rfl, ?_⟩
    · simp only [Brokers.addSkill, hdec, hsid, ok_bind]
      rfl
    · rw [h.usedSid.mem_iff] at hfresh
      refine ⟨?_, ?_, ?_, ?_, ?_⟩
      · simp [h.table_eq, Placed.skill]
      · rw [List.map_append]
        exact (h.usedCombo.cons _).trans
          (List.perm_append_singleton _ _).symm
      · rw [List.map_append]
        exact (h.usedSid.cons _).trans (List.perm_append_singleton _ _).symm
      · rw [List.map_append, List.map_singleton]
        rw [← List.concat_eq_append, List.nodup_concat]
        exact ⟨hnew, h.combos⟩
      · rw [List.map_append, List.map_singleton]
        rw [← List.concat_eq_append, List.nodup_concat]
        exact ⟨hfresh, h.sids⟩

theorem Filled.addAll (h : Filled placed t) (todo : List Nat)
    (hroom : placed.length + todo.length ≤ space) :
    (∃ id ∈ todo, todo.foldlM (Brokers.addSkill H) t = .error (sidFailed id)) ∨
      ∃ more t', todo.foldlM (Brokers.addSkill H) t = .ok t' ∧
        more.map Placed.id = todo ∧ Filled (placed ++ more) t' := by
  induction todo generalizing placed t with
  | nil => exact .inr ⟨[], t, rfl, rfl, by simpa using h⟩
  | cons id todo ih =>
      rw [List.length_cons] at hroom
      rcases h.addSkill H (by omega) id with herror | ⟨p, t', hok, hid, h'⟩
      · refine .inl ⟨id, List.mem_cons_self, ?_⟩
        rw [List.foldlM_cons, herror]
        rfl
      · have hnext := ih h' (by
          rw [List.length_append, List.length_singleton]
          omega)
        rw [List.foldlM_cons, hok, ok_bind]
        rcases hnext with ⟨bad, hbad, herror⟩ | ⟨more, t'', hall, hids, hfilled⟩
        · exact .inl ⟨bad, List.mem_cons_of_mem id hbad, herror⟩
        · refine .inr ⟨p :: more, t'', hall, ?_, ?_⟩
          · rw [List.map_cons, hid, hids]
          · simpa using hfilled

/-! ## The check passes -/

theorem find?_eq_none_of_nodup {α : Type} [DecidableEq α]
    {key : Nat × Skill → α} {seen rest : List (Nat × Skill)} {e : Nat × Skill}
    (h : ((seen ++ e :: rest).map key).Nodup) :
    seen.find? (fun e' => key e' = key e) = none := by
  rw [List.map_append, List.nodup_append] at h
  rw [List.find?_eq_none]
  intro e' he'
  have hne := h.2.2 (key e') (List.mem_map_of_mem he') (key e)
    (List.mem_map_of_mem List.mem_cons_self)
  simpa using hne

theorem checkUnique_eq_ok (seen rows : List (Nat × Skill))
    (hexecution : ∀ e ∈ rows, e.2.execution = "owner-signed".toList)
    (hsids : ((seen ++ rows).map fun e => e.2.skillId).Nodup)
    (hnames : ((seen ++ rows).map fun e => e.2.name).Nodup)
    (hcombos : ((seen ++ rows).map fun e => comboOf e.2).Nodup) :
    checkUnique seen (rows.map fun e => (e.1, some e.2)) =
      .ok (rows.reverse ++ seen) := by
  induction rows generalizing seen with
  | nil => rfl
  | cons e rows ih =>
      have hsigned := hexecution e List.mem_cons_self
      have hmiddle : (seen ++ e :: rows).Perm (e :: seen ++ rows) :=
        List.perm_middle
      rw [List.map_cons, checkUnique, if_neg (not_not.mpr hsigned),
        find?_eq_none_of_nodup hsids, find?_eq_none_of_nodup hnames,
        find?_eq_none_of_nodup hcombos]
      have hrest := ih (e :: seen)
        (fun e' he' => hexecution e' (List.mem_cons_of_mem e he'))
        ((hmiddle.map _).nodup_iff.mp hsids)
        ((hmiddle.map _).nodup_iff.mp hnames)
        ((hmiddle.map _).nodup_iff.mp hcombos)
      simpa using hrest

theorem Filled.nodup_map {α : Type} (h : Filled placed t) {f : Skill → α}
    (g : Combo → α) (hfg : ∀ p : Placed, f p.skill = g p.dec)
    (hg : ∀ {d d'}, g d = g d' → d = d') : (t.table.map f).Nodup := by
  have hmap : t.table.map f = (placed.map Placed.dec).map g := by
    rw [h.table_eq, List.map_map, List.map_map]
    exact List.map_congr_left fun p _ => hfg p
  rw [hmap]
  exact h.combos.map fun _ _ => hg

theorem Filled.nodup_name (h : Filled placed t) :
    (t.table.map Skill.name).Nodup :=
  h.nodup_map Combo.name (fun _ => rfl) Combo.name_injective

theorem Filled.nodup_skillId (h : Filled placed t) :
    (t.table.map Skill.skillId).Nodup := by
  have hmap : t.table.map Skill.skillId = placed.map Placed.sid := by
    rw [h.table_eq, List.map_map]
    rfl
  rw [hmap]
  exact h.sids

theorem Filled.assertUnique {collectionSize : Nat} (h : Filled placed t)
    (hids : placed.map Placed.id = List.range' 1 collectionSize) :
    Brokers.assertUnique collectionSize t.table =
      .ok ⟨collectionSize, collectionSize, collectionSize, space⟩ := by
  let rows := placed.map fun p => (p.id, p.skill)
  have hlength : placed.length = collectionSize := by
    simpa using congrArg List.length hids
  have hrows : (List.range' 1 collectionSize).map
      (fun i => (i, t.table[i - 1]?)) = rows.map fun e => (e.1, some e.2) := by
    apply List.ext_getElem
    · simp [rows, hlength]
    · intro k hk hk'
      have hid : (placed.map Placed.id)[k]? = some (1 + k) := by
        rw [hids]
        have hk : k < collectionSize := by simpa using hk
        simp [hk]
      have hplaced : k < placed.length := by simpa [rows] using hk'
      simp only [List.getElem?_map, List.getElem?_eq_getElem hplaced,
        Option.map_some, Option.some.injEq] at hid
      simp [rows, h.table_eq, hplaced, hid]
  have hkeys {α : Type} (f : Skill → α) :
      (rows.map fun e => f e.2) = t.table.map f := by
    rw [h.table_eq, List.map_map, List.map_map]
    rfl
  have hnames : (rows.map fun e => e.2.name).Nodup := by
    rw [hkeys]
    exact h.nodup_name
  have hsids : (rows.map fun e => e.2.skillId).Nodup := by
    rw [hkeys]
    exact h.nodup_skillId
  have hcombos : (rows.map fun e => comboOf e.2).Nodup := by
    rw [hkeys]
    exact h.nodup_map (fun d => comboOf (skillOf 0 [] d)) (fun _ => rfl)
      comboOf_injective
  have hsigned : ∀ e ∈ rows, e.2.execution = "owner-signed".toList := by
    intro e he
    obtain ⟨p, -, rfl⟩ := List.mem_map.mp he
    rfl
  have hcount {α : Type} [DecidableEq α] {f : Nat × Skill → α}
      (hf : (rows.map f).Nodup) :
      (rows.reverse.map f).dedup.length = collectionSize := by
    rw [List.map_reverse, (List.nodup_reverse.mpr hf).dedup]
    simp [rows, hlength]
  have hcheck := checkUnique_eq_ok [] rows hsigned hsids hnames hcombos
  rw [List.append_nil] at hcheck
  simp only [Brokers.assertUnique, hrows, hcheck, ok_bind, hcount hsids,
    hcount hnames]
  rfl

/--
For every hash and every size up to `space`, the probing for a combination
never fails; and where no skill id fails either, the skills differ in their
combinations, skill ids and names, which is what `assertUnique` checks.
-/
theorem skillTable_unique (H : HexHash) {collectionSize : Nat}
    (hsize : collectionSize ≤ space) :
    (∀ e, skillTable H collectionSize = .error e →
      ∃ id ∈ List.range' 1 collectionSize, e = sidFailed id) ∧
    (∀ id, skillTable H collectionSize ≠ .error (comboExhausted id)) ∧
    ∀ table, skillTable H collectionSize = .ok table →
      table.map Skill.tokenId = List.range' 1 collectionSize ∧
      (table.map fun s => (s.desk, s.role, s.pair, s.timeframe, s.risk)).Nodup ∧
      (table.map Skill.skillId).Nodup ∧ (table.map Skill.name).Nodup ∧
      assertUnique collectionSize table =
        .ok ⟨collectionSize, collectionSize, collectionSize, space⟩ := by
  have hroom : ([] : List Placed).length +
      (List.range' 1 collectionSize).length ≤ space := by
    simpa using hsize
  have hmessage : ∀ id id', sidFailed id ≠ comboExhausted id' := by
    intro id id' h
    have hletter := congrArg (fun e : Error => e.message[5]?) h
    simp [sidFailed, comboExhausted] at hletter
  rcases filled_empty.addAll H _ hroom with ⟨id, hid, herror⟩ |
    ⟨placed, t, hall, hids, hfilled⟩
  · have htable : skillTable H collectionSize = .error (sidFailed id) := by
      rw [skillTable, herror]
      rfl
    rw [htable]
    refine ⟨fun e he => ⟨id, hid, (Except.error.inj he).symm⟩, ?_, by simp⟩
    intro id' h
    exact hmessage id id' (Except.error.inj h)
  · have htable : skillTable H collectionSize = .ok t.table := by
      rw [skillTable, hall]
      rfl
    rw [htable]
    refine ⟨by simp, by simp, ?_⟩
    intro table h
    obtain rfl := Except.ok.inj h
    rw [List.nil_append] at hfilled
    refine ⟨?_, ?_, hfilled.nodup_skillId, hfilled.nodup_name,
      hfilled.assertUnique hids⟩
    · rw [hfilled.table_eq, List.map_map, ← hids]
      rfl
    · apply hfilled.nodup_map
        (fun d => (d.desk.name, d.role, d.pair, d.timeframe, d.risk))
        fun _ => rfl
      intro d d' hwords
      simp only [Prod.mk.injEq] at hwords
      obtain ⟨hdesk, hrole, hpair, htf, hrisk⟩ := hwords
      have hdeskI : d.deskI = d'.deskI := eq_of_get_eq desks_plain.1 hdesk
      exact Combo.ext_words hdeskI hrole hpair htf hrisk

theorem skillTable_unique_sample :
    ∃ table, skillTable sampleHash 2 = .ok table ∧
      (table.map Skill.skillId).Nodup ∧
      assertUnique 2 table = .ok ⟨2, 2, 2, space⟩ := by
  have hlaw := skillTable_unique sampleHash (show 2 ≤ space by decide)
  have hok : (skillTable sampleHash 2).toBool = true := by decide +kernel
  cases h : skillTable sampleHash 2 with
  | error e =>
      rw [h] at hok
      contradiction
  | ok table =>
      obtain ⟨-, -, hsids, -, hunique⟩ := hlaw.2.2 table h
      exact ⟨table, rfl, hsids, hunique⟩

end IreBlockchain.Brokers
