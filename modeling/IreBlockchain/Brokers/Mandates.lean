import IreBlockchain.Brokers.Traits
import IreBlockchain.Foundation.Slots

/-!
# The asset of a token

Every token of the collection has one primary asset.  Half of the assets are
stocks and half are tokens, or whatever the hash makes of it: both kinds are
known symbols first and generated codes after them.
-/

namespace IreBlockchain.Brokers

open IreBlockchain.Foundation

def stockSeeds : List String :=
  ["AAPL", "MSFT", "NVDA", "AMZN", "GOOGL", "META", "TSLA", "BRKB", "JPM", "V",
    "MA", "UNH", "XOM", "JNJ", "PG", "HD", "COST", "AVGO", "ABBV", "WMT", "MRK",
    "KO", "PEP", "CVX", "BAC", "CRM", "AMD", "ADBE", "NFLX", "DIS", "INTC", "ORCL",
    "CSCO", "TMO", "ABT", "MCD", "ACN", "DHR", "WFC", "LIN", "TXN", "NEE", "PM",
    "BMY", "UPS", "RTX", "HON", "QCOM", "AMGN", "LOW", "UNP", "IBM", "GE", "CAT",
    "SBUX", "BA", "GS", "BLK", "AXP", "SPGI", "PLD", "MDT", "DE", "LMT", "SYK",
    "ELV", "TJX", "BKNG", "GILD", "ADP", "MMC", "C", "MO", "CB", "SO", "DUK",
    "ZTS", "CI", "EQIX", "PGR", "BDX", "SLB", "USB", "TGT", "CL", "CME", "PNC",
    "SCHW", "MMM", "ITW", "WM", "SHW", "NOC", "FDX", "APD", "EOG", "NSC", "AON",
    "ICE", "HUM", "CSX", "GM", "F", "NKE", "T", "VZ", "CMCSA", "PYPL", "SQ",
    "SHOP", "UBER", "ABNB", "COIN", "HOOD", "RIVN", "LCID", "PLTR", "SNOW", "CRWD",
    "PANW", "DDOG", "NET", "ZS", "OKTA", "MDB", "TEAM", "WDAY", "NOW", "S", "U",
    "RBLX", "SOFI", "AFRM", "NU", "MELI", "SE", "BABA", "JD", "PDD", "NIO", "XPEV",
    "LI", "BIDU", "TSM", "ASML", "SAP", "SONY", "TM", "NVO", "AZN", "UL", "BP",
    "SHEL", "TTE", "BHP", "RIO", "VALE", "PBR", "ITUB", "BBD", "SAN", "HSBC", "DB",
    "UBS"]

def tokenSeeds : List String :=
  ["BTC", "ETH", "SOL", "BNB", "XRP", "ADA", "DOGE", "AVAX", "DOT", "LINK", "UNI",
    "ATOM", "NEAR", "APT", "SUI", "SEI", "PEPE", "WIF", "BONK", "ORDI", "STX",
    "TIA", "INJ", "FET", "RNDR", "ARB", "OP", "MATIC", "POL", "LTC", "BCH", "TRX",
    "TON", "HBAR", "XLM", "ALGO", "VET", "FIL", "ICP", "EGLD", "AAVE", "MKR",
    "SNX", "CRV", "LDO", "RPL", "ENS", "GRT", "SAND", "MANA", "AXS", "IMX", "GALA",
    "APE", "BLUR", "DYDX", "GMX", "PENDLE", "JUP", "JTO", "PYTH", "W", "TNSR",
    "ENA", "ONDO", "ETHFI", "EIGEN", "ZK", "STRK", "MANTA", "ALT", "PIXEL",
    "PORTAL", "XAI", "REZ", "LISTA", "IO", "ZRO", "G", "OMNI", "USDC", "USDT",
    "DAI", "USDE", "FRAX", "WETH", "WBTC", "STETH", "WSTETH", "RETH", "CBETH",
    "WEETH", "RSETH", "EZETH", "USD1", "PYUSD", "NINJA", "AERO", "MOG", "POPCAT",
    "MEW", "BOME", "NEIRO", "TURBO", "FLOKI", "SHIB", "BRETT", "DEGEN", "HYPE",
    "TAO", "KAS", "RUNE"]

/-! ## Pools of symbols -/

def alpha : Text := "ABCDEFGHIJKLMNOPQRSTUVWXYZ".toList

def encodeBase26 (n : Nat) : Nat → Text
  | 0 => []
  | width + 1 => encodeBase26 (n / 26) width ++ [alpha.getD (n % 26) 'A']

/-- The symbols collected so far, and all that must not be collected again. -/
structure Pool where
  out : List Text
  seen : List Text

def Pool.push (pool : Pool) (s : Text) : Pool :=
  if s ∈ pool.seen then pool else ⟨pool.out ++ [s], s :: pool.seen⟩

/-- The `while` loop with `tries` rounds to go, or none if these are not enough. -/
def Pool.fill (width count : Nat) : Nat → Nat → Pool → Option Pool
  | tries, n, pool =>
      if pool.out.length < count then
        match tries with
        | 0 => none
        | tries + 1 =>
            Pool.fill width count tries (n + 1) (pool.push (encodeBase26 n width))
      else some pool

/--
The codes repeat after `26 ^ width` rounds, so a loop that needs more of them
never ends.
-/
def uniquePool (seeds : List String) (width count : Nat) (seen : List Text) :
    Option (List Text) :=
  let seeded := (seeds.map fun s => upper s.toList).foldl Pool.push ⟨[], seen⟩
  (Pool.fill width count (26 ^ width) 0 seeded).map fun pool =>
    pool.out.take count

variable (H : HexHash)

def shuffleFrom (salt : Text) : Nat → List Text → List Text
  | 0, arr => arr
  | i + 1, arr =>
      shuffleFrom salt i (swap arr (i + 1) (rngMod H (i + 2) salt (i + 2)))

def shuffle (arr : List Text) (salt : Text) : List Text :=
  shuffleFrom H salt (arr.length - 1) arr

/-! ## The table -/

inductive Kind
  | stock
  | token
  deriving DecidableEq

structure Row where
  symbol : Text
  kind : Kind
  venueClass : Universe
  deriving DecidableEq

def universeOf (id : Nat) : Universe :=
  pick H id "uni".toList universes universes_pos

def onStockSide (id : Nat) : Bool :=
  match universeOf H id with
  | .stocks => true
  | .tokens => false
  | .both => rngMod H id "asset".toList 2 = 0

def ids : List Nat := List.range' 1 Config.collectionSize

def stockIds : List Nat := ids.filter fun id => onStockSide H id

def tokenIds : List Nat := ids.filter fun id => !onStockSide H id

def pools : Option (List Text × List Text) := do
  let reserved := tokenSeeds.map fun s => upper s.toList
  let stocks ← uniquePool stockSeeds 4 (stockIds H).length reserved
  let tokens ← uniquePool tokenSeeds 3 (tokenIds H).length stocks
  some (stocks, tokens)

def mandateTable : Option (List (Option Row)) :=
  (pools H).map fun (stocks, tokens) =>
    let stocks := shuffle H stocks "asset".toList
    let tokens := shuffle H tokens "asset".toList
    let table := List.replicate (Config.collectionSize + 1) none
    let table := writeAll table
      ((stockIds H).zip (stocks.map fun symbol => ⟨symbol, .stock, .stocks⟩))
    writeAll table
      ((tokenIds H).zip (tokens.map fun symbol => ⟨symbol, .token, .tokens⟩))

/-! ## Pools end, and repeat nothing -/

theorem length_encodeBase26 (n width : Nat) :
    (encodeBase26 n width).length = width := by
  induction width generalizing n with
  | zero => rfl
  | succ width ih => simp [encodeBase26, ih]

theorem alpha_injective : ∀ i < 26, ∀ j < 26,
    alpha.getD i 'A' = alpha.getD j 'A' → i = j := by decide

theorem encodeBase26_injective {width : Nat} :
    ∀ n < 26 ^ width, ∀ m < 26 ^ width,
      encodeBase26 n width = encodeBase26 m width → n = m := by
  induction width with
  | zero =>
      intro n hn m hm _
      omega
  | succ width ih =>
      intro n hn m hm h
      rw [Nat.pow_succ] at hn hm
      obtain ⟨hrest, hlast⟩ := List.append_inj h
        (by simp [length_encodeBase26])
      have hdiv := ih (n / 26) (by omega) (m / 26) (by omega) hrest
      have hmod := alpha_injective (n % 26) (Nat.mod_lt _ (by decide)) (m % 26)
        (Nat.mod_lt _ (by decide)) (List.singleton_inj.mp hlast)
      omega

structure Pool.Keeps (before : List Text) (pool : Pool) : Prop where
  nodup : pool.out.Nodup
  fresh : ∀ s ∈ pool.out, s ∉ before
  seen_iff : ∀ s, s ∈ pool.seen ↔ s ∈ before ∨ s ∈ pool.out

variable {before : List Text} {pool pool' : Pool}

theorem Pool.Keeps.push (h : pool.Keeps before) (s : Text) :
    (pool.push s).Keeps before ∧ s ∈ (pool.push s).seen := by
  unfold Pool.push
  split
  next hseen => exact ⟨h, hseen⟩
  next hnew =>
    rw [h.seen_iff, not_or] at hnew
    refine ⟨⟨?_, ?_, ?_⟩, List.mem_cons_self⟩
    · rw [List.nodup_append]
      refine ⟨h.nodup, List.nodup_singleton s, ?_⟩
      rintro a ha b hb rfl
      exact hnew.2 (List.mem_singleton.mp hb ▸ ha)
    · intro a ha
      rcases List.mem_append.mp ha with ha | ha
      · exact h.fresh a ha
      · exact List.mem_singleton.mp ha ▸ hnew.1
    · intro a
      rw [List.mem_cons, h.seen_iff, List.mem_append, List.mem_singleton]
      tauto

theorem Pool.Keeps.pushAll (h : pool.Keeps before) (symbols : List Text) :
    (symbols.foldl Pool.push pool).Keeps before := by
  induction symbols generalizing pool with
  | nil => exact h
  | cons s symbols ih => exact ih (h.push s).1

theorem Pool.mem_seen_push {s a : Text} (h : a ∈ pool.seen) :
    a ∈ (pool.push s).seen := by
  unfold Pool.push
  split
  next => exact h
  next => exact List.mem_cons_of_mem s h

theorem Pool.Keeps.fill {width count tries n : Nat} (h : pool.Keeps before)
    (hcodes : before.length + count ≤ 26 ^ width)
    (htried : ∀ m < n, encodeBase26 m width ∈ pool.seen)
    (htries : n + tries = 26 ^ width) :
    ∃ pool', Pool.fill width count tries n pool = some pool' ∧
      pool'.Keeps before ∧ count ≤ pool'.out.length := by
  induction tries generalizing n pool with
  | zero =>
      by_cases hlt : pool.out.length < count
      · have hroom : (before ++ pool.out).length < 26 ^ width := by
          rw [List.length_append]
          omega
        obtain ⟨m, hm, hfresh⟩ := exists_fresh encodeBase26_injective hroom
        have hseen := (h.seen_iff _).mp (htried m (by omega))
        exact absurd (List.mem_append.mpr hseen) hfresh
      · refine ⟨pool, ?_, h, Nat.not_lt.mp hlt⟩
        rw [Pool.fill, if_neg hlt]
  | succ tries ih =>
      rw [Pool.fill]
      by_cases hlt : pool.out.length < count
      · obtain ⟨hpush, hcode⟩ := h.push (encodeBase26 n width)
        simp only [if_pos hlt]
        apply ih hpush _ (by omega)
        intro m hm
        rcases Nat.lt_succ_iff_lt_or_eq.mp hm with hm | rfl
        · exact Pool.mem_seen_push (htried m hm)
        · exact hcode
      · simp only [if_neg hlt]
        exact ⟨pool, rfl, h, Nat.not_lt.mp hlt⟩

theorem uniquePool_eq_some (before : List Text) (seeds : List String)
    {width count : Nat} (hcodes : before.length + count ≤ 26 ^ width) :
    ∃ symbols, uniquePool seeds width count before = some symbols ∧
      symbols.length = count ∧ symbols.Nodup ∧ ∀ s ∈ symbols, s ∉ before := by
  have hempty : Pool.Keeps before ⟨[], before⟩ :=
    ⟨List.nodup_nil, by simp, by simp⟩
  have hseeded := hempty.pushAll (seeds.map fun s => upper s.toList)
  obtain ⟨pool, hfill, hpool, hcount⟩ := hseeded.fill hcodes
    (fun m hm => absurd hm (Nat.not_lt_zero m)) (Nat.zero_add _)
  refine ⟨pool.out.take count, ?_, ?_, ?_, ?_⟩
  · simp [uniquePool, hfill]
  · exact List.length_take_of_le hcount
  · exact hpool.nodup.sublist (List.take_sublist _ _)
  · exact fun s hs => hpool.fresh s (List.mem_of_mem_take hs)

theorem shuffleFrom_perm (salt : Text) (i : Nat) (arr : List Text) :
    (shuffleFrom H salt i arr).Perm arr := by
  induction i generalizing arr with
  | zero => exact .refl arr
  | succ i ih => exact (ih _).trans (swap_perm arr _ _)

theorem shuffle_perm (arr : List Text) (salt : Text) :
    (shuffle H arr salt).Perm arr :=
  shuffleFrom_perm H salt _ arr

/-! ## One asset for each token -/

theorem side_perm : (stockIds H ++ tokenIds H).Perm ids :=
  List.filter_append_perm _ _

theorem length_sides :
    (stockIds H).length + (tokenIds H).length = Config.collectionSize := by
  have h := (side_perm H).length_eq
  simpa [ids] using h

theorem pools_eq_some :
    ∃ stocks tokens, pools H = some (stocks, tokens) ∧
      stocks.length = (stockIds H).length ∧
      tokens.length = (tokenIds H).length ∧ (stocks ++ tokens).Nodup := by
  have hsides := length_sides H
  simp only [Config.collectionSize] at hsides
  let reserved := tokenSeeds.map fun s => upper s.toList
  have hroom : reserved.length + (stockIds H).length ≤ 26 ^ 4 := by
    have hseeds : reserved.length = 112 := List.length_map _
    omega
  obtain ⟨stocks, hstocks, hslength, hsnodup, -⟩ :=
    uniquePool_eq_some reserved stockSeeds hroom
  have hroom' : stocks.length + (tokenIds H).length ≤ 26 ^ 3 := by omega
  obtain ⟨tokens, htokens, htlength, htnodup, hfresh⟩ :=
    uniquePool_eq_some stocks tokenSeeds hroom'
  refine ⟨stocks, tokens, ?_, hslength, htlength, ?_⟩
  · simp only [pools, hstocks, htokens, reserved, Option.bind_eq_bind,
      Option.bind_some]
  · rw [List.nodup_append]
    refine ⟨hsnodup, htnodup, ?_⟩
    rintro a ha b hb rfl
    exact hfresh a hb ha

def stockRow (symbol : Text) : Row := ⟨symbol, .stock, .stocks⟩

def tokenRow (symbol : Text) : Row := ⟨symbol, .token, .tokens⟩

def tableWrites (stocks tokens : List Text) : List (Nat × Row) :=
  (stockIds H).zip (stocks.map stockRow) ++ (tokenIds H).zip (tokens.map tokenRow)

theorem kind_of_mem_tableWrites {stocks tokens : List Text} {id : Nat} {row : Row}
    (h : (id, row) ∈ tableWrites H stocks tokens) :
    (row.kind = .stock ∧ onStockSide H id = true) ∨
      (row.kind = .token ∧ onStockSide H id = false) := by
  rcases List.mem_append.mp h with h | h
  · obtain ⟨hid, hrow⟩ := List.of_mem_zip h
    obtain ⟨symbol, -, rfl⟩ := List.mem_map.mp hrow
    exact .inl ⟨rfl, (List.mem_filter.mp hid).2⟩
  · obtain ⟨hid, hrow⟩ := List.of_mem_zip h
    obtain ⟨symbol, -, rfl⟩ := List.mem_map.mp hrow
    exact .inr ⟨rfl, by simpa using (List.mem_filter.mp hid).2⟩

theorem tableWrites_distinct {stocks tokens : List Text}
    (hstocks : stocks.length = (stockIds H).length)
    (htokens : tokens.length = (tokenIds H).length)
    (hnodup : (stocks ++ tokens).Nodup) :
    (tableWrites H stocks tokens).map Prod.fst = stockIds H ++ tokenIds H ∧
      ((tableWrites H stocks tokens).map fun write => write.2.symbol).Nodup := by
  have hsymbols : ((tableWrites H stocks tokens).map fun write =>
      write.2.symbol) = stocks ++ tokens := by
    have hside {n : List Nat} {symbols : List Text} {row : Text → Row}
        (hrow : ∀ symbol, (row symbol).symbol = symbol)
        (hlength : symbols.length = n.length) :
        ((n.zip (symbols.map row)).map fun write => write.2.symbol) =
          symbols := by
      have hsnd : (n.zip (symbols.map row)).map Prod.snd = symbols.map row :=
        List.map_snd_zip (by simp [hlength])
      calc ((n.zip (symbols.map row)).map fun write => write.2.symbol)
          = ((n.zip (symbols.map row)).map Prod.snd).map Row.symbol := by
            rw [List.map_map]
            rfl
        _ = symbols := by
            rw [hsnd, List.map_map]
            exact List.map_id'' hrow symbols
    rw [tableWrites, List.map_append, hside (fun _ => rfl) hstocks,
      hside (fun _ => rfl) htokens]
  constructor
  · rw [tableWrites, List.map_append, List.map_fst_zip (by simp [hstocks]),
      List.map_fst_zip (by simp [htokens])]
  · rw [hsymbols]
    exact hnodup

/--
For every hash the table is built, every token has one row, no symbol is in two
rows, and a token whose universe trait is stocks (tokens) has a row of a stock
(token).
-/
theorem mandateTable_assigns (H : HexHash) :
    ∃ table, mandateTable H = some table ∧
      (stockIds H ++ tokenIds H).Perm ids ∧
      (∀ id ∈ ids, ∃ row, table[id]? = some (some row) ∧
        ∃ traits, traitsFor H id = some traits ∧
          (traits.tokenUniverse = .stocks → row.kind = .stock) ∧
          (traits.tokenUniverse = .tokens → row.kind = .token)) ∧
      ∀ id ∈ ids, ∀ id' ∈ ids, ∀ row row', table[id]? = some (some row) →
        table[id']? = some (some row') → row.symbol = row'.symbol → id = id' := by
  obtain ⟨stocks, tokens, hpools, hstocks, htokens, hnodup⟩ := pools_eq_some H
  let stocks' := shuffle H stocks "asset".toList
  let tokens' := shuffle H tokens "asset".toList
  have hsperm : stocks'.Perm stocks := shuffle_perm H stocks _
  have htperm : tokens'.Perm tokens := shuffle_perm H tokens _
  let writes := tableWrites H stocks' tokens'
  let table := writeAll (List.replicate (Config.collectionSize + 1) none) writes
  have htable : mandateTable H = some table := by
    simp only [mandateTable, hpools, Option.map_some, table, writes, tableWrites,
      writeAll, List.foldl_append]
    rfl
  obtain ⟨hkeys, hsymbols⟩ := tableWrites_distinct H
    (hsperm.length_eq.trans hstocks) (htperm.length_eq.trans htokens)
    ((hsperm.append htperm).nodup_iff.mpr hnodup)
  have hperm := side_perm H
  have hidsnodup : (writes.map Prod.fst).Nodup := by
    rw [hkeys]
    exact hperm.nodup_iff.mpr List.nodup_range'
  have hwritten : ∀ id ∈ ids, ∃ row, (id, row) ∈ writes ∧
      table[id]? = some (some row) := by
    intro id hid
    have hkey : id ∈ writes.map Prod.fst := by
      rw [hkeys]
      exact hperm.mem_iff.mpr hid
    obtain ⟨⟨id, row⟩, hwrite, rfl⟩ := List.mem_map.mp hkey
    have hbound : id < (List.replicate (Config.collectionSize + 1)
        (none : Option Row)).length := by
      rw [List.length_replicate]
      have := (List.mem_range'_1.mp hid).2
      omega
    exact ⟨row, hwrite, getElem?_writeAll hidsnodup hwrite hbound⟩
  refine ⟨table, htable, hperm, ?_, ?_⟩
  · intro id hid
    obtain ⟨row, hwrite, hrow⟩ := hwritten id hid
    have hrange : ¬ (id < 1 ∨ Config.collectionSize < id) := by
      have := List.mem_range'_1.mp hid
      omega
    refine ⟨row, hrow, _, if_neg hrange, ?_, ?_⟩
    · intro (huniverse : universeOf H id = .stocks)
      have hside : onStockSide H id = true := by simp [onStockSide, huniverse]
      rcases kind_of_mem_tableWrites H hwrite with h | h
      · exact h.1
      · rw [hside] at h
        exact Bool.noConfusion h.2
    · intro (huniverse : universeOf H id = .tokens)
      have hside : onStockSide H id = false := by simp [onStockSide, huniverse]
      rcases kind_of_mem_tableWrites H hwrite with h | h
      · rw [hside] at h
        exact Bool.noConfusion h.2
      · exact h.1
  · intro id hid id' hid' row row' hrow hrow' hsame
    obtain ⟨_, hwrite, hfound⟩ := hwritten id hid
    obtain ⟨_, hwrite', hfound'⟩ := hwritten id' hid'
    obtain rfl := Option.some.inj (Option.some.inj (hfound.symm.trans hrow))
    obtain rfl := Option.some.inj (Option.some.inj (hfound'.symm.trans hrow'))
    exact congrArg Prod.fst
      (List.inj_on_of_nodup_map hsymbols hwrite hwrite' hsame)

end IreBlockchain.Brokers
