import IreBlockchain.Explorer.MarketsTick

/-!
# The window of blocks

The markets page loads the heights that `/rpc/blockchain` lists, and every
height of its window only if that lists none.  The wallet page always loads
every height.
-/

namespace IreBlockchain.Explorer

open IreBlockchain.Foundation

def blockWindow : Nat := 80

def minHeight (window height : Nat) : Nat := max 1 (height + 1 - window)

def InWindow (window height h : Nat) : Prop :=
  minHeight window height ≤ h ∧ h ≤ height

instance (window height h : Nat) : Decidable (InWindow window height h) :=
  inferInstanceAs (Decidable (_ ∧ _))

/-- Every height of the window, which is what the wallet page loads. -/
def windowHeights (window height : Nat) : List Nat :=
  let minH := minHeight window height
  (List.range (height + 1 - minH)).map (minH + ·)

/--
The heights that a tick of the markets page loads.  A block meta without a
height is `none`.
-/
def heightsToLoad (window height : Nat) (metas : List (Option Nat)) :
    List Nat :=
  let heights :=
    distinct ((metas.filterMap id).filter (InWindow window height ·))
  if heights = [] then windowHeights window height else heights

theorem mem_windowHeights_iff {window height h : Nat} :
    h ∈ windowHeights window height ↔ InWindow window height h := by
  rw [windowHeights, List.mem_map]
  simp only [List.mem_range]
  constructor
  · rintro ⟨offset, hoffset, rfl⟩
    exact ⟨Nat.le_add_right _ _, by omega⟩
  · rintro ⟨hge, hle⟩
    exact ⟨h - minHeight window height, by omega, by omega⟩

theorem mem_heightsToLoad_iff {window height h : Nat}
    {metas : List (Option Nat)} :
    h ∈ heightsToLoad window height metas ↔ InWindow window height h ∧
      ((∃ listed, InWindow window height listed ∧ some listed ∈ metas) →
        some h ∈ metas) := by
  have hlisted (h : Nat) : h ∈ distinct ((metas.filterMap id).filter
      (InWindow window height ·)) ↔
      InWindow window height h ∧ some h ∈ metas := by
    rw [mem_distinct, List.mem_filter, List.mem_filterMap, decide_eq_true_eq]
    simp only [id_eq, exists_eq_right, and_comm]
  rw [heightsToLoad]
  split
  next hnil =>
    rw [mem_windowHeights_iff]
    refine ⟨fun hin => ⟨hin, ?_⟩, And.left⟩
    rintro ⟨listed, hlisted'⟩
    have hmem := (hlisted listed).mpr hlisted'
    rw [hnil] at hmem
    cases hmem
  next hne =>
    obtain ⟨listed, hmem⟩ := List.exists_mem_of_ne_nil _ hne
    rw [hlisted]
    refine ⟨fun h => ⟨h.1, fun _ => h.2⟩, fun h => ⟨h.1, ?_⟩⟩
    exact h.2 ⟨listed, (hlisted listed).mp hmem⟩

/--
The page loads every block of the window that holds a transaction exactly if
the reply lists no block of the window, or lists each of these.
-/
theorem heightsToLoad_complete_iff (window height : Nat)
    (metas : List (Option Nat)) (txs : Nat → List Bytes) :
    (∀ h, InWindow window height h → txs h ≠ [] →
        h ∈ heightsToLoad window height metas) ↔
      (∀ h, InWindow window height h → some h ∉ metas) ∨
        ∀ h, InWindow window height h → txs h ≠ [] → some h ∈ metas := by
  simp only [mem_heightsToLoad_iff]
  constructor
  · intro hloaded
    by_cases hany : ∃ listed, InWindow window height listed ∧
        some listed ∈ metas
    · exact .inr fun h hin htxs => (hloaded h hin htxs).2 hany
    · exact .inl fun h hin hmem => hany ⟨h, hin, hmem⟩
  · rintro (hnone | hall) h hin htxs
    · refine ⟨hin, ?_⟩
      rintro ⟨listed, hlisted, hmem⟩
      exact absurd hmem (hnone listed hlisted)
    · exact ⟨hin, fun _ => hall h hin htxs⟩

/-! ## The reply of a node -/

/-- A node lists at most `limit` blocks of the range, the newest first. -/
def blockchainReply (limit window height : Nat) : List (Option Nat) :=
  (List.range (min limit (height + 1 - minHeight window height))).map
    fun offset => some (height - offset)

theorem mem_blockchainReply_iff {limit window height h : Nat} :
    some h ∈ blockchainReply limit window height ↔
      InWindow window height h ∧ height < h + limit := by
  rw [blockchainReply, List.mem_map]
  simp only [List.mem_range, Option.some.injEq, InWindow]
  constructor
  · rintro ⟨offset, hoffset, rfl⟩
    omega
  · rintro ⟨⟨hge, hle⟩, hlimit⟩
    exact ⟨height - h, by omega, by omega⟩

theorem reply_complete_iff {limit window height : Nat} (hlimit : 0 < limit)
    (txs : Nat → List Bytes) :
    (∀ h, InWindow window height h → txs h ≠ [] →
        h ∈ heightsToLoad window height
          (blockchainReply limit window height)) ↔
      ∀ h, InWindow window height h → h + limit ≤ height → txs h = [] := by
  simp only [mem_heightsToLoad_iff, mem_blockchainReply_iff]
  constructor
  · intro hloaded h hin hold
    by_contra htxs
    have htip : InWindow window height height :=
      ⟨hin.1.trans hin.2, le_refl _⟩
    have hlisted := (hloaded h hin htxs).2 ⟨height, htip, htip, by omega⟩
    omega
  · intro hempty h hin htxs
    refine ⟨hin, fun _ => ⟨hin, ?_⟩⟩
    by_contra hold
    exact htxs (hempty h hin (by omega))

/-- A transaction in block 30 of 100, of which the 20 newest are listed. -/
theorem older_block_not_loaded :
    ¬ ∀ h, InWindow blockWindow 100 h →
      (if h = 30 then [[1]] else ([] : List Bytes)) ≠ [] →
      h ∈ heightsToLoad blockWindow 100 (blockchainReply 20 blockWindow 100) := by
  intro h
  exact absurd (h 30 (by decide) (by decide)) (by decide)

end IreBlockchain.Explorer
