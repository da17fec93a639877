import IreBlockchain.Explorer.Points
import IreBlockchain.Foundation.Ranking
import IreBlockchain.Foundation.WorkerPool

/-!
# The leaderboard

Eight workers fetch the blocks of the window.  Each block is scored when its
fetch completes, and addresses with the same points are shown in the order in
which they were scored first.
-/

namespace IreBlockchain.Explorer.Leaderboard

open IreBlockchain.Foundation

def window : Nat := 80

def batch : Nat := 8

def addrs (ascii : Text) : List Text := extractAddrs ascii

def heights (height : Nat) : List Nat :=
  let minH := max 1 (height + 1 - window)
  List.range' minH (height + 1 - minH)

/-- The function that `mapPool` calls, from the transactions of a block on. -/
def scoreBlock (scores : Tally Text) (txs : List Bytes) : Tally Text :=
  txs.foldl (fun scores raw =>
    let ascii := asciiFromBytes raw
    let pts := scoreTx ascii
    (addrs ascii).foldl (fun scores a => scores.add (a, pts)) scores) scores

section Refresh

variable (blocks : Nat → List Bytes)

/-- `scores` once the fetches of the blocks have completed in this order. -/
def scores (order : List Nat) : Tally Text :=
  order.foldl (fun scores h => scoreBlock scores (blocks h)) .empty

def board (order : List Nat) : List (Text × Nat) :=
  (ranked (scores blocks order).rows).take 25

def Fetches (height : Nat) (order : List Nat) : Prop :=
  (Pool.start batch (heights height)).Finishes order

/-! ## Credits -/

def credits (h : Nat) : List (Text × Nat) :=
  (blocks h).flatMap fun raw =>
    (addrs (asciiFromBytes raw)).map fun a => (a, scoreTx (asciiFromBytes raw))

def mentionsEither (a b : Text) (h : Nat) : Bool :=
  (credits blocks h).any fun c => c.1 = a || c.1 = b

def windowCredits (height : Nat) : List (Text × Nat) :=
  (heights height).flatMap (credits blocks)

/--
Of two addresses with the same points, the one that is shown first is the first
one in all those blocks that can be the first to be scored of the blocks that
mention the two.
-/
def TiesInOrder (height : Nat) : Prop :=
  ∀ a ∈ (windowCredits blocks height).map Prod.fst,
    ∀ b ∈ (windowCredits blocks height).map Prod.fst, a ≠ b →
      Tally.total (windowCredits blocks height) a =
        Tally.total (windowCredits blocks height) b →
      Tally.Leads (windowCredits blocks height) a b →
      Tally.Shown (windowCredits blocks height) 25 a →
      ∀ h ∈ ((heights height).filter (mentionsEither blocks a b)).take batch,
        Tally.Leads (credits blocks h) a b

variable {blocks} {height h : Nat} {order order' : List Nat} {a b : Text}

theorem scores_eq (order : List Nat) :
    scores blocks order = Tally.of (order.flatMap (credits blocks)) := by
  simp only [scores, scoreBlock, Tally.of, credits, List.foldl_flatMap,
    List.foldl_map]

theorem nodup_heights (height : Nat) : (heights height).Nodup :=
  List.nodup_range'

theorem fetches_iff :
    Fetches height order ↔ Completes batch (heights height) order :=
  Pool.finishes_start_iff (by decide)

theorem leads_flatMap_iff (order : List Nat) :
    Tally.Leads (order.flatMap (credits blocks)) a b ↔
      ∃ h, order.find? (mentionsEither blocks a b) = some h ∧
        Tally.Leads (credits blocks h) a b := by
  induction order with
  | nil => simp [Tally.Leads]
  | cons h order ih =>
      rw [Tally.Leads, List.flatMap_cons, List.map_append, List.find?_append]
      cases hmention : mentionsEither blocks a b h with
      | true =>
          obtain ⟨c, hfind⟩ : ∃ c, ((credits blocks h).map Prod.fst).find?
              (fun c => c = a || c = b) = some c := by
            rw [← Option.isSome_iff_exists, List.find?_isSome]
            simpa [mentionsEither] using hmention
          rw [List.find?_cons_of_pos hmention, hfind, Option.some_or]
          simp only [Option.some.injEq, exists_eq_left', Tally.Leads, hfind]
      | false =>
          have hnone : ((credits blocks h).map Prod.fst).find?
              (fun c => c = a || c = b) = none := by
            rw [List.find?_eq_none]
            simpa [mentionsEither, not_or] using hmention
          rw [List.find?_cons_of_neg (by simp [hmention]), ← ih, hnone,
            Option.none_or, Tally.Leads]

theorem exists_mentionsEither
    (ha : a ∈ (windowCredits blocks height).map Prod.fst) :
    ∃ h ∈ heights height, mentionsEither blocks a b h = true := by
  obtain ⟨c, hc, rfl⟩ := List.mem_map.mp ha
  obtain ⟨h, hh, hc⟩ := List.mem_flatMap.mp hc
  exact ⟨h, hh, List.any_eq_true.mpr ⟨c, hc, by simp⟩⟩

theorem leads_of_all_orders_iff
    (ha : a ∈ (windowCredits blocks height).map Prod.fst) :
    (∀ order, Fetches height order →
      Tally.Leads (order.flatMap (credits blocks)) a b) ↔
    ∀ h ∈ ((heights height).filter (mentionsEither blocks a b)).take batch,
      Tally.Leads (credits blocks h) a b := by
  constructor
  · intro hall h hh
    obtain ⟨order, horder, hfind⟩ :=
      (exists_completes_iff (nodup_heights height)).mpr hh
    obtain ⟨h', hfind', hleads⟩ :=
      (leads_flatMap_iff order).mp (hall order (fetches_iff.mpr horder))
    obtain rfl := Option.some.inj (hfind'.symm.trans hfind)
    exact hleads
  · intro hall order horder
    rw [fetches_iff] at horder
    obtain ⟨h, hh, hmention⟩ := exists_mentionsEither (b := b) ha
    obtain ⟨first, hfind⟩ : ∃ first,
        order.find? (mentionsEither blocks a b) = some first := by
      rw [← Option.isSome_iff_exists, List.find?_isSome]
      exact ⟨h, horder.perm.mem_iff.mpr hh, hmention⟩
    exact (leads_flatMap_iff order).mpr
      ⟨first, hfind, hall first (horder.find?_mem hfind)⟩

theorem credits_perm (horder : Fetches height order) :
    (order.flatMap (credits blocks)).Perm (windowCredits blocks height) :=
  (fetches_iff.mp horder).perm.flatMap_right _

theorem scores_count_eq (horder : Fetches height order) (a : Text) :
    (scores blocks order).count a =
      Tally.total (windowCredits blocks height) a := by
  rw [scores_eq, Tally.count_perm (credits_perm horder), Tally.count_of]

theorem board_eq_iff (horder : Fetches height order) :
    board blocks order = board blocks (heights height) ↔
      ∀ a ∈ (windowCredits blocks height).map Prod.fst,
        ∀ b ∈ (windowCredits blocks height).map Prod.fst, a ≠ b →
          Tally.total (windowCredits blocks height) a =
            Tally.total (windowCredits blocks height) b →
          Tally.Leads (windowCredits blocks height) a b →
          Tally.Shown (windowCredits blocks height) 25 a →
          Tally.Leads (order.flatMap (credits blocks)) a b := by
  rw [board, board, scores_eq, scores_eq]
  exact Tally.take_ranked_rows_iff (credits_perm horder)

/--
The leaderboard and the network.  In whatever order the blocks arrive, every
address gets the same points; the rows that are shown are the same exactly if
no tie between a shown address and another one can be turned round.
-/
theorem refresh_timing_iff (blocks : Nat → List Bytes) (height : Nat) :
    (∀ order order', Fetches height order → Fetches height order' →
      ∀ a, (scores blocks order).count a = (scores blocks order').count a) ∧
    ((∀ order order', Fetches height order → Fetches height order' →
        (∀ a, (scores blocks order).count a = (scores blocks order').count a) ∧
          board blocks order = board blocks order') ↔
      TiesInOrder blocks height) := by
  have hscores : ∀ order order', Fetches height order →
      Fetches height order' →
      ∀ a, (scores blocks order).count a = (scores blocks order').count a := by
    intro order order' horder horder' a
    rw [scores_count_eq horder, scores_count_eq horder']
  have hself : Fetches height (heights height) :=
    fetches_iff.mpr (completes_self (by decide) _)
  refine ⟨hscores, ?_⟩
  constructor
  · intro h a ha b hb hne htie hleads hshown
    rw [← leads_of_all_orders_iff ha]
    intro order horder
    exact (board_eq_iff horder).mp (h order _ horder hself).2 a ha b hb hne htie
      hleads hshown
  · intro h order order' horder horder'
    have hboard : ∀ order, Fetches height order →
        board blocks order = board blocks (heights height) := by
      intro order horder
      rw [board_eq_iff horder]
      intro a ha b hb hne htie hleads hshown
      exact (leads_of_all_orders_iff ha).mpr (h a ha b hb hne htie hleads hshown)
        order horder
    exact ⟨hscores order order' horder horder',
      (hboard order horder).trans (hboard order' horder').symm⟩

end Refresh

/-! ## A tie -/

def tiedBlocks (h : Nat) : List Bytes :=
  if h = 1 then [(sendTx ⟨addrA, addrA, [oneUire]⟩ []).encode]
  else [(sendTx ⟨addrB, addrB, [oneUire]⟩ []).encode]

theorem tie_turned_round :
    ¬ ∀ blocks height order order', Fetches height order →
      Fetches height order' →
        (∀ a, (scores blocks order).count a = (scores blocks order').count a) ∧
          board blocks order = board blocks order' := by
  intro h
  have hboard := (h tiedBlocks 2 [1, 2] [2, 1] ⟨_, rfl, _, rfl, rfl⟩
    ⟨_, rfl, _, rfl, rfl⟩).2
  have hfirst : (scores tiedBlocks [1, 2]).rows =
      [(addrA.text, 1), (addrB.text, 1)] := by decide +kernel
  have hsecond : (scores tiedBlocks [2, 1]).rows =
      [(addrB.text, 1), (addrA.text, 1)] := by decide +kernel
  have hranked : ∀ a b : Text, ranked [(a, 1), (b, 1)] = [(a, 1), (b, 1)] :=
    fun a b => List.mergeSort_of_pairwise (by simp)
  rw [board, board, hfirst, hsecond, hranked, hranked] at hboard
  exact absurd hboard (by decide)

end IreBlockchain.Explorer.Leaderboard
