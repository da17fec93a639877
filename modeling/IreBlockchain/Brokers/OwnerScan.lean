import IreBlockchain.Brokers.Records
import IreBlockchain.Foundation.ByteTexts
import Mathlib.Data.List.Perm.Subperm

/-!
# Scanning for the tokens of a wallet

The page asks the contract for the owner of every token, some tokens at a time.
An attempt goes through the endpoints one after the other and then to the
injected wallet.  `ownerOf` turns an attempt that fails into an answer, so the
retries and the count of failures above it never see a failure.
-/

namespace IreBlockchain.Brokers

open IreBlockchain.Foundation

structure Owner where
  hex : Text
  length_eq : hex.length = 40
  all_isHexDigit : hex.all isHexDigit = true
  ne_zero : hex ≠ List.replicate 40 '0'

def Owner.address (owner : Owner) : Text := "0x".toList ++ owner.hex

def Owner.encoded (owner : Owner) : Text :=
  "0x".toList ++ (List.replicate 24 '0' ++ owner.hex)

/-! ## One attempt -/

/-- What an endpoint makes of a call; only `answers` returns a result. -/
inductive RpcReply
  | rejects (e : Error)
  | status (code : Nat)
  | error (message : Text)
  | empty
  | answers
  deriving DecidableEq

inductive WalletReply
  | rejects (e : Error)
  | empty
  | answers
  deriving DecidableEq

structure Attempt where
  rpcs : List RpcReply
  provider : Option WalletReply
  deriving DecidableEq

def Attempt.Succeeds (attempt : Attempt) : Prop :=
  .answers ∈ attempt.rpcs ∨ attempt.provider = some .answers

def callRpcs (lastErr : Option Error) :
    List RpcReply → Except (Option Error) Unit
  | [] => .error lastErr
  | .rejects e :: rpcs => callRpcs (some e) rpcs
  | .status code :: rpcs =>
      callRpcs (some ⟨none, "rpc HTTP ".toList ++ decimal code⟩) rpcs
  | .error message :: rpcs =>
      callRpcs
        (some ⟨none, if message = [] then "rpc error".toList else message⟩) rpcs
  | .empty :: rpcs => callRpcs lastErr rpcs
  | .answers :: _ => .ok ()

def ethCall (answer : Text) (attempt : Attempt) :
    Except Error (Option Text) :=
  match callRpcs none attempt.rpcs with
  | .ok () => .ok (some answer)
  | .error lastErr =>
      match attempt.provider with
      | none => .error (lastErr.getD (newError "eth_call failed"))
      | some (.rejects e) => .error e
      | some .empty => .ok none
      | some .answers => .ok (some answer)

def decodeAddress (hex : Text) : Option Text :=
  if hex = [] ∨ hex = "0x".toList ∨ hex.length < 66 then none
  else some ("0x".toList ++ hex.drop (hex.length - 40))

def zeroAddress : Text := "0x0000000000000000000000000000000000000000".toList

/-- Every error of the call is caught here and answered with no owner. -/
def ownerOf (answer : Text) (attempt : Attempt) :
    Except Error (Option Text) :=
  tryCatch
    (do
      let hex ← ethCall answer attempt
      return (hex.bind decodeAddress).filter (· ≠ zeroAddress))
    fun _ => return none

/-! ## Retries -/

structure Report where
  id : Nat
  own : Option Text
  ok : Bool
  error : Option Text
  deriving DecidableEq

def retry (answer : Text) (id : Nat) (lastErr : Option Error) :
    List Attempt → Report
  | [] =>
      { id, own := none, ok := false
        error := some ((lastErr.map Error.message).getD "ownerOf fail".toList) }
  | attempt :: attempts =>
      match ownerOf answer attempt with
      | .ok own => { id, own, ok := true, error := none }
      | .error e => retry answer id (some e) attempts

def ownerOfWithRetry (answer : Text) (attempts : Nat → Attempt) (id : Nat) :
    Report :=
  retry answer id none ((List.range 3).map attempts)

/-! ## The two scanners -/

structure Scan where
  owned : List Nat
  failed : Nat
  deriving DecidableEq

variable (owner : Nat → Owner) (attempts : Nat → Nat → Attempt)
variable (address : Text)

def report (id : Nat) : Report :=
  ownerOfWithRetry (owner id).encoded (attempts id) id

def Scan.record (s : Scan) (r : Report) : Scan :=
  if ¬ r.ok then { s with failed := s.failed + 1 }
  else if r.own.any fun own => sameAddr own address then
    { s with owned := s.owned ++ [r.id] }
  else s

def Scan.recordAll (s : Scan) (ids : List Nat) : Scan :=
  (ids.map (report owner attempts)).foldl (Scan.record address) s

def scanFrom (batch : Nat) (hbatch : 0 < batch) (stop : Scan → Bool)
    (cap i : Nat) (s : Scan) : Scan :=
  if i ≤ cap then
    let chunk := List.range' i (min batch (cap + 1 - i))
    let next := s.recordAll owner attempts address chunk
    if stop next then next
    else scanFrom batch hbatch stop cap (i + batch) next
  else s
termination_by cap + 1 - i

def scanOwned (cap : Nat) : Scan :=
  scanFrom owner attempts address 20 (by decide) (fun _ => false) cap 1 ⟨[], 0⟩

/-- The scan of the picker, which stops when it has found the whole balance. -/
def scanPicker (bal : Option Nat) (cap : Nat) : Scan :=
  scanFrom owner attempts address 25 (by decide)
    (fun s => bal.any fun bal => bal ≤ s.owned.length && 0 < bal) cap 1 ⟨[], 0⟩

/-! ## What an attempt answers -/

section Attempts

variable {answer : Text} {attempt : Attempt} {id : Nat}

theorem callRpcs_eq_ok_iff {lastErr : Option Error} {rpcs : List RpcReply}
    {u : Unit} : callRpcs lastErr rpcs = .ok u ↔ .answers ∈ rpcs := by
  induction rpcs generalizing lastErr with
  | nil => simp [callRpcs]
  | cons reply rpcs ih =>
      cases reply with
      | answers => simp [callRpcs]
      | rejects | status | error | empty =>
          simp only [callRpcs, ih, List.mem_cons, reduceCtorEq, false_or]

theorem ethCall_of_succeeds (h : attempt.Succeeds) :
    ethCall answer attempt = .ok (some answer) := by
  unfold ethCall
  split
  next => rfl
  next lastErr hrpcs =>
    have hnone : .answers ∉ attempt.rpcs := by
      intro hmem
      have hok : callRpcs none attempt.rpcs = .ok () := callRpcs_eq_ok_iff.mpr hmem
      rw [hrpcs] at hok
      contradiction
    rw [h.resolve_left hnone]

theorem ethCall_of_not_succeeds (answer : Text) (h : ¬ attempt.Succeeds) :
    ethCall answer attempt = .ok none ∨ ∃ e, ethCall answer attempt = .error e := by
  unfold ethCall
  split
  next hrpcs => exact absurd (.inl (callRpcs_eq_ok_iff.mp hrpcs)) h
  next lastErr hrpcs =>
    cases hprovider : attempt.provider with
    | none => exact .inr ⟨_, rfl⟩
    | some reply =>
        cases reply with
        | rejects e => exact .inr ⟨e, rfl⟩
        | empty => exact .inl rfl
        | answers => exact absurd (.inr hprovider) h

theorem decodeAddress_encoded (owner : Owner) :
    decodeAddress owner.encoded = some owner.address := by
  have hlength : owner.encoded.length = 66 := by
    simp [Owner.encoded, owner.length_eq]
  have hlong : ¬ (owner.encoded = [] ∨ owner.encoded = "0x".toList ∨
      owner.encoded.length < 66) := by
    rintro (h | h | h)
    · simp [h] at hlength
    · rw [h] at hlength
      exact absurd hlength (by decide)
    · omega
  have hdrop : owner.encoded.drop 26 = owner.hex := by
    rw [Owner.encoded, ← List.append_assoc]
    exact List.drop_left' (by simp)
  rw [decodeAddress, if_neg hlong, hlength, hdrop, Owner.address]

theorem Owner.address_ne_zero (owner : Owner) : owner.address ≠ zeroAddress := by
  intro h
  have hzero : zeroAddress = "0x".toList ++ List.replicate 40 '0' := by decide
  exact owner.ne_zero (List.append_cancel_left (h.trans hzero))

theorem ownerOf_eq (owner : Owner) (attempt : Attempt) :
    (attempt.Succeeds →
      ownerOf owner.encoded attempt = .ok (some owner.address)) ∧
    (¬ attempt.Succeeds → ownerOf owner.encoded attempt = .ok none) := by
  constructor
  · intro h
    have hne := owner.address_ne_zero
    simp [ownerOf, ethCall_of_succeeds h, decodeAddress_encoded, tryCatch,
      tryCatchThe, MonadExceptOf.tryCatch, Except.tryCatch, bind, Except.bind,
      pure, Except.pure, Option.filter, hne]
  · intro h
    rcases ethCall_of_not_succeeds owner.encoded h with hcall | ⟨e, hcall⟩
    · simp [ownerOf, hcall, tryCatch, tryCatchThe, MonadExceptOf.tryCatch,
        Except.tryCatch, bind, Except.bind, pure, Except.pure]
    · simp [ownerOf, hcall, tryCatch, tryCatchThe, MonadExceptOf.tryCatch,
        Except.tryCatch, bind, Except.bind, pure, Except.pure]

end Attempts

/-! ## What a scan collects -/

variable {owner attempts address} {id cap : Nat}

theorem report_of_succeeds (owner : Nat → Owner) (h : (attempts id 0).Succeeds) :
    report owner attempts id = ⟨id, some (owner id).address, true, none⟩ := by
  simp [report, ownerOfWithRetry, List.range_succ, retry, (ownerOf_eq _ _).1 h]

theorem report_of_not_succeeds (owner : Nat → Owner)
    (h : ¬ (attempts id 0).Succeeds) :
    report owner attempts id = ⟨id, none, true, none⟩ := by
  simp [report, ownerOfWithRetry, List.range_succ, retry, (ownerOf_eq _ _).2 h]

theorem retry_id (answer : Text) (id : Nat) (tries : List Attempt) :
    ∀ lastErr, (retry answer id lastErr tries).id = id := by
  induction tries with
  | nil => exact fun _ => rfl
  | cons attempt tries ih =>
      intro lastErr
      rw [retry]
      split
      next => rfl
      next e _ => exact ih (some e)

@[simp] theorem report_id (id : Nat) : (report owner attempts id).id = id :=
  retry_id _ _ _ _

def listed (owner : Nat → Owner) (attempts : Nat → Nat → Attempt)
    (address : Text) (id : Nat) : Bool :=
  (report owner attempts id).ok &&
    (report owner attempts id).own.any fun own => sameAddr own address

def unread (owner : Nat → Owner) (attempts : Nat → Nat → Attempt)
    (id : Nat) : Bool :=
  !(report owner attempts id).ok

theorem recordAll_eq (s : Scan) (ids : List Nat) :
    s.recordAll owner attempts address ids =
      ⟨s.owned ++ ids.filter (listed owner attempts address),
        s.failed + ids.countP (unread owner attempts)⟩ := by
  induction ids generalizing s with
  | nil => simp [Scan.recordAll]
  | cons id ids ih =>
      have hstep : s.recordAll owner attempts address (id :: ids) =
          (s.record address (report owner attempts id)).recordAll owner attempts
            address ids := rfl
      rw [hstep, ih]
      by_cases hok : (report owner attempts id).ok = true
      · by_cases hown : ((report owner attempts id).own.any
            fun own => sameAddr own address) = true
        · simp [Scan.record, listed, unread, hok, hown]
        · simp [Scan.record, listed, unread, hok, hown]
      · simp [Scan.record, listed, unread, hok]
        omega

theorem recordAll_append (s : Scan) (ids others : List Nat) :
    (s.recordAll owner attempts address ids).recordAll owner attempts address
        others =
      s.recordAll owner attempts address (ids ++ others) := by
  simp only [recordAll_eq, List.filter_append, List.countP_append,
    List.append_assoc, Nat.add_assoc]

theorem scanFrom_eq (owner : Nat → Owner) {batch : Nat} {hbatch : 0 < batch}
    {stop : Scan → Bool} (i : Nat) (s : Scan) :
    ∃ n ≤ cap + 1 - i,
      scanFrom owner attempts address batch hbatch stop cap i s =
        s.recordAll owner attempts address (List.range' i n) ∧
      (stop (scanFrom owner attempts address batch hbatch stop cap i s) = true ∨
        n = cap + 1 - i) := by
  induction i, s using scanFrom.induct owner attempts address batch hbatch stop
    cap with
  | case1 i s hle chunk next hstop =>
      have hscan : scanFrom owner attempts address batch hbatch stop cap i s =
          next := by
        rw [scanFrom, if_pos hle]
        exact if_pos hstop
      refine ⟨min batch (cap + 1 - i), Nat.min_le_right _ _, hscan, ?_⟩
      exact .inl (hscan ▸ hstop)
  | case2 i s hle chunk next hstop ih =>
      obtain ⟨n, hn, hscan, hall⟩ := ih
      have hnext : scanFrom owner attempts address batch hbatch stop cap i s =
          scanFrom owner attempts address batch hbatch stop cap (i + batch)
            next := by
        rw [scanFrom, if_pos hle]
        exact if_neg hstop
      refine ⟨min batch (cap + 1 - i) + n, by omega, ?_, ?_⟩
      · rw [hnext]
        have hchunk : chunk ++ List.range' (i + batch) n =
            List.range' i (min batch (cap + 1 - i) + n) := by
          by_cases hlast : i + batch ≤ cap
          · simp only [chunk, Nat.min_eq_left (show batch ≤ cap + 1 - i by omega),
              List.range'_append_1]
          · have hzero : n = 0 := by omega
            simp [chunk, hzero]
        rw [hscan, recordAll_append, hchunk]
      · rw [hnext]
        exact hall.imp_right fun hn => by omega
  | case3 i s hlt =>
      refine ⟨0, Nat.zero_le _, ?_, .inr (by omega)⟩
      rw [scanFrom, if_neg hlt]
      rfl

theorem scanOwned_eq (cap : Nat) :
    scanOwned owner attempts address cap =
      ⟨(List.range' 1 cap).filter (listed owner attempts address),
        (List.range' 1 cap).countP (unread owner attempts)⟩ := by
  obtain ⟨n, -, hscan, hend⟩ := scanFrom_eq owner 1 ⟨[], 0⟩
  rw [scanOwned, hscan, hend.resolve_left (by simp), recordAll_eq]
  simp

theorem nodup_owned_scanFrom {batch : Nat} {hbatch : 0 < batch}
    {stop : Scan → Bool} :
    (scanFrom owner attempts address batch hbatch stop cap 1
      ⟨[], 0⟩).owned.Nodup := by
  obtain ⟨n, -, hscan, -⟩ := scanFrom_eq owner 1 ⟨[], 0⟩
  rw [hscan, recordAll_eq]
  exact List.Nodup.sublist List.filter_sublist List.nodup_range'

/-! ## Nothing is lost silently -/

variable (owner attempts address cap)

/--
A report is right if it names the owner when one of the three attempts succeeds
and says that it could not be read when none does.
-/
def ReportsTruth (id : Nat) : Prop :=
  ((∃ n < 3, (attempts id n).Succeeds) →
    (report owner attempts id).own = some (owner id).address ∧
      (report owner attempts id).ok = true) ∧
  ((∀ n < 3, ¬ (attempts id n).Succeeds) →
    (report owner attempts id).ok = false)

/-- Every token of the wallet is found or counted as failed. -/
def FindsAll : Prop :=
  ∀ id, 1 ≤ id → id ≤ cap → sameAddr (owner id).address address = true →
    id ∈ (scanOwned owner attempts address cap).owned ∨
      (report owner attempts id).ok = false

/-- What the retries and the count of failures of the scan are there for. -/
structure LosesNothing : Prop where
  reports : ∀ id, 1 ≤ id → id ≤ cap → ReportsTruth owner attempts id
  finds : FindsAll owner attempts address cap
  failed_eq : (scanOwned owner attempts address cap).failed =
    (List.range' 1 cap).countP fun id => !(report owner attempts id).ok
  nodup : (scanOwned owner attempts address cap).owned.Nodup

variable {owner attempts address cap}

theorem reportsTruth_iff :
    ReportsTruth owner attempts id ↔ (attempts id 0).Succeeds := by
  constructor
  · rintro ⟨htrue, hfalse⟩
    by_contra hfirst
    have hreport := report_of_not_succeeds owner hfirst
    by_cases hsome : ∃ n < 3, (attempts id n).Succeeds
    · have hown := (htrue hsome).1
      rw [hreport] at hown
      contradiction
    · have hok := hfalse fun n hn h => hsome ⟨n, hn, h⟩
      rw [hreport] at hok
      contradiction
  · intro hfirst
    have hreport := report_of_succeeds owner hfirst
    refine ⟨fun _ => by simp [hreport], ?_⟩
    intro hnone
    exact absurd hfirst (hnone 0 (by decide))

theorem listed_eq_true_iff : listed owner attempts address id = true ↔
    (attempts id 0).Succeeds ∧ sameAddr (owner id).address address = true := by
  by_cases hfirst : (attempts id 0).Succeeds
  · simp [listed, report_of_succeeds owner hfirst, hfirst]
  · simp [listed, report_of_not_succeeds owner hfirst, hfirst]

theorem findsAll_iff :
    FindsAll owner attempts address cap ↔
      ∀ id, 1 ≤ id → id ≤ cap → sameAddr (owner id).address address = true →
        (attempts id 0).Succeeds := by
  simp only [FindsAll, scanOwned_eq, List.mem_filter, List.mem_range'_1,
    listed_eq_true_iff]
  constructor
  · intro hfinds id hge hle hsame
    by_contra hfirst
    have hreport := report_of_not_succeeds owner hfirst
    have := hfinds id hge hle hsame
    simp [hreport, hfirst] at this
  · intro hfirst id hge hle hsame
    exact .inl ⟨⟨hge, by omega⟩, hfirst id hge hle hsame, hsame⟩

/--
The scan loses nothing exactly if the first attempt at each token succeeds; and
it finds the tokens of the wallet exactly if the first attempt at each of these
does.  It never finds a token twice.
-/
theorem losesNothing_iff (owner : Nat → Owner) (attempts : Nat → Nat → Attempt)
    (address : Text) (cap : Nat) :
    (LosesNothing owner attempts address cap ↔
      ∀ id, 1 ≤ id → id ≤ cap → (attempts id 0).Succeeds) ∧
    (FindsAll owner attempts address cap ↔
      ∀ id, 1 ≤ id → id ≤ cap → sameAddr (owner id).address address = true →
        (attempts id 0).Succeeds) ∧
    (scanOwned owner attempts address cap).owned.Nodup := by
  have hnodup : (scanOwned owner attempts address cap).owned.Nodup :=
    nodup_owned_scanFrom
  refine ⟨⟨?_, ?_⟩, findsAll_iff, hnodup⟩
  · intro h id hge hle
    exact reportsTruth_iff.mp (h.reports id hge hle)
  · intro hfirst
    refine ⟨?_, ?_, by rw [scanOwned_eq]; rfl, hnodup⟩
    · intro id hge hle
      exact reportsTruth_iff.mpr (hfirst id hge hle)
    · exact findsAll_iff.mpr fun id hge hle _ => hfirst id hge hle

/--
The picker stops early only when it has found as many tokens as the contract
says the wallet has: if that is their number, it finds the tokens of the wallet
exactly if the first attempt at each of them succeeds.
-/
theorem scanPicker_finds_iff (owner : Nat → Owner)
    (attempts : Nat → Nat → Attempt) (address : Text) (bal : Option Nat)
    (cap : Nat)
    (hbal : ∀ n, bal = some n → n = (List.range' 1 cap).countP fun id =>
      sameAddr (owner id).address address) :
    ((∀ id, 1 ≤ id → id ≤ cap → sameAddr (owner id).address address = true →
        id ∈ (scanPicker owner attempts address bal cap).owned) ↔
      ∀ id, 1 ≤ id → id ≤ cap → sameAddr (owner id).address address = true →
        (attempts id 0).Succeeds) ∧
    (scanPicker owner attempts address bal cap).owned.Nodup := by
  have hnodup : (scanPicker owner attempts address bal cap).owned.Nodup :=
    nodup_owned_scanFrom
  refine ⟨?_, hnodup⟩
  obtain ⟨n, hn, hscan, hend⟩ := scanFrom_eq owner 1 ⟨[], 0⟩
  have howned : (scanPicker owner attempts address bal cap).owned =
      (List.range' 1 n).filter (listed owner attempts address) := by
    rw [scanPicker, hscan, recordAll_eq]
    rfl
  have hmem : ∀ id, id ∈ (scanPicker owner attempts address bal cap).owned ↔
      (1 ≤ id ∧ id < 1 + n) ∧ (attempts id 0).Succeeds ∧
        sameAddr (owner id).address address = true := by
    intro id
    rw [howned, List.mem_filter, List.mem_range'_1, listed_eq_true_iff]
  constructor
  · intro hfinds id hge hle hsame
    exact ((hmem id).mp (hfinds id hge hle hsame)).2.1
  · intro hfirst id hge hle hsame
    rcases hend with hstop | hall
    · change (bal.any fun bal => _) = true at hstop
      obtain ⟨b, rfl, hb⟩ := (Option.any_eq_true ..).mp hstop
      let tokens := (List.range' 1 cap).filter fun id =>
        sameAddr (owner id).address address
      have hsub : (scanPicker owner attempts address (some b) cap).owned ⊆
          tokens := by
        intro id' hid'
        have hid := (hmem id').mp hid'
        exact List.mem_filter.mpr
          ⟨List.mem_range'_1.mpr ⟨hid.1.1, by omega⟩, hid.2.2⟩
      have hlength : tokens.length ≤
          (scanPicker owner attempts address (some b) cap).owned.length := by
        rw [← List.countP_eq_length_filter, ← hbal b rfl]
        simp only [Bool.and_eq_true, decide_eq_true_eq] at hb
        exact hb.1
      have hperm := (List.subperm_of_subset hnodup hsub).perm_of_length_le hlength
      exact hperm.mem_iff.mpr (List.mem_filter.mpr
        ⟨List.mem_range'_1.mpr ⟨hge, by omega⟩, hsame⟩)
    · exact (hmem id).mpr
        ⟨⟨hge, by omega⟩, hfirst id hge hle hsame, hsame⟩

def sampleOwner : Owner where
  hex := List.replicate 40 'a'
  length_eq := by decide
  all_isHexDigit := by decide
  ne_zero := by decide

def sampleAttempts (_ : Nat) : Nat → Attempt
  | 0 => ⟨[.status 429], none⟩
  | _ => ⟨[.answers], none⟩

/-- The wallet's only token is reported as somebody else's, with no failure. -/
theorem scan_loses_token :
    ¬ ∀ (owner : Nat → Owner) (attempts : Nat → Nat → Attempt) (address : Text)
      (cap : Nat), LosesNothing owner attempts address cap := by
  intro h
  have hreport := (h (fun _ => sampleOwner) sampleAttempts sampleOwner.address
    1).reports 1 (by decide) (by decide)
  have hown := (hreport.1 ⟨1, by decide, .inl (by decide)⟩).1
  exact absurd hown (by decide)

end IreBlockchain.Brokers
