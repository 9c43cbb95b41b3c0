import Inet.Tcp.SackOption

/-! # SACK options are truthful and fit

Every block that a connection remembers is a range of bytes that it has
received. `rcv_nxt` is not in such a range, so the blocks that are not below
it are above it.
-/

namespace Inet.Tcp.SackState

open ReceivedRanges RegionRange

variable {base : Seq} {p R s len : ℕ} {received received' : List (ℕ × ℕ)} {a b : ℕ}
  {state state' : SackState} {receiveQueue receiveQueue' : ReceivedRanges}
  {sack : SackItem} {sacks : List SackItem} {tcpHeader tcpHeader' : TcpHeader}

/-- A block of received bytes. -/
structure Block (base : Seq) (p : ℕ) (received : List (ℕ × ℕ)) (a b : ℕ) (sack : SackItem) :
    Prop where
  eq : sack = ⟨base.add a, base.add b⟩
  lt : a < b
  initial_le : p ≤ a
  window : b < 2 ^ 31
  covered : ∀ k, a ≤ k → k < b → Covered received k

/-- The block of a range of received bytes above `rcv_nxt`. -/
def Above (base : Seq) (p R : ℕ) (received : List (ℕ × ℕ)) (sack : SackItem) : Prop :=
  ∃ a b, Block base p received a b sack ∧ R < a

theorem Block.start_ne_stop (h : Block base p received a b sack) : sack.start ≠ sack.stop := by
  rw [h.eq]
  intro heq
  have := (Seq.add_inj base (h.lt.trans h.window) h.window).1 heq
  exact absurd this h.lt.ne

theorem not_empty_of_ne (h : sack.start ≠ sack.stop) : sack.empty = false := by
  simp only [SackItem.empty, decide_eq_false_iff_not]
  rintro ⟨h₀, h₁⟩
  exact h (h₀.trans h₁.symm)

theorem Block.le_or_lt (h : Block base p received a b sack) (hR : ¬ Covered received R) :
    b ≤ R ∨ R < a := by
  by_contra hin
  exact hR (h.covered R (by omega) (by omega))

theorem Block.mono (h : Block base p received a b sack) (range : ℕ × ℕ) :
    Block base p (range :: received) a b sack :=
  { h with covered := fun k h₀ h₁ => covered_cons.2 (Or.inr (h.covered k h₀ h₁)) }

theorem exists_deleteOld_eq_ok (hsacks : ∀ sack ∈ sacks, ∃ a b, Block base p received a b sack)
    (hR : ¬ Covered received R) (hlt : R < 2 ^ 31) :
    ∃ result, deleteOld (base.add R) sacks = .ok result ∧
      ∀ sack ∈ result, Above base p R received sack := by
  induction sacks with
  | nil => exact ⟨[], rfl, by simp⟩
  | cons sack sacks ih =>
    rw [List.forall_mem_cons] at hsacks
    obtain ⟨⟨a, b, hblock⟩, hrest⟩ := hsacks
    obtain ⟨result, hok, habove⟩ := ih hrest
    have hlt' := hblock.lt.trans hblock.window
    unfold deleteOld
    rw [not_empty_of_ne hblock.start_ne_stop, Bool.or_false, hblock.eq,
      seqLE_add base hblock.window hlt, seqGE_add base hlt' hlt]
    rcases hblock.le_or_lt hR with hle | hgt
    · rw [if_pos (decide_eq_true hle)]
      exact ⟨result, hok, habove⟩
    · rw [if_neg (by have := hblock.lt; simp only [decide_eq_true_eq]; omega), hok,
        Error.assert_of_pos (decide_eq_true hgt.le)]
      refine ⟨_, rfl, List.forall_mem_cons.2 ⟨⟨a, b, ?_, hgt⟩, habove⟩⟩
      rw [← hblock.eq]
      exact hblock

/-- The first block stays, and no block is added. -/
theorem exists_deleteContained_eq_ok (sacks : List SackItem)
    (h : ∀ sack ∈ sacks, sack.empty = false) :
    ∃ result, deleteContained sacks = .ok result ∧ (∀ sack ∈ result, sack ∈ sacks) ∧
      result.head? = sacks.head? := by
  induction sacks using deleteContained.induct with
  | case1 => exact ⟨[], by rw [deleteContained]; rfl, by simp, rfl⟩
  | case2 sack sacks ih =>
    rw [List.forall_mem_cons] at h
    have hsub : ∀ other ∈ deleteContainedIn sack sacks, other ∈ sacks := fun other hother =>
      List.mem_of_mem_filter hother
    obtain ⟨result, hok, hmem, -⟩ := ih fun other hother => h.2 other (hsub other hother)
    refine ⟨sack :: result, ?_, ?_, rfl⟩
    · rw [deleteContained, Error.assert_of_pos (by simp [h.1]), hok]
      rfl
    · intro other hother
      rcases List.mem_cons.1 hother with rfl | hother
      · exact List.mem_cons_self
      · exact List.mem_cons_of_mem _ (hsub other (hmem other hother))

/-- The range that a segment asks to report, and whether it is a duplicate. -/
structure Report where
  start : ℕ
  stop : ℕ
  duplicate : Bool
  deriving DecidableEq, Repr

/-- The report is about the whole segment; that of a duplicate is about bytes of the segment that
had been received before. -/
structure Report.Valid (report : Report) (received : List (ℕ × ℕ)) (s len : ℕ) : Prop where
  start_le : s ≤ report.start
  stop_le : report.stop ≤ s + len
  whole : report.duplicate = false → report.start = s ∧ report.stop = s + len
  duplicate : report.duplicate = true →
    report.start < report.stop ∧ ∀ k, report.start ≤ k → k < report.stop → Covered received k

/-- The variables after a segment has been inserted. -/
def receive (state : SackState) (receiveQueue : ReceivedRanges) (base : Seq) (report : Report) :
    SackState :=
  { state with
    rcv_nxt := receiveQueue.rcv_nxt
    start_seqno := base.add report.start
    end_seqno := base.add report.stop
    snd_sack := !report.duplicate
    snd_dsack := report.duplicate }

/-- The runs of a data receiver whose initial sequence number has position `p`. -/
inductive Reachable (base : Seq) (p : ℕ) :
    SackState → ReceivedRanges → List (ℕ × ℕ) → Prop
  | init {state : SackState} : state.rcv_nxt = base.add p → state.sacks_array = [] →
    state.start_seqno = state.end_seqno →
    Reachable base p state (ReceivedRanges.init (base.add p)) []
  | insert {state : SackState} {receiveQueue receiveQueue' : ReceivedRanges}
    {received : List (ℕ × ℕ)} {s len : ℕ} {report : Report} {ndebug : Bool} :
    Reachable base p state receiveQueue received → s + len < 2 ^ 31 →
    receiveQueue.insertBytesFromSegment ndebug (base.add s) len = .ok receiveQueue' →
    report.Valid received s len →
    Reachable base p (state.receive receiveQueue' base report) receiveQueue' ((s, len) :: received)
  | addSacks {state state' : SackState} {receiveQueue : ReceivedRanges}
    {received : List (ℕ × ℕ)} {alignOptions : Bool} {tcpHeader tcpHeader' : TcpHeader} :
    Reachable base p state receiveQueue received →
    tcpHeader.getHeaderOptionArrayLength ≤ 40 →
    state.addSacks alignOptions receiveQueue tcpHeader = .ok (state', tcpHeader') →
    Reachable base p state' receiveQueue received

/-- The report of the last segment, not yet sent. -/
structure Pending (base : Seq) (report : Report) (received : List (ℕ × ℕ)) (s len : ℕ)
    (state : SackState) : Prop where
  valid : report.Valid received s len
  start_eq : state.start_seqno = base.add report.start
  stop_eq : state.end_seqno = base.add report.stop
  duplicate_eq : state.snd_dsack = report.duplicate

/-- The state of a data receiver after what it has received. -/
structure Remembers (base : Seq) (p : ℕ) (received : List (ℕ × ℕ)) (R : ℕ) (state : SackState)
    (receiveQueue : ReceivedRanges) : Prop where
  follows : Follows base p received R receiveQueue
  rcv_nxt_eq : state.rcv_nxt = base.add R
  blocks : ∀ sack ∈ state.sacks_array, ∃ a b, Block base p received a b sack
  pending : state.start_seqno ≠ state.end_seqno → ∃ report s len received',
    received = (s, len) :: received' ∧ Pending base report received' s len state

section Report

variable {report : Report}
  (h : Remembers base p ((s, len) :: received) R state receiveQueue)
  (hpending : Pending base report received s len state)
  (hne : state.start_seqno ≠ state.end_seqno)

include hpending hne

theorem Pending.lt : report.start < report.stop := by
  have hvalid := hpending.valid
  have hle := hvalid.start_le
  cases hdup : report.duplicate with
  | true => exact (hvalid.duplicate hdup).1
  | false =>
    obtain ⟨h₀, h₁⟩ := hvalid.whole hdup
    rcases Nat.eq_zero_or_pos len with rfl | hpos
    · refine absurd ?_ hne
      rw [hpending.start_eq, hpending.stop_eq, h₀, h₁, add_zero]
    · omega

include h

omit hne in
theorem Remembers.stop_lt : report.stop < 2 ^ 31 := by
  have hwindow := h.follows.window (s, len) List.mem_cons_self
  have hle := hpending.valid.stop_le
  dsimp only at hwindow
  omega

theorem Remembers.dsackBlock_ne : state.dsackBlock.start ≠ state.dsackBlock.stop := by
  have hlt := hpending.lt hne
  have hstop := h.stop_lt hpending
  have hR := h.follows.rcv_nxt_lt
  unfold dsackBlock
  rw [hpending.start_eq, hpending.stop_eq, h.rcv_nxt_eq, seqLess_add base (by omega) hR,
    seqLess_add base hR hstop]
  split_ifs with hin
  · rw [Bool.and_eq_true, decide_eq_true_eq, decide_eq_true_eq] at hin
    intro heq
    have := (Seq.add_inj base (by omega) hR).1 heq
    omega
  · intro heq
    have := (Seq.add_inj base (by omega) hstop).1 heq
    omega

omit hne in
theorem Remembers.lt_start (hgt : R < report.stop) : R < report.start := by
  by_contra hle
  have hvalid := hpending.valid
  apply h.follows.not_covered
  cases hdup : report.duplicate with
  | true => exact covered_cons.2 (Or.inr ((hvalid.duplicate hdup).2 R (by omega) hgt))
  | false =>
    obtain ⟨h₀, h₁⟩ := hvalid.whole hdup
    exact covered_cons.2 (Or.inl ⟨by dsimp only; omega, by dsimp only; omega⟩)

theorem Remembers.sackBlock_eq {region : RegionRange} {k₀ k₁ : ℕ}
    (hr : region ∈ receiveQueue.regions) (hat : LiesAt base p k₀ k₁ region)
    (h₀ : k₀ ≤ report.start) (h₁ : report.stop ≤ k₁) :
    state.sackBlock receiveQueue = ⟨base.add k₀, base.add k₁⟩ := by
  have hlt := hpending.lt hne
  have hstop := h.stop_lt hpending
  unfold sackBlock
  rw [hpending.start_eq, hpending.stop_eq, h.follows.getLE_eq hr hat h₀ (by omega) (by omega),
    h.follows.getRE_eq hr hat (by omega) h₁ hstop]

theorem Remembers.above_sackBlock (hgt : R < report.stop) :
    Above base p R ((s, len) :: received) (state.sackBlock receiveQueue) := by
  have hlt := hpending.lt hne
  have hstart := h.lt_start hpending hgt
  have hle := h.follows.le_rcv_nxt
  have hvalid := hpending.valid
  have h₀ := hvalid.start_le
  have h₁ := hvalid.stop_le
  obtain ⟨region, hr, k₀, k₁, hat, hk₀, hk₁, hp, hcov⟩ := h.follows.exists_region
    (show p ≤ report.start by omega) hlt fun k hk hk' =>
      covered_cons.2 (Or.inl ⟨by dsimp only; omega, by dsimp only; omega⟩)
  have hwindow := h.follows.lt_of_covered (hcov (k₁ - 1) (by omega) (by omega))
  refine ⟨k₀, k₁, ⟨h.sackBlock_eq hpending hne hr hat hk₀ hk₁, by omega, hp, by omega, hcov⟩, ?_⟩
  by_contra hle'
  exact h.follows.not_covered (hcov R (by omega) (by omega))

theorem Remembers.exists_sackBlock_eq (hsR : R ≤ s) :
    ∃ k₀ k₁, state.sackBlock receiveQueue = ⟨base.add k₀, base.add k₁⟩ ∧ k₀ ≤ s ∧
      s + len ≤ k₁ ∧ k₁ < 2 ^ 31 := by
  have hlt := hpending.lt hne
  have hle := h.follows.le_rcv_nxt
  have hvalid := hpending.valid
  have h₀ := hvalid.start_le
  have h₁ := hvalid.stop_le
  obtain ⟨region, hr, k₀, k₁, hat, hk₀, hk₁, hp, hcov⟩ := h.follows.exists_region
    (show p ≤ s by omega) (show s < s + len by omega) fun k hk hk' =>
      covered_cons.2 (Or.inl ⟨hk, hk'⟩)
  have hwindow := h.follows.lt_of_covered (hcov (k₁ - 1) (by omega) (by omega))
  exact ⟨k₀, k₁, h.sackBlock_eq hpending hne hr hat (by omega) (by omega), hk₀, hk₁, by omega⟩

end Report

/-- The D-SACK block, if the call is to report one. -/
def dsackBlocks (state : SackState) : List SackItem :=
  if state.reportsDsack then [state.dsackBlock] else []

/-- The first block contains the whole segment. -/
def FirstContains (base : Seq) (s len : ℕ) (blocks : List SackItem) : Prop :=
  ∃ k₀ k₁, blocks.head? = some ⟨base.add k₀, base.add k₁⟩ ∧ k₀ ≤ s ∧ s + len ≤ k₁ ∧ k₁ < 2 ^ 31

/-- If the call reports the last segment by a block, and that is above `rcv_nxt`, then the first
block contains the segment. -/
def ReportsSegment (base : Seq) (received : List (ℕ × ℕ)) (state : SackState)
    (blocks : List SackItem) : Prop :=
  ∀ s len received', received = (s, len) :: received' → state.start_seqno ≠ state.end_seqno →
    state.reportsDsack = false → seqGE (base.add s) state.rcv_nxt → FirstContains base s len blocks

section Blocks

variable (h : Remembers base p received R state receiveQueue)

theorem Above.start_ne_stop (h : Above base p R received sack) : sack.start ≠ sack.stop := by
  obtain ⟨a, b, hblock, -⟩ := h
  exact hblock.start_ne_stop

include h

theorem Remembers.reportsDsack_ne (hreports : state.reportsDsack) :
    state.dsackBlock.start ≠ state.dsackBlock.stop := by
  simp only [reportsDsack, decide_eq_true_eq] at hreports
  obtain ⟨report, s, len, received', rfl, hpending⟩ := h.pending hreports.1
  exact h.dsackBlock_ne hpending hreports.1

theorem Remembers.exists_insertBlock_eq_ok
    (hsacks : ∀ sack ∈ sacks, Above base p R received sack) :
    ∃ result, state.insertBlock receiveQueue sacks = .ok (state.dsackBlocks ++ result) ∧
      (∀ sack ∈ result, Above base p R received sack) ∧
      ReportsSegment base received state result := by
  have hnonempty : ∀ sacks : List SackItem, (∀ sack ∈ sacks, Above base p R received sack) →
      ∀ sack ∈ sacks, sack.empty = false :=
    fun sacks hsacks sack hsack => not_empty_of_ne (hsacks sack hsack).start_ne_stop
  unfold insertBlock dsackBlocks
  by_cases hne : state.start_seqno ≠ state.end_seqno
  · obtain ⟨report, s, len, received', rfl, hpending⟩ := h.pending hne
    have hstop := h.stop_lt hpending
    have hR := h.follows.rcv_nxt_lt
    rw [if_pos hne]
    by_cases hdsack : (state.dsack_enabled && state.snd_dsack) = true
    · have hreports : state.reportsDsack = true := by simpa [reportsDsack, hne] using hdsack
      obtain ⟨result, hok, hmem, -⟩ := exists_deleteContained_eq_ok sacks (hnonempty sacks hsacks)
      rw [if_pos hdsack, if_pos hreports, hok]
      refine ⟨result, rfl, fun sack hsack => hsacks sack (hmem sack hsack), ?_⟩
      intro s' len' received'' _ _ hnot
      rw [hreports] at hnot
      cases hnot
    · have hreports : state.reportsDsack = false := by simpa [reportsDsack, hne] using hdsack
      rw [if_neg hdsack, hreports, if_neg Bool.false_ne_true, hpending.stop_eq, h.rcv_nxt_eq,
        seqGreater_add base hstop hR]
      have hsegment (blocks : List SackItem) (hfirst : R ≤ s → FirstContains base s len blocks) :
          ReportsSegment base ((s, len) :: received') state blocks := by
        intro s' len' received'' heq _ _ hge
        obtain ⟨⟨rfl, rfl⟩, rfl⟩ : (s = s' ∧ len = len') ∧ received' = received'' := by
          simpa using heq
        have hwindow := h.follows.window (s, len) List.mem_cons_self
        dsimp only at hwindow
        rw [h.rcv_nxt_eq, seqGE_add base (by omega) hR, decide_eq_true_eq] at hge
        exact hfirst hge
      split_ifs with hgt
      · rw [decide_eq_true_eq] at hgt
        have habove : ∀ sack ∈ state.sackBlock receiveQueue :: sacks,
            Above base p R ((s, len) :: received') sack :=
          List.forall_mem_cons.2 ⟨h.above_sackBlock hpending hne hgt, hsacks⟩
        obtain ⟨result, hok, hmem, hhead⟩ := exists_deleteContained_eq_ok _ (hnonempty _ habove)
        refine ⟨result, hok, fun sack hsack => habove sack (hmem sack hsack),
          hsegment result fun hge => ?_⟩
        obtain ⟨k₀, k₁, hblock, hk₀, hk₁, hlt⟩ := h.exists_sackBlock_eq hpending hne hge
        exact ⟨k₀, k₁, by rw [hhead, List.head?_cons, hblock], hk₀, hk₁, hlt⟩
      · rw [decide_eq_true_eq] at hgt
        obtain ⟨result, hok, hmem, -⟩ := exists_deleteContained_eq_ok sacks (hnonempty sacks hsacks)
        refine ⟨result, hok, fun sack hsack => hsacks sack (hmem sack hsack),
          hsegment result fun hge => ?_⟩
        have hlt := hpending.lt hne
        have hle := hpending.valid.start_le
        omega
  · have hreports : state.reportsDsack = false := by simp [reportsDsack, not_not.1 hne]
    rw [if_neg hne, hreports, if_neg Bool.false_ne_true]
    exact ⟨sacks, rfl, hsacks, fun _ _ _ _ hne' => absurd hne' hne⟩

end Blocks

section Option

theorem length_optionNop : optionNop.length = 1 := rfl

theorem foldl_replicate_nop (used n : ℕ) (h : used + n < 2 ^ 16) :
    (List.replicate n optionNop).foldl
      (fun usedLength option => (usedLength + option.length) % 2 ^ 16) used = used + n := by
  induction n generalizing used with
  | zero => rfl
  | succ n ih =>
    rw [List.replicate_succ, List.foldl_cons, length_optionNop, Nat.mod_eq_of_lt (by omega),
      ih _ (by omega)]
    omega

theorem checkItems_eq_ok (h : ∀ sack ∈ sacks, sack.start ≠ sack.stop) :
    checkItems sacks = .ok () := by
  induction sacks with
  | nil => rfl
  | cons sack sacks ih =>
    rw [List.forall_mem_cons] at h
    rw [checkItems, Error.assert_of_pos h.1, Error.ok_bind, ih h.2]

theorem exists_appendSackOption_eq_ok (alignOptions : Bool) {items : List SackItem}
    (hused : tcpHeader.getHeaderOptionArrayLength ≤ 30)
    (hlength : items.length ≤ (optionsMaxSize - tcpHeader.getHeaderOptionArrayLength - 2) / 8)
    (hitems : ∀ sack ∈ items, sack.start ≠ sack.stop) :
    ∃ tcpHeader' nops, appendSackOption alignOptions tcpHeader items = .ok tcpHeader' ∧
      tcpHeader'.headerOption =
        tcpHeader.headerOption ++ List.replicate nops optionNop ++ [optionSack items] ∧
      tcpHeader'.getHeaderOptionArrayLength ≤ 40 := by
  set used := tcpHeader.getHeaderOptionArrayLength with hdef
  unfold optionsMaxSize at hlength
  have haligned : used ≤ alignedLength used ∧ alignedLength used % 4 = 2 ∧
      alignedLength used ≤ used + 3 := by
    unfold alignedLength
    omega
  obtain ⟨hle, hmod, hadd⟩ := haligned
  set alignedLen := if alignOptions then alignedLength used else used with halignedLen
  have hfit : used ≤ alignedLen ∧ (alignOptions → alignedLen % 4 = 2) ∧
      alignedLen + 8 * items.length + 2 ≤ 40 := by
    rw [halignedLen]
    cases alignOptions with
    | false =>
      rw [if_neg (by simp)]
      exact ⟨le_rfl, by simp, by omega⟩
    | true =>
      rw [if_pos rfl]
      exact ⟨hle, fun _ => hmod, by omega⟩
  obtain ⟨hle', hmod', hfit⟩ := hfit
  let optioned : TcpHeader := { tcpHeader with
    headerOption :=
      tcpHeader.headerOption ++ List.replicate (alignedLen - used) optionNop ++ [optionSack items] }
  refine ⟨{ optioned with headerLength := minHeaderLength + optioned.getHeaderOptionArrayLength },
    alignedLen - used, ?_, rfl, ?_⟩
  · unfold appendSackOption
    dsimp only
    rw [← hdef, ← halignedLen, Error.assert_of_pos hmod', Error.ok_bind, checkItems_eq_ok hitems,
      Error.ok_bind, Error.assert_of_pos (by unfold optionsMaxSize; omega), Error.ok_bind]
    rfl
  · simp only [optioned, TcpHeader.getHeaderOptionArrayLength, List.foldl_append, List.foldl_cons,
      List.foldl_nil] at hdef ⊢
    rw [← hdef, foldl_replicate_nop _ _ (by omega), optionSack, Nat.mod_eq_of_lt]
    all_goals dsimp only; omega

end Option

/-- The block is a range of bytes that the queue holds, all of them above `rcv_nxt`. -/
def Truthful (receiveQueue : ReceivedRanges) (block : SackItem) : Prop :=
  ∃ o e : ℤ, o < e ∧ block.start = TcpReceiveQueue.offsetToSeq o ∧
    block.stop = TcpReceiveQueue.offsetToSeq e ∧ ∀ i, o ≤ i → i < e →
      Holds receiveQueue.regions i ∧
        seqGreater (TcpReceiveQueue.offsetToSeq i) receiveQueue.rcv_nxt

theorem Remembers.truthful (h : Remembers base p received R state receiveQueue)
    (habove : Above base p R received sack) : Truthful receiveQueue sack := by
  obtain ⟨a, b, hblock, hlt⟩ := habove
  refine ⟨origin base p + a, origin base p + b, ?_, ?_, ?_, ?_⟩
  · have := hblock.lt
    omega
  · rw [hblock.eq, offsetToSeq_origin]
  · rw [hblock.eq, offsetToSeq_origin]
  · intro i h₀ h₁
    obtain ⟨k, rfl⟩ : ∃ k : ℕ, i = origin base p + k := ⟨(i - origin base p).toNat, by omega⟩
    have hwindow := hblock.window
    have hinitial := hblock.initial_le
    rw [offsetToSeq_origin, h.follows.rcv_nxt_eq,
      seqGreater_add base (by omega) h.follows.rcv_nxt_lt, decide_eq_true_eq]
    exact ⟨h.follows.holds (by omega) (hblock.covered k (by omega) (by omega)), by omega⟩

/-- The header with a SACK option of the blocks behind the NOPs that align it, if there are any. -/
def Carries (tcpHeader tcpHeader' : TcpHeader) (blocks : List SackItem) : Prop :=
  (blocks = [] ∧ tcpHeader' = tcpHeader) ∨ (blocks ≠ [] ∧ ∃ nops, tcpHeader'.headerOption =
    tcpHeader.headerOption ++ List.replicate nops optionNop ++ [optionSack blocks])

/-- What a call has sent and what it has remembered. -/
structure Answers (base : Seq) (received : List (ℕ × ℕ)) (receiveQueue : ReceivedRanges)
    (state state' : SackState) (tcpHeader tcpHeader' : TcpHeader) (blocks : List SackItem) :
    Prop where
  fits : tcpHeader'.getHeaderOptionArrayLength ≤ 40
  carries : Carries tcpHeader tcpHeader' blocks
  /-- Only the first block can be a D-SACK block, and that is not remembered. -/
  blocks_eq : blocks = [] ∨ ∃ n, blocks = state.dsackBlocks ++ state'.sacks_array.take n
  truthful : ∀ sack ∈ state'.sacks_array, Truthful receiveQueue sack
  first : tcpHeader.getHeaderOptionArrayLength ≤ 30 → ReportsSegment base received state blocks

/-- A call returns, and it resets the flags. -/
theorem Remembers.exists_addSacks_eq_ok (h : Remembers base p received R state receiveQueue)
    (alignOptions : Bool) (hused : tcpHeader.getHeaderOptionArrayLength ≤ 40) :
    ∃ state' tcpHeader' blocks,
      state.addSacks alignOptions receiveQueue tcpHeader = .ok (state', tcpHeader') ∧
      Answers base received receiveQueue state state' tcpHeader tcpHeader' blocks ∧
      state'.rcv_nxt = state.rcv_nxt ∧ state'.start_seqno = state'.end_seqno ∧
      ∀ sack ∈ state'.sacks_array, Above base p R received sack := by
  obtain ⟨sacks, hdelete, hsacks⟩ :=
    exists_deleteOld_eq_ok h.blocks h.follows.not_covered h.follows.rcv_nxt_lt
  rw [← h.rcv_nxt_eq] at hdelete
  unfold addSacks
  dsimp only
  rw [hdelete, Error.ok_bind]
  by_cases hspace : tcpHeader.getHeaderOptionArrayLength > optionsMaxSize - optionSackMinSize
  · rw [if_pos hspace]
    unfold optionsMaxSize optionSackMinSize at hspace
    refine ⟨_, _, [], rfl, ⟨hused, Or.inl ⟨rfl, rfl⟩, Or.inl rfl, fun sack hsack =>
      h.truthful (hsacks sack hsack), fun hle => by omega⟩, rfl, rfl, hsacks⟩
  · rw [if_neg hspace]
    unfold optionsMaxSize optionSackMinSize at hspace
    obtain ⟨kept, hinsert, hkept, hfirst⟩ := h.exists_insertBlock_eq_ok hsacks
    rw [hinsert, Error.ok_bind]
    have htail : (if state.reportsDsack then (state.dsackBlocks ++ kept).tail
        else state.dsackBlocks ++ kept) = kept := by
      unfold dsackBlocks
      split_ifs <;> rfl
    have hne : ∀ sack ∈ state.dsackBlocks ++ kept, sack.start ≠ sack.stop := by
      intro sack hsack
      rcases List.mem_append.1 hsack with hsack | hsack
      · unfold dsackBlocks at hsack
        split_ifs at hsack with hreports
        · rw [List.mem_singleton.1 hsack]
          exact h.reportsDsack_ne hreports
        · cases hsack
      · exact (hkept sack hsack).start_ne_stop
    set n := min (state.dsackBlocks ++ kept).length
      ((optionsMaxSize - tcpHeader.getHeaderOptionArrayLength - 2) / 8) with hn
    have hmax : 0 < (optionsMaxSize - tcpHeader.getHeaderOptionArrayLength - 2) / 8 := by
      unfold optionsMaxSize
      omega
    rw [htail]
    by_cases hzero : n = 0
    · -- there is space for a block, but there is none
      have hnil : state.dsackBlocks ++ kept = [] := by
        apply List.length_eq_zero_iff.1
        omega
      obtain ⟨-, rfl⟩ := List.append_eq_nil_iff.1 hnil
      rw [if_pos hzero]
      exact ⟨_, _, [], rfl, ⟨hused, Or.inl ⟨rfl, rfl⟩, Or.inl rfl, by simp [resetFlags],
        fun _ => hfirst⟩, rfl, rfl, by simp [resetFlags]⟩
    · rw [if_neg hzero]
      have hlength : ((state.dsackBlocks ++ kept).take n).length ≤
          (optionsMaxSize - tcpHeader.getHeaderOptionArrayLength - 2) / 8 := by
        rw [List.length_take]
        omega
      obtain ⟨tcpHeader', nops, happend, hoption, hfits⟩ :=
        exists_appendSackOption_eq_ok alignOptions (not_lt.1 hspace) hlength
          fun sack hsack => hne sack (List.mem_of_mem_take hsack)
      rw [happend, Error.ok_bind]
      refine ⟨_, _, _, rfl, ⟨hfits, Or.inr ⟨?_, nops, hoption⟩,
        Or.inr ⟨n - state.dsackBlocks.length, ?_⟩, fun sack hsack => h.truthful (hkept sack hsack),
        fun _ => ?_⟩, rfl, rfl, hkept⟩
      · intro hnil
        have hlength := congrArg List.length hnil
        rw [List.length_take, List.length_nil] at hlength
        omega
      · rw [List.take_append, List.take_of_length_le]
        · rfl
        · unfold dsackBlocks
          split_ifs
          · rw [List.length_singleton]
            omega
          · exact Nat.zero_le _
      · intro s len received' heq hne' hreports hge
        obtain ⟨k₀, k₁, hhead, hbounds⟩ := hfirst s len received' heq hne' hreports hge
        have hnil : state.dsackBlocks = [] := by
          rw [dsackBlocks, hreports, if_neg Bool.false_ne_true]
        refine ⟨k₀, k₁, ?_, hbounds⟩
        rw [hnil, List.nil_append, List.head?_take, if_neg hzero, hhead]

theorem Reachable.exists_remembers (hp : p < 2 ^ 31)
    (h : Reachable base p state receiveQueue received) :
    ∃ R, Remembers base p received R state receiveQueue := by
  induction h with
  | init hrcv hsacks hflags =>
    exact ⟨p, follows_init base hp, hrcv, by simp [hsacks], fun hne => absurd hflags hne⟩
  | @insert state receiveQueue receiveQueue' received s len report ndebug _ hwindow hok hvalid ih =>
    obtain ⟨R, hremembers⟩ := ih
    obtain ⟨R', -, hfollows⟩ := hremembers.follows.exists_of_insert_eq_ok hwindow hok
    refine ⟨R', hfollows, hfollows.rcv_nxt_eq, fun sack hsack => ?_,
      fun _ => ⟨report, s, len, received, rfl, hvalid, rfl, rfl, rfl⟩⟩
    obtain ⟨a, b, hblock⟩ := hremembers.blocks sack hsack
    exact ⟨a, b, hblock.mono (s, len)⟩
  | @addSacks state state' receiveQueue received alignOptions tcpHeader tcpHeader' _ hused hok ih =>
    obtain ⟨R, hremembers⟩ := ih
    obtain ⟨_, _, _, hok', -, hrcv, hflags, habove⟩ :=
      hremembers.exists_addSacks_eq_ok alignOptions hused
    obtain ⟨rfl, rfl⟩ : _ = state' ∧ _ = tcpHeader' := by
      simpa using hok'.symm.trans hok
    refine ⟨R, hremembers.follows, hrcv.trans hremembers.rcv_nxt_eq, fun sack hsack => ?_,
      fun hne => absurd hflags hne⟩
    obtain ⟨a, b, hblock, -⟩ := habove sack hsack
    exact ⟨a, b, hblock⟩

/-- After every history of segments, whatever options a header has: no assertion fails, the options
fit, and the blocks are truthful. -/
theorem addSacks_truthful (hp : p < 2 ^ 31) (h : Reachable base p state receiveQueue received)
    (alignOptions : Bool) (hused : tcpHeader.getHeaderOptionArrayLength ≤ 40) :
    ∃ state' tcpHeader' blocks,
      state.addSacks alignOptions receiveQueue tcpHeader = .ok (state', tcpHeader') ∧
      Answers base received receiveQueue state state' tcpHeader tcpHeader' blocks := by
  obtain ⟨R, hremembers⟩ := h.exists_remembers hp
  obtain ⟨state', tcpHeader', blocks, hok, hanswers, -⟩ :=
    hremembers.exists_addSacks_eq_ok alignOptions hused
  exact ⟨state', tcpHeader', blocks, hok, hanswers⟩

section Example

/-- A connection near the end of the number range, before the first segment. -/
def initialState : SackState :=
  { rcv_nxt := 0xfffffffe
    start_seqno := 0
    end_seqno := 0
    snd_sack := false
    snd_dsack := false
    dsack_enabled := true
    sacks_array := []
    snd_sacks := 0 }

/-- The queue that holds four bytes behind a gap of four bytes. -/
def gapQueue : ReceivedRanges := ⟨0xfffffffe, [⟨0x100000002, 4⟩], 0xfffffffe⟩

/-- The header of an acknowledgement with a timestamp option. -/
def ackHeader : TcpHeader :=
  { srcPort := 0
    destPort := 0
    sequenceNo := 0
    ackNo := 0xfffffffe
    headerLength := 30
    cwrBit := false
    eceBit := false
    aeBit := false
    urgBit := false
    ackBit := true
    pshBit := false
    rstBit := false
    synBit := false
    finBit := false
    window := 0
    urgentPointer := 0
    checksum := 0
    checksumMode := .declaredCorrect
    headerOption := [⟨8, 10, .timestamp 0 0⟩] }

theorem reachable_gap : Reachable 0xfffffffe 0
    ((initialState.receive gapQueue 0xfffffffe ⟨4, 8, false⟩).receive gapQueue 0xfffffffe
      ⟨4, 8, true⟩) gapQueue [(4, 4), (4, 4)] := by
  have hfirst : Reachable 0xfffffffe 0
      (initialState.receive gapQueue 0xfffffffe ⟨4, 8, false⟩) gapQueue [(4, 4)] :=
    @Reachable.insert _ _ _ _ _ _ _ _ ⟨4, 8, false⟩ false (Reachable.init rfl rfl rfl) (by decide)
      rfl ⟨le_rfl, le_rfl, fun _ => ⟨rfl, rfl⟩, by simp⟩
  refine @Reachable.insert _ _ _ _ _ _ _ _ ⟨4, 8, true⟩ false hfirst (by decide) rfl
    ⟨le_rfl, le_rfl, by simp, ?_⟩
  intro _
  refine ⟨by decide, fun k h₀ h₁ => ⟨(4, 4), by simp, h₀, h₁⟩⟩

/-- The D-SACK block of the second segment and the block of the first one. -/
theorem addSacks_truthful_gap : ∃ state' tcpHeader' blocks,
    ((initialState.receive gapQueue 0xfffffffe ⟨4, 8, false⟩).receive gapQueue 0xfffffffe
      ⟨4, 8, true⟩).addSacks true gapQueue ackHeader = .ok (state', tcpHeader') ∧
    Answers 0xfffffffe [(4, 4), (4, 4)] gapQueue
      ((initialState.receive gapQueue 0xfffffffe ⟨4, 8, false⟩).receive gapQueue 0xfffffffe
        ⟨4, 8, true⟩) state' ackHeader tcpHeader' blocks :=
  addSacks_truthful (by decide) reachable_gap true (by decide)

end Example

end Inet.Tcp.SackState
