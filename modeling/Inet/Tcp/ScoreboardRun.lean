import Inet.Tcp.ScoreboardUpdate

/-! # Runs of the SACK retransmission queue

In every run the queue stands for a scoreboard with the flags of every
outstanding byte. Each operation changes the flags of the bytes that it is
about, and the totals are those of the scoreboard.
-/

namespace Inet.Tcp.TcpSackRexmitQueue

/-- The flags of the outstanding bytes. -/
def bytes (this : TcpSackRexmitQueue) : List Flags := bytesOf this.rexmitQueue

/-- The position of a sequence number in the window. -/
def offset (this : TcpSackRexmitQueue) (seqNum : Seq) : ℕ := (seqNum - this.bufferStartSeq).toNat

inductive Operation where
  | init (seqNum : Seq)
  | discardFrom (seqNum : Seq)
  | discardUpTo (seqNum : Seq) (sackEnabled : Option Bool)
  | enqueueSentData (fromSeqNum toSeqNum : Seq) (now : ℤ)
  | setSackedBit (fromSeqNum toSeqNum : Seq)
  | markHeadLost
  | resetLostBit
  | markLost (fromSeqNum toSeqNum : Seq)
  | resetSackedBit
  | resetRexmittedBit
  | addInferredSack
  | updateLost (reordering : ℤ)
  | clearRexmitted (fromSeqNum toSeqNum : Seq)
  | getLost (ndebug : Bool)
  | getSacked (ndebug : Bool)
  | getRetrans (ndebug : Bool)
  deriving DecidableEq, Repr

namespace Operation

def apply (this : TcpSackRexmitQueue) : Operation → Except Error TcpSackRexmitQueue
  | init seqNum => return this.init seqNum
  | discardFrom seqNum => this.discardFrom seqNum
  | discardUpTo seqNum sackEnabled => this.discardUpTo seqNum sackEnabled
  | enqueueSentData fromSeqNum toSeqNum now => this.enqueueSentData fromSeqNum toSeqNum now
  | setSackedBit fromSeqNum toSeqNum => do
    let (this, _) ← this.setSackedBit fromSeqNum toSeqNum
    return this
  | markHeadLost => this.markHeadLost
  | resetLostBit => return this.resetLostBit
  | markLost fromSeqNum toSeqNum => this.markLost fromSeqNum toSeqNum
  | resetSackedBit => return this.resetSackedBit
  | resetRexmittedBit => return this.resetRexmittedBit
  | addInferredSack => return this.addInferredSack
  | updateLost reordering => return this.updateLost reordering
  | clearRexmitted fromSeqNum toSeqNum => return this.clearRexmitted fromSeqNum toSeqNum
  | getLost ndebug => do
    let (this, _) ← this.getLost ndebug
    return this
  | getSacked ndebug => do
    let (this, _) ← this.getSacked ndebug
    return this
  | getRetrans ndebug => do
    let (this, _) ← this.getRetrans ndebug
    return this

/-- The arguments meet the `ASSERT`s on them, and the window stays small enough. -/
def Accepted (this : TcpSackRexmitQueue) : Operation → Prop
  | discardFrom seqNum | discardUpTo seqNum _ =>
    seqLE this.bufferStartSeq seqNum ∧ seqLE seqNum this.bufferEndSeq
  | enqueueSentData fromSeqNum toSeqNum _ =>
    seqLE this.bufferStartSeq fromSeqNum ∧ seqLE fromSeqNum this.bufferEndSeq ∧
      seqLess fromSeqNum toSeqNum ∧ this.offset toSeqNum < 2 ^ 31
  | setSackedBit fromSeqNum toSeqNum =>
    seqLess (this.clampFrom fromSeqNum) this.bufferEndSeq ∧
      seqLess this.bufferStartSeq toSeqNum ∧ seqLE toSeqNum this.bufferEndSeq ∧
      seqLess (this.clampFrom fromSeqNum) toSeqNum
  | markLost fromSeqNum toSeqNum =>
    seqLE toSeqNum (this.clampFrom fromSeqNum) ∨
      seqLess (this.clampFrom fromSeqNum) this.bufferEndSeq ∧ seqLE toSeqNum this.bufferEndSeq
  | markHeadLost => this.rexmitQueue ≠ []
  | _ => True

/-- What an operation does to the scoreboard. The flags that an operation on whole regions may
change are bounded here; which bytes share a region is not part of the scoreboard. -/
def Effect (this this' : TcpSackRexmitQueue) : Operation → Prop
  | init seqNum => this'.bufferStartSeq = seqNum ∧ this'.bytes = []
  | discardFrom seqNum => this'.bufferStartSeq = this.bufferStartSeq ∧
    this'.bytes = this.bytes.take (this.offset seqNum)
  | discardUpTo seqNum _ => this'.bufferStartSeq = seqNum ∧
    this'.bytes = this.bytes.drop (this.offset seqNum)
  | enqueueSentData fromSeqNum toSeqNum _ => this'.bufferStartSeq = this.bufferStartSeq ∧
    this'.bytes = overlay Flags.rexmit (this.offset fromSeqNum)
        (min (this.offset toSeqNum) this.bytes.length) this.bytes ++
      List.replicate (this.offset toSeqNum - this.bytes.length) Flags.fresh
  | setSackedBit fromSeqNum toSeqNum => this'.bufferStartSeq = this.bufferStartSeq ∧
    this'.bytes = overlay Flags.sack (this.offset (this.clampFrom fromSeqNum))
      (this.offset toSeqNum) this.bytes
  | markHeadLost => this'.bufferStartSeq = this.bufferStartSeq ∧
    List.Forall₂ (fun f f' => f' = f ∨ f' = { f with lost := true }) this.bytes this'.bytes
  | resetLostBit => this'.bufferStartSeq = this.bufferStartSeq ∧
    this'.bytes = this.bytes.map fun f => { f with lost := false }
  | markLost fromSeqNum toSeqNum => this'.bufferStartSeq = this.bufferStartSeq ∧
    this'.bytes = if seqLE toSeqNum (this.clampFrom fromSeqNum) then this.bytes
      else overlay Flags.lose (this.offset (this.clampFrom fromSeqNum)) (this.offset toSeqNum)
        this.bytes
  | resetSackedBit => this'.bufferStartSeq = this.bufferStartSeq ∧
    this'.bytes = this.bytes.map fun f => { f with sacked := false }
  | resetRexmittedBit => this'.bufferStartSeq = this.bufferStartSeq ∧
    this'.bytes = this.bytes.map fun f => { f with rexmitted := false }
  | addInferredSack => this'.bufferStartSeq = this.bufferStartSeq ∧
    List.Forall₂ Flags.Inferred this.bytes this'.bytes
  | updateLost _ => this'.bufferStartSeq = this.bufferStartSeq ∧
    List.Forall₂ (fun f f' => f' = f ∨ f' = f.lose) this.bytes this'.bytes
  | clearRexmitted _ _ => this'.bufferStartSeq = this.bufferStartSeq ∧
    List.Forall₂ (fun f f' => f' = f ∨ f.sacked = false ∧ f' = { f with rexmitted := false })
      this.bytes this'.bytes
  | getLost _ | getSacked _ | getRetrans _ => this'.bufferStartSeq = this.bufferStartSeq ∧
    this'.bytes = this.bytes

/-- The first byte that `discardUpTo` keeps is marked SACKed on a connection without SACK: the mark
was inferred from a duplicate ACK, and moves to a later segment. -/
def MovesMark (this : TcpSackRexmitQueue) : Operation → Prop
  | discardUpTo seqNum sackEnabled => sackEnabled = some false ∧
    ∃ f ∈ (this.bytes.drop (this.offset seqNum)).head?, f.sacked
  | _ => False

/-- The bytes of the first segment that is neither SACKed nor lost become SACKed, if there is
one. -/
def GivesMark (bytes bytes' : List Flags) : Prop :=
  (bytes' = bytes ∧ ∀ f ∈ bytes, f.sacked ∨ f.lost) ∨
  ∃ before n f behind, 0 < n ∧ (∀ f ∈ before, f.sacked ∨ f.lost) ∧ f.sacked = false ∧
    f.lost = false ∧ bytes = before ++ List.replicate n f ++ behind ∧
    bytes' = before ++ List.replicate n { f with sacked := true } ++ behind

/-- The mark is taken from the first segment that is left and given to a later one. -/
def Moved (this this' : TcpSackRexmitQueue) : Operation → Prop
  | discardUpTo seqNum _ => this'.bufferStartSeq = seqNum ∧
    ∃ n f rest rest', 0 < n ∧ f.sacked ∧
      this.bytes.drop (this.offset seqNum) = List.replicate n f ++ rest ∧
      this'.bytes = List.replicate n { f with sacked := false } ++ rest' ∧ GivesMark rest rest'
  | _ => False

/-- The accepted operations that are not one of two slips: a queue with regions is not initialized
again, which would keep them, and no range that is marked lost ends inside a region that is SACKed
and lost, the part of which would be marked not lost. -/
def Regular (this : TcpSackRexmitQueue) (op : Operation) : Prop :=
  op.Accepted this ∧ match op with
    | init _ => this.rexmitQueue = []
    | markLost _ toSeqNum => ∀ i ∈ this.rexmitQueue, i.lost = true → i.sacked = true →
      seqLess i.beginSeqNum toSeqNum → ¬ seqLess toSeqNum i.endSeqNum
    | _ => True

end Operation

/-- The states of the runs that begin with `init` and whose steps meet a condition. -/
inductive Reachable (P : TcpSackRexmitQueue → Operation → Prop) : TcpSackRexmitQueue → Prop
  | init (seqNum : Seq) : Reachable P (new.init seqNum)
  | step {this this' : TcpSackRexmitQueue} {op : Operation} :
    Reachable P this → P this op → op.apply this = .ok this' → Reachable P this'

/-- The totals of the scoreboard. -/
def Totals (this : TcpSackRexmitQueue) (lost sacked retrans : BitVec 32) : Prop :=
  lost.toNat = this.bytes.countP Flags.lost ∧ sacked.toNat = this.bytes.countP Flags.sacked ∧
    retrans.toNat = this.bytes.countP Flags.rexmitted

structure Valid (this : TcpSackRexmitQueue) : Prop where
  tiles : Tiles this.bufferStartSeq this.rexmitQueue this.bufferEndSeq
  length_lt : this.bytes.length < 2 ^ 31
  counters : this.countersValid → this.Totals this.lostBytes this.sackedBytes this.retransBytes

variable {this this' : TcpSackRexmitQueue} {seqNum fromSeqNum toSeqNum : Seq}

theorem add_offset (this : TcpSackRexmitQueue) (seqNum : Seq) :
    this.bufferStartSeq.add (this.offset seqNum) = seqNum := Seq.add_sub_toNat _ _

theorem Valid.end_eq (h : this.Valid) :
    this.bufferEndSeq = this.bufferStartSeq.add this.bytes.length := h.tiles.end_eq

theorem offset_lt (h : seqLE this.bufferStartSeq seqNum) : this.offset seqNum < 2 ^ 31 := by
  exact of_decide_eq_true h

theorem Valid.offset_le (h : this.Valid) (hs : seqLE this.bufferStartSeq seqNum)
    (he : seqLE seqNum this.bufferEndSeq) : this.offset seqNum ≤ this.bytes.length := by
  rw [← this.add_offset seqNum, h.end_eq, seqLE_add _ (offset_lt hs) h.length_lt] at he
  exact of_decide_eq_true he

theorem valid_of_tiles (ht : Tiles this.bufferStartSeq this.rexmitQueue this.bufferEndSeq)
    (hlen : this.bytes.length < 2 ^ 31) (hc : this.countersValid = false) : this.Valid :=
  ⟨ht, hlen, fun h => absurd h (by simp [hc])⟩

section Discard

theorem Valid.exists_discardFrom (h : this.Valid)
    (hacc : seqLE this.bufferStartSeq seqNum ∧ seqLE seqNum this.bufferEndSeq) :
    ∃ this', this.discardFrom seqNum = .ok this' ∧ this'.Valid ∧
      this'.bufferStartSeq = this.bufferStartSeq ∧
      this'.bytes = this.bytes.take (this.offset seqNum) := by
  have hn := h.offset_le hacc.1 hacc.2
  obtain ⟨rs, hrs, ht, hb⟩ := tiles_filterMap h.tiles h.length_lt hn
  rw [this.add_offset] at hrs ht
  unfold discardFrom
  dsimp only
  rw [assert, if_pos (by simpa [invalidateCounters] using hacc), pure_bind]
  refine ⟨_, checked_eq ?_, valid_of_tiles ?_ ?_ rfl, rfl, ?_⟩
  · exact hrs ▸ ht
  · exact hrs ▸ ht
  · change (bytesOf _).length < 2 ^ 31
    rw [invalidateCounters, hrs, hb, List.length_take]
    have := h.length_lt
    omega
  · change bytesOf _ = _
    rw [invalidateCounters, hrs, hb]
    rfl

theorem moveInferredSack_bufferEndSeq (this : TcpSackRexmitQueue) :
    this.moveInferredSack.bufferEndSeq = this.bufferEndSeq := by
  unfold moveInferredSack addInferredSack
  split
  · rfl
  · split_ifs <;> rfl

theorem moveInferredSack_countersValid (h : this.countersValid = false) :
    this.moveInferredSack.countersValid = false := by
  unfold moveInferredSack addInferredSack
  split
  · exact h
  · split_ifs
    · rfl
    · exact h

theorem moveInferredSack_eq (h : ∀ i ∈ this.rexmitQueue.head?, ¬ i.sacked) :
    this.moveInferredSack = this := by
  unfold moveInferredSack
  split
  · rfl
  · next head regions heq => rw [if_neg (h head (by simp [heq]))]

theorem relabels_moveInferredSack (this : TcpSackRexmitQueue) :
    Relabels (fun f f' => f'.lost = f.lost ∧ f'.rexmitted = f.rexmitted) this.rexmitQueue
      this.moveInferredSack.rexmitQueue := by
  unfold moveInferredSack
  split
  · next heq => exact heq ▸ List.Forall₂.nil
  · next head regions heq =>
    rw [heq]
    split_ifs with hs
    · refine List.Forall₂.cons ⟨rfl, rfl, rfl, rfl⟩ ?_
      refine List.Forall₂.imp ?_ (relabels_sackFirst regions)
      rintro i j ⟨hb, he, hf | ⟨-, -, hf⟩⟩
      · exact ⟨hb, he, hf ▸ ⟨rfl, rfl⟩⟩
      · exact ⟨hb, he, hf ▸ ⟨rfl, rfl⟩⟩
    · rw [heq]
      exact Relabels.refl (fun _ => ⟨rfl, rfl⟩) _

theorem givesMark_sackFirst {b e : Seq} {regions : List Region} (h : Tiles b regions e) :
    Operation.GivesMark (bytesOf regions) (bytesOf (sackFirst regions)) := by
  induction regions generalizing b with
  | nil => exact Or.inl ⟨rfl, by simp⟩
  | cons i regions ih =>
    have hpos := length_pos_of_seqLess h.2.1
    rw [sackFirst, bytesOf_cons]
    split_ifs with hi
    · have hbytes : ∀ f ∈ i.bytes, f.sacked ∨ f.lost := by
        intro f hf
        rw [List.eq_of_mem_replicate hf]
        exact (Bool.or_eq_true _ _).mp hi
      rw [bytesOf_cons]
      rcases ih h.2.2 with ⟨heq, hall⟩ | ⟨before, n, f, behind, hn, hbefore, hs, hl, heq, heq'⟩
      · exact Or.inl ⟨by rw [heq], fun f hf => (List.mem_append.1 hf).elim (hbytes f) (hall f)⟩
      · refine Or.inr ⟨i.bytes ++ before, n, f, behind, hn, fun f hf => ?_, hs, hl, ?_, ?_⟩
        · exact (List.mem_append.1 hf).elim (hbytes f) (hbefore f)
        · rw [heq]
          simp only [List.append_assoc]
        · rw [heq']
          simp only [List.append_assoc]
    · rw [Bool.or_eq_true, not_or, Bool.not_eq_true, Bool.not_eq_true] at hi
      exact Or.inr ⟨[], i.length, i.flags, bytesOf regions, hpos.1, by simp, hi.1, hi.2, rfl, rfl⟩

theorem moved_moveInferredSack {b e : Seq} (h : Tiles b this.rexmitQueue e)
    (hs : ∃ i ∈ this.rexmitQueue.head?, i.sacked) :
    ∃ n f rest rest', 0 < n ∧ f.sacked ∧ bytesOf this.rexmitQueue = List.replicate n f ++ rest ∧
      bytesOf this.moveInferredSack.rexmitQueue =
        List.replicate n { f with sacked := false } ++ rest' ∧ Operation.GivesMark rest rest' := by
  obtain ⟨head, hhead, hs⟩ := hs
  cases hq : this.rexmitQueue with
  | nil =>
    rw [hq] at hhead
    cases hhead
  | cons i regions =>
    rw [hq] at hhead h
    obtain rfl : i = head := Option.some.inj hhead
    have hpos := length_pos_of_seqLess h.2.1
    refine ⟨i.length, i.flags, _, _, hpos.1, hs, rfl, ?_, givesMark_sackFirst h.2.2⟩
    rw [moveInferredSack, hq]
    dsimp only
    rw [if_pos hs]
    rfl

theorem Tiles.head_bytesOf {b e : Seq} {regions : List Region} (h : Tiles b regions e) :
    (bytesOf regions).head? = regions.head?.map Region.flags := by
  cases regions with
  | nil => rfl
  | cons r regions =>
    have hpos := length_pos_of_seqLess h.2.1
    rw [bytesOf_cons, Region.bytes, List.head?_append, List.head?_replicate, if_neg (by omega)]
    rfl

theorem Valid.exists_discardUpTo (h : this.Valid) (sackEnabled : Option Bool)
    (hacc : seqLE this.bufferStartSeq seqNum ∧ seqLE seqNum this.bufferEndSeq) :
    ∃ this', this.discardUpTo seqNum sackEnabled = .ok this' ∧ this'.Valid ∧
      (¬ (Operation.discardUpTo seqNum sackEnabled).MovesMark this →
        (Operation.discardUpTo seqNum sackEnabled).Effect this this') ∧
      ((Operation.discardUpTo seqNum sackEnabled).MovesMark this →
        (Operation.discardUpTo seqNum sackEnabled).Moved this this') := by
  have hn := h.offset_le hacc.1 hacc.2
  obtain ⟨rs, hrs, ht, hb⟩ := exists_discardRegions h.tiles h.length_lt hn
  rw [this.add_offset] at hrs ht
  have hlen : (bytesOf rs).length < 2 ^ 31 := by
    have hall := h.length_lt
    rw [hb, List.length_drop]
    change this.bytes.length - _ < _
    omega
  unfold discardUpTo
  dsimp only
  rw [assert, if_pos (by simpa [invalidateCounters] using hacc), pure_bind]
  have hq : this.invalidateCounters.rexmitQueue = this.rexmitQueue := rfl
  rw [hq, hrs, Error.ok_bind]
  generalize hmid : ({ this.invalidateCounters with rexmitQueue := rs, xmitSegmentStarts := _ } :
    TcpSackRexmitQueue) = mid
  have hmidq : mid.rexmitQueue = rs := by rw [← hmid]
  have hmide : mid.bufferEndSeq = this.bufferEndSeq := by rw [← hmid]; rfl
  have hmidc : mid.countersValid = false := by rw [← hmid]; rfl
  by_cases hmove : sackEnabled = some false
  · have hrel := relabels_moveInferredSack mid
    rw [hmidq] at hrel
    have htm : Tiles seqNum mid.moveInferredSack.rexmitQueue mid.moveInferredSack.bufferEndSeq := by
      rw [moveInferredSack_bufferEndSeq, hmide]
      exact hrel.tiles ht
    have hbm := hrel.bytes
    rw [hb] at hbm
    rw [if_pos hmove]
    refine ⟨_, checked_eq htm, valid_of_tiles htm ?_ (moveInferredSack_countersValid hmidc), ?_, ?_⟩
    · change (bytesOf mid.moveInferredSack.rexmitQueue).length < 2 ^ 31
      rw [← hbm.length_eq, ← hb]
      exact hlen
    · intro hstay
      have hsame : mid.moveInferredSack = mid := by
        refine moveInferredSack_eq fun i hi hs => hstay ⟨hmove, i.flags, ?_, hs⟩
        rw [hmidq] at hi
        rw [show this.bytes.drop (this.offset seqNum) = bytesOf rs from hb.symm, ht.head_bytesOf]
        exact Option.mem_map_of_mem _ hi
      refine ⟨rfl, ?_⟩
      change bytesOf mid.moveInferredSack.rexmitQueue = _
      rw [hsame, hmidq, hb]
      rfl
    · rintro ⟨-, f, hf, hs⟩
      rw [show this.bytes.drop (this.offset seqNum) = bytesOf rs from hb.symm,
        ht.head_bytesOf] at hf
      obtain ⟨i, hi, rfl⟩ := Option.map_eq_some_iff.1 hf
      have hmoved := @moved_moveInferredSack mid _ _ (hmidq ▸ ht) ⟨i, by rwa [hmidq], hs⟩
      rw [hmidq, hb] at hmoved
      exact ⟨rfl, hmoved⟩
  · rw [if_neg hmove]
    have htm : Tiles seqNum mid.rexmitQueue mid.bufferEndSeq := by
      rw [hmidq, hmide]
      exact ht
    refine ⟨_, checked_eq htm, valid_of_tiles htm ?_ hmidc, fun _ => ⟨rfl, ?_⟩,
      fun hmoves => absurd hmoves.1 hmove⟩
    · change (bytesOf mid.rexmitQueue).length < 2 ^ 31
      rwa [hmidq]
    · change bytesOf mid.rexmitQueue = _
      rw [hmidq, hb]
      rfl

end Discard

section Enqueue

theorem setBounds_eq {b e : Seq} (ht : Tiles b this.rexmitQueue e) (hne : this.rexmitQueue ≠ []) :
    this.setBounds = .ok { this with bufferStartSeq := b, bufferEndSeq := e } := by
  have hlast := ht.last_eq
  unfold setBounds
  cases hq : this.rexmitQueue with
  | nil => exact absurd hq hne
  | cons r regions =>
    rw [hq] at hlast ht
    rw [List.getLast?_eq_some_getLast (by simp)] at hlast ⊢
    rw [List.head?_cons]
    change Except.ok _ = _
    rw [show r.beginSeqNum = b from ht.1, ← hlast]
    rfl

theorem Valid.exists_setBounds (h : this.Valid) {q : TcpSackRexmitQueue} (now : ℤ)
    (hwindow : this.offset toSeqNum < 2 ^ 31)
    (hnm : this.offset fromSeqNum < this.offset toSeqNum) (hqc : q.countersValid = false)
    (ht : Tiles this.bufferStartSeq q.rexmitQueue
      (this.bufferStartSeq.add (max (this.offset toSeqNum) this.bytes.length)))
    (hb : bytesOf q.rexmitQueue = overlay Flags.rexmit (this.offset fromSeqNum)
        (min (this.offset toSeqNum) this.bytes.length) this.bytes ++
      List.replicate (this.offset toSeqNum - this.bytes.length) Flags.fresh) :
    ∃ this', (do (← q.setBounds).checked) = .ok this' ∧ this'.Valid ∧
      (Operation.enqueueSentData fromSeqNum toSeqNum now).Effect this this' := by
  have hlen := h.length_lt
  have hqlen : (bytesOf q.rexmitQueue).length = max (this.offset toSeqNum) this.bytes.length := by
    rw [hb, List.length_append, List.length_replicate, overlay]
    simp only [List.length_append, List.length_take, List.length_map, List.length_drop]
    omega
  have hqnil : q.rexmitQueue ≠ [] := by
    intro hnil
    rw [hnil, bytesOf_nil, List.length_nil] at hqlen
    omega
  rw [setBounds_eq ht hqnil, Error.ok_bind]
  refine ⟨_, checked_eq ht, valid_of_tiles ht ?_ hqc, rfl, hb⟩
  change (bytesOf q.rexmitQueue).length < 2 ^ 31
  omega

theorem Valid.exists_enqueueSentData (h : this.Valid) (now : ℤ)
    (hacc : (Operation.enqueueSentData fromSeqNum toSeqNum now).Accepted this) :
    ∃ this', this.enqueueSentData fromSeqNum toSeqNum now = .ok this' ∧ this'.Valid ∧
      (Operation.enqueueSentData fromSeqNum toSeqNum now).Effect this this' := by
  obtain ⟨hbegin, hend, hless, hwindow⟩ := hacc
  have hn := h.offset_le hbegin hend
  have hlen := h.length_lt
  have hnm : this.offset fromSeqNum < this.offset toSeqNum := by
    have hl := hless
    rw [← this.add_offset fromSeqNum, ← this.add_offset toSeqNum,
      seqLess_add _ (offset_lt hbegin) hwindow] at hl
    exact of_decide_eq_true hl
  unfold enqueueSentData
  dsimp only
  rw [assert, if_pos (by simpa [invalidateCounters] using ⟨hbegin, hend⟩), pure_bind, assert,
    if_pos hless, pure_bind]
  rcases Nat.eq_or_lt_of_le hn with hn | hn
  · -- the data goes behind the queue
    have heq : this.bufferEndSeq = fromSeqNum := by rw [h.end_eq, ← hn, this.add_offset]
    have hto : toSeqNum = fromSeqNum.add (this.offset toSeqNum - this.bytes.length) := by
      rw [← heq, h.end_eq, Seq.add_add, Nat.add_sub_cancel' (by omega), this.add_offset]
    rw [if_pos (by simp [invalidateCounters, heq]), pure_bind]
    refine h.exists_setBounds now hwindow hnm rfl ?_ ?_
    · rw [Nat.max_eq_left (by omega), this.add_offset]
      exact tiles_append.2 ⟨_, heq ▸ h.tiles, rfl, hless, rfl⟩
    · rw [Nat.min_eq_right (by omega), hn, overlay_append, List.take_length, List.drop_length,
        List.map_nil, List.append_nil, bytesOf_append]
      nth_rewrite 1 [hto]
      rw [bytesOf_sentRegion (by omega)]
      rfl
  · have hne : this.bufferEndSeq ≠ fromSeqNum := by
      rw [h.end_eq, ← this.add_offset fromSeqNum, Ne, Seq.add_inj _ hlen (offset_lt hbegin)]
      omega
    have hnil : this.rexmitQueue ≠ [] := by
      intro hq
      simp [bytes, hq] at hn
    obtain ⟨rs, hrs, ht, hb⟩ := exists_enqueueRegions now h.tiles hlen hn hnm hwindow
    rw [this.add_offset, this.add_offset] at hrs
    have hq : this.invalidateCounters.rexmitQueue = this.rexmitQueue := rfl
    rw [if_neg (by simp [invalidateCounters, hne, hnil]), hq, hrs, Error.ok_bind, pure_bind]
    exact h.exists_setBounds now hwindow hnm rfl ht hb

end Enqueue

section Mark

theorem Valid.clampFrom_lt (h : this.Valid)
    (hless : seqLess (this.clampFrom fromSeqNum) this.bufferEndSeq) :
    this.offset (this.clampFrom fromSeqNum) < this.bytes.length := by
  have hlen := h.length_lt
  have hb := this.bufferStartSeq.isLt
  have hf := fromSeqNum.isLt
  rw [h.end_eq] at hless
  unfold clampFrom at hless ⊢
  split_ifs at hless ⊢ with hlow
  · simp only [offset, seqLess, decide_eq_true_eq, BitVec.toNat_sub, Seq.toNat_add, Ne,
      BitVec.toNat_eq] at hless ⊢
    omega
  · simp only [offset, seqLess, decide_eq_true_eq, BitVec.toNat_sub, Seq.toNat_add, Ne,
      BitVec.toNat_eq] at hless hlow ⊢
    omega

theorem Valid.exists_setSackedBit (h : this.Valid)
    (hacc : (Operation.setSackedBit fromSeqNum toSeqNum).Accepted this) :
    ∃ this', (Operation.setSackedBit fromSeqNum toSeqNum).apply this = .ok this' ∧ this'.Valid ∧
      (Operation.setSackedBit fromSeqNum toSeqNum).Effect this this' := by
  obtain ⟨hfrom, hbegin, hend, hless⟩ := hacc
  have hn := h.clampFrom_lt hfrom
  have hlen := h.length_lt
  have hbegin' : seqLE this.bufferStartSeq toSeqNum = true := by
    simp only [seqLess, seqLE, decide_eq_true_eq] at hbegin ⊢
    exact hbegin.2
  have hm := h.offset_le hbegin' hend
  have hnm : this.offset (this.clampFrom fromSeqNum) < this.offset toSeqNum := by
    have hl := hless
    rw [← this.add_offset (this.clampFrom fromSeqNum), ← this.add_offset toSeqNum,
      seqLess_add _ (by omega) (by omega)] at hl
    exact of_decide_eq_true hl
  have hnil : this.rexmitQueue ≠ [] := by
    intro hq
    simp [bytes, hq] at hn
  have hc : Changes sack Flags.sack := ⟨fun _ => rfl, fun _ => rfl, fun _ => rfl⟩
  obtain ⟨xs, ys, hsplit, -⟩ := exists_splitRegions h.tiles hlen hn
  obtain ⟨rs, hrs, ht, hb⟩ := exists_changeRegions sack hc hc.begin_eq hc.end_eq h.tiles hlen hnm
    hm fun i _ _ _ r hr => by rw [hc.flags_eq, hr]
  rw [this.add_offset] at hsplit hrs
  rw [this.add_offset] at hrs
  have hrun : this.setSackedBit fromSeqNum toSeqNum = .ok ({ this.invalidateCounters with
      rexmitQueue := rs }, newlySacked (this.clampFrom fromSeqNum) toSeqNum ys) := by
    unfold setSackedBit
    dsimp only
    have hclamp : this.invalidateCounters.clampFrom fromSeqNum = this.clampFrom fromSeqNum := rfl
    have hq : this.invalidateCounters.rexmitQueue = this.rexmitQueue := rfl
    rw [hclamp, assert, if_pos (by exact hfrom), pure_bind, assert,
      if_pos (by simpa [invalidateCounters] using ⟨hbegin, hend⟩), pure_bind, assert, if_pos hless,
      pure_bind, if_neg (by simp [hq, hnil]), hq, hsplit, Error.ok_bind]
    dsimp only
    rw [hrs, Error.ok_bind, checked_eq (by exact ht)]
    rfl
  have hbytes : bytesOf rs = overlay Flags.sack (this.offset (this.clampFrom fromSeqNum))
      (this.offset toSeqNum) this.bytes := hb
  rw [Operation.apply, hrun, Error.ok_bind]
  refine ⟨_, rfl, valid_of_tiles ht ?_ rfl, rfl, hbytes⟩
  change (bytesOf rs).length < 2 ^ 31
  rw [hbytes, overlay]
  simp only [List.length_append, List.length_take, List.length_map, List.length_drop]
  omega

theorem Valid.exists_markLost (h : this.Valid)
    (hreg : (Operation.markLost fromSeqNum toSeqNum).Regular this) :
    ∃ this', this.markLost fromSeqNum toSeqNum = .ok this' ∧ this'.Valid ∧
      (Operation.markLost fromSeqNum toSeqNum).Effect this this' := by
  obtain ⟨hacc, hslip⟩ := hreg
  have hlen := h.length_lt
  have hclamp : this.invalidateCounters.clampFrom fromSeqNum = this.clampFrom fromSeqNum := rfl
  unfold markLost Operation.Effect
  dsimp only
  rw [hclamp]
  by_cases hle : seqLE toSeqNum (this.clampFrom fromSeqNum)
  · rw [if_pos hle, if_pos hle]
    exact ⟨_, rfl, valid_of_tiles h.tiles hlen rfl, rfl, rfl⟩
  · obtain ⟨hfrom, hend⟩ := hacc.resolve_left hle
    have hn := h.clampFrom_lt hfrom
    have hbounds : this.offset (this.clampFrom fromSeqNum) < this.offset toSeqNum ∧
        this.offset toSeqNum ≤ this.bytes.length := by
      have hb := this.bufferStartSeq.isLt
      have hf := (this.clampFrom fromSeqNum).isLt
      have ht := toSeqNum.isLt
      rw [h.end_eq] at hend
      simp only [offset, seqLE, decide_eq_true_eq, BitVec.toNat_sub, Seq.toNat_add]
        at hend hle hn ⊢
      omega
    obtain ⟨hnm, hm⟩ := hbounds
    have hnil : this.rexmitQueue ≠ [] := by
      intro hq
      simp [bytes, hq] at hn
    have hc : Changes (fun i : Region => if !i.sacked then { i with lost := true } else i)
        Flags.lose := by
      refine ⟨fun r => ?_, fun r => ?_, fun r => ?_⟩
      · split_ifs <;> rfl
      · split_ifs <;> rfl
      · cases hs : r.sacked <;> simp [Region.flags, Flags.lose, hs]
    have hpart : ∀ i ∈ this.rexmitQueue, seqLess i.beginSeqNum toSeqNum →
        seqLess toSeqNum i.endSeqNum → ∀ r : Region, r.flags = i.flags →
          Region.flags { r with lost := !r.sacked } = Flags.lose i.flags := by
      intro i hi hlow hhigh r hr
      have hboth : ¬ (i.lost = true ∧ i.sacked = true) := fun hb =>
        hslip i hi hb.1 hb.2 hlow hhigh
      rw [← hr, Flags.lose]
      rw [Region.flags, Region.flags, Flags.mk.injEq] at hr
      rw [← hr.1, ← hr.2.1] at hboth
      cases hs : r.sacked <;> simp_all [Region.flags]
    rw [← this.add_offset toSeqNum] at hpart
    obtain ⟨rs, hrs, ht, hb⟩ := exists_changeRegions
      (fun region => { region with lost := !region.sacked }) hc (fun _ => rfl)
      (fun _ => rfl) h.tiles hlen hnm hm hpart
    rw [this.add_offset, this.add_offset] at hrs
    have hbytes : bytesOf rs = overlay Flags.lose (this.offset (this.clampFrom fromSeqNum))
      (this.offset toSeqNum) this.bytes := hb
    have hq : this.invalidateCounters.rexmitQueue = this.rexmitQueue := rfl
    rw [if_neg hle, assert, if_pos (by exact hfrom), pure_bind, assert, if_pos (by exact hend),
      pure_bind, if_neg (by simp [hq, hnil]), hq, hrs, Error.ok_bind, checked_eq (by exact ht),
      if_neg hle]
    refine ⟨_, rfl, valid_of_tiles ht ?_ rfl, rfl, hbytes⟩
    change (bytesOf rs).length < 2 ^ 31
    rw [hbytes, overlay]
    simp only [List.length_append, List.length_take, List.length_map, List.length_drop]
    omega

theorem Valid.relabel (h : this.Valid) {R : Flags → Flags → Prop} {rs : List Region}
    (hrel : Relabels R this.rexmitQueue rs) :
    Valid { this.invalidateCounters with rexmitQueue := rs } ∧
      List.Forall₂ R this.bytes (bytesOf rs) := by
  refine ⟨valid_of_tiles (hrel.tiles h.tiles) ?_ rfl, hrel.bytes⟩
  change (bytesOf rs).length < 2 ^ 31
  rw [← hrel.bytes.length_eq]
  exact h.length_lt

theorem Valid.map (h : this.Valid) {change : Region → Region} {g : Flags → Flags}
    (hc : Changes change g) :
    Valid { this.invalidateCounters with rexmitQueue := this.rexmitQueue.map change } ∧
      bytesOf (this.rexmitQueue.map change) = this.bytes.map g := by
  refine ⟨valid_of_tiles (tiles_map hc.begin_eq hc.end_eq h.tiles) ?_ rfl, hc.bytesOf_map⟩
  change (bytesOf _).length < 2 ^ 31
  rw [hc.bytesOf_map, List.length_map]
  exact h.length_lt

theorem relabels_markHeadLost (head : Region) (regions : List Region) :
    Relabels (fun f f' => f' = f ∨ f' = { f with lost := true }) (head :: regions)
      ({ head with lost := true } :: regions) := by
  refine List.Forall₂.cons ⟨rfl, rfl, Or.inr rfl⟩ ?_
  exact Relabels.refl (R := fun f f' => f' = f ∨ f' = { f with lost := true })
    (fun _ => Or.inl rfl) regions

end Mark

section Count

theorem Valid.toNat_sumLengths (h : this.Valid) {flag : Region → Bool} {q : Flags → Bool}
    (hq : ∀ r, flag r = q r.flags) :
    (sumLengths flag this.rexmitQueue).toNat = this.bytes.countP q := by
  have hle : this.bytes.countP q ≤ this.bytes.length := List.countP_le_length
  have hlen := h.length_lt
  rw [sumLengths_eq hq, BitVec.toNat_ofNat]
  change this.bytes.countP q % _ = _
  omega

theorem Valid.totals (h : this.Valid) :
    this.Totals (sumLengths Region.lost this.rexmitQueue)
      (sumLengths Region.sacked this.rexmitQueue) (sumLengths Region.rexmitted this.rexmitQueue) :=
  ⟨h.toNat_sumLengths fun _ => rfl, h.toNat_sumLengths fun _ => rfl,
    h.toNat_sumLengths fun _ => rfl⟩

theorem Valid.exists_updateCounters (h : this.Valid) (ndebug : Bool) :
    ∃ this', updateCounters ndebug this = .ok this' ∧ this'.Valid ∧
      this'.bufferStartSeq = this.bufferStartSeq ∧ this'.bytes = this.bytes ∧
      this.Totals this'.lostBytes this'.sackedBytes this'.retransBytes := by
  unfold updateCounters
  split_ifs with hvalid
  · exact ⟨_, rfl, h, rfl, rfl, h.counters (Bool.and_eq_true_iff.1 hvalid).2⟩
  · have hassert : (!this.countersValid || (sumLengths Region.lost this.rexmitQueue ==
        this.lostBytes && sumLengths Region.sacked this.rexmitQueue == this.sackedBytes &&
        sumLengths Region.rexmitted this.rexmitQueue == this.retransBytes)) = true := by
      cases hc : this.countersValid with
      | false => rfl
      | true =>
        obtain ⟨hl, hs, hr⟩ := h.counters hc
        obtain ⟨hl', hs', hr'⟩ := h.totals
        simp [BitVec.toNat_eq, hl, hs, hr, hl', hs', hr']
    dsimp only
    rw [assert, if_pos hassert, pure_bind]
    exact ⟨_, rfl, ⟨h.tiles, h.length_lt, fun _ => h.totals⟩, rfl, rfl, h.totals⟩

theorem Valid.exists_totals (h : this.Valid) (ndebug : Bool) :
    ∃ this' lost sacked retrans, this.getLost ndebug = .ok (this', lost) ∧
      this.getSacked ndebug = .ok (this', sacked) ∧
      this.getRetrans ndebug = .ok (this', retrans) ∧ this'.Valid ∧
      this'.bufferStartSeq = this.bufferStartSeq ∧ this'.bytes = this.bytes ∧
      this.Totals lost sacked retrans := by
  obtain ⟨this', hrun, hvalid, hstart, hbytes, htotals⟩ := h.exists_updateCounters ndebug
  refine ⟨this', _, _, _, ?_, ?_, ?_, hvalid, hstart, hbytes, htotals⟩
  · rw [getLost, hrun]
    rfl
  · rw [getSacked, hrun]
    rfl
  · rw [getRetrans, hrun]
    rfl

end Count

theorem Valid.exists_apply (h : this.Valid) {op : Operation} (hop : op.Regular this) :
    ∃ this', op.apply this = .ok this' ∧ this'.Valid ∧
      (¬ op.MovesMark this → op.Effect this this') ∧
      (op.MovesMark this → op.Moved this this') := by
  cases op with
  | init seqNum =>
    have hnil : this.rexmitQueue = [] := hop.2
    have hb : (this.init seqNum).bytes = [] := by
      rw [bytes, init, invalidateCounters, hnil]
      rfl
    refine ⟨_, rfl, valid_of_tiles ?_ ?_ rfl, fun _ => ⟨rfl, hb⟩, False.elim⟩
    · rw [init, invalidateCounters, hnil]
      rfl
    · rw [hb]
      exact Nat.two_pow_pos 31
  | discardFrom seqNum =>
    obtain ⟨this', hrun, hvalid, hstart, hbytes⟩ := h.exists_discardFrom hop.1
    exact ⟨this', hrun, hvalid, fun _ => ⟨hstart, hbytes⟩, False.elim⟩
  | discardUpTo seqNum sackEnabled =>
    obtain ⟨this', hrun, hvalid, heffect, hmoved⟩ := h.exists_discardUpTo sackEnabled hop.1
    exact ⟨this', hrun, hvalid, heffect, hmoved⟩
  | enqueueSentData fromSeqNum toSeqNum now =>
    obtain ⟨this', hrun, hvalid, heffect⟩ := h.exists_enqueueSentData now hop.1
    exact ⟨this', hrun, hvalid, fun _ => heffect, False.elim⟩
  | setSackedBit fromSeqNum toSeqNum =>
    obtain ⟨this', hrun, hvalid, heffect⟩ := h.exists_setSackedBit hop.1
    exact ⟨this', hrun, hvalid, fun _ => heffect, False.elim⟩
  | markHeadLost =>
    cases hq : this.rexmitQueue with
    | nil => exact absurd hq hop.1
    | cons head regions =>
      have hrel := relabels_markHeadLost head regions
      rw [← hq] at hrel
      obtain ⟨hvalid, hbytes⟩ := h.relabel hrel
      refine ⟨_, ?_, hvalid, fun _ => ⟨rfl, hbytes⟩, False.elim⟩
      rw [Operation.apply, markHeadLost, hq]
      rfl
  | resetLostBit =>
    have hc : Changes (fun i : Region => { i with lost := false })
      fun f => { f with lost := false } := ⟨fun _ => rfl, fun _ => rfl, fun _ => rfl⟩
    exact ⟨_, rfl, (h.map hc).1, fun _ => ⟨rfl, (h.map hc).2⟩, False.elim⟩
  | markLost fromSeqNum toSeqNum =>
    obtain ⟨this', hrun, hvalid, heffect⟩ := h.exists_markLost hop
    exact ⟨this', hrun, hvalid, fun _ => heffect, False.elim⟩
  | resetSackedBit =>
    have hc : Changes (fun i : Region => { i with sacked := false })
      fun f => { f with sacked := false } := ⟨fun _ => rfl, fun _ => rfl, fun _ => rfl⟩
    exact ⟨_, rfl, (h.map hc).1, fun _ => ⟨rfl, (h.map hc).2⟩, False.elim⟩
  | resetRexmittedBit =>
    have hc : Changes (fun i : Region => { i with rexmitted := false })
      fun f => { f with rexmitted := false } := ⟨fun _ => rfl, fun _ => rfl, fun _ => rfl⟩
    exact ⟨_, rfl, (h.map hc).1, fun _ => ⟨rfl, (h.map hc).2⟩, False.elim⟩
  | addInferredSack =>
    cases hq : this.rexmitQueue with
    | nil =>
      have hb : this.bytes = [] := by
        rw [bytes, hq]
        rfl
      refine ⟨this.invalidateCounters, ?_, valid_of_tiles h.tiles h.length_lt rfl,
        fun _ => ⟨rfl, ?_⟩, False.elim⟩
      · rw [Operation.apply, addInferredSack, show this.invalidateCounters.rexmitQueue = [] from hq]
        rfl
      · rw [show this.invalidateCounters.bytes = this.bytes from rfl, hb]
        exact List.Forall₂.nil
    | cons head regions =>
      have hrel : Relabels Flags.Inferred this.rexmitQueue (head :: sackFirst regions) := by
        rw [hq]
        exact List.Forall₂.cons ⟨rfl, rfl, Or.inl rfl⟩ (relabels_sackFirst regions)
      obtain ⟨hvalid, hbytes⟩ := h.relabel hrel
      refine ⟨_, ?_, hvalid, fun _ => ⟨rfl, hbytes⟩, False.elim⟩
      rw [Operation.apply, addInferredSack,
        show this.invalidateCounters.rexmitQueue = head :: regions from hq]
      rfl
  | updateLost reordering =>
    obtain ⟨hvalid, hbytes⟩ := h.relabel (relabels_updateLostRegions reordering this.rexmitQueue)
    exact ⟨_, rfl, hvalid, fun _ => ⟨rfl, hbytes⟩, False.elim⟩
  | clearRexmitted fromSeqNum toSeqNum =>
    obtain ⟨hvalid, hbytes⟩ :=
      h.relabel (relabels_clearRexmittedRegions fromSeqNum toSeqNum this.rexmitQueue)
    exact ⟨_, rfl, hvalid, fun _ => ⟨rfl, hbytes⟩, False.elim⟩
  | getLost ndebug =>
    obtain ⟨this', _, _, _, hl, -, -, hvalid, hstart, hbytes, -⟩ := h.exists_totals ndebug
    exact ⟨this', by rw [Operation.apply, hl]; rfl, hvalid, fun _ => ⟨hstart, hbytes⟩, False.elim⟩
  | getSacked ndebug =>
    obtain ⟨this', _, _, _, -, hs, -, hvalid, hstart, hbytes, -⟩ := h.exists_totals ndebug
    exact ⟨this', by rw [Operation.apply, hs]; rfl, hvalid, fun _ => ⟨hstart, hbytes⟩, False.elim⟩
  | getRetrans ndebug =>
    obtain ⟨this', _, _, _, -, -, hr, hvalid, hstart, hbytes, -⟩ := h.exists_totals ndebug
    exact ⟨this', by rw [Operation.apply, hr]; rfl, hvalid, fun _ => ⟨hstart, hbytes⟩, False.elim⟩

theorem Reachable.valid (h : Reachable (fun this op => op.Regular this) this) : this.Valid := by
  induction h with
  | init seqNum =>
    exact valid_of_tiles rfl (Nat.two_pow_pos 31) rfl
  | step _ hop hrun ih =>
    obtain ⟨this', hrun', hvalid, -⟩ := ih.exists_apply hop
    obtain rfl := Except.ok.inj (hrun.symm.trans hrun')
    exact hvalid

/-- In every run the queue is a scoreboard of the outstanding bytes, and its totals are those of the
scoreboard. On a connection without SACK the mark of the first byte that is left may move. -/
theorem Reachable.refines (h : Reachable (fun this op => op.Regular this) this) :
    this.checkQueue = true ∧
      (this.countersValid = true → this.Totals this.lostBytes this.sackedBytes this.retransBytes) ∧
      (∀ ndebug, ∃ this' lost sacked retrans, this.getLost ndebug = .ok (this', lost) ∧
        this.getSacked ndebug = .ok (this', sacked) ∧
        this.getRetrans ndebug = .ok (this', retrans) ∧ this.Totals lost sacked retrans) ∧
      ∀ op : Operation, op.Regular this → ∃ this', op.apply this = .ok this' ∧
        Reachable (fun this op => op.Regular this) this' ∧
        (¬ op.MovesMark this → op.Effect this this') ∧
        (op.MovesMark this → op.Moved this this') := by
  have hvalid := h.valid
  refine ⟨checkQueue_iff.2 hvalid.tiles, hvalid.counters, fun ndebug => ?_, fun op hop => ?_⟩
  · obtain ⟨this', lost, sacked, retrans, hl, hs, hr, -, -, -, htotals⟩ :=
      hvalid.exists_totals ndebug
    exact ⟨this', lost, sacked, retrans, hl, hs, hr, htotals⟩
  · obtain ⟨this', hrun, -, heffect, hmoved⟩ := hvalid.exists_apply hop
    exact ⟨this', hrun, h.step hop hrun, heffect, hmoved⟩

/-- A queue whose second segment is SACKed, across the end of the number range. -/
def sackedQueue : TcpSackRexmitQueue :=
  { rexmitQueue := [⟨4294967286, 0, false, false, false, false, 0, 0, 1⟩,
      ⟨0, 10, false, true, true, false, 0, 0, 1⟩]
    xmitSegmentStarts := [0, 4294967286]
    bufferStartSeq := 4294967286
    bufferEndSeq := 10
    countersValid := false
    lostBytes := 0
    sackedBytes := 0
    retransBytes := 0 }

theorem reachable_sackedQueue {P : TcpSackRexmitQueue → Operation → Prop}
    (h : ∀ this op, op.Regular this → P this op) : Reachable P sackedQueue := by
  have h₀ : Reachable P (new.init 4294967286) := Reachable.init _
  have h₁ := @Reachable.step P _ _ (.enqueueSentData 4294967286 0 0) h₀
    (h _ _ ⟨⟨rfl, rfl, rfl, by decide⟩, trivial⟩) rfl
  have h₂ := @Reachable.step P _ _ (.enqueueSentData 0 10 0) h₁
    (h _ _ ⟨⟨rfl, rfl, rfl, by decide⟩, trivial⟩) rfl
  exact @Reachable.step P _ _ (.setSackedBit 0 10) h₂ (h _ _ ⟨⟨rfl, rfl, rfl, rfl⟩, trivial⟩) rfl

theorem refines_sackedQueue :
    sackedQueue.checkQueue = true ∧ ∃ this', (Operation.discardUpTo 5 none).apply sackedQueue =
      .ok this' ∧ this'.bytes = sackedQueue.bytes.drop 15 := by
  have h := Reachable.refines (reachable_sackedQueue fun _ _ hop => hop)
  obtain ⟨this', hrun, -, heffect, -⟩ := h.2.2.2 (.discardUpTo 5 none) ⟨⟨rfl, rfl⟩, trivial⟩
  exact ⟨h.1, this', hrun, (heffect (by simp [Operation.MovesMark])).2⟩

/-- On a connection without SACK the mark of the segment behind the acknowledged one is taken away,
although its bytes are not discarded. -/
theorem exists_discardUpTo_not_effect :
    ∃ (this : TcpSackRexmitQueue) (op : Operation) (this' : TcpSackRexmitQueue),
    Reachable (fun this op => op.Accepted this) this ∧ op.Accepted this ∧
      op.apply this = .ok this' ∧ ¬ op.Effect this this' := by
  refine ⟨sackedQueue, .discardUpTo 0 (some false), _,
    reachable_sackedQueue fun _ _ hop => hop.1, ⟨rfl, rfl⟩, rfl, ?_⟩
  rintro ⟨-, hbytes⟩
  revert hbytes
  decide

end Inet.Tcp.TcpSackRexmitQueue
