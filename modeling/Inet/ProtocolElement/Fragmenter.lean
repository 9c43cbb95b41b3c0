import Mathlib.Data.List.Nodup
import Inet.Common.Error

/-! # Fragmenters

A packet is cut into pieces that a policy chooses, and each piece is labelled
with its place in the packet, either by a header or by a tag.
-/

namespace Inet.Fragmentation

variable {η α : Type}

/-- The content of a packet as a sequence of its smallest parts. -/
structure Packet (α : Type) where
  name : String
  data : List α
  deriving DecidableEq, Repr

def Packet.peekDataAt (packet : Packet α) (offset length : ℕ) : Except Error (List α) := do
  checkUsage (offset ≤ packet.data.length) "offset is out of range"
  checkUsage (offset + length ≤ packet.data.length) "length is invalid"
  pure ((packet.data.drop offset).take length)

def Packet.insertAtBack (packet : Packet α) (chunk : List α) : Except Error (Packet α) := do
  checkUsage (0 < chunk.length) "chunk is empty"
  pure { packet with data := packet.data ++ chunk }

theorem checkUsage_of_pos {condition : Prop} [Decidable condition] {text : String}
    (h : condition) : (checkUsage condition text : Except Error Unit) = .ok () := if_pos h

theorem Packet.peekDataAt_eq {packet : Packet α} {offset length : ℕ}
    (h : offset + length ≤ packet.data.length) :
    packet.peekDataAt offset length = .ok ((packet.data.drop offset).take length) :=
  Error.bind_of_eq_ok (checkUsage_of_pos (by omega))
    (Error.bind_of_eq_ok (checkUsage_of_pos h) rfl)

theorem Packet.insertAtBack_eq {packet : Packet α} {chunk : List α} (h : chunk ≠ []) :
    packet.insertAtBack chunk = .ok { packet with data := packet.data ++ chunk } :=
  Error.bind_of_eq_ok (checkUsage_of_pos (List.length_pos_iff.2 h)) rfl

/-! ## Policies -/

/-- The lengths that `LengthBasedFragmenterPolicy` reads. -/
structure LengthBasedFragmenterPolicy where
  maxFragmentLength : ℕ
  fragmentHeaderLength : ℕ
  fragmentHeaderLength_lt : fragmentHeaderLength < maxFragmentLength

namespace LengthBasedFragmenterPolicy

variable (policy : LengthBasedFragmenterPolicy)

/-- The loop of `computeFragmentLengths` and the fragment after it. -/
def remainingFragmentLengths (remainingLength : ℕ) : List ℕ :=
  if policy.fragmentHeaderLength + remainingLength > policy.maxFragmentLength then
    (policy.maxFragmentLength - policy.fragmentHeaderLength) ::
      remainingFragmentLengths
        (remainingLength - (policy.maxFragmentLength - policy.fragmentHeaderLength))
  else if remainingLength ≠ 0 then [remainingLength] else []
termination_by remainingLength
decreasing_by
  have := policy.fragmentHeaderLength_lt
  omega

def computeFragmentLengths (dataLength : ℕ) : List ℕ :=
  if policy.maxFragmentLength ≥ dataLength then [dataLength]
  else policy.remainingFragmentLengths dataLength

variable {policy} {dataLength remainingLength : ℕ}

theorem remainingFragmentLengths_sum :
    (policy.remainingFragmentLengths remainingLength).sum = remainingLength := by
  induction remainingLength using Nat.strongRecOn with
  | ind remainingLength ih =>
    have := policy.fragmentHeaderLength_lt
    rw [remainingFragmentLengths]
    by_cases hmore : policy.fragmentHeaderLength + remainingLength > policy.maxFragmentLength
    · rw [if_pos hmore, List.sum_cons, ih _ (by omega)]
      omega
    · rw [if_neg hmore]
      by_cases hrest : remainingLength ≠ 0
      · simp [hrest]
      · simp [not_not.1 hrest]

theorem remainingFragmentLengths_pos {length : ℕ}
    (h : length ∈ policy.remainingFragmentLengths remainingLength) : 0 < length := by
  induction remainingLength using Nat.strongRecOn with
  | ind remainingLength ih =>
    have := policy.fragmentHeaderLength_lt
    rw [remainingFragmentLengths] at h
    by_cases hmore : policy.fragmentHeaderLength + remainingLength > policy.maxFragmentLength
    · rw [if_pos hmore] at h
      rcases List.mem_cons.1 h with rfl | h
      · omega
      · exact ih _ (by omega) h
    · rw [if_neg hmore] at h
      by_cases hrest : remainingLength ≠ 0
      · rw [if_pos hrest, List.mem_singleton] at h
        omega
      · simp [hrest] at h

/-- The pieces cover the packet. -/
theorem computeFragmentLengths_sum (policy : LengthBasedFragmenterPolicy) (dataLength : ℕ) :
    (policy.computeFragmentLengths dataLength).sum = dataLength := by
  rw [computeFragmentLengths]
  by_cases h : policy.maxFragmentLength ≥ dataLength
  · simp [h]
  · rw [if_neg h, remainingFragmentLengths_sum]

theorem computeFragmentLengths_pos (hdata : 0 < dataLength) {length : ℕ}
    (h : length ∈ policy.computeFragmentLengths dataLength) : 0 < length := by
  rw [computeFragmentLengths] at h
  by_cases hmax : policy.maxFragmentLength ≥ dataLength
  · rw [if_pos hmax, List.mem_singleton] at h
    omega
  · rw [if_neg hmax] at h
    exact remainingFragmentLengths_pos h

theorem computeFragmentLengths_ne_nil : policy.computeFragmentLengths dataLength ≠ [] := by
  intro h
  have hsum := computeFragmentLengths_sum policy dataLength
  rw [h] at hsum
  obtain rfl : 0 = dataLength := hsum
  simp [computeFragmentLengths] at h

end LengthBasedFragmenterPolicy

/-! ## Labels -/

structure FragmentNumberHeader where
  fragmentNumber : ℤ
  lastFragment : Bool
  deriving DecidableEq, Repr

/-- A `fragmentNumber` or `numFragments` of `-1` stands for an unspecified one. -/
structure FragmentTag where
  firstFragment : Bool := true
  lastFragment : Bool := true
  fragmentNumber : ℤ := 0
  numFragments : ℤ := 1
  deriving DecidableEq, Repr

/-- What a fragmenter puts on a fragment, and what the defragmenter of the same kind reads from
it. -/
structure Labelling (η : Type) where
  label : ℕ → ℕ → η
  firstFragment : η → Bool
  lastFragment : η → Bool
  /-- Whether a fragment is the one with the expected fragment number. -/
  expectedFragment : η → ℕ → Bool
  firstFragment_label : ∀ number total, firstFragment (label number total) = true ↔ number = 0
  lastFragment_label :
    ∀ number total, lastFragment (label number total) = true ↔ number + 1 = total
  expectedFragment_label : ∀ number total expectedFragmentNumber,
    expectedFragment (label number total) expectedFragmentNumber = true ↔
      number = expectedFragmentNumber

/-- `FragmentNumberHeaderBasedFragmenter` and `FragmentNumberHeaderBasedDefragmenter`. -/
def fragmentNumberHeaderBased : Labelling FragmentNumberHeader where
  label number total :=
    { fragmentNumber := number, lastFragment := decide ((number : ℤ) = total - 1) }
  firstFragment header := decide (header.fragmentNumber = 0)
  lastFragment header := header.lastFragment
  expectedFragment header expected := decide (header.fragmentNumber = expected)
  firstFragment_label := by simp
  lastFragment_label number total := by
    rw [decide_eq_true_iff]
    omega
  expectedFragment_label _ _ _ := by
    rw [decide_eq_true_iff]
    exact Int.natCast_inj

/-- `FragmentTagBasedFragmenter` and `FragmentTagBasedDefragmenter`. -/
def fragmentTagBased : Labelling FragmentTag where
  label number total :=
    { firstFragment := decide (number = 0)
      lastFragment := decide ((number : ℤ) = total - 1)
      fragmentNumber := number
      numFragments := total }
  firstFragment tag := tag.firstFragment
  lastFragment tag := tag.lastFragment
  expectedFragment tag expected :=
    decide (tag.fragmentNumber = -1) || decide (tag.fragmentNumber = expected)
  firstFragment_label := by simp
  lastFragment_label number total := by
    rw [decide_eq_true_iff]
    omega
  expectedFragment_label number total expected := by
    simp only [Bool.or_eq_true, decide_eq_true_iff]
    omega

/-! ## Fragments -/

/-- A fragment, its header popped or its tag taken from it. -/
structure Fragment (η α : Type) where
  label : η
  packet : Packet α
  deriving DecidableEq, Repr

def createFragmentPacket (labelling : Labelling η) (packet : Packet α)
    (fragmentOffset fragmentLength fragmentNumber numFragments : ℕ) :
    Except Error (Fragment η α) := do
  let fragmentData ← packet.peekDataAt fragmentOffset fragmentLength
  let fragmentPacket ←
    Packet.insertAtBack ⟨packet.name ++ "-frag" ++ toString fragmentNumber, []⟩ fragmentData
  pure ⟨labelling.label fragmentNumber numFragments, fragmentPacket⟩

/-- The loop of `FragmenterBase::pushPacket` from a fragment on. -/
def createFragmentPackets (labelling : Labelling η) (packet : Packet α) (numFragments : ℕ) :
    ℕ → ℕ → List ℕ → Except Error (List (Fragment η α))
  | _, _, [] => pure []
  | fragmentOffset, fragmentNumber, fragmentLength :: fragmentLengths => do
    let fragment ←
      createFragmentPacket labelling packet fragmentOffset fragmentLength fragmentNumber
        numFragments
    let fragments ← createFragmentPackets labelling packet numFragments
      (fragmentOffset + fragmentLength) (fragmentNumber + 1) fragmentLengths
    pure (fragment :: fragments)

/-- `FragmenterBase::pushPacket`: the fragments that are pushed. -/
def pushPacket (labelling : Labelling η) (policy : LengthBasedFragmenterPolicy)
    (packet : Packet α) : Except Error (List (Fragment η α)) :=
  let fragmentLengths := policy.computeFragmentLengths packet.data.length
  createFragmentPackets labelling packet fragmentLengths.length 0 0 fragmentLengths

/-- Fragments with successive numbers that end with the last one of a packet. -/
structure Numbered (labelling : Labelling η) (number total : ℕ)
    (fragments : List (Fragment η α)) : Prop where
  label_eq : fragments.map (·.label) =
    (List.range' number fragments.length).map (labelling.label · total)
  total_eq : number + fragments.length = total
  data_ne : ∀ fragment ∈ fragments, fragment.packet.data ≠ []

/-- The data of some fragments, one after the other. -/
def joinedData (fragments : List (Fragment η α)) : List α := fragments.flatMap (·.packet.data)

@[simp] theorem joinedData_nil : joinedData ([] : List (Fragment η α)) = [] := rfl

@[simp] theorem joinedData_cons (fragment : Fragment η α) (fragments : List (Fragment η α)) :
    joinedData (fragment :: fragments) = fragment.packet.data ++ joinedData fragments := by
  simp [joinedData]

@[simp] theorem joinedData_append (xs ys : List (Fragment η α)) :
    joinedData (xs ++ ys) = joinedData xs ++ joinedData ys := by
  simp [joinedData]

section PushPacket

variable {labelling : Labelling η} {policy : LengthBasedFragmenterPolicy} {packet : Packet α}
  {fragment : Fragment η α} {fragments : List (Fragment η α)} {number total offset : ℕ}

theorem Numbered.cons (h : Numbered labelling (number + 1) total fragments)
    (hlabel : fragment.label = labelling.label number total) (hdata : fragment.packet.data ≠ []) :
    Numbered labelling number total (fragment :: fragments) where
  label_eq := by simp [List.range'_succ, h.label_eq, hlabel]
  total_eq := by
    have := h.total_eq
    simp only [List.length_cons]
    omega
  data_ne := List.forall_mem_cons.2 ⟨hdata, h.data_ne⟩

theorem numbered_nil : Numbered labelling total total ([] : List (Fragment η α)) :=
  ⟨rfl, rfl, by simp⟩

theorem Numbered.head (h : Numbered labelling number total (fragment :: fragments)) :
    fragment.label = labelling.label number total ∧ fragment.packet.data ≠ [] ∧
      Numbered labelling (number + 1) total fragments := by
  have hlabel := h.label_eq
  simp only [List.map_cons, List.length_cons, List.range'_succ, List.cons.injEq] at hlabel
  have htotal := h.total_eq
  simp only [List.length_cons] at htotal
  obtain ⟨hdata, hrest⟩ := List.forall_mem_cons.1 h.data_ne
  exact ⟨hlabel.1, hdata, hlabel.2, by omega, hrest⟩

theorem createFragmentPacket_eq (labelling : Labelling η) (number total : ℕ) {length : ℕ}
    (hlength : 0 < length)
    (h : offset + length ≤ packet.data.length) :
    createFragmentPacket labelling packet offset length number total =
      .ok ⟨labelling.label number total,
        ⟨packet.name ++ "-frag" ++ toString number, (packet.data.drop offset).take length⟩⟩ := by
  apply Error.bind_of_eq_ok (Packet.peekDataAt_eq h)
  apply Error.bind_of_eq_ok (Packet.insertAtBack_eq ?_) rfl
  apply List.ne_nil_of_length_pos
  rw [List.length_take, List.length_drop]
  omega

theorem exists_createFragmentPackets (labelling : Labelling η) {lengths : List ℕ}
    (hpos : ∀ length ∈ lengths, 0 < length)
    (hsum : offset + lengths.sum = packet.data.length) (htotal : number + lengths.length = total) :
    ∃ fragments : List (Fragment η α),
      createFragmentPackets labelling packet total offset number lengths = .ok fragments ∧
        Numbered labelling number total fragments ∧ fragments.length = lengths.length ∧
        joinedData fragments = packet.data.drop offset := by
  induction lengths generalizing offset number with
  | nil =>
    refine ⟨[], rfl, ?_, rfl, ?_⟩
    · obtain rfl : number = total := by simpa using htotal
      exact numbered_nil
    · have hoffset : offset = packet.data.length := by simpa using hsum
      simp [hoffset]
  | cons length lengths ih =>
    obtain ⟨hlength, hpos⟩ := List.forall_mem_cons.1 hpos
    simp only [List.sum_cons] at hsum
    simp only [List.length_cons] at htotal
    have hsum' : offset + length + lengths.sum = packet.data.length := by omega
    have htotal' : number + 1 + lengths.length = total := by omega
    obtain ⟨fragments, heq, hnumbered, hlen, hdata⟩ := ih hpos hsum' htotal'
    have hend : offset + length ≤ packet.data.length := by omega
    have hfirst := createFragmentPacket_eq labelling number total hlength hend
    refine ⟨_ :: fragments, Error.bind_of_eq_ok hfirst (Error.bind_of_eq_ok heq rfl),
      hnumbered.cons rfl ?_, by simp [hlen], ?_⟩
    · apply List.ne_nil_of_length_pos
      simp only [List.length_take, List.length_drop]
      omega
    · rw [joinedData_cons, hdata, ← List.drop_drop, List.take_append_drop]

theorem exists_pushPacket (labelling : Labelling η) (policy : LengthBasedFragmenterPolicy)
    (h : packet.data ≠ []) :
    ∃ fragments : List (Fragment η α), pushPacket labelling policy packet = .ok fragments ∧
      Numbered labelling 0 fragments.length fragments ∧ fragments ≠ [] ∧
      joinedData fragments = packet.data := by
  have hpos := List.length_pos_iff.2 h
  have hsum : 0 + (policy.computeFragmentLengths packet.data.length).sum = packet.data.length := by
    rw [LengthBasedFragmenterPolicy.computeFragmentLengths_sum, Nat.zero_add]
  obtain ⟨fragments, heq, hnumbered, hlen, hdata⟩ := exists_createFragmentPackets labelling
    (fun _ => LengthBasedFragmenterPolicy.computeFragmentLengths_pos hpos) hsum (Nat.zero_add _)
  refine ⟨fragments, heq, by rwa [hlen], ?_, by simpa using hdata⟩
  apply List.ne_nil_of_length_pos
  rw [hlen]
  exact List.length_pos_iff.2 LengthBasedFragmenterPolicy.computeFragmentLengths_ne_nil

theorem pushPacket_of_nil (h : packet.data = []) :
    pushPacket labelling policy packet = .error (.runtime "Error: chunk is empty") := by
  simp [pushPacket, LengthBasedFragmenterPolicy.computeFragmentLengths, createFragmentPackets,
    createFragmentPacket, Packet.peekDataAt, Packet.insertAtBack, checkUsage, h, bind, Except.bind]

end PushPacket

end Inet.Fragmentation
