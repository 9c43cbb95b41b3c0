import Inet.Lib.Transducer
import Inet.ProtocolElement.Fragmenter

/-! # Defragmenters

A defragmenter expects the next number of the packet that it assembles. Any
other fragment ends the packet and is thrown away itself, also when it is the
first one of the packet that follows. The packets that arrive whole are the
ones delivered as long as each begins while no packet is being assembled.
-/

namespace Inet.Fragmentation

variable {η α : Type}

/-- The part of a list before the first occurrence of a pattern. -/
def beforeFirst (pattern : List Char) : List Char → List Char
  | [] => []
  | c :: cs => if pattern.isPrefixOf (c :: cs) then [] else c :: beforeFirst pattern cs

/-- `deleteSelf` is off. -/
structure DefragmenterBase (α : Type) where
  expectedFragmentNumber : ℕ
  defragmentedPacket : Option (Packet α)
  deriving DecidableEq, Repr

namespace DefragmenterBase

/-- The state before the first fragment. -/
def initial : DefragmenterBase α := ⟨0, none⟩

variable (d : DefragmenterBase α)

def isDefragmenting : Bool := d.defragmentedPacket.isSome

def startDefragmentation (fragmentPacket : Packet α) : Except Error (DefragmenterBase α) := do
  assert (d.defragmentedPacket.isNone = true) "defragmentedPacket == nullptr"
  let name := String.ofList (beforeFirst "-frag".toList fragmentPacket.name.toList)
  pure { d with defragmentedPacket := some ⟨name, []⟩ }

def continueDefragmentation (fragmentPacket : Packet α) : Except Error (DefragmenterBase α) :=
  match d.defragmentedPacket with
  | none => throw (.undefinedBehavior "defragmentedPacket->insertAtBack")
  | some defragmentedPacket => do
    let defragmentedPacket ← defragmentedPacket.insertAtBack fragmentPacket.data
    pure
      { expectedFragmentNumber := d.expectedFragmentNumber + 1
        defragmentedPacket := some defragmentedPacket }

def endDefragmentation (_ : DefragmenterBase α) : DefragmenterBase α :=
  { expectedFragmentNumber := 0, defragmentedPacket := none }

/-- The packet that is pushed, if any, comes with the new state. -/
def defragmentPacket (fragmentPacket : Packet α)
    (firstFragment lastFragment expectedFragment : Bool) :
    Except Error (DefragmenterBase α × Option (Packet α)) :=
  if !expectedFragment then
    pure (if d.isDefragmenting then d.endDefragmentation else d, none)
  else do
    let d ← if firstFragment then d.startDefragmentation fragmentPacket else pure d
    let d ← d.continueDefragmentation fragmentPacket
    if lastFragment then pure (d.endDefragmentation, d.defragmentedPacket)
    else pure (d, none)

def pushPacket (labelling : Labelling η) (fragment : Fragment η α) :
    Except Error (DefragmenterBase α × Option (Packet α)) :=
  d.defragmentPacket fragment.packet (labelling.firstFragment fragment.label)
    (labelling.lastFragment fragment.label)
    (labelling.expectedFragment fragment.label d.expectedFragmentNumber)

/-- Fragments pushed one after the other, with the packet delivered by each call. -/
def pushPackets (labelling : Labelling η) :
    DefragmenterBase α → List (Fragment η α) →
      Except Error (DefragmenterBase α × List (Option (Packet α))) :=
  Transducer.run (fun d fragment => pushPacket d labelling fragment)

/-- Nothing is being assembled exactly when the first number is expected. -/
structure Proper : Prop where
  none_of_zero : d.expectedFragmentNumber = 0 → d.defragmentedPacket = none
  some_of_pos : 0 < d.expectedFragmentNumber → ∃ packet, d.defragmentedPacket = some packet

variable {d} {labelling : Labelling η} {fragment : Fragment η α} {packet : Packet α}
  {number total : ℕ}

theorem proper_initial : (initial : DefragmenterBase α).Proper :=
  ⟨fun _ => rfl, fun h => absurd h (Nat.lt_irrefl 0)⟩

theorem Proper.eq_initial (hd : d.Proper) (h : d.expectedFragmentNumber = 0) : d = initial := by
  have hpacket := hd.none_of_zero h
  cases d
  cases h
  cases hpacket
  rfl

theorem Proper.isDefragmenting_iff (hd : d.Proper) :
    d.isDefragmenting = true ↔ 0 < d.expectedFragmentNumber := by
  constructor
  · intro h
    by_contra hzero
    rw [isDefragmenting, hd.none_of_zero (by omega)] at h
    cases h
  · intro h
    obtain ⟨packet, hpacket⟩ := hd.some_of_pos h
    rw [isDefragmenting, hpacket]
    rfl

/-! ## One fragment -/

theorem pushPacket_unexpected (hd : d.Proper)
    (hlabel : fragment.label = labelling.label number total)
    (h : number ≠ d.expectedFragmentNumber) :
    d.pushPacket labelling fragment = .ok (initial, none) := by
  have hexpected : labelling.expectedFragment fragment.label d.expectedFragmentNumber = false := by
    rw [hlabel, Bool.eq_false_iff, Ne, labelling.expectedFragment_label]
    exact h
  rw [pushPacket, defragmentPacket, hexpected, Bool.not_false, if_pos rfl]
  by_cases hdef : d.isDefragmenting = true
  · rw [if_pos hdef]
    rfl
  · have hzero : d.expectedFragmentNumber = 0 :=
      Nat.eq_zero_of_not_pos (hd.isDefragmenting_iff.not.1 hdef)
    rw [if_neg hdef, hd.eq_initial hzero]
    rfl

theorem continueDefragmentation_eq (h : d.defragmentedPacket = some packet)
    (hdata : fragment.packet.data ≠ []) :
    d.continueDefragmentation fragment.packet =
      .ok ⟨d.expectedFragmentNumber + 1,
        some { packet with data := packet.data ++ fragment.packet.data }⟩ := by
  rw [continueDefragmentation, h]
  exact Error.bind_of_eq_ok (Packet.insertAtBack_eq hdata) rfl

/-- What the expected fragment makes of the packet: it is delivered after the last fragment. -/
def afterExpected (number total : ℕ) (packet : Packet α) : DefragmenterBase α × Option (Packet α) :=
  if number + 1 = total then (initial, some packet) else (⟨number + 1, some packet⟩, none)

theorem defragmentPacket_eq {fragmentPacket : Packet α} {firstFragment lastFragment : Bool}
    {d₁ d₂ : DefragmenterBase α}
    (hstart : (if firstFragment = true then d.startDefragmentation fragmentPacket else pure d) =
      .ok d₁)
    (hcontinue : d₁.continueDefragmentation fragmentPacket = .ok d₂) :
    d.defragmentPacket fragmentPacket firstFragment lastFragment true =
      .ok (if lastFragment = true then (initial, d₂.defragmentedPacket) else (d₂, none)) := by
  rw [defragmentPacket, Bool.not_true, if_neg Bool.false_ne_true]
  have hend : (if lastFragment = true then pure (d₂.endDefragmentation, d₂.defragmentedPacket)
      else pure (d₂, none) : Except Error _) =
      .ok (if lastFragment = true then (initial, d₂.defragmentedPacket) else (d₂, none)) := by
    cases lastFragment <;> rfl
  cases firstFragment with
  | true => exact Error.bind_of_eq_ok hstart (Error.bind_of_eq_ok hcontinue hend)
  | false => exact Error.bind_of_eq_ok hstart (Error.bind_of_eq_ok hcontinue hend)

theorem pushPacket_next (h : d = ⟨number, some packet⟩) (hpos : 0 < number)
    (hlabel : fragment.label = labelling.label number total) (hdata : fragment.packet.data ≠ []) :
    d.pushPacket labelling fragment =
      .ok (afterExpected number total
        { packet with data := packet.data ++ fragment.packet.data }) := by
  subst h
  have hfirst : labelling.firstFragment fragment.label ≠ true := by
    rw [hlabel, Ne, labelling.firstFragment_label]
    omega
  have hexpected : labelling.expectedFragment fragment.label number = true := by
    rw [hlabel, labelling.expectedFragment_label]
  rw [pushPacket, hexpected, defragmentPacket_eq (if_neg hfirst)
    (continueDefragmentation_eq rfl hdata),
    afterExpected, hlabel]
  simp only [labelling.lastFragment_label]

theorem pushPacket_first (hlabel : fragment.label = labelling.label 0 total)
    (hdata : fragment.packet.data ≠ []) :
    ∃ name, initial.pushPacket labelling fragment =
      .ok (afterExpected 0 total ⟨name, fragment.packet.data⟩) := by
  have hfirst : labelling.firstFragment fragment.label = true := by
    rw [hlabel, labelling.firstFragment_label]
  have hexpected : labelling.expectedFragment fragment.label 0 = true := by
    rw [hlabel, labelling.expectedFragment_label]
  refine ⟨String.ofList (beforeFirst "-frag".toList fragment.packet.name.toList), ?_⟩
  rw [pushPacket]
  simp only [initial, hexpected]
  rw [defragmentPacket_eq (if_pos hfirst) (continueDefragmentation_eq rfl hdata), afterExpected,
    hlabel]
  simp only [labelling.lastFragment_label, initial, List.nil_append, Nat.zero_add]

/-- The data accepted so far of the packet that is being assembled. -/
def acceptedData (d : DefragmenterBase α) : List α :=
  match d.defragmentedPacket with
  | none => []
  | some packet => packet.data

theorem pushPacket_cases (hd : d.Proper) (hlabel : fragment.label = labelling.label number total)
    (hdata : fragment.packet.data ≠ []) :
    d.pushPacket labelling fragment = .ok (initial, none) ∨
      ∃ packet, packet.data = d.acceptedData ++ fragment.packet.data ∧
        d.pushPacket labelling fragment =
          .ok (afterExpected d.expectedFragmentNumber total packet) := by
  by_cases hnumber : number = d.expectedFragmentNumber
  · right
    subst hnumber
    rcases Nat.eq_zero_or_pos d.expectedFragmentNumber with hzero | hpos
    · rw [hzero] at hlabel ⊢
      rw [hd.eq_initial hzero]
      obtain ⟨name, hstep⟩ := pushPacket_first hlabel hdata
      exact ⟨⟨name, fragment.packet.data⟩, rfl, hstep⟩
    · obtain ⟨packet, hpacket⟩ := hd.some_of_pos hpos
      have hd' : d = ⟨d.expectedFragmentNumber, some packet⟩ := by rw [← hpacket]
      refine ⟨_, ?_, pushPacket_next hd' hpos hlabel hdata⟩
      rw [acceptedData, hpacket]
  · exact .inl (pushPacket_unexpected hd hlabel hnumber)

/-! ## The fragments of a packet -/

section Pushes

variable {fragments : List (Fragment η α)}

theorem pushPackets_discards (h : Numbered labelling number total fragments) (hpos : 0 < number) :
    initial.pushPackets labelling fragments =
      .ok (initial, List.replicate fragments.length none) := by
  induction fragments generalizing number with
  | nil => rfl
  | cons fragment fragments ih =>
    obtain ⟨hlabel, -, hrest⟩ := h.head
    exact Transducer.run_cons
      (pushPacket_unexpected proper_initial hlabel (Nat.ne_of_gt hpos)) (ih hrest (Nat.succ_pos _))

theorem pushPackets_continues (h : Numbered labelling number total fragments) (hpos : 0 < number)
    (hne : fragments ≠ []) :
    (⟨number, some packet⟩ : DefragmenterBase α).pushPackets labelling fragments =
      .ok (initial, List.replicate (fragments.length - 1) none ++
        [some { packet with data := packet.data ++ joinedData fragments }]) := by
  induction fragments generalizing number packet with
  | nil => exact absurd rfl hne
  | cons fragment fragments ih =>
    obtain ⟨hlabel, hdata, hrest⟩ := h.head
    have hstep := pushPacket_next (d := ⟨number, some packet⟩) rfl hpos hlabel hdata
    have htotal := hrest.total_eq
    by_cases hnil : fragments = []
    · subst hnil
      rw [afterExpected, if_pos (by simpa using htotal)] at hstep
      simpa [pushPackets] using Transducer.run_singleton hstep
    · have hlen := List.length_pos_iff.2 hnil
      rw [afterExpected, if_neg (by omega)] at hstep
      have hrun := Transducer.run_cons hstep (ih hrest (Nat.succ_pos _) hnil)
      rw [pushPackets, hrun, joinedData_cons, List.append_assoc, ← List.cons_append,
        ← List.replicate_succ, List.length_cons]
      congr 5
      omega

theorem pushPackets_delivers (h : Numbered labelling 0 total fragments) (hne : fragments ≠ []) :
    ∃ name, initial.pushPackets labelling fragments =
      .ok (initial, List.replicate (fragments.length - 1) none ++
        [some ⟨name, joinedData fragments⟩]) := by
  cases fragments with
  | nil => exact absurd rfl hne
  | cons fragment fragments =>
    obtain ⟨hlabel, hdata, hrest⟩ := h.head
    obtain ⟨name, hstep⟩ := pushPacket_first hlabel hdata
    have htotal := hrest.total_eq
    refine ⟨name, ?_⟩
    by_cases hnil : fragments = []
    · subst hnil
      rw [afterExpected, if_pos (by simpa using htotal)] at hstep
      simpa [pushPackets] using Transducer.run_singleton hstep
    · have hlen := List.length_pos_iff.2 hnil
      rw [afterExpected, if_neg (by omega)] at hstep
      have hrun := Transducer.run_cons hstep (pushPackets_continues hrest Nat.one_pos hnil)
      rw [pushPackets, hrun, joinedData_cons, ← List.cons_append, ← List.replicate_succ,
        List.length_cons]
      congr 5
      omega

theorem pushPackets_loses (hd : d.Proper) (h : Numbered labelling 0 total fragments)
    (hne : fragments ≠ []) (hdef : d.isDefragmenting = true) :
    d.pushPackets labelling fragments = .ok (initial, List.replicate fragments.length none) := by
  cases fragments with
  | nil => exact absurd rfl hne
  | cons fragment fragments =>
    obtain ⟨hlabel, -, hrest⟩ := h.head
    exact Transducer.run_cons
      (pushPacket_unexpected hd hlabel (Nat.ne_of_lt (hd.isDefragmenting_iff.1 hdef)))
      (pushPackets_discards hrest Nat.one_pos)

end Pushes

end DefragmenterBase

end Inet.Fragmentation
