import Inet.Lib.Simulation
import Inet.Packet.Insert
import Inet.ProtocolElement.Resynchronization

/-! # Fragments of packets

The fragmenters and the defragmenters with the packets that they peek into and
insert at the back of. As far as no bit counts clash, they do what they do with
plain data.
-/

namespace Inet

open Chunk Outcome

namespace Chunk

theorem insertAligned_getChunkLength (content chunk : Chunk) :
    content.InsertAligned chunk content.getChunkLength := by
  refine ⟨fun h _ => ?_, ?_⟩
  · cases content with
    | bytes header values => exact Int.mul_emod_right 8 _
    | _ => cases h
  · rintro header length data _ _ rfl - i hi
    congr 1
    simp only [getChunkLength]
    omega

theorem Rep.trans {c content : Chunk} {xs : List Cell} (hc : Rep True c content.cells)
    (h : Rep True content xs) : Rep True c xs where
  wf := hc.wf
  length_eq := by rw [hc.length_eq, h.wf.length_cells, h.length_eq]
  cells_eq hn := by
    have hcells := h.cells_eq hn
    rw [← hcells] at hn
    rw [hc.cells_eq hn, hcells]
  clean := hc.clean

end Chunk

namespace Packet

variable {content chunk : Chunk} {xs ys : List Cell}

/-- The cells of the data part. -/
def dataCells (this : Packet) : List Cell :=
  seg this.content.cells this.getFrontOffset this.getDataLength

theorem returns_insertAtBack_ofRep (hcontent : Rep True content xs) (hext : content.Extensible)
    (hchunk : Rep True chunk ys) (hpos : 0 < chunk.getChunkLength) :
    Returns ((ofContent content).insertAtBack chunk) fun r => ∃ after,
      r = ofContent after ∧ Rep True after (xs ++ ys) ∧ after.Extensible := by
  have hnonneg := hcontent.wf.getChunkLength_nonneg
  have hspec : Spec (¬ True) ((ofContent content).insertedContent chunk content.getChunkLength)
      fun c => Rep True c (content.insertedCells chunk content.getChunkLength) :=
    spec_insertedContent (k := True) hcontent.wf rfl hext hcontent.clean hchunk.wf hpos
      hchunk.clean hnonneg le_rfl fun _ => insertAligned_getChunkLength content chunk
  have hback : (ofContent content).getBackOffset = content.getChunkLength := sub_zero _
  unfold insertAtBack insertAt
  rw [hback, checkUsage, if_pos hpos, pure_bind, checkUsage, if_pos ⟨hnonneg, le_rfl⟩, pure_bind]
  refine (hspec.mono (by simp) fun _ h => h).bind ?_
  intro after hrep
  rw [insertedCells_length hcontent.wf hchunk.wf hcontent.wf.length_cells.symm] at hrep
  have hafter := Rep.append hrep hcontent hchunk
  have hlen : after.getChunkLength = content.getChunkLength + chunk.getChunkLength := by
    rw [hafter.length_eq, hcontent.length_eq, hchunk.length_eq, List.length_append, Nat.cast_add]
  unfold moveIteratorIf
  dsimp only
  rw [if_neg (show ¬ content.getChunkLength < (ofContent content).getFrontOffset from
    not_lt.2 hnonneg), pure_bind, if_neg (lt_irrefl _), pure_bind]
  refine Spec.pure ⟨after, ?_, hafter, extensible_of_pos (by omega)⟩
  exact congrArg (Packet.mk after ⟨true, 0, 0⟩ ⟨false, 0, 0⟩) hlen.symm

theorem returns_new : Returns Packet.new fun packet => ∃ content,
    packet = ofContent content ∧ Rep True content [] ∧ content.Extensible := by
  unfold Packet.new
  exact spec_newHeader.bind fun header hheader =>
    Spec.pure ⟨.empty header, rfl, rep_empty fun _ => hheader, trivial⟩

end Packet

namespace Fragmentation

variable {η : Type}

/-- A packet with its name. -/
structure NamedPacket where
  name : String
  packet : Inet.Packet

/-- A fragment, its header popped or its tag taken from it. -/
structure PacketFragment (η : Type) where
  label : η
  packet : NamedPacket

namespace NamedPacket

def createFragmentPacket (labelling : Labelling η) (packet : NamedPacket)
    (fragmentOffset fragmentLength fragmentNumber numFragments : ℕ) :
    ChunkM (PacketFragment η) := do
  let fragmentPacket ← Inet.Packet.new
  let fragmentData ← deref (← packet.packet.peekDataAt none fragmentOffset fragmentLength {})
  let fragmentPacket ← fragmentPacket.insertAtBack fragmentData
  return ⟨labelling.label fragmentNumber numFragments,
    packet.name ++ "-frag" ++ toString fragmentNumber, fragmentPacket⟩

/-- The loop of `FragmenterBase::pushPacket` from a fragment on. -/
def createFragmentPackets (labelling : Labelling η) (packet : NamedPacket) (numFragments : ℕ) :
    ℕ → ℕ → List ℕ → ChunkM (List (PacketFragment η))
  | _, _, [] => return []
  | fragmentOffset, fragmentNumber, fragmentLength :: fragmentLengths => do
    let fragment ← createFragmentPacket labelling packet fragmentOffset fragmentLength
      fragmentNumber numFragments
    let fragments ← createFragmentPackets labelling packet numFragments
      (fragmentOffset + fragmentLength) (fragmentNumber + 1) fragmentLengths
    return fragment :: fragments

/-- `FragmenterBase::pushPacket`: the fragments that are pushed. -/
def pushPacket (labelling : Labelling η) (policy : LengthBasedFragmenterPolicy)
    (packet : NamedPacket) : ChunkM (List (PacketFragment η)) :=
  let fragmentLengths := policy.computeFragmentLengths packet.packet.getDataLength.toNat
  createFragmentPackets labelling packet fragmentLengths.length 0 0 fragmentLengths

end NamedPacket

/-- The defragmenter, with `deleteSelf` off. -/
structure PacketDefragmenter where
  expectedFragmentNumber : ℕ
  defragmentedPacket : Option NamedPacket

namespace PacketDefragmenter

def initial : PacketDefragmenter := ⟨0, none⟩

variable (d : PacketDefragmenter)

def isDefragmenting : Bool := d.defragmentedPacket.isSome

def startDefragmentation (fragmentPacket : NamedPacket) : ChunkM PacketDefragmenter := do
  assert (d.defragmentedPacket.isNone = true) "defragmentedPacket == nullptr"
  let name := String.ofList (beforeFirst "-frag".toList fragmentPacket.name.toList)
  return { d with defragmentedPacket := some ⟨name, ← Inet.Packet.new⟩ }

def continueDefragmentation (fragmentPacket : NamedPacket) : ChunkM PacketDefragmenter :=
  match d.defragmentedPacket with
  | none => throw (.undefinedBehavior "defragmentedPacket->insertAtBack")
  | some defragmentedPacket => do
    let data ← deref (← fragmentPacket.packet.peekDataAt none 0 fragmentPacket.packet.getDataLength
      {})
    let packet ← defragmentedPacket.packet.insertAtBack data
    return ⟨d.expectedFragmentNumber + 1, some { defragmentedPacket with packet := packet }⟩

def endDefragmentation (_ : PacketDefragmenter) : PacketDefragmenter := ⟨0, none⟩

/-- The packet that is pushed, if any, comes with the new state. -/
def defragmentPacket (fragmentPacket : NamedPacket)
    (firstFragment lastFragment expectedFragment : Bool) :
    ChunkM (PacketDefragmenter × Option NamedPacket) :=
  if !expectedFragment then
    return (if d.isDefragmenting then d.endDefragmentation else d, none)
  else do
    let d ← if firstFragment then d.startDefragmentation fragmentPacket else pure d
    let d ← d.continueDefragmentation fragmentPacket
    if lastFragment then return (d.endDefragmentation, d.defragmentedPacket)
    else return (d, none)

def pushPacket (labelling : Labelling η) (fragment : PacketFragment η) :
    ChunkM (PacketDefragmenter × Option NamedPacket) :=
  d.defragmentPacket fragment.packet (labelling.firstFragment fragment.label)
    (labelling.lastFragment fragment.label)
    (labelling.expectedFragment fragment.label d.expectedFragmentNumber)

/-- Fragments pushed one after the other, with the packet delivered by each call. -/
def pushPackets (labelling : Labelling η) :
    PacketDefragmenter → List (PacketFragment η) →
      ChunkM (PacketDefragmenter × List (Option NamedPacket))
  | d, [] => return (d, [])
  | d, fragment :: fragments => do
    let (d, output) ← d.pushPacket labelling fragment
    let (d, outputs) ← pushPackets labelling d fragments
    return (d, output :: outputs)

end PacketDefragmenter

/-- The packets are fragmented, the fragments arrive as the link lets them, and what arrives is
defragmented. -/
def transfer (labelling : Labelling η) (policy : LengthBasedFragmenterPolicy) (copies : ℕ → ℕ)
    (packets : List NamedPacket) : ChunkM (PacketDefragmenter × List (Option NamedPacket)) := do
  let fragments ← packets.mapM (NamedPacket.pushPacket labelling policy)
  PacketDefragmenter.initial.pushPackets labelling
    ((transmit copies 0 fragments.flatten).map Prod.snd)

/-! ## The data of the packets -/

/-- A packet with its data part in cells. -/
def NamedPacket.view (this : NamedPacket) : Packet Cell := ⟨this.name, this.packet.dataCells⟩

/-- A packet that has been put together from the given data, as far as no bit counts clash. -/
structure NamedPacket.Shows (this : NamedPacket) (packet : Packet Cell) : Prop where
  name_eq : this.name = packet.name
  exists_content : ∃ content, this.packet = Inet.Packet.ofContent content ∧
    Rep True content packet.data ∧ content.Extensible

/-- A fragment whose data part is peeked as the given data, as far as no bit counts clash. -/
structure NamedPacket.Carries (this : NamedPacket) (packet : Packet Cell) : Prop where
  name_eq : this.name = packet.name
  peekData : packet.data ≠ [] → Returns (do
    deref (← this.packet.peekDataAt none 0 this.packet.getDataLength {})) fun c =>
      Rep True c packet.data ∧ 0 < c.getChunkLength

structure PacketFragment.Shows (this : PacketFragment η) (fragment : Fragment η Cell) : Prop where
  label_eq : this.label = fragment.label
  packet : this.packet.Carries fragment.packet

/-- Both have no packet, or one shows the other. -/
def ShowsOption (packet : Option NamedPacket) (packet' : Option (Packet Cell)) : Prop :=
  Option.Rel NamedPacket.Shows packet packet'

structure PacketDefragmenter.Shows (this : PacketDefragmenter) (d : DefragmenterBase Cell) :
    Prop where
  expectedFragmentNumber_eq : this.expectedFragmentNumber = d.expectedFragmentNumber
  defragmentedPacket : ShowsOption this.defragmentedPacket d.defragmentedPacket

section Simulation

variable {labelling : Labelling η} {policy : LengthBasedFragmenterPolicy} {p : NamedPacket}
  {q : Packet Cell} {this : PacketDefragmenter} {d : DefragmenterBase Cell}

theorem NamedPacket.Shows.view_eq (h : p.Shows q) (hclash : NoClash q.data) : p.view = q := by
  obtain ⟨content, hcontent, hrep, -⟩ := h.exists_content
  obtain ⟨name, packet⟩ := p
  obtain rfl : packet = Inet.Packet.ofContent content := hcontent
  obtain ⟨name', data⟩ := q
  obtain rfl : name = name' := h.name_eq
  have hlen := hrep.wf.length_cells
  refine congrArg (Packet.mk name) ((seg_zero _ ?_).trans (hrep.cells_eq hclash))
  change (content.cells.length : ℤ) ≤ content.getChunkLength - 0 - 0
  omega

theorem length_view_data (h : p.packet.Consistent) :
    (p.view.data.length : ℤ) = p.packet.getDataLength := by
  have hfront := h.front_nonneg
  have hfb := h.front_le_back
  have hback := h.back_le
  have hdata : p.packet.getDataLength = p.packet.getBackOffset - p.packet.getFrontOffset := by
    unfold Inet.Packet.getDataLength Inet.Packet.getBackOffset Inet.Packet.getFrontOffset
    omega
  refine length_seg hfront (by omega) ?_
  rw [h.wf.length_cells, h.length_eq]
  omega

theorem NamedPacket.Shows.carries (h : p.Shows q) : p.Carries q := by
  obtain ⟨content, hcontent, hrep, -⟩ := h.exists_content
  refine ⟨h.name_eq, fun hne => ?_⟩
  have hlen := hrep.length_eq
  have hpos := List.length_pos_iff.2 hne
  have hconsistent := Inet.Packet.consistent_ofContent hrep.wf
  have hdata : (Inet.Packet.ofContent content).getDataLength = content.getChunkLength :=
    (sub_zero _).trans (sub_zero _)
  rw [hcontent]
  refine (hconsistent.spec_peekDataAt (hrep.clean trivial) le_rfl (by omega) (by omega)).mono id ?_
  rintro c ⟨hc, hcpos⟩
  refine ⟨Rep.trans ?_ hrep, hcpos⟩
  have hwhole : seg content.cells 0 content.getChunkLength = content.cells :=
    seg_zero _ hrep.wf.length_cells.le
  rw [hdata] at hc
  change Rep True c (seg content.cells (0 + 0) content.getChunkLength) at hc
  rwa [add_zero, hwhole] at hc

theorem checkUsage_eq_ok {condition : Prop} [Decidable condition] {text : String} {u : Unit}
    (h : (checkUsage condition text : Except Error Unit) = .ok u) : condition := by
  by_contra hc
  rw [checkUsage, if_neg hc] at h
  cases h

theorem of_createFragmentPacket_eq_ok {offset length number total : ℕ} {fragment : Fragment η Cell}
    (h : createFragmentPacket labelling q offset length number total = .ok fragment) :
    offset + length ≤ q.data.length ∧ 0 < length ∧ fragment = ⟨labelling.label number total,
      ⟨q.name ++ "-frag" ++ toString number, (q.data.drop offset).take length⟩⟩ := by
  obtain ⟨data, hpeek, h⟩ := Error.exists_of_bind_eq_ok h
  obtain ⟨_, hoffset, hpeek⟩ := Error.exists_of_bind_eq_ok hpeek
  obtain ⟨_, hlength, hpeek⟩ := Error.exists_of_bind_eq_ok hpeek
  obtain rfl := Except.ok.inj hpeek
  obtain ⟨packet, hinsert, h⟩ := Error.exists_of_bind_eq_ok h
  obtain ⟨_, hpos, hinsert⟩ := Error.exists_of_bind_eq_ok hinsert
  obtain rfl := Except.ok.inj hinsert
  obtain rfl := Except.ok.inj h
  refine ⟨checkUsage_eq_ok hlength, ?_, rfl⟩
  have hpos := checkUsage_eq_ok hpos
  rw [List.length_take] at hpos
  omega

theorem simulates_createFragmentPacket (h : p.packet.Consistent) (hclean : p.packet.content.Clean)
    (offset length number total : ℕ) :
    Simulates (p.createFragmentPacket labelling offset length number total)
      (createFragmentPacket labelling p.view offset length number total)
      PacketFragment.Shows := by
  intro fragment hok
  obtain ⟨hle, hpos, rfl⟩ := of_createFragmentPacket_eq_ok hok
  have hlen := length_view_data h
  unfold NamedPacket.createFragmentPacket
  refine Inet.Packet.returns_new.bind ?_
  rintro _ ⟨content, rfl, hcontent, hext⟩
  rw [← bind_assoc]
  have hpos' : (0 : ℤ) < length := by omega
  have hle' : (offset : ℤ) + length ≤ p.packet.getDataLength := by omega
  refine (h.spec_peekDataAt hclean (Int.natCast_nonneg offset) hpos' hle').bind ?_
  rintro data ⟨hrep, hdata⟩
  refine (Inet.Packet.returns_insertAtBack_ofRep hcontent hext hrep hdata).bind ?_
  rintro _ ⟨after, rfl, hafter, hext'⟩
  refine Spec.pure ⟨rfl, NamedPacket.Shows.carries ⟨rfl, after, rfl, ?_, hext'⟩⟩
  have hseg : (p.view.data.drop offset).take length =
      seg p.packet.content.cells (p.packet.getFrontOffset + offset) length := by
    have hle : (offset : ℤ) + length ≤ p.packet.getDataLength := by omega
    exact seg_seg p.packet.content.cells h.front_nonneg (Int.natCast_nonneg offset) hle
  rwa [List.nil_append, ← hseg] at hafter

theorem simulates_createFragmentPackets (h : p.packet.Consistent)
    (hclean : p.packet.content.Clean) (total offset number : ℕ) (lengths : List ℕ) :
    Simulates (p.createFragmentPackets labelling total offset number lengths)
      (createFragmentPackets labelling p.view total offset number lengths)
      (List.Forall₂ PacketFragment.Shows) := by
  induction lengths generalizing offset number with
  | nil => exact Simulates.pure List.Forall₂.nil
  | cons length lengths ih =>
    refine (simulates_createFragmentPacket h hclean offset length number total).bind ?_
    intro fragment fragment' hfragment
    exact (ih _ _).bind fun _ _ hrest => Simulates.pure (List.Forall₂.cons hfragment hrest)

theorem simulates_pushPacket (h : p.packet.Consistent) (hclean : p.packet.content.Clean) :
    Simulates (p.pushPacket labelling policy) (pushPacket labelling policy p.view)
      (List.Forall₂ PacketFragment.Shows) := by
  unfold NamedPacket.pushPacket pushPacket
  rw [show p.packet.getDataLength.toNat = p.view.data.length by
    rw [← length_view_data h, Int.toNat_natCast]]
  exact simulates_createFragmentPackets h hclean _ _ _ _

end Simulation

section Defragmenter

variable {labelling : Labelling η} {this : PacketDefragmenter} {d : DefragmenterBase Cell}
  {packet : NamedPacket} {packet' : Packet Cell}

theorem PacketDefragmenter.Shows.isDefragmenting_eq (h : this.Shows d) :
    this.isDefragmenting = d.isDefragmenting := by
  obtain ⟨number, assembled⟩ := this
  obtain ⟨number', assembled'⟩ := d
  have hassembled : ShowsOption assembled assembled' := h.defragmentedPacket
  cases hassembled with
  | some _ => rfl
  | none => rfl

theorem showsInitial : PacketDefragmenter.initial.Shows DefragmenterBase.initial :=
  ⟨rfl, Option.Rel.none⟩

theorem simulates_startDefragmentation (h : this.Shows d) (hpacket : packet.Carries packet') :
    Simulates (this.startDefragmentation packet) (d.startDefragmentation packet')
      PacketDefragmenter.Shows := by
  intro d' hok
  obtain ⟨_, hassert, hok⟩ := Error.exists_of_bind_eq_ok hok
  obtain rfl := Except.ok.inj hok
  have hnone : this.defragmentedPacket.isNone = true := by
    have hd := Error.of_assert_eq_ok hassert
    have heq := h.isDefragmenting_eq
    unfold PacketDefragmenter.isDefragmenting DefragmenterBase.isDefragmenting at heq
    rw [← Option.not_isSome, Bool.not_eq_true'] at hd ⊢
    rwa [heq]
  unfold PacketDefragmenter.startDefragmentation
  rw [assert, if_pos hnone, pure_bind]
  dsimp only
  rw [hpacket.name_eq]
  refine Inet.Packet.returns_new.bind ?_
  rintro _ ⟨content, rfl, hcontent, hext⟩
  exact Spec.pure ⟨h.expectedFragmentNumber_eq, Option.Rel.some ⟨rfl, content, rfl, hcontent, hext⟩⟩

theorem simulates_continueDefragmentation (h : this.Shows d)
    (hpacket : packet.Carries packet') :
    Simulates (this.continueDefragmentation packet) (d.continueDefragmentation packet')
      PacketDefragmenter.Shows := by
  obtain ⟨number, assembled⟩ := this
  obtain ⟨number', assembled'⟩ := d
  obtain ⟨hnumber, hassembled⟩ := h
  dsimp only at hnumber hassembled
  subst hnumber
  cases hassembled with
  | none => exact Simulates.throw _ _
  | @some shown shown' hshown =>
    intro d' hok
    obtain ⟨_, hinsert, hok⟩ := Error.exists_of_bind_eq_ok hok
    obtain ⟨_, hpos, hinsert⟩ := Error.exists_of_bind_eq_ok hinsert
    obtain rfl := Except.ok.inj hinsert
    obtain rfl := Except.ok.inj hok
    obtain ⟨content, hcontent, hcontentRep, hext⟩ := hshown.exists_content
    unfold PacketDefragmenter.continueDefragmentation
    dsimp only
    rw [← bind_assoc]
    refine (hpacket.peekData (List.length_pos_iff.1 (checkUsage_eq_ok hpos))).bind ?_
    rintro data ⟨hdata, hdatapos⟩
    rw [hcontent]
    refine (Inet.Packet.returns_insertAtBack_ofRep hcontentRep hext hdata hdatapos).bind ?_
    rintro _ ⟨after, rfl, hafter, hext'⟩
    exact Spec.pure ⟨rfl, Option.Rel.some ⟨hshown.name_eq, after, rfl, hafter, hext'⟩⟩

theorem simulates_defragmentPacket (h : this.Shows d) (hpacket : packet.Carries packet')
    (firstFragment lastFragment expectedFragment : Bool) :
    Simulates (this.defragmentPacket packet firstFragment lastFragment expectedFragment)
      (d.defragmentPacket packet' firstFragment lastFragment expectedFragment)
      fun r r' => r.1.Shows r'.1 ∧ ShowsOption r.2 r'.2 := by
  unfold PacketDefragmenter.defragmentPacket DefragmenterBase.defragmentPacket
  rw [h.isDefragmenting_eq]
  cases expectedFragment with
  | false =>
    refine Simulates.pure ⟨?_, Option.Rel.none⟩
    cases d.isDefragmenting with
    | true => exact showsInitial
    | false => exact h
  | true =>
    have hend {this : PacketDefragmenter} {d : DefragmenterBase Cell} (h : this.Shows d) :
        Simulates (do
          let d ← this.continueDefragmentation packet
          if lastFragment then return (d.endDefragmentation, d.defragmentedPacket)
          else return (d, none)) (do
          let d ← d.continueDefragmentation packet'
          if lastFragment then pure (d.endDefragmentation, d.defragmentedPacket)
          else pure (d, none)) fun r r' => r.1.Shows r'.1 ∧ ShowsOption r.2 r'.2 := by
      refine (simulates_continueDefragmentation h hpacket).bind fun this' d' h' => ?_
      cases lastFragment with
      | true => exact Simulates.pure ⟨showsInitial, h'.defragmentedPacket⟩
      | false => exact Simulates.pure ⟨h', Option.Rel.none⟩
    cases firstFragment with
    | true => exact (simulates_startDefragmentation h hpacket).bind fun _ _ h' => hend h'
    | false => exact hend h

theorem simulates_pushPackets {fragments : List (PacketFragment η)}
    {fragments' : List (Fragment η Cell)} (h : this.Shows d)
    (hfragments : List.Forall₂ PacketFragment.Shows fragments fragments') :
    Simulates (this.pushPackets labelling fragments) (d.pushPackets labelling fragments')
      fun r r' => r.1.Shows r'.1 ∧ List.Forall₂ ShowsOption r.2 r'.2 := by
  induction hfragments generalizing this d with
  | nil => exact Simulates.pure ⟨h, List.Forall₂.nil⟩
  | @cons fragment fragment' fragments fragments' hfirst _ ih =>
    rintro ⟨d', outputs⟩ hok
    obtain ⟨d₁, output, outputs, hstep, hrun, rfl⟩ := Transducer.exists_of_run_cons hok
    have hpush := simulates_defragmentPacket h hfirst.packet
      (labelling.firstFragment fragment'.label) (labelling.lastFragment fragment'.label)
      (labelling.expectedFragment fragment'.label d.expectedFragmentNumber) _ hstep
    rw [← hfirst.label_eq, ← h.expectedFragmentNumber_eq] at hpush
    unfold PacketDefragmenter.pushPackets
    refine hpush.bind ?_
    rintro ⟨this₁, result⟩ ⟨hthis, hresult⟩
    refine (ih hthis _ hrun).bind ?_
    rintro ⟨this', results⟩ ⟨hthis', hresults⟩
    exact Spec.pure ⟨hthis', List.Forall₂.cons hresult hresults⟩

end Defragmenter

/-! ## The whole way -/

section Transfer

variable {labelling : Labelling η} {policy : LengthBasedFragmenterPolicy} {copies : ℕ → ℕ}

/-- A packet that is not marked, with the fragments that are made of its data. -/
structure FragmentedPacket (labelling : Labelling η) (policy : LengthBasedFragmenterPolicy) where
  packet : NamedPacket
  consistent : packet.packet.Consistent
  clean : packet.packet.content.Clean
  fragmented : Fragmented labelling policy Cell
  packet_eq : fragmented.packet = packet.view

variable {sent : List (FragmentedPacket labelling policy)}

theorem forall₂_transmit {β γ : Type} {rel : β → γ → Prop} {xs : List β} {ys : List γ} (place : ℕ)
    (h : List.Forall₂ rel xs ys) :
    List.Forall₂ rel ((transmit copies place xs).map Prod.snd)
      ((transmit copies place ys).map Prod.snd) := by
  induction h generalizing place with
  | nil => exact List.Forall₂.nil
  | cons hfirst _ ih =>
    simp only [transmit, List.map_append, List.map_replicate]
    refine List.rel_append ?_ (ih _)
    induction copies place with
    | zero => exact List.Forall₂.nil
    | succ n ihn => exact List.Forall₂.cons hfirst ihn

theorem returns_fragments (sent : List (FragmentedPacket labelling policy)) :
    Returns ((sent.map (·.packet)).mapM (NamedPacket.pushPacket labelling policy)) fun fragments =>
      List.Forall₂ PacketFragment.Shows fragments.flatten
        (sentFragments (sent.map (·.fragmented))) := by
  induction sent with
  | nil => exact Spec.pure List.Forall₂.nil
  | cons s sent ih =>
    rw [List.map_cons, List.mapM_cons]
    have hpush := s.fragmented.pushPacket_eq
    rw [s.packet_eq] at hpush
    refine (simulates_pushPacket s.consistent s.clean _ hpush).bind fun fragments hfragments => ?_
    exact ih.bind fun rest hrest => Spec.pure (List.rel_append hfragments hrest)

/-- What comes out shows what the defragmenter makes of the plain data. -/
theorem returns_transfer (sent : List (FragmentedPacket labelling policy)) (copies : ℕ → ℕ) :
    ∃ d outputs, DefragmenterBase.initial.pushPackets labelling
        ((arrivals copies (sent.map (·.fragmented))).map Prod.snd) = .ok (d, outputs) ∧
      Returns (transfer labelling policy copies (sent.map (·.packet))) fun r =>
        r.1.Shows d ∧ List.Forall₂ ShowsOption r.2 outputs := by
  obtain ⟨d, outputs, hrun, -⟩ :=
    exists_arrivals_pushPackets copies (sent.map (·.fragmented))
  refine ⟨d, outputs, hrun, (returns_fragments sent).bind fun fragments hfragments => ?_⟩
  exact simulates_pushPackets showsInitial (forall₂_transmit 0 hfragments) _ hrun

/-- Each packet that arrives whole begins while no packet is being assembled. -/
def PacketsBeginAtRest (sent : List (FragmentedPacket labelling policy)) (copies : ℕ → ℕ) : Prop :=
  ∀ before s after, sent = before ++ s :: after →
    ArrivesWhole copies (before.map (·.fragmented)) s.fragmented →
    Returns (transfer labelling policy copies (before.map (·.packet))) fun r =>
      r.1.isDefragmenting = false

/-- In what is put together for a delivery, no bit count is directly followed by one of another
fill. -/
def DeliversClashFree (sent : List (FragmentedPacket labelling policy)) (copies : ℕ → ℕ) : Prop :=
  ∀ d outputs, DefragmenterBase.initial.pushPackets labelling
      ((arrivals copies (sent.map (·.fragmented))).map Prod.snd) = .ok (d, outputs) →
    ∀ packet, some packet ∈ outputs → NoClash packet.data

/-- The calls all return, and deliver what they should. -/
def PacketsResynchronize (sent : List (FragmentedPacket labelling policy)) (copies : ℕ → ℕ) :
    Prop :=
  Returns (transfer labelling policy copies (sent.map (·.packet))) fun r =>
    Delivers (sent.map (·.fragmented)) copies (r.2.map (Option.map NamedPacket.view))

theorem beginsAtRest_map_iff :
    BeginsAtRest (sent.map (·.fragmented)) copies ↔ PacketsBeginAtRest sent copies := by
  constructor
  · rintro h before s after rfl hwhole
    obtain ⟨d, outputs, hrun, hreturns⟩ := returns_transfer before copies
    refine hreturns.mono id fun r hr => ?_
    rw [hr.1.isDefragmenting_eq]
    exact h _ _ (after.map (·.fragmented)) (by simp) hwhole d outputs hrun
  · rintro h before s after heq hwhole d outputs hrun
    obtain ⟨before, rest, rfl, rfl, hrest⟩ := List.map_eq_append_iff.1 heq
    obtain ⟨s, after, rfl, rfl, rfl⟩ := List.map_eq_cons_iff.1 hrest
    obtain ⟨d', outputs', hrun', hreturns⟩ := returns_transfer before copies
    obtain ⟨rfl, rfl⟩ := Prod.mk.inj (Except.ok.inj (hrun.symm.trans hrun'))
    obtain ⟨r, hrest, hr, -⟩ :=
      Returns.exists (((h before s after rfl hwhole).and hreturns).mono And.left fun _ => id)
    rw [← hr.isDefragmenting_eq, hrest]

theorem view_outputs_eq {outputs : List (Option NamedPacket)}
    {outputs' : List (Option (Packet Cell))}
    (h : List.Forall₂ ShowsOption outputs outputs')
    (hclash : ∀ packet, some packet ∈ outputs' → NoClash packet.data) :
    outputs.map (Option.map NamedPacket.view) = outputs' := by
  induction h with
  | nil => rfl
  | cons hfirst _ ih =>
    rw [List.map_cons, ih fun packet hpacket => hclash packet (List.mem_cons_of_mem _ hpacket)]
    congr 1
    cases hfirst with
    | none => rfl
    | some hshows => exact congrArg some (hshows.view_eq (hclash _ List.mem_cons_self))

theorem packetsResynchronize_iff_beginAtRest (hclash : DeliversClashFree sent copies) :
    PacketsResynchronize sent copies ↔ PacketsBeginAtRest sent copies := by
  rw [← beginsAtRest_map_iff, ← resynchronizes_iff_beginsAtRest]
  obtain ⟨d, outputs, hrun, hreturns⟩ := returns_transfer sent copies
  have hview : Returns (transfer labelling policy copies (sent.map (·.packet))) fun r =>
      r.2.map (Option.map NamedPacket.view) = outputs :=
    hreturns.mono id fun r hr => view_outputs_eq hr.2 (hclash d outputs hrun)
  constructor
  · intro h
    obtain ⟨r, hdelivers, heq⟩ := Returns.exists ((h.and hview).mono And.left fun _ => id)
    rw [heq] at hdelivers
    exact ⟨d, outputs, hrun, hdelivers⟩
  · rintro ⟨d', outputs', hrun', hdelivers⟩
    obtain ⟨rfl, rfl⟩ := Prod.mk.inj (Except.ok.inj (hrun.symm.trans hrun'))
    refine hview.mono id fun r hr => ?_
    rwa [hr]

/-- Both defragmenters deliver what arrives whole exactly when it begins at rest. -/
theorem resynchronizes_iff (headers : List (FragmentedPacket fragmentNumberHeaderBased policy))
    (tags : List (FragmentedPacket fragmentTagBased policy)) (copies : ℕ → ℕ)
    (hheaders : DeliversClashFree headers copies) (htags : DeliversClashFree tags copies) :
    (PacketsResynchronize headers copies ↔ PacketsBeginAtRest headers copies) ∧
      (PacketsResynchronize tags copies ↔ PacketsBeginAtRest tags copies) :=
  ⟨packetsResynchronize_iff_beginAtRest hheaders, packetsResynchronize_iff_beginAtRest htags⟩

end Transfer

/-! ## A lost tail and a lost head -/

/-- A packet of bits, with fragments that carry at most two of them. -/
def fragmentedBits (name : String) (values : List Bool)
    (fragments : List (Fragment FragmentNumberHeader Cell))
    (h : pushPacket fragmentNumberHeaderBased ⟨3, 1, by decide⟩
      ⟨name, values.map Cell.plain⟩ = .ok fragments) :
    FragmentedPacket fragmentNumberHeaderBased ⟨3, 1, by decide⟩ where
  packet := ⟨name, Inet.Packet.ofContent (.bits ⟨0, false, false, false⟩ values)⟩
  consistent := Inet.Packet.consistent_ofContent trivial
  clean := ⟨rfl, rfl, rfl⟩
  fragmented := ⟨⟨name, values.map Cell.plain⟩, fragments, h⟩
  packet_eq := congrArg (Packet.mk name) (seg_zero _ (by simp [Inet.Packet.getDataLength,
    Inet.Packet.getTotalLength, Inet.Packet.ofContent, getChunkLength])).symm

/-- Two packets of two fragments each. -/
def exampleSent : List (FragmentedPacket fragmentNumberHeaderBased ⟨3, 1, by decide⟩) :=
  [fragmentedBits "a" [true, false, true, true]
      [⟨⟨0, false⟩, ⟨"a-frag0", [.plain true, .plain false]⟩⟩,
        ⟨⟨1, true⟩, ⟨"a-frag1", [.plain true, .plain true]⟩⟩] (by decide +kernel),
    fragmentedBits "b" [false, false, true, false]
      [⟨⟨0, false⟩, ⟨"b-frag0", [.plain false, .plain false]⟩⟩,
        ⟨⟨1, true⟩, ⟨"b-frag1", [.plain true, .plain false]⟩⟩] (by decide +kernel)]

/-- The first fragment is lost and the second one duplicated. -/
def lostHead (place : ℕ) : ℕ := if place = 0 then 0 else if place = 1 then 2 else 1

theorem resynchronizes_lostHead : PacketsResynchronize exampleSent lostHead := by
  have hrun : DefragmenterBase.initial.pushPackets fragmentNumberHeaderBased
      ((arrivals lostHead (exampleSent.map (·.fragmented))).map Prod.snd) =
        .ok (DefragmenterBase.initial, [none, none, none,
          some ⟨"b", [.plain false, .plain false, .plain true, .plain false]⟩]) := by
    decide +kernel
  have hclash : DeliversClashFree exampleSent lostHead := by
    intro d outputs hrun' packet hpacket
    obtain ⟨-, rfl⟩ := Prod.mk.inj (Except.ok.inj (hrun.symm.trans hrun'))
    obtain rfl : packet = ⟨"b", [.plain false, .plain false, .plain true, .plain false]⟩ := by
      simpa using hpacket
    exact noClash_of_plain (by decide)
  have hnone : DeliversClashFree ([] : List (FragmentedPacket fragmentTagBased ⟨3, 1, by decide⟩))
      lostHead := by
    intro d outputs hrun' packet hpacket
    obtain ⟨-, rfl⟩ := Prod.mk.inj (Except.ok.inj hrun')
    cases hpacket
  refine ((resynchronizes_iff exampleSent [] lostHead hclash hnone).1).2
    (beginsAtRest_map_iff.1 ?_)
  intro before s after heq hwhole d outputs hbefore
  rcases before with _ | ⟨first, _ | ⟨second, before⟩⟩
  · obtain ⟨rfl, -⟩ := List.cons.inj heq
    exact absurd (hwhole 0 (by decide)) (by decide)
  · obtain ⟨rfl, -⟩ := List.cons.inj heq
    have hrest : DefragmenterBase.initial.pushPackets fragmentNumberHeaderBased
        ((arrivals lostHead [exampleSent[0].fragmented]).map Prod.snd) =
          .ok (DefragmenterBase.initial, [none, none]) := by
      decide +kernel
    obtain ⟨rfl, -⟩ := Prod.mk.inj (Except.ok.inj (hrest.symm.trans hbefore))
    rfl
  · have hlength := congrArg List.length heq
    simp [exampleSent] at hlength

/-- The last fragment of the first packet is lost. -/
def lostTail (place : ℕ) : ℕ := if place = 1 then 0 else 1

theorem lost_tail_not_resynchronizes : ¬ PacketsResynchronize exampleSent lostTail := by
  intro h
  obtain ⟨d, outputs, hrun, hreturns⟩ := returns_transfer exampleSent lostTail
  have hrun' : DefragmenterBase.initial.pushPackets fragmentNumberHeaderBased
      ((arrivals lostTail (exampleSent.map (·.fragmented))).map Prod.snd) =
        .ok (DefragmenterBase.initial, [none, none, none]) := by
    decide +kernel
  obtain ⟨-, rfl⟩ := Prod.mk.inj (Except.ok.inj (hrun.symm.trans hrun'))
  obtain ⟨r, hdelivers, -, hr⟩ := Returns.exists ((h.and hreturns).mono And.left fun _ => id)
  rw [view_outputs_eq hr (by simp)] at hdelivers
  have hwhole : ArrivesWhole lostTail [exampleSent[0].fragmented] exampleSent[1].fragmented := by
    rw [ArrivesWhole]
    decide
  obtain ⟨packet, stop, -, hstop, hdelivery, -⟩ :=
    hdelivers.whole [exampleSent[0].fragmented] exampleSent[1].fragmented [] rfl hwhole
  obtain rfl : stop = 2 := Nat.succ.inj hstop
  cases hdelivery.output

end Fragmentation

end Inet
