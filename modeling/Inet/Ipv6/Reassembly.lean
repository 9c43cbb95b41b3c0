import Inet.Chunk.Backward
import Inet.Ipv6.Fragmentation

/-! # Fragments of a datagram and their reassembly

The fragments of a datagram without extension headers bring the data of the
datagram to its places. The buffer of the datagram returns it when the last
missing fragment arrives, in any order, with repetitions, and whatever happens
to other datagrams.
-/

namespace Inet.Ipv6

open Chunk Outcome ReassemblyBuffer

/-- A datagram of `n` bytes behind the base header. -/
structure Datagram.WellFormed (this : Datagram) (n : ℕ) : Prop where
  consistent : this.packet.Consistent
  dataLength_eq : this.packet.getDataLength = 8 * n
  payloadLength_eq : this.ipv6Header.payloadLength = n
  le : n ≤ 65535

/-- The cells behind the base header. -/
def Datagram.cells (this : Datagram) : List Cell :=
  seg this.packet.content.cells this.packet.getFrontOffset this.packet.getDataLength

/-- The same header, and the same bits behind it. -/
def Datagram.Same (this other : Datagram) : Prop :=
  this.ipv6Header = other.ipv6Header ∧ this.packet.dataBits = other.packet.dataBits

/-! ## The fragments -/

/-- The length of the `k`-th fragment, all of which but the last have the length `f`. -/
def partLengthAt (n f k : ℕ) : ℕ := min f (n - k * f)

/-- The `k`-th fragment of a datagram. -/
structure IsFragment (datagram : Datagram) (id n f k : ℕ) (fragment : Fragment) : Prop where
  ipv6Header_eq : fragment.ipv6Header = { datagram.ipv6Header with
    protocolId := ipProtIpv6ExtFragment
    payloadLength := fragmentHeaderLength + partLengthAt n f k }
  fragmentHeader_eq : fragment.fragmentHeader =
    ⟨datagram.ipv6Header.protocolId, k * f, decide (k * f + f < n), id⟩
  packet_eq : ∃ chunk, fragment.packet = Packet.ofContent chunk ∧
    Rep True chunk (seg datagram.cells (8 * (k * f : ℕ)) (8 * partLengthAt n f k))

section Send

variable {datagram : Datagram} {n f k id : ℕ}

theorem Datagram.WellFormed.length_cells (h : datagram.WellFormed n) :
    datagram.cells.length = 8 * n := by
  have hfront := h.consistent.front_nonneg
  have hback := h.consistent.back_le
  have hdata := h.dataLength_eq
  have hlen := h.consistent.wf.length_cells
  have htotal := h.consistent.length_eq
  have hseg : (datagram.cells.length : ℤ) = datagram.packet.getDataLength := by
    refine length_seg hfront (by omega) ?_
    unfold Packet.getDataLength Packet.getFrontOffset Packet.getBackOffset at *
    omega
  omega

theorem eight_le_of_tdiv_pos {x : ℤ} (h : 0 < x.tdiv 8 * 8) : 8 ≤ x := by
  rcases le_or_gt 0 x with hx | hx
  · rw [Int.tdiv_eq_ediv_of_nonneg hx] at h
    omega
  · have hneg := Int.neg_tdiv (-x) 8
    have hnonneg := Int.tdiv_nonneg (show 0 ≤ -x by omega) (show (0 : ℤ) ≤ 8 by omega)
    rw [neg_neg] at hneg
    omega

theorem spec_fragmentAt (h : datagram.WellFormed n) (hclean : datagram.packet.content.Clean)
    (hf : 0 < f) (hk : k * f < n) :
    Returns (fragmentAt datagram id n f ((k : ℤ) * f)) (IsFragment datagram id n f k) := by
  have hle := h.le
  obtain ⟨o, ho⟩ : ∃ o, o = k * f := ⟨_, rfl⟩
  rw [show (k : ℤ) * f = (o : ℤ) by rw [ho]; push_cast; rfl]
  have hlength : (if decide ((o : ℤ) + f ≥ n) = true then (n : ℤ) - o else f) =
      partLengthAt n f k := by
    rw [partLengthAt, ← ho]
    split_ifs with hlast
    · rw [decide_eq_true_eq] at hlast
      omega
    · rw [decide_eq_true_eq] at hlast
      omega
  have hpart : 0 < partLengthAt n f k ∧ o + partLengthAt n f k ≤ n := by
    rw [partLengthAt]
    omega
  unfold fragmentAt
  dsimp only
  rw [hlength]
  have hpeek := h.consistent.spec_peekDataAt hclean (show 0 ≤ 8 * (o : ℤ) by omega)
    (show 0 < 8 * (partLengthAt n f k : ℤ) by omega) (by rw [h.dataLength_eq]; omega)
  rw [← bind_assoc]
  refine hpeek.bind fun chunk hchunk => ?_
  rw [← bind_assoc]
  refine (Packet.spec_new_insertAtBack hchunk.2).bind fun packet hpacket => ?_
  have hcells : seg datagram.packet.content.cells
      (datagram.packet.getFrontOffset + 8 * o) (8 * partLengthAt n f k) =
      seg datagram.cells (8 * o) (8 * partLengthAt n f k) := by
    rw [Datagram.cells, seg_seg _ h.consistent.front_nonneg (by omega)
      (by rw [h.dataLength_eq]; omega)]
  have hlen : chunk.getChunkLength = 8 * partLengthAt n f k := by
    rw [hchunk.1.length_eq, hcells]
    refine length_seg (by omega) (by omega) ?_
    rw [h.length_cells]
    push_cast
    omega
  have hdata : packet.getDataLength = 8 * partLengthAt n f k := by
    rw [hpacket, Packet.getDataLength, Packet.ofContent, Packet.getTotalLength]
    dsimp only
    omega
  rw [assert, if_pos (by omega), pure_bind]
  refine Spec.pure ⟨rfl, ?_, chunk, hpacket, ?_⟩
  · have hmod : ((o : ℤ) % 2 ^ 16).toNat = o := by omega
    have hmore : (!decide ((o : ℤ) + f ≥ n)) = decide (o + f < n) := by
      rw [← decide_not]
      exact decide_eq_decide.2 (by omega)
    rw [hmod, hmore, ← ho]
  · rw [← ho, ← hcells]
    exact hchunk.1

theorem spec_fragmentAndSend (h : datagram.WellFormed n) (hclean : datagram.packet.content.Clean)
    {mtu : ℤ} (hmtu : mtu < headerLength + n)
    (hfragment : 0 < (mtu - headerLength - fragmentHeaderLength).tdiv 8 * 8) :
    Returns (fragmentAndSend mtu true id datagram) fun sent =>
      (0 < datagram.ipv6Header.hopLimit → ∃ fragments, sent.1 = .fragments fragments) ∧
      ∀ fragments, sent.1 = .fragments fragments → ∃ f m, 0 < f ∧ f % 8 = 0 ∧ f < n ∧
        (m - 1) * f < n ∧ n ≤ m * f ∧ List.Forall₂ (IsFragment datagram id n f)
          (List.range m) fragments := by
  unfold fragmentAndSend
  split_ifs with hhop hwhole hfrom
  · exact Spec.pure ⟨fun hpos => absurd hpos (by omega), by simp⟩
  · rw [h.dataLength_eq] at hwhole
    omega
  · exact absurd hfrom (by simp)
  · obtain ⟨f, hf⟩ : ∃ f : ℕ, (mtu - headerLength - fragmentHeaderLength).tdiv 8 * 8 = f :=
      ⟨_, (Int.toNat_of_nonneg hfragment.le).symm⟩
    rw [hf] at hfragment
    rw [h.dataLength_eq, toBytes_eq (by omega), pure_bind]
    dsimp only
    rw [hf, show 8 * (n : ℤ) / 8 = n by omega, assert, if_pos hfragment, pure_bind]
    have hfn : f < n := by
      have hle := eight_le_of_tdiv_pos (hf ▸ hfragment)
      rw [Int.tdiv_eq_ediv_of_nonneg (by omega)] at hf
      unfold headerLength fragmentHeaderLength at *
      omega
    obtain ⟨m, hm⟩ : ∃ m, m = (n + f - 1) / f := ⟨_, rfl⟩
    have hm' : ((n + f - 1 : ℤ) / f).toNat = m := by
      rw [hm, ← Int.toNat_natCast ((n + f - 1) / f), Int.natCast_div, Int.natCast_sub (by omega)]
      push_cast
      rfl
    have hf₀ : 0 < f := by omega
    have hcount : ∀ k, k < m ↔ k * f < n := by
      intro k
      rw [hm, Nat.lt_iff_add_one_le, Nat.le_div_iff_mul_le hf₀, add_mul]
      omega
    have hlast : ¬ m * f < n := fun hlt => absurd ((hcount m).2 hlt) (lt_irrefl m)
    have hpos : 0 < m := (hcount 0).2 (by omega)
    rw [hm']
    have hparts : ∀ k ∈ List.range m,
        Returns (fragmentAt datagram id n f ((k : ℤ) * f)) (IsFragment datagram id n f k) := by
      intro k hk
      rw [List.mem_range, hcount] at hk
      exact spec_fragmentAt h hclean hf₀ hk
    refine (Spec.mapM hparts).bind fun fragments hfragments => Spec.pure ⟨fun _ => ⟨_, rfl⟩, ?_⟩
    rintro _ ⟨⟩
    exact ⟨f, m, hf₀, by omega, hfn, (hcount (m - 1)).1 (by omega), by omega, hfragments⟩

end Send

/-! ## Receiving -/

/-- The parts that the received fragments bring. -/
def partsOf (n f : ℕ) (received : List ℕ) : List (ℕ × ℕ) :=
  received.map fun k => (k * f, partLengthAt n f k)

/-- The buffer of a datagram after some of its fragments. -/
structure Gathers (datagram : Datagram) (id n f : ℕ) (received : List ℕ) (buffer : DatagramBuffer) :
    Prop where
  collects : Collects datagram.cells (partsOf n f received) buffer.buf
  expected : Expected (partsOf n f received) n buffer.buf.expectedLength
  first : 0 ∈ received → ∃ fragment, buffer.packet = some fragment ∧
    IsFragment datagram id n f 0 fragment

section Parts

variable {n f m : ℕ} {received : List ℕ}

theorem covered_partsOf_iff (hf : 0 < f) {b : ℕ} (hb : b < n) :
    Covered (partsOf n f received) b ↔ b / f ∈ received := by
  have hdiv := Nat.div_add_mod b f
  have hmod := Nat.mod_lt b hf
  rw [mul_comm] at hdiv
  simp only [Covered, partsOf, List.mem_map, exists_exists_and_eq_and, partLengthAt]
  constructor
  · rintro ⟨k, hk, h₀, h₁⟩
    have heq : b / f = k := by
      refine Nat.div_eq_of_lt_le h₀ ?_
      rw [add_mul]
      omega
    rwa [heq]
  · intro hk
    exact ⟨b / f, hk, by omega, by omega⟩

theorem covered_all_iff (hf : 0 < f) (hm : (m - 1) * f < n) (hn : n ≤ m * f) :
    (∀ b < n, Covered (partsOf n f received) b) ↔ ∀ k < m, k ∈ received := by
  constructor
  · intro h k hk
    have hlt : k * f < n := lt_of_le_of_lt (Nat.mul_le_mul_right f (by omega)) hm
    have := (covered_partsOf_iff hf hlt).1 (h (k * f) hlt)
    rwa [Nat.mul_div_cancel k hf] at this
  · intro h b hb
    exact (covered_partsOf_iff hf hb).2 (h _ (Nat.div_lt_of_lt_mul (by rw [mul_comm]; omega)))

end Parts

section Receive

variable {classes : HeaderClasses} {datagram : Datagram} {id n f m k : ℕ} {received : List ℕ}
  {bufs : Ipv6FragBuf} {fragment : Fragment} {buffer : DatagramBuffer}

theorem IsFragment.walk_eq (h : IsFragment datagram id n f k fragment)
    (hext : isIpv6ExtensionHeader datagram.ipv6Header.protocolId = false) :
    fragment.walk classes = pure ([], 0) := by
  unfold Fragment.walk
  rw [walkExtensionHeaders, h.fragmentHeader_eq]
  dsimp only
  rw [hext]
  rfl

theorem IsFragment.key_eq (h : IsFragment datagram id n f k fragment) :
    fragment.key = ⟨id, datagram.ipv6Header.srcAddress, datagram.ipv6Header.destAddress⟩ := by
  rw [Fragment.key, h.fragmentHeader_eq, h.ipv6Header_eq]

theorem gathers_new (datagram : Datagram) (id n f : ℕ) :
    Gathers datagram id n f [] DatagramBuffer.new where
  collects := collects_new _
  expected := .inr ⟨rfl, by simp [Covered, partsOf]⟩
  first h := by cases h

theorem IsFragment.spec_data (h : IsFragment datagram id n f k fragment)
    (hwf : datagram.WellFormed n) (hclash : NoClash datagram.cells) (hf : 0 < f) (hk : k * f < n) :
    fragment.packet.getDataLength = 8 * partLengthAt n f k ∧
    Returns (do deref (← fragment.packet.peekDataAt none 0 (8 * partLengthAt n f k) {})) fun c =>
      Rep True c (seg datagram.cells (8 * (k * f : ℕ)) (8 * partLengthAt n f k)) := by
  obtain ⟨chunk, hpacket, hchunk⟩ := h.packet_eq
  have hpart : 0 < partLengthAt n f k ∧ k * f + partLengthAt n f k ≤ n := by
    rw [partLengthAt]
    omega
  have hlen : chunk.getChunkLength = 8 * partLengthAt n f k := by
    rw [hchunk.length_eq]
    refine length_seg (by omega) (by omega) ?_
    rw [hwf.length_cells]
    push_cast
    omega
  have hdata : (Packet.ofContent chunk).getDataLength = chunk.getChunkLength := by
    rw [Packet.getDataLength, Packet.ofContent, Packet.getTotalLength]
    dsimp only
    omega
  rw [hpacket, hdata]
  refine ⟨hlen, ?_⟩
  have hpeek := (Packet.consistent_ofContent hchunk.wf).spec_peekDataAt (hchunk.clean trivial)
    (le_refl 0) (show 0 < 8 * (partLengthAt n f k : ℤ) by omega) (by omega)
  refine hpeek.mono (fun h => h) fun c hc => ?_
  have hcells := hchunk.cells_eq (hclash.seg _ _)
  have hwhole :
    seg (Packet.ofContent chunk).content.cells ((Packet.ofContent chunk).getFrontOffset + 0)
      (8 * partLengthAt n f k) = chunk.cells := by
    exact seg_zero _ (hchunk.wf.length_cells.trans hlen).le
  rw [hwhole, hcells] at hc
  exact hc.1

theorem spec_reassemble {buf : ReassemblyBuffer} (h : IsFragment datagram id n f 0 fragment)
    (hwf : datagram.WellFormed n) (hn : 0 < n)
    (hext : isIpv6ExtensionHeader datagram.ipv6Header.protocolId = false)
    (hbuf : Returns buf.getReassembledData fun chunk =>
      chunk.WF ∧ chunk.Clean ∧ chunk.cells = datagram.cells ∧ chunk.getChunkLength = 8 * n) :
    Returns (reassemble classes fragment buf) fun d => d.Same datagram := by
  unfold reassemble
  rw [h.walk_eq hext, pure_bind]
  simp only [List.foldl_nil, List.filter_nil, List.mapM_nil, pure_bind, List.getLast?_nil,
    List.nil_append, List.foldlM_cons, List.foldlM_nil, bind_pure, sumLengths, zero_add]
  refine hbuf.bind fun chunk hchunk => ?_
  obtain ⟨hcwf, -, hcells, hlen⟩ := hchunk
  rw [hlen, toBytes_eq (by omega), pure_bind, ← bind_assoc]
  refine (Packet.spec_new_insertAtBack (by omega)).bind fun packet hpacket => Spec.pure ⟨?_, ?_⟩
  · dsimp only
    rw [h.ipv6Header_eq, h.fragmentHeader_eq, show 8 * (n : ℤ) / 8 = n by omega,
      ← hwf.payloadLength_eq]
  · dsimp only
    rw [hpacket, Packet.dataBits_ofContent hcwf, toBits, hcells, Datagram.cells, map_seg]
    rfl

theorem Gathers.added (h : Gathers datagram id n f received buffer)
    (hfragment : IsFragment datagram id n f k fragment) (hf : 0 < f) (hk : k * f < n)
    {regions : ReassemblyBuffer}
    (hcollects : Collects datagram.cells (partsOf n f (k :: received)) regions)
    (hexpected : regions.expectedLength = buffer.buf.expectedLength) :
    Gathers datagram id n f (k :: received)
      ⟨if decide (k * f + f < n) = true then regions
        else regions.setExpectedLength (8 * ((k * f : ℕ) + partLengthAt n f k)),
        if k * f = 0 then some fragment else buffer.packet⟩ := by
  constructor
  · dsimp only
    split_ifs
    · exact hcollects
    · exact hcollects
  · dsimp only
    split_ifs with hmore
    · rw [decide_eq_true_eq] at hmore
      rw [hexpected]
      refine h.expected.imp_right ?_
      rintro ⟨hunknown, hlast⟩
      refine ⟨hunknown, ?_⟩
      rw [covered_partsOf_iff hf (by omega)] at hlast ⊢
      rw [List.mem_cons, not_or]
      refine ⟨?_, hlast⟩
      rintro rfl
      have := Nat.div_mul_le_self (n - 1) f
      have := Nat.lt_div_mul_add (a := n - 1) hf
      omega
    · rw [decide_eq_true_eq] at hmore
      left
      rw [setExpectedLength, partLengthAt]
      dsimp only
      omega
  · intro hmem
    dsimp only
    split_ifs with hzero
    · obtain rfl : k = 0 := by
        rcases Nat.mul_eq_zero.1 hzero with hk | hf'
        · exact hk
        · omega
      exact ⟨fragment, rfl, hfragment⟩
    · refine h.first ((List.mem_cons.1 hmem).resolve_left ?_)
      rintro rfl
      exact hzero (zero_mul f)

theorem Gathers.spec_addFragment (h : Gathers datagram id n f received
      ((bufs fragment.key).getD DatagramBuffer.new))
    (hfragment : IsFragment datagram id n f k fragment) (hwf : datagram.WellFormed n)
    (hclash : NoClash datagram.cells)
    (hext : isIpv6ExtensionHeader datagram.ipv6Header.protocolId = false)
    (hf : 0 < f) (hf8 : f % 8 = 0) (hm : (m - 1) * f < n) (hn : n ≤ m * f) (hk : k < m) :
    Returns (addFragment classes bufs fragment) fun added =>
      if ∀ j < m, j ∈ k :: received then
        (∃ d, added.1 = .complete d ∧ d.Same datagram) ∧ added.2 fragment.key = none
      else
        added.1 = .incomplete ∧ ∃ buffer, added.2 fragment.key = some buffer ∧
          Gathers datagram id n f (k :: received) buffer := by
  have hkf : k * f < n := lt_of_le_of_lt (Nat.mul_le_mul_right f (by omega)) hm
  obtain ⟨hdata, hpeek⟩ := hfragment.spec_data hwf hclash hf hkf
  have hpart : 0 < partLengthAt n f k ∧ k * f + partLengthAt n f k ≤ n := by
    rw [partLengthAt]
    omega
  have hle := hwf.le
  generalize hbuffer : (bufs fragment.key).getD DatagramBuffer.new = buffer at h
  unfold addFragment
  rw [hbuffer, hfragment.walk_eq hext, pure_bind]
  dsimp only
  rw [toBytes_eq (by omega), pure_bind, hdata, hfragment.fragmentHeader_eq]
  dsimp only
  rw [show headerLength + fragmentHeaderLength + (8 * (partLengthAt n f k : ℤ) + 7) / 8 -
      (headerLength + fragmentHeaderLength + 0 / 8) = partLengthAt n f k by omega,
    show 8 * (headerLength + fragmentHeaderLength + 0 / 8 - headerLength - fragmentHeaderLength) = 0
      by omega]
  have hvalid : ¬ ((decide (k * f + f < n) = true ∧ (partLengthAt n f k : ℤ) % 8 ≠ 0) ∨
      ((k * f : ℕ) : ℤ) + partLengthAt n f k > 65535) := by
    rw [decide_eq_true_eq, partLengthAt]
    omega
  rw [if_neg hvalid, ← bind_assoc]
  refine hpeek.bind fun data hdata => ?_
  refine (h.collects.spec_replace hclash hpart.1 (by rw [hwf.length_cells]; omega) hdata).bind
    fun regions hregions => ?_
  obtain ⟨hcollects, hexpected⟩ := hregions
  set regions' := if decide (k * f + f < n) = true then regions
    else regions.setExpectedLength (8 * ((k * f : ℕ) + partLengthAt n f k)) with hregions'
  have hgathers : Gathers datagram id n f (k :: received)
      ⟨regions', if k * f = 0 then some fragment else buffer.packet⟩ :=
    h.added hfragment hf hkf hcollects hexpected
  have hcomplete := (hgathers.collects.isComplete_iff hwf.length_cells (by omega)
    hgathers.expected).trans (covered_all_iff hf hm hn)
  by_cases hall : ∀ j < m, j ∈ k :: received
  · rw [if_pos (hcomplete.2 hall)]
    simp only [if_pos hall]
    obtain ⟨first, hfirst, hisFirst⟩ := hgathers.first (hall 0 (by omega))
    dsimp only at hfirst
    rw [hfirst]
    refine (spec_reassemble hisFirst hwf (by omega) hext ?_).bind fun d hd =>
      Spec.pure ⟨⟨d, rfl, hd⟩, Function.update_self ..⟩
    exact hgathers.collects.spec_getReassembledData hwf.length_cells (by omega)
      ((covered_all_iff hf hm hn).2 hall) (hcomplete.2 hall)
  · rw [if_neg fun h => hall (hcomplete.1 h)]
    simp only [if_neg hall]
    exact Spec.pure ⟨rfl, _, Function.update_self .., hgathers⟩

theorem spec_addFragment_other (classes : HeaderClasses) (bufs : Ipv6FragBuf) (pk : Fragment) :
    Spec True (addFragment classes bufs pk) fun added =>
      ∀ key, key ≠ pk.key → added.2 key = bufs key := by
  unfold addFragment
  refine (spec_true _).bind fun walked _ => ?_
  dsimp only
  refine (spec_true _).bind fun bytes _ => ?_
  split
  · exact Spec.pure fun key hkey => Function.update_of_ne hkey ..
  · refine (spec_true _).bind fun peeked _ => (spec_true _).bind fun data _ => ?_
    refine (spec_true _).bind fun regions _ => ?_
    generalize (if pk.fragmentHeader.moreFragments = true then regions else _) = regions'
    generalize (if pk.fragmentHeader.fragmentOffset = 0 then some pk else _) = packet
    split
    · cases packet with
      | none => exact Spec.throw trivial
      | some first =>
        exact (spec_true _).bind fun d _ => Spec.pure fun key hkey => Function.update_of_ne hkey ..
    · exact Spec.pure fun key hkey => Function.update_of_ne hkey ..

end Receive

/-! ## Runs -/

/-- The buffers after calls of `addFragment`, with the numbers of the given fragments that have
arrived since the last time they were complete. All other fragments have other keys. -/
inductive Arrived (classes : HeaderClasses) (key : Key) (fragments : List Fragment) :
    Ipv6FragBuf → List ℕ → Prop
  | empty : Arrived classes key fragments (fun _ => none) []
  | stored {bufs bufs' : Ipv6FragBuf} {received : List ℕ} {k : ℕ} {fragment : Fragment}
      {added : Added} {s s' : ℕ} (h : Arrived classes key fragments bufs received)
      (hfragment : fragments[k]? = some fragment)
      (hrun : (addFragment classes bufs fragment).run s = .ok ((added, bufs'), s'))
      (hadded : ∀ d, added ≠ .complete d) : Arrived classes key fragments bufs' (k :: received)
  | completed {bufs bufs' : Ipv6FragBuf} {received : List ℕ} {k : ℕ} {fragment : Fragment}
      {d : Datagram} {s s' : ℕ} (h : Arrived classes key fragments bufs received)
      (hfragment : fragments[k]? = some fragment)
      (hrun : (addFragment classes bufs fragment).run s = .ok ((.complete d, bufs'), s')) :
      Arrived classes key fragments bufs' []
  | other {bufs bufs' : Ipv6FragBuf} {received : List ℕ} {fragment : Fragment} {added : Added}
      {s s' : ℕ} (h : Arrived classes key fragments bufs received) (hkey : fragment.key ≠ key)
      (hrun : (addFragment classes bufs fragment).run s = .ok ((added, bufs'), s')) :
      Arrived classes key fragments bufs' received

/-- In every run, the arrival of a fragment returns a null pointer as long as others are missing,
and the datagram when it is the last one. -/
def Reassembles (classes : HeaderClasses) (datagram : Datagram) (key : Key)
    (fragments : List Fragment) : Prop :=
  ∀ bufs received, Arrived classes key fragments bufs received →
    ∀ k fragment, fragments[k]? = some fragment →
      Returns (addFragment classes bufs fragment) fun added =>
        if ∀ j < fragments.length, j ∈ k :: received then
          ∃ d, added.1 = .complete d ∧ d.Same datagram
        else added.1 = .incomplete

/-- The key of the fragments of a datagram. -/
def Datagram.key (this : Datagram) (id : ℕ) : Key :=
  ⟨id, this.ipv6Header.srcAddress, this.ipv6Header.destAddress⟩

section Runs

variable {classes : HeaderClasses} {datagram : Datagram} {id n f m : ℕ} {fragments : List Fragment}
  {bufs : Ipv6FragBuf} {received : List ℕ}

theorem isFragment_of_getElem?
    (hfragments : List.Forall₂ (IsFragment datagram id n f) (List.range m) fragments) {k : ℕ}
    {fragment : Fragment} (hk : fragments[k]? = some fragment) :
    k < m ∧ IsFragment datagram id n f k fragment := by
  obtain ⟨hlen, hget⟩ := List.forall₂_iff_get.1 hfragments
  obtain ⟨hlt, rfl⟩ := List.getElem?_eq_some_iff.1 hk
  have hm : k < (List.range m).length := by omega
  have hfragment := hget k hm hlt
  rw [List.get_eq_getElem, List.getElem_range] at hfragment
  exact ⟨by simpa using hm, hfragment⟩

theorem Arrived.gathers
    (hfragments : List.Forall₂ (IsFragment datagram id n f) (List.range m) fragments)
    (hwf : datagram.WellFormed n) (hclash : NoClash datagram.cells)
    (hext : isIpv6ExtensionHeader datagram.ipv6Header.protocolId = false)
    (hf : 0 < f) (hf8 : f % 8 = 0) (hm : (m - 1) * f < n) (hn : n ≤ m * f)
    (h : Arrived classes (datagram.key id) fragments bufs received) :
    Gathers datagram id n f received ((bufs (datagram.key id)).getD DatagramBuffer.new) := by
  induction h with
  | empty => exact gathers_new datagram id n f
  | stored _ hfragment hrun hadded ih =>
    obtain ⟨hk, hfragment⟩ := isFragment_of_getElem? hfragments hfragment
    have hkey : _ = datagram.key id := hfragment.key_eq
    rw [← hkey] at ih ⊢
    have hspec := (ih.spec_addFragment hfragment hwf hclash hext hf hf8 hm hn hk).of_run hrun
    split_ifs at hspec with hall
    · obtain ⟨⟨d, hd, -⟩, -⟩ := hspec
      exact absurd hd (hadded d)
    · obtain ⟨-, buffer, hbuffer, hgathers⟩ := hspec
      dsimp only at hbuffer
      rwa [hbuffer]
  | completed _ hfragment hrun ih =>
    obtain ⟨hk, hfragment⟩ := isFragment_of_getElem? hfragments hfragment
    have hkey : _ = datagram.key id := hfragment.key_eq
    rw [← hkey] at ih ⊢
    have hspec := (ih.spec_addFragment hfragment hwf hclash hext hf hf8 hm hn hk).of_run hrun
    split_ifs at hspec with hall
    · obtain ⟨-, hnone⟩ := hspec
      dsimp only at hnone
      rw [hnone]
      exact gathers_new datagram id n f
    · cases hspec.1
  | other _ hkey hrun ih =>
    have hsame := (spec_addFragment_other _ _ _).of_run hrun _ hkey.symm
    dsimp only at hsame
    rwa [hsame]

end Runs

/-! ## Extension headers

The data of a first fragment is moved to the front by the extension headers in it, which leaves a
gap behind it that no other fragment fills. -/

/-- An extension header that is found in the packet takes some bits. -/
def HeaderClasses.Positive (classes : HeaderClasses) (packet : Packet) : Prop :=
  ∀ (id : ℕ) (off : ℤ) (s s' : ℕ) (extHdr : Chunk),
    (packet.peekDataAt (some (classes.request id)) off (-1) {}).run s = .ok (some extHdr, s') →
      0 < extHdr.getChunkLength

/-- The last byte before the second fragment is missing, and the data has to go beyond it. -/
def Gap (f : ℕ) (buffer : DatagramBuffer) : Prop :=
  (∃ stored : ℤ → Option Cell, ChunkBuffer.Keeps stored buffer.buf.toChunkBuffer ∧
    (∀ i cell, stored i = some cell → cell.counted = false) ∧ stored (8 * ((f : ℤ) - 1)) = none) ∧
  (buffer.buf.expectedLength = -1 ∨ 8 * (f : ℤ) < buffer.buf.expectedLength)

section Gap

variable {classes : HeaderClasses} {datagram : Datagram} {id n f m k : ℕ} {bufs : Ipv6FragBuf}
  {fragment : Fragment} {buffer : DatagramBuffer}

theorem HeaderClasses.Positive.spec_walk {packet : Packet} (h : classes.Positive packet)
    (bound : ℕ) (off : ℤ) (nextHdr : ℕ) :
    Spec True (walkExtensionHeaders classes packet bound off nextHdr) fun walked =>
      off ≤ walked.2 ∧ (isIpv6ExtensionHeader nextHdr = true → off < walked.2) := by
  induction bound generalizing off nextHdr with
  | zero => exact Spec.throw trivial
  | succ bound ih =>
    rw [walkExtensionHeaders]
    split_ifs with hext
    · have hpeek : Spec True
          (packet.peekDataAt (some (classes.request nextHdr)) off (-1) {}) fun peeked =>
            ∀ extHdr, peeked = some extHdr → 0 < extHdr.getChunkLength := by
        intro s
        cases hrun : (packet.peekDataAt (some (classes.request nextHdr)) off (-1) {}).run s with
        | error e => trivial
        | ok result =>
          intro extHdr hsome
          exact h nextHdr off s result.2 extHdr (hrun.trans (by rw [← hsome]))
      refine hpeek.bind fun peeked hpeeked => ?_
      cases peeked with
      | none => exact Spec.throw trivial
      | some extHdr =>
        have hpos := hpeeked extHdr rfl
        refine Spec.bind (Spec.pure rfl : Spec True (deref (some extHdr)) fun c => c = extHdr) ?_
        rintro _ rfl
        refine (ih _ _).bind fun walked hwalked => Spec.pure ⟨?_, fun _ => ?_⟩
        · exact le_trans (by omega) hwalked.1
        · exact lt_of_lt_of_le (by omega) hwalked.1
    · exact Spec.pure ⟨le_rfl, fun h => absurd h hext⟩

theorem gap_new (f : ℕ) : Gap f DatagramBuffer.new :=
  ⟨⟨fun _ => none, ChunkBuffer.keeps_new, by simp, rfl⟩, .inl rfl⟩

theorem Gap.not_isComplete (h : Gap f buffer) (hf : 0 < f) : buffer.buf.isComplete = false := by
  obtain ⟨⟨stored, hkeeps, -, hnone⟩, hexpected⟩ := h
  rw [Bool.eq_false_iff]
  intro hcomplete
  unfold ReassemblyBuffer.isComplete at hcomplete
  split at hcomplete
  · next region hregions =>
    obtain ⟨hoffset, hlength⟩ := of_decide_eq_true hcomplete
    have hregion : region ∈ buffer.buf.regions := by rw [hregions]; exact List.mem_cons_self
    have hpos := hkeeps.length_pos hregion
    have hend : region.getEndOffset = region.offset + region.data.getChunkLength := rfl
    have hsome := hkeeps.isSome_of_mem hregion
      (show region.offset ≤ 8 * ((f : ℤ) - 1) by omega) (by omega)
    rw [hnone] at hsome
    cases hsome
  · cases hcomplete

theorem Gap.spec_replace (h : Gap f buffer) {data : Chunk} {xs : List Cell} {offset : ℕ}
    (hdata : Rep True data xs) (hplain : ∀ cell ∈ xs, cell.counted = false) (hpos : 0 < xs.length)
    (hout : 8 * ((f : ℤ) - 1) < 8 * offset ∨ 8 * (offset : ℤ) + xs.length ≤ 8 * ((f : ℤ) - 1)) :
    Returns (buffer.buf.replace (8 * offset) data) fun regions =>
      (∀ packet, Gap f ⟨regions, packet⟩) ∧
        regions.expectedLength = buffer.buf.expectedLength := by
  obtain ⟨⟨stored, hkeeps, hstored, hnone⟩, hexpected⟩ := h
  have hcells := hdata.cells_eq (noClash_of_plain hplain)
  have hlength := hdata.length_eq
  have hwritten : ∀ i cell,
      ChunkBuffer.written stored (8 * offset) data.cells i = some cell → cell.counted = false := by
    intro i cell hcell
    rcases ChunkBuffer.mem_of_written hcell with hmem | hmem
    · exact hplain cell (hcells ▸ hmem)
    · exact hstored i cell hmem
  refine (hkeeps.spec_replace (by omega) hdata.wf (by omega) (hdata.clean trivial)
    (ChunkBuffer.agrees_of_uncounted hwritten)).bind fun regions hregions => Spec.pure ⟨?_, rfl⟩
  refine fun packet => ⟨⟨_, hregions, hwritten, ?_⟩, hexpected⟩
  rw [ChunkBuffer.written, if_neg (by rw [hcells]; omega), hnone]

theorem spec_peekDataAt_end {packet : Packet} (h : packet.Consistent)
    (hclean : packet.content.Clean) {offset length : ℤ} (h₀ : 0 ≤ offset)
    (hend : 8 * offset + 8 * length = packet.getDataLength) :
    Spec True (do deref (← packet.peekDataAt none (8 * offset) (8 * length) {})) fun c =>
      0 < length ∧ Rep True c
        (seg packet.content.cells (packet.getFrontOffset + 8 * offset) (8 * length)) := by
  rcases lt_trichotomy length 0 with hneg | rfl | hpos
  · refine Spec.bind_of_false ?_
    unfold Packet.peekDataAt
    refine (spec_true _).bind fun _ _ => Spec.bind_of_false ?_
    rw [checkUsage, if_neg (by omega)]
    exact Spec.throw trivial
  · refine Spec.bind_of_false ?_
    unfold Packet.peekDataAt
    refine (spec_true _).bind fun _ _ => (spec_true _).bind fun _ _ => ?_
    rw [if_neg (by omega), mul_zero]
    have hfront := h.front_nonneg
    have hback := h.back_le
    have hlength := h.length_eq
    unfold Packet.getDataLength Packet.getFrontOffset Packet.getBackOffset at *
    exact throws_peek_empty (by dsimp only; omega) (by dsimp only; omega)
  · exact (h.spec_peekDataAt hclean (by omega) (by omega) hend.le).mono (fun h => h.elim)
      fun c hc => ⟨hpos, hc.1⟩

theorem Gap.spec_addFragment (h : Gap f ((bufs fragment.key).getD DatagramBuffer.new))
    (hfragment : IsFragment datagram id n f k fragment) (hwf : datagram.WellFormed n)
    (hplain : datagram.packet.content.NoBitCounts)
    (hpositive : classes.Positive fragment.packet)
    (hext : isIpv6ExtensionHeader datagram.ipv6Header.protocolId = true)
    (hf : 0 < f) (hfn : f < n) (hk : k * f < n) :
    Spec True (addFragment classes bufs fragment) fun added =>
      (∀ d, added.1 ≠ .complete d) ∧
        Gap f ((added.2 fragment.key).getD DatagramBuffer.new) := by
  have hcells : ∀ cell ∈ datagram.cells, cell.counted = false := fun cell hcell =>
    hplain.plain cell (List.mem_of_mem_drop (List.mem_of_mem_take hcell))
  obtain ⟨hdata, -⟩ := hfragment.spec_data hwf (noClash_of_plain hcells) hf hk
  obtain ⟨chunk, hpacket, hchunk⟩ := hfragment.packet_eq
  generalize hbuffer : (bufs fragment.key).getD DatagramBuffer.new = buffer at h
  unfold addFragment
  rw [hbuffer]
  refine (hpositive.spec_walk _ _ _).bind fun walked hwalked => ?_
  rw [hfragment.fragmentHeader_eq] at hwalked
  have hoff := hwalked.2 hext
  dsimp only
  by_cases hbytes : walked.2 % 8 = 0
  swap
  · refine Spec.bind_of_false ?_
    rw [toBytes, if_neg hbytes]
    exact Spec.throw trivial
  rw [toBytes_eq hbytes, pure_bind, hdata, hfragment.fragmentHeader_eq]
  generalize hskip : walked.2 / 8 = skip
  have hskip₀ : 0 < skip := by omega
  have hpartLength : partLengthAt n f k ≤ f := min_le_left _ _
  rw [show headerLength + fragmentHeaderLength + (8 * (partLengthAt n f k : ℤ) + 7) / 8 -
      (headerLength + fragmentHeaderLength + skip) = partLengthAt n f k - skip by omega,
    show headerLength + fragmentHeaderLength + skip - headerLength - fragmentHeaderLength = skip
      by omega]
  dsimp only
  split
  · refine Spec.pure ⟨by simp, ?_⟩
    dsimp only
    rwa [Function.update_self]
  · rw [← bind_assoc, hpacket]
    have hdata' : (Packet.ofContent chunk).getDataLength = 8 * partLengthAt n f k := by
      rw [← hpacket, hdata]
    refine (spec_peekDataAt_end (Packet.consistent_ofContent hchunk.wf) (hchunk.clean trivial)
      hskip₀.le (by omega)).bind fun data hpeeked => ?_
    obtain ⟨hlength, hpart⟩ := hpeeked
    have hplain' : ∀ cell ∈ seg chunk.cells (8 * skip) (8 * (partLengthAt n f k - skip)),
        cell.counted = false := by
      intro cell hcell
      rw [hchunk.cells_eq (noClash_of_plain fun cell hcell =>
        hcells cell (List.mem_of_mem_drop (List.mem_of_mem_take hcell)))] at hcell
      exact hcells cell (List.mem_of_mem_drop (List.mem_of_mem_take
        (List.mem_of_mem_drop (List.mem_of_mem_take hcell))))
    have hpart' : Rep True data (seg chunk.cells (8 * skip) (8 * (partLengthAt n f k - skip))) := by
      rw [← zero_add (8 * skip)]
      exact hpart
    have hsegLength := length_seg (show 0 ≤ 8 * skip by omega)
      (show 0 ≤ 8 * (partLengthAt n f k - skip) by omega)
      (show 8 * skip + 8 * (partLengthAt n f k - skip) ≤ chunk.cells.length by
        rw [hchunk.wf.length_cells]
        have := hdata'
        rw [Packet.getDataLength, Packet.ofContent, Packet.getTotalLength] at this
        dsimp only at this
        omega)
    refine ((h.spec_replace hpart' hplain' (by omega) ?_).mono (fun h => h.elim) fun _ h => h).bind
      fun regions hregions => ?_
    · rw [hsegLength]
      rcases Nat.eq_zero_or_pos k with rfl | hk₀
      · right
        omega
      · left
        have := Nat.le_mul_of_pos_left f hk₀
        omega
    · obtain ⟨hgap, hexpected⟩ := hregions
      generalize hpk : (if k * f = 0 then some fragment else buffer.packet) = packet
      have hgap' : Gap f ⟨if decide (k * f + f < n) = true then regions
          else regions.setExpectedLength (8 * ((k * f : ℕ) + (partLengthAt n f k - skip))),
          packet⟩ := by
        split_ifs with hmore
        · exact hgap packet
        · rw [decide_eq_true_eq] at hmore
          have hk₀ : 0 < k := by
            rcases Nat.eq_zero_or_pos k with rfl | hk₀
            · omega
            · exact hk₀
          have := Nat.le_mul_of_pos_left f hk₀
          refine ⟨(hgap packet).1, .inr ?_⟩
          rw [setExpectedLength]
          dsimp only
          omega
      rw [if_neg (by rw [hgap'.not_isComplete hf]; simp)]
      refine Spec.pure ⟨by simp, ?_⟩
      dsimp only
      rwa [Function.update_self]

/-- In every run, the fragments of a datagram that begins with an extension header leave the gap. -/
theorem Arrived.gap {fragments : List Fragment} {received : List ℕ}
    (hfragments : List.Forall₂ (IsFragment datagram id n f) (List.range m) fragments)
    (hwf : datagram.WellFormed n) (hplain : datagram.packet.content.NoBitCounts)
    (hpositive : ∀ fragment ∈ fragments, classes.Positive fragment.packet)
    (hext : isIpv6ExtensionHeader datagram.ipv6Header.protocolId = true)
    (hf : 0 < f) (hfn : f < n) (hm : (m - 1) * f < n)
    (h : Arrived classes (datagram.key id) fragments bufs received) :
    Gap f ((bufs (datagram.key id)).getD DatagramBuffer.new) := by
  have hstep :
    ∀ {bufs bufs' : Ipv6FragBuf} {k : ℕ} {fragment : Fragment} {added : Added} {s s' : ℕ},
      fragments[k]? = some fragment →
      (addFragment classes bufs fragment).run s = .ok ((added, bufs'), s') →
      Gap f ((bufs (datagram.key id)).getD DatagramBuffer.new) →
      Gap f ((bufs' (datagram.key id)).getD DatagramBuffer.new) := by
    intro bufs bufs' k fragment added s s' hfragment hrun ih
    have hpositive := hpositive fragment (List.mem_of_getElem? hfragment)
    obtain ⟨hk, hfragment⟩ := isFragment_of_getElem? hfragments hfragment
    have hkey : _ = datagram.key id := hfragment.key_eq
    rw [← hkey] at ih ⊢
    have hkf : k * f < n := lt_of_le_of_lt (Nat.mul_le_mul_right f (by omega)) hm
    exact ((ih.spec_addFragment hfragment hwf hplain hpositive hext hf hfn hkf).of_run hrun).2
  induction h with
  | empty => exact gap_new f
  | stored _ hfragment hrun _ ih => exact hstep hfragment hrun ih
  | completed _ hfragment hrun ih => exact hstep hfragment hrun ih
  | other _ hkey hrun ih =>
    have hsame := (spec_addFragment_other _ _ _).of_run hrun _ hkey.symm
    dsimp only at hsame
    rwa [hsame]

/-- The fragments that begin with an extension header never reassemble. -/
theorem not_reassembles {fragments : List Fragment}
    (hfragments : List.Forall₂ (IsFragment datagram id n f) (List.range m) fragments)
    (hwf : datagram.WellFormed n) (hplain : datagram.packet.content.NoBitCounts)
    (hpositive : ∀ fragment ∈ fragments, classes.Positive fragment.packet)
    (hext : isIpv6ExtensionHeader datagram.ipv6Header.protocolId = true)
    (hf : 0 < f) (hfn : f < n) (hm : (m - 1) * f < n) (hn : n ≤ m * f) :
    ¬ Reassembles classes datagram (datagram.key id) fragments := by
  intro h
  have hlength : fragments.length = m := by rw [← hfragments.length_eq, List.length_range]
  have hm₀ : 0 < m := by
    rcases Nat.eq_zero_or_pos m with rfl | hm₀
    · omega
    · exact hm₀
  -- all fragments but the last one arrive in order
  have harrive : ∀ j, j < m → ∃ bufs received,
      Arrived classes (datagram.key id) fragments bufs received ∧ ∀ i, i ∈ received ↔ i < j := by
    intro j
    induction j with
    | zero => exact fun _ => ⟨_, [], .empty, by simp⟩
    | succ j ih =>
      intro hj
      obtain ⟨bufs, received, harrived, hreceived⟩ := ih (by omega)
      have hget : fragments[j]? = some fragments[j] := List.getElem?_eq_getElem (by omega)
      obtain ⟨⟨added, bufs'⟩, s', hrun, hadded⟩ :=
        (h bufs received harrived j _ hget).exists_run 0
      have hmissing : ¬ ∀ i < fragments.length, i ∈ j :: received := by
        intro hall
        have := hall (j + 1) (by omega)
        rw [List.mem_cons, hreceived] at this
        omega
      rw [if_neg hmissing] at hadded
      refine ⟨bufs', j :: received, harrived.stored hget hrun ?_, ?_⟩
      · rintro d rfl
        cases hadded
      · intro i
        rw [List.mem_cons, hreceived]
        omega
  obtain ⟨bufs, received, harrived, hreceived⟩ := harrive (m - 1) (by omega)
  have hget : fragments[m - 1]? = some fragments[m - 1] := List.getElem?_eq_getElem (by omega)
  obtain ⟨⟨added, bufs'⟩, s', hrun, hadded⟩ :=
    (h bufs received harrived (m - 1) _ hget).exists_run 0
  have hall : ∀ i < fragments.length, i ∈ (m - 1) :: received := by
    intro i hi
    rw [List.mem_cons, hreceived]
    omega
  rw [if_pos hall] at hadded
  obtain ⟨d, hd, -⟩ := hadded
  obtain ⟨-, hfragment⟩ := isFragment_of_getElem? hfragments hget
  have hgap := harrived.gap hfragments hwf hplain hpositive hext hf hfn hm
  rw [show datagram.key id = _ from hfragment.key_eq.symm] at hgap
  exact ((hgap.spec_addFragment hfragment hwf hplain (hpositive _ (List.getElem_mem _)) hext hf hfn
    hm).of_run hrun).1 d hd

end Gap

/-- A datagram that is too long for the link is fragmented. Its fragments reassemble to it if it
does not begin with an extension header that the reassembly walks over, and they never do
otherwise. -/
theorem fragments_reassemble (classes : HeaderClasses) {datagram : Datagram} {n : ℕ} (id : ℕ)
    {mtu : ℤ} (hwf : datagram.WellFormed n) (hmtu : mtu < headerLength + n)
    (hfragment : 0 < (mtu - headerLength - fragmentHeaderLength).tdiv 8 * 8)
    (hclean : datagram.packet.content.Clean) (hclash : NoClash datagram.cells) :
    Returns (fragmentAndSend mtu true id datagram) fun sent =>
      (0 < datagram.ipv6Header.hopLimit → ∃ fragments, sent.1 = .fragments fragments) ∧
      ∀ fragments, sent.1 = .fragments fragments →
        (∀ fragment ∈ fragments, fragment.key = datagram.key id) ∧
        (isIpv6ExtensionHeader datagram.ipv6Header.protocolId = false →
          Reassembles classes datagram (datagram.key id) fragments) ∧
        (isIpv6ExtensionHeader datagram.ipv6Header.protocolId = true →
          datagram.packet.content.NoBitCounts →
          (∀ fragment ∈ fragments, classes.Positive fragment.packet) →
          ¬ Reassembles classes datagram (datagram.key id) fragments) := by
  refine (spec_fragmentAndSend hwf hclean hmtu hfragment).mono (fun h => h) ?_
  rintro sent ⟨hsent, hall⟩
  refine ⟨hsent, fun fragments hfragments => ?_⟩
  obtain ⟨f, m, hf, hf8, hfn, hm, hn, hparts⟩ := hall fragments hfragments
  refine ⟨?_, ?_, ?_⟩
  · intro fragment hmem
    obtain ⟨k, hk⟩ := List.getElem?_of_mem hmem
    exact (isFragment_of_getElem? hparts hk).2.key_eq
  · intro hext bufs received harrived k fragment hk
    obtain ⟨hkm, hisFragment⟩ := isFragment_of_getElem? hparts hk
    have hgathers := harrived.gathers hparts hwf hclash hext hf hf8 hm hn
    rw [show datagram.key id = fragment.key from hisFragment.key_eq.symm] at hgathers
    have hlength : fragments.length = m := by
      rw [← hparts.length_eq, List.length_range]
    rw [hlength]
    refine (hgathers.spec_addFragment hisFragment hwf hclash hext hf hf8 hm hn hkm).mono
      (fun h => h) fun added hadded => ?_
    split_ifs at hadded ⊢
    · exact hadded.1
    · exact hadded.1
  · intro hext hplain hpositive
    exact not_reassembles hparts hwf hplain hpositive hext hf hfn hm hn

/-! Datagrams with 32 bytes behind the base header, on a link for 16 of them. -/

def sampleHeader (protocolId : ℕ) : Ipv6Header :=
  { srcAddress := ⟨1, 0, 0, 1⟩, destAddress := ⟨1, 0, 0, 2⟩, payloadLength := 32, hopLimit := 64,
    protocolId }

/-- Options headers of the shortest length, with the next header in their first byte. -/
def sampleClasses : HeaderClasses where
  request id :=
    { predicate := fun chunk => match chunk with
        | some (.fields _ _ type _) => type == id
        | _ => false
      converter := fun chunk iterator _ _ => do
        return .fields (← newHeader) 64 id (seg chunk.toBits iterator.position 64) }
  getNextHeaderProtocol chunk := match chunk with
    | .fields _ _ _ serialized =>
      (serialized.take 8).foldl (fun value bit => 2 * value + bit.toNat) 0
    | _ => ipProtNone
  setNextHeaderProtocol chunk next := match chunk with
    | .fields header length type serialized => .fields header length type
        ((List.range 8).map (fun k => next.testBit (7 - k)) ++ serialized.drop 8)
    | _ => chunk

def sampleChunkHeader (id : ℕ) : ChunkHeader := ⟨id, false, false, false⟩

/-- Bytes of which the 17th is 17. -/
def samplePayload (length : ℕ) : Chunk :=
  .bytes (sampleChunkHeader 1) (List.replicate (length - 16) 0 ++ 17 :: List.replicate 15 0)

/-- A destination options header before a UDP header. -/
def sampleOptions : Chunk :=
  .fields (sampleChunkHeader 2) 64 60
    ([false, false, false, true, false, false, false, true] ++ List.replicate 56 false)

def sampleDatagram : Datagram := ⟨sampleHeader 17, .ofContent (samplePayload 32)⟩

def sampleOptionsDatagram : Datagram :=
  ⟨sampleHeader 60, .ofContent (.sequence (sampleChunkHeader 3) [sampleOptions, samplePayload 24])⟩

theorem sampleDatagram_wellFormed : sampleDatagram.WellFormed 32 where
  consistent := Packet.consistent_ofContent trivial
  dataLength_eq := rfl
  payloadLength_eq := rfl
  le := by decide

theorem sampleOptionsDatagram_wellFormed : sampleOptionsDatagram.WellFormed 32 where
  consistent := Packet.consistent_ofContent (by
    simp [sampleOptions, samplePayload, WF, AllWF, getChunkLength])
  dataLength_eq := rfl
  payloadLength_eq := rfl
  le := by decide

/-- The fragments of a datagram without extension headers. -/
theorem fragments_reassemble_udp : ∃ fragments next s',
    (fragmentAndSend 64 true 7 sampleDatagram).run 9 = .ok ((.fragments fragments, next), s') ∧
      Reassembles sampleClasses sampleDatagram (sampleDatagram.key 7) fragments := by
  have hspec := fragments_reassemble sampleClasses 7 sampleDatagram_wellFormed
    (show (64 : ℤ) < headerLength + 32 by decide) (by decide) ⟨rfl, rfl, rfl⟩
    ((show (samplePayload 32).NoBitCounts from trivial).noClash.seg _ _)
  obtain ⟨⟨sent, next⟩, s', hrun, hsent, hall⟩ := hspec.exists_run 9
  obtain ⟨fragments, rfl⟩ := hsent (by decide)
  exact ⟨fragments, next, s', hrun, (hall fragments rfl).2.1 (by decide)⟩

/-- A fragment of the second datagram. -/
def sampleFragment (fragmentOffset : ℕ) (moreFragments : Bool) (content : Chunk) : Fragment where
  ipv6Header := { sampleHeader ipProtIpv6ExtFragment with payloadLength := 24 }
  protocolId_eq := rfl
  fragmentHeader := ⟨60, fragmentOffset, moreFragments, 7⟩
  packet := .ofContent content

def sampleFirst : Fragment := sampleFragment 0 true
  (.sequence (sampleChunkHeader 9)
    [sampleOptions, .bytes (sampleChunkHeader 11) (List.replicate 8 0)])

def sampleSecond : Fragment :=
  sampleFragment 16 false (.bytes (sampleChunkHeader 13) (17 :: List.replicate 15 0))

theorem sampleFragments_incomplete : ∃ bufs bufs' s s',
    (addFragment sampleClasses (fun _ => none) sampleFirst).run 15 = .ok ((.incomplete, bufs), s) ∧
      (addFragment sampleClasses bufs sampleSecond).run s = .ok ((.incomplete, bufs'), s') :=
  ⟨_, _, _, _, rfl, rfl⟩

/-- The destination options header is in the first fragment, and the reassembly finds another one in
the data of the second fragment. All fragments arrive, and no datagram is returned. -/
theorem fragments_with_options : ∃ fragments next s s',
    (fragmentAndSend 64 true 7 sampleOptionsDatagram).run s =
      .ok ((.fragments fragments, next), s') ∧
      sampleOptionsDatagram.WellFormed 32 ∧
      ¬ Reassembles sampleClasses sampleOptionsDatagram
        (sampleOptionsDatagram.key 7) fragments := by
  refine ⟨[sampleFirst, sampleSecond], 8, 9, 15, rfl, sampleOptionsDatagram_wellFormed, ?_⟩
  intro h
  obtain ⟨bufs, bufs', s, s', hfirst, hsecond⟩ := sampleFragments_incomplete
  have harrived : Arrived sampleClasses (sampleOptionsDatagram.key 7) [sampleFirst, sampleSecond]
      bufs [0] := .stored .empty rfl hfirst (by simp)
  have hadded := (h bufs [0] harrived 1 sampleSecond rfl).of_run hsecond
  rw [if_pos (by decide)] at hadded
  obtain ⟨d, hd, -⟩ := hadded
  cases hd

end Inet.Ipv6
