import Mathlib.Data.List.Chain
import Inet.ProtocolElement.Defragmenter

/-! # Fragments over a link that loses and duplicates

Of the fragments of some packets, sent one packet after the other, each arrives
any number of times. What a defragmenter delivers are runs of arrivals that
follow each other directly; it delivers a packet that arrives whole exactly when
nothing is being assembled as its first fragment arrives.
-/

namespace Inet.Fragmentation

open DefragmenterBase

variable {η α : Type} {labelling : Labelling η} {policy : LengthBasedFragmenterPolicy}

/-- A packet with the fragments that are made of it. -/
structure Fragmented (labelling : Labelling η) (policy : LengthBasedFragmenterPolicy)
    (α : Type) where
  packet : Packet α
  fragments : List (Fragment η α)
  pushPacket_eq : pushPacket labelling policy packet = .ok fragments

/-- Fragments of packets that are sent one after the other. -/
def sentFragments (sent : List (Fragmented labelling policy α)) : List (Fragment η α) :=
  sent.flatMap (·.fragments)

/-- What arrives of some fragments, each with its place among all that are sent. -/
def transmit {β : Type} (copies : ℕ → ℕ) : ℕ → List β → List (ℕ × β)
  | _, [] => []
  | place, fragment :: fragments =>
    List.replicate (copies place) (place, fragment) ++ transmit copies (place + 1) fragments

/-- The arrivals from some packets that are sent first. -/
def arrivals (copies : ℕ → ℕ) (sent : List (Fragmented labelling policy α)) :
    List (ℕ × Fragment η α) :=
  transmit copies 0 (sentFragments sent)

/-- The fragments of the packet sent after some others arrive completely and consecutively. -/
def ArrivesWhole (copies : ℕ → ℕ) (before : List (Fragmented labelling policy α))
    (s : Fragmented labelling policy α) : Prop :=
  ∀ k < s.fragments.length, copies ((sentFragments before).length + k) = 1

/-- The arrivals from `start` to `stop` make up the packet that is delivered at `stop`. -/
structure Delivery (arrived : List (Fragment η α)) (outputs : List (Option (Packet α)))
    (start stop : ℕ) (packet : Packet α) : Prop where
  start_le : start ≤ stop
  output : outputs[stop]? = some (some packet)
  data_eq : packet.data = joinedData ((arrived.take (stop + 1)).drop start)
  silent : ∀ k, start ≤ k → k < stop → outputs[k]? = some none

/-- Every fragment sent between an arrival and the next one was lost. -/
def LostBetween (copies : ℕ → ℕ) (arrived : List (ℕ × Fragment η α)) (k : ℕ) : Prop :=
  ∀ x y, arrived[k]? = some x → arrived[k + 1]? = some y →
    ∀ place, x.1 < place → place < y.1 → copies place = 0

/-- A packet that arrives whole is delivered from exactly its own fragments, none of which goes into
another packet; and a packet that is delivered is made of fragments between which everything else
was lost. -/
structure Delivers (sent : List (Fragmented labelling policy α)) (copies : ℕ → ℕ)
    (outputs : List (Option (Packet α))) : Prop where
  whole : ∀ before s after, sent = before ++ s :: after → ArrivesWhole copies before s →
    ∃ packet stop, packet.data = s.packet.data ∧
      stop + 1 = (arrivals copies before).length + s.fragments.length ∧
      Delivery ((arrivals copies sent).map Prod.snd) outputs (arrivals copies before).length stop
        packet ∧
      ∀ start' stop' packet',
        Delivery ((arrivals copies sent).map Prod.snd) outputs start' stop' packet' →
          start' ≤ stop → (arrivals copies before).length ≤ stop' → stop' = stop
  unmixed : ∀ stop packet, outputs[stop]? = some (some packet) →
    ∃ start, Delivery ((arrivals copies sent).map Prod.snd) outputs start stop packet ∧
      ∀ k, start ≤ k → k < stop → LostBetween copies (arrivals copies sent) k

/-- The calls all return, and deliver what they should. -/
def Resynchronizes (sent : List (Fragmented labelling policy α)) (copies : ℕ → ℕ) : Prop :=
  ∃ d outputs, initial.pushPackets labelling ((arrivals copies sent).map Prod.snd) =
      .ok (d, outputs) ∧ Delivers sent copies outputs

/-- Each packet that arrives whole begins while no packet is being assembled. -/
def BeginsAtRest (sent : List (Fragmented labelling policy α)) (copies : ℕ → ℕ) : Prop :=
  ∀ before s after, sent = before ++ s :: after → ArrivesWhole copies before s →
    ∀ d outputs, initial.pushPackets labelling ((arrivals copies before).map Prod.snd) =
      .ok (d, outputs) → d.isDefragmenting = false

/-! ## Arrivals -/

section Transmit

variable {copies : ℕ → ℕ} {place : ℕ} {fragments xs ys : List (Fragment η α)}

theorem transmit_append :
    transmit copies place (xs ++ ys) =
      transmit copies place xs ++ transmit copies (place + xs.length) ys := by
  induction xs generalizing place with
  | nil => rfl
  | cons x xs ih =>
    simp only [List.cons_append, transmit, ih, List.append_assoc, List.length_cons]
    congr 3
    omega

theorem mem_of_mem_transmit {x : ℕ × Fragment η α} (h : x ∈ transmit copies place fragments) :
    place ≤ x.1 ∧ x.2 ∈ fragments := by
  induction fragments generalizing place with
  | nil => cases h
  | cons fragment fragments ih =>
    rcases List.mem_append.1 h with h | h
    · obtain rfl := (List.mem_replicate.1 h).2
      exact ⟨Nat.le_refl _, List.mem_cons_self⟩
    · obtain ⟨hplace, hmem⟩ := ih h
      exact ⟨by omega, List.mem_cons_of_mem _ hmem⟩

theorem map_snd_transmit (h : ∀ k < fragments.length, copies (place + k) = 1) :
    (transmit copies place fragments).map Prod.snd = fragments := by
  induction fragments generalizing place with
  | nil => rfl
  | cons fragment fragments ih =>
    have hone : copies place = 1 := h 0 (Nat.succ_pos _)
    have hrest : ∀ k < fragments.length, copies (place + 1 + k) = 1 := by
      intro k hk
      rw [Nat.add_assoc, Nat.add_comm 1 k]
      exact h (k + 1) (Nat.succ_lt_succ hk)
    simp [transmit, hone, ih hrest]

theorem lost_before_head {x : ℕ × Fragment η α}
    (h : x ∈ (transmit copies place fragments).head?) {p : ℕ} (hp : place ≤ p) (hlt : p < x.1) :
    copies p = 0 := by
  induction fragments generalizing place with
  | nil => cases h
  | cons fragment fragments ih =>
    rcases Nat.eq_zero_or_pos (copies place) with hzero | hpos
    · rw [transmit, hzero, List.replicate_zero, List.nil_append] at h
      rcases Nat.eq_or_lt_of_le hp with rfl | hp
      · exact hzero
      · exact ih h hp
    · rw [transmit, ← Nat.succ_pred_eq_of_pos hpos, List.replicate_succ, List.cons_append,
        List.head?_cons, Option.mem_def, Option.some.injEq] at h
      subst h
      exact absurd hlt (Nat.not_lt.2 hp)

theorem isChain_transmit :
    (transmit copies place fragments).IsChain
      (fun x y => ∀ p, x.1 < p → p < y.1 → copies p = 0) := by
  induction fragments generalizing place with
  | nil => exact List.IsChain.nil
  | cons fragment fragments ih =>
    rw [transmit, List.isChain_append]
    refine ⟨?_, ih, ?_⟩
    · apply List.isChain_replicate_of_rel
      intro p hp hlt
      exact absurd hp (Nat.lt_asymm hlt)
    · rintro x hx y hy p hp hlt
      obtain rfl := (List.mem_replicate.1 (List.mem_of_mem_getLast? hx)).2
      exact lost_before_head hy hp hlt

theorem lostBetween_transmit (k : ℕ) : LostBetween copies (transmit copies place fragments) k := by
  rintro x y hx hy
  obtain ⟨hk, rfl⟩ := List.getElem?_eq_some_iff.1 hy
  obtain ⟨hk', rfl⟩ := List.getElem?_eq_some_iff.1 hx
  exact (List.isChain_iff_getElem.1 isChain_transmit) k hk

end Transmit

/-! ## Runs -/

/-- A fragment that a fragmenter has made. -/
def Made (labelling : Labelling η) (fragment : Fragment η α) : Prop :=
  (∃ number total, fragment.label = labelling.label number total) ∧ fragment.packet.data ≠ []

theorem Numbered.made {number total : ℕ} {fragments : List (Fragment η α)}
    (h : Numbered labelling number total fragments) : ∀ f ∈ fragments, Made labelling f := by
  induction fragments generalizing number with
  | nil => simp
  | cons fragment fragments ih =>
    obtain ⟨hlabel, hdata, hrest⟩ := h.head
    exact List.forall_mem_cons.2 ⟨⟨⟨number, total, hlabel⟩, hdata⟩, ih hrest⟩

theorem Fragmented.spec (s : Fragmented labelling policy α) :
    Numbered labelling 0 s.fragments.length s.fragments ∧ s.fragments ≠ [] ∧
      joinedData s.fragments = s.packet.data := by
  have hne : s.packet.data ≠ [] := by
    intro hnil
    have h := s.pushPacket_eq
    rw [pushPacket_of_nil hnil] at h
    cases h
  obtain ⟨fragments, heq, hspec⟩ := exists_pushPacket labelling policy hne
  obtain rfl : s.fragments = fragments := Except.ok.inj (s.pushPacket_eq.symm.trans heq)
  exact hspec

theorem made_of_mem_arrivals {copies : ℕ → ℕ} {place : ℕ}
    {sent : List (Fragmented labelling policy α)} {fragment : Fragment η α}
    (h : fragment ∈ (transmit copies place (sentFragments sent)).map Prod.snd) :
    Made labelling fragment := by
  obtain ⟨x, hx, rfl⟩ := List.mem_map.1 h
  obtain ⟨s, -, hs⟩ := List.mem_flatMap.1 (mem_of_mem_transmit hx).2
  exact s.spec.1.made _ hs

/-- What has been accepted of the packet that is being assembled are the last arrivals. -/
structure Assembles (past : List (Fragment η α)) (outputs : List (Option (Packet α)))
    (d : DefragmenterBase α) : Prop where
  proper : d.Proper
  length_eq : outputs.length = past.length
  expected_le : d.expectedFragmentNumber ≤ past.length
  data_eq : d.acceptedData = joinedData (past.drop (past.length - d.expectedFragmentNumber))
  silent : ∀ k, past.length - d.expectedFragmentNumber ≤ k → k < past.length →
    outputs[k]? = some none
  delivery : ∀ stop packet, outputs[stop]? = some (some packet) →
    ∃ start, Delivery past outputs start stop packet

section Assembles

variable {past : List (Fragment η α)} {outputs : List (Option (Packet α))} {d : DefragmenterBase α}
  {fragment : Fragment η α} {packet : Packet α} {start stop : ℕ}

theorem Delivery.stop_lt (h : Delivery past outputs start stop packet) : stop < outputs.length :=
  (List.getElem?_eq_some_iff.1 h.output).1

theorem Delivery.append (h : Delivery past outputs start stop packet)
    (hlen : outputs.length = past.length) (output : Option (Packet α)) :
    Delivery (past ++ [fragment]) (outputs ++ [output]) start stop packet where
  start_le := h.start_le
  output := by rw [List.getElem?_append_left h.stop_lt, h.output]
  data_eq := by
    have hstop := h.stop_lt
    rw [List.take_append_of_le_length (by omega), h.data_eq]
  silent k hstart hk := by
    rw [List.getElem?_append_left (hk.trans h.stop_lt), h.silent k hstart hk]

theorem Delivery.stop_eq {start' stop' : ℕ} {packet' : Packet α}
    (h : Delivery past outputs start stop packet)
    (h' : Delivery past outputs start' stop' packet') (hle : start' ≤ stop) (hle' : start ≤ stop') :
    stop' = stop := by
  rcases Nat.lt_trichotomy stop' stop with hlt | heq | hlt
  · have hnone := h.silent stop' hle' hlt
    rw [h'.output] at hnone
    cases hnone
  · exact heq
  · have hnone := h'.silent stop hle hlt
    rw [h.output] at hnone
    cases hnone

theorem assembles_nil : Assembles ([] : List (Fragment η α)) [] initial where
  proper := proper_initial
  length_eq := rfl
  expected_le := Nat.le_refl _
  data_eq := rfl
  silent k _ hk := absurd hk (Nat.not_lt_zero k)
  delivery stop packet h := by cases h

theorem Assembles.delivery_append (h : Assembles past outputs d) {stop : ℕ} {packet : Packet α}
    (hstop : (outputs ++ [none])[stop]? = some (some packet)) :
    ∃ start, Delivery (past ++ [fragment]) (outputs ++ [none]) start stop packet := by
  have hlt : stop < outputs.length := by
    by_contra hge
    rw [List.getElem?_append_right (by omega)] at hstop
    rcases Nat.eq_zero_or_pos (stop - outputs.length) with h0 | hpos
    · rw [h0] at hstop
      cases hstop
    · rw [List.getElem?_eq_none (by rw [List.length_singleton]; omega)] at hstop
      cases hstop
  rw [List.getElem?_append_left hlt] at hstop
  obtain ⟨start, hdelivery⟩ := h.delivery stop packet hstop
  exact ⟨start, hdelivery.append h.length_eq none⟩

theorem Assembles.discard (h : Assembles past outputs d) :
    Assembles (past ++ [fragment]) (outputs ++ [none]) initial where
  proper := proper_initial
  length_eq := by simp [h.length_eq]
  expected_le := Nat.zero_le _
  data_eq := by simp [acceptedData, initial]
  silent k hle hlt := absurd hlt (Nat.not_lt.2 hle)
  delivery _ _ := h.delivery_append

theorem Assembles.accept (h : Assembles past outputs d)
    (hpacket : packet.data = d.acceptedData ++ fragment.packet.data) :
    Assembles (past ++ [fragment]) (outputs ++ [none])
      ⟨d.expectedFragmentNumber + 1, some packet⟩ where
  proper := ⟨fun hzero => absurd hzero (Nat.succ_ne_zero _), fun _ => ⟨packet, rfl⟩⟩
  length_eq := by simp [h.length_eq]
  expected_le := by
    rw [List.length_append, List.length_singleton]
    exact Nat.succ_le_succ h.expected_le
  data_eq := by
    have hle := h.expected_le
    rw [List.length_append, List.length_singleton, Nat.add_sub_add_right,
      List.drop_append_of_le_length (Nat.sub_le _ _), joinedData_append, ← h.data_eq]
    simpa [acceptedData] using hpacket
  silent k hle hlt := by
    rw [List.length_append, List.length_singleton] at hle hlt
    rw [Nat.add_sub_add_right] at hle
    rcases Nat.lt_or_ge k past.length with hk | hk
    · rw [List.getElem?_append_left (h.length_eq ▸ hk), h.silent k hle hk]
    · obtain rfl : k = outputs.length := by have := h.length_eq; omega
      simp
  delivery _ _ := h.delivery_append

theorem Assembles.deliver (h : Assembles past outputs d)
    (hpacket : packet.data = d.acceptedData ++ fragment.packet.data) :
    Assembles (past ++ [fragment]) (outputs ++ [some packet]) initial where
  proper := proper_initial
  length_eq := by simp [h.length_eq]
  expected_le := Nat.zero_le _
  data_eq := by simp [acceptedData, initial]
  silent k hle hlt := absurd hlt (Nat.not_lt.2 hle)
  delivery stop packet' hstop := by
    have hlen := h.length_eq
    rcases Nat.lt_or_ge stop outputs.length with hlt | hge
    · rw [List.getElem?_append_left hlt] at hstop
      obtain ⟨start, hdelivery⟩ := h.delivery stop packet' hstop
      exact ⟨start, hdelivery.append h.length_eq _⟩
    · -- The last call delivers what has been accepted and the fragment.
      have hlt : stop < (outputs ++ [some packet]).length := (List.getElem?_eq_some_iff.1 hstop).1
      rw [List.length_append, List.length_singleton] at hlt
      obtain rfl : stop = outputs.length := by omega
      obtain rfl : packet = packet' := by simpa using hstop
      refine ⟨past.length - d.expectedFragmentNumber, by omega, hstop, ?_, ?_⟩
      · rw [List.take_of_length_le (by simp [hlen]),
          List.drop_append_of_le_length (Nat.sub_le _ _), joinedData_append, ← h.data_eq]
        simpa using hpacket
      · intro k hle hk
        rw [List.getElem?_append_left hk, h.silent k hle (hlen ▸ hk)]

/-- One arrival. -/
theorem Assembles.step (h : Assembles past outputs d) (hmade : Made labelling fragment) :
    ∃ d' output, d.pushPacket labelling fragment = .ok (d', output) ∧
      Assembles (past ++ [fragment]) (outputs ++ [output]) d' := by
  obtain ⟨⟨number, total, hlabel⟩, hdata⟩ := hmade
  rcases pushPacket_cases h.proper hlabel hdata with hstep | ⟨packet, hpacket, hstep⟩
  · exact ⟨initial, none, hstep, h.discard⟩
  · rw [afterExpected] at hstep
    by_cases hlast : d.expectedFragmentNumber + 1 = total
    · rw [if_pos hlast] at hstep
      exact ⟨initial, some packet, hstep, h.deliver hpacket⟩
    · rw [if_neg hlast] at hstep
      exact ⟨_, none, hstep, h.accept hpacket⟩

theorem exists_pushPackets {fragments : List (Fragment η α)}
    (hmade : ∀ f ∈ fragments, Made labelling f) :
    ∃ d outputs, initial.pushPackets labelling fragments = .ok (d, outputs) ∧
      Assembles fragments outputs d :=
  Transducer.run_induction Assembles assembles_nil
    fun _ _ _ _ hmem hpast => hpast.step (hmade _ hmem)

end Assembles

/-! ## Packets that arrive whole -/

section Whole

variable {copies : ℕ → ℕ} {before after sent : List (Fragmented labelling policy α)}
  {s : Fragmented labelling policy α}

theorem arrivals_split (h : ArrivesWhole copies before s) :
    (arrivals copies (before ++ s :: after)).map Prod.snd =
      (arrivals copies before).map Prod.snd ++ (s.fragments ++
        (transmit copies ((sentFragments before).length + s.fragments.length)
          (sentFragments after)).map Prod.snd) := by
  have hsent : sentFragments (before ++ s :: after) =
      sentFragments before ++ (s.fragments ++ sentFragments after) := by
    simp [sentFragments]
  rw [arrivals, hsent, transmit_append, transmit_append, Nat.zero_add, List.map_append,
    List.map_append, map_snd_transmit h, arrivals]

theorem exists_arrivals_pushPackets (copies : ℕ → ℕ) (sent : List (Fragmented labelling policy α)) :
    ∃ d outputs, initial.pushPackets labelling ((arrivals copies sent).map Prod.snd) =
        .ok (d, outputs) ∧
      Assembles ((arrivals copies sent).map Prod.snd) outputs d :=
  exists_pushPackets fun _ => made_of_mem_arrivals

theorem pushPackets_after (after : List (Fragmented labelling policy α)) {d : DefragmenterBase α}
    {outputs outputs' : List (Option (Packet α))}
    (h : ArrivesWhole copies before s)
    (hbefore : initial.pushPackets labelling ((arrivals copies before).map Prod.snd) =
      .ok (d, outputs))
    (hs : d.pushPackets labelling s.fragments = .ok (initial, outputs')) :
    ∃ d' rest, initial.pushPackets labelling
      ((arrivals copies (before ++ s :: after)).map Prod.snd) =
        .ok (d', outputs ++ (outputs' ++ rest)) := by
  have hmade : ∀ f ∈ (transmit copies ((sentFragments before).length + s.fragments.length)
      (sentFragments after)).map Prod.snd, Made labelling f := fun _ => made_of_mem_arrivals
  obtain ⟨d', rest, hafter, -⟩ := exists_pushPackets hmade
  refine ⟨d', rest, ?_⟩
  rw [arrivals_split h]
  exact Transducer.run_append hbefore (Transducer.run_append hs hafter)

theorem delivery_of_atRest {d d' : DefragmenterBase α}
    {outputs outputs' : List (Option (Packet α))} (h : ArrivesWhole copies before s)
    (hbefore : initial.pushPackets labelling ((arrivals copies before).map Prod.snd) =
      .ok (d, outputs))
    (hrest : d = initial)
    (hrun : initial.pushPackets labelling
      ((arrivals copies (before ++ s :: after)).map Prod.snd) = .ok (d', outputs')) :
    ∃ packet, packet.data = s.packet.data ∧
      Delivery ((arrivals copies (before ++ s :: after)).map Prod.snd) outputs'
        (arrivals copies before).length
        ((arrivals copies before).length + (s.fragments.length - 1)) packet := by
  subst hrest
  obtain ⟨hnumbered, hne, hdata⟩ := s.spec
  obtain ⟨name, hs⟩ := pushPackets_delivers hnumbered hne
  obtain ⟨d'', rest, hrun'⟩ := pushPackets_after after h hbefore hs
  obtain ⟨rfl, rfl⟩ := Prod.mk.inj (Except.ok.inj (hrun.symm.trans hrun'))
  have hlen : outputs.length = (arrivals copies before).length := by
    rw [Transducer.length_outputs hbefore, List.length_map]
  have hpos := List.length_pos_iff.2 hne
  refine ⟨⟨name, joinedData s.fragments⟩, hdata, Nat.le_add_right _ _, ?_, ?_, ?_⟩
  · rw [← hlen, List.getElem?_append_right (Nat.le_add_right _ _), Nat.add_sub_cancel_left]
    simp
  · rw [arrivals_split h, ← List.append_assoc, List.take_append_of_le_length, List.drop_take]
    · simp only [List.drop_append, List.length_map, Nat.sub_self, List.drop_zero]
      rw [List.drop_eq_nil_of_le (by simp), List.nil_append, List.take_of_length_le (by omega)]
    · simp only [List.length_append, List.length_map]
      omega
  · intro k hle hlt
    rw [List.getElem?_append_right (hlen ▸ hle), List.append_assoc, List.getElem?_append_left]
    · rw [List.getElem?_replicate_of_lt (by omega)]
    · rw [List.length_replicate]
      omega

theorem no_output_of_isDefragmenting {d d' : DefragmenterBase α}
    {outputs outputs' : List (Option (Packet α))} {stop : ℕ} (h : ArrivesWhole copies before s)
    (hbefore : initial.pushPackets labelling ((arrivals copies before).map Prod.snd) =
      .ok (d, outputs))
    (hproper : d.Proper) (hdef : d.isDefragmenting = true)
    (hrun : initial.pushPackets labelling
      ((arrivals copies (before ++ s :: after)).map Prod.snd) = .ok (d', outputs'))
    (hstop : stop + 1 = (arrivals copies before).length + s.fragments.length) :
    outputs'[stop]? = some none := by
  obtain ⟨hnumbered, hne, -⟩ := s.spec
  obtain ⟨d'', rest, hrun'⟩ := pushPackets_after after h hbefore
    (pushPackets_loses hproper hnumbered hne hdef)
  obtain ⟨rfl, rfl⟩ := Prod.mk.inj (Except.ok.inj (hrun.symm.trans hrun'))
  have hlen : outputs.length = (arrivals copies before).length := by
    rw [Transducer.length_outputs hbefore, List.length_map]
  have hpos := List.length_pos_iff.2 hne
  rw [List.getElem?_append_right (by omega), List.getElem?_append_left,
    List.getElem?_replicate_of_lt (by omega)]
  rw [List.length_replicate]
  omega

theorem resynchronizes_of_beginsAtRest (h : BeginsAtRest sent copies) :
    Resynchronizes sent copies := by
  obtain ⟨d, outputs, hrun, hassembles⟩ := exists_arrivals_pushPackets copies sent
  refine ⟨d, outputs, hrun, ?_, ?_⟩
  · rintro before s after rfl hwhole
    obtain ⟨d₀, outputs₀, hbefore, hassembles₀⟩ := exists_arrivals_pushPackets copies before
    have hrest := h before s after rfl hwhole d₀ outputs₀ hbefore
    have hinitial : d₀ = initial := by
      apply hassembles₀.proper.eq_initial
      apply Nat.eq_zero_of_not_pos
      rw [← hassembles₀.proper.isDefragmenting_iff, hrest]
      exact Bool.false_ne_true
    obtain ⟨packet, hdata, hdelivery⟩ := delivery_of_atRest hwhole hbefore hinitial hrun
    have hpos := List.length_pos_iff.2 s.spec.2.1
    refine ⟨packet, _, hdata, by omega, hdelivery, ?_⟩
    rintro start' stop' packet' hdelivery' hle hle'
    exact hdelivery.stop_eq hdelivery' hle hle'
  · intro stop packet hstop
    obtain ⟨start, hdelivery⟩ := hassembles.delivery stop packet hstop
    exact ⟨start, hdelivery, fun k _ _ => lostBetween_transmit k⟩

theorem beginsAtRest_of_resynchronizes (h : Resynchronizes sent copies) :
    BeginsAtRest sent copies := by
  rintro before s after rfl hwhole d₀ outputs₀ hbefore
  obtain ⟨d, outputs, hrun, hdelivers, -⟩ := h
  obtain ⟨packet, stop, -, hstop, hdelivery, -⟩ := hdelivers before s after rfl hwhole
  obtain ⟨d₁, outputs₁, hbefore', hassembles⟩ := exists_arrivals_pushPackets copies before
  obtain ⟨rfl, rfl⟩ := Prod.mk.inj (Except.ok.inj (hbefore.symm.trans hbefore'))
  rw [Bool.eq_false_iff]
  intro hdef
  have hnone := no_output_of_isDefragmenting hwhole hbefore hassembles.proper hdef hrun hstop
  rw [hdelivery.output] at hnone
  cases hnone

/-- What arrives whole is delivered exactly when it begins at rest. -/
theorem resynchronizes_iff_beginsAtRest : Resynchronizes sent copies ↔ BeginsAtRest sent copies :=
  ⟨beginsAtRest_of_resynchronizes, resynchronizes_of_beginsAtRest⟩

end Whole

end Inet.Fragmentation
