import Inet.Stream.Skips
import Inet.Ipv4.Header

/-! # Where the IPv4 header parser stops

The loop over the options looks at the end of the header before each option. An
option whose length octet is below two marks the header incorrect; any other
one reads as many bytes as its length octet says.
-/

namespace Inet.Ipv4.Ipv4HeaderSerializer

open MemoryInputStream Tcp

variable {s : MemoryInputStream} {n : ℕ}

theorem skips_readAddresses (n : ℕ) : Skips (readAddresses n) (4 * n) fun _ => True := by
  induction n with
  | zero => exact Skips.pure trivial
  | succ n ih =>
    exact Skips.of_eq ((Skips.readShifted _).bind fun _ _ => ih.map fun _ _ => trivial)
      (by simp only [List.length_cons, List.length_nil]; omega)

theorem skips_readRecords {bytes : ℕ} (hbytes : bytes = 4 ∨ bytes = 8) (n : ℕ) :
    Skips (readRecords bytes n) (bytes * n) fun _ => True := by
  induction n with
  | zero => exact Skips.pure trivial
  | succ n ih =>
    have haddress : Skips (if bytes = 8 then do
        let address ← readUint32Be
        return [BitVec.ofNat 32 address]
      else pure [] : Reader (List (BitVec 32))) (bytes - 4) fun _ => True := by
      rcases hbytes with rfl | rfl
      · exact Skips.pure trivial
      · exact (Skips.readShifted _).map fun _ _ => trivial
    refine Skips.of_eq (haddress.bind fun _ _ => (Skips.readShifted _).bind fun _ _ =>
      ih.map fun _ _ => trivial) ?_
    simp only [List.length_cons, List.length_nil]
    rcases hbytes with rfl | rfl <;> omega

/-- The length octet of the option in front of the stream; it is zero past the end. -/
def lengthOctet (s : MemoryInputStream) : ℕ := ((s.left.drop 1).headD 0).toNat

/-- An option with a length octet: nothing is returned when the octet is below two, else the option
has read as many bytes. -/
def ReadsOption (s : MemoryInputStream)
    (result : Except Error (Option Ipv4Option × MemoryInputStream)) : Prop :=
  (lengthOctet s < 2 → ∃ s', result = .ok (none, s')) ∧
    (2 ≤ lengthOctet s → ∃ option s', result = .ok (some option, s') ∧
      SamePlace (s.skip (lengthOctet s)) s')

theorem readsOption_of_skips {r : Reader (Option Ipv4Option)} {k m : ℕ}
    (hs : Whole s) (hr : Skips r m fun option => option.isSome) (hk : k + m = lengthOctet s)
    (h2 : 2 ≤ lengthOctet s) : ReadsOption s (r.run (s.skip k)) := by
  refine ⟨fun hlt => absurd h2 hlt.not_ge, fun _ => ?_⟩
  obtain ⟨option, hrun, hsome⟩ := hr _ (hs.skip k)
  obtain ⟨option, rfl⟩ := Option.isSome_iff_exists.1 hsome
  rw [hs.skip_skip, hk] at hrun
  exact ⟨option, _, hrun, .refl _⟩

theorem exists_seek (hs : Whole s) (k : ℕ) :
    ∃ t, (seek s.position).run (s.skip k) = .ok ((), t) ∧ SamePlace s t := by
  refine ⟨{ s.skip k with position := s.position }, ?_, data_skip s k, length_skip s k, rfl⟩
  have hle : s.position ≤ s.length := hs.position_le
  simp [seek, assert, hle]

theorem readsOption_deserializeRaw (hs : Whole s) (k : ℕ) :
    ReadsOption s ((deserializeRaw s.position).run (s.skip k)) := by
  obtain ⟨t, hseek, hsame⟩ := exists_seek hs k
  have hwhole := hsame.whole hs
  have hlength := (hwhole.skip 1).readByte_run
  rw [hwhole.left_skip, hwhole.skip_skip, hsame.left_eq] at hlength
  unfold deserializeRaw
  rw [run_bind_of_ok hseek, run_bind_of_ok hwhole.readByte_run, run_bind_of_ok hlength]
  constructor
  · intro hlt
    rw [lengthOctet] at hlt
    rw [if_pos hlt]
    exact ⟨_, rfl⟩
  · intro hge
    obtain ⟨bytes, hbytes, -⟩ := Skips.readByteLoop (lengthOctet s - 2) _ (hwhole.skip 2)
    rw [hwhole.skip_skip, Nat.add_sub_cancel' hge] at hbytes
    have hnot : ¬ ((s.left.drop 1).headD 0).toNat < 2 := hge.not_gt
    rw [if_neg hnot]
    exact ⟨_, _, run_bind_of_ok hbytes, hsame.skip _⟩

theorem timestampFlag_bytes (flag : TimestampFlag) : flag.bytes = 4 ∨ flag.bytes = 8 := by
  cases flag
  · exact .inl rfl
  · exact .inr rfl
  · exact .inr rfl

/-- The reads behind the type of an option. -/
theorem run_readByte_skip (hs : Whole s) (k : ℕ) :
    readByte.run (s.skip k) = .ok ((s.left.drop k).headD 0, s.skip (k + 1)) := by
  rw [(hs.skip k).readByte_run, hs.left_skip, hs.skip_skip]

theorem readsOption_deserializeTimestamp (hs : Whole s) :
    ReadsOption s ((deserializeTimestamp s.position).run (s.skip 1)) := by
  unfold deserializeTimestamp
  rw [run_bind_of_ok (run_readByte_skip hs 1), run_bind_of_ok (run_readByte_skip hs 2),
    run_bind_of_ok (run_readByte_skip hs 3)]
  split
  · next flag _ =>
    split
    · next haccepts =>
      obtain ⟨hlength, hdvd, -⟩ := haccepts
      have hmul := Nat.mul_div_cancel' (Nat.dvd_of_mod_eq_zero hdvd)
      refine readsOption_of_skips hs
        ((skips_readRecords (timestampFlag_bytes flag) _).bind fun _ _ => Skips.pure rfl) ?_ ?_
      · rw [hmul, lengthOctet]
        omega
      · rw [lengthOctet]
        omega
    · exact readsOption_deserializeRaw hs 4
  · exact readsOption_deserializeRaw hs 4

theorem readsOption_deserializeRoute (hs : Whole s) (type : Byte) :
    ReadsOption s ((deserializeRoute s.position type).run (s.skip 1)) := by
  unfold deserializeRoute
  rw [run_bind_of_ok (run_readByte_skip hs 1), run_bind_of_ok (run_readByte_skip hs 2)]
  split
  · next haccepts =>
    obtain ⟨hlength, hmod, -⟩ := haccepts
    refine readsOption_of_skips hs ((skips_readAddresses _).map fun _ _ => rfl) ?_ ?_
    · rw [lengthOctet]
      omega
    · rw [lengthOctet]
      omega
  · exact readsOption_deserializeRaw hs 3

theorem readsOption_field (hs : Whole s) (f : ℕ → Ipv4Option) :
    ReadsOption s ((do
      let length ← readByte
      if length = 4 then
        let field ← readUint16Be
        return some (f field)
      else deserializeRaw s.position : Reader (Option Ipv4Option)).run (s.skip 1)) := by
  rw [run_bind_of_ok (run_readByte_skip hs 1)]
  split
  · next hfour =>
    have hlength : lengthOctet s = 4 := by
      rw [lengthOctet, hfour]
      rfl
    refine readsOption_of_skips hs ((Skips.readShifted _).map fun _ _ => rfl) ?_ ?_
    · rw [hlength]
      rfl
    · rw [hlength]
      decide
  · exact readsOption_deserializeRaw hs 2

theorem deserializeOption_run_of_le (hs : Whole s) (h : (s.left.headD 0).toNat ≤ 1) :
    ∃ option, deserializeOption.run s = .ok (some option, s.skip 1) := by
  unfold deserializeOption
  rw [StateT.run_bind, StateT.run_get, pure_bind, run_bind_of_ok hs.readByte_run]
  rcases eq_zero_or_one_of_le h with hzero | hone
  · rw [if_pos hzero]
    exact ⟨_, rfl⟩
  · rw [hone]
    exact ⟨_, rfl⟩

theorem readsOption_deserializeOption (hs : Whole s) (h : 1 < (s.left.headD 0).toNat) :
    ReadsOption s (deserializeOption.run s) := by
  obtain ⟨hzero, hone⟩ := ne_zero_and_ne_one_of_lt h
  unfold deserializeOption
  rw [StateT.run_bind, StateT.run_get, pure_bind, run_bind_of_ok hs.readByte_run, if_neg hzero,
    if_neg hone]
  split
  · exact readsOption_field hs fun streamId => ⟨136, 4, .streamId (BitVec.ofNat 16 streamId)⟩
  split
  · exact readsOption_deserializeTimestamp hs
  split
  · exact readsOption_deserializeRoute hs _
  split
  · exact readsOption_field hs fun routerAlert =>
      ⟨148, 4, .routerAlert (BitVec.ofNat 16 routerAlert)⟩
  · rw [run_bind_of_ok (run_readByte_skip hs 1)]
    exact readsOption_deserializeRaw hs 2

/-- No option of the header reaches into the payload: the option bytes are used up exactly, or an
option whose length octet is below two ends the parsing and marks the header. Without a payload, the
last option may run into the end of the stream. -/
inductive Fits (payload : List Byte) : List Byte → Prop where

  | nil : Fits payload []

  | single {type : Byte} {rest : List Byte} : type.toNat ≤ 1 → Fits payload rest →
      Fits payload (type :: rest)

  | malformed {type length : Byte} {rest : List Byte} : 1 < type.toNat → length.toNat < 2 →
      Fits payload (type :: length :: rest)

  | inside {type length : Byte} {rest : List Byte} : 1 < type.toNat → 2 ≤ length.toNat →
      length.toNat - 2 ≤ rest.length → Fits payload (rest.drop (length.toNat - 2)) →
      Fits payload (type :: length :: rest)

  | cutType {type : Byte} : 1 < type.toNat → (payload.headD 0).toNat < 2 → Fits payload [type]

  | cut {type length : Byte} {rest : List Byte} : 1 < type.toNat →
      rest.length < length.toNat - 2 → payload = [] → Fits payload (type :: length :: rest)

namespace Fits

variable {payload rest : List Byte} {type length : Byte}

theorem single_iff (h : type.toNat ≤ 1) : Fits payload (type :: rest) ↔ Fits payload rest := by
  constructor
  · intro hf
    cases hf with
    | single _ hrest => exact hrest
    | malformed ht => omega
    | inside ht => omega
    | cutType ht => omega
    | cut ht => omega
  · exact .single h

theorem inside_iff (h : 1 < type.toNat) (h2 : 2 ≤ length.toNat)
    (hlength : length.toNat - 2 ≤ rest.length) :
    Fits payload (type :: length :: rest) ↔ Fits payload (rest.drop (length.toNat - 2)) := by
  constructor
  · intro hf
    cases hf with
    | single ht => omega
    | malformed _ hlt => omega
    | inside _ _ _ hrest => exact hrest
    | cut _ hcut => omega
  · exact .inside h h2 hlength

theorem cutType_iff (h : 1 < type.toNat) :
    Fits payload [type] ↔ (payload.headD 0).toNat < 2 := by
  constructor
  · intro hf
    cases hf with
    | single ht => omega
    | cutType _ hlt => exact hlt
  · exact .cutType h

theorem cut_iff (h : 1 < type.toNat) (hlength : rest.length < length.toNat - 2) :
    Fits payload (type :: length :: rest) ↔ payload = [] := by
  constructor
  · intro hf
    cases hf with
    | single ht => omega
    | malformed _ hlt => omega
    | inside _ _ hin => omega
    | cut _ _ hp => exact hp
  · exact .cut h hlength

end Fits

variable {position headerLength : ℕ} {options payload : List Byte}

theorem deserializeOptions_run_done
    (h : ¬ (s.getRemainingLength > 0 ∧ s.position - position < 8 * headerLength)) :
    (deserializeOptions position headerLength (n + 1)).run s = .ok (([], false), s) := by
  rw [deserializeOptions, StateT.run_bind, StateT.run_get, pure_bind, if_neg h]
  rfl

theorem deserializeOptions_run_none {t : MemoryInputStream}
    (h : s.getRemainingLength > 0 ∧ s.position - position < 8 * headerLength)
    (hoption : deserializeOption.run s = .ok (none, t)) :
    (deserializeOptions position headerLength (n + 1)).run s = .ok (([], true), t) := by
  rw [deserializeOptions, StateT.run_bind, StateT.run_get, pure_bind, if_pos h,
    run_bind_of_ok hoption]
  rfl

theorem deserializeOptions_run_some {option : Ipv4Option} {read : List Ipv4Option}
    {malformed : Bool}
    {t s' : MemoryInputStream}
    (h : s.getRemainingLength > 0 ∧ s.position - position < 8 * headerLength)
    (hoption : deserializeOption.run s = .ok (some option, t))
    (hoptions : (deserializeOptions position headerLength n).run t = .ok ((read, malformed), s')) :
    (deserializeOptions position headerLength (n + 1)).run s =
      .ok ((option :: read, malformed), s') := by
  rw [deserializeOptions, StateT.run_bind, StateT.run_get, pure_bind, if_pos h,
    run_bind_of_ok hoption]
  dsimp only
  rw [run_bind_of_ok hoptions]
  rfl

/-- What the loop keeps: the stream stands in front of the rest of the header's options and the
payload. -/
structure AtOptions (s : MemoryInputStream) (position headerLength : ℕ)
    (options payload : List Byte) : Prop where
  whole : Whole s
  left_eq : s.left = options ++ payload
  position_eq : s.position + 8 * options.length = position + 8 * headerLength
  position_le : position ≤ s.position

namespace AtOptions

theorem continues (h : AtOptions s position headerLength options payload) (hne : options ≠ []) :
    s.getRemainingLength > 0 ∧ s.position - position < 8 * headerLength := by
  have hpos := List.length_pos_iff.2 hne
  have heq := h.position_eq
  have hle := h.position_le
  have hleft := congrArg List.length h.left_eq
  have hlen := h.whole.length_left
  rw [List.length_append] at hleft
  unfold getRemainingLength
  omega

theorem skip (h : AtOptions s position headerLength options payload) {k : ℕ}
    (hk : k ≤ options.length) {t : MemoryInputStream} (ht : SamePlace (s.skip k) t) :
    AtOptions t position headerLength (options.drop k) payload := by
  have heq := h.position_eq
  have hle := h.position_le
  have hkl : k ≤ s.left.length := by
    rw [h.left_eq, List.length_append]
    omega
  obtain ⟨hleft, hposition⟩ := h.whole.left_skip_append h.left_eq hk
  refine ⟨ht.whole (h.whole.skip k), ht.left_eq.trans hleft, ?_, ?_⟩
  · rw [ht.position_eq]
    exact hposition.trans heq
  · rw [ht.position_eq, Whole.position_skip_of_le hkl]
    omega

theorem position_skip (h : AtOptions s position headerLength options payload) {k : ℕ}
    (hk : options.length < k) {t : MemoryInputStream} (ht : SamePlace (s.skip k) t) :
    (t.position = position + 8 * headerLength ↔ payload = []) ∧
      ¬ (t.getRemainingLength > 0 ∧ t.position - position < 8 * headerLength) := by
  have heq := h.position_eq
  have hleft := congrArg List.length h.left_eq
  have hlen := h.whole.length_left
  have hp := h.whole.position_le
  have hle := h.position_le
  have hlength := ht.length_eq
  rw [List.length_append] at hleft
  rw [length_skip] at hlength
  rw [getRemainingLength, ht.position_eq, hlength, ← List.length_eq_zero_iff]
  by_cases hkl : k ≤ s.left.length
  · rw [Whole.position_skip_of_le hkl]
    omega
  · rw [not_le] at hkl
    rw [Whole.position_skip_of_lt hkl]
    omega

theorem lengthOctet_eq_of_nil {type : Byte}
    (h : AtOptions s position headerLength [type] payload) :
    lengthOctet s = (payload.headD 0).toNat := by
  rw [lengthOctet, h.left_eq]
  rfl

theorem lengthOctet_eq {type length : Byte} {rest : List Byte}
    (h : AtOptions s position headerLength (type :: length :: rest) payload) :
    lengthOctet s = length.toNat := by
  rw [lengthOctet, h.left_eq]
  rfl

theorem exists_run (h : AtOptions s position headerLength options payload)
    (hn : options.length < n) :
    ∃ read malformed s', (deserializeOptions position headerLength n).run s =
        .ok ((read, malformed), s') ∧
      ((malformed = false → s'.position = position + 8 * headerLength) ↔ Fits payload options) := by
  induction n generalizing s options with
  | zero => omega
  | succ n ih =>
    cases options with
    | nil =>
      have heq := h.position_eq
      have hle := h.position_le
      rw [List.length_nil] at heq
      refine ⟨[], false, s, deserializeOptions_run_done fun hc => ?_, ?_⟩
      · omega
      · exact ⟨fun _ => .nil, fun _ _ => by omega⟩
    | cons type rest =>
      have hcontinue := h.continues (List.cons_ne_nil type rest)
      have hhead : s.left.headD 0 = type := by rw [h.left_eq]; rfl
      rw [List.length_cons] at hn
      by_cases htype : type.toNat ≤ 1
      · -- an option of one byte
        obtain ⟨option, hoption⟩ := deserializeOption_run_of_le h.whole (by rwa [hhead])
        have hnext : AtOptions (s.skip 1) position headerLength rest payload :=
          h.skip (k := 1) (by simp) (.refl _)
        obtain ⟨read, malformed, s', hread, hiff⟩ := ih hnext (by omega)
        refine ⟨_, malformed, s', deserializeOptions_run_some hcontinue hoption hread, ?_⟩
        rw [hiff, Fits.single_iff htype]
      · rw [not_le] at htype
        obtain ⟨hnone, hsome⟩ := readsOption_deserializeOption h.whole (by rwa [hhead])
        obtain ⟨n, rfl⟩ : ∃ n', n = n' + 1 := ⟨n - 1, by omega⟩
        by_cases hlength : lengthOctet s < 2
        · -- the header is marked
          obtain ⟨s', hoption⟩ := hnone hlength
          refine ⟨_, _, s', deserializeOptions_run_none hcontinue hoption,
            iff_of_true nofun ?_⟩
          cases rest with
          | nil => exact .cutType htype (by rwa [← h.lengthOctet_eq_of_nil])
          | cons length rest => exact .malformed htype (by rwa [← h.lengthOctet_eq])
        · rw [not_lt] at hlength
          obtain ⟨option, s', hoption, hplace⟩ := hsome hlength
          cases rest with
          | nil =>
            obtain ⟨hposition, hdone⟩ := h.position_skip
              (by rw [List.length_singleton]; omega) hplace
            refine ⟨_, _, s', deserializeOptions_run_some hcontinue hoption
              (deserializeOptions_run_done hdone), ?_⟩
            rw [hposition, Fits.cutType_iff htype, ← h.lengthOctet_eq_of_nil]
            refine iff_of_false (fun himp => ?_) hlength.not_gt
            rw [h.lengthOctet_eq_of_nil, himp rfl] at hlength
            exact absurd hlength (by decide)
          | cons length rest =>
            rw [h.lengthOctet_eq] at hlength hplace
            rw [List.length_cons] at hn
            by_cases hinside : length.toNat - 2 ≤ rest.length
            · have hsplit : length.toNat = 2 + (length.toNat - 2) := by omega
              have hnext := h.skip (by simp only [List.length_cons]; omega) hplace
              have hdrop : (type :: length :: rest).drop length.toNat =
                  rest.drop (length.toNat - 2) := by
                rw [hsplit, ← List.drop_drop]
                simp
              rw [hdrop] at hnext
              obtain ⟨read, malformed, t, hread, hiff⟩ := ih hnext (by
                rw [List.length_drop]
                omega)
              refine ⟨_, malformed, t, deserializeOptions_run_some hcontinue hoption hread, ?_⟩
              rw [hiff, Fits.inside_iff htype hlength hinside]
            · rw [not_le] at hinside
              obtain ⟨hposition, hdone⟩ := h.position_skip
                (by simp only [List.length_cons]; omega) hplace
              refine ⟨_, _, s', deserializeOptions_run_some hcontinue hoption
                (deserializeOptions_run_done hdone), ?_⟩
              rw [hposition, Fits.cut_iff htype hinside]
              exact ⟨fun himp => himp rfl, fun hp _ => hp⟩

end AtOptions

/-- The IHL nibble of a header. -/
def ipHl (bytes : List Byte) : ℕ := ((bytes.getD 0 0).extractLsb' 0 4).toNat

def ipV (bytes : List Byte) : ℕ := ((bytes.getD 0 0).extractLsb' 4 4).toNat

def ipLen (bytes : List Byte) : ℕ := (ntohs (bytes.getD 2 0) (bytes.getD 3 0)).toNat

/-- The parser returns, and has consumed the header and nothing else unless it marks the header
incorrect. -/
def StaysInside (bytes : List Byte) : Prop :=
  ∃ result s', deserializeFields.run (streamOf bytes) = .ok (result, s') ∧
    (result.isIncorrect = false → s'.position = 8 * (4 * ipHl bytes))

/-- The bytes of the options. -/
def optionBytes (bytes : List Byte) : List Byte := (bytes.drop 20).take (4 * ipHl bytes - 20)

theorem exists_ofIphdr (buffer : List Byte) (h : buffer.length = 20) :
    ∃ header, ofIphdr buffer = .ok header ∧ header.headerLength = ipHl buffer * 4 ∧
      header.version = ipV buffer ∧ header.totalLengthField = ipLen buffer := by
  match buffer, h with
  | [_, _, _, _, _, _, _, _, _, _, _, _, _, _, _, _, _, _, _, _], _ =>
    exact ⟨_, rfl, rfl, rfl, rfl⟩

theorem getD_take {bytes : List Byte} {i : ℕ} (h : i < 20) :
    (bytes.take 20).getD i 0 = bytes.getD i 0 := by
  rw [List.getD_eq_getElem?_getD, List.getD_eq_getElem?_getD, List.getElem?_take_of_lt h]

theorem atOptions_streamOf {bytes : List Byte} (hh : 5 ≤ ipHl bytes)
    (hlength : 4 * ipHl bytes ≤ bytes.length) :
    AtOptions ((streamOf bytes).skip 20) 0 (4 * ipHl bytes) (optionBytes bytes)
      (bytes.drop (4 * ipHl bytes)) := by
  have hwhole := whole_streamOf bytes
  have h20 : 20 ≤ (streamOf bytes).left.length := by
    rw [left_streamOf]
    omega
  have hoptions : (optionBytes bytes).length = 4 * ipHl bytes - 20 := by
    rw [optionBytes, List.length_take, List.length_drop]
    omega
  refine ⟨hwhole.skip 20, ?_, ?_, Nat.zero_le _⟩
  · have hdrop : 20 + (4 * ipHl bytes - 20) = 4 * ipHl bytes := by omega
    rw [hwhole.left_skip, left_streamOf, optionBytes, ← hdrop, ← List.drop_drop, hdrop,
      List.take_append_drop]
  · rw [Whole.position_skip_of_le h20, hoptions]
    change 0 + 8 * 20 + _ = _
    omega

/-- The part of the parser behind the fixed fields. -/
theorem exists_options {bytes : List Byte} (hh : 5 ≤ ipHl bytes)
    (hlength : 4 * ipHl bytes ≤ bytes.length) :
    ∃ read malformed s', (if 4 * ipHl bytes > minHeaderLength then
        deserializeOptions (streamOf bytes).position (4 * ipHl bytes) (4 * ipHl bytes + 1)
      else pure ([], false) : Reader (List Ipv4Option × Bool)).run ((streamOf bytes).skip 20) =
        .ok ((read, malformed), s') ∧
      ((malformed = false → s'.position = 8 * (4 * ipHl bytes)) ↔
        Fits (bytes.drop (4 * ipHl bytes)) (optionBytes bytes)) := by
  have hat := atOptions_streamOf hh hlength
  by_cases hmore : 4 * ipHl bytes > minHeaderLength
  · have hshort : (optionBytes bytes).length < 4 * ipHl bytes + 1 := by
      rw [optionBytes, List.length_take]
      omega
    rw [if_pos hmore]
    have hloop := hat.exists_run hshort
    rwa [Nat.zero_add] at hloop
  · rw [minHeaderLength] at hmore
    have hfive : ipHl bytes = 5 := by omega
    have hnil : optionBytes bytes = [] := by
      rw [optionBytes, hfive]
      rfl
    have hposition := hat.position_eq
    rw [hnil, hfive] at hposition
    rw [if_neg (by rw [minHeaderLength]; omega), hnil, hfive]
    exact ⟨[], false, _, rfl, fun _ => .nil, fun _ _ => hposition⟩

theorem exists_deserializeFields {bytes : List Byte} (hh : 5 ≤ ipHl bytes)
    (hlength : 4 * ipHl bytes ≤ bytes.length) :
    ∃ result malformed s', deserializeFields.run (streamOf bytes) = .ok (result, s') ∧
      (result.isIncorrect = false ↔
        ipV bytes = 4 ∧ 4 * ipHl bytes ≤ ipLen bytes ∧ malformed = false) ∧
      ((malformed = false → s'.position = 8 * (4 * ipHl bytes)) ↔
        Fits (bytes.drop (4 * ipHl bytes)) (optionBytes bytes)) := by
  obtain ⟨read, malformed, s', hrun, hiff⟩ := exists_options hh hlength
  have h20 : 20 ≤ (streamOf bytes).left.length := by
    rw [left_streamOf]
    omega
  have hbuffer : (readBytes minHeaderLength).run (streamOf bytes) =
      .ok (bytes.take 20, (streamOf bytes).skip 20) := by
    have hread := (whole_streamOf bytes).readBytes_run h20
    rwa [left_streamOf] at hread
  obtain ⟨header, hof, hheader, hversion, htotal⟩ := exists_ofIphdr (bytes.take 20) (by
    rw [List.length_take]
    omega)
  rw [ipHl, getD_take (by decide)] at hheader
  rw [ipV, getD_take (by decide)] at hversion
  rw [ipLen, getD_take (by decide), getD_take (by decide)] at htotal
  have hbytes : (toBytes ((streamOf bytes).getRemainingLength : ℤ) : Reader ℤ).run
      (streamOf bytes) = .ok ((8 * bytes.length : ℕ) / 8, streamOf bytes) := by
    simp [toBytes, streamOf, getRemainingLength]
  have hmax : max header.headerLength minHeaderLength = 4 * ipHl bytes := by
    rw [hheader, minHeaderLength, ipHl]
    rw [ipHl] at hh
    omega
  have hlow : ¬ header.headerLength < minHeaderLength := by
    rw [hheader, minHeaderLength]
    rw [ipHl] at hh
    omega
  rw [← hmax] at hrun
  refine ⟨{
    header :=
      { header with headerLength := max header.headerLength minHeaderLength, options := read }
    isIncorrect := decide (header.version ≠ 4 ∨ header.headerLength < minHeaderLength ∨
      header.totalLengthField < max header.headerLength minHeaderLength) || malformed
    isIncomplete := decide (((max header.headerLength minHeaderLength : ℕ) : ℤ) >
      ((8 * bytes.length : ℕ) : ℤ) / 8) }, malformed, s', ?_, ?_, hiff⟩
  · unfold deserializeFields
    rw [StateT.run_bind, StateT.run_get, pure_bind]
    dsimp only
    rw [run_bind_of_ok hbytes, run_bind_of_ok hbuffer, hof, run_bind_of_ok rfl,
      run_bind_of_ok hrun]
    rfl
  · dsimp only
    rw [hmax, hversion, htotal, Bool.or_eq_false_iff, decide_eq_false_iff_not, not_or, not_or,
      not_not, not_lt, not_lt, and_assoc, and_assoc, and_iff_right (not_lt.1 hlow)]
    exact and_congr_left fun _ => Int.ofNat_inj

/-- On every byte string with a whole header, the parser stays inside an unmarked header exactly
when the fixed fields are incorrect, or no option reaches into the payload. -/
theorem staysInside_iff (bytes : List Byte) (hh : 5 ≤ ipHl bytes)
    (hlength : 4 * ipHl bytes ≤ bytes.length) :
    StaysInside bytes ↔ ipV bytes ≠ 4 ∨ ipLen bytes < 4 * ipHl bytes ∨
      Fits (bytes.drop (4 * ipHl bytes)) (optionBytes bytes) := by
  obtain ⟨result, malformed, s', hrun, hincorrect, hfits⟩ := exists_deserializeFields hh hlength
  have hunmarked : StaysInside bytes ↔
      (result.isIncorrect = false → s'.position = 8 * (4 * ipHl bytes)) := by
    constructor
    · rintro ⟨result', t, hrun', hposition⟩
      rw [hrun] at hrun'
      cases hrun'
      exact hposition
    · exact fun hposition => ⟨result, s', hrun, hposition⟩
  rw [hunmarked, hincorrect, ← hfits]
  constructor
  · intro himp
    by_cases hversion : ipV bytes = 4
    · by_cases htotal : 4 * ipHl bytes ≤ ipLen bytes
      · exact .inr (.inr fun hm => himp ⟨hversion, htotal, hm⟩)
      · exact .inr (.inl (not_le.1 htotal))
    · exact .inl hversion
  · rintro (hversion | htotal | hposition) ⟨hversion', htotal', hm⟩
    · exact absurd hversion' hversion
    · exact absurd htotal' htotal.not_ge
    · exact hposition hm

/-- A header of 24 bytes with the given four bytes of options. -/
def headerOf (options : List Byte) : List Byte :=
  [0x46, 0, 0, 32, 0, 1, 0, 0, 64, 17, 0, 0, 10, 0, 0, 1, 10, 0, 0, 2] ++ options

/-- A router alert option. -/
theorem staysInside_routerAlert :
    StaysInside (headerOf [148, 4, 0, 0] ++ [1, 2, 3, 4, 5, 6, 7, 8]) := by
  refine (staysInside_iff (headerOf [148, 4, 0, 0] ++ [1, 2, 3, 4, 5, 6, 7, 8]) (by decide)
    (by decide)).2 (.inr (.inr ?_))
  exact .inside (by decide) (by decide) (by decide) .nil

/-- A record route option that claims seven bytes of a header that has room for four. -/
theorem not_staysInside_recordRoute :
    5 ≤ ipHl (headerOf [7, 7, 4, 10] ++ [1, 2, 3, 4, 5, 6, 7, 8]) ∧
    4 * ipHl (headerOf [7, 7, 4, 10] ++ [1, 2, 3, 4, 5, 6, 7, 8]) ≤
      (headerOf [7, 7, 4, 10] ++ [1, 2, 3, 4, 5, 6, 7, 8]).length ∧
    ¬ StaysInside (headerOf [7, 7, 4, 10] ++ [1, 2, 3, 4, 5, 6, 7, 8]) := by
  refine ⟨by decide, by decide, ?_⟩
  rintro ⟨result, s', hrun, hposition⟩
  have hstop : (deserializeFields.run
      (streamOf (headerOf [7, 7, 4, 10] ++ [1, 2, 3, 4, 5, 6, 7, 8]))).toOption.map
        (fun result => (result.1.isIncorrect, result.2.position)) = some (false, 216) := by
    decide +kernel
  rw [hrun] at hstop
  obtain ⟨hincorrect, hstopped⟩ := Prod.mk.inj (Option.some.inj hstop)
  have hequal : 216 = 8 * (4 * ipHl (headerOf [7, 7, 4, 10] ++ [1, 2, 3, 4, 5, 6, 7, 8])) :=
    hstopped.symm.trans (hposition hincorrect)
  exact absurd hequal (by decide)

end Inet.Ipv4.Ipv4HeaderSerializer
