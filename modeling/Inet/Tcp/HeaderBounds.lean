import Inet.Stream.Skips
import Inet.Tcp.Header

/-! # Where the TCP header parser stops

The loop over the options looks at the end of the header before each option,
and the option then reads as many bytes as its length octet says. The parser
stays inside the header exactly when no option of it runs over the end.
-/

namespace Inet.Tcp.TcpHeaderSerializer

open MemoryInputStream

variable {s : MemoryInputStream} {n : ℕ}

theorem skips_readSackItems (n : ℕ) : Skips (readSackItems n) (8 * n) fun _ => True := by
  induction n with
  | zero => exact Skips.pure trivial
  | succ n ih =>
    have hitem : Skips readSackItem 8 fun _ => True :=
      (Skips.readShifted _).bind fun _ _ => (Skips.readShifted _).map fun _ _ => trivial
    exact (hitem.bind fun _ _ => ih.map fun _ _ => trivial).of_eq (by omega)

theorem skips_readFields (n : ℕ) : Skips (readFields n) (3 * n) fun _ => True := by
  induction n with
  | zero => exact Skips.pure trivial
  | succ n ih =>
    exact ((Skips.readShifted _).bind fun _ _ => ih.map fun _ _ => trivial).of_eq
      (by rw [List.length_cons, List.length_cons, List.length_singleton]; omega)

theorem skips_deserializeUnknown (kind length : Byte) :
    Skips (deserializeUnknown kind length) (length.toNat - 2) fun option =>
      option.length = length.toNat :=
  (Skips.readByteLoop _).map fun _ _ => rfl

theorem skips_deserializeTyped (kind length : Byte) :
    Skips (deserializeTyped kind length) (length.toNat - 2) fun option =>
      option.length = length.toNat := by
  unfold deserializeTyped
  split
  · next h =>
    rw [h.2]
    exact (Skips.readShifted _).map fun _ _ => rfl
  split
  · next h =>
    rw [h.2]
    exact Skips.readByte.map fun _ _ => rfl
  split
  · next h =>
    rw [h.2]
    exact Skips.pure rfl
  split
  · next h =>
    refine Skips.of_eq ((skips_readSackItems _).map fun _ _ => rfl) ?_
    omega
  split
  · next h =>
    rw [h.2]
    refine Skips.of_eq ((Skips.readShifted _).bind fun _ _ =>
      (Skips.readShifted _).map fun _ _ => rfl) ?_
    rfl
  split
  · exact (Skips.readByteLoop _).map fun _ _ => rfl
  split
  · next h =>
    refine Skips.of_eq ((skips_readFields _).bind fun _ _ =>
      (Skips.readByteLoop _).map fun _ _ => rfl) ?_
    unfold numFields
    omega
  split
  · next h =>
    refine Skips.of_eq ((Skips.readShifted _).bind (n := length.toNat - 4) fun expId _ => ?_) ?_
    · split
      · exact (Skips.readByteLoop _).map fun _ _ => rfl
      · exact (Skips.readByteLoop _).map fun _ _ => rfl
    · rw [List.length_cons, List.length_singleton]
      omega
  · exact skips_deserializeUnknown kind length

theorem deserializeOption_run_of_le (hs : Whole s) (h : (s.left.headD 0).toNat ≤ 1) :
    ∃ option, deserializeOption.run s = .ok (option, s.skip 1) ∧ option.length = 1 := by
  unfold deserializeOption
  rw [run_bind_of_ok hs.readByte_run]
  rcases eq_zero_or_one_of_le h with hzero | hone
  · rw [if_pos hzero]
    exact ⟨_, rfl, rfl⟩
  · rw [hone]
    exact ⟨_, rfl, rfl⟩

theorem deserializeOption_run_of_gt (hs : Whole s) (h : 1 < (s.left.headD 0).toNat) :
    ∃ option, deserializeOption.run s =
        .ok (option, s.skip (2 + (((s.left.drop 1).headD 0).toNat - 2))) ∧
      option.length = ((s.left.drop 1).headD 0).toNat := by
  obtain ⟨hzero, hone⟩ := ne_zero_and_ne_one_of_lt h
  have hlength := (hs.skip 1).readByte_run
  rw [hs.left_skip, hs.skip_skip] at hlength
  unfold deserializeOption
  rw [run_bind_of_ok hs.readByte_run, if_neg hzero, if_neg hone, run_bind_of_ok hlength]
  obtain ⟨option, hrun, hoption⟩ := skips_deserializeTyped (s.left.headD 0)
    ((s.left.drop 1).headD 0) _ (hs.skip 2)
  rw [hs.skip_skip] at hrun
  exact ⟨option, hrun, hoption⟩

/-- The option bytes of a header stay inside it, and the lengths of the options inside the given
budget. `payload` bytes follow the header. Without any, an option may run into the end of the
stream; its length still counts. -/
inductive Fits (payload : ℕ) : ℕ → List Byte → Prop where

  | nil {budget : ℕ} : Fits payload budget []

  | single {budget : ℕ} {kind : Byte} {rest : List Byte} : kind.toNat ≤ 1 →
      Fits payload (budget - 1) rest → Fits payload budget (kind :: rest)

  | inside {budget : ℕ} {kind length : Byte} {rest : List Byte} : 1 < kind.toNat →
      length.toNat - 2 ≤ rest.length →
      Fits payload (budget - length.toNat) (rest.drop (length.toNat - 2)) →
      Fits payload budget (kind :: length :: rest)

  | cutKind {budget : ℕ} {kind : Byte} : 1 < kind.toNat → payload = 0 →
      Fits payload budget [kind]

  | cut {budget : ℕ} {kind length : Byte} {rest : List Byte} : 1 < kind.toNat →
      rest.length < length.toNat - 2 → payload = 0 → length.toNat ≤ budget →
      Fits payload budget (kind :: length :: rest)

namespace Fits

variable {payload budget : ℕ} {kind length : Byte} {rest : List Byte}

theorem single_iff (h : kind.toNat ≤ 1) :
    Fits payload budget (kind :: rest) ↔ Fits payload (budget - 1) rest := by
  constructor
  · intro hf
    cases hf with
    | single _ hrest => exact hrest
    | inside hk => omega
    | cutKind hk => omega
    | cut hk => omega
  · exact .single h

theorem inside_iff (h : 1 < kind.toNat) (hlength : length.toNat - 2 ≤ rest.length) :
    Fits payload budget (kind :: length :: rest) ↔
      Fits payload (budget - length.toNat) (rest.drop (length.toNat - 2)) := by
  constructor
  · intro hf
    cases hf with
    | single hk => omega
    | inside _ _ hrest => exact hrest
    | cut _ hcut => omega
  · exact .inside h hlength

theorem cutKind_iff (h : 1 < kind.toNat) : Fits payload budget [kind] ↔ payload = 0 := by
  constructor
  · intro hf
    cases hf with
    | single hk => omega
    | cutKind _ hp => exact hp
  · exact .cutKind h

theorem cut_iff (h : 1 < kind.toNat) (hlength : rest.length < length.toNat - 2) :
    Fits payload budget (kind :: length :: rest) ↔ payload = 0 ∧ length.toNat ≤ budget := by
  constructor
  · intro hf
    cases hf with
    | single hk => omega
    | inside _ hin => omega
    | cut _ _ hp hb => exact ⟨hp, hb⟩
  · rintro ⟨hp, hb⟩
    exact .cut h hlength hp hb

end Fits

theorem deserializeOptions_run_done {position headerLength : ℕ}
    (h : ¬ (s.position - position < 8 * headerLength ∧ s.isReadBeyondEnd = false)) :
    (deserializeOptions position headerLength (n + 1)).run s = .ok ([], s) := by
  rw [deserializeOptions, StateT.run_bind, StateT.run_get, pure_bind, if_neg h]
  rfl

theorem deserializeOptions_run_step {position headerLength : ℕ} {option : TcpOption}
    {options : List TcpOption} {t s' : MemoryInputStream}
    (h : s.position - position < 8 * headerLength ∧ s.isReadBeyondEnd = false)
    (hoption : deserializeOption.run s = .ok (option, t))
    (hoptions : (deserializeOptions position headerLength n).run t = .ok (options, s')) :
    (deserializeOptions position headerLength (n + 1)).run s = .ok (option :: options, s') := by
  rw [deserializeOptions, StateT.run_bind, StateT.run_get, pure_bind, if_pos h,
    run_bind_of_ok hoption, run_bind_of_ok hoptions]
  rfl

/-- What the loop keeps: the stream stands in front of the rest of the header's options and the
payload, and the budget covers the rest. -/
structure AtOptions (s : MemoryInputStream) (position headerLength budget : ℕ)
    (options payload : List Byte) : Prop where
  whole : Whole s
  notBeyond : s.isReadBeyondEnd = false
  left_eq : s.left = options ++ payload
  position_eq : s.position + 8 * options.length = position + 8 * headerLength
  position_le : position ≤ s.position
  length_le : options.length ≤ budget

variable {position headerLength budget : ℕ} {options payload : List Byte}

theorem AtOptions.continues (h : AtOptions s position headerLength budget options payload)
    (hne : options ≠ []) :
    s.position - position < 8 * headerLength ∧ s.isReadBeyondEnd = false := by
  have hpos := List.length_pos_iff.2 hne
  have heq := h.position_eq
  have hle := h.position_le
  exact ⟨by omega, h.notBeyond⟩

theorem AtOptions.skip (h : AtOptions s position headerLength budget options payload) {k length : ℕ}
    (hk : k ≤ options.length) (hlength : options.length - k ≤ budget - length) :
    AtOptions (s.skip k) position headerLength (budget - length) (options.drop k) payload := by
  have heq := h.position_eq
  have hle := h.position_le
  have hkl : k ≤ s.left.length := by
    rw [h.left_eq, List.length_append]
    omega
  obtain ⟨hleft, hposition⟩ := h.whole.left_skip_append h.left_eq hk
  refine ⟨h.whole.skip k, ?_, hleft, hposition.trans heq, ?_, ?_⟩
  · rw [skip_of_le hkl]
    exact h.notBeyond
  · rw [Whole.position_skip_of_le hkl]
    omega
  · rwa [List.length_drop]

theorem AtOptions.position_skip_eq_iff
    (h : AtOptions s position headerLength budget options payload) {k : ℕ}
    (hk : options.length < k) :
    (s.skip k).position = position + 8 * headerLength ↔ payload.length = 0 := by
  rw [← h.position_eq, List.length_eq_zero_iff]
  exact h.whole.position_skip_append_iff h.left_eq hk

theorem AtOptions.stops (h : AtOptions s position headerLength budget options payload) {k : ℕ}
    (hk : options.length < k) :
    ¬ ((s.skip k).position - position < 8 * headerLength ∧
      (s.skip k).isReadBeyondEnd = false) := by
  have heq := h.position_eq
  have hle := h.position_le
  rintro ⟨hlt, hflag⟩
  by_cases hkl : k ≤ s.left.length
  · rw [Whole.position_skip_of_le hkl] at hlt
    omega
  · rw [not_le] at hkl
    rw [skip_of_lt hkl] at hflag
    cases hflag

theorem AtOptions.exists_run (h : AtOptions s position headerLength budget options payload)
    (hn : options.length < n) :
    ∃ read s', (deserializeOptions position headerLength n).run s = .ok (read, s') ∧
      (s'.position = position + 8 * headerLength ∧ (read.map TcpOption.length).sum ≤ budget ↔
        Fits payload.length budget options) := by
  induction n generalizing s budget options with
  | zero => omega
  | succ n ih =>
    cases options with
    | nil =>
      have heq := h.position_eq
      have hle := h.position_le
      rw [List.length_nil] at heq
      refine ⟨[], s, deserializeOptions_run_done fun hc => ?_, ?_⟩
      · omega
      · exact ⟨fun _ => .nil, fun _ => ⟨by omega, Nat.zero_le _⟩⟩
    | cons kind rest =>
      have hcontinue := h.continues (List.cons_ne_nil kind rest)
      have hbudget := h.length_le
      rw [List.length_cons] at hn hbudget
      have hhead : s.left.headD 0 = kind := by rw [h.left_eq]; rfl
      by_cases hkind : kind.toNat ≤ 1
      · -- an option of one byte
        obtain ⟨option, hoption, hlength⟩ := deserializeOption_run_of_le h.whole (by rwa [hhead])
        have hnext : AtOptions (s.skip 1) position headerLength (budget - 1) rest payload :=
          h.skip (by simp) (by rw [List.length_cons]; omega)
        obtain ⟨read, s', hread, hiff⟩ := ih hnext (by omega)
        refine ⟨_, s', deserializeOptions_run_step hcontinue hoption hread, ?_⟩
        rw [Fits.single_iff hkind, ← hiff, List.map_cons, List.sum_cons, hlength]
        refine and_congr_right fun _ => ?_
        omega
      · rw [not_le] at hkind
        obtain ⟨option, hoption, hlength⟩ := deserializeOption_run_of_gt h.whole (by rwa [hhead])
        obtain ⟨n, rfl⟩ : ∃ n', n = n' + 1 := ⟨n - 1, by omega⟩
        cases rest with
        | nil =>
          -- the length octet is behind the header
          have hpast := h.position_skip_eq_iff (k := 2 + (((s.left.drop 1).headD 0).toNat - 2))
            (by rw [List.length_singleton]; omega)
          have hstops := h.stops (k := 2 + (((s.left.drop 1).headD 0).toNat - 2))
            (by rw [List.length_singleton]; omega)
          refine ⟨_, _, deserializeOptions_run_step hcontinue hoption
            (deserializeOptions_run_done hstops), ?_⟩
          rw [Fits.cutKind_iff hkind, hpast, List.map_singleton, List.sum_singleton, hlength]
          refine and_iff_left_of_imp fun hnil => ?_
          have hzero : ((s.left.drop 1).headD 0).toNat = 0 := by
            rw [h.left_eq, List.length_eq_zero_iff.1 hnil]
            rfl
          omega
        | cons length rest =>
          have hsecond : (s.left.drop 1).headD 0 = length := by rw [h.left_eq]; rfl
          rw [hsecond] at hoption hlength
          rw [List.length_cons] at hbudget hn
          by_cases hinside : length.toNat - 2 ≤ rest.length
          · have hnext : AtOptions (s.skip (2 + (length.toNat - 2))) position headerLength
                (budget - length.toNat) ((kind :: length :: rest).drop (2 + (length.toNat - 2)))
                payload :=
              h.skip (by simp only [List.length_cons]; omega)
                (by simp only [List.length_cons]; omega)
            rw [← List.drop_drop] at hnext
            have hshort : (rest.drop (length.toNat - 2)).length < n + 1 := by
              rw [List.length_drop]
              omega
            obtain ⟨read, s', hread, hiff⟩ := ih hnext hshort
            refine ⟨_, s', deserializeOptions_run_step hcontinue hoption hread, ?_⟩
            have hdrop : ((kind :: length :: rest).drop 2).drop (length.toNat - 2) =
              rest.drop (length.toNat - 2) := rfl
            rw [Fits.inside_iff hkind hinside, ← hdrop, ← hiff, List.map_cons, List.sum_cons,
              hlength]
            refine and_congr_right fun _ => ?_
            omega
          · rw [not_le] at hinside
            have hk : (kind :: length :: rest).length < 2 + (length.toNat - 2) := by
              simp only [List.length_cons]
              omega
            refine ⟨_, _, deserializeOptions_run_step hcontinue hoption
              (deserializeOptions_run_done (h.stops hk)), ?_⟩
            rw [Fits.cut_iff hkind hinside, h.position_skip_eq_iff hk, List.map_singleton,
              List.sum_singleton, hlength]

/-- The data offset nibble of a header. -/
def dataOffset (bytes : List Byte) : ℕ := ((bytes.getD 12 0).extractLsb' 4 4).toNat

/-- The parser returns a header, has consumed the header and nothing else, and its options are no
longer than the header has room for. -/
def StaysInside (bytes : List Byte) : Prop :=
  ∃ header s', deserializeFields.run (streamOf bytes) = .ok (header, s') ∧
    s'.position = 8 * (4 * dataOffset bytes) ∧
    (header.headerOption.map TcpOption.length).sum ≤ 4 * dataOffset bytes - 20

/-- The bytes of the options. -/
def optionBytes (bytes : List Byte) : List Byte :=
  (bytes.drop 20).take (4 * dataOffset bytes - 20)

theorem exists_ofTcphdr (buffer : List Byte) (h : buffer.length = 20) :
    ∃ header, ofTcphdr buffer [] = .ok header ∧ header.headerLength = dataOffset buffer * 4 ∧
      header.headerOption = [] := by
  match buffer, h with
  | [_, _, _, _, _, _, _, _, _, _, _, _, _, _, _, _, _, _, _, _], _ => exact ⟨_, rfl, rfl, rfl⟩

theorem dataOffset_take (bytes : List Byte) : dataOffset (bytes.take 20) = dataOffset bytes := by
  rw [dataOffset, dataOffset, List.getD_eq_getElem?_getD, List.getD_eq_getElem?_getD,
    List.getElem?_take_of_lt (by decide)]

theorem atOptions_streamOf {bytes : List Byte} (hd : 5 ≤ dataOffset bytes)
    (hlength : 4 * dataOffset bytes ≤ bytes.length) :
    AtOptions ((streamOf bytes).skip 20) 0 (dataOffset bytes * 4) (4 * dataOffset bytes - 20)
      (optionBytes bytes) (bytes.drop (4 * dataOffset bytes)) := by
  have hwhole := whole_streamOf bytes
  have h20 : 20 ≤ (streamOf bytes).left.length := by
    rw [left_streamOf]
    omega
  have hoptions : (optionBytes bytes).length = 4 * dataOffset bytes - 20 := by
    rw [optionBytes, List.length_take, List.length_drop]
    omega
  refine ⟨hwhole.skip 20, ?_, ?_, ?_, Nat.zero_le _, hoptions.le⟩
  · rw [skip_of_le h20]
    rfl
  · have hdrop : 20 + (4 * dataOffset bytes - 20) = 4 * dataOffset bytes := by omega
    rw [hwhole.left_skip, left_streamOf, optionBytes, ← hdrop, ← List.drop_drop, hdrop,
      List.take_append_drop]
  · rw [Whole.position_skip_of_le h20, hoptions]
    change 0 + 8 * 20 + _ = _
    omega

/-- On every byte string with a whole header, the parser stays inside the header exactly when its
options fit. -/
theorem staysInside_iff_fits (bytes : List Byte) (hd : 5 ≤ dataOffset bytes)
    (hlength : 4 * dataOffset bytes ≤ bytes.length) :
    StaysInside bytes ↔
      Fits (bytes.length - 4 * dataOffset bytes) (4 * dataOffset bytes - 20)
        (optionBytes bytes) := by
  have hbuffer := (whole_streamOf bytes).readBytes_run (n := minHeaderLength) (by
    rw [left_streamOf, minHeaderLength]
    omega)
  rw [left_streamOf] at hbuffer
  obtain ⟨tcpHeader, hof, hheader, hnone⟩ := exists_ofTcphdr (bytes.take minHeaderLength) (by
    rw [List.length_take, minHeaderLength]
    omega)
  rw [minHeaderLength, dataOffset_take] at hheader
  have hat := atOptions_streamOf hd hlength
  have hstart : deserializeFields.run (streamOf bytes) =
      (if tcpHeader.headerLength > minHeaderLength then do
        let headerOption ← deserializeOptions 0 tcpHeader.headerLength (tcpHeader.headerLength + 1)
        return { tcpHeader with headerOption := headerOption }
      else return tcpHeader : Reader TcpHeader).run ((streamOf bytes).skip 20) := by
    unfold deserializeFields
    rw [StateT.run_bind, StateT.run_get, pure_bind, run_bind_of_ok hbuffer, hof]
    rfl
  obtain ⟨read, s', hread, hiff⟩ := hat.exists_run (n := tcpHeader.headerLength + 1) (by
    have hle := hat.length_le
    rw [hheader]
    omega)
  rw [List.length_drop, Nat.zero_add] at hiff
  rw [← hiff]
  by_cases hmore : tcpHeader.headerLength > minHeaderLength
  · rw [if_pos hmore, hheader, run_bind_of_ok (hheader ▸ hread)] at hstart
    constructor
    · rintro ⟨header, t, hrun, hposition, hsum⟩
      rw [hstart] at hrun
      cases hrun
      exact ⟨by omega, hsum⟩
    · rintro ⟨hposition, hsum⟩
      exact ⟨_, _, hstart, by omega, hsum⟩
  · rw [if_neg hmore] at hstart
    rw [minHeaderLength] at hmore
    have hfive : dataOffset bytes = 5 := by omega
    have hnil : optionBytes bytes = [] := by
      rw [optionBytes, hfive]
      rfl
    rw [hiff, hnil]
    refine ⟨fun _ => .nil, fun _ => ⟨tcpHeader, _, hstart, ?_, ?_⟩⟩
    · have hposition := hat.position_eq
      rw [hnil, hfive] at hposition
      rw [hfive]
      exact hposition
    · rw [hnone]
      exact Nat.zero_le _

/-- A header with the given four bytes of options. -/
def headerOf (options : List Byte) : List Byte :=
  [0, 80, 0, 81, 0, 0, 0, 1, 0, 0, 0, 2, 0x60, 0x10, 0, 64, 0, 0, 0, 0] ++ options

/-- A maximum segment size option. -/
theorem staysInside_maxSegmentSize : StaysInside (headerOf [2, 4, 5, 180] ++ [7, 7]) := by
  refine (staysInside_iff_fits (headerOf [2, 4, 5, 180] ++ [7, 7]) (by decide) (by decide)).2 ?_
  exact .inside (by decide) (by decide) .nil

/-- A timestamp option that starts two bytes before the end of the header. -/
theorem not_staysInside_timestamp :
    5 ≤ dataOffset (headerOf [1, 1, 8, 10] ++ [1, 2, 3, 4, 5, 6, 7, 8]) ∧
    4 * dataOffset (headerOf [1, 1, 8, 10] ++ [1, 2, 3, 4, 5, 6, 7, 8]) ≤
      (headerOf [1, 1, 8, 10] ++ [1, 2, 3, 4, 5, 6, 7, 8]).length ∧
    ¬ StaysInside (headerOf [1, 1, 8, 10] ++ [1, 2, 3, 4, 5, 6, 7, 8]) := by
  refine ⟨by decide, by decide, ?_⟩
  rintro ⟨header, s', hrun, hposition, -⟩
  have hstop : (deserializeFields.run
      (streamOf (headerOf [1, 1, 8, 10] ++ [1, 2, 3, 4, 5, 6, 7, 8]))).toOption.map
        (fun result => result.2.position) = some 256 := by decide +kernel
  rw [hrun] at hstop
  have hequal : 256 = 8 * (4 * dataOffset (headerOf [1, 1, 8, 10] ++ [1, 2, 3, 4, 5, 6, 7, 8])) :=
    (Option.some.inj hstop).symm.trans hposition
  exact absurd hequal (by decide)

end Inet.Tcp.TcpHeaderSerializer
