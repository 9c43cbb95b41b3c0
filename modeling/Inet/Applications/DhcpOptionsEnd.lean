import Inet.Applications.DhcpMessageSerializer
import Inet.Stream.Skips

/-! # Where the DHCP option loop stops

Each option is skipped with the bytes that its length says, whatever its code
is, unless its length fails an assertion or its time is out of range. Past the
end of the data the code is zero for ever, so the loop stops only at the End
option or at one that is rejected inside the data.
-/

namespace Inet.MemoryInputStream

variable {s : MemoryInputStream} {n : ℕ}

namespace Whole

theorem readBytes_run_of_lt (h : Whole s) (hn : s.left.length < n) :
    (readBytes n).run s = .ok (s.left, s.skip n) := by
  have hl := h.length_eq
  have ha := h.aligned
  have hp := h.position_le
  have hlen := h.length_left
  have hpos : s.position + 8 * n > s.length := by omega
  have hbytes :
    (toBytes ((s.length : ℤ) - s.position) : StateT MemoryInputStream (Except Error) ℤ) =
      pure (((s.length : ℤ) - s.position) / 8) := if_pos (by omega)
  have hcount : (((s.length : ℤ) - s.position) / 8).toNat = s.left.length := by omega
  have hstart : s.position ≤ 8 * s.data.length := by omega
  have hend : s.position + 8 * s.left.length = s.length := by omega
  have htake : s.left.take s.left.length = s.left := List.take_length
  rw [skip_of_lt hn]
  rw [left, List.length_drop] at hcount hend htake
  simp [readBytes, hpos, hbytes, hcount, hstart, hl.le, assert, isByteAligned, ha, pastEnd, hend,
    htake, left]

theorem readBytes_run_take (h : Whole s) (n : ℕ) :
    (readBytes n).run s = .ok (s.left.take n, s.skip n) := by
  by_cases hn : n ≤ s.left.length
  · exact h.readBytes_run hn
  · rw [not_le] at hn
    rw [h.readBytes_run_of_lt hn, List.take_of_length_le hn.le]

theorem readByteLoop_run_take (h : Whole s) (hn : n ≤ s.left.length) :
    (readByteLoop n).run s = .ok (s.left.take n, s.skip n) := by
  induction n generalizing s with
  | zero => simp [readByteLoop]
  | succ n ih =>
    cases hleft : s.left with
    | nil =>
      rw [hleft] at hn
      cases hn
    | cons byte rest =>
      have hrest : (s.skip 1).left = rest := by
        rw [h.left_skip, hleft]
        rfl
      rw [hleft, List.length_cons] at hn
      have hbyte := h.readByte_run
      rw [hleft] at hbyte
      have hloop := ih (h.skip 1) (hrest ▸ Nat.le_of_succ_le_succ hn)
      rw [readByteLoop, run_bind_of_ok hbyte, run_bind_of_ok hloop, hrest, h.skip_skip,
        Nat.add_comm 1]
      rfl

end Whole

/-- What `readShifted` makes of the bytes that are left, with zeros behind them. -/
def shiftedValue : List ℕ → ℕ → List Byte → ℕ
  | [], value, _ => value
  | shift :: shifts, value, rest =>
    shiftedValue shifts (value ||| (rest.headD 0).toNat <<< shift) rest.tail

theorem readShifted_run (hs : Whole s) (shifts : List ℕ) :
    (readShifted shifts).run s = .ok (shiftedValue shifts 0 s.left, s.skip shifts.length) := by
  unfold readShifted
  generalize 0 = value
  induction shifts generalizing s value with
  | nil => simp [shiftedValue]
  | cons shift shifts ih =>
    have hstep : (do
        let byte ← readByte
        return value ||| byte.toNat <<< shift : Reader ℕ).run s =
          .ok (value ||| (s.left.headD 0).toNat <<< shift, s.skip 1) := by
      rw [run_bind_of_ok hs.readByte_run]
      rfl
    rw [List.foldlM_cons, run_bind_of_ok hstep, ih (hs.skip 1), hs.left_skip, hs.skip_skip,
      List.drop_one, List.length_cons, Nat.add_comm 1]
    rfl

/-- The reader goes on by a number of bits if there are so many, at any alignment. -/
def Advances {α : Type} (r : Reader α) (n : ℕ) : Prop :=
  ∀ s : MemoryInputStream, s.length ≤ 8 * s.data.length → s.position + n ≤ s.length →
    ∃ a, r.run s = .ok (a, s.advance n)

namespace Advances

variable {α β : Type} {r : Reader α} {f : α → Reader β} {m : ℕ}

theorem pure (a : α) : Advances (Pure.pure a) 0 := fun _ _ _ => ⟨a, rfl⟩

theorem bind (hr : Advances r m) (hf : ∀ a, Advances (f a) n) : Advances (r >>= f) (m + n) := by
  intro s hl hle
  obtain ⟨a, hrun⟩ := hr s hl (by omega)
  have hle' : (s.advance m).position + n ≤ (s.advance m).length := by
    change s.position + m + n ≤ s.length
    omega
  obtain ⟨b, hrun'⟩ := hf a (s.advance m) hl hle'
  exact ⟨b, by rw [run_bind_of_ok hrun, hrun', advance_advance]⟩

theorem readByte : Advances readByte 8 := by
  intro s hl hle
  obtain ⟨v, -, -, hrun⟩ := readByte_run_of_le hl hle
  exact ⟨v, hrun⟩

theorem readBit : Advances readBit 1 := by
  intro s hl hle
  have hne : s.position ≠ s.length := by omega
  have hi : s.position / 8 < s.data.length := by omega
  exact ⟨s.data[s.position / 8].getMsbD (s.position % 8), by
    simp [MemoryInputStream.readBit, hne, hi, advance]⟩

theorem foldlM {f : β → α → Reader β} (hf : ∀ b a, Advances (f b a) n) (as : List α) (b : β) :
    Advances (as.foldlM f b) (as.length * n) := by
  induction as generalizing b with
  | nil =>
    rw [List.length_nil, Nat.zero_mul]
    exact pure b
  | cons a as ih =>
    rw [List.foldlM_cons, List.length_cons, Nat.succ_mul, Nat.add_comm]
    exact (hf b a).bind ih

theorem readShifted (shifts : List ℕ) : Advances (readShifted shifts) (shifts.length * 8) :=
  foldlM (fun _ _ => readByte.bind fun _ => pure _) shifts 0

theorem readMasked (masks : List ℕ) : Advances (readMasked masks) (masks.length * 1) :=
  foldlM (fun _ _ => readBit.bind fun _ => pure _) masks 0

end Advances

end Inet.MemoryInputStream

namespace Inet.Dhcp.DhcpMessageSerializer

open MemoryInputStream

theorem advances_readFixed : Advances readFixed (8 * 44) := by
  have hbits : Advances (readNBitsToUint64Be 15) 15 := Advances.readMasked _
  exact Advances.readByte.bind fun _ => Advances.readByte.bind fun _ => Advances.readByte.bind
    fun _ => Advances.readByte.bind fun _ => (Advances.readShifted [24, 16, 8, 0]).bind fun _ =>
    (Advances.readShifted [8, 0]).bind fun _ => Advances.readBit.bind fun _ => hbits.bind fun _ =>
    ((Advances.readShifted [24, 16, 8, 0]).bind fun _ => Advances.pure _).bind fun _ =>
    ((Advances.readShifted [24, 16, 8, 0]).bind fun _ => Advances.pure _).bind fun _ =>
    (Advances.readShifted [24, 16, 8, 0]).bind fun _ =>
    ((Advances.readShifted [24, 16, 8, 0]).bind fun _ => Advances.pure _).bind fun _ =>
    ((Advances.readShifted [40, 32, 24, 16, 8, 0]).bind fun _ => Advances.pure _).bind fun _ =>
    Advances.readByte.bind fun _ => Advances.readByte.bind fun _ =>
    (Advances.readShifted [56, 48, 40, 32, 24, 16, 8, 0]).bind fun _ => Advances.pure _

/-! The options. -/

/-- The length byte in front of the bytes; it is zero past the end. -/
def sizeByte (rest : List Byte) : Byte := rest.headD 0

/-- The byte behind the length byte. -/
def typeByte (rest : List Byte) : Byte := rest.tail.headD 0

/-- The number in the four bytes behind the length byte. -/
def timeValue (rest : List Byte) : ℕ := shiftedValue [24, 16, 8, 0] 0 rest.tail

/-- The length, and the type of a client identifier, are what the option asserts, and a time is
one that a `simtime_t` can hold. -/
def Fits (maxSeconds : ℕ) (code : Byte) (rest : List Byte) : Prop :=
  if code = DHCP_MSG_TYPE then sizeByte rest = 1
  else if code = CLIENT_ID then sizeByte rest = 7 ∧ typeByte rest = 1
  else if code ∈ [REQUESTED_IP, SUBNET_MASK, SERVER_ID] then sizeByte rest = 4
  else if code ∈ [RENEWAL_TIME, REBIND_TIME, LEASE_TIME] then
    sizeByte rest = 4 ∧ timeValue rest ≤ maxSeconds
  else if code ∈ [ROUTER, DNS, NTP_SRV] then (sizeByte rest).toNat % 4 = 0
  else True

instance (maxSeconds : ℕ) (code : Byte) (rest : List Byte) :
    Decidable (Fits maxSeconds code rest) := by
  unfold Fits
  infer_instance

/-- Reading the options leads to the End option or to one that is rejected before the data ends. -/
inductive EndsInside (maxSeconds : ℕ) : List Byte → Prop where

  | endOption (rest : List Byte) : EndsInside maxSeconds (255 :: rest)

  | rejected {code : Byte} {rest : List Byte} : code ≠ 255 → ¬ Fits maxSeconds code rest →
      EndsInside maxSeconds (code :: rest)

  | option {code size : Byte} {data rest : List Byte} : code ≠ 255 →
      Fits maxSeconds code (size :: (data ++ rest)) → data.length = size.toNat →
      EndsInside maxSeconds rest → EndsInside maxSeconds (code :: size :: (data ++ rest))

/-- The reader throws: an assertion fails, or a time is out of range. -/
def Rejects {α : Type} (result : Except Error α) : Prop :=
  ∃ text, result = .error (.assertion text) ∨ result = .error (.runtime text)

/-- An option is rejected, or is skipped with its length. Only the host name cannot be taken when
it is not there as a whole. -/
def ReadsOption (read : OptionInput → Reader OptionInput) (fits : List Byte → Prop) : Prop :=
  ∀ (s : MemoryInputStream) (input : OptionInput), Whole s →
    (¬ fits s.left → Rejects ((read input).run s)) ∧
    (fits s.left →
      (∃ input', (read input).run s = .ok (input', s.skip (1 + (sizeByte s.left).toNat)) ∧
        input'.length = input.length + (2 + (sizeByte s.left).toNat)) ∨
      s.left.length < 1 + (sizeByte s.left).toNat ∧
        ∃ operation, (read input).run s = .error (.undefinedBehavior operation))

variable {maxSeconds : ℕ} {s : MemoryInputStream} {input : OptionInput}

theorem run_readByte_bind {α : Type} (hs : Whole s) (f : Byte → Reader α) :
    (readByte >>= f).run s = (f (sizeByte s.left)).run (s.skip 1) :=
  run_bind_of_ok hs.readByte_run

theorem run_assert_of_neg {p : Prop} [Decidable p] {α : Type} {text : String} (h : ¬ p)
    (f : Unit → Reader α) :
      ((assert p text : Reader Unit) >>= f).run s = .error (.assertion text) := by
  rw [assert, if_neg h]
  rfl

theorem run_assert_of_pos {p : Prop} [Decidable p] {α : Type} {text : String} (h : p)
    (f : Unit → Reader α) : ((assert p text : Reader Unit) >>= f).run s = (f ()).run s := by
  rw [assert, if_pos h]
  rfl

theorem readsOption_of_assert {p : Byte → Prop} [∀ size, Decidable (p size)] {text : String}
    {f : OptionInput → Byte → Reader OptionInput}
    (hf : ∀ input size, p size → Skips (f input size) size.toNat fun input' =>
      input'.length = input.length + (2 + size.toNat)) :
    ReadsOption (fun input => do
      let size ← readByte
      assert (p size) text
      f input size) fun rest => p (sizeByte rest) := by
  intro s input hs
  rw [run_readByte_bind hs]
  constructor
  · intro hp
    exact ⟨text, .inl (run_assert_of_neg hp _)⟩
  · intro hp
    rw [run_assert_of_pos hp]
    obtain ⟨input', hrun, hlength⟩ := hf input _ hp _ (hs.skip 1)
    rw [hs.skip_skip] at hrun
    exact .inl ⟨input', hrun, hlength⟩

theorem readsOption_messageType :
    ReadsOption readMessageType fun rest => sizeByte rest = 1 := by
  refine readsOption_of_assert fun input size hsize => ?_
  subst hsize
  exact Skips.readByte.map fun _ _ => rfl

theorem skips_readIpv4Address : Skips readIpv4Address 4 fun _ => True :=
  (Skips.readShifted _).map fun _ _ => trivial

theorem skips_readIpv4Addresses (n : ℕ) : Skips (readIpv4Addresses n) (4 * n) fun _ => True := by
  induction n with
  | zero => exact Skips.pure trivial
  | succ n ih =>
    refine Skips.of_eq (skips_readIpv4Address.bind fun _ _ => ih.map fun _ _ => trivial) ?_
    omega

theorem readsOption_addressOption (set : DhcpOptions → Ipv4.Ipv4Address → DhcpOptions) :
    ReadsOption (readAddressOption set) fun rest => sizeByte rest = 4 := by
  refine readsOption_of_assert fun input size hsize => ?_
  subst hsize
  exact skips_readIpv4Address.map fun _ _ => rfl

theorem readsOption_timeOption (set : DhcpOptions → ℤ → DhcpOptions) :
    ReadsOption (readTimeOption maxSeconds set) fun rest =>
      sizeByte rest = 4 ∧ timeValue rest ≤ maxSeconds := by
  intro s input hs
  rw [readTimeOption, run_readByte_bind hs]
  by_cases hsize : sizeByte s.left = 4
  · have htime : (readUint32Be : Reader ℕ).run (s.skip 1) =
        .ok (timeValue s.left, (s.skip 1).skip 4) := by
      rw [readUint32Be, readShifted_run (hs.skip 1), hs.left_skip, List.drop_one]
      rfl
    rw [run_assert_of_pos hsize, run_bind_of_ok htime, hs.skip_skip]
    by_cases hle : timeValue s.left ≤ maxSeconds
    · rw [if_pos hle]
      rw [hsize]
      exact ⟨fun h => absurd ⟨hsize, hle⟩ h, fun _ => .inl ⟨_, rfl, rfl⟩⟩
    · rw [if_neg hle]
      exact ⟨fun _ => ⟨_, .inr rfl⟩, fun h => absurd h.2 hle⟩
  · exact ⟨fun _ => ⟨_, .inl (run_assert_of_neg hsize _)⟩, fun h => absurd h.1 hsize⟩

theorem readsOption_addressListOption (set : DhcpOptions → List Ipv4.Ipv4Address → DhcpOptions) :
    ReadsOption (readAddressListOption set) fun rest => (sizeByte rest).toNat % 4 = 0 := by
  refine readsOption_of_assert fun input size hsize => ?_
  refine Skips.of_eq ((skips_readIpv4Addresses _).map fun _ _ => rfl) ?_
  omega

theorem readsOption_of_skips {f : OptionInput → Byte → Reader OptionInput}
    (hf : ∀ input size, Skips (f input size) size.toNat fun input' =>
      input'.length = input.length + (2 + size.toNat)) :
    ReadsOption (fun input => do
      let size ← readByte
      f input size) fun _ => True := by
  intro s input hs
  rw [run_readByte_bind hs]
  refine ⟨fun h => absurd trivial h, fun _ => .inl ?_⟩
  obtain ⟨input', hrun, hlength⟩ := hf input (sizeByte s.left) _ (hs.skip 1)
  rw [hs.skip_skip] at hrun
  exact ⟨input', hrun, hlength⟩

theorem readsOption_parameterRequestList :
    ReadsOption readParameterRequestList fun _ => True :=
  readsOption_of_skips fun _ size => (Skips.readByteLoop size.toNat).map fun _ _ => rfl

theorem readsOption_other : ReadsOption readOther fun _ => True :=
  readsOption_of_skips fun _ _ =>
    Skips.map (P := fun _ => True) (fun _ hs => ⟨_, hs.readBytes_run_take _, trivial⟩) fun _ _ =>
      rfl

theorem readsOption_hostName : ReadsOption readHostName fun _ => True := by
  intro s input hs
  refine ⟨fun h => absurd trivial h, fun _ => ?_⟩
  rw [readHostName, run_readByte_bind hs, run_bind_of_ok ((hs.skip 1).readBytes_run_take _)]
  have hlength := congrArg List.length (hs.left_skip 1)
  rw [List.length_drop] at hlength
  by_cases hshort : (s.skip 1).left.length < (sizeByte s.left).toNat
  · refine .inr ⟨by omega, "uninitialized hostName", ?_⟩
    rw [if_pos]
    · rfl
    · rw [List.length_take]
      omega
  · left
    rw [if_neg]
    · have hnull : (0 : Byte) ∈ (s.skip 1).left.take (sizeByte s.left).toNat ++ [0] := by simp
      rw [cString, if_pos hnull, hs.skip_skip]
      exact ⟨_, rfl, rfl⟩
    · rw [List.length_take]
      omega

theorem readsOption_clientIdentifier :
    ReadsOption readClientIdentifier fun rest => sizeByte rest = 7 ∧ typeByte rest = 1 := by
  intro s input hs
  have htype : sizeByte (s.skip 1).left = typeByte s.left := by
    rw [hs.left_skip, List.drop_one]
    rfl
  rw [readClientIdentifier, run_readByte_bind hs, run_readByte_bind (hs.skip 1), htype]
  constructor
  · intro h
    exact ⟨_, .inl (run_assert_of_neg h _)⟩
  · intro h
    rw [run_assert_of_pos h]
    have hmac : Skips readMacAddress 6 fun _ => True :=
      (Skips.readShifted _).map fun _ _ => trivial
    obtain ⟨address, hrun, -⟩ := hmac _ ((hs.skip 1).skip 1)
    rw [hs.skip_skip, hs.skip_skip] at hrun
    left
    rw [h.1, hs.skip_skip, run_bind_of_ok hrun]
    exact ⟨_, rfl, rfl⟩

/-- One branch of the `switch`. -/
theorem readsOption_ite {code c : Byte} {read read' : OptionInput → Reader OptionInput}
    (h : ReadsOption read (Fits maxSeconds c))
    (h' : code ≠ c → ReadsOption read' (Fits maxSeconds code)) :
    ReadsOption (if code = c then read else read') (Fits maxSeconds code) := by
  by_cases hcode : code = c
  · rw [if_pos hcode, hcode]
    exact h
  · rw [if_neg hcode]
    exact h' hcode

theorem readsOption (code : Byte) :
    ReadsOption (readOption maxSeconds code) (Fits maxSeconds code) := by
  unfold readOption
  refine readsOption_ite readsOption_messageType fun hmessage => ?_
  refine readsOption_ite readsOption_hostName fun hname => ?_
  refine readsOption_ite readsOption_parameterRequestList fun hlist => ?_
  refine readsOption_ite readsOption_clientIdentifier fun hclient => ?_
  refine readsOption_ite (readsOption_addressOption _) fun hrequested => ?_
  refine readsOption_ite (readsOption_addressOption _) fun hmask => ?_
  refine readsOption_ite (readsOption_addressListOption _) fun hrouter => ?_
  refine readsOption_ite (readsOption_addressListOption _) fun hdns => ?_
  refine readsOption_ite (readsOption_addressListOption _) fun hntp => ?_
  refine readsOption_ite (readsOption_addressOption _) fun hserver => ?_
  refine readsOption_ite (readsOption_timeOption _) fun hrenewal => ?_
  refine readsOption_ite (readsOption_timeOption _) fun hrebind => ?_
  refine readsOption_ite (readsOption_timeOption _) fun hlease => ?_
  have hfits : Fits maxSeconds code = fun _ => True := by
    funext rest
    simp only [Fits, List.mem_cons, hmessage, hclient, hrequested, hmask, hserver, hrenewal,
      hrebind, hlease, hrouter, hdns, hntp, List.not_mem_nil, or_self, if_false]
  rw [hfits]
  exact readsOption_other

/-! The loop. -/

/-- The loop has returned, or something has been thrown. -/
def Finishes {α : Type} : Except Error (Option α × MemoryInputStream) → Prop
  | .ok (some _, _) => True
  | .error (.assertion _) => True
  | .error (.runtime _) => True
  | _ => False

theorem readOptions_run_succ (hs : Whole s) (n : ℕ) :
    (readOptions maxSeconds (n + 1) input).run s = (if sizeByte s.left = 255 then return some input
      else do
        let input ← readOption maxSeconds (sizeByte s.left) input
        readOptions maxSeconds n input : Reader (Option OptionInput)).run (s.skip 1) :=
  run_readByte_bind hs _

theorem not_endsInside_drop {code : Byte} {rest : List Byte} (hcode : code ≠ 255)
    (hfits : Fits maxSeconds code rest) (h : ¬ EndsInside maxSeconds (code :: rest)) :
    ¬ EndsInside maxSeconds (rest.drop (1 + (sizeByte rest).toNat)) := by
  intro hends
  by_cases hle : 1 + (sizeByte rest).toNat ≤ rest.length
  · cases rest with
    | nil =>
      rw [List.length_nil] at hle
      omega
    | cons size rest =>
      change 1 + size.toNat ≤ _ at hle
      rw [List.length_cons] at hle
      change EndsInside maxSeconds ((size :: rest).drop (1 + size.toNat)) at hends
      rw [Nat.add_comm, List.drop_succ_cons] at hends
      rw [← List.take_append_drop size.toNat rest] at hfits h
      have hlength : (rest.take size.toNat).length = size.toNat := by
        rw [List.length_take]
        omega
      exact h (.option hcode hfits hlength hends)
  · rw [List.drop_of_length_le (by omega)] at hends
    cases hends

/-- Without them the loop never stops. -/
theorem not_finishes_readOptions (rounds : ℕ) (hs : Whole s) (h : ¬ EndsInside maxSeconds s.left) :
    ¬ Finishes ((readOptions maxSeconds rounds input).run s) := by
  induction rounds generalizing s input with
  | zero => exact id
  | succ rounds ih =>
    rw [readOptions_run_succ hs]
    have hrest : (s.skip 1).left = s.left.drop 1 := hs.left_skip 1
    have hcode : sizeByte s.left ≠ 255 := by
      intro hend
      cases hleft : s.left with
      | nil =>
        rw [hleft] at hend
        cases hend
      | cons code rest =>
        rw [hleft] at hend h
        change code = 255 at hend
        subst hend
        exact h (.endOption rest)
    have hfits : Fits maxSeconds (sizeByte s.left) (s.skip 1).left := by
      by_contra hnot
      cases hleft : s.left with
      | nil =>
        rw [hrest, hleft] at hnot
        exact hnot trivial
      | cons code rest =>
        rw [hrest, hleft] at hnot
        rw [hleft] at h hcode
        exact h (.rejected hcode hnot)
    rw [if_neg hcode, StateT.run_bind]
    rcases (readsOption _ _ input (hs.skip 1)).2 hfits with ⟨input', hrun, -⟩ | ⟨-, operation, hrun⟩
    · rw [hrun, Error.ok_bind]
      refine ih ((hs.skip 1).skip _) ?_
      rw [(hs.skip 1).left_skip]
      cases hleft : s.left with
      | nil =>
        rw [hrest, hleft]
        intro hends
        cases hends
      | cons code rest =>
        rw [hleft] at h hcode hfits hrest
        rw [hrest] at hfits ⊢
        exact not_endsInside_drop hcode hfits h
    · rw [hrun]
      exact id

theorem readOptions_run_option {code size : Byte} {data rest : List Byte} (hs : Whole s)
    (hleft : s.left = code :: size :: (data ++ rest)) (hcode : code ≠ 255)
    (hfits : Fits maxSeconds code (size :: (data ++ rest))) (hlength : data.length = size.toNat) :
    ∃ input' s', Whole s' ∧ s'.left = rest ∧ input'.length = input.length + (2 + size.toNat) ∧
      ∀ n, (readOptions maxSeconds (n + 1) input).run s =
        (readOptions maxSeconds n input').run s' := by
  have hrest : (s.skip 1).left = size :: (data ++ rest) := by
    rw [hs.left_skip, hleft]
    rfl
  have hnext : ((s.skip 1).skip (1 + size.toNat)).left = rest := by
    rw [(hs.skip 1).left_skip, hrest, Nat.add_comm, List.drop_succ_cons, ← hlength,
      List.drop_left]
  have hread := (readsOption code _ input (hs.skip 1)).2 (hrest ▸ hfits)
  rw [hrest] at hread
  have hsize : sizeByte s.left = code := by
    rw [hleft]
    rfl
  rcases hread with ⟨input', hrun, hcount⟩ | ⟨hshort, -⟩
  · refine ⟨input', _, (hs.skip 1).skip _, hnext, hcount, fun n => ?_⟩
    rw [readOptions_run_succ hs, hsize, if_neg hcode, run_bind_of_ok hrun]
    rfl
  · change _ < 1 + size.toNat at hshort
    rw [List.length_cons, List.length_append] at hshort
    omega

theorem readOptions_run_rejected {code : Byte} {rest : List Byte} (hs : Whole s)
    (hleft : s.left = code :: rest) (hcode : code ≠ 255) (hfits : ¬ Fits maxSeconds code rest)
    (n : ℕ) :
    Rejects ((readOptions maxSeconds (n + 1) input).run s) := by
  have hrest : (s.skip 1).left = rest := by
    rw [hs.left_skip, hleft]
    rfl
  have hsize : sizeByte s.left = code := by
    rw [hleft]
    rfl
  obtain ⟨text, hrun⟩ := (readsOption code _ input (hs.skip 1)).1 (hrest ▸ hfits)
  refine ⟨text, ?_⟩
  rw [readOptions_run_succ hs, hsize, if_neg hcode, StateT.run_bind]
  rcases hrun with hrun | hrun
  · exact .inl (by rw [hrun]; rfl)
  · exact .inr (by rw [hrun]; rfl)

theorem readOptions_run_end {rest : List Byte} (hs : Whole s) (hleft : s.left = 255 :: rest)
    (n : ℕ) : (readOptions maxSeconds (n + 1) input).run s = .ok (some input, s.skip 1) := by
  rw [readOptions_run_succ hs, hleft]
  rfl

theorem finishes_readOptions {rest : List Byte} (h : EndsInside maxSeconds rest) (hs : Whole s)
    (hleft : s.left = rest) : ∃ rounds, Finishes ((readOptions maxSeconds rounds input).run s) := by
  induction h generalizing s input with
  | endOption rest =>
    refine ⟨1, ?_⟩
    rw [readOptions_run_end hs hleft]
    exact trivial
  | rejected hcode hfits =>
    obtain ⟨text, hrun | hrun⟩ := readOptions_run_rejected hs hleft hcode hfits 0
    all_goals
      refine ⟨1, ?_⟩
      rw [hrun]
      exact trivial
  | option hcode hfits hlength _ ih =>
    obtain ⟨input', s', hs', hrest, -, hstep⟩ :=
      readOptions_run_option hs hleft hcode hfits hlength
    obtain ⟨rounds, hfinishes⟩ := ih hs' hrest
    refine ⟨rounds + 1, ?_⟩
    rw [hstep]
    exact hfinishes

theorem length_of_readOptions {rounds : ℕ} (hs : Whole s) {input' : OptionInput}
    {s' : MemoryInputStream}
    (hrun : (readOptions maxSeconds rounds input).run s = .ok (some input', s')) :
    Whole s' ∧ input'.length + 1 + s'.left.length = input.length + s.left.length := by
  induction rounds generalizing s input with
  | zero => cases hrun
  | succ rounds ih =>
    have hends : EndsInside maxSeconds s.left := by
      by_contra hnot
      apply not_finishes_readOptions (rounds + 1) hs hnot
      rw [hrun]
      exact trivial
    generalize hleft : s.left = rest at hends
    cases hends with
    | endOption rest =>
      rw [readOptions_run_end hs hleft] at hrun
      cases hrun
      refine ⟨hs.skip 1, ?_⟩
      rw [hs.left_skip, hleft, List.drop_one, List.tail_cons, List.length_cons]
      omega
    | rejected hcode hfits =>
      obtain ⟨text, herror | herror⟩ := readOptions_run_rejected hs hleft hcode hfits rounds
      all_goals
        rw [herror] at hrun
        cases hrun
    | option hcode hfits hlength _ =>
      obtain ⟨input₁, s₁, hs₁, hrest, hcount, hstep⟩ :=
        readOptions_run_option hs hleft hcode hfits hlength
      rw [hstep] at hrun
      obtain ⟨hs', heq⟩ := ih hs₁ hrun
      refine ⟨hs', ?_⟩
      rw [heq, hrest, hcount]
      simp only [List.length_cons, List.length_append, hlength]
      omega

/-! The message. -/

/-- The bytes between two places. -/
def field (bytes : List Byte) (offset length : ℕ) : List Byte := (bytes.drop offset).take length

/-- The message ends with a result, and the chunk length is no more than the bytes that are there
unless the message is marked. -/
structure ParsesSafely (maxSeconds : ℕ) (bytes : List Byte) : Prop where
  finishes : ∃ rounds, Finishes ((deserializeFields maxSeconds rounds).run (streamOf bytes))
  chunkLength : ∀ rounds m incorrect s,
    (deserializeFields maxSeconds rounds).run (streamOf bytes) = .ok (some (m, incorrect), s) →
      m.chunkLength ≤ bytes.length ∨ s.isReadBeyondEnd = true ∨ incorrect = true

variable {bytes : List Byte}

theorem cString_run (chars : List Byte) (s : MemoryInputStream) :
    (0 ∈ chars → ∃ name, (cString chars).run s = .ok (name, s)) ∧
      (0 ∉ chars → (cString chars).run s = .error (.undefinedBehavior "strlen")) := by
  constructor
  · intro h
    rw [cString, if_pos h]
    exact ⟨_, rfl⟩
  · intro h
    rw [cString, if_neg h]
    rfl

theorem readName_run (offset : ℕ) {limit : ℕ} (hlimit : offset + limit ≤ bytes.length) :
    (readName limit).run ((streamOf bytes).skip offset) =
      (cString (field bytes offset limit)).run ((streamOf bytes).skip (offset + limit)) := by
  have hwhole := whole_streamOf bytes
  have hleft : ((streamOf bytes).skip offset).left = bytes.drop offset := by
    rw [hwhole.left_skip, left_streamOf]
  have hle : limit ≤ ((streamOf bytes).skip offset).left.length := by
    rw [hleft, List.length_drop]
    omega
  rw [readName, run_bind_of_ok ((hwhole.skip offset).readByteLoop_run_take hle), hleft,
    hwhole.skip_skip]
  rfl

/-- The fields in front of the options. -/
theorem readFixed_run (hlength : 240 ≤ bytes.length) :
    ∃ fixed, readFixed.run (streamOf bytes) = .ok (fixed, (streamOf bytes).skip 44) := by
  have hle : (streamOf bytes).position + 8 * 44 ≤ (streamOf bytes).length := by
    simp only [streamOf]
    omega
  obtain ⟨fixed, hrun⟩ := advances_readFixed (streamOf bytes) le_rfl hle
  have hleft : 44 ≤ (streamOf bytes).left.length := by
    rw [left_streamOf]
    omega
  exact ⟨fixed, by rw [hrun, skip_of_le hleft]⟩

theorem deserializeFields_run_of_not_mem (hlength : 240 ≤ bytes.length)
    (h : 0 ∉ field bytes 44 64 ∨ 0 ∉ field bytes 108 128) (rounds : ℕ) :
    (deserializeFields maxSeconds rounds).run (streamOf bytes) =
      .error (.undefinedBehavior "strlen") := by
  obtain ⟨fixed, hfixed⟩ := readFixed_run hlength
  rw [deserializeFields, run_bind_of_ok hfixed, StateT.run_bind, readName_run 44 (by omega)]
  by_cases hsname : 0 ∈ field bytes 44 64
  · obtain ⟨sname, hrun⟩ := (cString_run (field bytes 44 64) ((streamOf bytes).skip 108)).1 hsname
    rw [hrun, Error.ok_bind, StateT.run_bind, readName_run 108 (by omega),
      (cString_run _ _).2 (h.resolve_left (not_not.2 hsname))]
    rfl
  · rw [(cString_run _ _).2 hsname]
    rfl

/-- What follows the names. -/
def afterNames (maxSeconds rounds : ℕ) (fixed : DhcpMessage) (sname file : CString) :
    Reader (Option (DhcpMessage × Bool)) := do
  let input ← readOptions maxSeconds rounds ⟨{}, 236 + 4, false⟩
  match input with
  | none => return none
  | some input =>
    let stream ← get
    let padding ← toBytes stream.getRemainingLength
    let _ ← readByteLoop padding.toNat
    return some ({ fixed with
      sname := sname
      file := file
      options := input.options
      chunkLength := input.length + 1 + padding.toNat }, input.incorrect)

theorem deserializeFields_run (hlength : 240 ≤ bytes.length) (hsname : 0 ∈ field bytes 44 64)
    (hfile : 0 ∈ field bytes 108 128) (hcookie : field bytes 236 4 = [99, 130, 83, 99]) :
    ∃ fixed sname file, ∀ rounds, (deserializeFields maxSeconds rounds).run (streamOf bytes) =
      (afterNames maxSeconds rounds fixed sname file).run ((streamOf bytes).skip 240) := by
  have hwhole := whole_streamOf bytes
  obtain ⟨fixed, hfixed⟩ := readFixed_run hlength
  obtain ⟨sname, hrun⟩ := (cString_run (field bytes 44 64) ((streamOf bytes).skip 108)).1 hsname
  obtain ⟨file, hrun'⟩ := (cString_run (field bytes 108 128) ((streamOf bytes).skip 236)).1 hfile
  have hleft : ((streamOf bytes).skip 236).left = bytes.drop 236 := by
    rw [hwhole.left_skip, left_streamOf]
  have hle : 4 ≤ ((streamOf bytes).skip 236).left.length := by
    rw [hleft, List.length_drop]
    omega
  have hread := (hwhole.skip 236).readByteLoop_run_take hle
  rw [hleft, hwhole.skip_skip] at hread
  rw [field] at hcookie
  refine ⟨fixed, sname, file, fun rounds => ?_⟩
  rw [deserializeFields, run_bind_of_ok hfixed,
    run_bind_of_ok ((readName_run 44 (by omega)).trans hrun),
    run_bind_of_ok ((readName_run 108 (by omega)).trans hrun'), run_bind_of_ok hread,
    run_assert_of_pos hcookie]
  rfl

theorem afterNames_run {rounds : ℕ} {input : OptionInput} {s' : MemoryInputStream}
    (fixed : DhcpMessage) (sname file : CString) (hs' : Whole s')
    (hrun : (readOptions maxSeconds rounds ⟨{}, 236 + 4, false⟩).run s = .ok (some input, s')) :
    ∃ m t, (afterNames maxSeconds rounds fixed sname file).run s =
      .ok (some (m, input.incorrect), t) ∧
      m.chunkLength = input.length + 1 + s'.left.length := by
  have hlen := hs'.length_left
  have hremaining : (s'.getRemainingLength : ℤ) % 8 = 0 := by
    rw [getRemainingLength, ← hlen]
    omega
  have hpadding : ((s'.getRemainingLength : ℤ) / 8).toNat = s'.left.length := by
    rw [getRemainingLength, ← hlen]
    omega
  have hloop := hs'.readByteLoop_run_take (n := s'.left.length) le_rfl
  refine ⟨{ fixed with
    sname := sname
    file := file
    options := input.options
    chunkLength := input.length + 1 + s'.left.length }, s'.skip s'.left.length, ?_, rfl⟩
  rw [afterNames, run_bind_of_ok hrun]
  simp only [StateT.run_bind, StateT.run_get, StateT.run_pure, pure_bind, toBytes, hremaining,
    if_true, hpadding, hloop, Error.ok_bind]
  rfl

theorem finishes_afterNames (rounds : ℕ) (fixed : DhcpMessage) (sname file : CString)
    (hs : Whole s) : Finishes ((afterNames maxSeconds rounds fixed sname file).run s) ↔
      Finishes ((readOptions maxSeconds rounds ⟨{}, 236 + 4, false⟩).run s) := by
  cases hrun : (readOptions maxSeconds rounds ⟨{}, 236 + 4, false⟩).run s with
  | error e =>
    rw [afterNames, StateT.run_bind, hrun, Error.error_bind]
    cases e <;> exact Iff.rfl
  | ok r =>
    obtain ⟨result, s'⟩ := r
    cases result with
    | none =>
      rw [afterNames, run_bind_of_ok hrun]
      exact Iff.rfl
    | some input =>
      obtain ⟨hs', -⟩ := length_of_readOptions hs hrun
      obtain ⟨m, t, hm, -⟩ := afterNames_run fixed sname file hs' hrun
      rw [hm]
      exact Iff.rfl

/-- The names have a null character each, and the options lead to the End option or to one that is
rejected inside the data. -/
structure Complete (maxSeconds : ℕ) (bytes : List Byte) : Prop where
  sname : 0 ∈ field bytes 44 64
  file : 0 ∈ field bytes 108 128
  options : EndsInside maxSeconds (bytes.drop 240)

theorem left_skip_options (bytes : List Byte) :
    ((streamOf bytes).skip 240).left = bytes.drop 240 := by
  rw [(whole_streamOf bytes).left_skip, left_streamOf]

theorem Complete.parsesSafely (h : Complete maxSeconds bytes) (hlength : 240 ≤ bytes.length)
    (hcookie : field bytes 236 4 = [99, 130, 83, 99]) : ParsesSafely maxSeconds bytes := by
  obtain ⟨fixed, sname, file, heq⟩ := deserializeFields_run hlength h.sname h.file hcookie
  have hwhole := (whole_streamOf bytes).skip 240
  constructor
  · obtain ⟨rounds, hfinishes⟩ := finishes_readOptions h.options hwhole (left_skip_options bytes)
    refine ⟨rounds, ?_⟩
    rw [heq, finishes_afterNames rounds fixed sname file hwhole]
    exact hfinishes
  · intro rounds m incorrect s hrun
    left
    rw [heq] at hrun
    cases hoptions :
      (readOptions maxSeconds rounds ⟨{}, 236 + 4, false⟩).run ((streamOf bytes).skip 240) with
    | error e =>
      rw [afterNames, StateT.run_bind, hoptions] at hrun
      cases hrun
    | ok r =>
      obtain ⟨result, s'⟩ := r
      cases result with
      | none =>
        rw [afterNames, run_bind_of_ok hoptions] at hrun
        cases hrun
      | some input =>
        obtain ⟨hs', hcount⟩ := length_of_readOptions hwhole hoptions
        obtain ⟨m', t, hm, hchunk⟩ := afterNames_run fixed sname file hs' hoptions
        rw [hm] at hrun
        cases hrun
        rw [left_skip_options, List.length_drop] at hcount
        dsimp only at hcount
        omega

theorem ParsesSafely.complete (h : ParsesSafely maxSeconds bytes) (hlength : 240 ≤ bytes.length)
    (hcookie : field bytes 236 4 = [99, 130, 83, 99]) : Complete maxSeconds bytes := by
  obtain ⟨rounds, hfinishes⟩ := h.finishes
  have hnames : ¬ (0 ∉ field bytes 44 64 ∨ 0 ∉ field bytes 108 128) := by
    intro hnot
    rw [deserializeFields_run_of_not_mem hlength hnot] at hfinishes
    exact hfinishes
  rw [not_or, not_not, not_not] at hnames
  obtain ⟨fixed, sname, file, heq⟩ := deserializeFields_run hlength hnames.1 hnames.2 hcookie
  have hwhole := (whole_streamOf bytes).skip 240
  refine ⟨hnames.1, hnames.2, ?_⟩
  by_contra hnot
  rw [← left_skip_options] at hnot
  rw [heq, finishes_afterNames rounds fixed sname file hwhole] at hfinishes
  exact not_finishes_readOptions rounds hwhole hnot hfinishes

theorem le_length_of_field {magic : List Byte} (h : field bytes 236 4 = magic)
    (hmagic : magic.length = 4) : 240 ≤ bytes.length := by
  have hlength := congrArg List.length h
  rw [field, List.length_take, List.length_drop, hmagic] at hlength
  omega

/-- A message with the magic cookie is parsed safely if and only if it is complete. -/
theorem parsesSafely_iff_complete (hcookie : field bytes 236 4 = [99, 130, 83, 99]) :
    ParsesSafely maxSeconds bytes ↔ Complete maxSeconds bytes := by
  have hlength := le_length_of_field hcookie rfl
  exact ⟨fun h => h.complete hlength hcookie, fun h => h.parsesSafely hlength hcookie⟩

/-- A message with a message type and the End option. -/
theorem parsesSafely_discover :
    ParsesSafely 9223372 (List.replicate 236 0 ++ [99, 130, 83, 99, 53, 1, 1, 255]) := by
  rw [parsesSafely_iff_complete (by decide +kernel)]
  refine ⟨by decide +kernel, by decide +kernel, ?_⟩
  have hoptions : (List.replicate 236 (0 : Byte) ++ [99, 130, 83, 99, 53, 1, 1, 255]).drop 240 =
      [53, 1, 1, 255] := by decide +kernel
  rw [hoptions]
  exact @EndsInside.option _ 53 1 [1] [255] (by decide) (by decide) rfl (.endOption [])

/-- A message that is cut behind its magic cookie is parsed for ever. -/
theorem not_parsesSafely_cut :
    ¬ ∀ bytes : List Byte, field bytes 236 4 = [99, 130, 83, 99] → ParsesSafely 9223372 bytes := by
  intro h
  have hcookie : field (List.replicate 236 0 ++ [99, 130, 83, 99]) 236 4 = [99, 130, 83, 99] := by
    decide +kernel
  have hsafe := h _ hcookie
  have hends := (hsafe.complete (le_length_of_field hcookie rfl) hcookie).options
  cases hends

end Inet.Dhcp.DhcpMessageSerializer
