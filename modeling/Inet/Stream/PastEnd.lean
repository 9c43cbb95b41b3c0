import Inet.Stream.Consumes

/-! # Reads past the end

A read that asks for more than is left never fails when it ends at a whole
number of bytes. Only `readBits` appends a bit too many when it meets the end
first, and `readBytes` throws when the rest is not a number of bytes.
-/

namespace Inet.MemoryInputStream

open BitString

variable {s s' : MemoryInputStream} {n : ℕ}

/-- The bits that have not been read. -/
def unread (s : MemoryInputStream) : List Bool := ((concat s.data).take s.length).drop s.position

/-- A stream of bits that are in its bytes. Past the end there is nothing left. -/
structure Sound (s : MemoryInputStream) : Prop where
  position_le : s.position ≤ s.length
  length_le : s.length ≤ 8 * s.data.length
  beyond : s.isReadBeyondEnd = true → s.position = s.length

theorem Sound.length_unread (h : Sound s) : s.unread.length = s.getRemainingLength := by
  have hp := h.position_le
  have hl := h.length_le
  simp only [unread, getRemainingLength, List.length_drop, List.length_take, length_concat]
  omega

/-! The calls. -/

inductive Read where
  | bit
  | bits (n : ℕ)
  | byte
  | bytes (n : ℕ)

/-- What a call returns, and appends to the caller's vector. -/
inductive Output where
  | bit (bit : Bool)
  | bits (bits : List Bool)
  | byte (byte : Byte)
  | bytes (bytes : List Byte)

namespace Read

/-- The bits that a call asks for. -/
def asked : Read → ℕ
  | bit => 1
  | bits n => n
  | byte => 8
  | bytes n => 8 * n

def run : Read → Reader Output
  | bit => do return .bit (← readBit)
  | bits n => do return .bits (← readBits n)
  | byte => do return .byte (← readByte)
  | bytes n => do return .bytes (← readBytes n)

end Read

/-- A call that has returned, with the bits that were left before. -/
structure Performed where
  read : Read
  unread : List Bool
  output : Output

/-- As many bits and bytes have been appended as were left, and these. -/
def Performed.Exact (p : Performed) : Prop :=
  match p.read, p.output with
  | .bits n, .bits bits => bits.length = min n p.unread.length ∧ bits <+: p.unread
  | .bytes n, .bytes bytes => bytes.length = min n (p.unread.length / 8) ∧ concat bytes <+: p.unread
  | _, _ => True

/-- The call asked for more than was left. -/
def Performed.PastEnd (p : Performed) : Prop := p.unread.length < p.read.asked

def Read.perform (r : Read) : Reader Performed := do
  let s ← get
  let output ← r.run
  return ⟨r, s.unread, output⟩

/-- The calls from a state that has not read beyond its end return exactly what was left, and the
flag is set when one of them asked for more. -/
def ReadsExactly (s : MemoryInputStream) (calls : List Read) : Prop :=
  ∃ trace s', (calls.mapM Read.perform).run s = .ok (trace, s') ∧ s'.position ≤ s'.length ∧
    (∀ p ∈ trace, p.Exact) ∧ (s'.isReadBeyondEnd = true ↔ ∃ p ∈ trace, p.PastEnd)

/-- The call does not run into the end in the middle of `readBits`, nor does `readBytes` with a rest
that is not a number of bytes. -/
def Read.Meets (s : MemoryInputStream) : Read → Prop
  | .bits n => n ≤ s.getRemainingLength ∨ s.isReadBeyondEnd = true
  | .bytes n => 8 * n ≤ s.getRemainingLength ∨ s.getRemainingLength % 8 = 0
  | _ => True

/-- Every call meets the condition in the state before it. -/
def AllMeet (s : MemoryInputStream) : List Read → Prop
  | [] => True
  | r :: calls => r.Meets s ∧ ∀ output s', r.run.run s = .ok (output, s') → AllMeet s' calls

/-! What the calls do. -/

def advance (s : MemoryInputStream) (n : ℕ) : MemoryInputStream :=
  { s with position := s.position + n }

def pastEnd (s : MemoryInputStream) : MemoryInputStream :=
  { s with position := s.length, isReadBeyondEnd := true }

theorem advance_advance (s : MemoryInputStream) (m n : ℕ) :
    (s.advance m).advance n = s.advance (m + n) := by
  simp [advance, Nat.add_assoc]

theorem run_bind_of_ok {α β : Type} {m : Reader α} {f : α → Reader β} {a : α}
    (h : m.run s = .ok (a, s')) :
    (m >>= f).run s = (f a).run s' := by
  rw [StateT.run_bind, h]
  rfl

theorem unread_advance (s : MemoryInputStream) (n : ℕ) :
    (s.advance n).unread = s.unread.drop n := by
  rw [unread, unread, List.drop_drop]
  rfl

theorem Sound.advance (h : Sound s) (hle : n ≤ s.unread.length) (hn : 0 < n) :
    Sound (s.advance n) := by
  have hlength := h.length_unread
  unfold getRemainingLength at hlength
  refine ⟨?_, h.length_le, fun hflag => ?_⟩
  · change s.position + n ≤ s.length
    omega
  · have heq := h.beyond hflag
    omega

theorem Sound.pastEnd (h : Sound s) : Sound s.pastEnd := ⟨le_rfl, h.length_le, fun _ => rfl⟩

theorem Sound.unread_beyond (h : Sound s) (hflag : s.isReadBeyondEnd = true) : s.unread = [] := by
  rw [← List.length_eq_zero_iff, h.length_unread, getRemainingLength, h.beyond hflag, Nat.sub_self]

theorem readBit_run (h : Sound s) :
    (∃ b rest, s.unread = b :: rest ∧ readBit.run s = .ok (b, s.advance 1)) ∨
      s.unread = [] ∧ readBit.run s = .ok (false, s.pastEnd) := by
  rcases h.position_le.eq_or_lt with hend | hlt
  · refine .inr ⟨?_, ?_⟩
    · rw [← List.length_eq_zero_iff, h.length_unread, getRemainingLength, hend, Nat.sub_self]
    · simp [readBit, hend, MemoryInputStream.pastEnd]
  · have hlength : s.position < ((concat s.data).take s.length).length := by
      have hl := h.length_le
      rw [List.length_take, length_concat]
      omega
    refine .inl ⟨((concat s.data).take s.length)[s.position], _, List.drop_eq_getElem_cons hlength,
      ?_⟩
    have hk : s.position < 8 * s.data.length := lt_of_lt_of_le hlt h.length_le
    have hi : s.position / 8 < s.data.length := by omega
    have hb := MemoryOutputStream.concat_getD s.data hk
    rw [List.getD_eq_getElem _ _ hi, List.getElem?_eq_getElem (by rw [length_concat]; exact hk),
      Option.some_inj] at hb
    simp [readBit, hlt.ne, hi, hb, MemoryInputStream.advance]

theorem readBits_succ_run {t : MemoryInputStream} {b : Bool} {bits : List Bool}
    (hflag : s.isReadBeyondEnd = false) (hbit : readBit.run s = .ok (b, t))
    (hbits : (readBits n).run t = .ok (bits, s')) :
    (readBits (n + 1)).run s = .ok (b :: bits, s') := by
  simp only [readBits, StateT.run_bind, StateT.run_get, pure_bind, hflag, hbit, Error.ok_bind,
    hbits, Bool.false_eq_true, if_false]
  rfl

theorem readBits_run_beyond (h : s.isReadBeyondEnd = true) (n : ℕ) :
    (readBits n).run s = .ok ([], s) := by
  cases n with
  | zero => rfl
  | succ n => simp [readBits, h]

theorem readBits_run (h : Sound s) (hflag : s.isReadBeyondEnd = false) (n : ℕ) :
    (n ≤ s.unread.length → (readBits n).run s = .ok (s.unread.take n, s.advance n)) ∧
      (s.unread.length < n → (readBits n).run s = .ok (s.unread ++ [false], s.pastEnd)) := by
  induction n generalizing s with
  | zero => exact ⟨fun _ => rfl, fun hlt => absurd hlt (Nat.not_lt_zero _)⟩
  | succ n ih =>
    rcases readBit_run h with ⟨b, rest, hunread, hbit⟩ | ⟨hunread, hbit⟩
    · have hrest : (s.advance 1).unread = rest := by rw [unread_advance, hunread]; rfl
      have hsound : Sound (s.advance 1) := h.advance (by rw [hunread]; simp) (by decide)
      obtain ⟨hle, hlt⟩ := ih hsound hflag
      rw [hrest] at hle hlt
      rw [hunread, List.length_cons]
      constructor
      · intro hn
        rw [List.take_succ_cons, Nat.add_comm n 1, ← advance_advance]
        rw [Nat.add_comm 1 n]
        exact readBits_succ_run hflag hbit (hle (by omega))
      · intro hn
        exact readBits_succ_run hflag hbit (hlt (by omega))
    · rw [hunread]
      refine ⟨fun hn => absurd hn (Nat.not_succ_le_zero n), fun _ => ?_⟩
      exact readBits_succ_run hflag hbit (readBits_run_beyond rfl n)

theorem readByte_run_of_le (hl : s.length ≤ 8 * s.data.length) (hle : s.position + 8 ≤ s.length) :
    ∃ v rest, s.unread = msb v ++ rest ∧ readByte.run s = .ok (v, s.advance 8) := by
  have hlength : (s.unread.take 8).length = 8 := by
    simp only [unread, List.length_take, List.length_drop, length_concat]
    omega
  obtain ⟨v, hv⟩ := exists_msb_eq hlength
  have hunread : s.unread = msb v ++ s.unread.drop 8 := by rw [hv, List.take_append_drop]
  have hholds : Holds { s with isReadBeyondEnd := false } (msb v ++ s.unread.drop 8) :=
    ⟨by simp only; omega, hl, rfl, hunread⟩
  refine ⟨v, _, hunread, ?_⟩
  have hrun := readByte_run hholds
  have hpos : ¬ s.position + 8 > s.length := by omega
  have hfirst : s.position / 8 < s.data.length := by omega
  by_cases haligned : s.position % 8 = 0
  · simpa [readByte, hpos, isByteAligned, haligned, byteAt, hfirst, advance] using hrun
  · have hhigh : (s.position - s.position % 8) / 8 < s.data.length := by omega
    have hlow : (s.position + (8 - s.position % 8)) / 8 < s.data.length := by omega
    simpa [readByte, hpos, isByteAligned, haligned, byteAt, hhigh, hlow, advance] using hrun

theorem readByte_run_pastEnd (hlt : s.length < s.position + 8) :
    readByte.run s = .ok (0, s.pastEnd) := by
  simp [readByte, hlt, pastEnd]

theorem readByteLoop_run (hl : s.length ≤ 8 * s.data.length) (hle : s.position + 8 * n ≤ s.length) :
    ∃ bytes, bytes.length = n ∧ concat bytes = s.unread.take (8 * n) ∧
      (readByteLoop n).run s = .ok (bytes, s.advance (8 * n)) := by
  induction n generalizing s with
  | zero => exact ⟨[], rfl, rfl, rfl⟩
  | succ n ih =>
    obtain ⟨v, rest, hunread, hbyte⟩ := readByte_run_of_le hl (by omega)
    have hle' : (s.advance 8).position + 8 * n ≤ (s.advance 8).length := by
      change s.position + 8 + 8 * n ≤ s.length
      omega
    obtain ⟨bytes, hlength, hconcat, hrun⟩ := ih (s := s.advance 8) hl hle'
    refine ⟨v :: bytes, by rw [List.length_cons, hlength], ?_, ?_⟩
    · have hrest : (s.advance 8).unread = rest := by
        rw [unread_advance, hunread, List.drop_left' (length_msb v)]
      have htake : (msb v ++ rest).take (8 + 8 * n) = msb v ++ rest.take (8 * n) := by
        have happend : (msb v ++ rest).take ((msb v).length + 8 * n) = msb v ++ rest.take (8 * n) :=
          List.take_length_add_append _
        rwa [length_msb] at happend
      rw [concat_cons, hconcat, hrest, hunread, Nat.mul_succ, Nat.add_comm, htake]
    · rw [readByteLoop, run_bind_of_ok hbyte, run_bind_of_ok hrun, advance_advance, Nat.mul_succ,
        Nat.add_comm 8]
      rfl

theorem concat_take_drop (hl : s.length ≤ 8 * s.data.length) (hle : s.position + 8 * n ≤ s.length)
    (haligned : s.position % 8 = 0) :
    ((s.data.drop (s.position / 8)).take n).length = n ∧
      concat ((s.data.drop (s.position / 8)).take n) = s.unread.take (8 * n) := by
  have hpos : 8 * (s.position / 8) = s.position := by omega
  refine ⟨by rw [List.length_take, List.length_drop]; omega, ?_⟩
  rw [← take_concat, ← drop_concat, hpos, unread, List.drop_take, List.take_take,
    Nat.min_eq_left (by omega)]

theorem readBytes_run_of_le (h : Sound s) (hle : 8 * n ≤ s.unread.length) :
    ∃ bytes, bytes.length = n ∧ concat bytes = s.unread.take (8 * n) ∧
      (readBytes n).run s = .ok (bytes, s.advance (8 * n)) := by
  have hp := h.position_le
  have hl := h.length_le
  rw [h.length_unread, getRemainingLength] at hle
  have hpos : ¬ s.position + 8 * n > s.length := by omega
  have hstart : s.position ≤ 8 * s.data.length := by omega
  have hfinish : s.position + 8 * n ≤ 8 * s.data.length := by omega
  by_cases haligned : s.position % 8 = 0
  · obtain ⟨hlength, hconcat⟩ := concat_take_drop (n := n) hl (by omega) haligned
    refine ⟨_, hlength, hconcat, ?_⟩
    simp [readBytes, hpos, hstart, hfinish, assert, isByteAligned, haligned, advance]
  · obtain ⟨bytes, hlength, hconcat, hrun⟩ := readByteLoop_run (n := n) hl (by omega)
    refine ⟨bytes, hlength, hconcat, ?_⟩
    rw [← hrun]
    simp [readBytes, hpos, hstart, hfinish, assert, isByteAligned, haligned]

theorem readBytes_run_pastEnd (h : Sound s) (hlt : s.unread.length < 8 * n)
    (hrest : s.unread.length % 8 = 0) :
    ∃ bytes, bytes.length = s.unread.length / 8 ∧ concat bytes = s.unread ∧
      (readBytes n).run s = .ok (bytes, s.pastEnd) := by
  have hp := h.position_le
  have hl := h.length_le
  have hlen := h.length_unread
  rw [getRemainingLength] at hlen
  have hpos : s.position + 8 * n > s.length := by omega
  have hbytes :
    (toBytes ((s.length : ℤ) - s.position) : StateT MemoryInputStream (Except Error) ℤ) =
      pure (((s.length : ℤ) - s.position) / 8) := if_pos (by omega)
  have hcount : (((s.length : ℤ) - s.position) / 8).toNat = s.unread.length / 8 := by omega
  have hfinish : s.position + 8 * (s.unread.length / 8) = s.length := by omega
  have hstart : s.position ≤ 8 * s.data.length := by omega
  have hall : s.unread.take (8 * (s.unread.length / 8)) = s.unread :=
    List.take_of_length_le (by omega)
  have hstate : ({ s with isReadBeyondEnd := true } : MemoryInputStream).advance
      (8 * (s.unread.length / 8)) = s.pastEnd := by
    simp [advance, pastEnd, hfinish]
  by_cases haligned : s.position % 8 = 0
  · obtain ⟨hlength, hconcat⟩ := concat_take_drop (s := s) hl hfinish.le haligned
    refine ⟨_, hlength, hconcat.trans hall, ?_⟩
    rw [← hstate]
    simp [readBytes, hpos, hbytes, hcount, hstart, hfinish, hl, assert, isByteAligned, haligned,
      advance]
  · obtain ⟨bytes, hlength, hconcat, hrun⟩ :=
      readByteLoop_run (s := { s with isReadBeyondEnd := true }) hl hfinish.le
    refine ⟨bytes, hlength, hconcat.trans hall, ?_⟩
    rw [← hstate, ← hrun]
    simp [readBytes, hpos, hbytes, hcount, hstart, hfinish, hl, assert, isByteAligned, haligned]

theorem readBytes_run_partial (h : Sound s) (hlt : s.unread.length < 8 * n)
    (hrest : s.unread.length % 8 ≠ 0) : ∃ e, (readBytes n).run s = .error e := by
  have hp := h.position_le
  have hlen := h.length_unread
  rw [getRemainingLength] at hlen
  have hpos : s.position + 8 * n > s.length := by omega
  have hconvert : ¬ ((s.length : ℤ) - s.position) % 8 = 0 := by omega
  refine ⟨.runtime "Cannot convert between integer units", ?_⟩
  simp only [readBytes, StateT.run_bind, StateT.run_get, pure_bind, hpos, if_true, toBytes,
    hconvert, if_false]
  rfl

/-! Calls one after the other. -/

variable {r : Read} {output : Output} {calls : List Read} {trace : List Performed}

/-- What a call that meets the condition does. -/
structure Performs (s : MemoryInputStream) (r : Read) (output : Output) (s' : MemoryInputStream) :
    Prop where
  run : r.run.run s = .ok (output, s')
  sound : Sound s'
  exact : Performed.Exact ⟨r, s.unread, output⟩
  beyond : s'.isReadBeyondEnd = true ↔
    s.isReadBeyondEnd = true ∨ Performed.PastEnd ⟨r, s.unread, output⟩

/-- The call ends before the end. -/
theorem performs_advance (h : Sound s) (hrun : r.run.run s = .ok (output, s.advance r.asked))
    (hle : r.asked ≤ s.unread.length) (hexact : Performed.Exact ⟨r, s.unread, output⟩) :
    Performs s r output (s.advance r.asked) := by
  refine ⟨hrun, ?_, hexact, ?_⟩
  · rcases Nat.eq_zero_or_pos r.asked with hzero | hpos
    · rw [hzero]
      exact h
    · exact h.advance hle hpos
  · refine ⟨.inl, fun hor => ?_⟩
    rcases hor with hflag | hpast
    · exact hflag
    · exact absurd hle (not_le.mpr hpast)

theorem performs_pastEnd (h : Sound s) (hrun : r.run.run s = .ok (output, s.pastEnd))
    (hlt : s.unread.length < r.asked) (hexact : Performed.Exact ⟨r, s.unread, output⟩) :
    Performs s r output s.pastEnd :=
  ⟨hrun, h.pastEnd, hexact, fun _ => .inr hlt, fun _ => rfl⟩

theorem performs_of_meets (h : Sound s) (hmeets : r.Meets s) :
    ∃ output s', Performs s r output s' := by
  cases r with
  | bit =>
    rcases readBit_run h with ⟨b, rest, hunread, hrun⟩ | ⟨hunread, hrun⟩
    · refine ⟨.bit b, _, performs_advance h ?_ ?_ trivial⟩
      · exact run_bind_of_ok hrun
      · rw [hunread]
        exact Nat.le_add_left 1 _
    · refine ⟨.bit false, _, performs_pastEnd h ?_ ?_ trivial⟩
      · exact run_bind_of_ok hrun
      · rw [hunread]
        exact Nat.one_pos
  | bits n =>
    by_cases hflag : s.isReadBeyondEnd = true
    · have hunread := h.unread_beyond hflag
      refine ⟨.bits [], s, ?_, h, ?_, .inl, fun _ => hflag⟩
      · exact run_bind_of_ok (readBits_run_beyond hflag n)
      · rw [hunread]
        exact ⟨(Nat.min_zero n).symm, List.nil_prefix⟩
    · have hle : n ≤ s.unread.length := by
        rw [h.length_unread]
        exact hmeets.resolve_right hflag
      refine ⟨.bits (s.unread.take n), _, performs_advance h ?_ hle ?_⟩
      · exact run_bind_of_ok ((readBits_run h (Bool.eq_false_iff.mpr hflag) n).1 hle)
      · exact ⟨List.length_take, List.take_prefix n _⟩
  | byte =>
    by_cases hle : 8 ≤ s.unread.length
    · have hlength := h.length_unread
      rw [getRemainingLength] at hlength
      obtain ⟨v, rest, -, hrun⟩ := readByte_run_of_le (s := s) h.length_le (by omega)
      exact ⟨.byte v, _, performs_advance h (run_bind_of_ok hrun) hle trivial⟩
    · have hlength := h.length_unread
      rw [getRemainingLength] at hlength
      refine ⟨.byte 0, _, performs_pastEnd h ?_ (not_le.mp hle) trivial⟩
      exact run_bind_of_ok (readByte_run_pastEnd (by omega))
  | bytes n =>
    by_cases hle : 8 * n ≤ s.unread.length
    · obtain ⟨bytes, hlength, hconcat, hrun⟩ := readBytes_run_of_le h hle
      refine ⟨.bytes bytes, _, performs_advance h (run_bind_of_ok hrun) hle ⟨?_, ?_⟩⟩
      · have hcount : bytes.length = min n (s.unread.length / 8) := by omega
        exact hcount
      · rw [hconcat]
        exact List.take_prefix _ _
    · have hrest : s.unread.length % 8 = 0 := by
        rcases hmeets with hm | hm
        · rw [← h.length_unread] at hm
          exact absurd hm hle
        · rw [h.length_unread]
          exact hm
      obtain ⟨bytes, hlength, hconcat, hrun⟩ := readBytes_run_pastEnd h (not_le.mp hle) hrest
      refine ⟨.bytes bytes, _, performs_pastEnd h (run_bind_of_ok hrun) (not_le.mp hle) ⟨?_, ?_⟩⟩
      · have hcount : bytes.length = min n (s.unread.length / 8) := by omega
        exact hcount
      · exact ⟨[], (List.append_nil _).trans hconcat⟩

theorem meets_of_exact (h : Sound s) (hrun : r.run.run s = .ok (output, s'))
    (hexact : Performed.Exact ⟨r, s.unread, output⟩) : r.Meets s := by
  cases r with
  | bit => exact trivial
  | byte => exact trivial
  | bits n =>
    by_contra hmeets
    obtain ⟨hlt, hflag⟩ := not_or.mp hmeets
    rw [not_le, ← h.length_unread] at hlt
    have hbits : (Read.bits n).run.run s = .ok (.bits (s.unread ++ [false]), s.pastEnd) :=
      run_bind_of_ok ((readBits_run h (Bool.eq_false_iff.mpr hflag) n).2 hlt)
    rw [hbits] at hrun
    cases hrun
    have hlength := hexact.1
    simp only [List.length_append, List.length_singleton] at hlength
    omega
  | bytes n =>
    by_contra hmeets
    obtain ⟨hlt, hrest⟩ := not_or.mp hmeets
    rw [not_le, ← h.length_unread] at hlt
    rw [← h.length_unread] at hrest
    obtain ⟨e, he⟩ := readBytes_run_partial h hlt hrest
    have herror : (Read.bytes n).run.run s = .error e := by
      rw [Read.run, StateT.run_bind, he]
      rfl
    rw [herror] at hrun
    cases hrun

theorem perform_run (hrun : r.run.run s = .ok (output, s')) :
    r.perform.run s = .ok (⟨r, s.unread, output⟩, s') := by
  rw [Read.perform, StateT.run_bind, StateT.run_get, pure_bind, run_bind_of_ok hrun]
  rfl

theorem mapM_perform_run {p : Performed} {t : MemoryInputStream}
    (hrun : r.perform.run s = .ok (p, t))
    (hrest : (calls.mapM Read.perform).run t = .ok (trace, s')) :
    ((r :: calls).mapM Read.perform).run s = .ok (p :: trace, s') := by
  rw [List.mapM_cons, run_bind_of_ok hrun, run_bind_of_ok hrest]
  rfl

theorem exact_of_allMeet (h : Sound s) (hall : AllMeet s calls) :
    ∃ trace s', (calls.mapM Read.perform).run s = .ok (trace, s') ∧ Sound s' ∧
      (∀ p ∈ trace, p.Exact) ∧
      (s'.isReadBeyondEnd = true ↔ s.isReadBeyondEnd = true ∨ ∃ p ∈ trace, p.PastEnd) := by
  induction calls generalizing s with
  | nil => exact ⟨[], s, rfl, h, by simp, by simp⟩
  | cons r calls ih =>
    obtain ⟨output, t, hperforms⟩ := performs_of_meets h hall.1
    obtain ⟨trace, s', hrun, hsound, hexact, hbeyond⟩ :=
      ih hperforms.sound (hall.2 output t hperforms.run)
    refine ⟨_, s', mapM_perform_run (perform_run hperforms.run) hrun, hsound, ?_, ?_⟩
    · intro p hp
      rcases List.mem_cons.mp hp with rfl | hp
      · exact hperforms.exact
      · exact hexact p hp
    · rw [hbeyond, hperforms.beyond, List.exists_mem_cons_iff, or_assoc]

theorem allMeet_of_exact (h : Sound s) (hrun : (calls.mapM Read.perform).run s = .ok (trace, s'))
    (hexact : ∀ p ∈ trace, p.Exact) : AllMeet s calls := by
  induction calls generalizing s trace with
  | nil => exact trivial
  | cons r calls ih =>
    rw [List.mapM_cons, StateT.run_bind] at hrun
    obtain ⟨⟨p, t⟩, hperform, hrest⟩ := Error.exists_of_bind_eq_ok hrun
    rw [StateT.run_bind] at hrest
    obtain ⟨⟨ps, u⟩, hcalls, hpure⟩ := Error.exists_of_bind_eq_ok hrest
    cases hpure
    rw [Read.perform, StateT.run_bind, StateT.run_get, pure_bind, StateT.run_bind] at hperform
    obtain ⟨⟨output, t'⟩, houtput, hp⟩ := Error.exists_of_bind_eq_ok hperform
    cases hp
    have hmeets := meets_of_exact h houtput (hexact _ List.mem_cons_self)
    refine ⟨hmeets, fun output' t' hrun' => ?_⟩
    obtain ⟨output'', t'', hperforms⟩ := performs_of_meets h hmeets
    have hsame := hperforms.run
    rw [houtput] at hsame hrun'
    cases hsame
    cases hrun'
    exact ih hperforms.sound hcalls fun p hp => hexact p (List.mem_cons_of_mem _ hp)

/-- On a stream whose bits are in its bytes, calls return exactly what is left exactly when each of
them meets the condition in the state before it. -/
theorem readsExactly_iff (s : MemoryInputStream) (hposition : s.position ≤ s.length)
    (hlength : s.length ≤ 8 * s.data.length) (hflag : s.isReadBeyondEnd = false)
    (calls : List Read) : ReadsExactly s calls ↔ AllMeet s calls := by
  have h : Sound s := ⟨hposition, hlength, fun htrue => by rw [hflag] at htrue; cases htrue⟩
  constructor
  · rintro ⟨trace, s', hrun, -, hexact, -⟩
    exact allMeet_of_exact h hrun hexact
  · intro hall
    obtain ⟨trace, s', hrun, hsound, hexact, hbeyond⟩ := exact_of_allMeet h hall
    refine ⟨trace, s', hrun, hsound.position_le, hexact, ?_⟩
    rw [hbeyond, hflag]
    simp

theorem readsExactly_iff_byte : ReadsExactly ⟨[0xff], 8, 0, false⟩ [.byte, .bytes 2] ↔
    AllMeet ⟨[0xff], 8, 0, false⟩ [.byte, .bytes 2] :=
  readsExactly_iff ⟨[0xff], 8, 0, false⟩ (by decide) (by decide) rfl [.byte, .bytes 2]

/-- `readBits` appends a ninth bit of a byte, `readBytes` throws in the middle of a byte. -/
theorem not_readsExactly_of_partial : ¬ ReadsExactly ⟨[0xff], 8, 0, false⟩ [.bits 9] ∧
    ¬ ReadsExactly ⟨[0xff], 8, 0, false⟩ [.bits 4, .bytes 1] := by
  constructor
  · rintro ⟨trace, s', hrun, -, hexact, -⟩
    have hsound : Sound ⟨[0xff], 8, 0, false⟩ := ⟨by decide, by decide, by decide⟩
    have hmeets : 9 ≤ 8 ∨ false = true := (allMeet_of_exact hsound hrun hexact).1
    simp at hmeets
  · rintro ⟨trace, s', hrun, -⟩
    cases hrun

end Inet.MemoryInputStream
