import Inet.Common.Error
import Mathlib.Data.List.Basic
import Mathlib.Data.List.TakeDrop
import Mathlib.Order.Basic
import Mathlib.Tactic.SplitIfs

/-! # The expansion of format strings

One loop with two indices copies the text of a format and has directives and
expressions resolved. At a last `%` and at a brace that is never closed the
loop steps over the terminating NUL and reads on behind the format. Every
other format is expanded piece by piece.
-/

namespace Inet.StringFormat

/-- The character that terminates a string. -/
def nul : Char := Char.ofNat 0

/-- The characters of a string before its NUL. -/
structure Format where
  chars : List Char
  nul_notMem : nul ∉ chars

namespace Format

variable (format : Format)

/-- `format[i]` -/
def charAt (i : ℕ) : Except Error Char :=
  if h : i < format.chars.length then pure format.chars[i]
  else if i = format.chars.length then pure nul
  else throw (.undefinedBehavior "read behind the terminating NUL")

/-- The characters from `previous` up to `current`. -/
def text (previous current : ℕ) : List Char :=
  (format.chars.drop previous).take (current - previous)

end Format

/-- `i + k` for an `int` -/
def plus (i k : ℕ) : Except Error ℕ :=
  if i + k < 2 ^ 31 then pure (i + k) else throw (.undefinedBehavior "overflow of int")

/-- The variables of the loop. -/
structure Scan where
  current : ℕ
  previous : ℕ
  result : List Char

/-- `if (previous != current) result.append(format + previous, current - previous)` -/
def Scan.flushed (format : Format) (s : Scan) : List Char :=
  if s.previous ≠ s.current then s.result ++ format.text s.previous s.current else s.result

/-- How a turn of the loop ends. -/
inductive Turn where
  | done (result : List Char)
  | next (s : Scan)

/-- The search for the closing brace. -/
def findClosing (format : Format) (current : ℕ) : Except Error ℕ :=
  if h : current < format.chars.length then
    if format.chars[current] ≠ '}' ∧ format.chars[current] ≠ nul then
      if current + 1 < 2 ^ 31 then findClosing format (current + 1)
      else throw (.undefinedBehavior "overflow of int")
    else pure current
  else do
    let _ ← format.charAt current
    pure current
termination_by format.chars.length - current

section Turns

variable (format : Format) (directiveResolver : Char → List Char)
  (expressionResolver : List Char → List Char) (s : Scan)

/-- The turn for a `%`. -/
def percentTurn : Except Error Turn := do
  let result := s.flushed format
  let previous := s.current
  let current ← plus s.current 1
  let ch ← format.charAt current
  let result := if ch = '%' then result ++ format.text previous current
    else result ++ directiveResolver ch
  let current ← plus current 1
  pure (.next ⟨current, current, result⟩)

/-- The turn for a `{`. -/
def openingTurn : Except Error Turn := do
  let following ← format.charAt (← plus s.current 1)
  let result := s.flushed format
  if following = '{' then
    let current ← plus s.current 2
    pure (.next ⟨current, current, result ++ ['{']⟩)
  else
    let previous ← plus s.current 1
    let current ← findClosing format previous
    let ch ← format.charAt current
    let next ← plus current 1
    if ch = '}' then
      pure (.next ⟨next, next, result ++ expressionResolver (format.text previous current)⟩)
    else
      pure (.next ⟨next, current, result ++ format.text (previous - 1) current⟩)

/-- The turn for a `}`. -/
def closingTurn : Except Error Turn := do
  let following ← format.charAt (← plus s.current 1)
  let current ← plus s.current (if following = '}' then 2 else 1)
  pure (.next ⟨current, current, s.flushed format ++ ['}']⟩)

def turn : Except Error Turn := do
  let ch ← format.charAt s.current
  if ch = nul then pure (.done (s.flushed format))
  else if ch = '%' then percentTurn format directiveResolver s
  else if ch = '{' then openingTurn format expressionResolver s
  else if ch = '}' then closingTurn format s
  else pure (.next { s with current := ← plus s.current 1 })

end Turns

/-! ## The loop ends -/

theorem plus_eq_ok {i k j : ℕ} (h : plus i k = .ok j) : j = i + k ∧ i + k < 2 ^ 31 := by
  rw [plus] at h
  split_ifs at h with hlt
  · exact ⟨(Except.ok.inj h).symm, hlt⟩

section Ends

variable {format : Format} {directiveResolver : Char → List Char}
  {expressionResolver : List Char → List Char} {s s' : Scan}

theorem charAt_of_lt {i : ℕ} (h : i < format.chars.length) :
    format.charAt i = .ok format.chars[i] := dif_pos h

theorem charAt_length : format.charAt format.chars.length = .ok nul := by
  rw [Format.charAt, dif_neg (lt_irrefl _), if_pos rfl]
  rfl

theorem charAt_of_gt {i : ℕ} (h : format.chars.length < i) :
    format.charAt i = .error (.undefinedBehavior "read behind the terminating NUL") := by
  rw [Format.charAt, dif_neg h.not_gt, if_neg h.ne']
  rfl

theorem lt_of_charAt {i : ℕ} {ch : Char} (h : format.charAt i = .ok ch) (hne : ch ≠ nul) :
    i < format.chars.length := by
  rw [Format.charAt] at h
  split_ifs at h with hlt heq
  · exact hlt
  · exact absurd (Except.ok.inj h).symm hne

theorem findClosing_ge {current closing : ℕ} (h : findClosing format current = .ok closing) :
    current ≤ closing := by
  induction hn : format.chars.length - current using Nat.strong_induction_on
    generalizing current with
  | _ n ih =>
    rw [findClosing] at h
    split_ifs at h with hlt hnot hmax
    · exact (Nat.le_succ current).trans (ih _ (by omega) h rfl)
    · exact (Except.ok.inj h).le
    · obtain ⟨_, -, h⟩ := Error.exists_of_bind_eq_ok h
      exact (Except.ok.inj h).le

theorem percentTurn_current (h : percentTurn format directiveResolver s = .ok (.next s')) :
    s.current < s'.current ∧ s'.current < 2 ^ 31 := by
  obtain ⟨current, hcurrent, h⟩ := Error.exists_of_bind_eq_ok h
  obtain ⟨ch, -, h⟩ := Error.exists_of_bind_eq_ok h
  obtain ⟨next, hnext, h⟩ := Error.exists_of_bind_eq_ok h
  cases h
  obtain ⟨rfl, -⟩ := plus_eq_ok hcurrent
  obtain ⟨rfl, hmax⟩ := plus_eq_ok hnext
  exact ⟨Nat.lt_add_of_pos_right Nat.zero_lt_two, hmax⟩

theorem openingTurn_current (h : openingTurn format expressionResolver s = .ok (.next s')) :
    s.current < s'.current ∧ s'.current < 2 ^ 31 := by
  obtain ⟨i, -, h⟩ := Error.exists_of_bind_eq_ok h
  obtain ⟨following, -, h⟩ := Error.exists_of_bind_eq_ok h
  dsimp only at h
  split_ifs at h with hopen
  · obtain ⟨current, hcurrent, h⟩ := Error.exists_of_bind_eq_ok h
    cases h
    obtain ⟨rfl, hmax⟩ := plus_eq_ok hcurrent
    exact ⟨Nat.lt_add_of_pos_right Nat.zero_lt_two, hmax⟩
  · obtain ⟨previous, hprevious, h⟩ := Error.exists_of_bind_eq_ok h
    obtain ⟨closing, hclosing, h⟩ := Error.exists_of_bind_eq_ok h
    obtain ⟨ch, -, h⟩ := Error.exists_of_bind_eq_ok h
    obtain ⟨next, hnext, h⟩ := Error.exists_of_bind_eq_ok h
    obtain ⟨rfl, -⟩ := plus_eq_ok hprevious
    obtain ⟨rfl, hmax⟩ := plus_eq_ok hnext
    have hge := findClosing_ge hclosing
    split_ifs at h
    all_goals
      cases h
      exact ⟨by dsimp only; omega, hmax⟩

theorem closingTurn_current (h : closingTurn format s = .ok (.next s')) :
    s.current < s'.current ∧ s'.current < 2 ^ 31 := by
  obtain ⟨i, -, h⟩ := Error.exists_of_bind_eq_ok h
  obtain ⟨following, -, h⟩ := Error.exists_of_bind_eq_ok h
  obtain ⟨current, hcurrent, h⟩ := Error.exists_of_bind_eq_ok h
  cases h
  obtain ⟨rfl, hmax⟩ := plus_eq_ok hcurrent
  refine ⟨?_, hmax⟩
  split_ifs
  all_goals simp

theorem turn_current (h : turn format directiveResolver expressionResolver s = .ok (.next s')) :
    s.current < format.chars.length ∧ s.current < s'.current ∧ s'.current < 2 ^ 31 := by
  obtain ⟨ch, hch, h⟩ := Error.exists_of_bind_eq_ok h
  split_ifs at h with hnul hpercent hopen hclose
  · cases h
  · exact ⟨lt_of_charAt hch hnul, percentTurn_current h⟩
  · exact ⟨lt_of_charAt hch hnul, openingTurn_current h⟩
  · exact ⟨lt_of_charAt hch hnul, closingTurn_current h⟩
  · obtain ⟨current, hcurrent, h⟩ := Error.exists_of_bind_eq_ok h
    cases h
    obtain ⟨rfl, hmax⟩ := plus_eq_ok hcurrent
    exact ⟨lt_of_charAt hch hnul, Nat.lt_succ_self _, hmax⟩

end Ends

/-- `while (true)` -/
def run (format : Format) (directiveResolver : Char → List Char)
    (expressionResolver : List Char → List Char) (s : Scan) : Except Error (List Char) :=
  match _h : turn format directiveResolver expressionResolver s with
  | .error error => .error error
  | .ok (.done result) => .ok result
  | .ok (.next s') => run format directiveResolver expressionResolver s'
termination_by format.chars.length - s.current
decreasing_by
  obtain ⟨hlt, hprogress, -⟩ := turn_current _h
  omega

def formatString (format : Format) (directiveResolver : Char → List Char)
    (expressionResolver : List Char → List Char) : Except Error (List Char) :=
  run format directiveResolver expressionResolver ⟨0, 0, []⟩

/-! ## The pieces of a format -/

inductive Piece where
  | escapedPercent
  | directive (c : Char)
  | trailingPercent
  | escapedOpening
  | expression (e : List Char)
  | unmatched (rest : List Char)
  | escapedClosing
  | loneClosing
  | plain (c : Char)
  deriving DecidableEq, Repr

namespace Piece

/-- The characters of the format that the piece is made of. -/
def text : Piece → List Char
  | escapedPercent => ['%', '%']
  | directive c => ['%', c]
  | trailingPercent => ['%']
  | escapedOpening => ['{', '{']
  | expression e => '{' :: e ++ ['}']
  | unmatched rest => '{' :: rest
  | escapedClosing => ['}', '}']
  | loneClosing => ['}']
  | plain c => [c]

/-- What the piece is expanded to. -/
def expansion (directiveResolver : Char → List Char)
    (expressionResolver : List Char → List Char) : Piece → List Char
  | escapedPercent => ['%']
  | directive c => directiveResolver c
  | trailingPercent => ['%']
  | escapedOpening => ['{']
  | expression e => expressionResolver e
  | unmatched rest => '{' :: rest
  | escapedClosing => ['}']
  | loneClosing => ['}']
  | plain c => [c]

/-- The pieces that need an end that the format does not have. -/
def Open : Piece → Prop
  | trailingPercent => True
  | unmatched _ => True
  | _ => False

end Piece

/-- A text starts with a piece, and the rest follows. -/
inductive Starts : List Char → Piece → List Char → Prop
  | escapedPercent (rest : List Char) : Starts ('%' :: '%' :: rest) .escapedPercent rest
  | directive (c : Char) (rest : List Char) (hc : c ≠ '%') :
      Starts ('%' :: c :: rest) (.directive c) rest
  | trailingPercent : Starts ['%'] .trailingPercent []
  | escapedOpening (rest : List Char) : Starts ('{' :: '{' :: rest) .escapedOpening rest
  | expression (e rest text : List Char) (htext : text = e ++ '}' :: rest)
      (hhead : e.head? ≠ some '{') (he : '}' ∉ e) : Starts ('{' :: text) (.expression e) rest
  | unmatched (rest : List Char) (hhead : rest.head? ≠ some '{') (hrest : '}' ∉ rest) :
      Starts ('{' :: rest) (.unmatched rest) []
  | escapedClosing (rest : List Char) : Starts ('}' :: '}' :: rest) .escapedClosing rest
  | loneClosing (rest : List Char) (hhead : rest.head? ≠ some '}') :
      Starts ('}' :: rest) .loneClosing rest
  | plain (c : Char) (rest : List Char) (hpercent : c ≠ '%') (hopening : c ≠ '{')
      (hclosing : c ≠ '}') : Starts (c :: rest) (.plain c) rest

/-- The pieces of a text from left to right. -/
inductive Pieces : List Char → List Piece → Prop
  | nil : Pieces [] []
  | cons {text rest : List Char} {piece : Piece} {pieces : List Piece}
      (h : Starts text piece rest) (hrest : Pieces rest pieces) : Pieces text (piece :: pieces)

theorem Starts.text_append {text rest : List Char} {piece : Piece} (h : Starts text piece rest) :
    piece.text ++ rest = text := by
  cases h with
  | expression e rest _ htext => simp [Piece.text, htext]
  | unmatched rest => exact List.append_nil _
  | _ => rfl

theorem Starts.length_lt {text rest : List Char} {piece : Piece} (h : Starts text piece rest) :
    rest.length < text.length := by
  have hpos : 0 < piece.text.length := by
    cases piece with
    | _ => exact Nat.succ_pos _
  rw [← h.text_append, List.length_append]
  exact Nat.lt_add_of_pos_left hpos

theorem exists_starts (c : Char) (text : List Char) :
    ∃ piece rest, Starts (c :: text) piece rest := by
  by_cases hpercent : c = '%'
  · subst hpercent
    cases text with
    | nil => exact ⟨_, _, .trailingPercent⟩
    | cons d text =>
      by_cases hd : d = '%'
      · subst hd
        exact ⟨_, _, .escapedPercent text⟩
      · exact ⟨_, _, .directive d text hd⟩
  by_cases hopening : c = '{'
  · subst hopening
    by_cases hhead : text.head? = some '{'
    · obtain ⟨text, rfl⟩ := List.head?_eq_some_iff.1 hhead
      exact ⟨_, _, .escapedOpening text⟩
    by_cases hclosing : '}' ∈ text
    · obtain ⟨e, rest, rfl, he⟩ := List.eq_append_cons_of_mem hclosing
      refine ⟨_, _, .expression e rest _ rfl (fun hopen => hhead ?_) he⟩
      rw [List.head?_append, hopen]
      rfl
    · exact ⟨_, _, .unmatched text hhead hclosing⟩
  by_cases hclosing : c = '}'
  · subst hclosing
    by_cases hhead : text.head? = some '}'
    · obtain ⟨text, rfl⟩ := List.head?_eq_some_iff.1 hhead
      exact ⟨_, _, .escapedClosing text⟩
    · exact ⟨_, _, .loneClosing text hhead⟩
  · exact ⟨_, _, .plain c text hpercent hopening hclosing⟩

theorem exists_pieces (text : List Char) : ∃ pieces, Pieces text pieces := by
  induction hn : text.length using Nat.strong_induction_on generalizing text with
  | _ n ih =>
    cases text with
    | nil => exact ⟨[], .nil⟩
    | cons c text =>
      obtain ⟨piece, rest, h⟩ := exists_starts c text
      obtain ⟨pieces, hpieces⟩ := ih rest.length (hn ▸ h.length_lt) rest rfl
      exact ⟨piece :: pieces, .cons h hpieces⟩

theorem head?_append_closing {e : List Char} (h : e.head? ≠ some '{') (rest : List Char) :
    (e ++ '}' :: rest).head? ≠ some '{' := by
  cases e with
  | nil => exact show some '}' ≠ some '{' by decide
  | cons a e => exact h

theorem takeWhile_append_closing {e : List Char} (he : '}' ∉ e) (rest : List Char) :
    (e ++ '}' :: rest).takeWhile (· ≠ '}') = e := by
  rw [List.takeWhile_append_of_pos fun a ha => decide_eq_true (ne_of_mem_of_not_mem ha he),
    List.takeWhile_cons_of_neg (by decide), List.append_nil]

theorem Starts.unique {text rest rest' : List Char} {piece piece' : Piece}
    (h : Starts text piece rest) (h' : Starts text piece' rest') :
    piece = piece' ∧ rest = rest' := by
  cases h with
  | expression e rest text htext hhead he =>
    cases h' with
    | expression e' rest' text' htext' hhead' he' =>
      have heq : e = e' := by
        rw [← takeWhile_append_closing he rest, ← htext, htext', takeWhile_append_closing he']
      subst heq
      obtain rfl := (List.cons.inj (List.append_cancel_left (htext.symm.trans htext'))).2
      exact ⟨rfl, rfl⟩
    | escapedOpening text' => exact absurd rfl (htext ▸ head?_append_closing hhead rest)
    | _ => simp_all
  | escapedOpening text =>
    cases h' with
    | expression e' rest' text' htext' hhead' he' =>
      exact absurd rfl (htext' ▸ head?_append_closing hhead' rest')
    | _ => simp_all
  | _ =>
    cases h'
    all_goals simp_all

theorem Pieces.unique {text : List Char} {pieces pieces' : List Piece} (h : Pieces text pieces)
    (h' : Pieces text pieces') : pieces' = pieces := by
  induction h generalizing pieces' with
  | nil =>
    cases h' with
    | nil => rfl
    | cons hstarts _ => cases hstarts
  | cons hstarts _ ih =>
    cases h' with
    | nil => cases hstarts
    | cons hstarts' hrest' =>
      obtain ⟨rfl, rfl⟩ := hstarts.unique hstarts'
      rw [ih hrest']

theorem Pieces.flatMap_text {text : List Char} {pieces : List Piece} (h : Pieces text pieces) :
    pieces.flatMap Piece.text = text := by
  induction h with
  | nil => rfl
  | cons h _ ih => rw [List.flatMap_cons, ih, h.text_append]

/-! ## The turn for a piece -/

section Turn

variable {format : Format} {directiveResolver : Char → List Char}
  {expressionResolver : List Char → List Char} {s : Scan} {i : ℕ} {c : Char}
  {rest : List Char}

theorem lt_length_of_drop (h : format.chars.drop i = c :: rest) : i < format.chars.length := by
  by_contra hge
  rw [List.drop_eq_nil_of_le (not_lt.1 hge)] at h
  cases h

theorem charAt_of_drop (h : format.chars.drop i = c :: rest) : format.charAt i = .ok c := by
  have hlt := lt_length_of_drop h
  rw [List.drop_eq_getElem_cons hlt] at h
  rw [charAt_of_lt hlt, (List.cons.inj h).1]

theorem drop_succ_of_drop (h : format.chars.drop i = c :: rest) :
    format.chars.drop (i + 1) = rest := by
  rw [← List.tail_drop, h, List.tail_cons]

theorem ne_nul_of_drop (h : format.chars.drop i = c :: rest) : c ≠ nul := by
  rintro rfl
  exact format.nul_notMem (List.mem_of_mem_drop (h ▸ List.mem_cons_self))

theorem eq_length_of_drop (h : format.chars.drop i = []) (hle : i ≤ format.chars.length) :
    i = format.chars.length := le_antisymm hle (List.drop_eq_nil_iff.1 h)

theorem charAt_of_drop_nil (h : format.chars.drop i = []) (hle : i ≤ format.chars.length) :
    format.charAt i = .ok nul := eq_length_of_drop h hle ▸ charAt_length

theorem charAt_of_head? (h : format.chars.drop i = rest) (hle : i ≤ format.chars.length) :
    format.charAt i = .ok (rest.head?.getD nul) := by
  cases rest with
  | nil => exact charAt_of_drop_nil h hle
  | cons c rest => exact charAt_of_drop h

theorem getD_head?_ne (hc : nul ≠ c) (h : rest.head? ≠ some c) : rest.head?.getD nul ≠ c := by
  cases rest with
  | nil => exact hc
  | cons a rest => exact fun ha => h (congrArg some ha)

theorem plus_of_le {k : ℕ} (hmax : format.chars.length < 2 ^ 31)
    (h : i + k ≤ format.chars.length) : plus i k = .ok (i + k) := if_pos (h.trans_lt hmax)

theorem text_self (i : ℕ) : format.text i i = [] := by
  rw [Format.text, Nat.sub_self, List.take_zero]

theorem text_add {previous : ℕ} (hle : previous ≤ i) (k : ℕ) :
    format.text previous (i + k) = format.text previous i ++ (format.chars.drop i).take k := by
  rw [Format.text, Nat.sub_add_comm hle, List.take_add, List.drop_drop, Nat.add_sub_of_le hle]
  rfl

theorem flushed_eq : s.flushed format = s.result ++ format.text s.previous s.current := by
  rw [Scan.flushed]
  split_ifs with hne
  · rfl
  · rw [not_not.1 hne, text_self, List.append_nil]

theorem findClosing_of_drop (hmax : format.chars.length < 2 ^ 31) {e : List Char}
    (he : '}' ∉ e) (hle : i ≤ format.chars.length) (h : format.chars.drop i = e ++ rest)
    (hrest : rest = [] ∨ rest.head? = some '}') :
    findClosing format i = .ok (i + e.length) := by
  induction e generalizing i with
  | nil =>
    rw [findClosing]
    rcases hrest with rfl | hrest
    · rw [dif_neg (eq_length_of_drop h hle).not_lt, charAt_of_drop_nil h hle]
      rfl
    · obtain ⟨rest, rfl⟩ := List.head?_eq_some_iff.1 hrest
      have hlt := lt_length_of_drop h
      have hchar : format.chars[i] = '}' := by
        rw [List.nil_append, List.drop_eq_getElem_cons hlt] at h
        exact (List.cons.inj h).1
      rw [dif_pos hlt, if_neg fun hnot => hnot.1 hchar]
      rfl
  | cons a e ih =>
    rw [List.mem_cons, not_or] at he
    have hlt := lt_length_of_drop h
    have hchar : format.chars[i] = a := by
      rw [List.cons_append, List.drop_eq_getElem_cons hlt] at h
      exact (List.cons.inj h).1
    rw [findClosing, dif_pos hlt, hchar, if_pos ⟨Ne.symm he.1, ne_nul_of_drop h⟩,
      if_pos (Nat.succ_le_of_lt hlt |>.trans_lt hmax), ih he.2 hlt (drop_succ_of_drop h),
      List.length_cons, Nat.succ_add_eq_add_succ]

/-- A turn goes on at the rest of the text, when it has expanded a piece to the given text. -/
def Expands (format : Format) (s : Scan) (turn : Except Error Turn) (rest text : List Char) :
    Prop :=
  ∃ s', turn = .ok (.next s') ∧ format.chars.drop s'.current = rest ∧
    s'.current ≤ format.chars.length ∧ s'.previous ≤ s'.current ∧
    s'.flushed format = s.flushed format ++ text

theorem expands_of_eq {turn : Except Error Turn} {text : List Char} {next : ℕ}
    (h : turn = .ok (.next ⟨next, next, s.flushed format ++ text⟩))
    (hdrop : format.chars.drop next = rest) (hle : next ≤ format.chars.length) :
    Expands format s turn rest text := by
  refine ⟨_, h, hdrop, hle, le_rfl, ?_⟩
  rw [flushed_eq, text_self, List.append_nil]

theorem percentTurn_expands (hmax : format.chars.length < 2 ^ 31)
    (h : format.chars.drop s.current = '%' :: c :: rest) :
    Expands format s (percentTurn format directiveResolver s) rest
      (if c = '%' then ['%'] else directiveResolver c) := by
  have hlt := lt_length_of_drop h
  have hnext := drop_succ_of_drop h
  have hnextlt := lt_length_of_drop hnext
  have hpercent : format.text s.current (s.current + 1) = ['%'] := by
    rw [text_add le_rfl, text_self, h]
    rfl
  refine expands_of_eq ?_ (drop_succ_of_drop hnext) hnextlt
  rw [percentTurn, plus_of_le hmax hlt, Error.ok_bind, charAt_of_drop hnext, Error.ok_bind,
    plus_of_le hmax hnextlt, Error.ok_bind, hpercent]
  split_ifs
  all_goals rfl

theorem openingTurn_expands_escaped (hmax : format.chars.length < 2 ^ 31)
    (h : format.chars.drop s.current = '{' :: '{' :: rest) :
    Expands format s (openingTurn format expressionResolver s) rest ['{'] := by
  have hlt := lt_length_of_drop h
  have hnext := drop_succ_of_drop h
  have hnextlt : s.current + 2 ≤ format.chars.length := lt_length_of_drop hnext
  refine expands_of_eq ?_ (drop_succ_of_drop hnext) hnextlt
  rw [openingTurn, plus_of_le hmax hlt, Error.ok_bind, charAt_of_drop hnext, Error.ok_bind]
  dsimp only
  rw [if_pos rfl, plus_of_le hmax hnextlt]
  rfl

theorem openingTurn_expands_expression (hmax : format.chars.length < 2 ^ 31) {e : List Char}
    (hhead : e.head? ≠ some '{') (he : '}' ∉ e)
    (h : format.chars.drop s.current = '{' :: (e ++ '}' :: rest)) :
    Expands format s (openingTurn format expressionResolver s) rest (expressionResolver e) := by
  have hlt : s.current + 1 ≤ format.chars.length := lt_length_of_drop h
  have hnext := drop_succ_of_drop h
  have hclosing := findClosing_of_drop hmax he hlt hnext (.inr rfl)
  have hdrop : format.chars.drop (s.current + 1 + e.length) = '}' :: rest := by
    rw [← List.drop_drop, hnext, List.drop_left]
  have hclosinglt := lt_length_of_drop hdrop
  have htext : format.text (s.current + 1) (s.current + 1 + e.length) = e := by
    rw [text_add le_rfl, text_self, hnext, List.take_left, List.nil_append]
  have hfollowing := getD_head?_ne (by decide) (head?_append_closing hhead rest)
  refine expands_of_eq ?_ (drop_succ_of_drop hdrop) hclosinglt
  rw [openingTurn, plus_of_le hmax hlt, Error.ok_bind, charAt_of_head? hnext hlt, Error.ok_bind]
  dsimp only
  rw [if_neg hfollowing, Error.ok_bind, hclosing, Error.ok_bind, charAt_of_drop hdrop,
    Error.ok_bind, plus_of_le hmax hclosinglt, Error.ok_bind, if_pos rfl,
    htext]
  rfl

theorem closingTurn_expands_escaped (hmax : format.chars.length < 2 ^ 31)
    (h : format.chars.drop s.current = '}' :: '}' :: rest) :
    Expands format s (closingTurn format s) rest ['}'] := by
  have hlt := lt_length_of_drop h
  have hnext := drop_succ_of_drop h
  have hnextlt : s.current + 2 ≤ format.chars.length := lt_length_of_drop hnext
  refine expands_of_eq ?_ (drop_succ_of_drop hnext) hnextlt
  rw [closingTurn, plus_of_le hmax hlt, Error.ok_bind, charAt_of_drop hnext, Error.ok_bind,
    if_pos rfl, plus_of_le hmax hnextlt]
  rfl

theorem closingTurn_expands_lone (hmax : format.chars.length < 2 ^ 31)
    (hhead : rest.head? ≠ some '}') (h : format.chars.drop s.current = '}' :: rest) :
    Expands format s (closingTurn format s) rest ['}'] := by
  have hlt := lt_length_of_drop h
  have hnext := drop_succ_of_drop h
  have hfollowing := getD_head?_ne (by decide) hhead
  refine expands_of_eq ?_ hnext hlt
  rw [closingTurn, plus_of_le hmax hlt, Error.ok_bind, charAt_of_head? hnext hlt, Error.ok_bind,
    if_neg hfollowing, plus_of_le hmax hlt]
  rfl

theorem turn_expands_plain (hmax : format.chars.length < 2 ^ 31)
    (hprevious : s.previous ≤ s.current) (h : format.chars.drop s.current = c :: rest) :
    Expands format s (do
      let current ← plus s.current 1
      pure (.next { s with current })) rest [c] := by
  have hlt := lt_length_of_drop h
  refine ⟨{ s with current := s.current + 1 }, ?_, drop_succ_of_drop h, hlt,
    Nat.le_succ_of_le hprevious, ?_⟩
  · rw [plus_of_le hmax hlt]
    rfl
  · rw [flushed_eq, flushed_eq]
    dsimp only
    rw [text_add hprevious, h, List.append_assoc]
    rfl

theorem turn_of_drop (h : format.chars.drop s.current = c :: rest) :
    turn format directiveResolver expressionResolver s =
      if c = '%' then percentTurn format directiveResolver s
      else if c = '{' then openingTurn format expressionResolver s
      else if c = '}' then closingTurn format s
      else (do
        let current ← plus s.current 1
        pure (.next { s with current })) := by
  rw [turn, charAt_of_drop h, Error.ok_bind, if_neg (ne_nul_of_drop h)]

theorem turn_expands (hmax : format.chars.length < 2 ^ 31) {piece : Piece} {text : List Char}
    (h : Starts text piece rest) (hpiece : ¬ piece.Open) (hprevious : s.previous ≤ s.current)
    (hdrop : format.chars.drop s.current = text) :
    Expands format s (turn format directiveResolver expressionResolver s) rest
      (piece.expansion directiveResolver expressionResolver) := by
  cases h with
  | escapedPercent =>
    rw [turn_of_drop hdrop, if_pos rfl]
    exact percentTurn_expands hmax hdrop
  | directive c _ hc =>
    rw [turn_of_drop hdrop, if_pos rfl]
    have hexpands := @percentTurn_expands format directiveResolver s c rest hmax hdrop
    rwa [if_neg hc] at hexpands
  | trailingPercent => exact absurd trivial hpiece
  | escapedOpening =>
    rw [turn_of_drop hdrop, if_neg (by decide), if_pos rfl]
    exact openingTurn_expands_escaped hmax hdrop
  | expression e _ _ htext hhead he =>
    subst htext
    rw [turn_of_drop hdrop, if_neg (by decide), if_pos rfl]
    exact openingTurn_expands_expression hmax hhead he hdrop
  | unmatched => exact absurd trivial hpiece
  | escapedClosing =>
    rw [turn_of_drop hdrop, if_neg (by decide), if_neg (by decide), if_pos rfl]
    exact closingTurn_expands_escaped hmax hdrop
  | loneClosing _ hhead =>
    rw [turn_of_drop hdrop, if_neg (by decide), if_neg (by decide), if_pos rfl]
    exact closingTurn_expands_lone hmax hhead hdrop
  | plain c _ hpercent hopening hclosing =>
    rw [turn_of_drop hdrop, if_neg hpercent, if_neg hopening, if_neg hclosing]
    exact turn_expands_plain hmax hprevious hdrop

/-- The turn throws, or the next one reads behind the NUL. -/
def Overruns (format : Format) (turn : Except Error Turn) : Prop :=
  ∀ t, turn = .ok t → ∃ s', t = .next s' ∧ format.chars.length < s'.current

/-- The last step of the turns that step over the NUL. -/
theorem overruns_plus {f : ℕ → Scan} (hf : ∀ next, (f next).current = next) :
    Overruns format (do
      let next ← plus format.chars.length 1
      pure (.next (f next))) := by
  intro t ht
  obtain ⟨next, hnext, ht⟩ := Error.exists_of_bind_eq_ok ht
  obtain ⟨rfl, -⟩ := plus_eq_ok hnext
  exact ⟨_, (Except.ok.inj ht).symm, (hf _).symm ▸ Nat.lt_succ_self _⟩

theorem percentTurn_overruns (hmax : format.chars.length < 2 ^ 31)
    (h : format.chars.drop s.current = ['%']) :
    Overruns format (percentTurn format directiveResolver s) := by
  have hlt := lt_length_of_drop h
  have hlength := eq_length_of_drop (drop_succ_of_drop h) hlt
  rw [percentTurn, plus_of_le hmax hlt, Error.ok_bind, hlength, charAt_length, Error.ok_bind]
  exact overruns_plus fun _ => rfl

theorem openingTurn_overruns (hmax : format.chars.length < 2 ^ 31)
    (hhead : rest.head? ≠ some '{') (hrest : '}' ∉ rest)
    (h : format.chars.drop s.current = '{' :: rest) :
    Overruns format (openingTurn format expressionResolver s) := by
  have hlt : s.current + 1 ≤ format.chars.length := lt_length_of_drop h
  have hnext := drop_succ_of_drop h
  have hclosing := findClosing_of_drop hmax hrest hlt (hnext.trans (List.append_nil rest).symm)
    (.inl rfl)
  have hlength : s.current + 1 + rest.length = format.chars.length := by
    rw [← hnext, List.length_drop, Nat.add_sub_of_le hlt]
  have hfollowing := getD_head?_ne (by decide) hhead
  rw [openingTurn, plus_of_le hmax hlt, Error.ok_bind, charAt_of_head? hnext hlt, Error.ok_bind]
  dsimp only
  rw [if_neg hfollowing, Error.ok_bind, hclosing, Error.ok_bind, hlength, charAt_length,
    Error.ok_bind]
  exact overruns_plus fun _ => rfl

theorem turn_overruns (hmax : format.chars.length < 2 ^ 31) {piece : Piece} {text : List Char}
    (h : Starts text piece rest) (hpiece : piece.Open)
    (hdrop : format.chars.drop s.current = text) :
    Overruns format (turn format directiveResolver expressionResolver s) := by
  cases h with
  | trailingPercent =>
    rw [turn_of_drop hdrop, if_pos rfl]
    exact percentTurn_overruns hmax hdrop
  | unmatched rest hhead hrest =>
    rw [turn_of_drop hdrop, if_neg (by decide), if_pos rfl]
    exact openingTurn_overruns hmax hhead hrest hdrop
  | _ => exact hpiece.elim

end Turn

/-! ## The whole loop -/

section Run

variable {format : Format} {directiveResolver : Char → List Char}
  {expressionResolver : List Char → List Char} {s s' : Scan} {result : List Char}

theorem run_of_next
    (h : turn format directiveResolver expressionResolver s = .ok (.next s')) :
    run format directiveResolver expressionResolver s =
      run format directiveResolver expressionResolver s' := by
  rw [run]
  split
  · rename_i error herror
    rw [h] at herror
    cases herror
  · rename_i result hdone
    rw [h] at hdone
    cases hdone
  · rename_i s'' hnext
    rw [h] at hnext
    cases hnext
    rfl

theorem run_of_done
    (h : turn format directiveResolver expressionResolver s = .ok (.done result)) :
    run format directiveResolver expressionResolver s = .ok result := by
  rw [run]
  split
  · rename_i error herror
    rw [h] at herror
    cases herror
  · rename_i result' hdone
    rw [h] at hdone
    cases hdone
    rfl
  · rename_i s'' hnext
    rw [h] at hnext
    cases hnext

theorem run_of_gt (h : format.chars.length < s.current) :
    run format directiveResolver expressionResolver s ≠ .ok result := by
  have hturn : turn format directiveResolver expressionResolver s =
      .error (.undefinedBehavior "read behind the terminating NUL") := by
    rw [turn, charAt_of_gt h]
    rfl
  intro hrun
  rw [run] at hrun
  split at hrun
  · cases hrun
  · rename_i result' hdone
    rw [hturn] at hdone
    cases hdone
  · rename_i s'' hnext
    rw [hturn] at hnext
    cases hnext

theorem turn_done (h : turn format directiveResolver expressionResolver s = .ok (.done result)) :
    s.current = format.chars.length ∧ result = s.flushed format := by
  obtain ⟨ch, hch, h⟩ := Error.exists_of_bind_eq_ok h
  split_ifs at h with hnul hpercent hopening hclosing
  · refine ⟨?_, (Turn.done.inj (Except.ok.inj h)).symm⟩
    rw [Format.charAt] at hch
    split_ifs at hch with hlt heq
    · exact absurd (hnul ▸ Except.ok.inj hch ▸ List.getElem_mem hlt) format.nul_notMem
    · exact heq
  · obtain ⟨current, -, h⟩ := Error.exists_of_bind_eq_ok h
    obtain ⟨ch', -, h⟩ := Error.exists_of_bind_eq_ok h
    obtain ⟨next, -, h⟩ := Error.exists_of_bind_eq_ok h
    cases h
  · obtain ⟨i, -, h⟩ := Error.exists_of_bind_eq_ok h
    obtain ⟨following, -, h⟩ := Error.exists_of_bind_eq_ok h
    dsimp only at h
    split_ifs at h
    · obtain ⟨current, -, h⟩ := Error.exists_of_bind_eq_ok h
      cases h
    · obtain ⟨previous, -, h⟩ := Error.exists_of_bind_eq_ok h
      obtain ⟨closing, -, h⟩ := Error.exists_of_bind_eq_ok h
      obtain ⟨ch', -, h⟩ := Error.exists_of_bind_eq_ok h
      obtain ⟨next, -, h⟩ := Error.exists_of_bind_eq_ok h
      split_ifs at h
      all_goals cases h
  · obtain ⟨i, -, h⟩ := Error.exists_of_bind_eq_ok h
    obtain ⟨following, -, h⟩ := Error.exists_of_bind_eq_ok h
    obtain ⟨current, -, h⟩ := Error.exists_of_bind_eq_ok h
    cases h
  · obtain ⟨current, -, h⟩ := Error.exists_of_bind_eq_ok h
    cases h

theorem run_of_pieces (hmax : format.chars.length < 2 ^ 31) {text : List Char}
    {pieces : List Piece} (h : Pieces text pieces) (hdrop : format.chars.drop s.current = text)
    (hle : s.current ≤ format.chars.length) (hprevious : s.previous ≤ s.current)
    (hpieces : ∀ piece ∈ pieces, ¬ piece.Open) :
    run format directiveResolver expressionResolver s = .ok (s.flushed format ++
      pieces.flatMap (Piece.expansion directiveResolver expressionResolver)) := by
  induction h generalizing s with
  | nil =>
    rw [List.flatMap_nil, List.append_nil]
    refine run_of_done ?_
    rw [turn, charAt_of_drop_nil hdrop hle, Error.ok_bind, if_pos rfl]
    rfl
  | cons hstarts _ ih =>
    obtain ⟨hpiece, hpieces⟩ := List.forall_mem_cons.1 hpieces
    obtain ⟨s', hturn, hdrop', hle', hprevious', hflushed⟩ :=
      @turn_expands format directiveResolver expressionResolver s _ hmax _ _ hstarts hpiece
        hprevious hdrop
    rw [run_of_next hturn, ih hdrop' hle' hprevious' hpieces, hflushed, List.flatMap_cons,
      List.append_assoc]

theorem run_of_open (hmax : format.chars.length < 2 ^ 31) {text : List Char}
    {pieces : List Piece} (h : Pieces text pieces) (hdrop : format.chars.drop s.current = text)
    (hprevious : s.previous ≤ s.current) (hpieces : ∃ piece ∈ pieces, piece.Open) :
    run format directiveResolver expressionResolver s ≠ .ok result := by
  induction h generalizing s with
  | nil =>
    obtain ⟨piece, hpiece, -⟩ := hpieces
    cases hpiece
  | @cons text rest piece pieces hstarts _ ih =>
    by_cases hpiece : piece.Open
    · intro hrun
      have hover := @turn_overruns format directiveResolver expressionResolver s _ hmax _ _
        hstarts hpiece hdrop
      rw [run] at hrun
      split at hrun
      · cases hrun
      · rename_i result' hdone
        obtain ⟨s', hs', -⟩ := hover _ hdone
        cases hs'
      · rename_i s' hnext
        obtain ⟨s'', hs', hgt⟩ := hover _ hnext
        cases hs'
        exact run_of_gt hgt hrun
    · obtain ⟨s', hturn, hdrop', -, hprevious', -⟩ :=
        @turn_expands format directiveResolver expressionResolver s _ hmax _ _ hstarts hpiece
          hprevious hdrop
      obtain ⟨open', hmem, hopen⟩ := hpieces
      rw [run_of_next hturn]
      refine ih hdrop' hprevious' ⟨open', ?_, hopen⟩
      exact (List.mem_cons.1 hmem).resolve_left fun heq => hpiece (heq ▸ hopen)

/-- The index reaches the NUL without an overflow. -/
theorem length_lt_of_run (hcurrent : s.current < 2 ^ 31)
    (h : run format directiveResolver expressionResolver s = .ok result) :
    format.chars.length < 2 ^ 31 := by
  induction hn : format.chars.length - s.current using Nat.strong_induction_on generalizing s with
  | _ n ih =>
    rw [run] at h
    split at h
    · cases h
    · rename_i result' hdone
      exact (turn_done hdone).1 ▸ hcurrent
    · rename_i s' hnext
      obtain ⟨hlt, hprogress, hmax⟩ := turn_current hnext
      exact ih _ (by omega) hmax h rfl

end Run

/-- A format is expanded piece by piece just when no piece lacks its end and an `int` holds the
length of the format. -/
theorem formatString_eq_iff (format : Format) : ∃ pieces,
    (∀ pieces', Pieces format.chars pieces' ↔ pieces' = pieces) ∧
    pieces.flatMap Piece.text = format.chars ∧
    ∀ directiveResolver expressionResolver,
      (formatString format directiveResolver expressionResolver =
          .ok (pieces.flatMap (Piece.expansion directiveResolver expressionResolver)) ↔
        format.chars.length < 2 ^ 31 ∧ ∀ piece ∈ pieces, ¬ piece.Open) := by
  obtain ⟨pieces, hpieces⟩ := exists_pieces format.chars
  refine ⟨pieces, fun pieces' => ⟨hpieces.unique, fun heq => heq ▸ hpieces⟩,
    hpieces.flatMap_text, fun directiveResolver expressionResolver => ?_⟩
  constructor
  · intro h
    have hmax := length_lt_of_run (Nat.two_pow_pos 31) h
    refine ⟨hmax, fun piece hpiece hopen => ?_⟩
    exact run_of_open hmax hpieces rfl le_rfl ⟨piece, hpiece, hopen⟩ h
  · rintro ⟨hmax, hclosed⟩
    exact run_of_pieces hmax hpieces rfl (Nat.zero_le _) le_rfl hclosed

/-- For a format of one `%` the loop reads behind the NUL, whatever the resolvers do. -/
theorem formatString_percent : ∃ format : Format, format.chars = ['%'] ∧
    Pieces format.chars [.trailingPercent] ∧
    ∀ directiveResolver expressionResolver result,
      formatString format directiveResolver expressionResolver ≠ .ok result := by
  have hpieces : Pieces ['%'] [.trailingPercent] := .cons .trailingPercent .nil
  refine ⟨⟨['%'], by decide⟩, rfl, hpieces, fun _ _ _ => ?_⟩
  exact run_of_open (by decide) hpieces rfl le_rfl ⟨_, List.mem_cons_self, trivial⟩

end Inet.StringFormat
