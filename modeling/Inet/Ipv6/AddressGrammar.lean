import Inet.Ipv6.AddressText
import Mathlib.Data.List.GetD

/-! # The texts that the address parsers accept

A text is accepted just when it has a form: eight groups, or groups around a
`::`. A form is strict when its groups are made of hexadecimal digits only and
its `::` stands for a group. The parsers accept other forms as well, so that
they follow the grammar of the strict forms only for the texts without one.
-/

namespace Inet.Ipv6

open Strtoul
open Ipv4 (unspec)

/-- A numeral that is read as a group. -/
structure Group where
  numeral : Numeral 16
  le : numeral.value ≤ 0xffff

namespace Group

variable (group : Group)

def text : List Char := group.numeral.text

def value : UInt16 := UInt16.ofNat group.numeral.value

def Plain : Prop := group.numeral.Plain

end Group

/-- The groups of a text, with or without a `::`. -/
inductive Form where
  | full (groups : List Group)
  | compressed (before after : List Group)

namespace Form

def text : Form → List Char
  | full groups => join ':' (groups.map Group.text)
  | compressed before after =>
    join ':' (before.map Group.text) ++ ':' :: ':' :: join ':' (after.map Group.text)

/-- The groups of the address. -/
def groups : Form → List UInt16
  | full groups => groups.map Group.value
  | compressed before after =>
    before.map Group.value ++ (List.replicate (8 - before.length - after.length) 0 ++
      after.map Group.value)

def value (form : Form) : Ipv6Address := .ofGroups form.groups

/-- There are as many groups as an address has, or the gap has room. -/
def Fits : Form → Prop
  | full groups => groups.length = 8
  | compressed before after => before.length + after.length ≤ 8

/-- The form is one of the grammar. -/
def Strict : Form → Prop
  | full groups => groups.length = 8 ∧ ∀ group ∈ groups, group.Plain
  | compressed before after => before.length + after.length < 8 ∧
      (∀ group ∈ before, group.Plain) ∧ ∀ group ∈ after, group.Plain

theorem Strict.fits {form : Form} (h : form.Strict) : form.Fits := by
  cases form with
  | full groups => exact h.1
  | compressed before after => exact h.1.le

end Form

/-! ## Reading groups -/

/-- What may follow groups: the end, a prefix length or a `::`. -/
inductive MayFollow : List Char → Prop
  | nil : MayFollow []
  | slash (t : List Char) : MayFollow ('/' :: t)
  | gap (t : List Char) : MayFollow (':' :: ':' :: t)

theorem not_isStart_colon : ¬ IsStart 16 ':' := by
  rintro (h | h | h | h)
  all_goals exact absurd h (by decide)

theorem not_isStart_slash : ¬ IsStart 16 '/' := by
  rintro (h | h | h | h)
  all_goals exact absurd h (by decide)

theorem MayFollow.stops {rest : List Char} (h : MayFollow rest) : Stops 16 rest := by
  cases h with
  | nil => nofun
  | slash t =>
    rintro c ⟨⟩
    decide
  | gap t =>
    rintro c ⟨⟩
    decide

theorem stops_colon (t : List Char) : Stops 16 (':' :: t) := by
  rintro c ⟨⟩
  decide

namespace Group

variable (group : Group) {rest : List Char}

theorem text_ne_nil : group.text ≠ [] := by
  obtain ⟨c, t, htext, -⟩ := group.numeral.exists_head
  rw [text, htext]
  exact List.cons_ne_nil c t

theorem ne_text_append : rest ≠ group.text ++ rest := by
  intro h
  exact group.text_ne_nil (List.append_cancel_right (h.symm.trans (List.nil_append rest).symm))

theorem strtoul_text (h : Stops 16 rest) :
    strtoul (group.text ++ rest) 16 = (group.numeral.value, rest) :=
  Strtoul.strtoul_text group.numeral h

end Group

section ParseGroups

variable {places : ℕ} {colon s rest : List Char}

theorem parseGroupsFrom_of_not_start (h : ∀ c ∈ s.head?, ¬ IsStart 16 c) :
    parseGroupsFrom places colon s = ([], colon) := by
  have he := strtoul_of_not_start h
  cases places with
  | zero =>
    rw [parseGroupsFrom]
    dsimp only
    rw [if_pos he]
  | succ places =>
    rw [parseGroupsFrom]
    dsimp only
    rw [if_pos he]

theorem parseGroupsFrom_text (group : Group) (hrest : MayFollow rest) :
    parseGroupsFrom places colon (group.text ++ rest) = ([group.value], rest) := by
  have hle : ¬ group.numeral.value > 0xffff := not_lt.2 group.le
  cases places with
  | zero =>
    rw [parseGroupsFrom, group.strtoul_text hrest.stops]
    dsimp only
    rw [if_neg group.ne_text_append, if_neg hle]
    rfl
  | succ places =>
    rw [parseGroupsFrom, group.strtoul_text hrest.stops]
    dsimp only
    rw [if_neg group.ne_text_append, if_neg hle]
    cases hrest with
    | nil => rfl
    | slash t => rfl
    | gap t =>
      have hnone : parseGroupsFrom places (':' :: ':' :: t) (':' :: t) = ([], ':' :: ':' :: t) := by
        refine parseGroupsFrom_of_not_start ?_
        rintro c ⟨⟩
        exact not_isStart_colon
      change (group.value :: (parseGroupsFrom places (':' :: ':' :: t) (':' :: t)).1,
        (parseGroupsFrom places (':' :: ':' :: t) (':' :: t)).2) = _
      rw [hnone]

theorem parseGroupsFrom_join {groups : List Group} (hne : groups ≠ [])
    (hlength : groups.length ≤ places + 1) (hrest : MayFollow rest) :
    parseGroupsFrom places colon (join ':' (groups.map Group.text) ++ rest) =
      (groups.map Group.value, rest) := by
  induction groups generalizing places colon with
  | nil => exact absurd rfl hne
  | cons group groups ih =>
    cases groups with
    | nil => exact parseGroupsFrom_text group hrest
    | cons group' groups =>
      have hle : ¬ group.numeral.value > 0xffff := not_lt.2 group.le
      cases places with
      | zero => exact absurd hlength (by simp)
      | succ places =>
        rw [List.map_cons, join_cons_of_ne_nil (by simp), List.append_assoc, List.cons_append,
          parseGroupsFrom, group.strtoul_text (stops_colon _)]
        generalize hjoin : join ':' ((group' :: groups).map Group.text) ++ rest = t at ih ⊢
        dsimp only
        rw [if_neg group.ne_text_append, if_neg hle]
        change (group.value :: (parseGroupsFrom places (':' :: t) t).1,
          (parseGroupsFrom places (':' :: t) t).2) = _
        rw [ih (List.cons_ne_nil _ _) (Nat.le_of_succ_le_succ hlength)]
        rfl

/-- What is read, when the reading does not stop at a number that is too large. -/
inductive ReadGroups (places : ℕ) (colon s : List Char) : List UInt16 → List Char → Prop
  | none : ReadGroups places colon s [] colon
  | some (groups : List Group) (rest : List Char) (hne : groups ≠ [])
      (hlength : groups.length ≤ places + 1) (hs : s = join ':' (groups.map Group.text) ++ rest) :
      ReadGroups places colon s (groups.map Group.value) rest
  | large (values : List UInt16) (rest : List Char) (c : Char) (hhead : rest.head? = some c)
      (hstart : IsStart 16 c) : ReadGroups places colon s values rest

theorem group_or_large (h : (strtoul s 16).2 ≠ s) :
    (∃ group : Group, s = group.text ++ (strtoul s 16).2 ∧
      UInt16.ofNat (strtoul s 16).1 = group.value ∧ ¬ (strtoul s 16).1 > 0xffff) ∨
    ((strtoul s 16).1 > 0xffff ∧ ∃ c, s.head? = some c ∧ IsStart 16 c) := by
  obtain ⟨num, hs, hvalue⟩ := exists_numeral h
  by_cases hlarge : (strtoul s 16).1 > 0xffff
  · obtain ⟨c, t, htext, hstart⟩ := num.exists_head
    refine .inr ⟨hlarge, c, ?_, hstart⟩
    rw [hs, htext]
    rfl
  · refine .inl ⟨⟨num, hvalue ▸ not_lt.1 hlarge⟩, hs, congrArg UInt16.ofNat hvalue, hlarge⟩

theorem readGroups_parseGroupsFrom (places : ℕ) (colon s : List Char) :
    ReadGroups places colon s (parseGroupsFrom places colon s).1
      (parseGroupsFrom places colon s).2 := by
  induction places generalizing colon s with
  | zero =>
    rw [parseGroupsFrom]
    dsimp only
    by_cases he : (strtoul s 16).2 = s
    · rw [if_pos he]
      exact .none
    · rw [if_neg he]
      rcases group_or_large he with ⟨group, hs, hvalue, hle⟩ | ⟨hlarge, c, hc, hstart⟩
      · rw [if_neg hle, hvalue]
        exact .some [group] _ (List.cons_ne_nil _ _) le_rfl hs
      · rw [if_pos hlarge]
        exact .large _ _ c hc hstart
  | succ places ih =>
    rw [parseGroupsFrom]
    dsimp only
    by_cases he : (strtoul s 16).2 = s
    · rw [if_pos he]
      exact .none
    · rw [if_neg he]
      rcases group_or_large he with ⟨group, hs, hvalue, hle⟩ | ⟨hlarge, c, hc, hstart⟩
      · rw [if_neg hle, hvalue]
        generalize (strtoul s 16).2 = e at hs
        split
        · rename_i t
          have hrest := ih (':' :: t) t
          generalize (parseGroupsFrom places (':' :: t) t).1 = values at hrest ⊢
          generalize (parseGroupsFrom places (':' :: t) t).2 = rest at hrest ⊢
          cases hrest with
          | none => exact .some [group] _ (List.cons_ne_nil _ _) (by simp) hs
          | some groups rest hne hlength ht =>
            refine .some (group :: groups) rest (List.cons_ne_nil _ _)
              (Nat.succ_le_succ hlength) ?_
            rw [hs, ht, List.map_cons, join_cons_of_ne_nil (by simpa using hne), List.append_assoc,
              List.cons_append]
          | large _ _ c hhead hstart => exact .large _ _ c hhead hstart
        · exact .some [group] _ (List.cons_ne_nil _ _) (by simp) hs
      · rw [if_pos hlarge]
        exact .large _ _ c hc hstart

end ParseGroups

theorem follows_gap_or (rest : List Char) :
    (∃ t, rest = ':' :: ':' :: t) ∨ ∀ t, rest ≠ ':' :: ':' :: t := by
  by_cases h : ∃ t, rest = ':' :: ':' :: t
  · exact .inl h
  · exact .inr fun t ht => h ⟨t, ht⟩

theorem parseGroups_join {groups : List Group} (hlength : groups.length ≤ 8) {rest : List Char}
    (hrest : MayFollow rest) (hstart : groups = [] → ∀ c ∈ rest.head?, ¬ IsStart 16 c) :
    parseGroups (join ':' (groups.map Group.text) ++ rest) = (groups.map Group.value, rest) := by
  by_cases hne : groups = []
  · subst hne
    exact parseGroupsFrom_of_not_start (hstart rfl)
  · exact parseGroupsFrom_join hne hlength hrest

theorem mergeGroups_eq {groups suffixGroups : List UInt16}
    (h : groups.length + suffixGroups.length ≤ 8) :
    mergeGroups groups suffixGroups =
      groups ++ (List.replicate (8 - groups.length - suffixGroups.length) 0 ++ suffixGroups) := by
  rw [mergeGroups, List.append_cancel_left_eq]
  apply List.ext_getElem
  · rw [List.length_map, List.length_range', List.length_append, List.length_replicate]
    omega
  · intro k hk hk'
    rw [List.length_map, List.length_range'] at hk
    rw [List.getElem_map, List.getElem_range']
    dsimp only
    by_cases hgap : k < 8 - groups.length - suffixGroups.length
    · rw [if_pos (by omega), List.getElem_append_left (by rwa [List.length_replicate]),
        List.getElem_replicate]
    · have hindex : (((groups.length + 1 * k : ℕ) : ℤ) - 8 + suffixGroups.length).toNat =
          k - (8 - groups.length - suffixGroups.length) := by omega
      have hlt : k - (8 - groups.length - suffixGroups.length) < suffixGroups.length := by omega
      rw [if_neg (by omega), hindex,
        List.getElem_append_right (by rw [List.length_replicate]; omega),
        List.getD_eq_getElem _ _ hlt]
      simp only [List.length_replicate]

/-! ## Reading forms -/

section DoTryParse

variable {form : Form} {address : Ipv6Address} {rest s : List Char}

theorem isNumeralChar_of_mem_join {groups : List Group} {c : Char}
    (h : c ∈ join ':' (groups.map Group.text)) : c = ':' ∨ IsNumeralChar 16 c := by
  refine (mem_join h).imp_right ?_
  rintro ⟨text, htext, hc⟩
  obtain ⟨group, -, rfl⟩ := List.mem_map.1 htext
  exact group.numeral.isNumeralChar c hc

theorem Form.isNumeralChar {c : Char} (h : c ∈ form.text) : c = ':' ∨ IsNumeralChar 16 c := by
  cases form with
  | full groups => exact isNumeralChar_of_mem_join h
  | compressed before after =>
    rcases List.mem_append.1 h with h | h
    · exact isNumeralChar_of_mem_join h
    · rcases List.mem_cons.1 h with h | h
      · exact .inl h
      · rcases List.mem_cons.1 h with h | h
        · exact .inl h
        · exact isNumeralChar_of_mem_join h

theorem Form.text_ne_nil (h : form.Fits) : form.text ≠ [] := by
  cases form with
  | full groups =>
    cases groups with
    | nil => cases h
    | cons group groups =>
      cases groups with
      | nil => exact group.text_ne_nil
      | cons group' groups =>
        exact fun hnil => group.text_ne_nil (List.append_eq_nil_iff.1 hnil).1
  | compressed before after => exact List.append_ne_nil_of_right_ne_nil _ (List.cons_ne_nil _ _)

theorem not_isNumeralChar_of_none {c : Char} (hspace : isSpace c = false) (hminus : c ≠ '-')
    (hplus : c ≠ '+') (hdigit : isDigit 16 c = false) (hx : c ≠ '0' ∧ c ≠ 'x' ∧ c ≠ 'X') :
    ¬ IsNumeralChar 16 c := by
  rintro ((h | h | h | h) | ⟨-, h | h | h⟩)
  · rw [hspace] at h
    cases h
  · exact hminus h
  · exact hplus h
  · rw [hdigit] at h
    cases h
  · exact hx.1 h
  · exact hx.2.1 h
  · exact hx.2.2 h

theorem Form.text_append_ne (h : form.Fits) (rest rest' : List Char) :
    form.text ++ rest ≠ unspec ++ rest' := by
  intro heq
  cases htext : form.text with
  | nil => exact form.text_ne_nil h htext
  | cons c t =>
    rw [htext] at heq
    obtain rfl : c = '<' := (List.cons.inj heq).1
    rcases form.isNumeralChar (htext ▸ List.mem_cons_self) with hcolon | hchar
    · cases hcolon
    · exact not_isNumeralChar_of_none rfl (by decide) (by decide) rfl (by decide) hchar

/-- What follows an address. -/
inductive AddressEnd : List Char → Prop
  | nil : AddressEnd []
  | slash (t : List Char) : AddressEnd ('/' :: t)

theorem AddressEnd.follows (h : AddressEnd rest) : MayFollow rest := by
  cases h with
  | nil => exact .nil
  | slash t => exact .slash t

theorem AddressEnd.not_isStart (h : AddressEnd rest) : ∀ c ∈ rest.head?, ¬ IsStart 16 c := by
  cases h with
  | nil => nofun
  | slash t =>
    rintro c ⟨⟩
    exact not_isStart_slash

theorem doTryParse_of_parseGroups {groups : List UInt16} (hs : s ≠ unspec)
    (h : parseGroups s = (groups, rest)) (hrest : AddressEnd rest) :
    Ipv6Address.doTryParse s =
      if groups.length ≠ 8 then none else some (.ofGroups groups, rest) := by
  rw [Ipv6Address.doTryParse, if_neg hs, h]
  cases hrest with
  | nil => rfl
  | slash t => rfl

theorem doTryParse_of_gap {groups suffixGroups : List UInt16} {t : List Char} (hs : s ≠ unspec)
    (h : parseGroups s = (groups, ':' :: ':' :: t)) (ht : parseGroups t = (suffixGroups, rest)) :
    Ipv6Address.doTryParse s =
      if groups.length + suffixGroups.length > 8 then none
      else some (.ofGroups (mergeGroups groups suffixGroups), rest) := by
  rw [Ipv6Address.doTryParse, if_neg hs, h]
  change (if groups.length + (parseGroups t).1.length > 8 then none
    else some (Ipv6Address.ofGroups (mergeGroups groups (parseGroups t).1), (parseGroups t).2)) = _
  rw [ht]

theorem doTryParse_text (h : form.Fits) (hrest : AddressEnd rest) :
    Ipv6Address.doTryParse (form.text ++ rest) = some (form.value, rest) := by
  have hs : form.text ++ rest ≠ unspec := by
    have hne := form.text_append_ne h rest []
    rwa [List.append_nil] at hne
  cases form with
  | full groups =>
    have hlength : groups.length = 8 := h
    have hparse := parseGroups_join hlength.le hrest.follows fun hnil => by
      subst hnil
      cases hlength
    rw [doTryParse_of_parseGroups hs hparse hrest, List.length_map, if_neg (not_not.2 hlength)]
    rfl
  | compressed before after =>
    have hfits : before.length + after.length ≤ 8 := h
    have htext : (Form.compressed before after).text ++ rest =
        join ':' (before.map Group.text) ++
          ':' :: ':' :: (join ':' (after.map Group.text) ++ rest) := by
      rw [Form.text, List.append_assoc, List.cons_append, List.cons_append]
    have hbefore := @parseGroups_join before (by omega)
      (':' :: ':' :: (join ':' (after.map Group.text) ++ rest)) (.gap _) (fun _ => by
        rintro c ⟨⟩
        exact not_isStart_colon)
    have hafter := @parseGroups_join after (by omega) rest hrest.follows fun _ =>
      hrest.not_isStart
    have hle : (before.map Group.value).length + (after.map Group.value).length ≤ 8 := by
      rwa [List.length_map, List.length_map]
    rw [doTryParse_of_gap hs (htext ▸ hbefore) hafter, if_neg (not_lt.2 hle), mergeGroups_eq hle,
      List.length_map, List.length_map]
    rfl

theorem exists_groups {values : List UInt16} (h : parseGroups s = (values, rest))
    (hrest : ∀ c ∈ rest.head?, ¬ IsStart 16 c) :
    ∃ groups : List Group, s = join ':' (groups.map Group.text) ++ rest ∧
      values = groups.map Group.value := by
  have hread := readGroups_parseGroupsFrom 7 s s
  rw [show parseGroupsFrom 7 s s = (values, rest) from h] at hread
  cases hread with
  | none => exact ⟨[], rfl, rfl⟩
  | some groups rest _ _ hs => exact ⟨groups, hs, rfl⟩
  | large _ _ c hhead hstart => exact absurd hstart (hrest c hhead)

theorem exists_form (h : Ipv6Address.doTryParse s = some (address, rest)) (hs : s ≠ unspec)
    (hrest : AddressEnd rest) :
    ∃ form : Form, form.Fits ∧ s = form.text ++ rest ∧ address = form.value := by
  cases hparse : parseGroups s with
  | mk values rest' =>
    rcases follows_gap_or rest' with ⟨t, rfl⟩ | hgap
    · cases hafter : parseGroups t with
      | mk suffixValues rest'' =>
        rw [doTryParse_of_gap hs hparse hafter] at h
        split_ifs at h with hle
        cases h
        obtain ⟨before, hbefore, rfl⟩ := exists_groups hparse (by
          rintro c ⟨⟩
          exact not_isStart_colon)
        obtain ⟨after, rfl, rfl⟩ := exists_groups hafter hrest.not_isStart
        rw [not_lt] at hle
        refine ⟨.compressed before after, ?_, ?_, ?_⟩
        · rwa [List.length_map, List.length_map] at hle
        · rw [hbefore, Form.text, List.append_assoc, List.cons_append, List.cons_append]
        · rw [mergeGroups_eq hle, List.length_map, List.length_map]
          rfl
    · rw [Ipv6Address.doTryParse, if_neg hs, hparse] at h
      dsimp only at h
      split at h
      · exact absurd rfl (hgap _)
      · split_ifs at h with hlength
        cases h
        obtain ⟨groups, hgroups, rfl⟩ := exists_groups hparse hrest.not_isStart
        rw [not_not, List.length_map] at hlength
        exact ⟨.full groups, hlength, hgroups, rfl⟩

end DoTryParse

/-! ## The parsers -/

section Parsers

variable {form form' : Form} {address : Ipv6Address} {rest s : List Char}

theorem tryParse_text (h : form.Fits) : Ipv6Address.tryParse form.text = some form.value := by
  have hparse := doTryParse_text h .nil
  rw [List.append_nil] at hparse
  rw [Ipv6Address.tryParse, hparse]

/-- A text of the grammar, and the address that it denotes. -/
inductive Denotes : List Char → Ipv6Address → Prop
  | unspec : Denotes unspec .unspecified
  | form (form : Form) (h : form.Strict) : Denotes form.text form.value

/-- Such a text with a prefix length. -/
inductive DenotesPrefix : List Char → Ipv6Address → ℤ → Prop
  | mk (text : List Char) (address : Ipv6Address) (num : Numeral 10) (h : Denotes text address)
      (hplain : num.Plain) (hle : accumulate 10 0 num.digits ≤ 128) :
      DenotesPrefix (text ++ '/' :: num.text) address (accumulate 10 0 num.digits : ℕ)

theorem plain_of_text_eq {num num' : Numeral 10} (h : num'.Plain) (htext : num.text = num'.text) :
    num.Plain ∧ num.digits = num'.digits := by
  have hplain : num.Plain := num.plain_of_forall (fun c hc => by
    rw [htext, h.text_eq] at hc
    exact num'.digits_all c hc) (by decide)
  refine ⟨hplain, ?_⟩
  rw [← hplain.text_eq, htext, h.text_eq]

/-! ### Where the parsers follow the grammar -/

theorem not_mem_slash_numeral (num : Numeral 10) : '/' ∉ num.text := by
  intro h
  rcases num.isNumeralChar _ h with (h | h | h | h) | ⟨h, -⟩
  all_goals cases h

theorem DenotesPrefix.parts {text : List Char} {num : Numeral 10} {prefixLen : ℤ}
    (h : DenotesPrefix (text ++ '/' :: num.text) address prefixLen) (htext : '/' ∉ text) :
    Denotes text address ∧ num.Plain ∧ accumulate 10 0 num.digits ≤ 128 ∧
      prefixLen = (accumulate 10 0 num.digits : ℕ) := by
  generalize hs : text ++ '/' :: num.text = s at h
  cases h with
  | mk text' address num' h hplain hle =>
    obtain ⟨rfl, -, hnum⟩ :=
      (List.append_cons_inj_of_notMem htext (not_mem_slash_numeral num)).1 hs
    obtain ⟨hplain', hdigits⟩ := plain_of_text_eq hplain hnum
    rw [hdigits]
    exact ⟨h, hplain', hle, rfl⟩

end Parsers

/-- The digits of a group. -/
def Group.ofUInt16 (value : UInt16) : Group where
  numeral := .ofNat 16 (by decide) le_rfl value.toNat
  le := by
    have hlt := value.toNat_lt
    rw [Numeral.value_ofNat _ _ (by unfold ulongMax; omega)]
    omega

end Inet.Ipv6
