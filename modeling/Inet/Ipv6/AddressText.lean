import Inet.Ipv4.AddressText
import Inet.Ipv6.RoutingTable

/-! # The text of an IPv6 address

The groups of an address are read with `strtoul`, so that white space, signs
and a prefix `0x` are read as well, and `::` may stand for no group at all.
Printing puts `::` for the leftmost longest run of zero groups, and what is
printed is read back.
-/

namespace Inet.Ipv6

open Strtoul
open Ipv4 (unspec)

/-! ## Parsing -/

/-- The loop of `parseGroups` with the places that are left behind the next group: the groups and
what is left of the text. The text `colon` is what is left before the colon is skipped. -/
def parseGroupsFrom : ℕ → List Char → List Char → List UInt16 × List Char
  | 0, colon, s =>
    let (grp, e) := strtoul s 16
    if e = s then ([], colon)
    else if grp > 0xffff then ([], s)
    else ([UInt16.ofNat grp], e)
  | places + 1, colon, s =>
    let (grp, e) := strtoul s 16
    if e = s then ([], colon)
    else if grp > 0xffff then ([], s)
    else match e with
      | ':' :: t =>
        let (groups, rest) := parseGroupsFrom places e t
        (UInt16.ofNat grp :: groups, rest)
      | _ => ([UInt16.ofNat grp], e)

/-- `parseGroups`, which takes 8 groups at most. -/
def parseGroups (s : List Char) : List UInt16 × List Char := parseGroupsFrom 7 s s

/-- The loop that merges the groups behind `::`. -/
def mergeGroups (groups suffixGroups : List UInt16) : List UInt16 :=
  groups ++ (List.range' groups.length (8 - groups.length)).map fun (i : ℕ) =>
    let j : ℤ := i - 8 + suffixGroups.length
    if j < 0 then 0 else suffixGroups.getD j.toNat 0

namespace Ipv6Address

/-- `(groups[2 * i] << 16) + groups[2 * i + 1]` -/
def word (groups : List UInt16) (i : ℕ) : UInt32 :=
  ((groups.getD (2 * i) 0).toUInt32 <<< 16) + (groups.getD (2 * i + 1) 0).toUInt32

def ofGroups (groups : List UInt16) : Ipv6Address :=
  ⟨word groups 0, word groups 1, word groups 2, word groups 3⟩

/-- The address and what is left of the text. -/
def doTryParse (addr : List Char) : Option (Ipv6Address × List Char) :=
  if addr = unspec then some (unspecified, [])
  else
    let (groups, rest) := parseGroups addr
    match rest with
    | ':' :: ':' :: t =>
      let (suffixGroups, rest) := parseGroups t
      if groups.length + suffixGroups.length > 8 then none
      else some (ofGroups (mergeGroups groups suffixGroups), rest)
    | _ => if groups.length ≠ 8 then none else some (ofGroups groups, rest)

def tryParse (addr : List Char) : Option Ipv6Address :=
  match doTryParse addr with
  | some (address, []) => some address
  | _ => none

/-- A number of 64 bits as an `int`. -/
def toInt (n : ℕ) : ℤ := (BitVec.ofNat 32 n).toInt

/-- The groups of two words. -/
def groups (address : Ipv6Address) : List UInt16 :=
  [address.d0, address.d1, address.d2, address.d3].flatMap fun (d : UInt32) =>
    [(d >>> 16).toUInt16, (d &&& 0xffff).toUInt16]

end Ipv6Address

/-- The variables of `findGap`; `beg` is absent for `-1`. -/
structure ZeroGap where
  start : ℕ
  stop : ℕ
  beg : Option ℕ
  deriving DecidableEq, Repr

/-- A turn of the loop of `findGap`. -/
def ZeroGap.turn (gap : ZeroGap) (i : ℕ) (group : UInt16) : ZeroGap :=
  match gap.beg with
  | none => if group = 0 then { gap with beg := some i } else gap
  | some beg =>
    if group ≠ 0 then
      if i - beg ≥ 2 ∧ i - beg > gap.stop - gap.start then ⟨beg, i, none⟩
      else { gap with beg := none }
    else gap

def findGapLoop (gap : ZeroGap) (i : ℕ) : List UInt16 → ZeroGap
  | [] => gap
  | group :: groups => findGapLoop (gap.turn i group) (i + 1) groups

/-- The start and the end of the gap. -/
def findGap (groups : List UInt16) : ℕ × ℕ :=
  let gap := findGapLoop ⟨0, 0, none⟩ 0 groups
  match gap.beg with
  | some beg =>
    if beg ≤ 6 ∧ 8 - beg > gap.stop - gap.start then (beg, 8) else (gap.start, gap.stop)
  | none => (gap.start, gap.stop)

/-- Groups in hexadecimal with colons between them. -/
def printGroups (groups : List UInt16) : List Char :=
  join ':' (groups.map fun group => Nat.toDigits 16 group.toNat)

def Ipv6Address.str (address : Ipv6Address) : List Char :=
  if address.isUnspecified then unspec
  else
    let (start, stop) := findGap address.groups
    if start = 0 ∧ stop = 8 then "::0".toList
    else printGroups (address.groups.take start) ++ (if start ≠ stop then "::".toList else []) ++
      printGroups (address.groups.drop stop)

end Inet.Ipv6
