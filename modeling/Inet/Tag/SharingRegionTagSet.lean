import Inet.Common.Error
import Mathlib.Data.BitVec

/-! # Sets of region tags

A region tag keeps a tag for a range of positions. The set keeps its region
tags in a vector; the operations cut regions where a range begins or ends, and
some of them sort the vector afterwards.
-/

namespace Inet

/-- `typeid` of a tag: `none` for an `IdentityTag`, the only tag that follows its region. -/
abbrev TypeInfo (Class : Type) := Option Class

inductive TagBase (Class Fields : Type) where
  | identityTag (identityStart : BitVec 64)
  | other (typeInfo : Class) (fields : Fields)
  deriving DecidableEq

variable {Class Fields : Type}

namespace TagBase

def typeInfo : TagBase Class Fields → TypeInfo Class
  | identityTag _ => none
  | other typeInfo _ => some typeInfo

/-- `makeShared<T>()`. -/
def makeShared (defaults : Class → Fields) : TypeInfo Class → TagBase Class Fields
  | none => identityTag (-1)
  | some typeInfo => other typeInfo (defaults typeInfo)

def changeRegion (this : TagBase Class Fields) (offsetDelta _lengthDelta : ℤ) :
    TagBase Class Fields :=
  match this with
  | identityTag identityStart =>
    if offsetDelta = 0 then this else identityTag (identityStart + BitVec.ofInt 64 offsetDelta)
  | other _ _ => this

end TagBase

structure RegionTag (Class Fields : Type) where
  offset : ℤ
  length : ℤ
  tag : TagBase Class Fields
  deriving DecidableEq

namespace RegionTag

def new (offset length : ℤ) (tag : TagBase Class Fields) :
    Except Error (RegionTag Class Fields) := do
  assert (0 ≤ offset) "offset >= b(0)"
  assert (0 ≤ length) "length >= b(0)"
  return ⟨offset, length, tag⟩

def getStartOffset (this : RegionTag Class Fields) : ℤ := this.offset

def getEndOffset (this : RegionTag Class Fields) : ℤ := this.offset + this.length

def setOffset (this : RegionTag Class Fields) (offset : ℤ) :
    Except Error (RegionTag Class Fields) := do
  assert (0 ≤ offset) "offset >= b(0)"
  if this.offset ≠ offset then
    return ⟨offset, this.length, this.tag.changeRegion (offset - this.offset) 0⟩
  else return this

def setLength (this : RegionTag Class Fields) (length : ℤ) :
    Except Error (RegionTag Class Fields) := do
  assert (0 ≤ length) "length >= b(0)"
  if this.length ≠ length then
    return ⟨this.offset, length, this.tag.changeRegion 0 (length - this.length)⟩
  else return this

/-- One turn of `splitTags`: the region tag and what is inserted for it. -/
def split (offset : ℤ) (f : TagBase Class Fields → Bool) (this : RegionTag Class Fields) :
    Except Error (RegionTag Class Fields × List (RegionTag Class Fields)) :=
  if f this.tag ∧ this.getStartOffset < offset ∧ offset < this.getEndOffset then do
    let otherRegionTag ← this.setOffset offset
    let otherRegionTag ← otherRegionTag.setLength (this.getEndOffset - offset)
    let regionTag ← this.setLength (offset - this.getStartOffset)
    return (regionTag, [otherRegionTag])
  else return (this, [])

/-- One turn of `clearTags`: what stands in the vector for the region tag, and `changed`. -/
def clear (clearStartOffset clearEndOffset : ℤ) (f : TagBase Class Fields → Bool)
    (this : RegionTag Class Fields) : Except Error (List (RegionTag Class Fields) × Bool) :=
  if ¬ f this.tag then return ([this], false)
  else if clearEndOffset ≤ this.getStartOffset ∨ this.getEndOffset ≤ clearStartOffset then
    return ([this], false)
  else if clearStartOffset ≤ this.getStartOffset ∧ this.getEndOffset ≤ clearEndOffset then
    return ([], true)
  else if this.getStartOffset < clearStartOffset ∧ clearEndOffset < this.getEndOffset then do
    let startOffset := this.getStartOffset
    let regionTag ← this.setLength (this.getEndOffset - clearEndOffset)
    let regionTag ← regionTag.setOffset clearEndOffset
    let previousRegionTag ← regionTag.setOffset startOffset
    let previousRegionTag ← previousRegionTag.setLength (clearStartOffset - startOffset)
    return ([previousRegionTag, regionTag], true)
  else if this.getEndOffset ≤ clearEndOffset then do
    return ([← this.setLength (clearStartOffset - this.getStartOffset)], true)
  else if clearStartOffset ≤ this.getStartOffset then do
    let regionTag ← this.setLength (this.getEndOffset - clearEndOffset)
    return ([← regionTag.setOffset clearEndOffset], true)
  else throw (.assertion "false")

/-- One turn of `mapAllTags`: the range and the tag that the function is called with, if it is. -/
def map (startOffset endOffset : ℤ) (this : RegionTag Class Fields) :
    Except Error (List (ℤ × ℤ × TagBase Class Fields)) :=
  if endOffset ≤ this.getStartOffset ∨ this.getEndOffset ≤ startOffset then return []
  else if startOffset ≤ this.getStartOffset ∧ this.getEndOffset ≤ endOffset then
    return [(this.offset, this.length, this.tag)]
  else if this.getStartOffset < startOffset ∧ endOffset < this.getEndOffset then
    return [(startOffset, endOffset - startOffset, this.tag)]
  else if this.getEndOffset ≤ endOffset then
    return [(startOffset, this.getEndOffset - startOffset, this.tag)]
  else if startOffset ≤ this.getStartOffset then
    return [(this.getStartOffset, endOffset - this.getStartOffset, this.tag)]
  else throw (.assertion "false")

end RegionTag

/-- What `std::sort` may do with region tags: any order that agrees with the comparison. -/
structure TagSort (Class Fields : Type) where
  sort : List (RegionTag Class Fields) → List (RegionTag Class Fields)
  perm : ∀ regionTags, (sort regionTags).Perm regionTags
  pairwise : ∀ regionTags, (sort regionTags).Pairwise fun r s => r.offset ≤ s.offset

/-- The region tags in the vector; without a vector there are none. -/
structure SharingRegionTagSet (Class Fields : Type) where
  regionTags : List (RegionTag Class Fields)
  deriving DecidableEq

namespace SharingRegionTagSet

variable (std : TagSort Class Fields) (defaults : Class → Fields)
  (this : SharingRegionTagSet Class Fields)

/-- `addTag` for a tag that exists. -/
def addTagBase (offset length : ℤ) (tag : TagBase Class Fields) :
    Except Error (SharingRegionTagSet Class Fields) := do
  return ⟨this.regionTags ++ [← RegionTag.new offset length tag]⟩

def setTag (index : ℕ) (tag : TagBase Class Fields) : SharingRegionTagSet Class Fields :=
  ⟨this.regionTags.modify index fun regionTag => { regionTag with tag }⟩

/-- `removeTag` for an index. -/
def removeTagAt (index : ℕ) : SharingRegionTagSet Class Fields := ⟨this.regionTags.eraseIdx index⟩

def splitTags (offset : ℤ) (f : TagBase Class Fields → Bool) :
    Except Error (SharingRegionTagSet Class Fields) := do
  let turns ← this.regionTags.mapM (RegionTag.split offset f)
  let regionTags := turns.map Prod.fst
  let insertedRegionTags := turns.flatMap Prod.snd
  if insertedRegionTags ≠ [] then return ⟨std.sort (regionTags ++ insertedRegionTags)⟩
  else return ⟨regionTags⟩

def clearTags (offset length : ℤ) (f : TagBase Class Fields → Bool) :
    Except Error (SharingRegionTagSet Class Fields) := do
  let turns ← this.regionTags.mapM (RegionTag.clear offset (offset + length) f)
  let regionTags := turns.flatMap Prod.fst
  if turns.any Prod.snd then return ⟨std.sort regionTags⟩ else return ⟨regionTags⟩

/-- The calls that `mapAllTags` makes. -/
def mapAllTags (offset length : ℤ) : Except Error (List (ℤ × ℤ × TagBase Class Fields)) := do
  return (← this.regionTags.mapM (RegionTag.map offset (offset + length))).flatten

/-- The part of the source's tags in its range; the source is another set. -/
def copyTags (source : SharingRegionTagSet Class Fields) (sourceOffset offset length : ℤ) :
    Except Error (SharingRegionTagSet Class Fields) := do
  let shift := offset - sourceOffset
  let this ← this.clearTags std offset length fun _ => true
  (← source.mapAllTags sourceOffset length).foldlM (fun this (o, l, tag) =>
    let startOffset := if o < sourceOffset then sourceOffset else o
    let endOffset := if sourceOffset + length < o + l then sourceOffset + length else o + l
    this.addTagBase (startOffset + shift) (endOffset - startOffset) tag) this

/-- `moveTags` for all region tags. -/
def moveAllTags (shift : ℤ) : Except Error (SharingRegionTagSet Class Fields) := do
  return ⟨← this.regionTags.mapM fun regionTag => regionTag.setOffset (regionTag.offset + shift)⟩

def moveTags (offset length shift : ℤ) : Except Error (SharingRegionTagSet Class Fields) := do
  let cutOffset := if 0 < shift then offset else offset + length
  let this ← this.splitTags std cutOffset fun _ => true
  -- the second argument of `clearTags` is a length, the code passes an end
  let this ← if 0 < shift then
      this.clearTags std (offset + length) (offset + length + shift) fun _ => true
    else this.clearTags std (offset - shift) offset fun _ => true
  return ⟨← this.regionTags.mapM fun regionTag =>
    if offset ≤ regionTag.getStartOffset ∧ regionTag.getEndOffset ≤ offset + length then
      regionTag.setOffset (regionTag.offset + shift)
    else return regionTag⟩

variable [DecidableEq Class] (typeInfo : TypeInfo Class)

def hasType (tag : TagBase Class Fields) : Bool := typeInfo = tag.typeInfo

/-- The loop of `getTagIndex`; `none` stands for the index -1. -/
def getTagIndexFrom (offset length : ℤ) :
    List (RegionTag Class Fields) → ℕ → Except Error (Option ℕ)
  | [], _ => return none
  | regionTag :: regionTags, index =>
    if typeInfo ≠ regionTag.tag.typeInfo ∨ offset + length ≤ regionTag.getStartOffset ∨
        regionTag.getEndOffset ≤ offset then
      getTagIndexFrom offset length regionTags (index + 1)
    else if regionTag.offset = offset ∧ regionTag.length = length then return some index
    else throw (.runtime "Overlapping tag is present")

def getTagIndex (offset length : ℤ) : Except Error (Option ℕ) :=
  getTagIndexFrom typeInfo offset length this.regionTags 0

/-- The sweep of `addTagsWhereAbsent` from the offset `o` on: what it puts into the result. -/
def sweep (endOffset : ℤ) (tag : TagBase Class Fields) :
    List (RegionTag Class Fields) → ℤ → Except Error (List (RegionTag Class Fields))
  | [], o => do
    let l := endOffset - o
    if 0 < l then return [← RegionTag.new o l tag] else return []
  | regionTag :: regionTags, o =>
    if typeInfo = regionTag.tag.typeInfo then do
      let l := regionTag.getStartOffset - o
      if 0 < l then
        let l := if endOffset - o < l then endOffset - o else l
        let filled ← RegionTag.new o l tag
        let o := o + l
        let o := if o < regionTag.getEndOffset then regionTag.getEndOffset else o
        -- behind the end of the range the loop is left, and nothing is left to fill
        if endOffset ≤ o then return [filled] else return filled ::
          (← sweep endOffset tag regionTags o)
      else
        let o := if o < regionTag.getEndOffset then regionTag.getEndOffset else o
        if endOffset ≤ o then return [] else sweep endOffset tag regionTags o
    else sweep endOffset tag regionTags o

/-- `addTagsWhereAbsent` for a tag to be copied. -/
def addTagsWhereAbsentBase (offset length : ℤ) (tag : TagBase Class Fields) :
    Except Error (List (RegionTag Class Fields) × SharingRegionTagSet Class Fields) := do
  let result ← sweep typeInfo (offset + length) tag this.regionTags offset
  if result ≠ [] then return (result, ⟨std.sort (this.regionTags ++ result)⟩)
  else return (result, this)

def addTag (offset length : ℤ) :
    Except Error (TagBase Class Fields × SharingRegionTagSet Class Fields) := do
  if (← this.getTagIndex typeInfo offset length) ≠ none then throw (.runtime "Tag '%s' is present")
  let tag := TagBase.makeShared defaults typeInfo
  return (tag, ← this.addTagBase offset length tag)

def findTag (offset length : ℤ) : Except Error (Option (TagBase Class Fields)) := do
  match ← this.getTagIndex typeInfo offset length with
  | none => return none
  | some index => return this.regionTags[index]?.map RegionTag.tag

def addTagIfAbsent (offset length : ℤ) :
    Except Error (TagBase Class Fields × SharingRegionTagSet Class Fields) := do
  match ← this.findTag typeInfo offset length with
  | some tag => return (tag, this)
  | none =>
    let tag := TagBase.makeShared defaults typeInfo
    return (tag, ← this.addTagBase offset length tag)

def addTagsWhereAbsent (offset length : ℤ) :
    Except Error (List (RegionTag Class Fields) × SharingRegionTagSet Class Fields) := do
  let this ← this.splitTags std offset (hasType typeInfo)
  let this ← this.splitTags std (offset + length) (hasType typeInfo)
  this.addTagsWhereAbsentBase std typeInfo offset length (TagBase.makeShared defaults typeInfo)

def removeTag (offset length : ℤ) :
    Except Error (Option (TagBase Class Fields) × SharingRegionTagSet Class Fields) := do
  match ← this.getTagIndex typeInfo offset length with
  | none => throw (.runtime "Tag '%s' is absent")
  | some index => return (this.regionTags[index]?.map RegionTag.tag, this.removeTagAt index)

def getAllTags (offset length : ℤ) : Except Error (List (RegionTag Class Fields)) := do
  let calls ← this.mapAllTags offset length
  (calls.filter fun (_, _, tag) => hasType typeInfo tag).mapM fun (o, l, tag) =>
    RegionTag.new o l tag

def removeTagsWherePresent (offset length : ℤ) :
    Except Error (List (RegionTag Class Fields) × SharingRegionTagSet Class Fields) := do
  let result ← this.getAllTags typeInfo offset length
  return (result, ← this.clearTags std offset length (hasType typeInfo))

end SharingRegionTagSet

end Inet
