import Inet.Ipv4.InterfaceData
import Mathlib.Data.BitVec

/-! # The optimizer of static routes

The network configurator merges routes with the same action into one with a
shorter prefix. It keeps track of the routes that carry the destinations of
the original ones, and checks these only.
-/

namespace Inet.Ipv4NetworkConfigurator

open Ipv4

/-- A route of the list that is optimized. The interface and the source type are opaque. -/
structure Ipv4Route (I S : Type) where
  destination : Ipv4Address
  netmask : Ipv4Address
  gateway : Ipv4Address
  interface : I
  sourceType : S
  metric : ℤ
  deriving DecidableEq, Repr

/-- An original route, as it is attached to the current ones. -/
structure OriginalRouteInfo where
  color : ℕ
  destination : Ipv4Address
  netmask : Ipv4Address
  deriving DecidableEq, Repr

structure RouteInfo where
  color : ℕ
  enabled : Bool
  destination : Ipv4Address
  netmask : Ipv4Address
  originalRouteInfos : List OriginalRouteInfo
  deriving DecidableEq, Repr

/-- The condition of `findBestMatchingRouteInfo`. -/
def RouteInfo.isMatching (this : RouteInfo) (destination : Ipv4Address) : Bool :=
  this.enabled && (destination ^^^ this.destination) &&& this.netmask == 0

def routeInfoLessThan (a b : RouteInfo) : Bool :=
  if a.netmask ≠ b.netmask then b.netmask.toNat < a.netmask.toNat
  else a.destination.toNat < b.destination.toNat

/-- `findBestMatchingRouteInfo`, the member function: it passes on no beginning. -/
def findBestMatchingRouteInfo (routeInfos : List RouteInfo) (destination : Ipv4Address)
    (_begin end' : ℕ) : Option RouteInfo :=
  (routeInfos.take end').find? fun routeInfo => routeInfo.isMatching destination

/-- The index that `std::upper_bound` finds. -/
def upperBound (routeInfos : List RouteInfo) (routeInfo : RouteInfo) : ℕ :=
  routeInfos.findIdx fun other => routeInfoLessThan routeInfo other

/-- `addRouteInfo`: the index of the route and the table with it. -/
def addRouteInfo (routeInfos : List RouteInfo) (routeInfo : RouteInfo) : ℕ × List RouteInfo :=
  (upperBound routeInfos routeInfo,
    routeInfos.insertIdx (upperBound routeInfos routeInfo) routeInfo)

def routesCanBeSwapped (routeInfo1 routeInfo2 : RouteInfo) : Bool :=
  if routeInfo1.color = routeInfo2.color then true
  else
    let netmask := routeInfo1.netmask &&& routeInfo2.netmask
    (routeInfo1.destination &&& netmask) ≠ (routeInfo2.destination &&& netmask)

/-- `routesCanBeNeighbors` of the route at an index and one behind it. -/
def routesCanBeNeighbors (routeInfos : List RouteInfo) (i j : ℕ) : Bool :=
  match routeInfos[j]? with
  | some beginRouteInfo =>
    ((routeInfos.take i).drop (j + 1)).all fun routeInfo =>
      routesCanBeSwapped beginRouteInfo routeInfo
  | none => false

def interruptsOriginalRoute (routeInfos : List RouteInfo) (begin end' : ℕ)
    (originalRouteInfo : OriginalRouteInfo) : Bool :=
  match findBestMatchingRouteInfo routeInfos originalRouteInfo.destination begin end' with
  | some matchingRouteInfo => matchingRouteInfo.color ≠ originalRouteInfo.color
  | none => false

def interruptsAnyOriginalRoute (routeInfos : List RouteInfo) (begin end' : ℕ)
    (originalRouteInfos : List OriginalRouteInfo) : Bool :=
  begin < end' ∧ originalRouteInfos.any (interruptsOriginalRoute routeInfos begin end')

def interruptsSubsequentOriginalRoutes (routeInfos : List RouteInfo) (index : ℕ) : Bool :=
  (routeInfos.drop (index + 1)).any fun routeInfo =>
    interruptsAnyOriginalRoute routeInfos index (index + 1) routeInfo.originalRouteInfos

/-- The loop of `findLongestCommonDestinationPrefix` over the bits below an index. -/
def commonPrefixLoop (destination1 netmask1 destination2 netmask2 : Ipv4Address) :
    ℕ → Ipv4Address × Ipv4Address → Ipv4Address × Ipv4Address
  | 0, out => out
  | bitIndex + 1, (destinationOut, netmaskOut) =>
    let mask := BitVec.twoPow 32 bitIndex
    if destination1 &&& mask = destination2 &&& mask ∧ netmask1 &&& mask ≠ 0 ∧
        netmask2 &&& mask ≠ 0 then
      commonPrefixLoop destination1 netmask1 destination2 netmask2 bitIndex
        (destinationOut ||| (destination1 &&& mask), netmaskOut ||| mask)
    else (destinationOut, netmaskOut)

/-- `findLongestCommonDestinationPrefix`: the destination and the netmask. -/
def findLongestCommonDestinationPrefix
    (destination1 netmask1 destination2 netmask2 : Ipv4Address) : Ipv4Address × Ipv4Address :=
  commonPrefixLoop destination1 netmask1 destination2 netmask2 32 (0, 0)

/-- One turn of `addOriginalRouteInfos`: the best matching one of the routes gets the original
route. -/
def addOriginalRouteInfo (originalRouteInfo : OriginalRouteInfo) :
    List RouteInfo → Except Error (List RouteInfo)
  | [] => throw (.assertion
      "matchingRouteInfo && matchingRouteInfo->color == originalRouteInfo->color")
  | routeInfo :: routeInfos =>
    if routeInfo.isMatching originalRouteInfo.destination then do
      assert (routeInfo.color = originalRouteInfo.color)
        "matchingRouteInfo && matchingRouteInfo->color == originalRouteInfo->color"
      return { routeInfo with
        originalRouteInfos := routeInfo.originalRouteInfos ++ [originalRouteInfo] } :: routeInfos
    else do
      return routeInfo :: (← addOriginalRouteInfo originalRouteInfo routeInfos)

/-- `addOriginalRouteInfos`; the search begins with the first route, whatever the beginning. -/
def addOriginalRouteInfos (routeInfos : List RouteInfo) (_begin end' : ℕ)
    (originalRouteInfos : List OriginalRouteInfo) : Except Error (List RouteInfo) := do
  let matching ← originalRouteInfos.foldlM (fun routeInfos originalRouteInfo =>
    addOriginalRouteInfo originalRouteInfo routeInfos) (routeInfos.take end')
  return matching ++ routeInfos.drop end'

/-- The loop that moves original routes from the routes behind the merged one to that one. -/
def moveOriginalRouteInfos (mergedRouteInfo : RouteInfo) :
    List RouteInfo → Except Error (RouteInfo × List RouteInfo)
  | [] => return (mergedRouteInfo, [])
  | followingRouteInfo :: routeInfos => do
    let moves := fun originalRouteInfo : OriginalRouteInfo =>
      (originalRouteInfo.destination ^^^ mergedRouteInfo.destination) &&&
        mergedRouteInfo.netmask == 0
    let moved := followingRouteInfo.originalRouteInfos.filter moves
    assert (∀ originalRouteInfo ∈ moved, mergedRouteInfo.color = originalRouteInfo.color)
      "mergedRouteInfo->color == originalRouteInfo->color"
    let (mergedRouteInfo, routeInfos) ← moveOriginalRouteInfos { mergedRouteInfo with
      originalRouteInfos := mergedRouteInfo.originalRouteInfos ++ moved } routeInfos
    return (mergedRouteInfo, { followingRouteInfo with
      originalRouteInfos := followingRouteInfo.originalRouteInfos.filter fun originalRouteInfo =>
        !moves originalRouteInfo } :: routeInfos)

def RouteInfo.setEnabled (enabled : Bool) (this : RouteInfo) : RouteInfo :=
  { this with enabled := enabled }

/-- The merged route of two. -/
def mergedRouteInfo (routeInfoI routeInfoJ : RouteInfo) : RouteInfo :=
  let (destination, netmask) := findLongestCommonDestinationPrefix routeInfoI.destination
    routeInfoI.netmask routeInfoJ.destination routeInfoJ.netmask
  ⟨routeInfoI.color, true, destination, netmask, []⟩

/-- The table with the merged route at an index, if the merge interrupts no original route: the
original routes are attached to the routes that match them. -/
def mergeAt (routeInfos : List RouteInfo) (i j m : ℕ) (routeInfoI routeInfoJ : RouteInfo) :
    Except Error (List RouteInfo) := do
  let routeInfos ← addOriginalRouteInfos routeInfos (i + 1) (m + 1) routeInfoI.originalRouteInfos
  let routeInfos ← addOriginalRouteInfos routeInfos (j + 1) (m + 1) routeInfoJ.originalRouteInfos
  match routeInfos[m]? with
  | some mergedRouteInfo =>
    let (mergedRouteInfo, following) ←
      moveOriginalRouteInfos mergedRouteInfo (routeInfos.drop (m + 1))
    return ((routeInfos.take m ++ mergedRouteInfo :: following).eraseIdx i).eraseIdx j
  | none => throw (.undefinedBehavior "no merged route")

/-- The checks that a merge does not change how the original routes are routed. -/
def keepsOriginalRoutes (routeInfos : List RouteInfo) (i j m : ℕ)
    (routeInfoI routeInfoJ : RouteInfo) : Bool :=
  !interruptsAnyOriginalRoute routeInfos (j + 1) i routeInfoJ.originalRouteInfos &&
    !interruptsAnyOriginalRoute routeInfos (i + 1) m routeInfoJ.originalRouteInfos &&
    !interruptsAnyOriginalRoute routeInfos (i + 1) m routeInfoI.originalRouteInfos &&
    !interruptsSubsequentOriginalRoutes routeInfos m

/-- `tryToMergeTwoRoutes`: whether the routes have been merged, and the table afterwards. -/
def tryToMergeTwoRoutes (routeInfos : List RouteInfo) (i j : ℕ)
    (routeInfoI routeInfoJ : RouteInfo) : Except Error (Bool × List RouteInfo) := do
  assert (routeInfoI.color = routeInfoJ.color) "routeInfoI->color == routeInfoJ->color"
  let disabled := (routeInfos.modify i (·.setEnabled false)).modify j (·.setEnabled false)
  let (m, added) := addRouteInfo disabled (mergedRouteInfo routeInfoI routeInfoJ)
  assert (m > i ∧ m > j) "m > i && m > j"
  if keepsOriginalRoutes added i j m routeInfoI routeInfoJ then
    return (true, ← mergeAt added i j m routeInfoI routeInfoJ)
  else
    return (false, ((added.modify i (·.setEnabled true)).modify j (·.setEnabled true)).eraseIdx m)

/-- The pairs of indices in the order of the loops of `tryToMergeAnyTwoRoutes`. -/
def indexPairs (size : ℕ) : List (ℕ × ℕ) :=
  (List.range size).flatMap fun i => (List.range i).reverse.map fun j => (i, j)

/-- The loops of `tryToMergeAnyTwoRoutes`. They end with the first merge. -/
def tryPairs (routeInfos : List RouteInfo) :
    List (ℕ × ℕ) → Except Error (Bool × List RouteInfo)
  | [] => return (false, routeInfos)
  | (i, j) :: pairs =>
    match routeInfos[i]?, routeInfos[j]? with
    | some routeInfoI, some routeInfoJ =>
      if routeInfoI.color = routeInfoJ.color ∧ routesCanBeNeighbors routeInfos i j then do
        let (merged, routeInfos) ← tryToMergeTwoRoutes routeInfos i j routeInfoI routeInfoJ
        if merged then return (true, routeInfos) else tryPairs routeInfos pairs
      else tryPairs routeInfos pairs
    | _, _ => throw (.undefinedBehavior "std::out_of_range")

def tryToMergeAnyTwoRoutes (routeInfos : List RouteInfo) : Except Error (Bool × List RouteInfo) :=
  tryPairs routeInfos (indexPairs routeInfos.length)

/-- The optimizer loop, for at most the given number of rounds. -/
def mergeLoop : ℕ → List RouteInfo → Except Error (Option (List RouteInfo))
  | 0, _ => return none
  | rounds + 1, routeInfos => do
    let (merged, routeInfos) ← tryToMergeAnyTwoRoutes routeInfos
    if merged then mergeLoop rounds routeInfos else return some routeInfos

variable {I S : Type} [DecidableEq I] [DecidableEq S]

def routesHaveSameColor (route1 route2 : Ipv4Route I S) : Bool :=
  route1.sourceType = route2.sourceType ∧ route1.metric = route2.metric ∧
    route1.gateway = route2.gateway ∧ route1.interface = route2.interface

/-- The color of a route: the first index in `colorToRoute` with the same action, or that at which
the route is added. -/
def findRouteIndexWithSameColor (routes : List (Ipv4Route I S)) (route : Ipv4Route I S) : ℕ :=
  routes.findIdx fun other => routesHaveSameColor other route

/-- The first step: `colorToRoute` and the original routes with their colors. -/
def colorRoutes (colorToRoute : List (Ipv4Route I S)) :
    List (Ipv4Route I S) → List (Ipv4Route I S) × List OriginalRouteInfo
  | [] => (colorToRoute, [])
  | originalRoute :: originalRoutes =>
    let color := findRouteIndexWithSameColor colorToRoute originalRoute
    let colorToRoute :=
      if color = colorToRoute.length then colorToRoute ++ [originalRoute] else colorToRoute
    let (colorToRoute', originalRouteInfos) := colorRoutes colorToRoute originalRoutes
    (colorToRoute', ⟨color, originalRoute.destination, originalRoute.netmask⟩ :: originalRouteInfos)

/-- A route of the optimizer that is the given original one. -/
def OriginalRouteInfo.toRouteInfo (this : OriginalRouteInfo)
    (originalRouteInfos : List OriginalRouteInfo) : RouteInfo :=
  ⟨this.color, true, this.destination, this.netmask, originalRouteInfos⟩

/-- The table of the original routes, and the one to be optimized. -/
def initialTable (originalRouteInfos : List OriginalRouteInfo)
    (attached : OriginalRouteInfo → List OriginalRouteInfo) : List RouteInfo :=
  originalRouteInfos.foldl (fun routeInfos originalRouteInfo =>
    (addRouteInfo routeInfos (originalRouteInfo.toRouteInfo (attached originalRouteInfo))).2) []

/-- `checkOriginalRoutes`, for the original routes in the table of these. -/
def checkOriginalRoutes (routeInfos originalTable : List RouteInfo) :
    List RouteInfo → Except Error Unit
  | [] => return ()
  | originalRouteInfo :: originalRouteInfos => do
    let destination := originalRouteInfo.destination
    let matchingRouteInfo :=
      findBestMatchingRouteInfo routeInfos destination 0 routeInfos.length
    let matchingOriginalRouteInfo :=
      findBestMatchingRouteInfo originalTable destination 0 originalTable.length
    assert (matchingRouteInfo.isSome ∧
        matchingRouteInfo.map RouteInfo.color = matchingOriginalRouteInfo.map RouteInfo.color)
      "matchingRouteInfo && matchingRouteInfo->color == matchingOriginalRouteInfo->color"
    checkOriginalRoutes routeInfos originalTable originalRouteInfos

/-- The routes that `optimizeRoutes` works with: the table of the original routes, and the result of
its loop with all checks, for at most the given number of rounds. -/
def optimizeTable (rounds : ℕ) (originalRouteInfos : List OriginalRouteInfo) :
    Except Error (Option (List RouteInfo)) := do
  let originalTable := initialTable originalRouteInfos fun _ => []
  let routeInfos := initialTable originalRouteInfos fun originalRouteInfo => [originalRouteInfo]
  checkOriginalRoutes routeInfos originalTable originalTable
  match ← mergeLoop rounds routeInfos with
  | some routeInfos => do
    checkOriginalRoutes routeInfos originalTable originalTable
    return some routeInfos
  | none => return none

/-- The third step: a route with the action of its color. -/
def toIpv4Route (colorToRoute : List (Ipv4Route I S)) (routeInfo : RouteInfo) :
    Option (Ipv4Route I S) :=
  colorToRoute[routeInfo.color]?.map fun routeColor =>
    { routeColor with destination := routeInfo.destination, netmask := routeInfo.netmask }

/-- `optimizeRoutes`, with at most the given number of rounds. -/
def optimizeRoutes (rounds : ℕ) (originalRoutes : List (Ipv4Route I S)) :
    Except Error (Option (List (Ipv4Route I S))) := do
  let (colorToRoute, originalRouteInfos) := colorRoutes [] originalRoutes
  match ← optimizeTable rounds originalRouteInfos with
  | some routeInfos => return some (routeInfos.filterMap (toIpv4Route colorToRoute))
  | none => return none

end Inet.Ipv4NetworkConfigurator
