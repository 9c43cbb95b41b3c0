import Inet.Tcp.Header
import Inet.Tcp.ReceivedRanges

/-! # The SACK option of the data receiver

A connection remembers the blocks that it has reported. Each option repeats
them behind the block of the segment that triggered the acknowledgement, or
behind a D-SACK block, as far as there is space.
-/

namespace Inet.Tcp

namespace SackItem

def empty (this : SackItem) : Bool := this.start = 0 ∧ this.stop = 0

def contains (this other : SackItem) : Bool :=
  seqLE this.start other.start ∧ seqLE other.stop this.stop

end SackItem

/-- `getHeaderOptionArrayLength`, in bytes. -/
def TcpHeader.getHeaderOptionArrayLength (this : TcpHeader) : ℕ :=
  this.headerOption.foldl (fun usedLength option => (usedLength + option.length) % 2 ^ 16) 0

def TcpHeader.appendHeaderOption (this : TcpHeader) (option : TcpOption) : TcpHeader :=
  { this with headerOption := this.headerOption ++ [option] }

/-- `TcpOptionNop`. -/
def optionNop : TcpOption := ⟨1, 1, .nop⟩

/-- `TcpOptionSack` with its items. -/
def optionSack (sackItem : List SackItem) : TcpOption :=
  ⟨5, 8 * sackItem.length + 2, .sack sackItem⟩

/-- `TCP_OPTIONS_MAX_SIZE`, in bytes. -/
def optionsMaxSize : ℕ := 40

/-- `TCP_OPTION_SACK_MIN_SIZE`, in bytes. -/
def optionSackMinSize : ℕ := 10

/-- The variables of a connection that `addSacks` uses. -/
structure SackState where
  rcv_nxt : Seq
  start_seqno : Seq
  end_seqno : Seq
  snd_sack : Bool
  snd_dsack : Bool
  dsack_enabled : Bool
  sacks_array : List SackItem
  snd_sacks : BitVec 32
  deriving DecidableEq, Repr

namespace SackState

def resetFlags (state : SackState) : SackState :=
  { state with snd_sack := false, snd_dsack := false, start_seqno := 0, end_seqno := 0 }

/-- The call is to report a D-SACK block. -/
def reportsDsack (state : SackState) : Bool :=
  state.start_seqno ≠ state.end_seqno ∧ state.dsack_enabled ∧ state.snd_dsack

/-- The loop that deletes the blocks below `rcv_nxt`. -/
def deleteOld (rcv_nxt : Seq) : List SackItem → Except Error (List SackItem)
  | [] => return []
  | sack :: sacks =>
    if seqLE sack.stop rcv_nxt || sack.empty then
      deleteOld rcv_nxt sacks
    else do
      assert (seqGE sack.start rcv_nxt) "seqGE(it->getStart(), state->rcv_nxt)"
      return sack :: (← deleteOld rcv_nxt sacks)

/-- The D-SACK block of the call. It ends at `rcv_nxt` if that is in the range. -/
def dsackBlock (state : SackState) : SackItem :=
  if seqLess state.start_seqno state.rcv_nxt && seqLess state.rcv_nxt state.end_seqno then
    ⟨state.start_seqno, state.rcv_nxt⟩
  else ⟨state.start_seqno, state.end_seqno⟩

/-- The block of the queue with the range that triggered the acknowledgement. -/
def sackBlock (state : SackState) (receiveQueue : ReceivedRanges) : SackItem :=
  ⟨receiveQueue.getLE state.start_seqno, receiveQueue.getRE state.end_seqno⟩

/-- The inner loop: the blocks that a block contains are deleted. -/
def deleteContainedIn (sack : SackItem) (sacks : List SackItem) : List SackItem :=
  sacks.filter fun other => !sack.contains other

/-- The loop that deletes the blocks that an earlier one contains. -/
def deleteContained : List SackItem → Except Error (List SackItem)
  | [] => return []
  | sack :: sacks => do
    assert (!sack.empty) "!it->empty()"
    return sack :: (← deleteContained (deleteContainedIn sack sacks))
termination_by sacks => sacks.length
decreasing_by
  exact Nat.lt_succ_of_le (List.length_filter_le _ _)

/-- The new block goes to the front, and the contained ones are deleted. A D-SACK block is left
out of that. -/
def insertBlock (state : SackState) (receiveQueue : ReceivedRanges) (sacks : List SackItem) :
    Except Error (List SackItem) :=
  if state.start_seqno ≠ state.end_seqno then
    if state.dsack_enabled && state.snd_dsack then do
      return state.dsackBlock :: (← deleteContained sacks)
    else if seqGreater state.end_seqno state.rcv_nxt then
      deleteContained (state.sackBlock receiveQueue :: sacks)
    else
      deleteContained sacks
  else
    return sacks

/-- The length that the loop for the alignment counts up to: the next one that is 2 modulo 4. -/
def alignedLength (used_options_len : ℕ) : ℕ := (used_options_len + 1) / 4 * 4 + 2

/-- The check of the loop that writes the blocks to the option. -/
def checkItems : List SackItem → Except Error Unit
  | [] => return ()
  | sack :: sacks => do
    assert (sack.start ≠ sack.stop) "it->getStart() != it->getEnd()"
    checkItems sacks

/-- The option with its blocks, behind the NOPs that align it. -/
def appendSackOption (alignOptions : Bool) (tcpHeader : TcpHeader) (items : List SackItem) :
    Except Error TcpHeader := do
  let used_options_len := tcpHeader.getHeaderOptionArrayLength
  let alignedLen := if alignOptions then alignedLength used_options_len else used_options_len
  let tcpHeader := { tcpHeader with
    headerOption := tcpHeader.headerOption ++
      List.replicate (alignedLen - used_options_len) optionNop }
  assert (alignOptions → alignedLen % 4 = 2) "used_options_len.get<B>() % 4 == 2"
  checkItems items
  assert (alignedLen + 8 * items.length + 2 ≤ optionsMaxSize) "options_len <= TCP_OPTIONS_MAX_SIZE"
  let tcpHeader := tcpHeader.appendHeaderOption (optionSack items)
  return { tcpHeader with
    headerLength := minHeaderLength + tcpHeader.getHeaderOptionArrayLength }

/-- `addSacks`, when AccECN is not in use: the state and the header afterwards. -/
def addSacks (alignOptions : Bool) (state : SackState) (receiveQueue : ReceivedRanges)
    (tcpHeader : TcpHeader) : Except Error (SackState × TcpHeader) := do
  let used_options_len := tcpHeader.getHeaderOptionArrayLength
  let sacks ← deleteOld state.rcv_nxt state.sacks_array
  if used_options_len > optionsMaxSize - optionSackMinSize then
    return ({ state with sacks_array := sacks }.resetFlags, tcpHeader)
  else
    let sacks ← state.insertBlock receiveQueue sacks
    let maxnode := (optionsMaxSize - used_options_len - 2) / 8
    let n := min sacks.length maxnode
    -- the D-SACK block is not kept for the next option
    let kept := if state.reportsDsack then sacks.tail else sacks
    if n = 0 then
      return ({ state with sacks_array := kept }.resetFlags, tcpHeader)
    else
      let tcpHeader ← appendSackOption alignOptions tcpHeader (sacks.take n)
      let state := { state with
        sacks_array := kept
        snd_sacks := state.snd_sacks + BitVec.ofNat 32 n }
      return (state.resetFlags, tcpHeader)

end SackState

end Inet.Tcp
