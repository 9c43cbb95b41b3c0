import Inet.Common.Error
import Mathlib.Data.BitVec
import Mathlib.Tactic.SplitIfs

/-! # Security associations

Rules, selectors and security associations, the lengths that belong to the
algorithms, and the checks that the configuration of a policy makes.
-/

namespace Inet.Ipsec

inductive Direction where
  | inbound
  | outbound
  deriving DecidableEq, Repr

inductive Action where
  | none
  | discard
  | bypass
  | protect
  deriving DecidableEq, Repr

inductive Protection where
  | none
  | ah
  | esp
  deriving DecidableEq, Repr

inductive EspMode where
  | none
  | integrity
  | confidentiality
  | combined
  deriving DecidableEq, Repr

inductive EncryptionAlg where
  | none
  | des
  | tripleDes
  | aesCbc128 | aesCbc192 | aesCbc256
  | aesGcm16128 | aesGcm16192 | aesGcm16256
  | aesCcm8128 | aesCcm8192 | aesCcm8256
  | aesCcm16128 | aesCcm16192 | aesCcm16256
  | chacha20Poly1305
  deriving DecidableEq, Repr

inductive AuthenticationAlg where
  | none
  | hmacMd596
  | hmacSha1
  | aes128Gmac | aes192Gmac | aes256Gmac
  | hmacSha2256128
  | hmacSha2384192
  | hmacSha2512256
  deriving DecidableEq, Repr

namespace EncryptionAlg

def getIntegrityCheckValueBitLength : EncryptionAlg → ℕ
  | none | des | tripleDes | aesCbc128 | aesCbc192 | aesCbc256 => 0
  | aesCcm8128 | aesCcm8192 | aesCcm8256 => 64
  | aesCcm16128 | aesCcm16192 | aesCcm16256 => 128
  | aesGcm16128 | aesGcm16192 | aesGcm16256 => 128
  | chacha20Poly1305 => 128

def getInitializationVectorBitLength : EncryptionAlg → ℕ
  | none => 0
  | des | tripleDes => 64
  | aesCbc128 | aesCbc192 | aesCbc256 => 128
  | aesCcm8128 | aesCcm8192 | aesCcm8256 | aesCcm16128 | aesCcm16192 | aesCcm16256 => 64
  | aesGcm16128 | aesGcm16192 | aesGcm16256 => 64
  | chacha20Poly1305 => 64

def getBlockSizeBytes : EncryptionAlg → ℕ
  | none => 1
  | des | tripleDes => 8
  | aesCbc128 | aesCbc192 | aesCbc256 => 16
  | aesCcm8128 | aesCcm8192 | aesCcm8256 | aesCcm16128 | aesCcm16192 | aesCcm16256 => 16
  | aesGcm16128 | aesGcm16192 | aesGcm16256 => 16
  | chacha20Poly1305 => 4

end EncryptionAlg

namespace AuthenticationAlg

def getIntegrityCheckValueBitLength : AuthenticationAlg → ℕ
  | none => 0
  | hmacMd596 => 96
  | hmacSha1 => 160
  | aes128Gmac | aes192Gmac | aes256Gmac => 128
  | hmacSha2256128 => 128
  | hmacSha2384192 => 384
  | hmacSha2512256 => 256

def getInitializationVectorBitLength : AuthenticationAlg → ℕ
  | aes128Gmac | aes192Gmac | aes256Gmac => 64
  | _ => 0

end AuthenticationAlg

/-! ## Selectors -/

/-- `rangelist`: ranges with both ends included. -/
abbrev RangeList := List (ℕ × ℕ)

def RangeList.contains (ranges : RangeList) (x : ℕ) : Bool :=
  ranges.any fun r => !decide (x < r.1) && !decide (r.2 < x)

/-- A field of a selector matches when it is empty or contains the value. -/
def RangeList.admits (ranges : RangeList) (x : ℕ) : Bool := ranges.isEmpty || ranges.contains x

def protIcmp : BitVec 8 := 1

def protTcp : BitVec 8 := 6

def protUdp : BitVec 8 := 17

def protEsp : BitVec 8 := 50

def protAh : BitVec 8 := 51

def protNone : BitVec 8 := 59

/-- The addresses of one family, which an instance protects. -/
abbrev L3Address := ℕ

structure PacketInfo where
  localAddress : L3Address
  remoteAddress : L3Address
  nextProtocol : BitVec 8
  localPort : ℕ := 0
  remotePort : ℕ := 0
  icmpType : ℕ := 0
  icmpCode : ℕ := 0
  dscp : ℕ := 0
  tfcSupported : Bool := false
  deriving DecidableEq, Repr

structure PacketSelector where
  localAddress : RangeList := []
  remoteAddress : RangeList := []
  nextProtocol : RangeList := []
  localPort : RangeList := []
  remotePort : RangeList := []
  icmpType : RangeList := []
  icmpCode : RangeList := []
  deriving DecidableEq, Repr

def PacketSelector.matches (selector : PacketSelector) (packet : PacketInfo) : Bool :=
  selector.localAddress.admits packet.localAddress &&
  selector.remoteAddress.admits packet.remoteAddress &&
  selector.nextProtocol.admits packet.nextProtocol.toNat &&
  if packet.nextProtocol = protUdp ∨ packet.nextProtocol = protTcp then
    selector.localPort.admits packet.localPort && selector.remotePort.admits packet.remotePort
  else if packet.nextProtocol = protIcmp then
    selector.icmpType.admits packet.icmpType && selector.icmpCode.admits packet.icmpCode
  else true

/-! ## Rules and associations -/

structure IPsecRule where
  direction : Direction
  selector : PacketSelector
  action : Action
  protection : Protection := .none
  espMode : EspMode := .none
  encryptionAlg : EncryptionAlg := .none
  authenticationAlg : AuthenticationAlg := .none
  maxTfcPadLength : ℕ := 0
  deriving DecidableEq, Repr

/-- Without a byte lifetime `hardLifetimeBytes` is `-1`. -/
structure SecurityAssociation where
  rule : IPsecRule
  spi : BitVec 32
  seqNum : BitVec 32 := 0
  hardLifetimeEnd : ℤ := 2 ^ 63 - 1
  hardLifetimeBytes : ℤ := -1
  bytesProcessed : ℤ := 0
  dscps : RangeList := []
  deriving DecidableEq, Repr

namespace SecurityAssociation

def isUsable (sa : SecurityAssociation) (now : ℤ) (bytes : ℕ) : Bool :=
  decide (now < sa.hardLifetimeEnd) &&
    (decide (sa.hardLifetimeBytes < 0) ||
      decide (sa.bytesProcessed + bytes ≤ sa.hardLifetimeBytes))

def matchesDscp (sa : SecurityAssociation) (dscp : ℕ) : Bool := sa.dscps.admits dscp

def addBytesProcessed (sa : SecurityAssociation) (bytes : ℕ) : SecurityAssociation :=
  { sa with bytesProcessed := sa.bytesProcessed + bytes }

/-- The counter after `incrementAndGetSeqNum`. -/
def incrementSeqNum (sa : SecurityAssociation) : SecurityAssociation :=
  { sa with seqNum := sa.seqNum + 1 }

end SecurityAssociation

/-- A policy with the places of its associations in the association database. -/
structure SecurityPolicy where
  rule : IPsecRule
  entries : List ℕ
  deriving DecidableEq, Repr

/-! ## The configuration -/

/-- The rule of a `SecurityPolicy`, from the values of its elements. Only a policy with the action
PROTECT reads its protection, and only one with ESP the elements of ESP. -/
def policyRule (elements : IPsecRule) : Except Error IPsecRule := do
  let rule : IPsecRule :=
    { direction := elements.direction, selector := elements.selector, action := elements.action }
  if elements.action ≠ .protect then pure rule
  else if elements.protection = .esp then
    if (elements.espMode = .confidentiality ∨ elements.espMode = .combined) ∧
        elements.encryptionAlg = .none then
      throw (.runtime ("Cannot set encryptionAlg=NONE if confidentiality was requested in " ++
        "espMode, at %s"))
    if elements.espMode = .integrity ∧ elements.authenticationAlg = .none then
      throw (.runtime "Cannot set authenticationAlg=NONE if espMode=INTEGRITY is selected, at %s")
    if elements.espMode = .combined ∧ elements.authenticationAlg = .none ∧
        elements.encryptionAlg.getIntegrityCheckValueBitLength = 0 then
      throw (.runtime ("No authenticationAlg set and EncryptionAlg %s does not provide " ++
        "authentication, required by EspMode=COMBINED, at %s"))
    pure elements
  else if elements.protection = .ah then
    if elements.authenticationAlg = .none then
      throw (.runtime "Cannot set authenticationAlg=NONE for AH protection, at %s")
    pure { rule with protection := .ah, authenticationAlg := elements.authenticationAlg }
  else pure { rule with protection := elements.protection }

/-- The rule of an association, which may override the protection and the selector of its
policy. -/
def associationRule (policy : IPsecRule) (protection : Option Protection)
    (selector : PacketSelector) : Except Error IPsecRule :=
  match protection with
  | none => pure { policy with selector }
  | some protection => do
    if protection = .ah ∧ policy.authenticationAlg = .none then
      throw (.runtime ("An AH SA needs an AuthenticationAlg other than NONE in its " ++
        "SecurityPolicy, at %s"))
    if protection = .esp ∧ policy.espMode = .none then
      throw (.runtime "An ESP SA needs the EspMode of an ESP SecurityPolicy, at %s")
    pure { policy with protection, selector }

/-- The configuration check admits an association with the rule. -/
def Configured (rule : IPsecRule) : Prop :=
  ∃ elements policy protection selector, elements.action = .protect ∧
    policyRule elements = .ok policy ∧ associationRule policy protection selector = .ok rule

/-- What the configuration check says about an ESP association. -/
structure EspConfigured (rule : IPsecRule) : Prop where
  encryption : rule.espMode = .confidentiality ∨ rule.espMode = .combined →
    rule.encryptionAlg ≠ .none
  authentication : rule.espMode = .integrity → rule.authenticationAlg ≠ .none
  combined : rule.espMode = .combined → rule.authenticationAlg = .none →
    rule.encryptionAlg.getIntegrityCheckValueBitLength ≠ 0

theorem policyRule_esp {elements policy : IPsecRule} (haction : elements.action = .protect)
    (h : policyRule elements = .ok policy)
    (hmode : policy.protection = .esp ∨ policy.espMode ≠ .none) :
    EspConfigured policy := by
  simp only [policyRule, haction, ne_eq, not_true_eq_false, if_false] at h
  split_ifs at h <;> cases h
  · rename_i hconf hint hcomb
    exact ⟨fun hm he => hconf ⟨hm, he⟩, fun hm ha => hint ⟨hm, ha⟩,
      fun hm ha hi => hcomb ⟨hm, ha, hi⟩⟩
  · rcases hmode with hmode | hmode
    · cases hmode
    · exact absurd rfl hmode
  · rename_i hesp _
    rcases hmode with hmode | hmode
    · exact absurd hmode hesp
    · exact absurd rfl hmode

theorem Configured.esp {rule : IPsecRule} (h : Configured rule) (hesp : rule.protection = .esp) :
    EspConfigured rule := by
  obtain ⟨elements, policy, protection, selector, haction, hpolicy, hrule⟩ := h
  cases protection with
  | none =>
    cases hrule
    have := policyRule_esp haction hpolicy (.inl hesp)
    exact ⟨this.encryption, this.authentication, this.combined⟩
  | some protection =>
    simp only [associationRule] at hrule
    split_ifs at hrule <;> cases hrule
    rename_i _ hmode
    have := policyRule_esp haction hpolicy (.inr fun hm => hmode ⟨hesp, hm⟩)
    exact ⟨this.encryption, this.authentication, this.combined⟩

end Inet.Ipsec
