import Inet.Applications.DhcpServer

/-! # Assignments of a DHCP server

No address is assigned twice as long as the clients only request addresses of
the pool that nobody declined and nobody else had acknowledged: a request for
any other address is granted as well.
-/

namespace Inet.Dhcp

open Ipv4 (Ipv4Address)

/-- A message that arrives at a time on an interface. -/
structure Arrival where
  now : ℤ
  inputInterfaceId : ℤ
  msg : DhcpMessage

/-- What the messages so far were about: the addresses acknowledged to selecting clients, and the
addresses declined. -/
structure History where
  acknowledged : List (Ipv4Address × MacAddress)
  declined : List Ipv4Address

def History.empty : History := ⟨[], []⟩

/-- Whether the server handles a message of a type. -/
def Handles (server : DhcpServer) (arrival : Arrival) (messageType : DhcpMessageType) : Prop :=
  arrival.inputInterfaceId = server.interfaceId ∧ arrival.msg.op = BOOTREQUEST ∧
    arrival.msg.options.messageType = messageType

instance (server : DhcpServer) (arrival : Arrival) (messageType : DhcpMessageType) :
    Decidable (Handles server arrival messageType) := inferInstanceAs (Decidable (_ ∧ _))

/-- The addresses that a message adds to those acknowledged to selecting clients. -/
def acknowledgedBy (server : DhcpServer) (arrival : Arrival) :
    Option SentMessage → List (Ipv4Address × MacAddress)
  | none => []
  | some sent =>
    if sent.message.options.messageType = DHCPACK ∧ server.isSelecting arrival.msg = true then
      [(sent.message.yiaddr, sent.message.chaddr)]
    else []

def declinedBy (server : DhcpServer) (arrival : Arrival) : List Ipv4Address :=
  if Handles server arrival DHCPDECLINE ∧
      Ipv4Address.isUnspecified arrival.msg.options.requestedIp = false then
    [arrival.msg.options.requestedIp]
  else []

def DhcpServer.process (server : DhcpServer) (arrival : Arrival) :
    DhcpServer × Option SentMessage :=
  server.processDhcpMessage arrival.now arrival.inputInterfaceId arrival.msg

def History.after (h : History) (server : DhcpServer) (arrival : Arrival) : History where
  acknowledged := h.acknowledged ++ acknowledgedBy server arrival (server.process arrival).2
  declined := h.declined ++ declinedBy server arrival

namespace DhcpServer

variable (server : DhcpServer)

/-- The pool is `ipAddressStart .. ipAddressStart + maxNumOfClients - 1`. -/
def InPool (address : Ipv4Address) : Prop :=
  (address - server.ipAddressStart).toNat < server.maxNumOfClients.toNat

instance (address : Ipv4Address) : Decidable (server.InPool address) :=
  inferInstanceAs (Decidable (_ < _))

/-- A hardware address other than the unspecified one owns at most one entry. -/
def OneEntryEach : Prop :=
  ∀ (a b : Ipv4Address) (lease lease' : DhcpLease), server.leased[a]? = some lease →
    server.leased[b]? = some lease' → lease.mac = lease'.mac → lease.mac ≠ 0 → a = b

/-- The address is of the pool, it was not declined, and it was acknowledged to nobody else. -/
def Assignable (h : History) (address : Ipv4Address) (mac : MacAddress) : Prop :=
  server.InPool address ∧ address ∉ h.declined ∧
    ∀ entry ∈ h.acknowledged, entry.1 = address → entry.2 = mac

instance (h : History) (address : Ipv4Address) (mac : MacAddress) :
    Decidable (server.Assignable h address mac) :=
  have : Decidable (∀ entry ∈ h.acknowledged, entry.1 = address → entry.2 = mac) :=
    List.decidableBAll _ _
  inferInstanceAs (Decidable (_ ∧ _ ∧ _))

/-- An offer that the message leads to is for an address that can be assigned. -/
def OffersAssignable (h : History) (arrival : Arrival) : Prop :=
  ∀ sent, (server.process arrival).2 = some sent →
    sent.message.options.messageType = DHCPOFFER →
      server.Assignable h sent.message.yiaddr sent.message.chaddr

instance (h : History) (arrival : Arrival) : Decidable (server.OffersAssignable h arrival) :=
  match hreply : (server.process arrival).2 with
  | none => isTrue fun sent hsent => by
      rw [hreply] at hsent
      cases hsent
  | some sent =>
    decidable_of_iff (sent.message.options.messageType = DHCPOFFER →
      server.Assignable h sent.message.yiaddr sent.message.chaddr)
      (by simp only [OffersAssignable, hreply, Option.some.injEq, forall_eq'])

/-- In every state of the run and at every message of it. -/
def NeverTwice : DhcpServer → History → List Arrival → Prop
  | server, _, [] => server.OneEntryEach
  | server, h, arrival :: arrivals =>
    server.OneEntryEach ∧ server.OffersAssignable h arrival ∧
      NeverTwice (server.process arrival).1 (h.after server arrival) arrivals

/-- A discover message of a client without a lease requests no address, or one that can be
assigned to it; the lease of a client that has one is not for a declined address. -/
def CarefulDiscover (h : History) (msg : DhcpMessage) : Prop :=
  match server.getLeaseByMac msg.chaddr with
  | none => Ipv4Address.isUnspecified msg.options.requestedIp = true ∨
      server.Assignable h msg.options.requestedIp msg.chaddr
  | some (address, _) => address ∉ h.declined

instance (h : History) (msg : DhcpMessage) : Decidable (server.CarefulDiscover h msg) :=
  match hget : server.getLeaseByMac msg.chaddr with
  | none =>
    decidable_of_iff (Ipv4Address.isUnspecified msg.options.requestedIp = true ∨
      server.Assignable h msg.options.requestedIp msg.chaddr) (by rw [CarefulDiscover, hget])
  | some (address, _) => decidable_of_iff (address ∉ h.declined) (by rw [CarefulDiscover, hget])

def Careful : DhcpServer → History → List Arrival → Prop
  | _, _, [] => True
  | server, h, arrival :: arrivals =>
    (Handles server arrival DHCPDISCOVER → server.CarefulDiscover h arrival.msg) ∧
      Careful (server.process arrival).1 (h.after server arrival) arrivals

instance decidableCareful : ∀ server h arrivals, Decidable (Careful server h arrivals)
  | _, _, [] => isTrue trivial
  | server, h, arrival :: arrivals =>
    have := decidableCareful (server.process arrival).1 (h.after server arrival) arrivals
    inferInstanceAs (Decidable (_ ∧ _))

/-- What holds as long as every offer could be made. -/
structure Valid (h : History) : Prop where
  ip_eq : ∀ (a : Ipv4Address) (lease : DhcpLease), server.leased[a]? = some lease → lease.ip = a
  leased_eq : ∀ (a : Ipv4Address) (lease : DhcpLease), server.leased[a]? = some lease →
    lease.leased = true
  oneEntryEach : server.OneEntryEach
  inPool : ∀ a lease, server.leased[a]? = some lease → a ∉ h.declined → server.InPool a
  declined : ∀ a ∈ h.declined, ∃ lease, server.leased[a]? = some lease ∧ lease.mac = 0
  acknowledged : ∀ a mac, (a, mac) ∈ h.acknowledged →
    ∃ lease, server.leased[a]? = some lease ∧ (a ∉ h.declined → lease.mac = mac)

variable {server} {h : History} {key address : Ipv4Address} {lease lease' : DhcpLease}
  {mac : MacAddress} {msg : DhcpMessage}

theorem valid_of_start {p : StartParameters} (h : handleStartOperation p = .ok server) :
    server.Valid .empty := by
  have hnone : ∀ a : Ipv4Address, server.leased[a]? = none := by
    intro a
    rw [handleStartOperation] at h
    split at h
    · cases h
    · split at h
      · cases h
      · cases h
        exact Std.ExtTreeMap.getElem?_empty
  constructor
  · rintro a lease ha
    rw [hnone] at ha
    cases ha
  · rintro a lease ha
    rw [hnone] at ha
    cases ha
  · rintro a b lease lease' ha
    rw [hnone] at ha
    cases ha
  · rintro a lease ha
    rw [hnone] at ha
    cases ha
  · rintro a ha
    cases ha
  · rintro a mac ha
    cases ha

theorem getLeaseByMac_eq_some (h : server.getLeaseByMac mac = some (key, lease)) :
    server.leased[key]? = some lease ∧ lease.mac = mac := by
  constructor
  · exact Std.ExtTreeMap.mem_toList_iff_getElem?_eq_some.1 (List.mem_of_find?_eq_some h)
  · simpa using List.find?_some h

theorem getLeaseByMac_eq_none (h : server.getLeaseByMac mac = none)
    (ha : server.leased[address]? = some lease) : lease.mac ≠ mac := by
  have hall := List.find?_eq_none.1 h _ (Std.ExtTreeMap.mem_toList_iff_getElem?_eq_some.2 ha)
  simpa using hall

@[simp] theorem leased_setLease (a : Ipv4Address) :
    (server.setLease key lease).leased[a]? = if a = key then some lease else server.leased[a]? :=
  OrderedMap.getElem?_insert ..

theorem cases_of_leased_setLease {a : Ipv4Address} {l : DhcpLease}
    (ha : (server.setLease key lease).leased[a]? = some l) :
    (a = key ∧ l = lease) ∨ (a ≠ key ∧ server.leased[a]? = some l) := by
  rw [leased_setLease] at ha
  by_cases heq : a = key
  · rw [if_pos heq, Option.some.injEq] at ha
    exact .inl ⟨heq, ha.symm⟩
  · rw [if_neg heq] at ha
    exact .inr ⟨heq, ha⟩

/-! ## What a message does to the table -/

theorem Valid.ip_eq_setLease (hv : server.Valid h) (hip : lease.ip = key) (a : Ipv4Address)
    (l : DhcpLease) (ha : (server.setLease key lease).leased[a]? = some l) : l.ip = a := by
  rcases cases_of_leased_setLease ha with ⟨rfl, rfl⟩ | ⟨-, ha⟩
  · exact hip
  · exact hv.ip_eq a l ha

theorem Valid.leased_eq_setLease (hv : server.Valid h) (hleased : lease.leased = true)
    (a : Ipv4Address) (l : DhcpLease) (ha : (server.setLease key lease).leased[a]? = some l) :
    l.leased = true := by
  rcases cases_of_leased_setLease ha with ⟨-, rfl⟩ | ⟨-, ha⟩
  · exact hleased
  · exact hv.leased_eq a l ha

theorem Valid.renew (hv : server.Valid h) (hkey : server.leased[key]? = some lease)
    (hip : lease'.ip = lease.ip) (hmac : lease'.mac = lease.mac) (hleased : lease'.leased = true) :
    (server.setLease key lease').Valid h := by
  have hold : ∀ (a : Ipv4Address) (l : DhcpLease),
      (server.setLease key lease').leased[a]? = some l →
        ∃ l', server.leased[a]? = some l' ∧ l.mac = l'.mac := by
    intro a l ha
    rcases cases_of_leased_setLease ha with ⟨rfl, rfl⟩ | ⟨-, ha⟩
    · exact ⟨lease, hkey, hmac⟩
    · exact ⟨l, ha, rfl⟩
  have hnew : ∀ (a : Ipv4Address) (l : DhcpLease), server.leased[a]? = some l →
      ∃ l', (server.setLease key lease').leased[a]? = some l' ∧ l'.mac = l.mac := by
    intro a l ha
    rw [leased_setLease]
    by_cases heq : a = key
    · subst heq
      obtain rfl : lease = l := Option.some.inj (hkey.symm.trans ha)
      exact ⟨lease', if_pos rfl, hmac⟩
    · exact ⟨l, by rw [if_neg heq, ha], rfl⟩
  constructor
  · exact hv.ip_eq_setLease (hip.trans (hv.ip_eq _ _ hkey))
  · exact hv.leased_eq_setLease hleased
  · intro a b l₁ l₂ ha hb heq hne
    obtain ⟨l₁', ha', hmac₁⟩ := hold a l₁ ha
    obtain ⟨l₂', hb', hmac₂⟩ := hold b l₂ hb
    rw [hmac₁] at heq hne
    rw [hmac₂] at heq
    exact hv.oneEntryEach a b l₁' l₂' ha' hb' heq hne
  · intro a l ha
    obtain ⟨l', ha', -⟩ := hold a l ha
    exact hv.inPool a l' ha'
  · intro a ha
    obtain ⟨l, hl, hzero⟩ := hv.declined a ha
    obtain ⟨l', hl', hmac'⟩ := hnew a l hl
    exact ⟨l', hl', hmac'.trans hzero⟩
  · intro a mac ha
    obtain ⟨l, hl, hm⟩ := hv.acknowledged a mac ha
    obtain ⟨l', hl', hmac'⟩ := hnew a l hl
    exact ⟨l', hl', fun hd => hmac'.trans (hm hd)⟩

theorem Valid.acknowledge (hv : server.Valid h) (hkey : server.leased[key]? = some lease)
    (hmac : lease.mac = mac) :
    server.Valid { h with acknowledged := h.acknowledged ++ [(key, mac)] } where
  ip_eq := hv.ip_eq
  leased_eq := hv.leased_eq
  oneEntryEach := hv.oneEntryEach
  inPool := hv.inPool
  declined := hv.declined
  acknowledged a owner ha := by
    rcases List.mem_append.1 ha with ha | ha
    · exact hv.acknowledged a owner ha
    · obtain ⟨rfl, rfl⟩ := Prod.mk.inj (List.mem_singleton.1 ha)
      exact ⟨lease, hkey, fun _ => hmac⟩

theorem Valid.create (hv : server.Valid h)
    (hnone : ∀ (a : Ipv4Address) (l : DhcpLease), server.leased[a]? = some l → l.mac ≠ lease.mac)
    (hassign : server.Assignable h key lease.mac) (hip : lease.ip = key)
    (hleased : lease.leased = true) : (server.setLease key lease).Valid h := by
  obtain ⟨hpool, hdeclined, howner⟩ := hassign
  constructor
  · exact hv.ip_eq_setLease hip
  · exact hv.leased_eq_setLease hleased
  · intro a b l₁ l₂ ha hb heq hne
    rcases cases_of_leased_setLease ha with ⟨rfl, rfl⟩ | ⟨-, ha'⟩ <;>
      rcases cases_of_leased_setLease hb with ⟨rfl, rfl⟩ | ⟨-, hb'⟩
    · rfl
    · exact absurd heq.symm (hnone b l₂ hb')
    · exact absurd heq (hnone a l₁ ha')
    · exact hv.oneEntryEach a b l₁ l₂ ha' hb' heq hne
  · intro a l ha hnd
    rcases cases_of_leased_setLease ha with ⟨rfl, -⟩ | ⟨-, ha⟩
    · exact hpool
    · exact hv.inPool a l ha hnd
  · intro a ha
    obtain ⟨l, hl, hzero⟩ := hv.declined a ha
    have heq : a ≠ key := by
      rintro rfl
      exact hdeclined ha
    exact ⟨l, by rw [leased_setLease, if_neg heq, hl], hzero⟩
  · intro a mac ha
    by_cases heq : a = key
    · subst heq
      exact ⟨lease, by rw [leased_setLease, if_pos rfl], fun _ => (howner _ ha rfl).symm⟩
    · obtain ⟨l, hl, hm⟩ := hv.acknowledged a mac ha
      exact ⟨l, by rw [leased_setLease, if_neg heq, hl], hm⟩

theorem Valid.decline (hv : server.Valid h) (hip : lease.ip = key) (hmac : lease.mac = 0)
    (hleased : lease.leased = true) :
    (server.setLease key lease).Valid { h with declined := h.declined ++ [key] } := by
  have hne : ∀ {a}, a ∉ h.declined ++ [key] → a ∉ h.declined ∧ a ≠ key := by
    intro a ha
    simpa using ha
  constructor
  · exact hv.ip_eq_setLease hip
  · exact hv.leased_eq_setLease hleased
  · intro a b l₁ l₂ ha hb heq hzero
    rcases cases_of_leased_setLease ha with ⟨rfl, rfl⟩ | ⟨-, ha⟩
    · exact absurd hmac hzero
    · rcases cases_of_leased_setLease hb with ⟨rfl, rfl⟩ | ⟨-, hb'⟩
      · exact absurd (heq.trans hmac) hzero
      · exact hv.oneEntryEach a b l₁ l₂ ha hb' heq hzero
  · intro a l ha hnd
    rcases cases_of_leased_setLease ha with ⟨rfl, -⟩ | ⟨-, ha⟩
    · exact absurd rfl (hne hnd).2
    · exact hv.inPool a l ha (hne hnd).1
  · intro a ha
    by_cases heq : a = key
    · exact ⟨lease, by rw [leased_setLease, if_pos heq], hmac⟩
    · have ha : a ∈ h.declined := by simpa [heq] using ha
      obtain ⟨l, hl, hzero⟩ := hv.declined a ha
      exact ⟨l, by rw [leased_setLease, if_neg heq, hl], hzero⟩
  · intro a mac ha
    by_cases heq : a = key
    · refine ⟨lease, by rw [leased_setLease, if_pos heq], fun hnd => ?_⟩
      exact absurd heq (hne hnd).2
    · obtain ⟨l, hl, hm⟩ := hv.acknowledged a mac ha
      exact ⟨l, by rw [leased_setLease, if_neg heq, hl], fun hnd => hm (hne hnd).1⟩

theorem Valid.firstAvailable_eq (hv : server.Valid h) {n i : ℕ}
    (hn : i + n ≤ server.maxNumOfClients.toNat)
    (hfirst : server.firstAvailable n i = some (key, lease)) :
    server.InPool key ∧ server.leased[key]? = none ∧ lease = server.newLease key := by
  induction n generalizing i with
  | zero => cases hfirst
  | succ n ih =>
    rw [firstAvailable] at hfirst
    cases hget : server.leased[server.ipAddressStart + BitVec.ofNat 32 i]? with
    | some l =>
      simp only [hget, hv.leased_eq _ _ hget, Bool.not_true, Bool.false_eq_true, if_false] at hfirst
      exact ih (by omega) hfirst
    | none =>
      simp only [hget, Option.some.injEq, Prod.mk.injEq] at hfirst
      obtain ⟨rfl, rfl⟩ := hfirst
      refine ⟨?_, hget, rfl⟩
      have hlt := server.maxNumOfClients.isLt
      rw [InPool, BitVec.add_comm, BitVec.add_sub_cancel, BitVec.toNat_ofNat,
        Nat.mod_eq_of_lt (by omega)]
      omega

/-! ## One message -/

/-- The state and the reply that offer a lease of the table. -/
def Offers (key : Ipv4Address) (lease : DhcpLease) (result : DhcpServer × Option SentMessage) :
    Prop :=
  result.1 = server.setLease key lease ∧ ∃ sent, result.2 = some sent ∧
    sent.message.options.messageType = DHCPOFFER ∧ sent.message.yiaddr = lease.ip ∧
      sent.message.chaddr = lease.mac

theorem offers_sendOffer (now : ℤ) (lease : DhcpLease) :
    server.Offers key { lease with leaseTime := now } (server.sendOffer now key lease msg) :=
  ⟨rfl, _, rfl, rfl, rfl, rfl⟩

theorem offers_ownLease (now : ℤ) (lease : DhcpLease) :
    ∃ lease', lease'.ip = lease.ip ∧ lease'.mac = lease.mac ∧ lease'.leased = lease.leased ∧
      server.Offers key lease' (server.sendOffer now key { lease with xid := msg.xid.toNat } msg) :=
  ⟨{ lease with xid := msg.xid.toNat, leaseTime := now }, rfl, rfl, rfl, offers_sendOffer now _⟩

theorem offers_newLease (now : ℤ) :
    ∃ lease, lease.ip = key ∧ lease.mac = msg.chaddr ∧ lease.leased = true ∧
      server.Offers key lease (server.sendOffer now key
        { server.newLease key with mac := msg.chaddr, xid := msg.xid.toNat, leased := true } msg) :=
  ⟨_, rfl, rfl, rfl, offers_sendOffer now _⟩

theorem Valid.handleDiscover_cases (hv : server.Valid h) (now : ℤ) (msg : DhcpMessage) :
    (server.handleDiscover now msg = (server, none) ∧ server.getLeaseByMac msg.chaddr = none ∧
      Ipv4Address.isUnspecified msg.options.requestedIp = true) ∨
    (∃ key lease lease', server.getLeaseByMac msg.chaddr = some (key, lease) ∧
      lease'.ip = lease.ip ∧ lease'.mac = lease.mac ∧ lease'.leased = lease.leased ∧
      server.Offers key lease' (server.handleDiscover now msg)) ∨
    (∃ key lease, server.getLeaseByMac msg.chaddr = none ∧
      lease.ip = key ∧ lease.mac = msg.chaddr ∧ lease.leased = true ∧
      server.Offers key lease (server.handleDiscover now msg) ∧
      ((Ipv4Address.isUnspecified msg.options.requestedIp = false ∧
        key = msg.options.requestedIp) ∨
      (Ipv4Address.isUnspecified msg.options.requestedIp = true ∧ server.InPool key ∧
        server.leased[key]? = none))) := by
  rw [handleDiscover]
  cases hget : server.getLeaseByMac msg.chaddr with
  | some r =>
    obtain ⟨key, lease⟩ := r
    obtain ⟨lease', hip, hmac, hleased, hoffers⟩ := offers_ownLease now lease
    exact .inr (.inl ⟨key, lease, lease', rfl, hip, hmac, hleased, hoffers⟩)
  | none =>
    cases hreq : Ipv4Address.isUnspecified msg.options.requestedIp with
    | false =>
      have havailable : server.getAvailableLease msg.options.requestedIp =
          some (msg.options.requestedIp, server.newLease msg.options.requestedIp) := by
        rw [getAvailableLease, hreq, Bool.not_false, if_pos rfl]
        cases hl : server.leased[msg.options.requestedIp]? with
        | none => rfl
        | some l => simp [hv.leased_eq _ _ hl]
      rw [havailable]
      obtain ⟨lease, hip, hmac, hleased, hoffers⟩ := offers_newLease now
      exact .inr (.inr ⟨_, lease, rfl, hip, hmac, hleased, hoffers, .inl ⟨rfl, rfl⟩⟩)
    | true =>
      have havailable : server.getAvailableLease msg.options.requestedIp =
          server.firstAvailable server.maxNumOfClients.toNat 0 := by
        rw [getAvailableLease, hreq, Bool.not_true, if_neg Bool.false_ne_true]
      rw [havailable]
      cases hfirst : server.firstAvailable server.maxNumOfClients.toNat 0 with
      | none => exact .inl ⟨rfl, rfl, rfl⟩
      | some r =>
        obtain ⟨key, lease⟩ := r
        obtain ⟨hpool, hnone, rfl⟩ := hv.firstAvailable_eq (by omega) hfirst
        obtain ⟨lease, hip, hmac, hleased, hoffers⟩ := offers_newLease now
        exact .inr (.inr ⟨key, lease, rfl, hip, hmac, hleased, hoffers, .inr ⟨rfl, hpool, hnone⟩⟩)

theorem Valid.assignable_own (hv : server.Valid h) (hkey : server.leased[key]? = some lease)
    (hd : key ∉ h.declined) : server.Assignable h key lease.mac := by
  refine ⟨hv.inPool key lease hkey hd, hd, ?_⟩
  rintro ⟨key, owner⟩ howner rfl
  obtain ⟨l, hl, hmac⟩ := hv.acknowledged key owner howner
  obtain rfl : lease = l := Option.some.inj (hkey.symm.trans hl)
  exact (hmac hd).symm

theorem Valid.assignable_free (hv : server.Valid h) (hpool : server.InPool key)
    (hnone : server.leased[key]? = none) : server.Assignable h key mac := by
  refine ⟨hpool, ?_, ?_⟩
  · intro hd
    obtain ⟨l, hl, -⟩ := hv.declined key hd
    rw [hnone] at hl
    cases hl
  · rintro ⟨key, owner⟩ howner rfl
    obtain ⟨l, hl, -⟩ := hv.acknowledged key owner howner
    rw [hnone] at hl
    cases hl

section Message

variable {arrival : Arrival}

theorem process_discover (hd : Handles server arrival DHCPDISCOVER) :
    server.process arrival = server.handleDiscover arrival.now arrival.msg := by
  obtain ⟨hid, hop, htype⟩ := hd
  rw [process, processDhcpMessage, if_neg (not_not.2 hid), if_pos hop, if_pos htype]

theorem History.after_of_quiet
    (hreply : ∀ sent, (server.process arrival).2 = some sent →
      sent.message.options.messageType ≠ DHCPACK)
    (hdecline : ¬ Handles server arrival DHCPDECLINE) : h.after server arrival = h := by
  have hack : acknowledgedBy server arrival (server.process arrival).2 = [] := by
    cases hr : (server.process arrival).2 with
    | none => rfl
    | some sent => exact if_neg fun hs => hreply sent hr hs.1
  have hdecl : declinedBy server arrival = [] := if_neg fun hs => hdecline hs.1
  rw [History.after, hack, hdecl, List.append_nil, List.append_nil]

theorem History.after_discover (hd : Handles server arrival DHCPDISCOVER) (hv : server.Valid h) :
    h.after server arrival = h := by
  apply History.after_of_quiet
  · rw [process_discover hd]
    rintro sent hsent
    rcases hv.handleDiscover_cases arrival.now arrival.msg with
      ⟨hr, -⟩ | ⟨key, lease, lease', -, -, -, -, -, sent', hr, htype, -⟩ |
      ⟨key, lease, -, -, -, -, ⟨-, sent', hr, htype, -⟩, -⟩
    · rw [hr] at hsent
      cases hsent
    · obtain rfl := Option.some.inj (hsent.symm.trans hr)
      rw [htype]
      decide
    · obtain rfl := Option.some.inj (hsent.symm.trans hr)
      rw [htype]
      decide
  · rintro ⟨-, -, htype⟩
    rw [hd.2.2] at htype
    cases htype

theorem Valid.offersAssignable_iff (hv : server.Valid h)
    (hd : Handles server arrival DHCPDISCOVER) :
    server.OffersAssignable h arrival ↔ server.CarefulDiscover h arrival.msg := by
  rw [OffersAssignable, process_discover hd, CarefulDiscover]
  rcases hv.handleDiscover_cases arrival.now arrival.msg with
    ⟨hr, hget, hreq⟩ | ⟨key, lease, lease', hget, hip, hmac, -, -, sent, hr, htype, hy, hc⟩ |
    ⟨key, lease, hget, hip, hmac, -, ⟨-, sent, hr, htype, hy, hc⟩, hcase⟩
  · rw [hr, hget]
    constructor
    · exact fun _ => .inl hreq
    · rintro - sent hsent
      cases hsent
  · obtain ⟨hkey, -⟩ := getLeaseByMac_eq_some hget
    have hyk : sent.message.yiaddr = key := by rw [hy, hip, hv.ip_eq key lease hkey]
    rw [hr, hget]
    constructor
    · intro hall
      have hassign := hall sent rfl htype
      rw [hyk] at hassign
      exact hassign.2.1
    · rintro hnd sent' hsent -
      obtain rfl := Option.some.inj hsent
      rw [hyk, hc, hmac]
      exact hv.assignable_own hkey hnd
  · rw [hr, hget]
    constructor
    · intro hall
      have hassign := hall sent rfl htype
      rw [hy, hc, hip, hmac] at hassign
      rcases hcase with ⟨-, rfl⟩ | ⟨hreq, -⟩
      · exact .inr hassign
      · exact .inl hreq
    · rintro hcareful sent' hsent -
      obtain rfl := Option.some.inj hsent
      rw [hy, hc, hip, hmac]
      rcases hcase with ⟨hreq, rfl⟩ | ⟨-, hpool, hnone⟩
      · rcases hcareful with hun | hassign
        · rw [hreq] at hun
          cases hun
        · exact hassign
      · exact hv.assignable_free hpool hnone

theorem Valid.after_discover (hv : server.Valid h) (hd : Handles server arrival DHCPDISCOVER)
    (hcareful : server.CarefulDiscover h arrival.msg) :
    (server.process arrival).1.Valid (h.after server arrival) := by
  have hassign := (hv.offersAssignable_iff hd).2 hcareful
  rw [History.after_discover hd hv]
  rw [OffersAssignable] at hassign
  rw [process_discover hd] at hassign ⊢
  rcases hv.handleDiscover_cases arrival.now arrival.msg with
    ⟨hr, -⟩ | ⟨key, lease, lease', hget, hip, hmac, hleased, hs, -⟩ |
    ⟨key, lease, hget, hip, hmac, hleased, ⟨hs, sent, hr, htype, hy, hc⟩, -⟩
  · rw [hr]
    exact hv
  · obtain ⟨hkey, -⟩ := getLeaseByMac_eq_some hget
    rw [hs]
    exact hv.renew hkey hip hmac (hleased.trans (hv.leased_eq key lease hkey))
  · have ha := hassign sent hr htype
    rw [hy, hc, hip] at ha
    rw [hs]
    apply hv.create _ ha hip hleased
    intro a l hl
    rw [hmac]
    exact getLeaseByMac_eq_none hget hl

/-- A request is refused or ignored, or the lease that it is for is granted. -/
def Requested (now : ℤ) (msg : DhcpMessage) (result : DhcpServer × Option SentMessage) : Prop :=
  (result.1 = server ∧ ∀ sent, result.2 = some sent →
    sent.message.options.messageType = DHCPNAK) ∨
  ∃ key lease, server.leased[key]? = some lease ∧ result = server.grant now key lease msg

theorem requested_sendNak (now : ℤ) : server.Requested now msg (server.sendNak msg) := by
  refine .inl ⟨rfl, ?_⟩
  rintro sent hsent
  obtain rfl := Option.some.inj hsent
  rfl

theorem requested_none (now : ℤ) : server.Requested now msg (server, none) :=
  .inl ⟨rfl, fun _ hsent => nomatch hsent⟩

theorem requested_handleSelecting (now : ℤ) :
    server.Requested now msg (server.handleSelecting now msg) := by
  rw [handleSelecting]
  cases hget : server.getLeaseByMac msg.chaddr with
  | none => exact requested_sendNak now
  | some r =>
    obtain ⟨key, lease⟩ := r
    by_cases hip : lease.ip ≠ msg.options.requestedIp
    · simp only [if_pos hip]
      exact requested_sendNak now
    · simp only [if_neg hip]
      exact .inr ⟨key, lease, (getLeaseByMac_eq_some hget).1, rfl⟩

theorem requested_handleInitReboot (now : ℤ) :
    server.Requested now msg (server.handleInitReboot now msg) := by
  rw [handleInitReboot]
  by_cases hnet : (!maskedAddrAreEqual msg.options.requestedIp server.ipAddressStart
      server.subnetMask) = true
  · simp only [if_pos hnet]
    exact requested_sendNak now
  · simp only [if_neg hnet]
    cases hget : server.leased[msg.options.requestedIp]? with
    | none => exact requested_none now
    | some lease =>
      by_cases hsame : maskedAddrAreEqual msg.options.requestedIp lease.ip server.subnetMask = true
      · simp only [if_pos hsame]
        exact .inr ⟨_, lease, hget, rfl⟩
      · simp only [if_neg hsame]
        exact requested_sendNak now

theorem requested_handleRenewing (now : ℤ) :
    server.Requested now msg (server.handleRenewing now msg) := by
  rw [handleRenewing]
  cases hget : server.leased[msg.ciaddr]? with
  | none => exact requested_sendNak now
  | some lease => exact .inr ⟨_, lease, hget, rfl⟩

theorem process_other (hnd : ¬ Handles server arrival DHCPDISCOVER) :
    (Handles server arrival DHCPDECLINE ∧
      server.process arrival = server.handleDecline arrival.msg) ∨
    (¬ Handles server arrival DHCPDECLINE ∧
      server.Requested arrival.now arrival.msg (server.process arrival)) := by
  rw [process, processDhcpMessage]
  by_cases hid : arrival.inputInterfaceId ≠ server.interfaceId
  · rw [if_pos hid]
    exact .inr ⟨fun hd => hid hd.1, requested_none _⟩
  rw [if_neg hid]
  by_cases hop : arrival.msg.op = BOOTREQUEST
  · rw [if_pos hop, if_neg fun htype => hnd ⟨not_not.1 hid, hop, htype⟩]
    by_cases hrequest : arrival.msg.options.messageType = DHCPREQUEST
    · rw [if_pos hrequest]
      have hdecline : ¬ Handles server arrival DHCPDECLINE := by
        rintro ⟨-, -, htype⟩
        rw [hrequest] at htype
        cases htype
      refine .inr ⟨hdecline, ?_⟩
      by_cases hselecting : server.isSelecting arrival.msg = true
      · rw [if_pos hselecting]
        exact requested_handleSelecting _
      · rw [if_neg hselecting]
        by_cases hciaddr : Ipv4Address.isUnspecified arrival.msg.ciaddr = true
        · rw [if_pos hciaddr]
          exact requested_handleInitReboot _
        · rw [if_neg hciaddr]
          exact requested_handleRenewing _
    · rw [if_neg hrequest]
      by_cases hdecline : arrival.msg.options.messageType = DHCPDECLINE
      · rw [if_pos hdecline]
        exact .inl ⟨⟨not_not.1 hid, hop, hdecline⟩, rfl⟩
      · rw [if_neg hdecline]
        exact .inr ⟨fun hd => hdecline hd.2.2, requested_none _⟩
  · rw [if_neg hop]
    exact .inr ⟨fun hd => hop hd.2.1, requested_none _⟩

theorem no_offer_of_other (hnd : ¬ Handles server arrival DHCPDISCOVER) {sent : SentMessage}
    (hsent : (server.process arrival).2 = some sent) :
    sent.message.options.messageType ≠ DHCPOFFER := by
  rcases process_other hnd with ⟨-, hprocess⟩ | ⟨-, ⟨-, hnak⟩ | ⟨key, lease, -, hprocess⟩⟩
  · rw [hprocess, handleDecline] at hsent
    by_cases hun : (!Ipv4Address.isUnspecified arrival.msg.options.requestedIp) = true
    · simp only [if_pos hun] at hsent
      cases hsent
    · simp only [if_neg hun] at hsent
      cases hsent
  · rw [hnak sent hsent]
    decide
  · rw [hprocess] at hsent
    obtain rfl := Option.some.inj hsent
    exact (by decide : DHCPACK ≠ DHCPOFFER)

theorem Valid.after_grant (hv : server.Valid h) (hkey : server.leased[key]? = some lease)
    (hdecline : ¬ Handles server arrival DHCPDECLINE)
    (hprocess : server.process arrival = server.grant arrival.now key lease arrival.msg) :
    (server.process arrival).1.Valid (h.after server arrival) := by
  have hdecl : declinedBy server arrival = [] := if_neg fun hs => hdecline hs.1
  have hack : acknowledgedBy server arrival (server.process arrival).2 =
      if server.isSelecting arrival.msg = true then [(key, lease.mac)] else [] := by
    rw [hprocess, ← hv.ip_eq key lease hkey]
    simp only [grant, sendAck, acknowledgedBy, leaseOptions, true_and]
  rw [History.after, hack, hdecl, List.append_nil, hprocess]
  have hset : ((server.grant arrival.now key lease arrival.msg).1).Valid h :=
    hv.renew hkey rfl rfl rfl
  by_cases hselecting : server.isSelecting arrival.msg = true
  · rw [if_pos hselecting]
    have hkey' : (server.grant arrival.now key lease arrival.msg).1.leased[key]? = some _ :=
      (leased_setLease key).trans (if_pos rfl)
    exact hset.acknowledge hkey' rfl
  · rw [if_neg hselecting, List.append_nil]
    exact hset

theorem Valid.after_decline (hv : server.Valid h) (hdecline : Handles server arrival DHCPDECLINE)
    (hprocess : server.process arrival = server.handleDecline arrival.msg) :
    (server.process arrival).1.Valid (h.after server arrival) := by
  rw [History.after, hprocess, handleDecline]
  cases hun : Ipv4Address.isUnspecified arrival.msg.options.requestedIp with
  | true =>
    have hdecl : declinedBy server arrival = [] := if_neg fun hs => by
      rw [hs.2] at hun
      cases hun
    simpa [acknowledgedBy, hdecl, hun] using hv
  | false =>
    have hdecl : declinedBy server arrival = [arrival.msg.options.requestedIp] :=
      if_pos ⟨hdecline, hun⟩
    rw [hdecl]
    simp only [Bool.not_false, if_true, acknowledgedBy, List.append_nil]
    exact hv.decline rfl rfl rfl

theorem Valid.after_other (hv : server.Valid h) (hnd : ¬ Handles server arrival DHCPDISCOVER) :
    (server.process arrival).1.Valid (h.after server arrival) := by
  rcases process_other hnd with ⟨hdecline, hprocess⟩ |
    ⟨hdecline, ⟨hserver, hnak⟩ | ⟨key, lease, hkey, hprocess⟩⟩
  · exact hv.after_decline hdecline hprocess
  · have hquiet : h.after server arrival = h := by
      apply History.after_of_quiet _ hdecline
      rintro sent hsent
      rw [hnak sent hsent]
      decide
    rw [hserver, hquiet]
    exact hv
  · exact hv.after_grant hkey hdecline hprocess

/-! ## Runs -/

theorem Valid.neverTwice_iff (hv : server.Valid h) (arrivals : List Arrival) :
    server.NeverTwice h arrivals ↔ server.Careful h arrivals := by
  induction arrivals generalizing server h with
  | nil => exact ⟨fun _ => trivial, fun _ => hv.oneEntryEach⟩
  | cons arrival arrivals ih =>
    rw [NeverTwice, Careful]
    by_cases hd : Handles server arrival DHCPDISCOVER
    · rw [hv.offersAssignable_iff hd]
      constructor
      · rintro ⟨-, hcareful, hrest⟩
        exact ⟨fun _ => hcareful, (ih (hv.after_discover hd hcareful)).1 hrest⟩
      · rintro ⟨hcareful, hrest⟩
        exact ⟨hv.oneEntryEach, hcareful hd, (ih (hv.after_discover hd (hcareful hd))).2 hrest⟩
    · have hoffers : server.OffersAssignable h arrival :=
        fun sent hsent htype => absurd htype (no_offer_of_other hd hsent)
      rw [ih (hv.after_other hd)]
      constructor
      · rintro ⟨-, -, hrest⟩
        exact ⟨fun h => absurd h hd, hrest⟩
      · rintro ⟨-, hrest⟩
        exact ⟨hv.oneEntryEach, hoffers, hrest⟩

end Message

/-- After an accepted start, no address is assigned twice exactly when the discover messages are
careful. -/
theorem neverTwice_iff_careful (p : StartParameters) (server : DhcpServer)
    (hstart : handleStartOperation p = .ok server) (arrivals : List Arrival) :
    server.NeverTwice .empty arrivals ↔ server.Careful .empty arrivals :=
  (valid_of_start hstart).neverTwice_iff arrivals

/-! ## A request for an address that is leased -/

/-- A server at 10.0.0.1/24 with ten addresses from 10.0.0.100 on. -/
def exampleParameters : StartParameters where
  interfaceId := 1
  interfaceAddress := 0x0A000001
  netmask := 0xFFFFFF00
  maxNumClients := 10
  leaseTime := 3600
  gateway := none
  numReservedAddresses := 100

def exampleServer : DhcpServer where
  leased := ∅
  maxNumOfClients := 10
  leaseTime := 3600
  subnetMask := 0xFFFFFF00
  gateway := 0x0A000001
  ipAddressStart := 0x0A000064
  interfaceId := 1
  interfaceAddress := 0x0A000001

def exampleArrival (messageType : DhcpMessageType) (chaddr : MacAddress)
    (requestedIp serverIdentifier : Ipv4Address) : Arrival where
  now := 0
  inputInterfaceId := 1
  msg :=
    { op := BOOTREQUEST
      chaddr := chaddr
      options :=
        { messageType := messageType
          requestedIp := requestedIp
          serverIdentifier := serverIdentifier } }

theorem example_start : handleStartOperation exampleParameters = .ok exampleServer := by
  rw [handleStartOperation, if_neg (by decide), if_neg (by decide)]
  rfl

/-- Two clients get an address each, both of the pool. -/
theorem neverTwice_iff_careful_example :
    exampleServer.NeverTwice .empty
      [exampleArrival DHCPDISCOVER 0x0AAA00000001 0 0,
        exampleArrival DHCPDISCOVER 0x0AAA00000002 0x0A000069 0] :=
  (neverTwice_iff_careful exampleParameters exampleServer example_start _).2 (by decide +kernel)

/-- A client requests the address that another client has been granted, and is offered it. -/
theorem requested_address_assigned_twice :
    handleStartOperation exampleParameters = .ok exampleServer ∧
      ¬ exampleServer.NeverTwice .empty
        [exampleArrival DHCPDISCOVER 0x0AAA00000001 0 0,
          exampleArrival DHCPREQUEST 0x0AAA00000001 0x0A000064 0x0A000001,
          exampleArrival DHCPDISCOVER 0x0AAA00000002 0x0A000064 0] := by
  refine ⟨example_start, ?_⟩
  rintro ⟨-, -, -, -, -, hoffer, -⟩
  exact absurd hoffer (by decide +kernel)

end DhcpServer

end Inet.Dhcp
