import Inet.Ipsec.SecurityAssociation
import Mathlib.Data.Rat.Floor
import Mathlib.Tactic.SplitIfs

/-! # The delay of protected packets

Each direction has a time until which it is busy. A packet that is delayed, or
that finds its direction busy, is kept in a self-message and reinjected later.
An inbound ESP packet that is kept takes its time from the outbound direction.
Without one, the packets of a direction leave in order, at times that are
theirs alone.
-/

namespace Inet.Ipsec

/-- `SimTime(seconds)`: the nearest count of picoseconds. -/
def simTimeOf (seconds : ℚ) : ℤ := ⌊seconds * 1000000000000 + 1 / 2⌋

theorem simTimeOf_nonneg {seconds : ℚ} (h : 0 ≤ seconds) : 0 ≤ simTimeOf seconds :=
  Int.floor_nonneg.mpr (add_nonneg (mul_nonneg h (by norm_num)) (by norm_num))

/-- The answer of a hook, with the time of the reinjection of a packet that it has kept. -/
inductive HookResult where
  | accept
  | drop
  | queue (time : ℤ)
  deriving DecidableEq, Repr

structure BusyUntil where
  lastProtectedIn : ℤ := 0
  lastProtectedOut : ℤ := 0
  deriving DecidableEq, Repr

namespace BusyUntil

def last (busy : BusyUntil) : Direction → ℤ
  | .inbound => busy.lastProtectedIn
  | .outbound => busy.lastProtectedOut

def setLast (busy : BusyUntil) (time : ℤ) : Direction → BusyUntil
  | .inbound => { busy with lastProtectedIn := time }
  | .outbound => { busy with lastProtectedOut := time }

@[simp] theorem last_setLast (busy : BusyUntil) (time : ℤ) (d : Direction) :
    (busy.setLast time d).last d = time := by cases d <;> rfl

theorem last_setLast_of_ne (busy : BusyUntil) (time : ℤ) {d d' : Direction} (h : d' ≠ d) :
    (busy.setLast time d).last d' = busy.last d' := by
  cases d <;> cases d' <;> first | rfl | exact absurd rfl h

/-- The end of `protectDatagram`. -/
def delayOut (busy : BusyUntil) (now : ℤ) (delay : ℚ) : HookResult × BusyUntil :=
  if 0 < delay ∨ now < busy.lastProtectedOut then
    let time := max now busy.lastProtectedOut + simTimeOf delay
    (.queue time, { busy with lastProtectedOut := time })
  else (.accept, busy)

/-- The end of `processIngressPacket` for a packet with AH alone. -/
def delayAhIn (busy : BusyUntil) (now : ℤ) (delay : ℚ) : HookResult × BusyUntil :=
  if 0 < delay ∨ now < busy.lastProtectedIn then
    let time := max now busy.lastProtectedIn + simTimeOf delay
    (.queue time, { busy with lastProtectedIn := time })
  else (.accept, busy)

/-- The end of `processIngressPacket` for a packet with ESP: the guard reads the time of the
inbound direction, the branch that of the outbound one. -/
def delayEspIn (busy : BusyUntil) (now : ℤ) (delay : ℚ) : HookResult × BusyUntil :=
  if 0 < delay ∨ now < busy.lastProtectedIn then
    let time := max now busy.lastProtectedOut + simTimeOf delay
    (.queue time, { busy with lastProtectedOut := time })
  else (.accept, busy)

end BusyUntil

/-! ## The packets on their way -/

/-- The three ways through the module that can delay a packet. -/
inductive Path where
  | out
  | ahIn
  | espIn
  deriving DecidableEq, Repr

namespace Path

def direction : Path → Direction
  | out => .outbound
  | ahIn | espIn => .inbound

def delay : Path → BusyUntil → ℤ → ℚ → HookResult × BusyUntil
  | out => BusyUntil.delayOut
  | ahIn => BusyUntil.delayAhIn
  | espIn => BusyUntil.delayEspIn

end Path

theorem Path.delay_eq {path : Path} {busy : BusyUntil} {now : ℤ} {delay : ℚ}
    (h : path = .espIn → ¬ (0 < delay ∨ now < busy.last path.direction)) :
    path.delay busy now delay =
      if 0 < delay ∨ now < busy.last path.direction then
        (.queue (max now (busy.last path.direction) + simTimeOf delay),
          busy.setLast (max now (busy.last path.direction) + simTimeOf delay) path.direction)
      else (.accept, busy) := by
  cases path with
  | out => rfl
  | ahIn => rfl
  | espIn =>
    have h := h rfl
    rw [if_neg h]
    exact if_neg h

variable {α : Type}

/-- A packet that IPsec lets through, as it comes. -/
structure Arrival (α : Type) where
  packet : α
  direction : Direction
  time : ℤ
  delay : ℚ
  deriving DecidableEq, Repr

/-- A packet with the time at which it leaves. -/
structure Departure (α : Type) where
  packet : α
  direction : Direction
  time : ℤ
  deriving DecidableEq, Repr

/-- `scheduled` holds the self-messages as they were scheduled; `arrived` and `departed` are
the record of what came and of what left. -/
structure System (α : Type) where
  now : ℤ := 0
  busy : BusyUntil := {}
  scheduled : List (Departure α) := []
  arrived : List (Arrival α) := []
  departed : List (Departure α) := []
  deriving DecidableEq, Repr

inductive Event (α : Type) where
  | elapse (time : ℤ)
  | process (path : Path) (packet : α) (delay : ℚ)
  | reinject
  deriving DecidableEq, Repr

namespace System

def process (s : System α) (path : Path) (packet : α) (delay : ℚ) : System α :=
  let arrived := s.arrived ++ [⟨packet, path.direction, s.now, delay⟩]
  match path.delay s.busy s.now delay with
  | (.queue time, busy) =>
    { s with
      busy, arrived
      scheduled := s.scheduled ++ [⟨packet, path.direction, time⟩] }
  | (_, busy) =>
    { s with
      busy, arrived
      departed := s.departed ++ [⟨packet, path.direction, s.now⟩] }

/-- `handleMessage`: of the messages that are due, the first one scheduled comes first. -/
def reinject (s : System α) : Option (System α) :=
  match s.scheduled.find? (fun m => m.time = s.now) with
  | none => none
  | some m =>
    some { s with
      scheduled := s.scheduled.eraseP (fun m => m.time = s.now)
      departed := s.departed ++ [m] }

/-- Time passes up to the next message that is due at most. -/
def elapse (s : System α) (time : ℤ) : Option (System α) :=
  if s.now ≤ time ∧ ∀ m ∈ s.scheduled, time ≤ m.time then some { s with now := time } else none

def step (s : System α) : Event α → Option (System α)
  | .elapse time => s.elapse time
  | .process path packet delay => if 0 ≤ delay then some (s.process path packet delay) else none
  | .reinject => s.reinject

/-- The packets of a direction that have come. -/
def arrivals (s : System α) (d : Direction) : List (Arrival α) :=
  s.arrived.filter fun a => a.direction = d

/-- The packets of a direction that have left, in the order in which they did. -/
def departures (s : System α) (d : Direction) : List (Departure α) :=
  s.departed.filter fun m => m.direction = d

/-- The packets of a direction that are to leave. -/
def waiting (s : System α) (d : Direction) : List (Departure α) :=
  s.scheduled.filter fun m => m.direction = d

/-- The packet is not passed on at once. -/
def Kept (s : System α) (path : Path) (delay : ℚ) : Prop :=
  0 < delay ∨ s.now < s.busy.last path.direction

/-- An inbound ESP packet is passed on at once, and only a packet that no earlier one of its
direction waits for is. -/
def Undisturbed (s : System α) : Event α → Prop
  | .process path _ delay =>
    (path = .espIn → ¬ s.Kept path delay) ∧
      (¬ s.Kept path delay → s.waiting path.direction = [])
  | _ => True

/-- The states of the runs whose events are allowed. -/
inductive Reaches (Allowed : System α → Event α → Prop) : System α → Prop where
  | initial : Reaches Allowed {}
  | step {s s' : System α} {e : Event α} (h : Reaches Allowed s) (ha : Allowed s e)
      (hs : s.step e = some s') : Reaches Allowed s'

end System

/-! ## A direction on its own -/

/-- The busy time and the departure after a packet that comes to a direction. -/
def serve (busy : ℤ) (a : Arrival α) : ℤ × Departure α :=
  if 0 < a.delay ∨ a.time < busy then
    let time := max a.time busy + simTimeOf a.delay
    (time, ⟨a.packet, a.direction, time⟩)
  else (busy, ⟨a.packet, a.direction, a.time⟩)

def serveNext (served : ℤ × List (Departure α)) (a : Arrival α) : ℤ × List (Departure α) :=
  ((serve served.1 a).1, served.2 ++ [(serve served.1 a).2])

def serveAll (arrivals : List (Arrival α)) : ℤ × List (Departure α) :=
  arrivals.foldl serveNext (0, [])

theorem serveAll_append_singleton (arrivals : List (Arrival α)) (a : Arrival α) :
    serveAll (arrivals ++ [a]) = serveNext (serveAll arrivals) a := by
  simp [serveAll]

theorem serve_packet (busy : ℤ) (a : Arrival α) : (serve busy a).2.packet = a.packet := by
  rw [serve]
  split <;> rfl

theorem serveAll_packets (arrivals : List (Arrival α)) :
    (serveAll arrivals).2.map (·.packet) = arrivals.map (·.packet) := by
  induction arrivals using List.reverseRecOn with
  | nil => rfl
  | append_singleton as a ih =>
    rw [serveAll_append_singleton, serveNext, List.map_append, List.map_append, ih]
    simp [serve_packet]

namespace System

variable {s s' : System α} {d : Direction}

/-! ## What a step does to a direction -/

/-- What has left a direction and what waits there is what the direction alone would make of
its packets. -/
structure InOrder (s : System α) (d : Direction) : Prop where
  served : (s.busy.last d, s.departures d ++ s.waiting d) = serveAll (s.arrivals d)
  sorted : (s.waiting d).Pairwise fun m m' => m.time ≤ m'.time
  due : ∀ m ∈ s.waiting d, s.now ≤ m.time ∧ m.time ≤ s.busy.last d

theorem inOrder_initial (d : Direction) : InOrder ({} : System α) d where
  served := by cases d <;> rfl
  sorted := .nil
  due := by simp [waiting]

/-- A step of the other direction. -/
theorem InOrder.of_eq (h : s.InOrder d) (hnow : s'.now = s.now)
    (hlast : s'.busy.last d = s.busy.last d) (harrivals : s'.arrivals d = s.arrivals d)
    (hwaiting : s'.waiting d = s.waiting d) (hdepartures : s'.departures d = s.departures d) :
    s'.InOrder d where
  served := by rw [hlast, harrivals, hwaiting, hdepartures, h.served]
  sorted := by rw [hwaiting]; exact h.sorted
  due := by rw [hnow, hlast, hwaiting]; exact h.due

theorem InOrder.elapse (h : s.InOrder d) {time : ℤ} (hs : s.elapse time = some s') :
    s'.InOrder d := by
  obtain ⟨⟨-, hm⟩, hs⟩ := Option.ite_none_right_eq_some.mp hs
  cases hs
  exact ⟨h.served, h.sorted, fun m hmem =>
    ⟨hm m (List.mem_filter.mp hmem).1, (h.due m hmem).2⟩⟩

theorem reinject_cases (hs : s.reinject = some s') :
    ∃ before m after, s.scheduled = before ++ m :: after ∧ m.time = s.now ∧
      (∀ m' ∈ before, m'.time ≠ s.now) ∧
      s' = { s with scheduled := before ++ after, departed := s.departed ++ [m] } := by
  rw [reinject] at hs
  cases hf : s.scheduled.find? (fun m => m.time = s.now) with
  | none => simp [hf] at hs
  | some m =>
    simp only [hf, Option.some.injEq] at hs
    obtain ⟨hm, before, after, heq, hbefore⟩ := List.find?_eq_some_iff_append.mp hf
    have hm : m.time = s.now := by simpa using hm
    have hbefore : ∀ m' ∈ before, m'.time ≠ s.now := by simpa using hbefore
    refine ⟨before, m, after, heq, hm, hbefore, ?_⟩
    have herase : s.scheduled.eraseP (fun m => m.time = s.now) = before ++ after := by
      rw [heq, List.eraseP_append_right _ (by simpa using hbefore),
        List.eraseP_cons_of_pos (by simpa using hm)]
    rw [← hs, herase]

theorem InOrder.reinject (h : s.InOrder d) (hs : s.reinject = some s') : s'.InOrder d := by
  obtain ⟨before, m, after, heq, hm, hbefore, rfl⟩ := reinject_cases hs
  have hwaiting : s.waiting d = before.filter (·.direction = d) ++
      (m :: after).filter (·.direction = d) := by rw [waiting, heq, List.filter_append]
  by_cases hd : m.direction = d
  · rw [List.filter_cons_of_pos (by simpa using hd)] at hwaiting
    have hsorted := List.pairwise_append.mp (hwaiting ▸ h.sorted)
    have hfirst : before.filter (·.direction = d) = [] := by
      apply List.eq_nil_iff_forall_not_mem.mpr
      intro m' hm'
      have hle : m'.time ≤ m.time := hsorted.2.2 m' hm' m List.mem_cons_self
      have hge : s.now ≤ m'.time := (h.due m' (by simp [hwaiting, hm'])).1
      exact hbefore m' (List.mem_filter.mp hm').1 (by omega)
    rw [hfirst, List.nil_append] at hwaiting
    have hrest : (before ++ after).filter (·.direction = d) = after.filter (·.direction = d) := by
      rw [List.filter_append, hfirst, List.nil_append]
    constructor
    · have hserved := h.served
      rw [hwaiting] at hserved
      simpa [departures, waiting, hrest, hd, arrivals] using hserved
    · simpa [waiting, hrest] using (hwaiting ▸ h.sorted).of_cons
    · intro m' hm'
      rw [waiting, hrest] at hm'
      exact h.due m' (by rw [hwaiting]; exact List.mem_cons_of_mem _ hm')
  · rw [List.filter_cons_of_neg (by simpa using hd), ← List.filter_append] at hwaiting
    exact h.of_eq rfl rfl rfl hwaiting.symm (by simp [departures, hd])

theorem process_cases {path : Path} {packet : α} {delay : ℚ}
    (hu : s.Undisturbed (.process path packet delay)) :
    (s.Kept path delay ∧ ∃ time, time = max s.now (s.busy.last path.direction) + simTimeOf delay ∧
      s.process path packet delay = { s with
        busy := s.busy.setLast time path.direction
        arrived := s.arrived ++ [⟨packet, path.direction, s.now, delay⟩]
        scheduled := s.scheduled ++ [⟨packet, path.direction, time⟩] }) ∨
    (¬ s.Kept path delay ∧ s.waiting path.direction = [] ∧
      s.process path packet delay = { s with
        arrived := s.arrived ++ [⟨packet, path.direction, s.now, delay⟩]
        departed := s.departed ++ [⟨packet, path.direction, s.now⟩] }) := by
  have heq := Path.delay_eq hu.1
  by_cases hk : 0 < delay ∨ s.now < s.busy.last path.direction
  · rw [if_pos hk] at heq
    exact .inl ⟨hk, _, rfl, by simp only [process, heq]⟩
  · rw [if_neg hk] at heq
    exact .inr ⟨hk, hu.2 hk, by simp only [process, heq]⟩

theorem InOrder.process (h : s.InOrder d) {path : Path} {packet : α} {delay : ℚ}
    (hu : s.Undisturbed (.process path packet delay)) (hdelay : 0 ≤ delay) :
    (s.process path packet delay).InOrder d := by
  by_cases hd : path.direction = d
  · subst hd
    rcases process_cases hu with ⟨hk, time, htime, heq⟩ | ⟨hk, hwaiting, heq⟩
    · have hlater : s.now ≤ time ∧ s.busy.last path.direction ≤ time := by
        have := simTimeOf_nonneg hdelay
        omega
      rw [heq]
      constructor
      · have hserve : serve (s.busy.last path.direction)
            ⟨packet, path.direction, s.now, delay⟩ = (time, ⟨packet, path.direction, time⟩) := by
          subst htime
          exact if_pos hk
        simp only [arrivals, departures, waiting, List.filter_append, List.filter_singleton,
          decide_true, cond_true, BusyUntil.last_setLast, serveAll_append_singleton, serveNext]
        rw [← arrivals, ← h.served, hserve, List.append_assoc]
        rfl
      · simp only [waiting, List.filter_append, List.filter_singleton, decide_true, cond_true]
        apply List.pairwise_append.mpr
        refine ⟨h.sorted, List.pairwise_singleton _ _, ?_⟩
        simp only [List.mem_singleton, forall_eq]
        exact fun m hm => (h.due m hm).2.trans hlater.2
      · intro m hm
        simp only [waiting, List.filter_append, List.filter_singleton, decide_true, cond_true,
          List.mem_append, List.mem_singleton, BusyUntil.last_setLast] at hm ⊢
        rcases hm with hm | rfl
        · exact ⟨(h.due m hm).1, (h.due m hm).2.trans hlater.2⟩
        · exact ⟨hlater.1, le_refl _⟩
    · rw [heq]
      constructor
      · have hserve : serve (s.busy.last path.direction)
            ⟨packet, path.direction, s.now, delay⟩ =
              (s.busy.last path.direction, ⟨packet, path.direction, s.now⟩) := if_neg hk
        have hserved := h.served
        rw [hwaiting, List.append_nil] at hserved
        simp only [arrivals, departures, waiting, List.filter_append, List.filter_singleton,
          decide_true, cond_true, serveAll_append_singleton, serveNext]
        rw [← arrivals, ← hserved, hserve, ← waiting, hwaiting, List.append_nil]
        rfl
      · exact h.sorted
      · exact h.due
  · rcases process_cases hu with ⟨-, time, -, heq⟩ | ⟨-, -, heq⟩ <;> rw [heq]
    · exact h.of_eq rfl (BusyUntil.last_setLast_of_ne _ _ (Ne.symm hd)) (by simp [arrivals, hd])
        (by simp [waiting, hd]) rfl
    · exact h.of_eq rfl rfl (by simp [arrivals, hd]) rfl (by simp [departures, hd])

theorem InOrder.step (h : s.InOrder d) {e : Event α} (hu : s.Undisturbed e)
    (hs : s.step e = some s') : s'.InOrder d := by
  cases e with
  | elapse time => exact h.elapse hs
  | process path packet delay =>
    obtain ⟨hdelay, hs⟩ := Option.ite_none_right_eq_some.mp hs
    cases hs
    exact h.process hu hdelay
  | reinject => exact h.reinject hs

theorem Reaches.inOrder (h : Reaches Undisturbed s) (d : Direction) : s.InOrder d := by
  induction h with
  | initial => exact inOrder_initial d
  | step h hu hs ih => exact ih.step hu hs

/-- The packets of a direction leave in the order in which they came, and the times at which
they leave and are to leave are those of every other run with the same packets of that
direction. -/
theorem order_of_direction {s s' : System α} (h : Reaches Undisturbed s)
    (h' : Reaches Undisturbed s') (d : Direction) :
    (s.departures d).map (·.packet) <+: (s.arrivals d).map (·.packet) ∧
      (s.departures d ++ s.waiting d).map (·.packet) = (s.arrivals d).map (·.packet) ∧
      (s.arrivals d = s'.arrivals d →
        s.departures d ++ s.waiting d = s'.departures d ++ s'.waiting d) := by
  have hserved : s.departures d ++ s.waiting d = (serveAll (s.arrivals d)).2 :=
    congrArg Prod.snd (h.inOrder d).served
  have hserved' : s'.departures d ++ s'.waiting d = (serveAll (s'.arrivals d)).2 :=
    congrArg Prod.snd (h'.inOrder d).served
  have hall : (s.departures d ++ s.waiting d).map (·.packet) = (s.arrivals d).map (·.packet) := by
    rw [hserved, serveAll_packets]
  refine ⟨?_, hall, ?_⟩
  · rw [← hall, List.map_append]
    exact List.prefix_append _ _
  · intro heq
    rw [hserved, hserved', heq]

/-- Two outbound packets wait in order, with an inbound one between them or without it. -/
theorem order_of_two_packets :
    ∃ s s' : System ℕ,
      ((s.departures .outbound).map (·.packet) <+: (s.arrivals .outbound).map (·.packet) ∧
        (s.departures .outbound ++ s.waiting .outbound).map (·.packet) =
          (s.arrivals .outbound).map (·.packet) ∧
        (s.arrivals .outbound = s'.arrivals .outbound →
          s.departures .outbound ++ s.waiting .outbound =
            s'.departures .outbound ++ s'.waiting .outbound)) ∧
      (s.waiting .outbound).map (·.time) = [1000000000000, 2000000000000] ∧
      s.arrivals .outbound = s'.arrivals .outbound ∧ s.arrivals .inbound ≠ [] ∧
      s'.arrivals .inbound = [] := by
  have h₀ : Reaches Undisturbed ({} : System ℕ) := .initial
  have kept : ∀ (s : System ℕ) (path : Path), s.Kept path 1 := fun _ _ => .inl one_pos
  have ha := h₀.step (e := .process .out 0 1) ⟨nofun, fun h => absurd (kept _ _) h⟩ rfl
  have hb := ha.step (e := .process .ahIn 7 1) ⟨nofun, fun h => absurd (kept _ _) h⟩ rfl
  have hc := hb.step (e := .process .out 1 1) ⟨nofun, fun h => absurd (kept _ _) h⟩ rfl
  have hb' := ha.step (e := .process .out 1 1) ⟨nofun, fun h => absurd (kept _ _) h⟩ rfl
  exact ⟨_, _, order_of_direction hc hb' .outbound, by decide +kernel⟩

/-- An inbound ESP packet that waits behind an outbound one is overtaken by an inbound AH
packet, and it leaves earlier when the outbound packet does not come. -/
theorem overtaken_esp_packet :
    (∃ s : System ℕ, Reaches (fun _ _ => True) s ∧
      ¬ (s.departures .inbound).map (·.packet) <+: (s.arrivals .inbound).map (·.packet)) ∧
    (∃ s s' : System ℕ, Reaches (fun _ _ => True) s ∧ Reaches (fun _ _ => True) s' ∧
      s.arrivals .inbound = s'.arrivals .inbound ∧
      s.departures .inbound ++ s.waiting .inbound ≠
        s'.departures .inbound ++ s'.waiting .inbound) := by
  have h₀ : Reaches (fun _ _ => True) ({} : System ℕ) := .initial
  have ha := h₀.step (e := .process .out 0 5) trivial rfl
  have hb := ha.step (e := .process .espIn 1 1) trivial rfl
  have hc := hb.step (e := .process .ahIn 2 1) trivial rfl
  have hd := hc.step (e := .elapse 1000000000000) trivial
    (Option.some_get (by decide +kernel)).symm
  have he := hd.step (e := .reinject) trivial (Option.some_get (by decide +kernel)).symm
  have hb' := h₀.step (e := .process .espIn 1 1) trivial rfl
  exact ⟨⟨_, he, by decide +kernel⟩, ⟨_, _, hb, hb', by decide +kernel, by decide +kernel⟩⟩

end System

end Inet.Ipsec
