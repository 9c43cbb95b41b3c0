import Inet.Ipv4.Igmpv3
import Inet.Lib.OrderedMap
import Mathlib.Data.Set.Basic

/-! # What a group record does to a router

The comments of `processReport` give a table of the new states. The loops of
the code follow it, except where a loop deletes the record that it stands on,
looks past the end, or runs over the wrong list.
-/

namespace Inet.Ipv4.Igmpv3

variable {s : Ipv4Address} {l l₁ l₂ : List Ipv4Address}

/-! ## Sorted address vectors -/

theorem isSorted_of_pairwise (h : l.Pairwise (· ≤ ·)) : isSorted l = true := by
  induction l with
  | nil => rfl
  | cons a l ih =>
    cases l with
    | nil => rfl
    | cons b l =>
      rw [List.pairwise_cons] at h
      have hab : ¬ a > b := BitVec.not_lt.2 (h.1 b List.mem_cons_self)
      rw [isSorted, decide_eq_false hab, ih h.2]
      rfl

theorem pairwise_of_isSorted (h : isSorted l = true) : l.Pairwise (· ≤ ·) := by
  rw [← List.isChain_iff_pairwise]
  induction l with
  | nil => exact List.IsChain.nil
  | cons a l ih =>
    cases l with
    | nil => exact List.IsChain.singleton a
    | cons b l =>
      rw [isSorted, Bool.and_eq_true] at h
      have hab : ¬ a > b := by simpa using h.1
      exact List.isChain_cons_cons.2 ⟨BitVec.not_lt.1 hab, ih h.2⟩

theorem pairwise_sort (l : List Ipv4Address) : (sort l).Pairwise (· ≤ ·) :=
  List.pairwise_insertionSort (· ≤ ·) l

@[simp] theorem mem_sort : s ∈ sort l ↔ s ∈ l := List.mem_insertionSort (· ≤ ·)

theorem nodup_sort (h : l.Nodup) : (sort l).Nodup :=
  (List.perm_insertionSort (· ≤ ·) l).nodup_iff.2 h

theorem pairwise_keys (m : SourceMap) : m.keys.Pairwise (· ≤ ·) :=
  (OrderedMap.strictlySorted_keys m).imp fun h => BitVec.le_of_lt (compareOfLessAndEq_eq_lt.1 h)

theorem set_complement_eq (h₁ : l₁.Pairwise (· ≤ ·)) (h₂ : l₂.Pairwise (· ≤ ·)) :
    set_complement l₁ l₂ = .ok (l₁.diff l₂) :=
  Error.bind_of_eq_ok (Error.assert_of_pos (isSorted_of_pairwise h₁))
    (Error.bind_of_eq_ok (Error.assert_of_pos (isSorted_of_pairwise h₂)) rfl)

theorem set_intersection_eq (h₁ : l₁.Pairwise (· ≤ ·)) (h₂ : l₂.Pairwise (· ≤ ·)) :
    set_intersection l₁ l₂ = .ok (l₁.bagInter l₂) :=
  Error.bind_of_eq_ok (Error.assert_of_pos (isSorted_of_pairwise h₁))
    (Error.bind_of_eq_ok (Error.assert_of_pos (isSorted_of_pairwise h₂)) rfl)

/-! ## Source records -/

variable {p : Parameters} {now : ℤ} {state : RouterState} {g g' : RouterGroupData}
  {start : Bool}

theorem RouterGroupData.hasSourceRecord_iff : g.hasSourceRecord s = true ↔ s ∈ g.sources :=
  Std.ExtTreeMap.contains_iff_mem

theorem RouterGroupData.sourceTimerRunning_iff :
    g.sourceTimerRunning s = true ↔ ∃ t, g.sources[s]? = some (some t) := by
  unfold sourceTimerRunning
  rcases g.sources[s]? with _ | _ | t
  · simp
  · simp
  · simp

theorem RouterGroupData.mem_of_sourceTimerRunning (h : g.sourceTimerRunning s = true) :
    s ∈ g.sources := by
  obtain ⟨t, ht⟩ := sourceTimerRunning_iff.1 h
  exact Std.ExtTreeMap.mem_iff_isSome_getElem?.2 (Option.isSome_of_eq_some ht)

/-- Only source records have changed, and `f` gives the new ones. -/
structure Rewritten (g g' : RouterGroupData) (f : Ipv4Address → Option (Option ℤ)) : Prop where
  frame : g' = { g with sources := g'.sources }
  lookup : ∀ s, g'.sources[s]? = f s

theorem foldlM_rewritten (body : RouterGroupData → Ipv4Address → Except Error RouterGroupData)
    (change : Option (Option ℤ) → Option (Option ℤ)) (hchange : ∀ r, change (change r) = change r)
    (hbody : ∀ g a, ∃ g', body g a = .ok g' ∧
      Rewritten g g' fun s => if s = a then change g.sources[s]? else g.sources[s]?)
    (l : List Ipv4Address) (g : RouterGroupData) : ∃ g', l.foldlM body g = .ok g' ∧
      Rewritten g g' fun s => if s ∈ l then change g.sources[s]? else g.sources[s]? := by
  induction l generalizing g with
  | nil => exact ⟨g, rfl, rfl, fun s => by rw [if_neg List.not_mem_nil]⟩
  | cons a l ih =>
    obtain ⟨g₁, hg₁, hframe₁, hlookup₁⟩ := hbody g a
    obtain ⟨g₂, hg₂, hframe₂, hlookup₂⟩ := ih g₁
    refine ⟨g₂, ?_, ?_, fun s => ?_⟩
    · rw [List.foldlM_cons]
      exact Error.bind_of_eq_ok hg₁ hg₂
    · rw [hframe₂, hframe₁]
    · simp only [hlookup₂, hlookup₁, List.mem_cons]
      by_cases hs : s = a
      · simp only [hs, if_true, hchange, ite_self, true_or]
      · simp only [hs, if_false, false_or]

theorem createSourceRecord_eq (h : g.hasSourceRecord s ≠ true) :
    g.createSourceRecord s = .ok { g with sources := g.sources.insert s none } :=
  Error.bind_of_eq_ok (Error.assert_of_pos (Bool.eq_false_of_not_eq_true h)) rfl

theorem startSourceTimers_spec (p : Parameters) (now : ℤ) (g : RouterGroupData)
    (l : List Ipv4Address) : ∃ g', startSourceTimers p now g l = .ok g' ∧
      Rewritten g g' fun s =>
        if s ∈ l then some (some (now + p.groupMembershipInterval)) else g.sources[s]? := by
  refine foldlM_rewritten _ (fun _ => some (some (now + p.groupMembershipInterval)))
    (fun _ => rfl) (fun g a => ?_) l g
  by_cases ha : g.hasSourceRecord a = true
  · refine ⟨_, Error.bind_of_eq_ok (if_pos ha) rfl, rfl, fun s => ?_⟩
    exact OrderedMap.getElem?_insert _ _ _ _
  · refine ⟨_, Error.bind_of_eq_ok ((if_neg ha).trans (createSourceRecord_eq ha)) rfl, rfl,
      fun s => ?_⟩
    simp only [RouterGroupData.startSourceTimer, OrderedMap.getElem?_insert]
    by_cases hs : s = a
    · rw [if_pos hs, if_pos hs]
    · rw [if_neg hs, if_neg hs, if_neg hs]

theorem createSourceRecords_spec (p : Parameters) (now : ℤ) (g : RouterGroupData) (start : Bool)
    (l : List Ipv4Address) : ∃ g', createSourceRecords p now g start l = .ok g' ∧
      Rewritten g g' fun s => if s ∈ l then (g.sources[s]?).or
        (some (if start then some (now + p.groupMembershipInterval) else none))
      else g.sources[s]? := by
  refine foldlM_rewritten _
    (·.or (some (if start then some (now + p.groupMembershipInterval) else none)))
    (fun r => by cases r <;> rfl) (fun g a => ?_) l g
  by_cases ha : g.hasSourceRecord a = true
  · refine ⟨g, if_pos ha, rfl, fun s => ?_⟩
    split
    · rename_i hs
      obtain ⟨r, hr⟩ := Option.isSome_iff_exists.1
        (Std.ExtTreeMap.isSome_getElem?_iff_mem.2 (RouterGroupData.hasSourceRecord_iff.1 ha))
      rw [hs, hr]
      rfl
    · rfl
  · have hnone : g.sources[a]? = none := Std.ExtTreeMap.getElem?_eq_none
      fun h => ha (RouterGroupData.hasSourceRecord_iff.2 h)
    rw [if_neg ha, createSourceRecord_eq ha]
    cases start with
    | false =>
      refine ⟨_, rfl, rfl, fun s => ?_⟩
      simp only [Bool.false_eq_true, if_false, OrderedMap.getElem?_insert]
      split
      · rename_i hs
        rw [hs, hnone]
        rfl
      · rfl
    | true =>
      refine ⟨_, rfl, rfl, fun s => ?_⟩
      simp only [if_true, RouterGroupData.startSourceTimer, OrderedMap.getElem?_insert]
      split
      · rename_i hs
        rw [hs, hnone]
        rfl
      · rfl

theorem deleteSourceRecords_spec (l : List Ipv4Address) (g : RouterGroupData) :
    Rewritten g (l.foldl RouterGroupData.deleteSourceRecord g) fun s =>
      if s ∈ l then none else g.sources[s]? := by
  obtain ⟨g', hg', h⟩ := foldlM_rewritten (fun g s => pure (g.deleteSourceRecord s))
    (fun _ => none) (fun _ => rfl)
    (fun g a => ⟨_, rfl, rfl, fun s => OrderedMap.getElem?_erase g.sources a s⟩) l g
  rw [List.foldlM_pure] at hg'
  cases hg'
  exact h

/-! ## The loops that iterate over source records -/

theorem deleteInLoop_eq {delete : Ipv4Address → Bool} (h : ∀ s ∈ l, delete s = false) :
    deleteInLoop delete l = .ok () := by
  induction l with
  | nil => rfl
  | cons a l ih =>
    rw [deleteInLoop, h a List.mem_cons_self]
    exact ih fun s hs => h s (List.mem_cons_of_mem a hs)

theorem of_deleteInLoop_eq_ok {delete : Ipv4Address → Bool} {u : Unit}
    (h : deleteInLoop delete l = .ok u) : ∀ s ∈ l, delete s = false := by
  induction l with
  | nil => exact fun s hs => absurd hs List.not_mem_nil
  | cons a l ih =>
    rw [deleteInLoop] at h
    split at h
    · cases h
    · rename_i ha
      intro s hs
      rcases List.mem_cons.1 hs with rfl | hs
      · exact Bool.eq_false_of_not_eq_true ha
      · exact ih h s hs

theorem toExLoop_cons_ne_ok (received : List Ipv4Address) (g : RouterGroupData) (a : Ipv4Address)
    (l : List Ipv4Address) : toExLoop received g (a :: l) ≠ .ok g' := by
  induction l generalizing g a with
  | nil => exact fun h => by cases h
  | cons b l ih => exact ih _ b

theorem blockLoop_eq (g : RouterGroupData) : blockLoop g = .ok g := by
  have hloop : ∀ l : List Ipv4Address, (∀ s ∈ l, s ∈ g.sources) → l.foldlM (fun g source =>
      if g.hasSourceRecord source then pure g else do
        let g ← g.createSourceRecord source
        pure { g with sources := g.sources.insert source g.timer }) g =
      (.ok g : Except Error RouterGroupData) := by
    intro l hl
    induction l with
    | nil => rfl
    | cons a l ih =>
      rw [List.foldlM_cons,
        if_pos (RouterGroupData.hasSourceRecord_iff.2 (hl a List.mem_cons_self))]
      exact ih fun s hs => hl s (List.mem_cons_of_mem a hs)
  exact hloop _ fun s => Std.ExtTreeMap.mem_keys.1

/-! ## Queries -/

/-- Everything but the retransmission of queries. -/
def RouterGroupData.withoutRexmt (g : RouterGroupData) : RouterGroupData :=
  { g with rexmtTimer := none, rexmtCount := 0, rexmtGroupAndSource := false, rexmtSources := [] }

theorem withoutRexmt_armRexmt (p : Parameters) (now : ℤ) (g : RouterGroupData) (b : Bool)
    (l : List Ipv4Address) : (armRexmt p now g b l).withoutRexmt = g.withoutRexmt := by
  unfold armRexmt
  dsimp only
  split <;> rfl

theorem exists_cancelRexmt_eq (g : RouterGroupData) : ∃ timer count sources, cancelRexmt g =
    { g with rexmtTimer := timer, rexmtCount := count, rexmtSources := sources } := by
  unfold cancelRexmt
  split
  · exact ⟨_, _, _, rfl⟩
  · exact ⟨_, _, _, rfl⟩

/-- The Group-and-Source-Specific Query about `l`, where `l` has sources. -/
def sourceQuery (state : RouterState) (group : Ipv4Address) (l : List Ipv4Address) :
    List Igmpv3Query :=
  if l.isEmpty then [] else sendQuery state ⟨group, false, l⟩

theorem querySources_spec (p : Parameters) (now : ℤ) (state : RouterState) (g : RouterGroupData)
    (l : List Ipv4Address) : ∃ g', querySources p now state g l =
      .ok (g', sourceQuery state g.groupAddr l) ∧ g'.withoutRexmt = g.withoutRexmt := by
  unfold querySources sourceQuery
  cases l with
  | nil => exact ⟨g, rfl, rfl⟩
  | cons a l => exact ⟨_, rfl, withoutRexmt_armRexmt p now g true _⟩

/-! ## What the code does with each record type -/

/-- The sources whose timers do not run, in EXCLUDE mode the ones that are not forwarded. -/
def RouterGroupData.notRunning (g : RouterGroupData) : List Ipv4Address :=
  g.sources.keys.filter fun source => !g.sourceTimerRunning source

theorem pairwise_notRunning (g : RouterGroupData) : g.notRunning.Pairwise (· ≤ ·) :=
  (pairwise_keys g.sources).filter _

/-- The record of a source after the change to `EXCLUDE(l)`. -/
def excludedSource (p : Parameters) (now : ℤ) (g : RouterGroupData) (l : List Ipv4Address)
    (s : Ipv4Address) : Option (Option ℤ) :=
  if s ∈ l then (g.sources[s]?).or (some (match g.filter with
    | .fmInclude => none
    | .fmExclude => some (now + p.groupMembershipInterval)))
  else none

/-- The loop over source records, if the record type has one, keeps its iterator valid. -/
def WellDefined (g : RouterGroupData) (recordType : ReportType) (l : List Ipv4Address) : Prop :=
  match recordType, g.filter with
  | .isEx, _ => ∀ s ∈ g.sources, s ∈ l
  | .toEx, .fmExclude => ∀ s, s ∉ g.sources
  | _, _ => True

def newFilter (recordType : ReportType) (filter : FilterMode) : FilterMode :=
  match recordType with
  | .isEx | .toEx => .fmExclude
  | _ => filter

def newTimer (p : Parameters) (now : ℤ) (recordType : ReportType) (g : RouterGroupData) :
    Option ℤ :=
  match recordType, g.filter with
  | .isEx, _ | .toEx, _ => some (now + p.groupMembershipInterval)
  | .toIn, .fmExclude => some (now + p.lastMemberQueryTime)
  | _, _ => g.timer

/-- The record of a source after a group record. -/
def newSource (p : Parameters) (now : ℤ) (recordType : ReportType) (g : RouterGroupData)
    (l : List Ipv4Address) (s : Ipv4Address) : Option (Option ℤ) :=
  match recordType with
  | .isIn | .allow | .toIn =>
    if s ∈ l then some (some (now + p.groupMembershipInterval)) else g.sources[s]?
  | .isEx | .toEx => excludedSource p now g l s
  | .block => g.sources[s]?

/-- The sources that a Group-and-Source-Specific Query asks about. -/
def queried (recordType : ReportType) (g : RouterGroupData) (l : List Ipv4Address) :
    Set Ipv4Address :=
  match recordType, g.filter with
  | .block, .fmInclude | .toEx, .fmInclude => {s | s ∈ g.sources ∧ s ∈ l}
  | .block, .fmExclude | .toEx, .fmExclude => {s | s ∈ l ∧ s ∉ g.notRunning}
  | .toIn, .fmInclude => {s | s ∈ g.sources ∧ s ∉ l}
  | .toIn, .fmExclude => {s | g.sourceTimerRunning s = true ∧ s ∉ l}
  | _, _ => ∅

/-- The Group-Specific Query. -/
def groupQuery (p : Parameters) (now : ℤ) (state : RouterState) (recordType : ReportType)
    (g : RouterGroupData) : List Igmpv3Query :=
  match recordType, g.filter with
  | .toIn, .fmExclude => (sendGroupSpecificQuery p now state g).2
  | _, _ => []

/-! ## One lemma for each record type -/

/-- The new group data, up to the retransmission of queries: the filter mode, the group timer
and the source records. -/
structure Becomes (g g' : RouterGroupData) (filter : FilterMode) (timer : Option ℤ)
    (f : Ipv4Address → Option (Option ℤ)) : Prop where
  frame : g'.withoutRexmt =
    { g with filter := filter, timer := timer, sources := g'.sources }.withoutRexmt
  lookup : ∀ s, g'.sources[s]? = f s

/-- A query about the sources in `S`, and then the other queries. -/
def Asks (state : RouterState) (group : Ipv4Address) (S : Set Ipv4Address)
    (others queries : List Igmpv3Query) : Prop :=
  ∃ l, (∀ s, s ∈ l ↔ s ∈ S) ∧ queries = sourceQuery state group l ++ others

theorem Becomes.of_withoutRexmt {g'' : RouterGroupData} {filter : FilterMode} {timer : Option ℤ}
    {f : Ipv4Address → Option (Option ℤ)} (h : Becomes g g' filter timer f)
    (heq : g''.withoutRexmt = g'.withoutRexmt) : Becomes g g'' filter timer f := by
  have hsources : g''.sources = g'.sources := by
    have h := congrArg RouterGroupData.sources heq
    exact h
  constructor
  · rw [heq, h.frame, hsources]
  · rw [hsources]
    exact h.lookup

theorem Rewritten.becomes {f : Ipv4Address → Option (Option ℤ)} (h : Rewritten g g' f) :
    Becomes g g' g.filter g.timer f := ⟨congrArg _ h.frame, h.lookup⟩

theorem Becomes.startGroupTimer {filter : FilterMode} {timer : Option ℤ} {interval : ℕ}
    {f : Ipv4Address → Option (Option ℤ)} (h : Becomes g g' filter timer f) :
    Becomes g (g'.startGroupTimer now interval) filter (some (now + interval)) f :=
  ⟨congrArg (RouterGroupData.startGroupTimer · now interval) h.frame, h.lookup⟩

theorem processIsEx_spec (p : Parameters) (now : ℤ) (h : ∀ s ∈ g.sources, s ∈ l) :
    ∃ g', processIsEx p now g l = .ok (g', []) ∧ Becomes g g' .fmExclude
      (some (now + p.groupMembershipInterval)) (excludedSource p now g l) := by
  have hloop : deleteInLoop (fun source => !l.contains source) g.sources.keys = .ok () := by
    apply deleteInLoop_eq
    intro s hs
    rw [List.contains_iff_mem.2 (h s (Std.ExtTreeMap.mem_keys.1 hs))]
    rfl
  obtain ⟨g₁, hg₁, hframe, hlookup⟩ := createSourceRecords_spec p now
    (g.startGroupTimer now p.groupMembershipInterval)
    (decide ((match g.filter with
      | .fmInclude => 0
      | .fmExclude => p.groupMembershipInterval) > 0)) l
  refine ⟨{ g₁ with filter := .fmExclude }, ?_, ?_, fun s => ?_⟩
  · exact Error.bind_of_eq_ok hloop (Error.bind_of_eq_ok hg₁ rfl)
  · rw [hframe]
    rfl
  · dsimp only
    rw [hlookup, excludedSource]
    by_cases hs : s ∈ l
    · rw [if_pos hs, if_pos hs]
      cases g.filter with
      | fmInclude => rfl
      | fmExclude => rw [decide_eq_true p.groupMembershipInterval_pos, if_pos rfl]; rfl
    · rw [if_neg hs, if_neg hs]
      exact Std.ExtTreeMap.getElem?_eq_none fun hmem => hs (h s hmem)

theorem processBlock_spec (p : Parameters) (now : ℤ) (state : RouterState) (g : RouterGroupData)
    (hl : l.Pairwise (· ≤ ·)) : ∃ g' queries, processBlock p now state g l = .ok (g', queries) ∧
      Becomes g g' g.filter g.timer (fun s => g.sources[s]?) ∧
      (l.Nodup → Asks state g.groupAddr (queried .block g l) [] queries) := by
  have hsame : Becomes g g g.filter g.timer fun s => g.sources[s]? := ⟨rfl, fun _ => rfl⟩
  unfold processBlock queried
  cases hfilter : g.filter with
  | fmInclude =>
    obtain ⟨g', hg', hrexmt⟩ := querySources_spec p now state g (g.sources.keys.bagInter l)
    refine ⟨g', _, Error.bind_of_eq_ok (set_intersection_eq (pairwise_keys _) hl) hg',
      hfilter ▸ hsame.of_withoutRexmt hrexmt, fun _ => ⟨_, fun s => ?_, (List.append_nil _).symm⟩⟩
    rw [List.mem_bagInter, Std.ExtTreeMap.mem_keys]
    rfl
  | fmExclude =>
    obtain ⟨g', hg', hrexmt⟩ := querySources_spec p now state g (l.diff g.notRunning)
    refine ⟨g', _, Error.bind_of_eq_ok (blockLoop_eq g)
      (Error.bind_of_eq_ok (set_complement_eq hl (pairwise_notRunning g)) hg'),
      hfilter ▸ hsame.of_withoutRexmt hrexmt,
      fun hnodup => ⟨_, fun s => ?_, (List.append_nil _).symm⟩⟩
    rw [hnodup.mem_sdiff_iff]
    rfl

theorem processToIn_spec (p : Parameters) (now : ℤ) (state : RouterState) (g : RouterGroupData)
    (hl : l.Pairwise (· ≤ ·)) : ∃ g' queries, processToIn p now state g l = .ok (g', queries) ∧
      Becomes g g' g.filter (newTimer p now .toIn g) (newSource p now .toIn g l) ∧
      Asks state g.groupAddr (queried .toIn g l) (groupQuery p now state .toIn g) queries := by
  obtain ⟨g₁, hg₁, h₁⟩ := startSourceTimers_spec p now g l
  have hgroup : g₁.groupAddr = g.groupAddr := by rw [h₁.frame]
  have hbecomes := h₁.becomes
  unfold processToIn newTimer queried groupQuery
  cases hfilter : g.filter with
  | fmInclude =>
    rw [hfilter] at hbecomes
    obtain ⟨g', hg', hrexmt⟩ := querySources_spec p now state g₁ (g₁.sources.keys.diff l)
    refine ⟨g', _, Error.bind_of_eq_ok hg₁
      (Error.bind_of_eq_ok (set_complement_eq (pairwise_keys _) hl) hg'),
      hbecomes.of_withoutRexmt hrexmt,
      ⟨_, fun s => ?_, by rw [hgroup, List.append_nil]⟩⟩
    rw [Std.ExtTreeMap.nodup_keys.mem_sdiff_iff, Std.ExtTreeMap.mem_keys]
    refine and_congr_left fun hs => ?_
    rw [OrderedMap.mem_iff_ne_none, h₁.lookup, if_neg hs, ← OrderedMap.mem_iff_ne_none]
  | fmExclude =>
    obtain ⟨g₂, hg₂, hrexmt⟩ := querySources_spec p now state g₁
      ((g.sources.keys.filter g.sourceTimerRunning).diff l)
    have h₂ := hbecomes.of_withoutRexmt hrexmt
    rw [hfilter] at h₂
    have hgroup₂ : g₂.groupAddr = g.groupAddr := by
      have h := congrArg RouterGroupData.groupAddr h₂.frame
      exact h
    have htimer₂ : g₂.timer = g.timer := by
      have h := congrArg RouterGroupData.timer h₂.frame
      exact h
    refine ⟨_, _, Error.bind_of_eq_ok hg₁
      (Error.bind_of_eq_ok (set_complement_eq ((pairwise_keys _).filter _) hl)
        (Error.bind_of_eq_ok hg₂ rfl)), h₂.startGroupTimer.of_withoutRexmt
          (withoutRexmt_armRexmt p now _ false []),
      ⟨(g.sources.keys.filter g.sourceTimerRunning).diff l, fun s => ?_, ?_⟩⟩
    · rw [(Std.ExtTreeMap.nodup_keys.filter _).mem_sdiff_iff, List.mem_filter,
        Std.ExtTreeMap.mem_keys]
      exact and_congr_left fun _ => and_iff_right_of_imp RouterGroupData.mem_of_sourceTimerRunning
    · rw [hgroup]
      unfold sendGroupSpecificQuery
      rw [hgroup₂, htimer₂]

theorem processToEx_spec (p : Parameters) (now : ℤ) (state : RouterState)
    (h : g.filter = .fmExclude → ∀ s, s ∉ g.sources) (hl : l.Pairwise (· ≤ ·)) :
    ∃ g' queries, processToEx p now state g l = .ok (g', queries) ∧ Becomes g g' .fmExclude
      (some (now + p.groupMembershipInterval)) (excludedSource p now g l) ∧
      (l.Nodup → Asks state g.groupAddr (queried .toEx g l) [] queries) := by
  unfold processToEx queried
  cases hfilter : g.filter with
  | fmInclude =>
    obtain ⟨g₁, hg₁, hframe₁, hlookup₁⟩ := createSourceRecords_spec p now
      { g.startGroupTimer now p.groupMembershipInterval with filter := .fmExclude } false l
    dsimp only [RouterGroupData.startGroupTimer] at hframe₁ hlookup₁
    have hdelete := deleteSourceRecords_spec
      (g.sources.keys.filter fun source => !l.contains source) g₁
    generalize hg₂ : (g.sources.keys.filter fun source => !l.contains source).foldl
      RouterGroupData.deleteSourceRecord g₁ = g₂ at hdelete
    obtain ⟨hframe₂, hlookup₂⟩ := hdelete
    have hgroup : g₂.groupAddr = g.groupAddr := by rw [hframe₂, hframe₁]
    obtain ⟨g', hg', hrexmt⟩ := querySources_spec p now state g₂ (g.sources.keys.bagInter l)
    refine ⟨g', _, Error.bind_of_eq_ok hg₁
      (Error.bind_of_eq_ok (set_intersection_eq (pairwise_keys _) hl) (hg₂ ▸ hg')),
      Becomes.of_withoutRexmt ⟨?_, fun s => ?_⟩ hrexmt,
      fun _ => ⟨g.sources.keys.bagInter l, fun s => ?_, ?_⟩⟩
    · rw [hframe₂, hframe₁]
    · have hdeleted : s ∈ g.sources.keys.filter (fun source => !l.contains source) ↔
          s ∈ g.sources ∧ s ∉ l := by
        rw [List.mem_filter, Std.ExtTreeMap.mem_keys, Bool.not_eq_true', ← Bool.not_eq_true,
          List.contains_iff_mem]
      rw [hlookup₂, hlookup₁, excludedSource, hfilter]
      by_cases hs : s ∈ l
      · rw [if_neg fun h => (hdeleted.1 h).2 hs, if_pos hs, if_pos hs]
        rfl
      · rw [if_neg hs, if_neg hs]
        split
        · rfl
        · rename_i hkept
          exact Std.ExtTreeMap.getElem?_eq_none fun h => hkept (hdeleted.2 ⟨h, hs⟩)
    · rw [List.mem_bagInter, Std.ExtTreeMap.mem_keys]
      rfl
    · rw [hg₂, hgroup, List.append_nil]
  | fmExclude =>
    have hkeys : g.sources.keys = [] :=
      List.eq_nil_iff_forall_not_mem.2 fun s hs => h hfilter s (Std.ExtTreeMap.mem_keys.1 hs)
    obtain ⟨g₁, hg₁, hframe₁, hlookup₁⟩ := createSourceRecords_spec p now
      (g.startGroupTimer now p.groupMembershipInterval) true l
    dsimp only [RouterGroupData.startGroupTimer] at hframe₁ hlookup₁
    have hgroup : g₁.groupAddr = g.groupAddr := by rw [hframe₁]
    obtain ⟨g', hg', hrexmt⟩ := querySources_spec p now state g₁ (l.diff g.notRunning)
    have hloop : toExLoop l (g.startGroupTimer now p.groupMembershipInterval) g.sources.keys =
        .ok (g.startGroupTimer now p.groupMembershipInterval) := by
      rw [hkeys]
      rfl
    refine ⟨g', _, Error.bind_of_eq_ok hloop (Error.bind_of_eq_ok hg₁
      (Error.bind_of_eq_ok (set_complement_eq hl (pairwise_notRunning g)) hg')),
      Becomes.of_withoutRexmt ⟨?_, fun s => ?_⟩ hrexmt,
      fun hnodup => ⟨l.diff g.notRunning, fun s => ?_, ?_⟩⟩
    · rw [hframe₁, ← hfilter]
    · rw [hlookup₁, excludedSource, hfilter]
      split
      · rfl
      · exact Std.ExtTreeMap.getElem?_eq_none (h hfilter s)
    · rw [hnodup.mem_sdiff_iff]
      rfl
    · rw [hgroup, List.append_nil]

/-! ## All record types -/

theorem processRecordType_spec (p : Parameters) (now : ℤ) (state : RouterState)
    {recordType : ReportType} (h : WellDefined g recordType l) (hl : l.Pairwise (· ≤ ·)) :
    ∃ g' queries, processRecordType p now state g recordType l = .ok (g', queries) ∧
      Becomes g g' (newFilter recordType g.filter) (newTimer p now recordType g)
        (newSource p now recordType g l) ∧
      (l.Nodup → Asks state g.groupAddr (queried recordType g l)
        (groupQuery p now state recordType g) queries) := by
  have hnone : Asks state g.groupAddr ∅ [] [] :=
    ⟨[], fun s => ⟨fun hs => absurd hs List.not_mem_nil, False.elim⟩, rfl⟩
  cases recordType with
  | isIn =>
    obtain ⟨g', hg', hr⟩ := startSourceTimers_spec p now g l
    exact ⟨g', [], Error.bind_of_eq_ok hg' rfl, hr.becomes, fun _ => hnone⟩
  | allow =>
    obtain ⟨g', hg', hr⟩ := startSourceTimers_spec p now g l
    exact ⟨g', [], Error.bind_of_eq_ok hg' rfl, hr.becomes, fun _ => hnone⟩
  | isEx =>
    obtain ⟨g', hg', hr⟩ := processIsEx_spec p now h
    exact ⟨g', [], hg', hr, fun _ => hnone⟩
  | block => exact processBlock_spec p now state g hl
  | toIn =>
    obtain ⟨g', queries, hg', hr, hq⟩ := processToIn_spec p now state g hl
    exact ⟨g', queries, hg', hr, fun _ => hq⟩
  | toEx =>
    refine processToEx_spec p now state (fun hfilter => ?_) hl
    simp only [WellDefined, hfilter] at h
    exact h

theorem processRecordType_ne_ok {recordType : ReportType} (h : ¬ WellDefined g recordType l)
    {r : RouterGroupData × List Igmpv3Query} :
    processRecordType p now state g recordType l ≠ .ok r := by
  intro hr
  cases recordType with
  | isEx =>
    obtain ⟨_, hloop, -⟩ := Error.exists_of_bind_eq_ok hr
    refine h fun s hs => ?_
    have hdelete := of_deleteInLoop_eq_ok hloop s (Std.ExtTreeMap.mem_keys.2 hs)
    exact List.contains_iff_mem.1 (Bool.not_eq_eq_eq_not.1 hdelete)
  | toEx =>
    cases hfilter : g.filter with
    | fmInclude => exact h (by simp only [WellDefined, hfilter])
    | fmExclude =>
      simp only [processRecordType, processToEx, hfilter] at hr
      obtain ⟨g', hloop, -⟩ := Error.exists_of_bind_eq_ok hr
      apply h
      simp only [WellDefined, hfilter]
      intro s hs
      cases hkeys : g.sources.keys with
      | nil =>
        have hmem := Std.ExtTreeMap.mem_keys.2 hs
        rw [hkeys] at hmem
        exact absurd hmem List.not_mem_nil
      | cons a l' =>
        dsimp only [RouterGroupData.startGroupTimer] at hloop
        rw [hkeys] at hloop
        exact toExLoop_cons_ne_ok l _ a l' hloop
  | isIn => exact h trivial
  | allow => exact h trivial
  | block => exact h trivial
  | toIn => exact h trivial

theorem processGroupRecord_spec (p : Parameters) (now : ℤ) (state : RouterState)
    {recordType : ReportType} (h : WellDefined g recordType l) :
    ∃ g' queries, processGroupRecord p now state g recordType l = .ok (g', queries) ∧
      Becomes g g' (newFilter recordType g.filter) (newTimer p now recordType g)
        (newSource p now recordType g l) ∧
      (l.Nodup → Asks state g.groupAddr (queried recordType g l)
        (groupQuery p now state recordType g) queries) := by
  obtain ⟨timer, count, sources, hcancel⟩ := exists_cancelRexmt_eq g
  have hdefined : WellDefined (cancelRexmt g) recordType (sort l) := by
    rw [hcancel]
    unfold WellDefined at h ⊢
    simp only [mem_sort]
    exact h
  obtain ⟨g', queries, hg', hr, hq⟩ := processRecordType_spec p now state hdefined
    (pairwise_sort l)
  rw [hcancel] at hr hq
  refine ⟨g', queries, hg', ⟨hr.frame, ?_⟩, fun hnodup => ?_⟩
  · intro s
    rw [hr.lookup]
    unfold newSource excludedSource
    simp only [mem_sort]
  · have hasks := hq (nodup_sort hnodup)
    unfold queried at hasks ⊢
    simp only [mem_sort] at hasks
    exact hasks

theorem wellDefined_of_processGroupRecord {recordType : ReportType}
    {r : RouterGroupData × List Igmpv3Query}
    (h : processGroupRecord p now state g recordType l = .ok r) : WellDefined g recordType l := by
  obtain ⟨timer, count, sources, hcancel⟩ := exists_cancelRexmt_eq g
  by_contra hdefined
  refine processRecordType_ne_ok (fun hsorted => hdefined ?_) h
  rw [hcancel] at hsorted
  unfold WellDefined at hsorted ⊢
  simp only [mem_sort] at hsorted
  exact hsorted

end Inet.Ipv4.Igmpv3
