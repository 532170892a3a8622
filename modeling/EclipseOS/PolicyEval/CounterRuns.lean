import Mathlib.Data.List.Induction
import EclipseOS.Foundation.FirstMatch
import EclipseOS.Foundation.WindowLog
import EclipseOS.PolicyEval.Cbor.Records
import EclipseOS.PolicyEval.TaskCodec

/-! # Counters across restarts

A ring forgets what is stale and what it has no room for. Over a whole run, with
every restart in it, a ring holds the records made on it and on no other, so it
counts what the full history counts, up to the ring size. -/

namespace EclipseOS.PolicyEval

open Foundation Cbor

/-! ## One ring -/

namespace RateRing

theorem fades_inWindow (window : UInt64) :
    Fades fun now stamp => inWindow now window stamp where
  of_older := by
    intro now older stamp le fresh
    rw [UInt64.le_iff_toNat_le] at le
    simp only [inWindow, decide_eq_true_eq] at fresh ⊢
    omega
  of_later := by
    intro now later stamp le fresh
    rw [UInt64.le_iff_toNat_le] at le
    simp only [inWindow, decide_eq_true_eq] at fresh ⊢
    omega

/-- A ring after records, each with the window it was made under. -/
def recordAll (calls : List (UInt64 × UInt64)) : RateRing :=
  calls.foldl (fun ring call => (ring.record call.1 call.2).1) .new

theorem recordAll_snoc (calls : List (UInt64 × UInt64)) (call : UInt64 × UInt64) :
    recordAll (calls ++ [call]) = ((recordAll calls).record call.1 call.2).1 := by
  rw [recordAll, List.foldl_concat]
  rfl

theorem length_record_le {ring : RateRing} (now window : UInt64)
    (within : ring.stamps.length ≤ rateRing) :
    (ring.record now window).1.stamps.length ≤ rateRing := by
  have fewer := List.length_filter_le (inWindow now window) ring.stamps
  have room : 0 < rateRing := by decide
  rw [record, prune]
  dsimp only
  split <;> simp only [List.length_append, List.length_tail, List.length_singleton] <;> omega

theorem remembers_recordAll {window : UInt64} {calls : List (UInt64 × UInt64)}
    (throughout : ∀ call ∈ calls, call.2 = window)
    (ordered : (calls.map Prod.fst).Pairwise (· ≤ ·)) {now : UInt64}
    (past : ∀ call ∈ calls, call.1 ≤ now) :
    WindowLog.Remembers rateRing (fun now stamp => inWindow now window stamp) now
      (calls.map Prod.fst) (recordAll calls).stamps := by
  induction calls using List.reverseRecOn generalizing now with
  | nil => exact .empty
  | append_singleton calls call induction =>
    rw [List.map_append, List.pairwise_append] at ordered
    obtain ⟨earlier, _, before⟩ := ordered
    rw [List.forall_mem_append, List.forall_mem_singleton] at throughout past
    have sorted : ∀ other ∈ calls, other.1 ≤ call.1 := fun other member =>
      before _ (List.mem_map_of_mem member) _ (List.mem_singleton_self _)
    have made := induction throughout.1 earlier sorted
    have pushed := made.push (fades_inWindow window) (by decide) earlier
    have later := pushed.later (fades_inWindow window) past.2
    rw [List.map_append, recordAll_snoc, throughout.2]
    exact later

theorem count_recordAll {window : UInt64} {calls : List (UInt64 × UInt64)}
    (throughout : ∀ call ∈ calls, call.2 = window)
    (ordered : (calls.map Prod.fst).Pairwise (· ≤ ·)) {now : UInt64}
    (past : ∀ call ∈ calls, call.1 ≤ now) :
    (recordAll calls).count now window =
      min rateRing ((calls.map Prod.fst).filter (inWindow now window)).length := by
  have counted :=
    (remembers_recordAll throughout ordered past).count_eq (fades_inWindow window) ordered
  exact counted

end RateRing

/-! ## The rings of classes -/

/-- The ring of a class, empty until the class is there. -/
def ringOf (classes : List (String × RateRing)) (name : String) : RateRing :=
  (classes.find? (·.1 = name)).elim .new Prod.snd

theorem find?_of_perm {α β : Type} [DecidableEq β] {key : α → β} {items others : List α}
    (perm : items.Perm others) (nodup : (items.map key).Nodup) (wanted : β) :
    items.find? (key · = wanted) = others.find? (key · = wanted) := by
  have sole {items : List α} (nodup : (items.map key).Nodup) (item : α) :
      items.find? (key · = wanted) = some item ↔ item ∈ items ∧ key item = wanted := by
    constructor
    · intro found
      exact ⟨List.mem_of_find?_eq_some found, by simpa using List.find?_some found⟩
    · intro ⟨member, named⟩
      cases found : items.find? (key · = wanted) with
      | none => simpa [named] using List.find?_eq_none.mp found item member
      | some other =>
        have among := List.mem_of_find?_eq_some found
        have same : key other = key item := by simpa [named] using List.find?_some found
        rw [List.inj_on_of_nodup_map nodup among member same]
  apply Option.ext
  intro item
  rw [sole nodup, sole ((perm.map key).nodup_iff.mp nodup), perm.mem_iff]

theorem modify_findIdx {α : Type} (found : α → Bool) (change : α → α) (items : List α) :
    items.modify (items.findIdx found) change = modifyFirst found change items := by
  induction items with
  | nil => rfl
  | cons item items induction =>
    rw [List.findIdx_cons, modifyFirst]
    cases found item with
    | true => rfl
    | false => simp [induction]

def NameLt (left right : String) : Prop :=
  (utf8 left).length < (utf8 right).length ∨
    (utf8 left).length = (utf8 right).length ∧ utf8 left < utf8 right

namespace Counters

instance : Std.Total ClassLe where
  total left right := by
    unfold ClassLe
    rcases Nat.lt_trichotomy (utf8 left.1).length (utf8 right.1).length with less | same | more
    · exact Or.inl (Or.inl less)
    · rcases List.le_total (utf8 left.1) (utf8 right.1) with le | le
      · exact Or.inl (Or.inr ⟨same, le⟩)
      · exact Or.inr (Or.inr ⟨same.symm, le⟩)
    · exact Or.inr (Or.inl more)

instance : IsTrans (String × RateRing) ClassLe where
  trans left middle right := by
    unfold ClassLe
    intro first second
    rcases first with less | ⟨same, le⟩ <;> rcases second with less' | ⟨same', le'⟩
    · exact Or.inl (less.trans less')
    · exact Or.inl (same' ▸ less)
    · exact Or.inl (same ▸ less')
    · exact Or.inr ⟨same.trans same', List.le_trans le le'⟩

theorem nameLt_of_classLe {left right : String × RateRing} (le : ClassLe left right)
    (apart : left.1 ≠ right.1) : NameLt left.1 right.1 := by
  rcases le with less | ⟨same, le⟩
  · exact Or.inl less
  · refine Or.inr ⟨same, ?_⟩
    by_contra notLess
    exact apart (utf8_injective (List.le_antisymm le (List.not_lt.mp notLess)))

/-- Where the ring of `name` is, once it is there. -/
def withClass (classes : List (String × RateRing)) (name : String) :
    List (String × RateRing) :=
  if classes.any (·.1 = name) then classes
  else (classes ++ [(name, RateRing.new)]).insertionSort ClassLe

theorem classRingMut_eq (counters : Counters) (name : String) (change : RateRing → RateRing) :
    counters.classRingMut name change =
      { counters with
        irreversibleByClass :=
          modifyFirst (·.1 = name) (fun entry => (entry.1, change entry.2))
            (withClass counters.irreversibleByClass name) } := by
  rw [classRingMut, ← modify_findIdx]
  rfl

/-- The classes as `class_ring_mut` leaves them. -/
structure Canonical (classes : List (String × RateRing)) : Prop where
  names : (classes.map Prod.fst).Pairwise NameLt
  rings : ∀ entry ∈ classes, entry.2.stamps.length ≤ rateRing

theorem Canonical.nodup {classes : List (String × RateRing)} (canonical : Canonical classes) :
    (classes.map Prod.fst).Nodup := by
  apply canonical.names.imp
  intro left right before same
  subst same
  rcases before with less | ⟨_, less⟩
  · exact Nat.lt_irrefl _ less
  · exact List.lt_irrefl _ less

variable {classes : List (String × RateRing)} {name other : String}

theorem nodup_pushed (canonical : Canonical classes)
    (absent : classes.any (·.1 = name) = false) :
    ((classes ++ [(name, RateRing.new)]).map Prod.fst).Nodup := by
  rw [List.map_append, List.nodup_append]
  refine ⟨canonical.nodup, List.nodup_singleton _, ?_⟩
  intro known inClasses pushed last same
  obtain ⟨entry, member, rfl⟩ := List.mem_map.mp inClasses
  cases List.mem_singleton.mp last
  rw [List.any_eq_false] at absent
  exact absent entry member (by simpa using same)

theorem canonical_withClass (canonical : Canonical classes) :
    Canonical (withClass classes name) := by
  unfold withClass
  split
  · exact canonical
  · rename_i absent
    rw [Bool.not_eq_true] at absent
    have perm := List.perm_insertionSort ClassLe (classes ++ [(name, RateRing.new)])
    have nodup : ((List.insertionSort ClassLe (classes ++ [(name, RateRing.new)])).map
        Prod.fst).Nodup :=
      (perm.map Prod.fst).nodup_iff.mpr (nodup_pushed canonical absent)
    constructor
    · rw [List.pairwise_map]
      have sorted := List.pairwise_insertionSort ClassLe (classes ++ [(name, RateRing.new)])
      exact (sorted.and (List.pairwise_map.mp nodup)).imp fun both =>
        nameLt_of_classLe both.1 both.2
    · intro entry member
      rcases List.mem_append.mp (perm.mem_iff.mp member) with known | pushed
      · exact canonical.rings entry known
      · cases List.mem_singleton.mp pushed
        exact Nat.zero_le _

theorem ringOf_withClass (canonical : Canonical classes) :
    ringOf (withClass classes name) other = ringOf classes other := by
  unfold withClass
  split
  · rfl
  · rename_i absent
    rw [Bool.not_eq_true] at absent
    have perm := List.perm_insertionSort ClassLe (classes ++ [(name, RateRing.new)])
    rw [ringOf, ← find?_of_perm perm.symm (nodup_pushed canonical absent), List.find?_append,
      ringOf]
    cases classes.find? (·.1 = other) with
    | some entry => rfl
    | none =>
      by_cases same : name = other
      · simp [same]
      · simp [same]

theorem exists_withClass : ∃ entry ∈ withClass classes name, entry.1 = name := by
  unfold withClass
  split
  · rename_i present
    simpa using present
  · refine ⟨(name, .new), ?_, rfl⟩
    exact (List.mem_insertionSort ClassLe).mpr (List.mem_append_right _ (List.mem_singleton_self _))

theorem ringOf_modifyFirst (change : RateRing → RateRing)
    (present : ∃ entry ∈ classes, entry.1 = name) :
    ringOf (modifyFirst (·.1 = name) (fun entry => (entry.1, change entry.2)) classes) other =
      if other = name then change (ringOf classes name) else ringOf classes other := by
  unfold ringOf
  by_cases same : other = name
  · rw [if_pos same, same,
      find?_modifyFirst (fun entry => (entry.1, change entry.2)) fun _ => rfl]
    obtain ⟨entry, member, named⟩ := present
    cases found : classes.find? (·.1 = name) with
    | none => simpa [named] using List.find?_eq_none.mp found entry member
    | some first => rfl
  · have apart : ∀ entry : String × RateRing, decide (entry.1 = name) = true →
        decide (entry.1 = other) = false ∧ decide (entry.1 = other) = false := by
      intro entry named
      have isName : entry.1 = name := by simpa using named
      have notOther : decide (entry.1 = other) = false :=
        decide_eq_false fun isOther => same (isOther.symm.trans isName)
      exact ⟨notOther, notOther⟩
    rw [if_neg same,
      find?_modifyFirst_of_apart (fun entry => (entry.1, change entry.2)) apart]

theorem canonical_modifyFirst {change : RateRing → RateRing}
    (keeps : ∀ ring : RateRing, ring.stamps.length ≤ rateRing →
      (change ring).stamps.length ≤ rateRing) (canonical : Canonical classes) :
    Canonical (modifyFirst (·.1 = name) (fun entry => (entry.1, change entry.2)) classes) := by
  rw [modifyFirst_eq_map Prod.fst canonical.nodup]
  constructor
  · have names : (fun entry : String × RateRing =>
        (if entry.1 = name then (entry.1, change entry.2) else entry).1) = Prod.fst := by
      funext entry
      split <;> rfl
    rw [List.map_map, Function.comp_def, names]
    exact canonical.names
  · intro entry member
    obtain ⟨old, inClasses, rfl⟩ := List.mem_map.mp member
    have within := canonical.rings old inClasses
    split
    · exact keeps old.2 within
    · exact within

end Counters

/-! ## Runs -/

/-- What happens to the counters of a task, and to those of the task that resumes it. -/
inductive CounterEvent where
  /-- A record on the overall ring, or on the ring of a class. -/
  | record (ring : Option String) (now window : UInt64)
  /-- `class_ring_mut`, with nothing recorded. -/
  | touch (name : String)
  | numbers (promptsShown promptsAllowed deniedIrreversibleStreak retries : UInt32)
      (egressBytesUp : UInt64) (channelMessages : UInt32)
  /-- The counters of a task opened to resume this one. -/
  | resume
  /-- The counters are read back from the journal. -/
  | restart
  deriving DecidableEq

/-- A `Vec<u8>` holds at most `isize::MAX` bytes; one that would grow longer panics. -/
def vec (bytes : Bytes) : Option Bytes := if bytes.length < 2 ^ 63 then some bytes else none

namespace Counters

def ring (counters : Counters) : Option String → RateRing
  | none => counters.irreversible
  | some name => ringOf counters.irreversibleByClass name

def record (counters : Counters) (ring : Option String) (now window : UInt64) : Counters :=
  match ring with
  | none => { counters with irreversible := (counters.irreversible.record now window).1 }
  | some name => counters.classRingMut name fun ring => (ring.record now window).1

def step (counters : Counters) : CounterEvent → Option Counters
  | .record ring now window => some (counters.record ring now window)
  | .touch name => some (counters.classRingMut name id)
  | .numbers promptsShown promptsAllowed deniedIrreversibleStreak retries egressBytesUp
      channelMessages =>
      some { counters with
        promptsShown, promptsAllowed, deniedIrreversibleStreak, retries, egressBytesUp,
        channelMessages }
  | .resume =>
    some { default with
      irreversible := counters.irreversible
      irreversibleByClass := counters.irreversibleByClass
      deniedIrreversibleStreak := counters.deniedIrreversibleStreak }
  | .restart => do
    let bytes ← vec counters.encode
    match decode.run (Reader.new bytes) with
    | .ok (counters, _) => some counters
    | .error _ => none

def run (events : List CounterEvent) : Option Counters := events.foldlM step default

/-- When and with which window an event records on a ring. -/
def callOn (ring : Option String) : CounterEvent → Option (UInt64 × UInt64)
  | .record made now window => if made = ring then some (now, window) else none
  | _ => none

def calls (ring : Option String) (events : List CounterEvent) : List (UInt64 × UInt64) :=
  events.filterMap (callOn ring)

structure Kept (counters : Counters) : Prop where
  irreversible : counters.irreversible.stamps.length ≤ rateRing
  classes : Canonical counters.irreversibleByClass

theorem kept_default : Kept default where
  irreversible := Nat.zero_le _
  classes := ⟨.nil, List.forall_mem_nil _⟩

variable {counters after : Counters}

theorem kept_classRingMut {name : String} {change : RateRing → RateRing}
    (keeps : ∀ ring : RateRing, ring.stamps.length ≤ rateRing →
      (change ring).stamps.length ≤ rateRing) (kept : Kept counters) :
    Kept (counters.classRingMut name change) := by
  rw [classRingMut_eq]
  exact ⟨kept.irreversible, canonical_modifyFirst keeps (canonical_withClass kept.classes)⟩

theorem ring_classRingMut {name : String} {change : RateRing → RateRing} (kept : Kept counters)
    (ring : Option String) :
    (counters.classRingMut name change).ring ring =
      if ring = some name then change (counters.ring (some name)) else counters.ring ring := by
  rw [classRingMut_eq]
  cases ring with
  | none => rfl
  | some other =>
    simp only [Counters.ring, Option.some.injEq]
    rw [ringOf_modifyFirst change exists_withClass, ringOf_withClass kept.classes,
      ringOf_withClass kept.classes]

theorem kept_record (kept : Kept counters) (made : Option String) (now window : UInt64) :
    Kept (counters.record made now window) := by
  cases made with
  | none => exact ⟨RateRing.length_record_le now window kept.irreversible, kept.classes⟩
  | some name => exact kept_classRingMut (fun _ => RateRing.length_record_le now window) kept

theorem ring_record (kept : Kept counters) (made ring : Option String) (now window : UInt64) :
    (counters.record made now window).ring ring =
      if made = ring then ((counters.ring ring).record now window).1 else counters.ring ring := by
  cases made with
  | none => cases ring <;> rfl
  | some name =>
    rw [record, ring_classRingMut kept]
    by_cases same : some name = ring
    · rw [if_pos same.symm, if_pos same, same]
    · rw [if_neg (Ne.symm same), if_neg same]

theorem accepts_encode {depth : Nat} (kept : Kept counters)
    (short : counters.encode.length < 2 ^ 64) (room : depth + 1 < maxMapDepth) :
    Accepts decode depth counters counters.encode := by
  apply accepts_decode ⟨kept.irreversible, kept.classes.rings, ?_⟩ short room
  have inBlock : (encodeClasses counters.irreversibleByClass).length < 2 ^ 64 := by
    rw [encode_eq] at short
    have inRows : ("irreversible_by_class",
        some (encodeClasses counters.irreversibleByClass)) ∈ schema.rows counters := by
      simp [schema, Schema.rows]
    exact lt_of_le_of_lt (length_le_record inRows) short
  rw [NamesAscend, List.pairwise_map]
  refine kept.classes.names.imp_of_mem fun _ member before => ?_
  apply Writer.text_lt_text _ before
  obtain ⟨entry, inClasses, rfl⟩ := List.mem_map.mp member
  have inRows : (entry.1, encodeRing entry.2) ∈
      (classRows counters.irreversibleByClass).insertionSort RowLe :=
    (List.mem_insertionSort RowLe).mpr (List.mem_map_of_mem inClasses)
  rw [encodeClasses_eq] at inBlock
  have key : (Writer.text entry.1).length < 2 ^ 64 :=
    lt_of_le_of_lt (length_key_le inRows) inBlock
  rw [Writer.text, List.length_append] at key
  omega

theorem run_decode_encode (kept : Kept counters) (short : counters.encode.length < 2 ^ 64) :
    decode.run (Reader.new counters.encode) = .ok (counters, Reader.new []) := by
  have read := accepts_encode kept short (show 0 + 1 < maxMapDepth by decide) [] [] rfl
  rwa [List.append_nil] at read

/-- What one event does: the counters stay well formed, and only the ring a record is
made on changes. -/
theorem step_spec {event : CounterEvent} (kept : Kept counters)
    (stepped : counters.step event = some after) :
    Kept after ∧ ∀ ring, after.ring ring =
      (calls ring [event]).foldl (fun ring call => (ring.record call.1 call.2).1)
        (counters.ring ring) := by
  cases event with
  | record made now window =>
    cases stepped
    refine ⟨kept_record kept made now window, fun ring => ?_⟩
    rw [ring_record kept]
    by_cases same : made = ring
    · simp [calls, callOn, same]
    · simp [calls, callOn, same]
  | touch name =>
    cases stepped
    refine ⟨kept_classRingMut (fun _ within => within) kept, fun ring => ?_⟩
    rw [ring_classRingMut kept]
    split
    · rename_i same
      cases same
      rfl
    · rfl
  | numbers =>
    cases stepped
    exact ⟨⟨kept.irreversible, kept.classes⟩, fun ring => by cases ring <;> rfl⟩
  | resume =>
    cases stepped
    exact ⟨⟨kept.irreversible, kept.classes⟩, fun ring => by cases ring <;> rfl⟩
  | restart =>
    simp only [step, Option.bind_eq_bind, Option.bind_eq_some_iff] at stepped
    obtain ⟨bytes, journalled, read⟩ := stepped
    obtain ⟨short, written⟩ := Option.ite_none_right_eq_some.mp journalled
    cases written
    rw [run_decode_encode kept (short.trans (by decide))] at read
    cases read
    exact ⟨kept, fun _ => rfl⟩

theorem run_snoc {events : List CounterEvent} {event : CounterEvent} :
    run (events ++ [event]) = some after ↔
      ∃ before, run events = some before ∧ before.step event = some after := by
  rw [run, List.foldlM_append]
  simp [run, Option.bind_eq_some_iff]

theorem calls_append {ring : Option String} {events more : List CounterEvent} :
    calls ring (events ++ more) = calls ring events ++ calls ring more :=
  List.filterMap_append

theorem run_spec {events : List CounterEvent} (ran : run events = some counters) :
    Kept counters ∧ ∀ ring, counters.ring ring = RateRing.recordAll (calls ring events) := by
  induction events using List.reverseRecOn generalizing counters with
  | nil =>
    cases ran
    exact ⟨kept_default, fun ring => by cases ring <;> rfl⟩
  | append_singleton events event induction =>
    obtain ⟨before, earlier, stepped⟩ := run_snoc.mp ran
    obtain ⟨kept, rings⟩ := induction earlier
    obtain ⟨keptAfter, changed⟩ := step_spec kept stepped
    refine ⟨keptAfter, fun ring => ?_⟩
    rw [changed, rings, calls_append, RateRing.recordAll, RateRing.recordAll,
      List.foldl_append]

/-- The events before the first record on a ring that is later than `now`. -/
def asOf (ring : Option String) (now : UInt64) (events : List CounterEvent) :
    List CounterEvent :=
  events.takeWhile fun event => (callOn ring event).all (·.1 ≤ now)

theorem takeWhile_eq_filter {made : List (UInt64 × UInt64)} (now : UInt64)
    (ordered : (made.map Prod.fst).Pairwise (· ≤ ·)) :
    made.takeWhile (·.1 ≤ now) = made.filter (·.1 ≤ now) := by
  induction made with
  | nil => rfl
  | cons call made induction =>
    rw [List.map_cons, List.pairwise_cons] at ordered
    by_cases past : call.1 ≤ now
    · rw [List.takeWhile_cons_of_pos (by simpa using past),
        List.filter_cons_of_pos (by simpa using past), induction ordered.2]
    · have later : ∀ other ∈ call :: made, ¬decide (other.1 ≤ now) = true := by
        intro other member early
        rw [decide_eq_true_eq] at early
        rcases List.mem_cons.mp member with rfl | member
        · exact past early
        · exact past (UInt64.le_trans (ordered.1 _ (List.mem_map_of_mem member)) early)
      rw [List.filter_eq_nil_iff.mpr later]
      exact List.takeWhile_cons_of_neg (later call List.mem_cons_self)

theorem calls_asOf {ring : Option String} {now : UInt64} {events : List CounterEvent}
    (ordered : ((calls ring events).map Prod.fst).Pairwise (· ≤ ·)) :
    calls ring (asOf ring now events) = (calls ring events).filter (·.1 ≤ now) := by
  rw [calls, asOf, ← List.takeWhile_filterMap]
  exact takeWhile_eq_filter now ordered

/-- How many records of a ring are in the window that ends at `now`, in the full history. -/
def inHistory (ring : Option String) (now window : UInt64) (events : List CounterEvent) : Nat :=
  ((calls ring events).filter fun call =>
    call.1 ≤ now ∧ now.toNat - call.1.toNat < window.toNat).length

/-- At any time a ring counts as the full history does, up to the ring size, and counters
are read back from the journal as they were. -/
theorem ring_refines_history (events : List CounterEvent) :
    (∀ (ring : Option String) (window now : UInt64) (counters : Counters),
      (∀ call ∈ calls ring events, call.2 = window) →
      ((calls ring events).map Prod.fst).Pairwise (· ≤ ·) →
      run (asOf ring now events) = some counters →
      (counters.ring ring).count now window =
        min rateRing (inHistory ring now window events) ∧
      ∀ ceiling ≤ rateRing, (counters.ring ring).count now window < ceiling ↔
        inHistory ring now window events < ceiling) ∧
    (∀ (counters : Counters) (bytes rest : Bytes) (maps : List Frame),
      run events = some counters → vec counters.encode = some bytes →
      maps.length + 1 < maxMapDepth →
      decode.run ⟨bytes ++ rest, maps⟩ = .ok (counters, ⟨rest, maps⟩)) := by
  refine ⟨fun ring window now counters throughout ordered ran => ?_, ?_⟩
  · obtain ⟨_, rings⟩ := run_spec ran
    have counted : (counters.ring ring).count now window =
        min rateRing (inHistory ring now window events) := by
      rw [rings, calls_asOf ordered]
      have made : ∀ call ∈ (calls ring events).filter (·.1 ≤ now),
          call ∈ calls ring events ∧ call.1 ≤ now := by
        intro call member
        simpa using List.mem_filter.mp member
      have sorted := ordered.sublist
        ((List.filter_sublist (p := (·.1 ≤ now)) (l := calls ring events)).map Prod.fst)
      rw [RateRing.count_recordAll (fun call member => throughout call (made call member).1) sorted
        fun call member => (made call member).2]
      rw [inHistory, List.filter_map, List.length_map, List.filter_filter]
      congr 2
      apply List.filter_congr
      intro call _
      simp [RateRing.inWindow, Bool.and_comm]
    refine ⟨counted, fun ceiling within => ?_⟩
    rw [counted]
    omega
  · intro counters bytes rest maps ran journalled room
    obtain ⟨short, written⟩ := Option.ite_none_right_eq_some.mp journalled
    cases written
    obtain ⟨kept, _⟩ := run_spec ran
    exact accepts_encode kept (short.trans (by decide)) room rest maps rfl

/-- Two deletions with a restart between them, under the window of an hour. -/
def twoDeletions : List CounterEvent :=
  [.record (some "delete") 500 3600000, .restart, .record (some "send") 600 3600000,
    .record (some "delete") 700 3600000, .restart]

def deletionCounters : Counters :=
  ⟨0, 0, .new, [("send", ⟨[600]⟩), ("delete", ⟨[500, 700]⟩)], 0, 0, 0, 0⟩

theorem ring_refines_history_deletions :
    (deletionCounters.ring (some "delete")).count 800 3600000 =
      min rateRing (inHistory (some "delete") 800 3600000 twoDeletions) ∧
    decode.run ⟨deletionCounters.encode ++ [], []⟩ = .ok (deletionCounters, ⟨[], []⟩) := by
  obtain ⟨counted, decoded⟩ := ring_refines_history twoDeletions
  have ran : run (asOf (some "delete") 800 twoDeletions) = some deletionCounters := by
    decide +kernel
  have whole : run twoDeletions = some deletionCounters := by decide +kernel
  have journalled : vec deletionCounters.encode = some deletionCounters.encode := by
    decide +kernel
  refine ⟨(counted (some "delete") 3600000 800 deletionCounters ?_ ?_ ran).1, ?_⟩
  · simp [calls, callOn, twoDeletions]
  · have made : calls (some "delete") twoDeletions = [(500, 3600000), (700, 3600000)] := rfl
    rw [made]
    simp
  · exact decoded deletionCounters deletionCounters.encode [] [] whole journalled (by decide)

end Counters

end EclipseOS.PolicyEval
