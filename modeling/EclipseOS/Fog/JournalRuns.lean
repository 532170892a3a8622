import EclipseOS.Fog.Journal
import EclipseOS.Foundation.History
import Mathlib.Data.List.Sort

/-! # Runs of the journal

What the journal's file holds while jobs on several lanes write to it, some of their writes
fail, and it is opened again. -/

namespace EclipseOS.Fog

open Foundation
open PrefixCodec (Vec Signed)

/-- A call on the journal, and how its write ends. -/
inductive JournalOp where
  | begin (spec : Option JobSpec) (outcome : Write)
  | created (run : UInt64) (path : RawPath) (ino : UInt64) (outcome : Write)
  | aside (run : UInt64) (target aside : RawPath) (outcome : Write)
  | commit (run : UInt64) (outcome : Write)
  | finish (run : UInt64) (outcome : Write)
  | append (undoable : Bool) (items : Vec Item) (nowS : Signed 63) (outcome : Write)
  | markUndone (seq : UInt64) (outcome : Write)
  | reopen (nowS : Int)
  deriving DecidableEq

namespace Journal

def start : Journal := ⟨[], [], 1⟩

def step (journal : Journal) : JournalOp → Journal
  | .begin spec outcome => (journal.begin spec outcome).1
  | .created run path ino outcome => (journal.write (.created run path ino) outcome).1
  | .aside run target aside outcome => (journal.write (.aside run target aside) outcome).1
  | .commit run outcome => (journal.write (.commit run) outcome).1
  | .finish run outcome => (journal.write (.finish run) outcome).1
  | .append undoable items nowS outcome => (journal.append undoable items nowS outcome).1
  | .markUndone seq outcome => (journal.markUndone seq outcome).1
  | .reopen nowS => reopen journal.file nowS

def run (ops : List JournalOp) : Journal := ops.foldl step start

theorem run_snoc (past : List JournalOp) (op : JournalOp) :
    run (past ++ [op]) = (run past).step op := by
  rw [run, List.foldl_append]
  rfl

/-- The record that a call writes, and how the write ends. -/
def writes (journal : Journal) : JournalOp → Option (Record × Write)
  | .begin spec outcome => some (.begin journal.nextSeq spec, outcome)
  | .created run path ino outcome => some (.created run path ino, outcome)
  | .aside run target aside outcome => some (.aside run target aside, outcome)
  | .commit run outcome => some (.commit run, outcome)
  | .finish run outcome => some (.finish run, outcome)
  | .append undoable items nowS outcome =>
    some (.op (journal.nextEntry undoable items nowS), outcome)
  | .markUndone seq outcome => some (.undone seq, outcome)
  | .reopen _ => none

/-- Nothing is written behind part of a record, and no record is too long for its frame. -/
def Intact (journal : Journal) (op : JournalOp) : Prop :=
  match journal.writes op with
  | none => True
  | some (record, outcome) =>
    outcome = .fails 0 ∨ framing.Fits record ∧ framing.unread journal.file = []

instance (journal : Journal) (op : JournalOp) : Decidable (journal.Intact op) := by
  unfold Intact
  split <;> infer_instance

/-- How much of a record a write leaves in the file. -/
def left (record : Record) : Write → Bytes
  | .done => framing.frame record
  | .fails kept => (framing.frame record).take kept

/-- The whole record is in the file, whatever the call returned. -/
def wrote (record : Record) : Write → Bool
  | .done => true
  | .fails kept => (framing.frame record).length ≤ kept

variable {journal : Journal} {op : JournalOp} {record : Record} {outcome : Write}

theorem file_write : (journal.write record outcome).1.file = journal.file ++ left record outcome := by
  cases outcome <;> rfl

theorem file_step (writing : journal.writes op = some (record, outcome)) :
    (journal.step op).file = journal.file ++ left record outcome := by
  cases op <;> cases writing <;> cases outcome <;> rfl

theorem records_left (fits : framing.Fits record) :
    framing.records (left record outcome) = if wrote record outcome then [record] else [] := by
  cases outcome with
  | done => exact (Framing.records_frame fits).1
  | fails kept =>
    change framing.records ((framing.frame record).take kept) = _
    by_cases whole : (framing.frame record).length ≤ kept
    · rw [if_pos (by simpa [wrote] using whole), List.take_of_length_le whole]
      exact (Framing.records_frame fits).1
    · rw [if_neg (by simpa [wrote] using whole)]
      exact Framing.records_torn fits (by omega)

theorem wrote_none (record : Record) : wrote record (.fails 0) = false := by
  unfold wrote
  rw [Framing.length_frame]
  exact decide_eq_false (by omega)

theorem records_step (intact : journal.Intact op)
    (writing : journal.writes op = some (record, outcome)) :
    framing.records (journal.step op).file =
      framing.records journal.file ++ if wrote record outcome then [record] else [] := by
  rw [file_step writing]
  unfold Intact at intact
  rw [writing] at intact
  rcases intact with rfl | ⟨fits, whole⟩
  · rw [wrote_none, if_neg Bool.false_ne_true, List.append_nil, left, List.take_zero,
      List.append_nil]
  · rw [(Framing.records_append whole _).1, records_left fits]

theorem records_compact {entries : List Entry} (fits : ∀ entry ∈ entries, framing.Fits (.op entry)) :
    framing.records (compact entries) = entries.map .op ∧ framing.unread (compact entries) = [] := by
  induction entries with
  | nil => exact ⟨rfl, rfl⟩
  | cons entry entries induction =>
    rcases Framing.records_frame (fits entry (List.mem_cons_self ..)) with ⟨first, whole⟩
    rcases induction fun other member => fits other (List.mem_cons_of_mem _ member) with
      ⟨others, rest⟩
    rcases Framing.records_append whole (compact entries) with ⟨records, unread⟩
    rw [first, others] at records
    exact ⟨records, unread.trans rest⟩

/-! ## What is promised -/

/-- The limits keep an entry: it is recent, and fewer than `KEEP_OPS` recent ones follow it. -/
def Within (nowS : Int) (buf : Bytes) (entry : Entry) : Prop :=
  ∃ older newer, (load buf).entries.filter (isRecent nowS) = older ++ entry :: newer ∧
    newer.length < KEEP_OPS

/-- An append of the entry returned success, nobody undid it, and no limits dropped it. -/
def Standing (past : List JournalOp) (entry : Entry) : Prop :=
  ∃ before undoable items nowS after, past = before ++ .append undoable items nowS .done :: after ∧
    entry = (run before).nextEntry undoable items nowS ∧
    (∀ outcome, .markUndone entry.seq outcome ∉ after) ∧
    ∀ middle later rest, after = middle ++ .reopen later :: rest →
      Within later (run (before ++ .append undoable items nowS .done :: middle)).file entry

/-- A call tells the journal of a node of a run. -/
def Names (op : JournalOp) (run : UInt64) : Reconcile → Prop
  | .removeIf path ino => ∃ outcome, op = .created run path ino outcome
  | .putBack target aside => ∃ outcome, op = .aside run target aside outcome
  | .leave _ => True

/-- A commit or an end of a run was written successfully. -/
def Settles (op : JournalOp) (run : UInt64) : Prop :=
  op = .commit run .done ∨ op = .finish run .done

/-- The journal was told of a node of a run, which has not been settled since. -/
def Unsettled (past : List JournalOp) (run : UInt64) (node : Reconcile) : Prop :=
  ∃ before op after, past = before ++ op :: after ∧ Names op run node ∧
    ∀ later ∈ after, ¬Settles later run

/-- Recovery acts on the node, and does not only report it. -/
def touches : Reconcile → Prop
  | .leave _ => False
  | _ => True

structure Survives (past : List JournalOp) : Prop where
  /-- Every standing entry is loaded. -/
  entries : ∀ entry, Standing past entry → entry ∈ (load (run past).file).entries ∧
    ∀ nowS, Within nowS (run past).file entry → entry ∈ (reopen (run past).file nowS).entries
  /-- Recovery touches no node of a run that was settled after it. -/
  settled : ∀ number node, (number, node) ∈ recovery (run past).file → touches node →
    Unsettled past number node

/-! ## What is loaded -/

variable {past : List JournalOp} {entry : Entry} {nowS : Int}

theorem load_step (intact : journal.Intact op)
    (writing : journal.writes op = some (record, outcome)) :
    load (journal.step op).file =
      if wrote record outcome then (load journal.file).read record else load journal.file := by
  unfold load
  rw [records_step intact writing, List.foldl_append]
  split <;> rfl

theorem entries_read {loaded : Loaded} :
    entry ∈ (loaded.read record).entries ↔
      record = .op entry ∨ entry ∈ loaded.entries ∧ record ≠ .undone entry.seq := by
  have kept : ∀ run change, (loaded.update run change).entries = loaded.entries := by
    intro run change
    unfold Loaded.update
    split <;> rfl
  cases record with
  | op other =>
    have last : entry ∈ [other] ↔ Record.op other = .op entry := by
      rw [List.mem_singleton, Record.op.injEq]
      exact eq_comm
    simp only [Loaded.read, List.mem_append, last, ne_eq, reduceCtorEq, not_false_eq_true,
      and_true]
    exact or_comm
  | undone seq =>
    simp only [Loaded.read, List.mem_filter, ne_eq, decide_eq_true_eq, reduceCtorEq, false_or,
      Record.undone.injEq]
    rw [eq_comm]
  | begin run spec => simp [Loaded.read]
  | created run path ino => simp [Loaded.read, kept]
  | aside run target aside => simp [Loaded.read, kept]
  | commit run => simp [Loaded.read, kept]
  | finish run => simp [Loaded.read]

theorem op_of_load {records : List Record}
    (loaded : entry ∈ (records.foldl Loaded.read .empty).entries) : .op entry ∈ records := by
  induction records using List.reverseRecOn with
  | nil => cases loaded
  | append_singleton records record induction =>
    rw [List.foldl_append] at loaded
    rcases entries_read.mp loaded with rfl | ⟨before, -⟩
    · exact List.mem_append_right _ (List.mem_singleton_self _)
    · exact List.mem_append_left _ (induction before)

theorem mem_of_mem_retain {entries : List Entry} (member : entry ∈ retain nowS entries) :
    entry ∈ entries :=
  (List.mem_filter.mp (List.mem_of_mem_drop member)).1

theorem mem_retain_of_within {buf : Bytes} (within : Within nowS buf entry) :
    entry ∈ retain nowS (load buf).entries := by
  rcases within with ⟨older, newer, split, few⟩
  unfold retain
  dsimp only
  rw [split, List.drop_append_of_le_length]
  · exact List.mem_append_right _ (List.mem_cons_self ..)
  · rw [List.length_append, List.length_cons]
    omega

/-- Every record that can be read is short enough for its frame. -/
def AllFit (journal : Journal) : Prop :=
  ∀ record ∈ framing.records journal.file, framing.Fits record

theorem AllFit.retained (fit : AllFit journal) (nowS : Int) :
    ∀ entry ∈ retain nowS (load journal.file).entries, framing.Fits (.op entry) :=
  fun _ member => fit _ (op_of_load (mem_of_mem_retain member))

theorem load_ops (entries : List Entry) :
    ((entries.map Record.op).foldl Loaded.read .empty).entries = entries ∧
      ((entries.map Record.op).foldl Loaded.read .empty).runs = ∅ := by
  induction entries using List.reverseRecOn with
  | nil => exact ⟨rfl, rfl⟩
  | append_singleton entries entry induction =>
    rw [List.map_append, List.foldl_append]
    exact ⟨congrArg (· ++ [entry]) induction.1, induction.2⟩

theorem load_reopen (fit : AllFit journal) (nowS : Int) :
    framing.records (reopen journal.file nowS).file =
        (retain nowS (load journal.file).entries).map .op ∧
      (load (reopen journal.file nowS).file).entries = retain nowS (load journal.file).entries ∧
      (load (reopen journal.file nowS).file).runs = ∅ := by
  have records := (records_compact (fit.retained nowS)).1
  rw [reopen_file, load_eq (compact _), records]
  exact ⟨rfl, load_ops _⟩

theorem AllFit.step (fit : AllFit journal) (intact : journal.Intact op) :
    AllFit (journal.step op) := by
  cases writing : journal.writes op with
  | some written =>
    rcases written with ⟨record, outcome⟩
    intro other member
    rw [records_step intact writing] at member
    rcases List.mem_append.mp member with before | now
    · exact fit other before
    · split at now
      · rename_i whole
        cases List.mem_singleton.mp now
        unfold Intact at intact
        rw [writing] at intact
        rcases intact with rfl | ⟨fits, -⟩
        · exact absurd whole (by rw [wrote_none]; exact Bool.false_ne_true)
        · exact fits
      · cases now
  | none =>
    cases op with
    | reopen nowS =>
      intro record member
      change record ∈ framing.records (reopen journal.file nowS).file at member
      rw [(load_reopen fit nowS).1] at member
      rcases List.mem_map.mp member with ⟨entry, kept, rfl⟩
      exact fit.retained nowS entry kept
    | _ => cases writing

theorem allFit_start : AllFit start := by
  intro record member
  rw [start, Framing.records_nil] at member
  cases member

theorem allFit_run (along : Along step Intact start past) : AllFit (run past) := by
  induction past using List.reverseRecOn with
  | nil => exact allFit_start
  | append_singleton past op induction =>
    rcases along_snoc.mp along with ⟨along, intact⟩
    rw [run_snoc]
    exact (induction along).step intact

/-! ## Standing entries -/

theorem standing_snoc (standing : Standing (past ++ [op]) entry) :
    (∃ undoable items nowS, op = .append undoable items nowS .done ∧
        entry = (run past).nextEntry undoable items nowS) ∨
      Standing past entry ∧ (∀ outcome, op ≠ .markUndone entry.seq outcome) ∧
        ∀ nowS, op = .reopen nowS → Within nowS (run past).file entry := by
  rcases standing with ⟨before, undoable, items, nowS, after, split, rfl, unmarked, kept⟩
  rcases snoc_eq_split.mp split with ⟨rfl, rfl, -⟩ | ⟨middle, rfl, rfl⟩
  · exact .inl ⟨undoable, items, nowS, rfl, rfl⟩
  · refine .inr ⟨⟨before, undoable, items, nowS, middle, rfl, rfl, ?_, ?_⟩, ?_, ?_⟩
    · exact fun outcome member => unmarked outcome (List.mem_append_left _ member)
    · intro inner later rest same
      exact kept inner later (rest ++ [op]) (by simp [same])
    · intro outcome same
      exact unmarked outcome (List.mem_append_right _ (same ▸ List.mem_singleton_self _))
    · rintro later rfl
      exact kept middle later [] rfl

theorem standing_loaded (along : Along step Intact start past) (standing : Standing past entry) :
    entry ∈ (load (run past).file).entries := by
  induction past using List.reverseRecOn with
  | nil =>
    rcases standing with ⟨before, _, _, _, after, split, -⟩
    exact absurd split.symm (by simp)
  | append_singleton past op induction =>
    rcases along_snoc.mp along with ⟨before, intact⟩
    have intact : (run past).Intact op := intact
    rw [run_snoc]
    rcases standing_snoc standing with ⟨undoable, items, nowS, rfl, rfl⟩ |
      ⟨standing, unmarked, kept⟩
    · rw [load_step intact rfl]
      exact entries_read.mpr (.inl rfl)
    · have loaded := induction before standing
      cases writing : (run past).writes op with
      | some written =>
        rcases written with ⟨record, outcome⟩
        rw [load_step intact writing]
        split
        · refine entries_read.mpr (.inr ⟨loaded, ?_⟩)
          rintro rfl
          cases op with
          | markUndone seq result =>
            cases writing
            exact unmarked outcome rfl
          | _ => cases writing
        · exact loaded
      | none =>
        cases op with
        | reopen nowS =>
          change entry ∈ (load (reopen (run past).file nowS).file).entries
          rw [(load_reopen (allFit_run before) nowS).2.1]
          exact mem_retain_of_within (kept nowS rfl)
        | _ => cases writing

/-! ## Runs that are settled -/

def OpenNodes (past : List JournalOp) (loaded : Loaded) : Prop :=
  ∀ {number intent}, loaded.runs.lookup number = some intent → ∀ node ∈ recover intent,
    touches node → Unsettled past number node

theorem Unsettled.snoc {number : UInt64} {node : Reconcile} (unsettled : Unsettled past number node)
    (open_ : ¬Settles op number) : Unsettled (past ++ [op]) number node := by
  rcases unsettled with ⟨before, telling, after, rfl, names, unsettled⟩
  refine ⟨before, telling, after ++ [op], by simp, names, fun later member => ?_⟩
  rcases List.mem_append.mp member with earlier | last
  · exact unsettled later earlier
  · exact List.mem_singleton.mp last ▸ open_

theorem unsettled_last {number : UInt64} {node : Reconcile} (names : Names op number node) :
    Unsettled (past ++ [op]) number node :=
  ⟨past, op, [], rfl, names, fun _ member => absurd member List.not_mem_nil⟩

theorem settles_writes {number : UInt64} (settles : Settles op number) :
    journal.writes op = some (.commit number, .done) ∨
      journal.writes op = some (.finish number, .done) := by
  rcases settles with rfl | rfl
  · exact .inl rfl
  · exact .inr rfl

theorem lookup_update {loaded : Loaded} {number other : UInt64} {change : Intent → Intent}
    {intent : Intent} : (loaded.update number change).runs.lookup other = some intent ↔
      (other ≠ number ∧ loaded.runs.lookup other = some intent) ∨
        other = number ∧ ∃ before, loaded.runs.lookup number = some before ∧
          change before = intent := by
  unfold Loaded.update
  cases found : loaded.runs.lookup number with
  | none =>
    constructor
    · intro looked
      refine .inl ⟨?_, looked⟩
      rintro rfl
      rw [found] at looked
      cases looked
    · rintro (⟨-, looked⟩ | ⟨-, before, missing, -⟩)
      · exact looked
      · cases missing
  | some before =>
    dsimp only
    rw [Table.lookup_insert_eq_some]
    constructor
    · rintro (⟨rfl, same⟩ | ⟨differ, looked⟩)
      · exact .inr ⟨rfl, before, rfl, same⟩
      · exact .inl ⟨differ, looked⟩
    · rintro (⟨differ, looked⟩ | ⟨rfl, _, ⟨⟩, same⟩)
      · exact .inr ⟨differ, looked⟩
      · exact .inl ⟨rfl, same⟩

theorem mem_recover {intent : Intent} {node : Reconcile} (touched : touches node) :
    node ∈ recover intent ↔ (∃ path ino, (path, ino) ∈ intent.created ∧ .removeIf path ino = node) ∨
      ∃ target aside, (target, aside) ∈ intent.asides ∧ .putBack target aside = node := by
  unfold recover
  cases node with
  | leave aside => cases touched
  | _ => simp

theorem openNodes_step (fit : AllFit (run past)) (intact : (run past).Intact op)
    (nodes : OpenNodes past (load (run past).file)) :
    OpenNodes (past ++ [op]) (load (run (past ++ [op])).file) := by
  rw [run_snoc]
  cases writing : (run past).writes op with
  | none =>
    cases op with
    | reopen nowS =>
      intro number intent looked
      change (load (reopen (run past).file nowS).file).runs.lookup number = _ at looked
      rw [(load_reopen fit nowS).2.2] at looked
      cases looked
    | _ => cases writing
  | some written =>
    rcases written with ⟨record, outcome⟩
    rw [load_step intact writing]
    split
    · intro number intent looked node member touched
      cases op with
      | begin spec outcome =>
        cases writing
        rcases Table.lookup_insert_eq_some.mp looked with ⟨-, rfl⟩ | ⟨-, looked⟩
        · cases member
        · exact (nodes looked node member touched).snoc (by simp [Settles])
      | created number' path ino outcome =>
        cases writing
        rcases lookup_update.mp looked with ⟨-, looked⟩ | ⟨rfl, before, known, rfl⟩
        · exact (nodes looked node member touched).snoc (by simp [Settles])
        · rcases (mem_recover touched).mp member with
            ⟨path', ino', created, rfl⟩ | ⟨target, aside, put, rfl⟩
          · rcases List.mem_append.mp created with old | new
            · refine (nodes known _ ?_ touched).snoc (by simp [Settles])
              exact (mem_recover touched).mpr (.inl ⟨path', ino', old, rfl⟩)
            · cases List.mem_singleton.mp new
              exact unsettled_last ⟨outcome, rfl⟩
          · refine (nodes known _ ?_ touched).snoc (by simp [Settles])
            exact (mem_recover touched).mpr (.inr ⟨target, aside, put, rfl⟩)
      | aside number' target aside outcome =>
        cases writing
        rcases lookup_update.mp looked with ⟨-, looked⟩ | ⟨rfl, before, known, rfl⟩
        · exact (nodes looked node member touched).snoc (by simp [Settles])
        · rcases (mem_recover touched).mp member with
            ⟨path, ino, created, rfl⟩ | ⟨target', aside', put, rfl⟩
          · refine (nodes known _ ?_ touched).snoc (by simp [Settles])
            exact (mem_recover touched).mpr (.inl ⟨path, ino, created, rfl⟩)
          · rcases List.mem_append.mp put with old | new
            · refine (nodes known _ ?_ touched).snoc (by simp [Settles])
              exact (mem_recover touched).mpr (.inr ⟨target', aside', old, rfl⟩)
            · cases List.mem_singleton.mp new
              exact unsettled_last ⟨outcome, rfl⟩
      | commit number' outcome =>
        cases writing
        rcases lookup_update.mp looked with ⟨differ, looked⟩ | ⟨rfl, before, looked, rfl⟩
        · exact (nodes looked node member touched).snoc (by simp [Settles, differ.symm])
        · rcases (mem_recover touched).mp member with ⟨_, _, none, -⟩ | ⟨_, _, none, -⟩
          · cases none
          · cases none
      | finish number' outcome =>
        cases writing
        rcases Table.lookup_erase_eq_some.mp looked with ⟨differ, looked⟩
        exact (nodes looked node member touched).snoc (by simp [Settles, differ.symm])
      | append undoable items nowS outcome =>
        cases writing
        exact (nodes looked node member touched).snoc (by simp [Settles])
      | markUndone seq outcome =>
        cases writing
        exact (nodes looked node member touched).snoc (by simp [Settles])
      | reopen nowS => cases writing
    · rename_i partly
      intro number intent looked node member touched
      refine (nodes looked node member touched).snoc fun settles => partly ?_
      rcases settles_writes settles with same | same
      · rw [same] at writing
        cases writing
        rfl
      · rw [same] at writing
        cases writing
        rfl

theorem openNodes_run (along : Along step Intact start past) :
    OpenNodes past (load (run past).file) := by
  induction past using List.reverseRecOn with
  | nil =>
    intro number intent looked
    rw [load_eq] at looked
    cases looked
  | append_singleton past op induction =>
    rcases along_snoc.mp along with ⟨before, intact⟩
    exact openNodes_step (allFit_run before) intact (induction before)

def copyPath : RawPath := ⟨[47, 97], by decide⟩

def oneRun : List JournalOp :=
  [.begin none .done, .created 1 copyPath 7 .done, .commit 1 .done]

/-- Another lane's append leaves four bytes behind before the run commits. -/
def tornRun : List JournalOp :=
  [.begin none .done, .begin none .done, .created 1 copyPath 7 .done,
    .append true ⟨[], by decide⟩ ⟨0, by decide⟩ (.fails 4), .commit 1 .done]

end Journal

end EclipseOS.Fog
