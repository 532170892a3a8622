import EclipseOS.Abyss.Outputs
import Mathlib.Data.List.Nodup
import Mathlib.Data.List.Perm.Basic

/-! # Places

What each change of the outputs does to who holds which window. -/

namespace EclipseOS.Abyss

open Foundation

variable {Window : Type} [DecidableEq Window]

namespace Workspace

variable {ws : Workspace Window} {w other : Window} {wins : List Window}

theorem erase_right {left right : List Window} (member : w ∈ right) :
    (left ++ right.erase w).Perm ((left ++ right).erase w) := by
  apply List.perm_iff_count.mpr
  intro other
  have positive := List.count_pos_iff.mpr member
  simp only [List.count_append, List.count_erase]
  split
  · rename_i same
    rw [beq_iff_eq] at same
    subst same
    omega
  · omega

theorem erase_left {left right : List Window} (absent : w ∉ right) :
    left.erase w ++ right = (left ++ right).erase w := by
  rw [List.erase_append]
  split
  · rfl
  · rename_i missing
    rw [List.erase_of_not_mem missing, List.erase_of_not_mem absent]

theorem remove_perm (ws : Workspace Window) (w : Window) :
    (ws.remove w).1.held.Perm (ws.held.erase w) := by
  unfold remove
  split
  · rename_i pending
    exact erase_right pending
  · rename_i pending
    have whole : ws.held.erase w = ws.allWindows.erase w ++ ws.pending :=
      (erase_left pending).symm
    rw [whole]
    split
    · rename_i minimized
      exact (erase_right minimized).append_right _
    · rename_i minimized
      have placed : ws.allWindows.erase w = ws.windows.erase w ++ ws.minimized :=
        (erase_left minimized).symm
      rw [placed]
      split
      · rename_i floating
        exact ((erase_right floating).append_right _).append_right _
      · rename_i floating
        have shown : ws.windows.erase w = ws.tiled.erase w ++ ws.floating :=
          (erase_left floating).symm
        rw [shown]
        exact .refl _

theorem adopt_perm (ws : Workspace Window) (stacking : Bool) :
    (ws.adopt stacking).held.Perm ws.held := by
  apply List.perm_iff_count.mpr
  intro w
  unfold adopt held allWindows windows
  cases stacking
  · simp only [Bool.false_eq_true, if_false, List.count_append, List.count_nil]
    omega
  · simp only [if_true, List.count_append, List.count_nil]
    omega

theorem install_perm (ws : Workspace Window) (w : Window) (floats : Bool) :
    (ws.install w floats).held.Perm (w :: ws.held) := by
  apply List.perm_iff_count.mpr
  intro other
  unfold install held allWindows windows
  cases floats
  · simp only [Bool.false_eq_true, if_false, List.count_append, List.count_cons, List.count_nil]
    omega
  · simp only [if_true, List.count_append, List.count_cons, List.count_nil]
    omega

theorem removeAll_perm (ws : Workspace Window) (wins : List Window) :
    (ws.removeAll wins).held.Perm (ws.held.diff wins) := by
  induction wins generalizing ws with
  | nil => exact .refl _
  | cons w wins induction =>
    rw [List.diff_cons]
    exact (induction (ws.remove w).1).trans ((remove_perm ws w).diff_right wins)

end Workspace

namespace OutputEntry

variable {e : OutputEntry Window} {slot : Nat} {w : Window} {wins : List Window}

omit [DecidableEq Window] in
theorem mem_held : w ∈ e.held slot ↔ ∃ ws, e.workspaces[slot]? = some ws ∧ w ∈ ws.held := by
  unfold held
  cases e.workspaces[slot]? <;> simp

theorem held_removeAll (e : OutputEntry Window) (slot : Nat) (wins : List Window) :
    ((e.onEach (·.removeAll wins)).held slot).Perm ((e.held slot).diff wins) := by
  unfold held onEach
  rw [List.getElem?_map]
  cases e.workspaces[slot]? with
  | none => simp
  | some ws => exact ws.removeAll_perm wins

theorem held_remove (e : OutputEntry Window) (slot : Nat) (w : Window) :
    ((e.onEach fun ws => (ws.remove w).1).held slot).Perm ((e.held slot).erase w) := by
  unfold held onEach
  rw [List.getElem?_map]
  cases e.workspaces[slot]? with
  | none => simp
  | some ws => exact ws.remove_perm w

end OutputEntry

namespace Outputs

def Present (outputs : Outputs Window) (identity : String) : Prop :=
  ∃ e ∈ outputs.entries, e.identity = identity

def Holds (outputs : Outputs Window) (identity : String) (slot : Nat) (w : Window) : Prop :=
  ∃ e ∈ outputs.entries, e.identity = identity ∧ w ∈ e.held slot

/-- A window is parked for an output's workspace. -/
def Parked (outputs : Outputs Window) (identity : String) (slot : Nat) (w : Window) : Prop :=
  ∃ parked wins, outputs.stash.lookup identity = some parked ∧ parked[slot]? = some wins ∧
    w ∈ wins

/-- Outputs are told apart by id and identity, and each window is in one place. -/
structure Tidy (outputs : Outputs Window) : Prop where
  ids : (outputs.entries.map (·.id)).Nodup
  fresh : ∀ e ∈ outputs.entries, e.id < outputs.nextId
  identities : (outputs.entries.map (·.identity)).Nodup
  slots : ∀ e ∈ outputs.entries, e.workspaces.length = COUNT
  nodup : ∀ e ∈ outputs.entries, ∀ slot, (e.held slot).Nodup
  single : ∀ {identity identity' slot slot' w}, outputs.Holds identity slot w →
    outputs.Holds identity' slot' w → identity = identity' ∧ slot = slot'
  absent : ∀ {identity parked}, outputs.stash.lookup identity = some parked →
    ¬outputs.Present identity
  parkedSlots : ∀ {identity parked}, outputs.stash.lookup identity = some parked →
    parked.length = COUNT ∧ ∀ wins ∈ parked, wins.Nodup
  parkedSingle : ∀ {identity slot slot' w}, outputs.Parked identity slot w →
    outputs.Parked identity slot' w → slot = slot'

variable {outputs : Outputs Window} {identity other connector : String} {kind : OutputKind}
  {slot : Nat} {w : Window} {alive : Window → Bool}

omit [DecidableEq Window] in
theorem Tidy.entry_eq (tidy : outputs.Tidy) {e e' : OutputEntry Window}
    (member : e ∈ outputs.entries) (member' : e' ∈ outputs.entries)
    (same : e.identity = e'.identity) : e = e' :=
  List.inj_on_of_nodup_map tidy.identities member member' same

omit [DecidableEq Window] in
theorem Tidy.id_eq (tidy : outputs.Tidy) {e e' : OutputEntry Window}
    (member : e ∈ outputs.entries) (member' : e' ∈ outputs.entries)
    (same : e.id = e'.id) : e = e' :=
  List.inj_on_of_nodup_map tidy.ids member member' same

/-! ## An output that comes -/

/-- What is parked under an identity and still alive. -/
def returning (outputs : Outputs Window) (alive : Window → Bool) (identity : String) :
    List (List Window) :=
  ((outputs.stash.lookup identity).getD []).map (·.filter alive)

def arrival (outputs : Outputs Window) (alive : Window → Bool) (identity : String)
    (kind : OutputKind) : OutputEntry Window :=
  ⟨outputs.nextId, identity, kind, true, newSet.mapIdx fun i (ws : Workspace Window) =>
    { ws with pending := ws.pending ++ ((outputs.returning alive identity)[i]?.getD []) }⟩

theorem add_entries (new : ¬outputs.Present identity) :
    (outputs.add alive identity connector kind).1.entries =
      outputs.entries.map (·.onEach (·.removeAll (outputs.returning alive identity).flatten)) ++
        [outputs.arrival alive identity kind] := by
  have unnamed : outputs.entries.any (·.identity = identity) = false := by
    simpa [Present] using new
  unfold add
  rw [unnamed, if_neg Bool.false_ne_true]
  rfl

theorem add_stash (new : ¬outputs.Present identity) :
    (outputs.add alive identity connector kind).1.stash = outputs.stash.erase identity := by
  have unnamed : outputs.entries.any (·.identity = identity) = false := by
    simpa [Present] using new
  unfold add
  rw [unnamed, if_neg Bool.false_ne_true]

omit [DecidableEq Window] in
theorem mem_returning :
    w ∈ (outputs.returning alive identity)[slot]?.getD [] ↔
      alive w = true ∧ outputs.Parked identity slot w := by
  unfold returning Parked
  rw [List.getElem?_map]
  cases outputs.stash.lookup identity with
  | none => simp
  | some parked =>
    rw [Option.getD_some]
    cases found : parked[slot]? with
    | none => simp [found]
    | some wins => simp [found, and_comm]

omit [DecidableEq Window] in
theorem mem_returning_flatten :
    w ∈ (outputs.returning alive identity).flatten ↔
      alive w = true ∧ ∃ slot, outputs.Parked identity slot w := by
  rw [List.mem_flatten]
  constructor
  · rintro ⟨wins, member, here⟩
    rcases List.getElem?_of_mem member with ⟨slot, found⟩
    have both := mem_returning.mp (show w ∈ (outputs.returning alive identity)[slot]?.getD [] by
      rwa [found])
    exact ⟨both.1, slot, both.2⟩
  · rintro ⟨isAlive, slot, parked⟩
    have here := mem_returning.mpr ⟨isAlive, parked⟩
    cases found : (outputs.returning alive identity)[slot]? with
    | none => simp [found] at here
    | some wins =>
      rw [found, Option.getD_some] at here
      exact ⟨wins, List.mem_of_getElem? found, here⟩

omit [DecidableEq Window] in
theorem held_arrival :
    (outputs.arrival alive identity kind).held slot =
      if slot < COUNT then (outputs.returning alive identity)[slot]?.getD [] else [] := by
  unfold OutputEntry.held arrival newSet
  rw [List.getElem?_mapIdx, List.getElem?_replicate]
  split
  · simp [Workspace.held, Workspace.allWindows, Workspace.windows, Workspace.empty]
  · rfl

omit [DecidableEq Window] in
theorem Tidy.slot_lt (tidy : outputs.Tidy) (parked : outputs.Parked identity slot w) :
    slot < COUNT := by
  rcases parked with ⟨parked, wins, looked, found, -⟩
  rw [← (tidy.parkedSlots looked).1]
  exact (List.getElem?_eq_some_iff.mp found).1

omit [DecidableEq Window] in
theorem Tidy.mem_arrival (tidy : outputs.Tidy) :
    w ∈ (outputs.arrival alive identity kind).held slot ↔
      alive w = true ∧ outputs.Parked identity slot w := by
  rw [held_arrival]
  split
  · exact mem_returning
  · rename_i beyond
    constructor
    · exact nofun
    · exact fun both => absurd (tidy.slot_lt both.2) beyond

theorem Tidy.holds_add (tidy : outputs.Tidy) (new : ¬outputs.Present identity) :
    (outputs.add alive identity connector kind).1.Holds other slot w ↔
      (other = identity ∧ alive w = true ∧ outputs.Parked identity slot w) ∨
        (outputs.Holds other slot w ∧ ¬(alive w = true ∧ ∃ j, outputs.Parked identity j w)) := by
  unfold Holds
  rw [add_entries new]
  constructor
  · rintro ⟨e, member, rfl, here⟩
    rcases List.mem_append.mp member with old | arrived
    · rcases List.mem_map.mp old with ⟨e, entry, rfl⟩
      have left := (e.held_removeAll slot _).mem_iff.mp here
      rw [(tidy.nodup e entry slot).mem_sdiff_iff, mem_returning_flatten] at left
      exact .inr ⟨⟨e, entry, rfl, left.1⟩, left.2⟩
    · rw [List.mem_singleton.mp arrived] at here ⊢
      exact .inl ⟨rfl, tidy.mem_arrival.mp here⟩
  · rintro (⟨rfl, isAlive, parked⟩ | ⟨⟨e, member, rfl, here⟩, stays⟩)
    · exact ⟨_, List.mem_append_right _ (List.mem_singleton_self _), rfl,
        tidy.mem_arrival.mpr ⟨isAlive, parked⟩⟩
    · refine ⟨_, List.mem_append_left _ (List.mem_map_of_mem member), rfl, ?_⟩
      apply (e.held_removeAll slot _).mem_iff.mpr
      rw [(tidy.nodup e member slot).mem_sdiff_iff, mem_returning_flatten]
      exact ⟨here, stays⟩

theorem present_add (new : ¬outputs.Present identity) :
    (outputs.add alive identity connector kind).1.Present other ↔
      other = identity ∨ outputs.Present other := by
  unfold Present
  rw [add_entries new]
  simp only [List.mem_append, List.mem_map, List.mem_singleton]
  constructor
  · rintro ⟨e, ⟨e, member, rfl⟩ | rfl, rfl⟩
    · exact .inr ⟨e, member, rfl⟩
    · exact .inl rfl
  · rintro (rfl | ⟨e, member, rfl⟩)
    · exact ⟨_, .inr rfl, rfl⟩
    · exact ⟨_, .inl ⟨e, member, rfl⟩, rfl⟩

theorem parked_add (new : ¬outputs.Present identity) :
    (outputs.add alive identity connector kind).1.Parked other slot w ↔
      other ≠ identity ∧ outputs.Parked other slot w := by
  unfold Parked
  rw [add_stash new]
  simp only [Table.lookup_erase_eq_some]
  constructor
  · rintro ⟨parked, wins, ⟨differ, looked⟩, rest⟩
    exact ⟨differ, parked, wins, looked, rest⟩
  · rintro ⟨differ, parked, wins, looked, rest⟩
    exact ⟨parked, wins, ⟨differ, looked⟩, rest⟩

omit [DecidableEq Window] in
theorem Tidy.nodup_arrival (tidy : outputs.Tidy) :
    ((outputs.arrival alive identity kind).held slot).Nodup := by
  rw [held_arrival]
  split
  · unfold returning
    rw [List.getElem?_map]
    cases looked : outputs.stash.lookup identity with
    | none => exact List.nodup_nil
    | some parked =>
      rw [Option.getD_some]
      cases found : parked[slot]? with
      | none => exact List.nodup_nil
      | some wins =>
        exact ((tidy.parkedSlots looked).2 wins (List.mem_of_getElem? found)).filter _
  · exact List.nodup_nil

theorem Tidy.add (tidy : outputs.Tidy) (new : ¬outputs.Present identity) :
    (outputs.add alive identity connector kind).1.Tidy where
  ids := by
    rw [add_entries new, List.map_append, List.map_map]
    apply tidy.ids.append (List.nodup_singleton _)
    intro id old arrived
    rcases List.mem_map.mp old with ⟨e, member, rfl⟩
    have same : e.id = outputs.nextId := List.mem_singleton.mp arrived
    exact absurd (tidy.fresh e member) (by omega)
  fresh := by
    rw [add_entries new]
    intro e member
    change e.id < outputs.nextId + 1
    rcases List.mem_append.mp member with old | arrived
    · rcases List.mem_map.mp old with ⟨e, entry, rfl⟩
      exact Nat.lt_succ_of_lt (tidy.fresh e entry)
    · rw [List.mem_singleton.mp arrived]
      exact Nat.lt_succ_self _
  identities := by
    rw [add_entries new, List.map_append, List.map_map]
    apply tidy.identities.append (List.nodup_singleton _)
    intro name old arrived
    rcases List.mem_map.mp old with ⟨e, member, rfl⟩
    exact new ⟨e, member, List.mem_singleton.mp arrived⟩
  slots := by
    rw [add_entries new]
    intro e member
    rcases List.mem_append.mp member with old | arrived
    · rcases List.mem_map.mp old with ⟨e, entry, rfl⟩
      rw [OutputEntry.onEach, List.length_map]
      exact tidy.slots e entry
    · rw [List.mem_singleton.mp arrived]
      simp [arrival, newSet]
  nodup := by
    rw [add_entries new]
    intro e member slot
    rcases List.mem_append.mp member with old | arrived
    · rcases List.mem_map.mp old with ⟨e, entry, rfl⟩
      exact (e.held_removeAll slot _).nodup_iff.mpr ((tidy.nodup e entry slot).diff)
    · rw [List.mem_singleton.mp arrived]
      exact tidy.nodup_arrival
  single := by
    intro first second slot slot' w here there
    rcases (tidy.holds_add new).mp here with ⟨rfl, isAlive, parked⟩ | ⟨held, stays⟩
    · rcases (tidy.holds_add new).mp there with ⟨rfl, -, parked'⟩ | ⟨-, stays⟩
      · exact ⟨rfl, tidy.parkedSingle parked parked'⟩
      · exact absurd ⟨isAlive, slot, parked⟩ stays
    · rcases (tidy.holds_add new).mp there with ⟨rfl, isAlive, parked⟩ | ⟨held', -⟩
      · exact absurd ⟨isAlive, slot', parked⟩ stays
      · exact tidy.single held held'
  absent := by
    intro other parked looked
    rw [add_stash new, Table.lookup_erase_eq_some] at looked
    rw [present_add new]
    rintro (same | present)
    · exact looked.1 same
    · exact tidy.absent looked.2 present
  parkedSlots := by
    intro other parked looked
    rw [add_stash new, Table.lookup_erase_eq_some] at looked
    exact tidy.parkedSlots looked.2
  parkedSingle := by
    intro other slot slot' w parked parked'
    exact tidy.parkedSingle ((parked_add new).mp parked).2 ((parked_add new).mp parked').2

/-! ## An output that leaves -/

omit [DecidableEq Window] in
theorem arrivals (windows : List (List Window)) {last : Nat} (fits : windows.length ≤ last + 1) :
    (windows.zipIdx.filter fun (_, i) => min i last = slot).flatMap (·.1) =
      windows[slot]?.getD [] := by
  have shifted : ∀ (windows : List (List Window)) (k : Nat), k + windows.length ≤ last + 1 →
      ((windows.zipIdx k).filter fun (_, i) => min i last = slot).flatMap (·.1) =
        if k ≤ slot then windows[slot - k]?.getD [] else [] := by
    intro windows
    induction windows with
    | nil => simp
    | cons wins windows induction =>
      intro k bound
      rw [List.length_cons] at bound
      rw [List.zipIdx_cons, List.filter_cons]
      have clipped : min k last = k := by omega
      have rest := induction (k + 1) (by omega)
      by_cases here : k = slot
      · rw [if_pos (by simpa [clipped] using here), List.flatMap_cons, rest, if_neg (by omega),
          if_pos (by omega), here, Nat.sub_self]
        simp
      · rw [if_neg (by simpa [clipped] using here), rest]
        by_cases below : k ≤ slot
        · rw [if_pos (by omega), if_pos below]
          have step : slot - k = (slot - (k + 1)) + 1 := by omega
          rw [step, List.getElem?_cons_succ]
        · rw [if_neg (by omega), if_neg below]
  rw [shifted windows 0 (by omega), if_pos (Nat.zero_le slot), Nat.sub_zero]

omit [DecidableEq Window] in
theorem fallbackId_mem (outputs : Outputs Window) {e : OutputEntry Window}
    (member : e ∈ outputs.entries) :
    ∃ target ∈ outputs.entries, outputs.fallbackId = some target.id := by
  unfold fallbackId
  cases physical : outputs.entries.find? fun e => e.enabled ∧ e.kind = .physical with
  | some target => exact ⟨target, List.mem_of_find?_eq_some physical, rfl⟩
  | none =>
    cases enabled : outputs.entries.find? (·.enabled) with
    | some target => exact ⟨target, List.mem_of_find?_eq_some enabled, rfl⟩
    | none =>
      cases first : outputs.entries.head? with
      | some target => exact ⟨target, List.mem_of_head? first, rfl⟩
      | none =>
        rw [List.head?_eq_none_iff.mp first] at member
        cases member

/-- An output with the windows of one that left. -/
def taking (target e : OutputEntry Window) : OutputEntry Window :=
  { target with workspaces := rehome (e.workspaces.map Workspace.held) target.workspaces }

omit [DecidableEq Window] in
theorem Tidy.held_taking (tidy : outputs.Tidy) {target e : OutputEntry Window}
    (member : target ∈ outputs.entries) (left : e ∈ outputs.entries) :
    (taking target e).held slot = target.held slot ++ e.held slot := by
  have length := tidy.slots target member
  have length' := tidy.slots e left
  unfold taking rehome OutputEntry.held
  rw [List.getElem?_mapIdx]
  cases found : target.workspaces[slot]? with
  | none =>
    have beyond : e.workspaces[slot]? = none := by
      rw [List.getElem?_eq_none_iff] at found ⊢
      omega
    rw [beyond]
    rfl
  | some ws =>
    have fits : (e.workspaces.map Workspace.held).length ≤ target.workspaces.length - 1 + 1 := by
      rw [List.length_map]
      omega
    simp only [Option.map_some, Option.getD_some]
    rw [arrivals _ fits, List.getElem?_map]
    exact (List.append_assoc ..).symm

omit [DecidableEq Window] in
theorem Tidy.mem_others (tidy : outputs.Tidy) {e : OutputEntry Window}
    (member : e ∈ outputs.entries) {y : OutputEntry Window} :
    y ∈ outputs.entries.eraseP (·.id = e.id) ↔ y ∈ outputs.entries ∧ y.id ≠ e.id := by
  rcases List.exists_of_eraseP (p := fun y => y.id = e.id) member (by simp) with
    ⟨here, before, after, -, same, split, erased⟩
  have ids := tidy.ids
  rw [split, List.map_append, List.map_cons] at ids
  have apart := (List.nodup_middle.mp ids).notMem
  rw [← List.map_append, List.mem_map] at apart
  rw [erased, split]
  have same : here.id = e.id := by simpa using same
  constructor
  · intro rest
    refine ⟨?_, fun equal => apart ⟨y, rest, equal.trans same.symm⟩⟩
    rcases List.mem_append.mp rest with left | right
    · exact List.mem_append_left _ left
    · exact List.mem_append_right _ (List.mem_cons_of_mem _ right)
  · rintro ⟨entry, other⟩
    rcases List.mem_append.mp entry with left | right
    · exact List.mem_append_left _ left
    · rcases List.mem_cons.mp right with rfl | right
      · exact absurd same other
      · exact List.mem_append_right _ right

/-- The outputs after `e` left and `target` took its windows in. -/
def parting (outputs : Outputs Window) (e target : OutputEntry Window) : Outputs Window where
  entries := (outputs.entries.eraseP (·.id = e.id)).map fun y =>
    if y.id = target.id then taking y e else y
  nextId := outputs.nextId
  stash := outputs.stash.insert e.identity (e.workspaces.map Workspace.held)

omit [DecidableEq Window] in
theorem Tidy.unregister_eq (tidy : outputs.Tidy) {e other : OutputEntry Window}
    (member : e ∈ outputs.entries) (remains : other ∈ outputs.entries)
    (differ : other.id ≠ e.id) :
    ∃ target ∈ outputs.entries, target.id ≠ e.id ∧
      outputs.unregister e.id = outputs.parting e target := by
  have found : outputs.entries.find? (·.id = e.id) = some e := by
    cases looked : outputs.entries.find? (·.id = e.id) with
    | none => exact absurd (List.find?_eq_none.mp looked e member) (by simp)
    | some here =>
      have same : here.id = e.id := by simpa using List.find?_some looked
      rw [tidy.id_eq (List.mem_of_find?_eq_some looked) member same]
  have left : outputs.remove e.id = some
      ({ outputs with
          entries := outputs.entries.eraseP (·.id = e.id)
          stash := outputs.stash.insert e.identity (e.workspaces.map Workspace.held) },
        e.workspaces.map Workspace.held) := by
    rw [remove, found]
    rfl
  have stays := (tidy.mem_others member).mpr ⟨remains, differ⟩
  unfold unregister
  rw [left]
  dsimp only
  rcases fallbackId_mem { outputs with
    entries := outputs.entries.eraseP (·.id = e.id)
    stash := outputs.stash.insert e.identity (e.workspaces.map Workspace.held) } stays with
    ⟨target, held, falls⟩
  rw [falls]
  have both := (tidy.mem_others member).mp held
  exact ⟨target, both.1, both.2, rfl⟩

/-- What is known of the outputs after one has left: `identity` took its windows in. -/
structure Departed (before after : Outputs Window) (gone identity : String) : Prop where
  differ : identity ≠ gone
  present : ∀ other, after.Present other ↔ other ≠ gone ∧ before.Present other
  taken : before.Present identity
  holds : ∀ other slot w, after.Holds other slot w ↔
    (other ≠ gone ∧ before.Holds other slot w) ∨ (other = identity ∧ before.Holds gone slot w)
  parked : ∀ other slot w, after.Parked other slot w ↔
    (other = gone ∧ before.Holds gone slot w) ∨ (other ≠ gone ∧ before.Parked other slot w)

omit [DecidableEq Window] in
theorem Tidy.holds_entry (tidy : outputs.Tidy) {e : OutputEntry Window}
    (member : e ∈ outputs.entries) : outputs.Holds e.identity slot w ↔ w ∈ e.held slot := by
  constructor
  · rintro ⟨e', member', same, here⟩
    rwa [tidy.entry_eq member' member same] at here
  · exact fun here => ⟨e, member, rfl, here⟩

section
variable {e target : OutputEntry Window}

omit [DecidableEq Window] in
theorem Tidy.mem_parting (tidy : outputs.Tidy) (member : e ∈ outputs.entries)
    {x : OutputEntry Window} : x ∈ (outputs.parting e target).entries ↔
      ∃ y ∈ outputs.entries, y.id ≠ e.id ∧ x = if y.id = target.id then taking y e else y := by
  unfold parting
  rw [List.mem_map]
  simp only [tidy.mem_others member]
  constructor
  · rintro ⟨y, ⟨entry, other⟩, rfl⟩
    exact ⟨y, entry, other, rfl⟩
  · rintro ⟨y, entry, other, rfl⟩
    exact ⟨y, ⟨entry, other⟩, rfl⟩

omit [DecidableEq Window] in
theorem parting_names (y : OutputEntry Window) :
    (if y.id = target.id then taking y e else y).id = y.id ∧
      (if y.id = target.id then taking y e else y).identity = y.identity := by
  split <;> exact ⟨rfl, rfl⟩

omit [DecidableEq Window] in
theorem Tidy.held_parting (tidy : outputs.Tidy) (member : e ∈ outputs.entries)
    {y : OutputEntry Window} (entry : y ∈ outputs.entries) :
    (if y.id = target.id then taking y e else y).held slot =
      if y.id = target.id then y.held slot ++ e.held slot else y.held slot := by
  split
  · exact tidy.held_taking entry member
  · rfl

omit [DecidableEq Window] in
theorem Tidy.parted (tidy : outputs.Tidy) (member : e ∈ outputs.entries)
    (taker : target ∈ outputs.entries) (apart : target.id ≠ e.id) :
    Departed outputs (outputs.parting e target) e.identity target.identity where
  differ same := apart (tidy.entry_eq taker member same ▸ rfl)
  present other := by
    constructor
    · rintro ⟨x, here, rfl⟩
      rcases (tidy.mem_parting member).mp here with ⟨y, entry, differ, rfl⟩
      rw [(parting_names y).2]
      exact ⟨fun same => differ (tidy.entry_eq entry member same ▸ rfl), y, entry, rfl⟩
    · rintro ⟨differ, y, entry, rfl⟩
      refine ⟨_, (tidy.mem_parting member).mpr ⟨y, entry, ?_, rfl⟩, (parting_names y).2⟩
      exact fun same => differ (tidy.id_eq entry member same ▸ rfl)
  taken := ⟨target, taker, rfl⟩
  holds other slot w := by
    constructor
    · rintro ⟨x, here, rfl, held⟩
      rcases (tidy.mem_parting member).mp here with ⟨y, entry, differ, rfl⟩
      rw [(parting_names y).2]
      rw [tidy.held_parting member entry] at held
      have other : y.identity ≠ e.identity := fun same =>
        differ (tidy.entry_eq entry member same ▸ rfl)
      split at held
      · rename_i takes
        rcases List.mem_append.mp held with own | guest
        · exact .inl ⟨other, y, entry, rfl, own⟩
        · exact .inr ⟨tidy.id_eq entry taker takes ▸ rfl, e, member, rfl, guest⟩
      · exact .inl ⟨other, y, entry, rfl, held⟩
    · rintro (⟨differ, y, entry, rfl, held⟩ | ⟨rfl, gone⟩)
      · refine ⟨_, (tidy.mem_parting member).mpr ⟨y, entry, ?_, rfl⟩, (parting_names y).2, ?_⟩
        · exact fun same => differ (tidy.id_eq entry member same ▸ rfl)
        · rw [tidy.held_parting member entry]
          split
          · exact List.mem_append_left _ held
          · exact held
      · refine ⟨_, (tidy.mem_parting member).mpr ⟨target, taker, apart, rfl⟩,
          (parting_names target).2, ?_⟩
        rw [tidy.held_parting member taker, if_pos rfl]
        exact List.mem_append_right _ ((tidy.holds_entry member).mp gone)
  parked other slot w := by
    unfold Parked parting
    simp only [Table.lookup_insert_eq_some]
    constructor
    · rintro ⟨parked, wins, ⟨rfl, rfl⟩ | ⟨differ, looked⟩, found, here⟩
      · refine .inl ⟨rfl, (tidy.holds_entry member).mpr ?_⟩
        unfold OutputEntry.held
        rw [← List.getElem?_map, found]
        exact here
      · exact .inr ⟨differ, parked, wins, looked, found, here⟩
    · rintro (⟨rfl, gone⟩ | ⟨differ, parked, wins, looked, found, here⟩)
      · rcases OutputEntry.mem_held.mp ((tidy.holds_entry member).mp gone) with
          ⟨ws, found, here⟩
        exact ⟨_, ws.held, .inl ⟨rfl, rfl⟩, by rw [List.getElem?_map, found]; rfl, here⟩
      · exact ⟨parked, wins, .inr ⟨differ, looked⟩, found, here⟩

omit [DecidableEq Window] in
theorem Tidy.parting (tidy : outputs.Tidy) (member : e ∈ outputs.entries)
    (taker : target ∈ outputs.entries) (apart : target.id ≠ e.id) :
    (outputs.parting e target).Tidy where
  ids := by
    have same : (outputs.parting e target).entries.map (·.id) =
        (outputs.entries.eraseP (·.id = e.id)).map (·.id) := by
      simp [Outputs.parting, parting_names]
    rw [same]
    exact tidy.ids.sublist (List.eraseP_sublist.map _)
  fresh x here := by
    rcases (tidy.mem_parting member).mp here with ⟨y, entry, -, rfl⟩
    rw [(parting_names y).1]
    exact tidy.fresh y entry
  identities := by
    have same : (outputs.parting e target).entries.map (·.identity) =
        (outputs.entries.eraseP (·.id = e.id)).map (·.identity) := by
      simp [Outputs.parting, parting_names]
    rw [same]
    exact tidy.identities.sublist (List.eraseP_sublist.map _)
  slots x here := by
    rcases (tidy.mem_parting member).mp here with ⟨y, entry, -, rfl⟩
    split
    · rw [taking, rehome, List.length_mapIdx]
      exact tidy.slots y entry
    · exact tidy.slots y entry
  nodup x here slot := by
    rcases (tidy.mem_parting member).mp here with ⟨y, entry, differ, rfl⟩
    rw [tidy.held_parting member entry]
    split
    · apply (tidy.nodup y entry slot).append (tidy.nodup e member slot)
      intro w own guest
      have same := (tidy.single ((tidy.holds_entry entry).mpr own)
        ((tidy.holds_entry member).mpr guest)).1
      exact differ (tidy.entry_eq entry member same ▸ rfl)
    · exact tidy.nodup y entry slot
  single := by
    intro first second slot slot' w here there
    have departed := tidy.parted member taker apart
    rcases (departed.holds _ _ _).mp here with ⟨differ, held⟩ | ⟨rfl, held⟩
    · rcases (departed.holds _ _ _).mp there with ⟨-, held'⟩ | ⟨-, held'⟩
      · exact tidy.single held held'
      · exact absurd (tidy.single held held').1 differ
    · rcases (departed.holds _ _ _).mp there with ⟨differ, held'⟩ | ⟨rfl, held'⟩
      · exact absurd (tidy.single held' held).1 differ
      · exact ⟨rfl, (tidy.single held held').2⟩
  absent := by
    intro other parked looked present
    rw [(tidy.parted member taker apart).present] at present
    rcases Table.lookup_insert_eq_some.mp looked with ⟨same, -⟩ | ⟨-, looked⟩
    · exact present.1 same
    · exact tidy.absent looked present.2
  parkedSlots := by
    intro other parked looked
    rcases Table.lookup_insert_eq_some.mp looked with ⟨-, rfl⟩ | ⟨-, looked⟩
    · rw [List.length_map]
      refine ⟨tidy.slots e member, fun wins here => ?_⟩
      rcases List.mem_map.mp here with ⟨ws, workspace, rfl⟩
      rcases List.getElem?_of_mem workspace with ⟨slot, found⟩
      have nodup := tidy.nodup e member slot
      rwa [OutputEntry.held, found] at nodup
    · exact tidy.parkedSlots looked
  parkedSingle := by
    intro other slot slot' w here there
    have departed := tidy.parted member taker apart
    rcases (departed.parked _ _ _).mp here with ⟨rfl, held⟩ | ⟨differ, parked⟩
    · rcases (departed.parked _ _ _).mp there with ⟨-, held'⟩ | ⟨differ, -⟩
      · exact (tidy.single held held').2
      · exact absurd rfl differ
    · rcases (departed.parked _ _ _).mp there with ⟨same, -⟩ | ⟨-, parked'⟩
      · exact absurd same differ
      · exact tidy.parkedSingle parked parked'

end

/-! ## Windows that come, go and are laid out -/

section
variable {change : OutputEntry Window → OutputEntry Window}

def each (outputs : Outputs Window) (change : OutputEntry Window → OutputEntry Window) :
    Outputs Window :=
  { outputs with entries := outputs.entries.map change }

/-- A change that leaves an output where it is. -/
structure Keeps (change : OutputEntry Window → OutputEntry Window) : Prop where
  id : ∀ e, (change e).id = e.id
  identity : ∀ e, (change e).identity = e.identity
  slots : ∀ e, (change e).workspaces.length = e.workspaces.length

omit [DecidableEq Window] in
theorem holds_each (keeps : Keeps change) : (outputs.each change).Holds identity slot w ↔
    ∃ e ∈ outputs.entries, e.identity = identity ∧ w ∈ (change e).held slot := by
  unfold Holds each
  constructor
  · rintro ⟨x, here, rfl, held⟩
    rcases List.mem_map.mp here with ⟨e, member, rfl⟩
    exact ⟨e, member, (keeps.identity e).symm, held⟩
  · rintro ⟨e, member, rfl, held⟩
    exact ⟨change e, List.mem_map_of_mem member, keeps.identity e, held⟩

omit [DecidableEq Window] in
theorem present_each (keeps : Keeps change) :
    (outputs.each change).Present identity ↔ outputs.Present identity := by
  unfold Present each
  constructor
  · rintro ⟨x, here, rfl⟩
    rcases List.mem_map.mp here with ⟨e, member, rfl⟩
    exact ⟨e, member, (keeps.identity e).symm⟩
  · rintro ⟨e, member, rfl⟩
    exact ⟨change e, List.mem_map_of_mem member, keeps.identity e⟩

omit [DecidableEq Window] in
theorem Tidy.each (tidy : outputs.Tidy) (keeps : Keeps change)
    (nodup : ∀ e ∈ outputs.entries, ∀ slot, ((change e).held slot).Nodup)
    (single : ∀ {identity identity' slot slot' w}, (outputs.each change).Holds identity slot w →
      (outputs.each change).Holds identity' slot' w → identity = identity' ∧ slot = slot') :
    (outputs.each change).Tidy where
  ids := by
    have same : (outputs.each change).entries.map (·.id) = outputs.entries.map (·.id) := by
      simp [Outputs.each, keeps.id]
    exact same ▸ tidy.ids
  fresh x here := by
    rcases List.mem_map.mp here with ⟨e, member, rfl⟩
    rw [keeps.id]
    exact tidy.fresh e member
  identities := by
    have same : (outputs.each change).entries.map (·.identity) =
        outputs.entries.map (·.identity) := by
      simp [Outputs.each, keeps.identity]
    exact same ▸ tidy.identities
  slots x here := by
    rcases List.mem_map.mp here with ⟨e, member, rfl⟩
    rw [keeps.slots]
    exact tidy.slots e member
  nodup x here := by
    rcases List.mem_map.mp here with ⟨e, member, rfl⟩
    exact nodup e member
  single := single
  absent looked present := tidy.absent looked ((present_each keeps).mp present)
  parkedSlots := tidy.parkedSlots
  parkedSingle := tidy.parkedSingle

theorem keeps_unmap (w : Window) :
    Keeps fun e : OutputEntry Window => e.onEach fun ws => (ws.remove w).1 :=
  ⟨fun _ => rfl, fun _ => rfl, fun _ => List.length_map _⟩

theorem Tidy.holds_unmapWindow (tidy : outputs.Tidy) {closed : Window} :
    (outputs.unmapWindow closed).Holds identity slot w ↔
      outputs.Holds identity slot w ∧ w ≠ closed := by
  change (outputs.each _).Holds _ _ _ ↔ _
  rw [holds_each (keeps_unmap closed)]
  constructor
  · rintro ⟨e, member, rfl, held⟩
    have left := (e.held_remove slot closed).mem_iff.mp held
    rw [(tidy.nodup e member slot).mem_erase_iff] at left
    exact ⟨⟨e, member, rfl, left.2⟩, left.1⟩
  · rintro ⟨⟨e, member, rfl, held⟩, other⟩
    refine ⟨e, member, rfl, (e.held_remove slot closed).mem_iff.mpr ?_⟩
    rw [(tidy.nodup e member slot).mem_erase_iff]
    exact ⟨other, held⟩

theorem Tidy.unmapWindow (tidy : outputs.Tidy) (closed : Window) :
    (outputs.unmapWindow closed).Tidy := by
  apply tidy.each (keeps_unmap closed)
  · intro e member slot
    exact (e.held_remove slot closed).nodup_iff.mpr ((tidy.nodup e member slot).erase closed)
  · intro first second slot slot' w here there
    exact tidy.single (tidy.holds_unmapWindow.mp here).1 (tidy.holds_unmapWindow.mp there).1

end

section
variable {place : Nat} {id : Nat} {change : Workspace Window → Workspace Window}

def onPlace (id place : Nat) (change : Workspace Window → Workspace Window)
    (e : OutputEntry Window) : OutputEntry Window :=
  if e.id = id then { e with workspaces := e.workspaces.modify place change } else e

omit [DecidableEq Window] in
theorem keeps_onPlace : Keeps (onPlace id place change) where
  id e := by
    unfold onPlace
    split <;> rfl
  identity e := by
    unfold onPlace
    split <;> rfl
  slots e := by
    unfold onPlace
    split
    · exact List.length_modify ..
    · rfl

omit [DecidableEq Window] in
theorem modify_eq : outputs.modify id (·.modify place change) = outputs.each (onPlace id place change) :=
  rfl

omit [DecidableEq Window] in
theorem held_onPlace (e : OutputEntry Window) :
    (onPlace id place change e).held slot =
      if e.id = id ∧ place = slot then (e.workspaces[slot]?.map fun ws => (change ws).held).getD []
      else e.held slot := by
  unfold onPlace OutputEntry.held
  by_cases named : e.id = id
  · rw [if_pos named, List.getElem?_modify]
    by_cases here : place = slot
    · rw [if_pos ⟨named, here⟩]
      subst here
      cases e.workspaces[place]? <;> simp
    · rw [if_neg fun both => here both.2]
      cases e.workspaces[slot]? <;> simp [here]
  · rw [if_neg named, if_neg fun both => named both.1]

theorem mem_held_adopt {e : OutputEntry Window} {stacking : Bool} :
    ((onPlace id place (·.adopt stacking) e).held slot).Perm (e.held slot) := by
  rw [held_onPlace]
  split
  · unfold OutputEntry.held
    cases e.workspaces[slot]? with
    | none => exact .refl _
    | some ws => exact ws.adopt_perm stacking
  · exact .refl _

theorem holds_arrange {stacking : Bool} :
    (outputs.modify id (·.modify place (·.adopt stacking))).Holds identity slot w ↔
      outputs.Holds identity slot w := by
  rw [modify_eq, holds_each keeps_onPlace]
  unfold Holds
  simp only [mem_held_adopt.mem_iff]

theorem Tidy.arrange (tidy : outputs.Tidy) {stacking : Bool} :
    (outputs.modify id (·.modify place (·.adopt stacking))).Tidy := by
  apply tidy.each keeps_onPlace
  · intro e member slot
    exact mem_held_adopt.nodup_iff.mpr (tidy.nodup e member slot)
  · intro first second slot slot' w here there
    exact tidy.single (holds_arrange.mp here) (holds_arrange.mp there)

theorem Tidy.held_install (tidy : outputs.Tidy) {e : OutputEntry Window}
    (member : e ∈ outputs.entries) (fits : place < COUNT) {opened : Window} {floats : Bool} :
    ((onPlace id place (·.install opened floats) e).held slot).Perm
      (if e.id = id ∧ place = slot then opened :: e.held slot else e.held slot) := by
  rw [held_onPlace]
  split
  · rename_i here
    have length := tidy.slots e member
    unfold OutputEntry.held
    cases found : e.workspaces[slot]? with
    | none =>
      rw [List.getElem?_eq_none_iff] at found
      omega
    | some ws => exact ws.install_perm opened floats
  · exact .refl _

theorem Tidy.holds_install (tidy : outputs.Tidy) {e : OutputEntry Window}
    (member : e ∈ outputs.entries) (fits : place < COUNT) {opened : Window} {floats : Bool} :
    (outputs.modify e.id (·.modify place (·.install opened floats))).Holds identity slot w ↔
      outputs.Holds identity slot w ∨ (identity = e.identity ∧ slot = place ∧ w = opened) := by
  rw [modify_eq, holds_each keeps_onPlace]
  constructor
  · rintro ⟨y, entry, rfl, held⟩
    have held := (tidy.held_install entry fits).mem_iff.mp held
    split at held
    · rename_i here
      rcases List.mem_cons.mp held with rfl | old
      · exact .inr ⟨tidy.id_eq entry member here.1 ▸ rfl, here.2.symm, rfl⟩
      · exact .inl ⟨y, entry, rfl, old⟩
    · exact .inl ⟨y, entry, rfl, held⟩
  · rintro (⟨y, entry, rfl, held⟩ | ⟨rfl, rfl, rfl⟩)
    · refine ⟨y, entry, rfl, (tidy.held_install entry fits).mem_iff.mpr ?_⟩
      split
      · exact List.mem_cons_of_mem _ held
      · exact held
    · refine ⟨e, member, rfl, (tidy.held_install member fits).mem_iff.mpr ?_⟩
      rw [if_pos ⟨rfl, rfl⟩]
      exact List.mem_cons_self ..

theorem Tidy.install (tidy : outputs.Tidy) {e : OutputEntry Window}
    (member : e ∈ outputs.entries) (fits : place < COUNT) {opened : Window} {floats : Bool}
    (fresh : ∀ identity slot, ¬outputs.Holds identity slot opened) :
    (outputs.modify e.id (·.modify place (·.install opened floats))).Tidy := by
  apply tidy.each keeps_onPlace
  · intro y entry slot
    apply (tidy.held_install entry fits).nodup_iff.mpr
    split
    · exact List.nodup_cons.mpr
        ⟨fun held => fresh _ _ ⟨y, entry, rfl, held⟩, tidy.nodup y entry slot⟩
    · exact tidy.nodup y entry slot
  · intro first second slot slot' w here there
    rcases (tidy.holds_install member fits).mp here with old | ⟨rfl, rfl, rfl⟩
    · rcases (tidy.holds_install member fits).mp there with old' | ⟨rfl, rfl, rfl⟩
      · exact tidy.single old old'
      · exact absurd old (fresh _ _)
    · rcases (tidy.holds_install member fits).mp there with old' | ⟨rfl, rfl, -⟩
      · exact absurd old' (fresh _ _)
      · exact ⟨rfl, rfl⟩

end

end Outputs

end EclipseOS.Abyss
