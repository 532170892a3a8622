import EclipseOS.Abyss.Places

/-! # Re-docking

Whether a window comes back to the monitor it was opened on. It does, as long as no
monitor is unplugged that holds a window of another. -/

namespace EclipseOS.Abyss

open Foundation
open Outputs

variable {Window : Type} [DecidableEq Window]

def DockOp.opens : DockOp Window → Option Window
  | .openWindow w .. => some w
  | _ => none

namespace Dock

/-- The window was opened on this workspace of the monitor. -/
def OpenedOn (past : List (DockOp Window)) (w : Window) (identity : String) (slot : Nat) : Prop :=
  ∃ before after id floats, past = before ++ .openWindow w id slot floats :: after ∧
    ∃ e ∈ (run before).outputs.entries, e.id = id ∧ e.identity = identity

/-- Monitors have distinct identities, one always remains, and a window opens once, on an
output that is there. -/
def Fits (past : List (DockOp Window)) : DockOp Window → Prop
  | .plug identity _ _ => ¬(run past).outputs.Present identity
  | .unplug id => ∃ other ∈ (run past).outputs.entries, other.id ≠ id
  | .openWindow w id slot _ =>
    (∀ op ∈ past, op.opens ≠ some w) ∧
      (∃ e ∈ (run past).outputs.entries, e.id = id) ∧ slot < COUNT
  | .closeWindow _ => True
  | .arrange .. => True

/-- The output that leaves holds no window that is parked for another. -/
def Unguested (past : List (DockOp Window)) : DockOp Window → Prop
  | .unplug id => ∀ e ∈ (run past).outputs.entries, e.id = id → ∀ slot, ∀ w ∈ e.held slot,
      ∀ other slot', ¬(run past).outputs.Parked other slot' w
  | _ => True

structure Docked (past : List (DockOp Window)) : Prop where
  /-- A live window is on one workspace of one output, once. -/
  once : ∀ w ∈ (run past).live, ∃ e ∈ (run past).outputs.entries, ∃ slot,
    (e.held slot).count w = 1 ∧ ∀ e' ∈ (run past).outputs.entries, ∀ slot',
      w ∈ e'.held slot' → e' = e ∧ slot' = slot
  /-- While its own monitor is there, it is on it, where it was opened. -/
  home : ∀ w ∈ (run past).live, ∀ identity slot, OpenedOn past w identity slot →
    ∀ e ∈ (run past).outputs.entries, e.identity = identity → w ∈ e.held slot
  /-- A monitor that is plugged in gets its own windows. -/
  plugged : ∀ before identity connector kind, past = before ++ [.plug identity connector kind] →
    ∀ e ∈ (run past).outputs.entries, e.identity = identity → ∀ slot w,
      w ∈ e.held slot ↔ w ∈ (run before).live ∧ OpenedOn before w identity slot

/-- What holds of a run in which no output leaves with another's windows. -/
structure Homed (past : List (DockOp Window)) : Prop where
  tidy : (run past).outputs.Tidy
  live : ∀ w, w ∈ (run past).live ↔ ∃ identity slot, (run past).outputs.Holds identity slot w
  parked : ∀ {identity slot w}, (run past).outputs.Parked identity slot w →
    OpenedOn past w identity slot
  home : ∀ w ∈ (run past).live, ∃ identity slot, OpenedOn past w identity slot ∧
    ((run past).outputs.Holds identity slot w ∨
      ¬(run past).outputs.Present identity ∧ (run past).outputs.Parked identity slot w)
  sole : ∀ {w identity identity' slot slot'}, OpenedOn past w identity slot →
    OpenedOn past w identity' slot' → identity = identity' ∧ slot = slot'

variable {past : List (DockOp Window)} {op : DockOp Window} {w : Window}
  {identity identity' connector : String} {slot slot' : Nat} {kind : OutputKind}

theorem openedOn_snoc : OpenedOn (past ++ [op]) w identity slot ↔
    OpenedOn past w identity slot ∨
      ∃ id floats, op = .openWindow w id slot floats ∧
        ∃ e ∈ (run past).outputs.entries, e.id = id ∧ e.identity = identity := by
  unfold OpenedOn
  constructor
  · rintro ⟨before, after, id, floats, split, there⟩
    rcases snoc_eq_split.mp split with ⟨rfl, rfl, -⟩ | ⟨middle, -, rfl⟩
    · exact .inr ⟨id, floats, rfl, there⟩
    · exact .inl ⟨before, middle, id, floats, rfl, there⟩
  · rintro (⟨before, after, id, floats, rfl, there⟩ | ⟨id, floats, rfl, there⟩)
    · exact ⟨before, after ++ [op], id, floats, by simp, there⟩
    · exact ⟨past, [], id, floats, rfl, there⟩

theorem OpenedOn.mem (opened : OpenedOn past w identity slot) :
    ∃ op ∈ past, op.opens = some w := by
  rcases opened with ⟨before, after, id, floats, rfl, -⟩
  exact ⟨.openWindow w id slot floats, by simp, rfl⟩

omit [DecidableEq Window] in
theorem tidy_new : (Outputs.new : Outputs Window).Tidy where
  ids := List.nodup_nil
  fresh := nofun
  identities := List.nodup_nil
  slots := nofun
  nodup := nofun
  single := by
    rintro _ _ _ _ _ ⟨_, member, -⟩
    cases member
  absent := by
    rintro _ _ looked
    cases looked
  parkedSlots := by
    rintro _ _ looked
    cases looked
  parkedSingle := by
    rintro _ _ _ _ ⟨_, _, looked, -⟩
    cases looked

theorem homed_nil : Homed ([] : List (DockOp Window)) where
  tidy := tidy_new
  live w := by
    constructor
    · exact nofun
    · rintro ⟨_, _, _, member, -⟩
      cases member
  parked := by
    rintro _ _ _ ⟨_, _, looked, -⟩
    cases looked
  home _ live := by cases live
  sole opened := by
    rcases opened.mem with ⟨_, member, -⟩
    cases member

theorem Homed.sole_snoc (homed : Homed past) (fits : Fits past op)
    (opened : OpenedOn (past ++ [op]) w identity slot)
    (opened' : OpenedOn (past ++ [op]) w identity' slot') :
    identity = identity' ∧ slot = slot' := by
  rcases openedOn_snoc.mp opened with old | ⟨id, floats, rfl, e, member, named, rfl⟩
  · rcases openedOn_snoc.mp opened' with old' | ⟨id, floats, rfl, -⟩
    · exact homed.sole old old'
    · rcases old.mem with ⟨_, before, opens⟩
      exact absurd opens (fits.1 _ before)
  · rcases openedOn_snoc.mp opened' with old' | ⟨_, _, ⟨⟩, e', member', named', rfl⟩
    · rcases old'.mem with ⟨_, before, opens⟩
      exact absurd opens (fits.1 _ before)
    · exact ⟨homed.tidy.id_eq member member' (named.trans named'.symm) ▸ rfl, rfl⟩

theorem Homed.plug (homed : Homed past) (new : ¬(run past).outputs.Present identity) :
    Homed (past ++ [.plug identity connector kind]) where
  tidy := by
    rw [run_snoc]
    exact homed.tidy.add new
  live w := by
    rw [run_snoc]
    change w ∈ (run past).live ↔ ∃ other slot, (add _ _ _ connector kind).1.Holds other slot w
    simp only [homed.tidy.holds_add new, decide_eq_true_eq]
    constructor
    · intro live
      by_cases returns : ∃ slot, (run past).outputs.Parked identity slot w
      · rcases returns with ⟨slot, parked⟩
        exact ⟨identity, slot, .inl ⟨rfl, live, parked⟩⟩
      · rcases (homed.live w).mp live with ⟨other, slot, held⟩
        exact ⟨other, slot, .inr ⟨held, fun both => returns both.2⟩⟩
    · rintro ⟨other, slot, ⟨-, live, -⟩ | ⟨held, -⟩⟩
      · exact live
      · exact (homed.live w).mpr ⟨other, slot, held⟩
  parked := by
    rw [run_snoc]
    intro other slot w parked
    exact openedOn_snoc.mpr (.inl (homed.parked ((parked_add new).mp parked).2))
  home w live := by
    rw [run_snoc] at live ⊢
    change w ∈ (run past).live at live
    rcases homed.home w live with ⟨own, slot, opened, place⟩
    refine ⟨own, slot, openedOn_snoc.mpr (.inl opened), ?_⟩
    change (add _ _ _ connector kind).1.Holds own slot w ∨
      ¬(add _ _ _ connector kind).1.Present own ∧ (add _ _ _ connector kind).1.Parked own slot w
    rw [homed.tidy.holds_add new, present_add new, parked_add new, decide_eq_true_eq]
    rcases place with held | ⟨away, parked⟩
    · refine .inl (.inr ⟨held, fun returns => ?_⟩)
      rcases returns with ⟨-, other, parked⟩
      rcases held with ⟨e, member, rfl, -⟩
      exact new ⟨e, member, (homed.sole opened (homed.parked parked)).1⟩
    · by_cases same : own = identity
      · subst same
        exact .inl (.inl ⟨rfl, live, parked⟩)
      · exact .inr ⟨by simp [same, away], same, parked⟩
  sole := homed.sole_snoc new

theorem Homed.same (homed : Homed past) (fits : Fits past op)
    (stays : (run past).step op = run past) : Homed (past ++ [op]) where
  tidy := by
    rw [run_snoc, stays]
    exact homed.tidy
  live := by
    rw [run_snoc, stays]
    exact homed.live
  parked := by
    rw [run_snoc, stays]
    exact fun parked => openedOn_snoc.mpr (.inl (homed.parked parked))
  home := by
    rw [run_snoc, stays]
    intro w live
    rcases homed.home w live with ⟨own, slot, opened, place⟩
    exact ⟨own, slot, openedOn_snoc.mpr (.inl opened), place⟩
  sole := homed.sole_snoc fits

theorem Homed.unplug {id : Nat} (homed : Homed past) (fits : Fits past (.unplug id))
    (unguested : Unguested past (.unplug id)) : Homed (past ++ [.unplug id]) := by
  cases looked : (run past).outputs.entries.find? (·.id = id) with
  | none =>
    apply homed.same fits
    change { run past with outputs := (run past).outputs.unregister id } = run past
    rw [unregister, Outputs.remove, looked]
    rfl
  | some e =>
    have member := List.mem_of_find?_eq_some looked
    have named : e.id = id := by simpa using List.find?_some looked
    subst named
    rcases fits with ⟨other, remains, differ⟩
    rcases homed.tidy.unregister_eq member remains differ with
      ⟨target, taker, apart, unregistered⟩
    have departed := homed.tidy.parted member taker apart
    have stays : (run (past ++ [.unplug e.id])).outputs =
        (run past).outputs.parting e target := by
      rw [run_snoc]
      exact unregistered
    have lives : (run (past ++ [.unplug e.id])).live = (run past).live := by
      rw [run_snoc]
      rfl
    refine ⟨?_, ?_, ?_, ?_, homed.sole_snoc ⟨other, remains, differ⟩⟩
    · rw [stays]
      exact homed.tidy.parting member taker apart
    · intro w
      rw [stays, lives, homed.live]
      constructor
      · rintro ⟨own, slot, held⟩
        by_cases gone : own = e.identity
        · exact ⟨_, slot, (departed.holds _ _ _).mpr (.inr ⟨rfl, gone ▸ held⟩)⟩
        · exact ⟨own, slot, (departed.holds _ _ _).mpr (.inl ⟨gone, held⟩)⟩
      · rintro ⟨own, slot, held⟩
        rcases (departed.holds _ _ _).mp held with ⟨-, held⟩ | ⟨-, held⟩
        · exact ⟨own, slot, held⟩
        · exact ⟨e.identity, slot, held⟩
    · rw [stays]
      intro own slot w parked
      apply openedOn_snoc.mpr
      rcases (departed.parked _ _ _).mp parked with ⟨rfl, held⟩ | ⟨-, parked⟩
      · -- what the output held was its own
        rcases homed.home w ((homed.live w).mpr ⟨_, _, held⟩) with
          ⟨own, place, opened, there | ⟨-, parked⟩⟩
        · rcases homed.tidy.single there held with ⟨rfl, rfl⟩
          exact .inl opened
        · have here := (homed.tidy.holds_entry member).mp held
          exact absurd parked (unguested e member rfl slot w here own place)
      · exact .inl (homed.parked parked)
    · intro w live
      rw [lives] at live
      rw [stays]
      rcases homed.home w live with ⟨own, slot, opened, place⟩
      refine ⟨own, slot, openedOn_snoc.mpr (.inl opened), ?_⟩
      rw [departed.holds, departed.present, departed.parked]
      rcases place with held | ⟨away, parked⟩
      · by_cases gone : own = e.identity
        · subst gone
          exact .inr ⟨by simp, .inl ⟨rfl, held⟩⟩
        · exact .inl (.inl ⟨gone, held⟩)
      · have other : own ≠ e.identity := fun same => away ⟨e, member, same.symm⟩
        exact .inr ⟨fun both => away both.2, .inr ⟨other, parked⟩⟩

theorem Homed.openWindow {id : Nat} {floats : Bool} (homed : Homed past)
    (fits : Fits past (.openWindow w id slot floats)) :
    Homed (past ++ [.openWindow w id slot floats]) := by
  rcases fits with ⟨fresh, ⟨e, member, rfl⟩, place⟩
  have unheld : ∀ identity slot, ¬(run past).outputs.Holds identity slot w := by
    intro identity slot held
    rcases homed.home w ((homed.live w).mpr ⟨_, _, held⟩) with ⟨_, _, opened, -⟩
    rcases opened.mem with ⟨_, before, opens⟩
    exact fresh _ before opens
  refine ⟨?_, ?_, ?_, ?_, homed.sole_snoc ⟨fresh, ⟨e, member, rfl⟩, place⟩⟩
  · rw [run_snoc]
    exact homed.tidy.install member place unheld
  · intro other
    rw [run_snoc]
    change other ∈ (run past).live ++ [w] ↔ ∃ own slot', ((run past).outputs.modify e.id
      (·.modify slot (·.install w floats))).Holds own slot' other
    simp only [homed.tidy.holds_install member place, List.mem_append, List.mem_singleton,
      homed.live]
    constructor
    · rintro (⟨own, slot', held⟩ | rfl)
      · exact ⟨own, slot', .inl held⟩
      · exact ⟨e.identity, slot, .inr ⟨rfl, rfl, rfl⟩⟩
    · rintro ⟨own, slot', held | ⟨-, -, rfl⟩⟩
      · exact .inl ⟨own, slot', held⟩
      · exact .inr rfl
  · rw [run_snoc]
    exact fun parked => openedOn_snoc.mpr (.inl (homed.parked parked))
  · intro other live
    rw [run_snoc] at live ⊢
    rcases List.mem_append.mp live with old | new
    · rcases homed.home other old with ⟨own, slot', opened, stands⟩
      refine ⟨own, slot', openedOn_snoc.mpr (.inl opened), ?_⟩
      rcases stands with held | ⟨away, parked⟩
      · exact .inl ((homed.tidy.holds_install member place).mpr (.inl held))
      · exact .inr ⟨fun there => away ((present_each keeps_onPlace).mp there), parked⟩
    · cases List.mem_singleton.mp new
      refine ⟨e.identity, slot, openedOn_snoc.mpr (.inr ⟨e.id, floats, rfl, e, member, rfl, rfl⟩),
        .inl ((homed.tidy.holds_install member place).mpr (.inr ⟨rfl, rfl, rfl⟩))⟩

theorem Homed.closeWindow (homed : Homed past) : Homed (past ++ [.closeWindow w]) := by
  refine ⟨?_, ?_, ?_, ?_, homed.sole_snoc (show Fits past (.closeWindow w) from trivial)⟩
  · rw [run_snoc]
    exact homed.tidy.unmapWindow w
  · intro other
    rw [run_snoc]
    change other ∈ (run past).live.filter (· ≠ w) ↔
      ∃ identity slot, ((run past).outputs.unmapWindow w).Holds identity slot other
    simp only [homed.tidy.holds_unmapWindow, List.mem_filter, homed.live, decide_eq_true_eq]
    constructor
    · rintro ⟨⟨own, slot, held⟩, differ⟩
      exact ⟨own, slot, held, differ⟩
    · rintro ⟨own, slot, held, differ⟩
      exact ⟨⟨own, slot, held⟩, differ⟩
  · rw [run_snoc]
    exact fun parked => openedOn_snoc.mpr (.inl (homed.parked parked))
  · intro other live
    rw [run_snoc] at live ⊢
    rcases List.mem_filter.mp live with ⟨live, differ⟩
    rcases homed.home other live with ⟨own, slot, opened, stands⟩
    refine ⟨own, slot, openedOn_snoc.mpr (.inl opened), ?_⟩
    rcases stands with held | ⟨away, parked⟩
    · exact .inl (homed.tidy.holds_unmapWindow.mpr ⟨held, of_decide_eq_true differ⟩)
    · exact .inr ⟨fun there => away ((present_each (keeps_unmap w)).mp there), parked⟩

theorem Homed.arrange {id : Nat} {stacking : Bool} (homed : Homed past) :
    Homed (past ++ [.arrange id slot stacking]) := by
  refine ⟨?_, ?_, ?_, ?_, homed.sole_snoc (show Fits past (.arrange id slot stacking) from trivial)⟩
  · rw [run_snoc]
    exact homed.tidy.arrange
  · intro w
    rw [run_snoc]
    change w ∈ (run past).live ↔ ∃ own place,
      ((run past).outputs.modify id (·.modify slot (·.adopt stacking))).Holds own place w
    simp only [holds_arrange, homed.live]
  · rw [run_snoc]
    exact fun parked => openedOn_snoc.mpr (.inl (homed.parked parked))
  · intro w live
    rw [run_snoc] at live ⊢
    rcases homed.home w live with ⟨own, place, opened, stands⟩
    refine ⟨own, place, openedOn_snoc.mpr (.inl opened), ?_⟩
    rcases stands with held | ⟨away, parked⟩
    · exact .inl (holds_arrange.mpr held)
    · exact .inr ⟨fun there => away ((present_each keeps_onPlace).mp there), parked⟩

theorem homed_run (past : List (DockOp Window)) (fits : Throughout Fits past)
    (unguested : Throughout Unguested past) : Homed past := by
  induction past using List.reverseRecOn with
  | nil => exact homed_nil
  | append_singleton past op induction =>
    rcases throughout_snoc.mp fits with ⟨fits, now⟩
    rcases throughout_snoc.mp unguested with ⟨unguested, apart⟩
    have homed := induction fits unguested
    cases op with
    | plug identity connector kind => exact homed.plug now
    | unplug id => exact homed.unplug now apart
    | openWindow w id slot floats => exact homed.openWindow now
    | closeWindow w => exact homed.closeWindow
    | arrange id slot stacking => exact homed.arrange

omit [DecidableEq Window] in
theorem mem_held_of_holds {outputs : Outputs Window} (tidy : outputs.Tidy)
    {e : OutputEntry Window} (member : e ∈ outputs.entries) (named : e.identity = identity) :
    w ∈ e.held slot ↔ outputs.Holds identity slot w :=
  named ▸ (tidy.holds_entry member).symm

/-- Windows come home, in every run in which no output leaves with another's windows. -/
theorem redocks (past : List (DockOp Window)) (fits : Throughout Fits past)
    (unguested : Throughout Unguested past) : Docked past := by
  have homed := homed_run past fits unguested
  refine ⟨?_, ?_, ?_⟩
  · intro w live
    rcases (homed.live w).mp live with ⟨own, slot, e, member, rfl, held⟩
    have once := List.count_eq_one_of_mem (homed.tidy.nodup e member slot) held
    refine ⟨e, member, slot, once, fun e' member' slot' held' => ?_⟩
    rcases homed.tidy.single ⟨e', member', rfl, held'⟩ ⟨e, member, rfl, held⟩ with ⟨same, place⟩
    exact ⟨homed.tidy.entry_eq member' member same, place⟩
  · intro w live identity slot opened e member named
    rcases homed.home w live with ⟨own, place, opened', stands⟩
    rcases homed.sole opened opened' with ⟨rfl, rfl⟩
    rcases stands with held | ⟨away, -⟩
    · exact (mem_held_of_holds homed.tidy member named).mpr held
    · exact absurd ⟨e, member, named⟩ away
  · rintro before identity connector kind rfl e member named slot w
    rcases throughout_snoc.mp fits with ⟨fits, new⟩
    have earlier := homed_run before fits (throughout_snoc.mp unguested).1
    rw [mem_held_of_holds homed.tidy member named, run_snoc]
    change (add _ _ _ connector kind).1.Holds identity slot w ↔ _
    rw [earlier.tidy.holds_add new, decide_eq_true_eq]
    constructor
    · rintro (⟨-, live, parked⟩ | ⟨⟨e', there, named', -⟩, -⟩)
      · exact ⟨live, earlier.parked parked⟩
      · exact absurd ⟨e', there, named'⟩ new
    · rintro ⟨live, opened⟩
      rcases earlier.home w live with ⟨own, place, opened', stands⟩
      rcases earlier.sole opened opened' with ⟨rfl, rfl⟩
      rcases stands with ⟨e', there, named', -⟩ | ⟨-, parked⟩
      · exact absurd ⟨e', there, named'⟩ new
      · exact .inl ⟨rfl, live, parked⟩

theorem unguested_first {id : Nat} (first : (run past).outputs.stash.entries = []) :
    Unguested past (.unplug id) := by
  rintro e - - slot w - other slot' ⟨parked, wins, looked, -⟩
  have entry := Table.lookup_eq_some.mp looked
  rw [first] at entry
  cases entry

instance (past : List (DockOp Window)) (op : DockOp Window) : Decidable (Fits past op) := by
  unfold Fits Present
  cases op <;> infer_instance

def redock : List (DockOp Nat) :=
  [.plug "A" "DP-1" .physical, .plug "B" "DP-2" .physical, .openWindow 0 1 0 false, .unplug 1,
    .plug "A" "DP-1" .physical]

theorem redocks_one : Docked redock :=
  redocks redock (by decide)
    ⟨trivial, trivial, trivial, unguested_first rfl, trivial, trivial⟩

/-- Two monitors leave after one another, and the first comes back first. -/
def relay : List (DockOp Nat) :=
  [.plug "A" "DP-1" .physical, .plug "B" "DP-2" .physical, .plug "C" "DP-3" .physical,
    .openWindow 0 1 0 false, .unplug 1, .unplug 2, .plug "A" "DP-1" .physical,
    .plug "B" "DP-2" .physical]

/-- The second monitor takes the window that has come home to the first. -/
theorem relay_takes : ¬∀ past : List (DockOp Nat), Throughout Fits past → Docked past := by
  intro docks
  have docked := docks relay (by decide)
  have opened : OpenedOn relay 0 "A" 0 :=
    ⟨relay.take 3, relay.drop 4, 1, false, rfl, by decide⟩
  have stolen : ∃ e ∈ (run relay).outputs.entries, e.identity = "A" ∧ 0 ∉ e.held 0 := by decide
  rcases stolen with ⟨e, member, named, missing⟩
  exact missing (docked.home 0 (by decide) "A" 0 opened e member named)

end Dock

end EclipseOS.Abyss
