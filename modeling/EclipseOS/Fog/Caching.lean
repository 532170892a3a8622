import Mathlib.Data.Finset.Erase
import Mathlib.Data.Finset.Insert
import EclipseOS.Foundation.Table
import EclipseOS.Fog.Listing

/-! # The listing cache

Listings by their paths, bounded in number and in bytes. An index by ticks says which were
used longest ago; pinned ones have subscribers and are to stay. -/

namespace EclipseOS.Fog.Caching

open Foundation Views

/-! ## Ticks -/

/-- `BTreeMap::insert`: the entries are in the order of their ticks. -/
def insertTick (entry : Nat × DirPath) : List (Nat × DirPath) → List (Nat × DirPath)
  | [] => [entry]
  | first :: rest =>
    if entry.1 < first.1 then entry :: first :: rest
    else if entry.1 = first.1 then entry :: rest
    else first :: insertTick entry rest

def removeTick (tick : Nat) (lru : List (Nat × DirPath)) : List (Nat × DirPath) :=
  lru.filter (·.1 ≠ tick)

def pathAt (tick : Nat) (lru : List (Nat × DirPath)) : Option DirPath :=
  (lru.find? (·.1 = tick)).map (·.2)

/-! ## The cache -/

structure Slot where
  listing : Listing
  tick : Nat
  bytes : Nat
  deriving DecidableEq

structure Cache where
  maxDirs : Nat
  maxBytes : Nat
  bytes : Nat
  tick : Nat
  slots : Table DirPath Slot
  lru : List (Nat × DirPath)
  pinned : Finset DirPath

namespace Cache

def new (maxDirs maxBytes : Nat) : Cache := ⟨maxDirs, maxBytes, 0, 0, ∅, [], ∅⟩

def get (c : Cache) (path : DirPath) : Cache × Option Listing :=
  match c.slots.lookup path with
  | none => ({ c with tick := c.tick + 1 }, none)
  | some slot =>
    match pathAt slot.tick c.lru with
    | none => ({ c with tick := c.tick + 1 }, none)
    | some key =>
      ({ c with
          tick := c.tick + 1
          slots := c.slots.insert path { slot with tick := c.tick + 1 }
          lru := insertTick (c.tick + 1, key) (removeTick slot.tick c.lru) },
        some slot.listing)

def peek (c : Cache) (path : DirPath) : Option Listing := (c.slots.lookup path).map (·.listing)

def remove (c : Cache) (path : DirPath) : Cache × Option Listing :=
  match c.slots.lookup path with
  | none => (c, none)
  | some slot =>
    ({ c with
        slots := c.slots.erase path
        lru := removeTick slot.tick c.lru
        bytes := c.bytes - slot.bytes }, some slot.listing)

/-- More listings than allowed, or more bytes. -/
def full (c : Cache) : Bool :=
  c.slots.entries.length > c.maxDirs ∨ c.bytes > c.maxBytes

def evict (c : Cache) (path : DirPath) : Cache :=
  match c.slots.lookup path with
  | none => c
  | some slot => { c with slots := c.slots.erase path, bytes := c.bytes - slot.bytes }

/-- `insert`'s loop: pop the oldest, set pinned ones aside, evict the others. -/
def makeRoom (c : Cache) (kept : List (Nat × DirPath)) (evicted : List DirPath) :
    List (Nat × DirPath) → Cache × List (Nat × DirPath) × List DirPath
  | [] => ({ c with lru := [] }, kept, evicted)
  | (tick, oldest) :: rest =>
    if c.full then
      if oldest ∈ c.pinned then c.makeRoom (kept ++ [(tick, oldest)]) evicted rest
      else (c.evict oldest).makeRoom kept (evicted ++ [oldest]) rest
    else ({ c with lru := (tick, oldest) :: rest }, kept, evicted)

/-- The new listing, most recently used, before there is room for it. `size` is what a listing
takes in memory. -/
def place (size : Listing → Nat) (c : Cache) (path : DirPath) (listing : Listing) : Cache :=
  let without := (c.remove path).1
  let bytes := size listing + path.length
  { without with
    tick := without.tick + 1
    bytes := without.bytes + bytes
    lru := insertTick (without.tick + 1, path) without.lru
    slots := without.slots.insert path ⟨listing, without.tick + 1, bytes⟩ }

/-- Insert or replace as most recently used, then evict unpinned listings, oldest first. -/
def insert (size : Listing → Nat) (c : Cache) (path : DirPath) (listing : Listing) :
    Cache × List DirPath :=
  let placed := c.place size path listing
  let (roomy, kept, evicted) := placed.makeRoom [] [] placed.lru
  ({ roomy with lru := kept.foldl (fun lru entry => insertTick entry lru) roomy.lru }, evicted)

def pin (c : Cache) (path : DirPath) : Cache := { c with pinned := Insert.insert path c.pinned }

def unpin (c : Cache) (path : DirPath) : Cache := { c with pinned := c.pinned.erase path }

/-- `set_limits`' loop. -/
def shrink (c : Cache) : List (Nat × DirPath) → Cache
  | [] => { c with lru := [] }
  | (tick, oldest) :: rest =>
    if c.full then (c.evict oldest).shrink rest
    else { c with lru := (tick, oldest) :: rest }

def setLimits (c : Cache) (maxDirs maxBytes : Nat) : Cache :=
  { c with maxDirs, maxBytes }.shrink c.lru

end Cache

inductive Op where
  | get (path : DirPath)
  | peek (path : DirPath)
  | insert (path : DirPath) (listing : Listing)
  | remove (path : DirPath)
  | pin (path : DirPath)
  | unpin (path : DirPath)
  | setLimits (maxDirs maxBytes : Nat)

/-- An operation, and the evicted paths it returns. -/
def Cache.step (size : Listing → Nat) (c : Cache) : Op → Cache × List DirPath
  | .get path => ((c.get path).1, [])
  | .peek _ => (c, [])
  | .insert path listing => c.insert size path listing
  | .remove path => ((c.remove path).1, [])
  | .pin path => (c.pin path, [])
  | .unpin path => (c.unpin path, [])
  | .setLimits maxDirs maxBytes => (c.setLimits maxDirs maxBytes, [])

def run (size : Listing → Nat) (c : Cache) (ops : List Op) : Cache :=
  ops.foldl (fun c op => (c.step size op).1) c

/-! ## The index -/

theorem insertTick_between {entry : Nat × DirPath} : ∀ {before after : List (Nat × DirPath)},
    (∀ e ∈ before, e.1 < entry.1) → (∀ e ∈ after, entry.1 < e.1) →
      insertTick entry (before ++ after) = before ++ entry :: after
  | [], [], _, _ => rfl
  | [], first :: rest, _, larger => if_pos (larger first List.mem_cons_self)
  | first :: before, after, smaller, larger => by
      have less := smaller first List.mem_cons_self
      have rest := insertTick_between
        (fun e member => smaller e (List.mem_cons_of_mem first member)) larger
      rw [List.cons_append, insertTick, if_neg (by omega), if_neg (by omega), rest,
        List.cons_append]

theorem insertTick_last {entry : Nat × DirPath} {lru : List (Nat × DirPath)}
    (smaller : ∀ e ∈ lru, e.1 < entry.1) : insertTick entry lru = lru ++ [entry] := by
  have placed := @insertTick_between _ _ [] smaller (by simp)
  rwa [List.append_nil] at placed

theorem mem_removeTick {tick : Nat} {lru : List (Nat × DirPath)} {entry : Nat × DirPath} :
    entry ∈ removeTick tick lru ↔ entry ∈ lru ∧ entry.1 ≠ tick := by
  simp [removeTick]

theorem tick_once {lru : List (Nat × DirPath)} (ascending : lru.Pairwise (·.1 < ·.1))
    {left right : Nat × DirPath} (first : left ∈ lru) (second : right ∈ lru)
    (same : left.1 = right.1) : left = right := by
  have ticks : (lru.map (·.1)).Nodup := by
    rw [List.Nodup, List.pairwise_map]
    exact ascending.imp Nat.ne_of_lt
  exact List.inj_on_of_nodup_map ticks first second same

theorem pathAt_of_mem {lru : List (Nat × DirPath)} (ascending : lru.Pairwise (·.1 < ·.1))
    {tick : Nat} {path : DirPath} (member : (tick, path) ∈ lru) : pathAt tick lru = some path := by
  unfold pathAt
  cases found : lru.find? (·.1 = tick) with
  | none =>
    have never := List.find?_eq_none.mp found _ member
    simp at never
  | some entry =>
    have same : entry.1 = tick := by simpa using List.find?_some found
    rw [tick_once ascending (List.mem_of_find?_eq_some found) member same]
    rfl

def weight (_ : DirPath) (slot : Slot) : Nat := slot.bytes

/-- The index names the cached paths with their ticks, and the bytes are those of the slots. -/
structure Indexed (size : Listing → Nat) (c : Cache) : Prop where
  ascending : c.lru.Pairwise (·.1 < ·.1)
  named : ∀ tick path,
    (tick, path) ∈ c.lru ↔ ∃ slot, c.slots.lookup path = some slot ∧ slot.tick = tick
  past : ∀ entry ∈ c.lru, entry.1 ≤ c.tick
  measured : ∀ path slot, c.slots.lookup path = some slot →
    slot.bytes = size slot.listing + path.length
  accounted : c.bytes = Table.total weight c.slots

theorem indexed_new (size : Listing → Nat) (maxDirs maxBytes : Nat) :
    Indexed size (Cache.new maxDirs maxBytes) where
  ascending := .nil
  named := by simp [Cache.new]
  past := by simp [Cache.new]
  measured := by simp [Cache.new]
  accounted := rfl

theorem Indexed.drop {size : Listing → Nat} {c : Cache} (indexed : Indexed size c)
    {path : DirPath} {slot : Slot} (found : c.slots.lookup path = some slot)
    {lru : List (Nat × DirPath)} (ascending : lru.Pairwise (·.1 < ·.1))
    (left : ∀ entry, entry ∈ lru ↔ entry ∈ c.lru ∧ entry ≠ (slot.tick, path)) :
    Indexed size { c with
      slots := c.slots.erase path
      lru
      bytes := c.bytes - slot.bytes } where
  ascending
  named := by
    intro tick other
    simp only [left, indexed.named, Table.lookup_erase_eq_some]
    constructor
    · rintro ⟨⟨held, looked, rfl⟩, different⟩
      refine ⟨held, ⟨fun same => different ?_, looked⟩, rfl⟩
      subst same
      rw [Option.some.inj (looked.symm.trans found)]
    · rintro ⟨held, ⟨different, looked⟩, rfl⟩
      exact ⟨⟨held, looked, rfl⟩, fun same => different (congrArg Prod.snd same)⟩
  past := fun entry member => indexed.past entry ((left entry).mp member).1
  measured := fun other held looked =>
    indexed.measured other held (Table.lookup_erase_eq_some.mp looked).2
  accounted := by
    have total := Table.total_erase weight found
    rw [← indexed.accounted] at total
    simp only [total, weight]
    omega

theorem Indexed.put {size : Listing → Nat} {c : Cache} (indexed : Indexed size c)
    {path : DirPath} (fresh : c.slots.lookup path = none) (listing : Listing) :
    Indexed size { c with
      tick := c.tick + 1
      bytes := c.bytes + (size listing + path.length)
      lru := insertTick (c.tick + 1, path) c.lru
      slots := c.slots.insert path ⟨listing, c.tick + 1, size listing + path.length⟩ } := by
  have last : insertTick (c.tick + 1, path) c.lru = c.lru ++ [(c.tick + 1, path)] :=
    insertTick_last fun entry member => Nat.lt_succ_of_le (indexed.past entry member)
  exact
    { ascending := by
        simp only [last]
        refine List.pairwise_append.mpr ⟨indexed.ascending, List.pairwise_singleton _ _, ?_⟩
        intro entry member new here
        rw [List.mem_singleton.mp here]
        exact Nat.lt_succ_of_le (indexed.past entry member)
      named := by
        intro tick other
        simp only [last, List.mem_append, List.mem_singleton, indexed.named,
          Table.lookup_insert_eq_some, Prod.mk.injEq]
        constructor
        · rintro (⟨held, looked, same⟩ | ⟨rfl, rfl⟩)
          · refine ⟨held, .inr ⟨fun here => ?_, looked⟩, same⟩
            rw [here, fresh] at looked
            cases looked
          · exact ⟨_, .inl ⟨rfl, rfl⟩, rfl⟩
        · rintro ⟨held, ⟨rfl, rfl⟩ | ⟨different, looked⟩, rfl⟩
          · exact .inr ⟨rfl, rfl⟩
          · exact .inl ⟨held, looked, rfl⟩
      past := by
        intro entry member
        simp only [last, List.mem_append, List.mem_singleton] at member
        rcases member with old | rfl
        · exact Nat.le_succ_of_le (indexed.past entry old)
        · exact Nat.le_refl _
      measured := by
        intro other held looked
        rcases Table.lookup_insert_eq_some.mp looked with ⟨rfl, rfl⟩ | ⟨-, old⟩
        · rfl
        · exact indexed.measured other held old
      accounted := by
        rw [Table.total_insert, Table.total_erase_of_none weight fresh, ← indexed.accounted]
        rfl }

section Steps

variable {size : Listing → Nat} {c : Cache} {path : DirPath}

theorem Indexed.tick (indexed : Indexed size c) :
    Indexed size { c with tick := c.tick + 1 } where
  ascending := indexed.ascending
  named := indexed.named
  past := fun entry member => Nat.le_succ_of_le (indexed.past entry member)
  measured := indexed.measured
  accounted := indexed.accounted

theorem Indexed.mem_of_lookup (indexed : Indexed size c) {slot : Slot}
    (found : c.slots.lookup path = some slot) : (slot.tick, path) ∈ c.lru :=
  (indexed.named slot.tick path).mpr ⟨slot, found, rfl⟩

theorem Indexed.remove (indexed : Indexed size c) (path : DirPath) :
    Indexed size (c.remove path).1 := by
  unfold Cache.remove
  cases found : c.slots.lookup path with
  | none => exact indexed
  | some slot =>
    refine indexed.drop found (indexed.ascending.sublist List.filter_sublist) fun entry => ?_
    rw [mem_removeTick]
    refine and_congr_right fun member => not_congr ⟨fun same => ?_, fun same => same ▸ rfl⟩
    exact tick_once indexed.ascending member (indexed.mem_of_lookup found) same

theorem lookup_remove (c : Cache) (path other : DirPath) :
    (c.remove path).1.slots.lookup other =
      if other = path then none else c.slots.lookup other := by
  unfold Cache.remove
  by_cases same : other = path
  · subst same
    rw [if_pos rfl]
    cases found : c.slots.lookup other with
    | none => exact found
    | some slot => exact AList.lookup_erase other c.slots
  · rw [if_neg same]
    cases c.slots.lookup path with
    | none => rfl
    | some slot => exact AList.lookup_erase_ne same

theorem remove_pinned (c : Cache) (path : DirPath) : (c.remove path).1.pinned = c.pinned := by
  unfold Cache.remove
  cases c.slots.lookup path <;> rfl

theorem Indexed.place (indexed : Indexed size c) (path : DirPath) (listing : Listing) :
    Indexed size (c.place size path listing) := by
  refine (indexed.remove path).put ?_ listing
  rw [lookup_remove, if_pos rfl]

theorem lookup_place (c : Cache) (path other : DirPath) (listing : Listing) :
    (c.place size path listing).slots.lookup other =
      if other = path then
        some ⟨listing, (c.remove path).1.tick + 1, size listing + path.length⟩
      else c.slots.lookup other := by
  unfold Cache.place
  by_cases same : other = path
  · rw [if_pos same, same]
    exact AList.lookup_insert _
  · rw [if_neg same]
    refine (AList.lookup_insert_ne same).trans ?_
    rw [lookup_remove, if_neg same]

theorem Indexed.get (indexed : Indexed size c) (path : DirPath) :
    Indexed size (c.get path).1 := by
  unfold Cache.get
  cases found : c.slots.lookup path with
  | none => exact indexed.tick
  | some slot =>
    have member := indexed.mem_of_lookup found
    have again : (c.slots.erase path).lookup path = none := AList.lookup_erase path c.slots
    have dropped : Indexed size { c with
        slots := c.slots.erase path
        lru := removeTick slot.tick c.lru
        bytes := c.bytes - slot.bytes } := by
      have removed := indexed.remove path
      unfold Cache.remove at removed
      rwa [found] at removed
    have put := dropped.put again slot.listing
    have enough : slot.bytes ≤ c.bytes := by
      rw [indexed.accounted, Table.total_erase weight found]
      exact Nat.le_add_left _ _
    simp only [pathAt_of_mem indexed.ascending member]
    rw [← indexed.measured path slot found, Table.insert_erase] at put
    simp only [Nat.sub_add_cancel enough] at put
    exact put

theorem lookup_get_isSome (c : Cache) (path other : DirPath) :
    ((c.get path).1.slots.lookup other).isSome = (c.slots.lookup other).isSome := by
  unfold Cache.get
  cases found : c.slots.lookup path with
  | none => rfl
  | some slot =>
    cases known : pathAt slot.tick c.lru with
    | none => simp [known]
    | some key =>
      simp only [known]
      by_cases same : other = path
      · subst same
        rw [AList.lookup_insert, found]
        rfl
      · rw [AList.lookup_insert_ne same]

end Steps

/-! ## Making room -/

section Room

variable {size : Listing → Nat} {c : Cache}

theorem lookup_evict (c : Cache) (path other : DirPath) :
    (c.evict path).slots.lookup other = if other = path then none else c.slots.lookup other := by
  unfold Cache.evict
  by_cases same : other = path
  · subst same
    rw [if_pos rfl]
    cases found : c.slots.lookup other with
    | none => exact found
    | some slot => exact AList.lookup_erase other c.slots
  · rw [if_neg same]
    cases c.slots.lookup path with
    | none => rfl
    | some slot => exact AList.lookup_erase_ne same

theorem evict_pinned (c : Cache) (path : DirPath) : (c.evict path).pinned = c.pinned := by
  unfold Cache.evict
  cases c.slots.lookup path <;> rfl

theorem Indexed.evict {before after : List (Nat × DirPath)} {tick : Nat} {path : DirPath}
    (indexed : Indexed size { c with lru := before ++ (tick, path) :: after }) :
    Indexed size { c.evict path with lru := before ++ after } := by
  obtain ⟨slot, found, rfl⟩ := (indexed.named tick path).mp
    (List.mem_append_right before List.mem_cons_self)
  have nodup : (before ++ (slot.tick, path) :: after).Nodup := by
    refine List.Pairwise.imp ?_ indexed.ascending
    intro left right less same
    rw [same] at less
    exact Nat.lt_irrefl _ less
  have dropped := @Indexed.drop _ _ indexed _ _ found (before ++ after) (indexed.ascending.sublist
      (List.Sublist.append_left (List.sublist_cons_self _ after) before)) fun entry => by
    have apart := (List.nodup_middle.mp nodup)
    rw [List.nodup_cons] at apart
    simp only [List.mem_append, List.mem_cons] at apart ⊢
    constructor
    · intro member
      refine ⟨member.imp_right .inr, fun same => apart.1 ?_⟩
      rw [← same]
      exact member
    · rintro ⟨old | same | new, different⟩
      · exact .inl old
      · exact absurd same different
      · exact .inr new
  unfold Cache.evict
  simp only at found
  rw [found]
  exact dropped

/-- What the loop leaves of a cache: the entries it set aside are of pinned paths, those it
evicted were older than all it did not come to. -/
structure Roomy (size : Listing → Nat) (c : Cache) (kept lru : List (Nat × DirPath))
    (gone : List DirPath) (room : Cache) (aside : List (Nat × DirPath)) : Prop where
  indexed : Indexed size { room with lru := aside ++ room.lru }
  fits : room.full = false ∨ room.lru = []
  aside : ∀ entry ∈ aside, entry ∈ kept ∨ entry.2 ∈ c.pinned
  pinned : room.pinned = c.pinned
  lookup : ∀ path, room.slots.lookup path = if path ∈ gone then none else c.slots.lookup path
  left : ∀ entry ∈ room.lru, entry ∈ lru
  evicted : ∀ path ∈ gone, path ∉ c.pinned ∧
    ∃ tick, (tick, path) ∈ lru ∧ ∀ entry ∈ room.lru, tick < entry.1

theorem makeRoom_spec : ∀ (lru : List (Nat × DirPath)) {c : Cache}
    (kept : List (Nat × DirPath)) (evicted : List DirPath),
    Indexed size { c with lru := kept ++ lru } →
      ∃ gone room aside, c.makeRoom kept evicted lru = (room, aside, evicted ++ gone) ∧
        Roomy size c kept lru gone room aside
  | [], c, kept, evicted, indexed => by
      refine ⟨[], { c with lru := [] }, kept, by simp [Cache.makeRoom], ?_⟩
      exact
        { indexed := indexed
          fits := .inr rfl
          aside := fun _ member => .inl member
          pinned := rfl
          lookup := by simp
          left := by simp
          evicted := by simp }
  | (tick, oldest) :: rest, c, kept, evicted, indexed => by
      unfold Cache.makeRoom
      by_cases full : c.full = true
      · rw [if_pos full]
        by_cases pinned : oldest ∈ c.pinned
        · rw [if_pos pinned]
          obtain ⟨gone, room, aside, result, roomy⟩ :=
            makeRoom_spec rest (kept ++ [(tick, oldest)]) evicted
              (by rwa [List.append_assoc, List.singleton_append])
          refine ⟨gone, room, aside, result, ?_⟩
          exact
            { roomy with
              aside := by
                intro entry member
                rcases roomy.aside entry member with old | held
                · rcases List.mem_append.mp old with before | here
                  · exact .inl before
                  · rw [List.mem_singleton.mp here]
                    exact .inr pinned
                · exact .inr held
              left := fun entry member => List.mem_cons_of_mem _ (roomy.left entry member)
              evicted := by
                intro path member
                obtain ⟨unpinned, held, inside, older⟩ := roomy.evicted path member
                exact ⟨unpinned, held, List.mem_cons_of_mem _ inside, older⟩ }
        · rw [if_neg pinned]
          obtain ⟨gone, room, aside, result, roomy⟩ :=
            makeRoom_spec rest kept (evicted ++ [oldest]) indexed.evict
          refine ⟨oldest :: gone, room, aside, by simpa using result, ?_⟩
          have later : ∀ entry ∈ rest, tick < entry.1 := by
            have ascending := (List.pairwise_append.mp indexed.ascending).2.1
            exact (List.pairwise_cons.mp ascending).1
          exact
            { indexed := roomy.indexed
              fits := roomy.fits
              aside := by
                intro entry member
                rw [← evict_pinned c oldest]
                exact roomy.aside entry member
              pinned := roomy.pinned.trans (evict_pinned c oldest)
              lookup := by
                intro path
                rw [roomy.lookup, lookup_evict]
                by_cases here : path = oldest
                · simp [here]
                · simp [here]
              left := fun entry member => List.mem_cons_of_mem _ (roomy.left entry member)
              evicted := by
                intro path member
                rcases List.mem_cons.mp member with rfl | member
                · exact ⟨pinned, tick, List.mem_cons_self, fun entry left =>
                    later entry (roomy.left entry left)⟩
                · obtain ⟨unpinned, held, inside, older⟩ := roomy.evicted path member
                  rw [evict_pinned] at unpinned
                  exact ⟨unpinned, held, List.mem_cons_of_mem _ inside, older⟩ }
      · rw [if_neg full]
        refine ⟨[], { c with lru := (tick, oldest) :: rest }, kept, by simp, ?_⟩
        exact
          { indexed := indexed
            fits := .inl (Bool.eq_false_of_not_eq_true full)
            aside := fun _ member => .inl member
            pinned := rfl
            lookup := by simp
            left := fun _ member => member
            evicted := by simp }

theorem foldl_insertTick : ∀ {before kept after : List (Nat × DirPath)},
    (before ++ (kept ++ after)).Pairwise (·.1 < ·.1) →
      kept.foldl (fun lru entry => insertTick entry lru) (before ++ after) =
        before ++ (kept ++ after)
  | _, [], _, _ => rfl
  | before, entry :: kept, after, ascending => by
      have split := List.pairwise_append.mp ascending
      have here := List.pairwise_cons.mp split.2.1
      have placed : insertTick entry (before ++ after) = (before ++ [entry]) ++ after := by
        rw [insertTick_between]
        · simp
        · exact fun e member => split.2.2 e member entry List.mem_cons_self
        · exact fun e member => here.1 e (List.mem_append_right kept member)
      rw [List.foldl_cons, placed, foldl_insertTick]
      · simp
      · simpa using ascending

theorem insert_spec (indexed : Indexed size c) (path : DirPath) (listing : Listing) :
    ∃ gone room aside,
      c.insert size path listing = ({ room with lru := aside ++ room.lru }, gone) ∧
        Roomy size (c.place size path listing) [] (c.place size path listing).lru gone room
          aside := by
  obtain ⟨gone, room, aside, result, roomy⟩ :=
    makeRoom_spec (c := c.place size path listing) (c.place size path listing).lru [] []
      (indexed.place path listing)
  refine ⟨gone, room, aside, ?_, roomy⟩
  have back := @foldl_insertTick [] _ _ roomy.indexed.ascending
  simp only [List.nil_append] at back result
  simp only [Cache.insert, result, back]

theorem lookup_shrink : ∀ (lru : List (Nat × DirPath)) {c : Cache} {path : DirPath} {slot : Slot},
    (c.shrink lru).slots.lookup path = some slot → c.slots.lookup path = some slot
  | [], _, _, _, found => found
  | (tick, oldest) :: rest, c, path, slot, found => by
      unfold Cache.shrink at found
      split at found
      · have earlier := lookup_shrink rest found
        rw [lookup_evict] at earlier
        split at earlier
        · cases earlier
        · exact earlier
      · exact found

theorem indexed_shrink : ∀ (lru : List (Nat × DirPath)) {c : Cache},
    Indexed size { c with lru } → Indexed size (c.shrink lru)
  | [], _, indexed => indexed
  | (tick, oldest) :: rest, c, indexed => by
      unfold Cache.shrink
      split
      · exact indexed_shrink rest (@Indexed.evict _ _ [] _ _ _ indexed)
      · exact indexed

theorem shrink_eq {lru : List (Nat × DirPath)} (fits : c.full = false) :
    c.shrink lru = { c with lru } := by
  cases lru with
  | nil => rfl
  | cons first rest =>
    unfold Cache.shrink
    rw [if_neg (by simp [fits])]

theorem shrink_evicts (indexed : Indexed size c) (full : c.full = true) :
    ∃ path slot, c.slots.lookup path = some slot ∧ (c.shrink c.lru).slots.lookup path = none := by
  cases entries : c.lru with
  | nil =>
    have empty : c.slots.entries = [] := by
      cases held : c.slots.entries with
      | nil => rfl
      | cons entry rest =>
        have found : c.slots.lookup entry.1 = some entry.2 := by
          rw [Table.lookup_eq_some, held]
          exact List.mem_cons_self
        have named := indexed.mem_of_lookup found
        rw [entries] at named
        cases named
    have none : c.bytes = 0 := by
      rw [indexed.accounted, Table.total, empty]
      rfl
    simp [Cache.full, empty, none] at full
  | cons first rest =>
    obtain ⟨tick, oldest⟩ := first
    obtain ⟨slot, found, -⟩ := (indexed.named tick oldest).mp (by
      rw [entries]
      exact List.mem_cons_self)
    refine ⟨oldest, slot, found, ?_⟩
    unfold Cache.shrink
    rw [if_pos full]
    cases after : ((c.evict oldest).shrink rest).slots.lookup oldest with
    | none => rfl
    | some held =>
      have before := lookup_shrink rest after
      rw [lookup_evict, if_pos rfl] at before
      cases before

end Room

/-! ## What the cache promises -/

def Cache.asked (size : Listing → Nat) (c : Cache) : Op → Cache
  | .get path => (c.get path).1
  | .peek _ => c
  | .insert path listing => c.place size path listing
  | .remove path => (c.remove path).1
  | .pin path => c.pin path
  | .unpin path => c.unpin path
  | .setLimits maxDirs maxBytes => { c with maxDirs, maxBytes }

def Op.makesRoom : Op → Bool
  | .insert .. | .setLimits .. => true
  | _ => false

def Cache.cached (c : Cache) (path : DirPath) : Bool := (c.slots.lookup path).isSome

/-- What an operation keeps: index, slots and bytes agree; the cache is within its limits, or
only pinned listings are left; pinned ones stay; those that go are the ones used longest ago
of the others; and they are what is returned. Only `remove` takes anything else out. -/
structure Kept (size : Listing → Nat) (c : Cache) (op : Op) : Prop where
  indexed : Indexed size (c.step size op).1
  limits : op.makesRoom = true → (c.step size op).1.full = false ∨
    ∀ path, (c.step size op).1.cached path = true → path ∈ (c.step size op).1.pinned
  pinned : ∀ path slot, path ∈ c.pinned → (c.asked size op).slots.lookup path = some slot →
    (c.step size op).1.slots.lookup path = some slot
  oldest : ∀ path slot other kept, (c.asked size op).slots.lookup path = some slot →
    (c.step size op).1.cached path = false →
      (c.step size op).1.slots.lookup other = some kept → other ∉ c.pinned →
        slot.tick < kept.tick
  reported : ∀ path, path ∈ (c.step size op).2 ↔
    (c.asked size op).cached path = true ∧ (c.step size op).1.cached path = false
  asked : ∀ path, c.cached path = true → (c.asked size op).cached path = false →
    op = .remove path

section Promise

variable {size : Listing → Nat} {c : Cache}

theorem indexed_step (indexed : Indexed size c) (op : Op) : Indexed size (c.step size op).1 := by
  cases op with
  | get path => exact indexed.get path
  | peek path => exact indexed
  | insert path listing =>
    obtain ⟨gone, room, aside, result, roomy⟩ := insert_spec indexed path listing
    simp only [Cache.step, result]
    exact roomy.indexed
  | remove path => exact indexed.remove path
  | pin path => exact ⟨indexed.ascending, indexed.named, indexed.past, indexed.measured,
      indexed.accounted⟩
  | unpin path => exact ⟨indexed.ascending, indexed.named, indexed.past, indexed.measured,
      indexed.accounted⟩
  | setLimits maxDirs maxBytes =>
    exact indexed_shrink c.lru ⟨indexed.ascending, indexed.named, indexed.past,
      indexed.measured, indexed.accounted⟩

theorem kept_of_eq {op : Op} (indexed : Indexed size (c.step size op).1)
    (same : (c.step size op).1 = c.asked size op) (silent : (c.step size op).2 = [])
    (limits : op.makesRoom = true → (c.step size op).1.full = false)
    (asked : ∀ path, c.cached path = true → (c.asked size op).cached path = false →
      op = .remove path) : Kept size c op where
  indexed
  limits := fun makes => .inl (limits makes)
  pinned := by
    intro path slot _ found
    rwa [same]
  oldest := by
    intro path slot other kept found missing
    rw [same, Cache.cached, found] at missing
    cases missing
  reported := by
    intro path
    rw [silent, same]
    simp
  asked

theorem kept_insert (indexed : Indexed size c) (path : DirPath) (listing : Listing) :
    Kept size c (.insert path listing) := by
  obtain ⟨gone, room, aside, result, roomy⟩ := insert_spec indexed path listing
  have placed : Indexed size (c.place size path listing) := indexed.place path listing
  have pins : (c.place size path listing).pinned = c.pinned := remove_pinned c path
  have step : c.step size (.insert path listing) =
      ({ room with lru := aside ++ room.lru }, gone) := result
  have known : ∀ other slot, room.slots.lookup other = some slot →
      (slot.tick, other) ∈ aside ++ room.lru := by
    intro other slot found
    exact (roomy.indexed.named slot.tick other).mpr ⟨slot, found, rfl⟩
  have set : ∀ entry ∈ aside, entry.2 ∈ c.pinned := by
    intro entry member
    rcases roomy.aside entry member with none | pinned
    · cases none
    · rwa [pins] at pinned
  refine ⟨indexed_step indexed _, fun _ => ?_, ?_, ?_, ?_, ?_⟩
  · rw [step]
    rcases roomy.fits with fits | empty
    · exact .inl fits
    · refine .inr fun other cached => ?_
      obtain ⟨slot, found⟩ := Option.isSome_iff_exists.mp cached
      have inside := known other slot found
      rw [empty, List.append_nil] at inside
      rw [roomy.pinned, pins]
      exact set _ inside
  · intro other slot pinned found
    rw [step]
    refine (roomy.lookup other).trans ?_
    rw [if_neg fun evicted => ?_]
    · exact found
    · rw [← pins] at pinned
      exact (roomy.evicted other evicted).1 pinned
  · intro other slot younger kept found missing held unpinned
    rw [step] at missing held
    have evicted : other ∈ gone := by
      by_contra stays
      have looked := roomy.lookup other
      rw [if_neg stays] at looked
      have same : room.slots.lookup other = some slot := looked.trans found
      rw [Cache.cached, show AList.lookup other _ = _ from same] at missing
      cases missing
    obtain ⟨-, tick, inside, older⟩ := roomy.evicted other evicted
    obtain ⟨here, looked, rfl⟩ := (placed.named tick other).mp inside
    obtain rfl := Option.some.inj (looked.symm.trans found)
    rcases List.mem_append.mp (known younger kept held) with pinned | left
    · exact absurd (set _ pinned) unpinned
    · exact older _ left
  · intro other
    rw [step]
    simp only [Cache.cached, roomy.lookup]
    constructor
    · intro evicted
      obtain ⟨-, tick, inside, -⟩ := roomy.evicted other evicted
      obtain ⟨here, looked, -⟩ := (placed.named tick other).mp inside
      rw [if_pos evicted]
      exact ⟨by rw [Cache.asked, looked]; rfl, rfl⟩
    · rintro ⟨asked, missing⟩
      by_contra stays
      rw [if_neg stays] at missing
      simp only [Cache.asked] at asked
      rw [asked] at missing
      cases missing
  · intro other cached missing
    simp only [Cache.asked, Cache.cached, lookup_place] at missing cached
    split at missing
    · cases missing
    · rw [cached] at missing
      cases missing

theorem kept_iff (indexed : Indexed size c) (op : Op) :
    Kept size c op ↔ ∀ maxDirs maxBytes, op = .setLimits maxDirs maxBytes →
      { c with maxDirs, maxBytes }.full = false := by
  cases op with
  | get path =>
    refine iff_of_true (kept_of_eq (indexed_step indexed _) rfl rfl (by simp [Op.makesRoom])
      fun other cached missing => ?_) (by simp)
    rw [Cache.cached, Cache.asked, lookup_get_isSome] at missing
    rw [Cache.cached, missing] at cached
    cases cached
  | peek path =>
    refine iff_of_true (kept_of_eq (indexed_step indexed _) rfl rfl (by simp [Op.makesRoom])
      fun other cached missing => ?_) (by simp)
    rw [Cache.asked, cached] at missing
    cases missing
  | insert path listing => exact iff_of_true (kept_insert indexed path listing) (by simp)
  | remove path =>
    refine iff_of_true (kept_of_eq (indexed_step indexed _) rfl rfl (by simp [Op.makesRoom])
      fun other cached missing => ?_) (by simp)
    rw [Cache.cached, Cache.asked, lookup_remove] at missing
    split at missing
    · rename_i same
      rw [same]
    · rw [Cache.cached, missing] at cached
      cases cached
  | pin path =>
    refine iff_of_true (kept_of_eq (indexed_step indexed _) rfl rfl (by simp [Op.makesRoom])
      fun other cached missing => ?_) (by simp)
    exact absurd (cached.symm.trans missing) (by simp)
  | unpin path =>
    refine iff_of_true (kept_of_eq (indexed_step indexed _) rfl rfl (by simp [Op.makesRoom])
      fun other cached missing => ?_) (by simp)
    exact absurd (cached.symm.trans missing) (by simp)
  | setLimits maxDirs maxBytes =>
    have same : Indexed size { c with maxDirs, maxBytes } :=
      ⟨indexed.ascending, indexed.named, indexed.past, indexed.measured, indexed.accounted⟩
    constructor
    · rintro kept _ _ ⟨⟩
      by_contra full
      obtain ⟨path, slot, found, missing⟩ := shrink_evicts same (by simpa using full)
      have reported := (kept.reported path).mpr
        ⟨by rw [Cache.asked, Cache.cached, found]; rfl, by
          rw [Cache.cached]
          exact congrArg Option.isSome missing⟩
      cases reported
    · intro fits
      have still : (c.step size (.setLimits maxDirs maxBytes)).1 =
          { c with maxDirs, maxBytes } := shrink_eq (fits _ _ rfl)
      refine kept_of_eq (indexed_step indexed _) still rfl (fun _ => ?_)
        fun other cached missing => absurd (cached.symm.trans missing) (by simp)
      rw [still]
      exact fits _ _ rfl

theorem indexed_run (indexed : Indexed size c) (ops : List Op) :
    Indexed size (run size c ops) := by
  induction ops generalizing c with
  | nil => exact indexed
  | cons op ops induction => exact induction (indexed_step indexed op)

end Promise

/-- In a run of the cache every operation keeps its promise, if and only if no limits are set
that the cache does not fit into at once. -/
theorem cache_kept (size : Listing → Nat) (maxDirs maxBytes : Nat) (ops : List Op) :
    (∀ before op after, ops = before ++ op :: after →
      Kept size (run size (.new maxDirs maxBytes) before) op) ↔
    ∀ before dirs bytes after, ops = before ++ .setLimits dirs bytes :: after →
      { run size (.new maxDirs maxBytes) before with
        maxDirs := dirs, maxBytes := bytes }.full = false := by
  have indexed := fun before =>
    indexed_run (indexed_new size maxDirs maxBytes) before
  constructor
  · intro kept before dirs bytes after split
    exact (kept_iff (indexed before) _).mp (kept before _ after split) dirs bytes rfl
  · intro fits before op after split
    refine (kept_iff (indexed before) op).mpr ?_
    rintro dirs bytes rfl
    exact fits before dirs bytes after split

/-- A pinned listing is evicted when the limits are lowered, and nobody is told. -/
theorem pinned_evicted :
    ¬ ∀ before op after,
      [Op.insert [47, 97] ⟨1, 0, [], [], none⟩, .pin [47, 97], .setLimits 0 0] =
        before ++ op :: after →
        Kept (fun _ => 1) (run (fun _ => 1) (.new 4 64) before) op := by
  intro kept
  have pinned := (kept [_, _] _ [] rfl).pinned [47, 97] ⟨⟨1, 0, [], [], none⟩, 1, 3⟩
    (by decide) (by decide)
  exact absurd pinned (by decide)

end EclipseOS.Fog.Caching
