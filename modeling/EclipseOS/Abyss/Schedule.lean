import EclipseOS.Abyss.ConsentQueue
import EclipseOS.Foundation.Fallible

/-! # Scheduling consent prompts

One prompt holds the human seat at a time. When it is free the oldest parked request is
shown, and one that cannot be drawn is denied. -/

namespace EclipseOS.Abyss

open Foundation Queue Queue.Run

/-- The consent queue and the prompt that holds the seat, of any owner. -/
structure Seat where
  queue : Queue
  onScreen : Option UInt64
  deriving DecidableEq

namespace Seat

/-- Puts a prompt up, unless one is up or its timer is not taken by the loop. -/
def «open» (timers : UInt64 → Bool) (seat : Seat) (modal : Modal) : Bool × Seat :=
  if seat.onScreen.isSome then (false, seat)
  else if timers modal.token then (true, { seat with onScreen := some modal.token })
  else (false, seat)

/-- Shows the oldest parked request, if no prompt is up. -/
def schedule (timers : UInt64 → Bool) (seat : Seat) : Seat :=
  if seat.onScreen.isSome then seat
  else
    match seat.queue.nextToShow with
    | (none, queue) => { seat with queue }
    | (some (token, ask), queue) =>
      let (opened, seat) :=
        match ask.modal token with
        | some modal => «open» timers { seat with queue } modal
        | none => (false, { seat with queue })
      if opened then seat
      -- a prompt that cannot be drawn cannot be answered
      else { seat with queue := (seat.queue.answer token .deny false).2 }

/-- No prompt is up, and none of the queue's. -/
structure Free (seat : Seat) : Prop where
  onScreen : seat.onScreen = none
  showing : seat.queue.showing = none
  sound : seat.queue.Sound

/-- A prompt is showing or nothing is parked, and no verdict of the call waits to be
handed to its agent. -/
structure Unstalled (before after : Seat) : Prop where
  shown : after.onScreen.isSome ∨ after.queue.parked = []
  handed : after.queue.resolved.Sublist before.queue.resolved

/-- The prompt of a request can be drawn and its timer is taken. -/
def Drawable (timers : UInt64 → Bool) (token : UInt64) (ask : Ask) : Prop :=
  (ask.modal token).isSome = true ∧ timers token = true

instance (timers : UInt64 → Bool) (token : UInt64) (ask : Ask) :
    Decidable (Drawable timers token ask) :=
  inferInstanceAs (Decidable (_ ∧ _))

variable {seat : Seat} {timers : UInt64 → Bool} {token : UInt64} {ask : Ask} {parked : Parked}

theorem token_of_withWholeFact {modal after : Modal} {label value : String} {most : Nat}
    (whole : modal.withWholeFact label value most = .ok after) : after.token = modal.token := by
  rw [Modal.withWholeFact] at whole
  split at whole
  · cases whole
  · split at whole
    · cases whole
    · cases whole
      rfl

theorem token_of_new {heading body well : String} {warning : Option String}
    {buttons : List Button} {modal : Modal}
    (new : Modal.new token heading warning body well buttons = .ok modal) :
    modal.token = token := by
  rw [Modal.new] at new
  split at new
  · cases new
  · split at new
    · cases new
    · cases new
      rfl

theorem token_of_modal {modal : Modal} (built : ask.modal token = some modal) :
    modal.token = token := by
  unfold Ask.modal at built
  simp only at built
  split at built
  · cases built
  · rename_i whole steps
    obtain ⟨first, made, steps⟩ := bind_eq_ok.mp steps
    obtain ⟨second, task, unattended⟩ := bind_eq_ok.mp steps
    have start : first.token = token := token_of_new made
    have kept : whole.token = token := by
      rw [token_of_withWholeFact unattended, token_of_withWholeFact task]
      exact start
    cases built
    split
    · exact kept
    · exact kept

theorem schedule_head (free : seat.Free) (head : seat.queue.order.head? = some token)
    (waits : seat.queue.get token = some parked) :
    seat.schedule timers =
      if Drawable timers token parked.ask then
        { queue := { seat.queue with showing := some token }, onScreen := some token }
      else
        { seat with
          queue := (Queue.answer { seat.queue with showing := some token } token .deny false).2 } := by
  obtain ⟨rest, order⟩ := List.head?_eq_some_iff.mp head
  have next : seat.queue.nextToShow =
      (some (token, parked.ask), { seat.queue with showing := some token }) := by
    simp [nextToShow, free.showing, order, waits]
  cases built : parked.ask.modal token with
  | none =>
    have undrawn : ¬Drawable timers token parked.ask := by
      intro drawn
      rw [Drawable, built] at drawn
      cases drawn.1
    rw [if_neg undrawn, schedule, free.onScreen, next]
    simp [built]
  | some modal =>
    have named := token_of_modal built
    cases timer : timers token with
    | false =>
      have undrawn : ¬Drawable timers token parked.ask := by
        intro drawn
        rw [Drawable, timer] at drawn
        cases drawn.2
      rw [if_neg undrawn, schedule, free.onScreen, next]
      simp [built, «open», named, timer]
    | true =>
      have drawn : Drawable timers token parked.ask := by
        rw [Drawable, built, timer]
        exact ⟨rfl, rfl⟩
      rw [if_pos drawn, schedule, free.onScreen, next]
      simp [built, «open», named, timer]

theorem schedule_idle (free : seat.Free) (none : seat.queue.order.head? = none) :
    seat.schedule timers = seat := by
  have order : seat.queue.order = [] := List.head?_eq_none_iff.mp none
  have next : seat.queue.nextToShow = (Option.none, seat.queue) := by
    rw [nextToShow, free.showing, order]
    rfl
  have same : seat = ⟨seat.queue, Option.none⟩ := by rw [← free.onScreen]
  rw [schedule, free.onScreen, next]
  exact same.symm

/-- A free seat is not left free with requests parked, and no verdict is left behind,
exactly when the oldest request can be drawn. -/
theorem schedule_unstalled_iff (free : seat.Free) :
    Unstalled seat (seat.schedule timers) ↔
      ∀ token parked, seat.queue.order.head? = some token →
        seat.queue.get token = some parked → Drawable timers token parked.ask := by
  cases head : seat.queue.order.head? with
  | none =>
    rw [schedule_idle free head]
    have unlisted : seat.queue.parked.map (·.1) = [] := by
      apply List.eq_nil_iff_forall_not_mem.mpr
      intro token member
      have listed := (free.sound.listed token).mpr member
      rw [List.head?_eq_none_iff.mp head] at listed
      exact List.not_mem_nil listed
    have idle : Unstalled seat seat :=
      ⟨Or.inr (List.map_eq_nil_iff.mp unlisted), List.Sublist.refl _⟩
    exact ⟨fun _ _ _ impossible => (by cases impossible), fun _ => idle⟩
  | some token =>
    have member : token ∈ seat.queue.order := List.mem_of_mem_head? head
    obtain ⟨parked, waits⟩ := Option.isSome_iff_exists.mp
      (get_isSome.mpr ((free.sound.listed token).mp member))
    constructor
    · intro unstalled other _ same found
      cases same
      cases waits.symm.trans found
      refine Classical.byContradiction fun undrawn => ?_
      have handed := unstalled.handed
      rw [schedule_head free head waits, if_neg undrawn] at handed
      have answered := handed.length_le
      have waits' : get { seat.queue with showing := some token } token = some parked := waits
      rw [answer, waits'] at answered
      simp [resolve, leave] at answered
    · intro drawable
      rw [schedule_head free head waits, if_pos (drawable token parked rfl waits)]
      exact ⟨Or.inl rfl, List.Sublist.refl _⟩

/-! ## A prompt that cannot be drawn -/

/-- A request whose unattended scope is one character longer than its prompt shows. -/
def longAsk : Ask :=
  { plainAsk with unattendedScope := String.ofList (List.replicate 130 'x') }

/-- A request that cannot be drawn, and one behind it that can. -/
def behindLong : Seat := ⟨(Run.after [.park 1 1 longAsk, .park 2 1 plainAsk]).queue, none⟩

theorem behindLong_free : behindLong.Free :=
  ⟨rfl, rfl, (holds_after [.park 1 1 longAsk, .park 2 1 plainAsk] (by decide)).sound⟩

/-- The first request is denied and its agent not told; the second is not shown. -/
theorem behindLong_stalls :
    ¬Unstalled behindLong (behindLong.schedule fun _ => true) ∧
      (behindLong.schedule fun _ => true).onScreen = none ∧
      (behindLong.schedule fun _ => true).queue.parked.map (·.2.agent) = [2] := by
  have unbuilt : (longAsk.modal (tokenBase ||| 1)).isSome = false := by decide +kernel
  have undrawn : ¬Drawable (fun _ => true) (tokenBase ||| 1) longAsk := by
    rw [Drawable, unbuilt]
    exact fun drawn => Bool.false_ne_true drawn.1
  have head : behindLong.queue.order.head? = some (tokenBase ||| 1) := rfl
  have waits : behindLong.queue.get (tokenBase ||| 1) = some ⟨1, 1, longAsk⟩ := rfl
  rw [schedule_head behindLong_free head waits, if_neg undrawn]
  refine ⟨fun unstalled => absurd unstalled.handed.length_le (by decide), rfl, rfl⟩

def plain : Seat := ⟨(Run.after [.park 1 1 plainAsk, .park 2 1 plainAsk]).queue, none⟩

theorem schedule_unstalled_plain : Unstalled plain (plain.schedule fun _ => true) := by
  have sound := (holds_after [.park 1 1 plainAsk, .park 2 1 plainAsk] (by decide)).sound
  have free : plain.Free := ⟨rfl, rfl, sound⟩
  apply (schedule_unstalled_iff free).mpr
  intro token parked head waits
  have first : plain.queue.order.head? = some (tokenBase ||| 1) := rfl
  cases first.symm.trans head
  have found : plain.queue.get (tokenBase ||| 1) = some ⟨1, 1, plainAsk⟩ := rfl
  cases found.symm.trans waits
  decide +kernel

end Seat

end EclipseOS.Abyss
