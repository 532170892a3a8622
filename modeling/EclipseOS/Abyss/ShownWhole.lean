import EclipseOS.Abyss.PromptScope

/-! # Facts shown whole

What the lines of a fact that is shown whole say of its value. -/

namespace EclipseOS.Abyss.ShownWhole

open Modal

def Printable (char : Char) : Prop := 0x20 ≤ char.toNat ∧ char.toNat < 0x7f

instance (char : Char) : Decidable (Printable char) := inferInstanceAs (Decidable (_ ∧ _))

/-- The text of the lines that `after` has and `before` had not. -/
def addedText (before after : Modal) : List Char :=
  (after.facts.drop before.facts.length).flatMap fun fact => fact.2.toList

/-- How many lines so many characters take: one at least. -/
def lineCount (characters : Nat) : Nat := max 1 ((characters + (factRoom - 1)) / factRoom)

def Fits (modal : Modal) (value : String) (maxLines : Nat) : Prop :=
  drawnCount value < maxChars ∧ lineCount (drawnCount value) ≤ maxLines ∧
    modal.facts.length + lineCount (drawnCount value) ≤ maxFacts

instance (modal : Modal) (value : String) (maxLines : Nat) : Decidable (Fits modal value maxLines) :=
  inferInstanceAs (Decidable (_ ∧ _ ∧ _))

/-! ## Sanitising -/

/-- What a character is on a single line, if it is not dropped. -/
def shown (char : Char) : Option Char :=
  (drawn char).map fun char => if char = '\n' then ' ' else char

theorem shown_eq_self_iff {char : Char} : shown char = some char ↔ Printable char := by
  have space : ' ' ≠ '\n' := by decide
  unfold shown drawn Printable
  by_cases newline : char = '\n'
  · subst newline
    exact iff_of_false (by decide) (by decide)
  rw [if_neg newline]
  by_cases dropped : char.toNat < 0x20 ∨ char.toNat = 0x7f
  · rw [if_pos dropped]
    refine iff_of_false nofun ?_
    omega
  rw [if_neg dropped]
  by_cases ascii : char.toNat < 0x80
  · rw [if_pos ascii, Option.map_some, if_neg newline]
    refine iff_of_true rfl ?_
    omega
  · rw [if_neg ascii, Option.map_some]
    refine iff_of_false (fun same => ?_) (by omega)
    have mark : '?' = char := Option.some_inj.mp same
    rw [← mark] at ascii
    exact ascii (by decide)

theorem filterMap_eq_self_iff {α : Type} {keep : α → Option α} {items : List α} :
    items.filterMap keep = items ↔ ∀ item ∈ items, keep item = some item := by
  induction items with
  | nil => simp
  | cons item items ih =>
    rw [List.forall_mem_cons, ← ih]
    cases kept : keep item with
    | none =>
      rw [List.filterMap_cons_none kept]
      refine iff_of_false (fun same => ?_) (fun both => nomatch both.1)
      have fewer := List.length_filterMap_le keep items
      rw [same, List.length_cons] at fewer
      omega
    | some made => rw [List.filterMap_cons_some kept, List.cons.injEq, Option.some_inj]

theorem sanitizeLine_eq {value : String} (short : drawnCount value < maxChars) :
    sanitizeLine value = value.toList.filterMap shown := by
  rw [sanitizeLine, sanitize, List.take_of_length_le short.le, List.map_filterMap]
  rfl

/-! ## Lines -/

theorem flatten_chunks {size : Nat} (sized : 0 < size) (text : List Char) :
    (chunks size text).flatten = text := by
  induction text using chunks.induct size with
  | case1 text none =>
    rw [chunks, if_pos none, none.resolve_right (Nat.ne_of_gt sized)]
    rfl
  | case2 text some ih => rw [chunks, if_neg some, List.flatten_cons, ih, List.take_append_drop]

theorem length_chunks (text : List Char) :
    (chunks factRoom text).length = (text.length + (factRoom - 1)) / factRoom := by
  have room : factRoom = 43 := by decide
  apply eq_of_forall_ge_iff
  intro most
  rw [length_chunks_le_iff (by decide), room]
  omega

theorem length_wholeLines (value : String) :
    (wholeLines value).length = lineCount (sanitizeLine value).length := by
  have count := length_chunks (sanitizeLine value)
  rw [wholeLines, lineCount, ← count]
  split
  · rename_i none
    rw [none]
    rfl
  · rename_i lines some
    rw [List.length_map]
    have := List.length_pos_iff.mpr some
    omega

theorem wholeLines_text (value : String) : (wholeLines value).flatMap String.toList =
    if sanitizeLine value = [] then "(none)".toList else sanitizeLine value := by
  have whole := @flatten_chunks factRoom (by decide) (sanitizeLine value)
  rw [wholeLines]
  split
  · rename_i none
    rw [none] at whole
    rw [if_pos (show sanitizeLine value = [] from whole.symm)]
    rfl
  · rename_i lines some
    rw [if_neg, List.flatMap_map]
    · simpa [List.flatMap] using whole
    · intro empty
      rw [empty, chunks, if_pos (Or.inl rfl)] at some
      exact some rfl

theorem withWholeFact_ok_iff (modal : Modal) (label value : String) (maxLines : Nat)
    (after : Modal) : modal.withWholeFact label value maxLines = .ok after ↔
      Fits modal value maxLines ∧ after = { modal with
        facts := modal.facts ++
          (cutLabel label :: List.replicate ((wholeLines value).length - 1) "").zip
            (wholeLines value) } := by
  have lines := length_wholeLines value
  rw [length_sanitizeLine] at lines
  rw [withWholeFact, Fits, length_sanitizeLine]
  by_cases long : maxChars ≤ drawnCount value
  · rw [if_pos (by omega)]
    exact iff_of_false (by rintro ⟨⟩) fun both => absurd both.1.1 (by omega)
  · rw [if_neg (by omega), lines, Nat.min_eq_right (by omega)]
    split
    · rename_i tooMany
      exact iff_of_false (by rintro ⟨⟩) fun both => absurd both.1 (by omega)
    · rename_i fits
      rw [Except.ok.injEq, eq_comm, and_iff_right]
      omega

theorem addedText_eq {modal after : Modal} {label value : String} {maxLines : Nat}
    (accepted : modal.withWholeFact label value maxLines = .ok after) :
    addedText modal after = (wholeLines value).flatMap String.toList := by
  rcases (withWholeFact_ok_iff modal label value maxLines after).mp accepted with ⟨_, rfl⟩
  have one : 1 ≤ (wholeLines value).length := by
    rw [length_wholeLines]
    exact le_max_left _ _
  have seconds : ((cutLabel label :: List.replicate ((wholeLines value).length - 1) "").zip
      (wholeLines value)).map Prod.snd = wholeLines value := by
    apply List.map_snd_zip
    simp only [List.length_cons, List.length_replicate]
    omega
  rw [addedText, List.drop_left]
  conv_rhs => rw [← seconds, List.flatMap_map]

/-- A fact that is shown whole reads as its value exactly when it is refused, or is printable
text. -/
theorem withWholeFact_shows_iff (modal : Modal) (label value : String) (maxLines : Nat) :
    (∀ after, modal.withWholeFact label value maxLines = .ok after →
      addedText modal after = value.toList) ↔
        ¬Fits modal value maxLines ∨ value ≠ "" ∧ ∀ char ∈ value.toList, Printable char := by
  by_cases fits : Fits modal value maxLines
  · have accepted := (withWholeFact_ok_iff modal label value maxLines _).mpr ⟨fits, rfl⟩
    have reads : (∀ after, modal.withWholeFact label value maxLines = .ok after →
        addedText modal after = value.toList) ↔
          (wholeLines value).flatMap String.toList = value.toList := by
      constructor
      · intro all
        rw [← addedText_eq accepted, all _ accepted]
      · intro same after also
        rw [addedText_eq also, same]
    rw [reads, wholeLines_text, sanitizeLine_eq fits.1, or_iff_right (not_not.mpr fits)]
    have printable : value.toList.filterMap shown = value.toList ↔
        ∀ char ∈ value.toList, Printable char := by
      rw [filterMap_eq_self_iff]
      exact forall_congr' fun char => imp_congr_right fun _ => shown_eq_self_iff
    rw [← printable]
    split
    · rename_i none
      rw [none]
      refine iff_of_false (fun same => ?_) fun both => both.1 (String.toList_eq_nil_iff.mp both.2.symm)
      rw [← same] at none
      exact absurd none (by decide)
    · rename_i some
      refine ⟨fun same => ⟨?_, same⟩, And.right⟩
      rintro rfl
      exact some rfl
  · refine iff_of_true (fun after accepted => ?_) (.inl fits)
    exact absurd ((withWholeFact_ok_iff modal label value maxLines after).mp accepted).1 fits

/-- The scope of a window whose app_id is not ASCII is shown, and not as it is minted. -/
theorem accent_shown_otherwise :
    ¬∀ (modal : Modal) (label value : String) (maxLines : Nat) (after : Modal),
      modal.withWholeFact label value maxLines = .ok after →
        addedText modal after = value.toList := by
  intro always
  let prompt : Modal := ⟨1, heading, none, "", [], well, consentButtons.map Prod.snd, false⟩
  have accepted := (withWholeFact_ok_iff prompt "Unattended 1h" "seat.key app_id:café" 3 _).mpr
    ⟨by decide +kernel, rfl⟩
  have reads := always prompt "Unattended 1h" "seat.key app_id:café" 3 _ accepted
  rw [addedText_eq accepted, wholeLines_text] at reads
  exact absurd reads (by decide +kernel)

end EclipseOS.Abyss.ShownWhole
