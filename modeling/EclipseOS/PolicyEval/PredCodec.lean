import EclipseOS.PolicyEval.Cbor.Records
import EclipseOS.PolicyEval.Table

/-! # The predicate codec

`decode_pred` accepts exactly the bytes `encode_pred` writes for a predicate
within the decoder's limits. -/

namespace EclipseOS.PolicyEval

open Foundation Cbor

def TextFits (text : String) : Prop := (utf8 text).length < 2 ^ 64

instance (text : String) : Decidable (TextFits text) := inferInstanceAs (Decidable (_ < _))

@[simp] theorem need_eq_ok {α : Type} {found : Option α} {value : α} :
    need found = .ok value ↔ found = some value := by
  cases found <;> simp [need]

instance (least most : Nat) {α : Type} (item : Read TableError α) [Local item] :
    Local (arrayWithin least most item) := by
  unfold arrayWithin
  infer_instance

theorem accepts_arrayWithin {α : Type} {item : Read TableError α} [Local item]
    {least most depth : Nat} {encode : α → Bytes} {valid : α → Prop}
    (spec : ∀ value part, Accepts item depth value part ↔
      part = encode value ∧ valid value)
    (small : most < 2 ^ 64) {values : List α} {encoding : Bytes} :
    Accepts (arrayWithin least most item) depth values encoding ↔
      encoding = arrayOf encode values ∧ least ≤ values.length ∧ values.length ≤ most ∧
        ∀ value ∈ values, valid value := by
  simp only [arrayWithin, accepts_bind, accepts_arrayLen, accepts_ite,
    not_accepts_throw, and_false, false_or, accepts_collect spec]
  constructor
  · rintro ⟨n, _, _, rfl, ⟨rfl, -⟩, within, rfl, rfl, isValid⟩
    exact ⟨rfl, by omega, by omega, isValid⟩
  · rintro ⟨rfl, enough, few, isValid⟩
    exact ⟨_, _, _, rfl, ⟨rfl, by omega⟩, by omega, rfl, rfl, isValid⟩

/-- A list of texts a predicate or a matcher may carry. -/
def TextsFit (items : List String) : Prop :=
  1 ≤ items.length ∧ items.length ≤ maxItems ∧ ∀ text ∈ items, TextFits text

instance (items : List String) : Decidable (TextsFit items) :=
  inferInstanceAs (Decidable (_ ∧ _))

instance : Local readTexts := by
  unfold readTexts
  infer_instance

@[simp] theorem accepts_readTexts {depth : Nat} {items : List String} {encoding : Bytes} :
    Accepts readTexts depth items encoding ↔ encoding = texts items ∧ TextsFit items :=
  accepts_arrayWithin (fun _ _ => accepts_text) (by decide)

/-! ## Predicates -/

namespace PredFields

instance (key : String) (fields : PredFields) : Local (read key fields) := by
  unfold read
  split <;> infer_instance

/-- The fields of a predicate's map, by ascending key. -/
def schema : Schema PredFields :=
  [("a", fun fields => fields.a.map texts), ("b", fun fields => fields.b.map Writer.bool),
    ("p", fun fields => fields.name.map Writer.text),
    ("re", fun fields => fields.re.map Writer.text),
    ("milli", fun fields => fields.milli.map Writer.u64)]

structure Fit (fields : PredFields) : Prop where
  name : ∀ name ∈ fields.name, TextFits name
  a : ∀ items ∈ fields.a, TextsFit items
  re : ∀ source ∈ fields.re, TextFits source

instance (fields : PredFields) : Decidable fields.Fit :=
  decidable_of_iff ((∀ name ∈ fields.name, TextFits name) ∧
    (∀ items ∈ fields.a, TextsFit items) ∧ ∀ source ∈ fields.re, TextFits source)
    ⟨fun fit => ⟨fit.1, fit.2.1, fit.2.2⟩, fun fit => ⟨fit.name, fit.a, fit.re⟩⟩

theorem schema_ascend : NamesAscend (schema.map Prod.fst) := by decide

theorem accepts_fields {depth : Nat} {fields : PredFields} {encoding : Bytes} :
    Accepts (readMap new read) depth fields encoding ↔
      encoding = mapBytes (presentRows (schema.rows fields)) ∧
        depth < maxMapDepth ∧ fields.Fit := by
  apply accepts_record schema_ascend (by decide)
  · intro name before after value accepts
    unfold read at accepts
    split at accepts
    · obtain ⟨items, read, rfl⟩ := accepts_store.mp accepts
      obtain ⟨rfl, itemsFit⟩ := accepts_readTexts.mp read
      exact ⟨by simp [schema, Schema.Stores], fun fit => { fit with a := by simpa }⟩
    · obtain ⟨flag, read, rfl⟩ := accepts_store.mp accepts
      obtain rfl := accepts_bool.mp read
      exact ⟨by simp [schema, Schema.Stores], fun fit => { fit with }⟩
    · obtain ⟨text, read, rfl⟩ := accepts_store.mp accepts
      obtain ⟨rfl, textFits⟩ := accepts_text.mp read
      exact ⟨by simp [schema, Schema.Stores], fun fit => { fit with name := by simpa }⟩
    · obtain ⟨source, read, rfl⟩ := accepts_store.mp accepts
      obtain ⟨rfl, sourceFits⟩ := accepts_text.mp read
      exact ⟨by simp [schema, Schema.Stores], fun fit => { fit with re := by simpa }⟩
    · obtain ⟨milli, read, rfl⟩ := accepts_store.mp accepts
      obtain rfl := accepts_u64.mp read
      exact ⟨by simp [schema, Schema.Stores], fun fit => { fit with }⟩
    · exact absurd accepts not_accepts_throw
  · simp [schema, new]
  · constructor <;> simp [new]
  · rintro ⟨name, a, re, b, milli⟩ fit
    simp only [schema, Schema.rows, List.map_cons, List.map_nil]
    refine Rows.store (fun a => PredFields.mk none a none none none) (fun items found =>
      accepts_store.mpr ⟨items, accepts_readTexts.mpr ⟨rfl, fit.a items found⟩, rfl⟩) ?_
    refine Rows.store (fun b => PredFields.mk none a none b none) (fun flag _ =>
      accepts_store.mpr ⟨flag, accepts_bool.mpr rfl, rfl⟩) ?_
    refine Rows.store (fun name => PredFields.mk name a none b none) (fun text found =>
      accepts_store.mpr ⟨text, accepts_text.mpr ⟨rfl, fit.name text found⟩, rfl⟩) ?_
    refine Rows.store (fun re => PredFields.mk name a re b none) (fun source found =>
      accepts_store.mpr ⟨source, accepts_text.mpr ⟨rfl, fit.re source found⟩, rfl⟩) ?_
    refine Rows.store (fun milli => PredFields.mk name a re b milli) (fun rate _ =>
      accepts_store.mpr ⟨rate, accepts_u64.mpr rfl, rfl⟩) ?_
    exact .nil

theorem of_count_zero {fields : PredFields} (zero : fields.count = 0) :
    fields = ⟨fields.name, none, none, none, none⟩ := by
  rcases fields with ⟨name, _ | a, _ | re, _ | b, _ | milli⟩ <;> cases zero
  rfl

theorem of_count_a {fields : PredFields} {items : List String} (one : fields.count = 1)
    (a : fields.a = some items) : fields = ⟨fields.name, some items, none, none, none⟩ := by
  rcases fields with ⟨name, _ | a, _ | re, _ | b, _ | milli⟩ <;> cases one <;> cases a
  rfl

theorem of_count_re {fields : PredFields} {source : String} (one : fields.count = 1)
    (re : fields.re = some source) :
    fields = ⟨fields.name, none, some source, none, none⟩ := by
  rcases fields with ⟨name, _ | a, _ | re, _ | b, _ | milli⟩ <;> cases one <;> cases re
  rfl

theorem of_count_b {fields : PredFields} {flag : Bool} (one : fields.count = 1)
    (b : fields.b = some flag) : fields = ⟨fields.name, none, none, some flag, none⟩ := by
  rcases fields with ⟨name, _ | a, _ | re, _ | b, _ | milli⟩ <;> cases one <;> cases b
  rfl

theorem of_count_milli {fields : PredFields} {rate : UInt64} (one : fields.count = 1)
    (milli : fields.milli = some rate) :
    fields = ⟨fields.name, none, none, none, some rate⟩ := by
  rcases fields with ⟨name, _ | a, _ | re, _ | b, _ | milli⟩ <;> cases one <;> cases milli
  rfl

end PredFields

theorem classOf_eq_some {text : String} {found : Class} :
    classOf text = some found ↔ text = classStr found := by
  constructor
  · intro known
    unfold classOf at known
    split at known <;> cases known <;> rfl
  · rintro rfl
    cases found <;> rfl

theorem trustOf_eq_some {text : String} {found : Trust} :
    trustOf text = some found ↔ text = trustStr found := by
  constructor
  · intro known
    unfold trustOf at known
    split at known <;> cases known <;> rfl
  · rintro rfl
    cases found <;> rfl

theorem mapM_need {α : Type} {read : String → Option α} {write : α → String}
    (inverse : ∀ text value, read text = some value ↔ text = write value)
    {items : List String} {values : List α} :
    (items.mapM fun text => need (read text)) = .ok values ↔ items = values.map write := by
  induction items generalizing values with
  | nil =>
    rw [List.mapM_nil, eq_comm (b := values.map write), List.map_eq_nil_iff]
    exact ⟨fun same => by cases same; rfl, fun same => by rw [same]; rfl⟩
  | cons text items induction =>
    rw [List.mapM_cons]
    constructor
    · intro success
      rcases ok_of_bind_ok success with ⟨value, first, continued⟩
      rcases ok_of_bind_ok continued with ⟨others, rest, result⟩
      cases result
      rw [(inverse text value).mp (need_eq_ok.mp first), induction.mp rest, List.map_cons]
    · intro same
      obtain ⟨value, others, rfl, rfl, rest⟩ := List.map_eq_cons_iff.mp same.symm
      have first := need_eq_ok.mpr ((inverse (write value) value).mpr rfl)
      rw [first, induction.mpr rest.symm]
      rfl

theorem one_eq_ok {α : Type} {values : List α} {value : α} :
    one values = .ok value ↔ values = [value] := by
  constructor
  · intro single
    unfold one at single
    split at single <;> cases single
    rfl
  · rintro rfl
    rfl

section Predicates

variable [RegexEngine]

def Pred.fields : Pred → PredFields
  | .capability globs => ⟨"capability", globs.map Glob.asStr, none, none, none⟩
  | .targetClass classes => ⟨"target_class", classes.map classStr, none, none, none⟩
  | .targetAppId globs => ⟨"target_app_id", globs.map Glob.asStr, none, none, none⟩
  | .title regex => ⟨"title", none, regex.source, none, none⟩
  | .nodeRole roles => ⟨"node_role", roles, none, none, none⟩
  | .nodeName regex => ⟨"node_name", none, regex.source, none, none⟩
  | .nodeSource sources => ⟨"node_source", sources, none, none, none⟩
  | .nodeConfidenceLt rate =>
    ⟨"node_confidence_lt", none, none, none, UInt64.ofNat rate.milli⟩
  | .irreversible globs => ⟨"irreversible", globs.map Glob.asStr, none, none, none⟩
  | .url globs => ⟨"url", globs.map Glob.asStr, none, none, none⟩
  | .principal globs => ⟨"principal", globs.map Glob.asStr, none, none, none⟩
  | .principalProfile profiles => ⟨"principal_profile", profiles, none, none, none⟩
  | .appTrust trusts => ⟨"app_trust", trusts.map trustStr, none, none, none⟩
  | .appIrreversibleCapable value =>
    ⟨"app_irreversible_capable", none, none, value, none⟩
  | .provenanceContainsTrust trust =>
    ⟨"provenance_contains_trust", [trustStr trust], none, none, none⟩
  | .provenanceContainsSource source =>
    ⟨"provenance_contains_source", [source], none, none, none⟩
  | .provenanceAbsent => ⟨"provenance_absent", none, none, none, none⟩

theorem encodePred_eq (pred : Pred) :
    encodePred pred = mapBytes (presentRows (PredFields.schema.rows pred.fields)) := by
  cases pred <;>
  simp only [encodePred, Pred.entry, MapBuilder.new_eq_ofRows, MapBuilder.insert_ofRows,
    List.nil_append, List.cons_append] <;>
  first
    | exact Schema.finish PredFields.schema_ascend (List.Perm.swap _ _ _)
    | exact Schema.finish PredFields.schema_ascend (List.Perm.refl _)

omit [RegexEngine] in
theorem needGlobs_eq_ok {found : Option (List String)} {globs : List Glob} :
    needGlobs found = .ok globs ↔ found = some (globs.map Glob.asStr) := by
  constructor
  · intro success
    rcases ok_of_bind_ok success with ⟨items, found, result⟩
    cases result
    rw [need_eq_ok.mp found, List.map_map]
    exact congrArg some (List.map_id items).symm
  · intro found
    rw [needGlobs, need_eq_ok.mpr found]
    exact congrArg Except.ok ((List.map_map).trans (List.map_id globs))

theorem needRegex_eq_ok {source : Option String} {regex : Regex} :
    needRegex source = .ok regex ↔ source = some regex.source := by
  constructor
  · intro success
    rcases ok_of_bind_ok success with ⟨text, found, built⟩
    split at built
    · rename_i compiled
      cases built
      rw [need_eq_ok.mp found, Regex.build_eq_some.mp compiled]
    · cases built
  · rintro rfl
    have built : Regex.build regex.source = some regex := Regex.build_eq_some.mpr rfl
    simp only [needRegex, need, bind, Except.bind, built]
    rfl

omit [RegexEngine] in
private theorem rate_eq_ok {fields : PredFields} {rate : Rate} :
    fields.rate = .ok rate ↔ fields.milli = some (UInt64.ofNat rate.milli) := by
  constructor
  · intro success
    rcases ok_of_bind_ok success with ⟨milli, found, checked⟩
    split at checked
    · cases checked
      rw [need_eq_ok.mp found, UInt64.ofNat_toNat]
    · cases checked
  · intro found
    have small : (UInt64.ofNat rate.milli).toNat = rate.milli := by
      rw [UInt64.toNat_ofNat', Nat.mod_eq_of_lt]
      have := rate.atMostOne
      omega
    rw [PredFields.rate, need_eq_ok.mpr found]
    change (if atMostOne : (UInt64.ofNat rate.milli).toNat ≤ 1000 then _ else _) = _
    simp only [small]
    rw [dif_pos rate.atMostOne]
    rfl

private theorem named_fields {pred : Pred} {name : String}
    (hasName : pred.fields.name = some name) : pred.fields.named name = .ok pred := by
  cases pred <;> cases hasName
  case targetClass classes =>
    change ((classes.map classStr).mapM fun text => need (classOf text)) >>= _ = _
    rw [(mapM_need fun _ _ => classOf_eq_some).mpr rfl]
    rfl
  case appTrust trusts =>
    change ((trusts.map trustStr).mapM fun text => need (trustOf text)) >>= _ = _
    rw [(mapM_need fun _ _ => trustOf_eq_some).mpr rfl]
    rfl
  case provenanceContainsTrust trust =>
    cases trust <;> rfl
  all_goals
    first
      | rfl
      | exact map_eq_ok.mpr ⟨_, needGlobs_eq_ok.mpr rfl, rfl⟩
      | exact map_eq_ok.mpr ⟨_, needRegex_eq_ok.mpr rfl, rfl⟩
      | exact map_eq_ok.mpr ⟨_, rate_eq_ok.mpr rfl, rfl⟩

theorem pred_eq_ok {fields : PredFields} {pred : Pred} :
    fields.pred = .ok pred ↔ fields = pred.fields := by
  constructor
  · intro success
    rcases ok_of_bind_ok success with ⟨name, named, continued⟩
    rcases ok_of_bind_ok continued with ⟨found, built, counted⟩
    rw [need_eq_ok] at named
    split at counted
    · cases counted
    rename_i exactly
    cases counted
    rw [not_and, not_not] at exactly
    unfold PredFields.named at built
    split at built
    case h_2 =>
      rcases ok_of_bind_ok built with ⟨items, read, continued⟩
      rcases ok_of_bind_ok continued with ⟨classes, converted, result⟩
      cases result
      obtain rfl := (mapM_need fun _ _ => classOf_eq_some).mp converted
      exact (PredFields.of_count_a (exactly (by simp)) (need_eq_ok.mp read)).trans
        (by rw [named]; rfl)
    case h_13 =>
      rcases ok_of_bind_ok built with ⟨items, read, continued⟩
      rcases ok_of_bind_ok continued with ⟨trusts, converted, result⟩
      cases result
      obtain rfl := (mapM_need fun _ _ => trustOf_eq_some).mp converted
      exact (PredFields.of_count_a (exactly (by simp)) (need_eq_ok.mp read)).trans
        (by rw [named]; rfl)
    case h_15 =>
      rcases ok_of_bind_ok built with ⟨items, read, continued⟩
      rcases ok_of_bind_ok continued with ⟨text, single, continued⟩
      rcases ok_of_bind_ok continued with ⟨trust, converted, result⟩
      cases result
      obtain rfl := trustOf_eq_some.mp (need_eq_ok.mp converted)
      obtain rfl := one_eq_ok.mp single
      exact (PredFields.of_count_a (exactly (by simp)) (need_eq_ok.mp read)).trans
        (by rw [named]; rfl)
    case h_16 =>
      rcases ok_of_bind_ok built with ⟨items, read, continued⟩
      rcases ok_of_bind_ok continued with ⟨text, single, result⟩
      cases result
      obtain rfl := one_eq_ok.mp single
      exact (PredFields.of_count_a (exactly (by simp)) (need_eq_ok.mp read)).trans
        (by rw [named]; rfl)
    case h_17 =>
      split at built
      · cases built
      · rename_i zero
        cases built
        exact (PredFields.of_count_zero (not_not.mp zero)).trans (by rw [named]; rfl)
    case h_18 => cases built
    all_goals obtain ⟨value, read, rfl⟩ := map_eq_ok.mp built
    all_goals
      first
        | exact (PredFields.of_count_a (exactly (by simp)) (needGlobs_eq_ok.mp read)).trans
            (by rw [named]; rfl)
        | exact (PredFields.of_count_a (exactly (by simp)) (need_eq_ok.mp read)).trans
            (by rw [named]; rfl)
        | exact (PredFields.of_count_re (exactly (by simp)) (needRegex_eq_ok.mp read)).trans
            (by rw [named]; rfl)
        | exact (PredFields.of_count_b (exactly (by simp)) (need_eq_ok.mp read)).trans
            (by rw [named]; rfl)
        | exact (PredFields.of_count_milli (exactly (by simp)) (rate_eq_ok.mp read)).trans
            (by rw [named]; rfl)
  · rintro rfl
    obtain ⟨name, hasName⟩ : ∃ name, pred.fields.name = some name := by
      cases pred <;> exact ⟨_, rfl⟩
    have counted : ¬(pred ≠ .provenanceAbsent ∧ pred.fields.count ≠ 1) := by
      cases pred <;> simp [Pred.fields, PredFields.count]
    have unfolded : pred.fields.pred = need pred.fields.name >>= fun name =>
        pred.fields.named name >>= fun found =>
          if found ≠ .provenanceAbsent ∧ pred.fields.count ≠ 1 then throw .shape
          else pure found :=
      rfl
    rw [unfolded, need_eq_ok.mpr hasName]
    change pred.fields.named name >>= _ = _
    rw [named_fields hasName]
    change (if pred ≠ .provenanceAbsent ∧ pred.fields.count ≠ 1 then _ else _) = _
    rw [if_neg counted]
    rfl

/-- Every text fits, and a list has one item at least and `maxItems` at most. -/
def Pred.Fit (pred : Pred) : Prop := pred.fields.Fit

instance (pred : Pred) : Decidable pred.Fit := inferInstanceAs (Decidable pred.fields.Fit)

instance : Local decodePred := by
  unfold decodePred
  infer_instance

theorem accepts_decodePred {depth : Nat} (room : depth < maxMapDepth) {pred : Pred}
    {encoding : Bytes} :
    Accepts decodePred depth pred encoding ↔ encoding = encodePred pred ∧ pred.Fit := by
  rw [decodePred, accepts_built fun _ _ => pred_eq_ok, PredFields.accepts_fields,
    ← encodePred_eq, and_iff_right room]
  rfl

end Predicates

end EclipseOS.PolicyEval
