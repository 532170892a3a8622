import EclipseOS.PolicyEval.Scope
import Mathlib.Data.List.Perm.Basic

/-! # Sensitivity classification and app trust

The class of a target is the join of every source that contributes, and its
trust is whatever the owner's `trust` rules say. -/

namespace EclipseOS.PolicyEval

open Foundation

inductive Trust where
  | untrusted
  | standard
  | trusted
  | human
  deriving DecidableEq

variable [RegexEngine]

/-- One matcher line inside a `classify` or `trust` node. -/
inductive Matcher [RegexEngine] where
  | appId (globs : List Glob)
  | title (regex : Regex)
  | url (globs : List Glob)
  | output (globs : List Glob)
  | launchedBy (globs : List Glob)
  | xwayland (value : Bool)
  deriving DecidableEq

structure ClassifyRule [RegexEngine] where
  «class» : Class
  matchers : List Matcher
  deriving DecidableEq

structure TrustRule [RegexEngine] where
  trust : Trust
  matchers : List Matcher
  deriving DecidableEq

structure Classifier [RegexEngine] where
  default : Class
  classify : List ClassifyRule
  trust : List TrustRule
  deriving DecidableEq

/-- `Classifier::default()`. -/
def Classifier.private : Classifier := ⟨.«private», [], []⟩

/-- What a target is, as far as a matcher can see. -/
structure TargetFacts where
  appId : Option String
  title : Option String
  url : Option String
  output : Option String
  launchedBy : Option String
  xwayland : Bool

/-- The classification and whether an X11 window was refused `secret`. -/
structure Classified where
  «class» : Class
  x11SecretRefused : Bool
  deriving DecidableEq

def anyGlob (globs : List Glob) (text : String) : Bool :=
  globs.any (·.matches text)

namespace Matcher

def hits (target : TargetFacts) : Matcher → Bool
  | appId globs => target.appId.any (anyGlob globs)
  | title regex => target.title.any regex.isMatch
  | url globs => target.url.any (anyGlob globs)
  | output globs => target.output.any (anyGlob globs)
  | launchedBy globs => target.launchedBy.any (anyGlob globs)
  | xwayland value => target.xwayland = value

end Matcher

namespace Classifier

def classifyTarget (classifier : Classifier) (target : TargetFacts) (raise : Class) :
    Classified :=
  let hit := fun rule : ClassifyRule => rule.matchers.any (·.hits target)
  let isPublic := classifier.classify.any fun rule => rule.class = .«public» ∧ hit rule
  let base := if isPublic then .«public» else classifier.default
  let raising := classifier.classify.filter fun rule =>
    Class.rank .«public» < rule.class.rank ∧ hit rule
  let raised := ((raising.map (·.class)).foldl Class.max base).max raise
  if target.xwayland ∧ raised = .secret then
    ⟨.«private», true⟩
  else
    ⟨raised, false⟩

end Classifier

end EclipseOS.PolicyEval

/-! ## The class of a target is a join

A class is bounded by whatever bounds every source that contributes to it, so
only which rules hit matters, never their order. -/

namespace EclipseOS.PolicyEval

namespace Class

theorem rank_injective : Function.Injective rank := by
  intro left right equal
  cases left <;> cases right <;> first | rfl | cases equal

theorem rank_max_le_iff {left right : Class} {bound : Nat} :
    (left.max right).rank ≤ bound ↔ left.rank ≤ bound ∧ right.rank ≤ bound := by
  unfold Class.max
  split <;> omega

theorem rank_foldl_max_le_iff {base : Class} {classes : List Class} {bound : Nat} :
    (classes.foldl Class.max base).rank ≤ bound ↔
      base.rank ≤ bound ∧ ∀ «class» ∈ classes, «class».rank ≤ bound := by
  induction classes generalizing base with
  | nil => simp
  | cons first others induction =>
    rw [List.foldl_cons, induction, rank_max_le_iff, List.forall_mem_cons]
    exact and_assoc

end Class

/-- An X11 window is never `secret`. -/
def Classified.cap (xwayland : Bool) (raised : Class) : Classified :=
  if xwayland ∧ raised = .secret then ⟨.«private», true⟩ else ⟨raised, false⟩

namespace Classified

theorem cap_mono (xwayland : Bool) {low high : Class} (le : low.rank ≤ high.rank) :
    (cap xwayland low).class.rank ≤ (cap xwayland high).class.rank := by
  cases xwayland with
  | false => simpa [cap] using le
  | true => cases low <;> cases high <;> first | exact absurd le (by decide) | decide

theorem cap_xwayland (raised : Class) : (cap true raised).class ≠ .secret := by
  cases raised <;> decide

end Classified

variable [RegexEngine]

def ClassifyRule.hits (target : TargetFacts) (rule : ClassifyRule) : Bool :=
  rule.matchers.any (·.hits target)

namespace Classifier

variable {classifier larger : Classifier} {target : TargetFacts} {raise : Class}

def base (classifier : Classifier) (target : TargetFacts) : Class :=
  if classifier.classify.any fun rule => rule.class = .«public» ∧ rule.hits target then
    .«public»
  else
    classifier.default

/-- The class every source has contributed to, before the X11 cap. -/
def raised (classifier : Classifier) (target : TargetFacts) (raise : Class) : Class :=
  let raising := classifier.classify.filter fun rule =>
    Class.rank .«public» < rule.class.rank ∧ rule.hits target
  ((raising.map (·.class)).foldl Class.max (classifier.base target)).max raise

theorem classifyTarget_eq (classifier : Classifier) (target : TargetFacts) (raise : Class) :
    classifier.classifyTarget target raise =
      .cap target.xwayland (classifier.raised target raise) :=
  rfl

/-- The raised class is the least one that bounds every source. -/
theorem rank_raised_le_iff {bound : Nat} :
    (classifier.raised target raise).rank ≤ bound ↔
      (classifier.base target).rank ≤ bound ∧
      (∀ rule ∈ classifier.classify, Class.rank .«public» < rule.class.rank →
        rule.hits target = true → rule.class.rank ≤ bound) ∧
      raise.rank ≤ bound := by
  simp only [raised, Class.rank_max_le_iff, Class.rank_foldl_max_le_iff, List.forall_mem_map,
    List.mem_filter, decide_eq_true_eq, and_imp, and_assoc]

/-- More raising sources over the same base never lower the class. -/
theorem rank_raised_le (base : larger.base target = classifier.base target)
    (rules : classifier.classify ⊆ larger.classify) {more : Class}
    (raises : raise.rank ≤ more.rank) :
    (classifier.raised target raise).rank ≤ (larger.raised target more).rank := by
  obtain ⟨baseLe, rulesLe, moreLe⟩ :=
    rank_raised_le_iff.mp (Nat.le_refl (larger.raised target more).rank)
  refine rank_raised_le_iff.mpr ⟨base ▸ baseLe, ?_, raises.trans moreLe⟩
  intro rule member
  exact rulesLe rule (rules member)

theorem base_of_perm (perm : larger.classify.Perm classifier.classify)
    (default : larger.default = classifier.default) :
    larger.base target = classifier.base target := by
  rw [base, base, default, perm.any_eq]

theorem base_insert {before after : List ClassifyRule} {rule : ClassifyRule}
    (split : classifier.classify = before ++ after) (raising : rule.class ≠ .«public») :
    base { classifier with classify := before ++ rule :: after } target =
      classifier.base target := by
  simp [base, split, raising]

/-- The class of a target does not depend on the order of the rules, another
raising rule or a higher raise never lowers it, and an X11 window is never
given `secret`. -/
theorem classifyTarget_join (classifier : Classifier) (target : TargetFacts) (raise : Class) :
    (∀ rules : List ClassifyRule, rules.Perm classifier.classify →
      classifyTarget { classifier with classify := rules } target raise =
        classifier.classifyTarget target raise) ∧
    (∀ before after rule, classifier.classify = before ++ after →
      rule.class ≠ .«public» →
      (classifier.classifyTarget target raise).class.rank ≤
        (classifyTarget { classifier with classify := before ++ rule :: after }
          target raise).class.rank) ∧
    (∀ more : Class, raise.rank ≤ more.rank →
      (classifier.classifyTarget target raise).class.rank ≤
        (classifier.classifyTarget target more).class.rank) ∧
    (target.xwayland = true → (classifier.classifyTarget target raise).class ≠ .secret) := by
  refine ⟨?_, ?_, ?_, ?_⟩
  · intro rules perm
    have same : base { classifier with classify := rules } target = classifier.base target :=
      base_of_perm perm rfl
    have raised : Classifier.raised { classifier with classify := rules } target raise =
        classifier.raised target raise := by
      apply Class.rank_injective
      apply Nat.le_antisymm
      · exact rank_raised_le same.symm perm.subset (Nat.le_refl _)
      · exact rank_raised_le same perm.symm.subset (Nat.le_refl _)
    rw [classifyTarget_eq, classifyTarget_eq, raised]
  · intro before after rule split raising
    apply Classified.cap_mono
    apply rank_raised_le (base_insert split raising) _ (Nat.le_refl _)
    rw [split]
    exact ((List.sublist_cons_self rule after).append_left before).subset
  · intro more raises
    apply Classified.cap_mono
    exact rank_raised_le rfl (List.Subset.refl _) raises
  · intro xwayland
    rw [classifyTarget_eq, xwayland]
    exact Classified.cap_xwayland _

end Classifier

end EclipseOS.PolicyEval
