import PdGuard.Domain.Traits

namespace PdGuard.Combination

def windowOverlap (a b : Entity) (windowChars : ℕ) : Bool :=
  max a.span.start b.span.start - min a.span.start b.span.start ≤ windowChars

def present (entities : List Entity) (e : Entity) (rule : CombinationRuleConfig) (t : PdType) :
    Bool :=
  match rule.scope with
  | .document => entities.any (·.pdType = t)
  | .window => entities.any fun other => other.pdType = t && windowOverlap e other rule.windowChars

def satisfied (entities : List Entity) (e : Entity) (rule : CombinationRuleConfig) : Bool :=
  (rule.requiresAny.isEmpty || rule.requiresAny.any (present entities e rule)) &&
    rule.requiresAll.all (present entities e rule)

def apply (entities : List Entity) (policy : EffectivePolicy) : List Entity :=
  let c := policy.combination
  if 0 < c.minDistinctTypes ∧ (entities.map (·.pdType)).dedup.length < c.minDistinctTypes then
    entities.filter fun e => c.alwaysMask.any (· = e.pdType)
  else
    entities.filter fun e =>
      match c.rules e.pdType with
      | none => true
      | some rule => satisfied entities e rule

end PdGuard.Combination
