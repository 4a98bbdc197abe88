import ToolAccess.Rule.Set

/-!
# Policy layers

The rules of a deployment come in layers: the defaults of the application, the overrides of the
deployment, and the profile of the turn. Merging them gives one rule set. The rules of the
overrides have their priority lifted by an offset, and where priorities are equal the overrides
come before the profile and the profile before the defaults. The fallback is that of the most
specific layer that declares one: the profile, then the overrides, then the defaults.
-/

namespace ToolAccess

/-- The rules of one policy document. A layer without a fallback takes over that of a less
specific layer. -/
structure Layer where
  rules : List Rule
  fallback : Option Decision
  deriving DecidableEq, Inhabited

/-- The layer without rules. -/
def Layer.empty : Layer := ⟨[], none⟩

/-- A rule set as a layer that declares its fallback. -/
def RuleSet.toLayer (s : RuleSet) : Layer := ⟨s.rules, some s.fallback⟩

/-- The sum of two priorities, kept within the range of priorities. -/
def liftPriority (offset priority : Int64) : Int64 :=
  Int64.ofIntClamp (priority.toInt + offset.toInt)

/-- The rule with its priority lifted by an offset. -/
def Rule.lift (offset : Int64) (r : Rule) : Rule :=
  { r with priority := liftPriority offset r.priority }

/-- The lift of the overrides when none is configured. -/
def defaultOffset : Int64 := 1000

/-- The layers of a policy; the profile may be absent. -/
structure LayerStack where
  defaults : Layer
  overrides : Layer
  profile : Option Layer

namespace LayerStack

/-- The rules of the profile, if there is one. -/
def profileRules (l : LayerStack) : List Rule := (l.profile.map (·.rules)).getD []

/-- The fallback of the most specific layer that declares one. Without any, tools are denied. -/
def fallback (l : LayerStack) : Decision :=
  (l.profile.bind (·.fallback) <|> l.overrides.fallback <|> l.defaults.fallback).getD .deny

/-- The layers as one rule set, the overrides lifted by an offset. -/
def merge (l : LayerStack) (offset : Int64) : RuleSet where
  rules := l.overrides.rules.map (Rule.lift offset) ++ l.profileRules ++ l.defaults.rules
  fallback := l.fallback

end LayerStack

end ToolAccess
