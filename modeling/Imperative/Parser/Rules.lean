import Imperative.Parser.State

/-!
# Rules that call each other

A rule of the grammar is parsed by its body, which says what the rule does, given what the rules
that it calls do.  The calls are followed to a depth that the tokens which are left never exceed.
-/

namespace Imperative.Parser

/-- Rules of the grammar that call each other. -/
structure Group where
  Rule : Type
  Result : Rule → Type
  /-- What a rule does, given what the called rules do. -/
  body : ((rule : Rule) → Parser (Result rule)) → (rule : Rule) → Parser (Result rule)
  /-- What stands for a rule where the calls are too deep. -/
  standIn : (rule : Rule) → Parser (Result rule)

namespace Group

variable (group : Group)

def within : Nat → (rule : group.Rule) → Parser (group.Result rule)
  | 0 => group.standIn
  | depth + 1 => group.body (within depth)

def parse (rule : group.Rule) : Parser (group.Result rule) := do
  group.within (← get).depth rule

end Group

end Imperative.Parser
