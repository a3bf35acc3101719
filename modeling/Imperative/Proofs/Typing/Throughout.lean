import Imperative.Proofs.Syntax.Nodes
import Imperative.Proofs.Typing.Judgement

/-!
# What is recorded throughout a program

A property holds throughout a piece of syntax if every expression that is evaluated in it has the
property, together with the names that are known at its place.
-/

namespace Imperative.Typing

section Throughout

variable (Converts : Ty → Ty → Prop) (Holds : Context → Expr → Prop)

mutual

def StatementThroughout : Context → Statement → Prop
  | context, .assign _ tgt val => Holds context tgt ∧ Holds context val
  | context, .call span name args => Holds context (.call span name args)
  | context, .branch _ cond consequent none => Holds context cond ∧
    BlockThroughout context consequent
  | context, .branch _ cond consequent (some alternative) =>
    Holds context cond ∧ BlockThroughout context consequent ∧ BlockThroughout context alternative
  | context, .whileLoop _ cond body => Holds context cond ∧ BlockThroughout context body
  | context, .rangeLoop _ iter first last _ body =>
    Holds context first ∧ Holds context last ∧
      BlockThroughout (Context.define iter (.var .integer) context) body
  | context, .arrayLoop _ iter array _ body =>
    Holds context array ∧ ∃ element size, HasType Converts context array (.array element size) ∧
      BlockThroughout (Context.define iter (.var element) context) body
  | _, .giveBack _ none => True
  | context, .giveBack _ (some val) => Holds context val
  | context, .print _ items => ∀ item ∈ items, Holds context item
  | _, .empty _ => True
  | context, .block _ inner => BlockThroughout context inner

def BlockThroughout : Context → Block → Prop
  | context, .mk _ items => ItemsThroughout context items

/-- The property holds of the expressions of items, which may declare names for later ones. -/
def ItemsThroughout : Context → List Item → Prop
  | _, [] => True
  | context, .declaration (.var decl) :: rest =>
    (∀ val, decl.initial = some val → Holds context val) ∧
      ∃ type, VarTyped Converts context decl type ∧
        ItemsThroughout (Context.define decl.name (.var type) context) rest
  | context, .declaration (.type decl) :: rest =>
    ∃ type, Resolves context (some decl.name) decl.type type ∧
      ItemsThroughout (Context.define decl.name (.type type) context) rest
  | _, .declaration (.routine _) :: _ => False
  | context, .statement first :: rest =>
    StatementThroughout context first ∧ ItemsThroughout context rest

end

def BodyThroughout (context : Context) : Body → Prop
  | .expression val => Holds context val
  | .block inner => BlockThroughout Converts Holds context inner

/-- The property holds of the expressions of a routine, with the names of its parameters. -/
def RoutineThroughout (context : Context) (routine : Routine) : Prop :=
  ∀ body, routine.body = some body →
    ∃ sig, context routine.name = some (.routine sig) ∧
      BodyThroughout Converts Holds (Context.defineAll sig.parameters context) body

/-- The property holds of the variables and routines of a program, checked in order. -/
def DeclarationsThroughout : Context → List Declaration → Prop
  | _, [] => True
  | context, .var decl :: rest =>
    context decl.name = none ∧ (∀ val, decl.initial = some val → Holds context val) ∧
      ∃ type, VarTyped Converts context decl type ∧
        DeclarationsThroughout (Context.define decl.name (.var type) context) rest
  | context, .type _ :: rest => DeclarationsThroughout context rest
  | context, .routine routine :: rest =>
    RoutineThroughout Converts Holds context routine ∧ DeclarationsThroughout context rest

end Throughout

section Recorded

variable (Converts : Ty → Ty → Prop) (tbl : List (Span × Ty))

def HasEntry (context : Context) (tree : Expr) : Prop :=
  ∃ type, HasType Converts context tree type ∧ (tree.span, type) ∈ tbl

/-- The types of the expression and of what is inside of it are in the table. -/
def Recorded (context : Context) (tree : Expr) : Prop :=
  ∀ node ∈ tree.nodes, HasEntry Converts tbl context node

/-- The expression has the type by the rules, and it is recorded. -/
structure Noted (context : Context) (tree : Expr) (type : Ty) : Prop where
  typed : HasType Converts context tree type
  recorded : Recorded Converts tbl context tree

end Recorded

/-- If the parts are recorded and the type of the whole is entered, the whole is noted. -/
theorem Noted.of_parts (typed : HasType Converts context tree type)
    (parts : ∀ node ∈ tree.parts, HasEntry Converts tbl context node)
    (entered : (tree.span, type) ∈ tbl) : Noted Converts tbl context tree type where
  typed := typed
  recorded := List.forall_mem_append.mpr ⟨parts,
    List.forall_mem_singleton.mpr ⟨type, typed, entered⟩⟩

end Imperative.Typing
