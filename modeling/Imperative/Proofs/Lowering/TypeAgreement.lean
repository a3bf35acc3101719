import Imperative.Proofs.Accepted
import Imperative.Proofs.Grammar.Nesting
import Imperative.Proofs.Lowering.Sites
import Imperative.Proofs.Typing.TypeTable

/-!
# Lowering finds the types that the analysis found

The analysis and lowering find the type of an expression each on their own, with scopes of their
own.  For an accepted program the two agree wherever lowering comes to an expression.
-/

namespace Imperative.Lowering

/-- The type of an operand. -/
def Operand.type : Operand → Ty
  | .value type => type
  | .place _ type => type

theorem Operand.Fits.type_eq {operand : Operand} {type : Ty} (fits : operand.Fits type) :
    operand.type = type := by
  cases operand with
  | value found => exact fits
  | place holder found => exact fits.1

/-- Lowering the expression in the environment can only give the type. -/
structure GivesType (env : Environment) (tree : Expr) (type : Ty) : Prop where
  operand : ∀ frame code found post,
    operand env tree frame = .ok ((code, found), post) → found.type = type
  expression : ∀ frame code found post,
    expression env tree frame = .ok ((code, found), post) → found = type

theorem GivesType.of_typed (situated : Situation names env)
    (typed : Typing.HasType Assignable names tree type) : GivesType env tree type where
  operand frame _ _ _ isOk := ((operand_builds situated tree typed frame).of_ok isOk).1.type_eq
  expression frame _ _ _ isOk := ((expression_builds situated typed frame).of_ok isOk).1

/--
Where lowering an accepted program comes to an expression, it gives every part of the expression
the type that the analysis recorded for it, and no function turns a real into an integer.
-/
theorem lowered_types_of_accepted {text : String} (parses : (Program.parse text).diagnostics = [])
    (analyzes : (Program.parse text).value.analyze.diagnostics = [])
    (apart : (Program.parse text).value.ParametersApart) {options : Options} {module : Wasm.Module}
    (lowered : lower options (Program.parse text).value = .ok module) :
    (∀ env value, LowersAt options (Program.parse text).value env value →
      ∀ part ∈ value.nodes, ∃ type,
        (Program.parse text).value.analyze.typeAt part.span = some type ∧ GivesType env part type) ∧
      ∀ function ∈ module.functions, .i32TruncF64S ∉ Wasm.codeOperations function.body := by
  have distinct := Program.parse_spans_nodup parses
  obtain ⟨names, declared, throughout⟩ :=
    Typing.throughout_of_analyze (fun _ _ _ _ assignable => assignable)
      (Program.parse_wellNamed parses) apart analyzes
  have meets := lower_meets (wellTyped_of_accepted parses analyzes apart) options
  refine ⟨fun env value lowers part member => ?_,
    fun function member => (meets.of_ok lowered function member).2⟩
  obtain ⟨known, situated, recorded⟩ := lowers.holds declared throughout
  obtain ⟨type, typed, entered⟩ := recorded part member
  exact ⟨type, Program.typeAt_of_mem distinct entered, .of_typed situated typed⟩

theorem lowersAt_of_inferred
    (isInferred : (match program.declarations with
      | .routine _ :: .var (.mk _ _ none (some (.real _ _))) :: _ => true
      | _ => false) = true) :
    ∃ env span value, LowersAt options program env (.real span value) := by
  split at isInferred
  · next routine _ _ span value later isDeclared =>
    exact ⟨_, span, value, _,
      @Starts.inferred options program [.routine routine] later _ _ _ _ isDeclared rfl, .refl⟩
  · cases isInferred

/--
A program with a variable that a loop hides, one without a written type, and a routine that is
declared with an array of another size before.
-/
def shadowingText : String :=
  "routine sum(a : array[3] integer) : integer\nvar g is 2.5\nroutine main() is\n" ++
    "var a : array[5] integer\nfor g in 1..5 loop\na[g] := g\nend\n" ++
    "for x in a loop\nprint x + g\nend\nprint sum(a)\nend\n" ++
    "routine sum(a : array[5] integer) : integer is\nreturn a[1]\nend\n"

theorem shadowingText_accepted :
    ((Program.parse shadowingText).diagnostics.isEmpty &&
      (Program.parse shadowingText).value.analyze.diagnostics.isEmpty &&
        decide (Program.parse shadowingText).value.ParametersApart &&
          (match (Program.parse shadowingText).value.declarations with
            | .routine _ :: .var (.mk _ _ none (some (.real _ _))) :: _ => true
            | _ => false) &&
            (lower Options.standard (Program.parse shadowingText).value).toOption.any
              (·.functions.length == 2)) = true := by
  rw [@Program.parse_of_toList shadowingText _
    (toList_append_of (toList_append_of (toList_append_of String.toList_ofList
      String.toList_ofList) String.toList_ofList) String.toList_ofList)]
  decide +kernel

theorem lowered_types_of_shadowingText :
    (∃ env span value, LowersAt Options.standard (Program.parse shadowingText).value
      env (.real span value)) ∧
      ∃ module, lower Options.standard (Program.parse shadowingText).value = .ok module ∧
        module.functions.length = 2 ∧
        (∀ env value,
          LowersAt Options.standard (Program.parse shadowingText).value env value →
            ∀ part ∈ value.nodes, ∃ type,
              (Program.parse shadowingText).value.analyze.typeAt part.span = some type ∧
                GivesType env part type) ∧
        ∀ function ∈ module.functions, .i32TruncF64S ∉ Wasm.codeOperations function.body := by
  have accepted := shadowingText_accepted
  simp only [Bool.and_eq_true, List.isEmpty_iff, decide_eq_true_eq] at accepted
  obtain ⟨⟨⟨⟨parses, analyzes⟩, apart⟩, isInferred⟩, isLowered⟩ := accepted
  refine ⟨lowersAt_of_inferred isInferred, ?_⟩
  obtain ⟨module, lowered, counted⟩ := exists_of_any isLowered
  exact ⟨module, lowered, eq_of_beq counted,
    lowered_types_of_accepted parses analyzes apart lowered⟩

/-- A parameter hides the type of a later one, which is then assigned to an integer. -/
def hiddenRealText : String :=
  "type T is real\nroutine f(T : integer, x : T) is\nvar i : integer\ni := x\nend\n"

/--
Without the condition on parameters the two may find different types: what is an error for the
analysis is a real for lowering, and it becomes an integer.
-/
theorem lowered_types_differ_hiddenRealText :
    ((Program.parse hiddenRealText).diagnostics.isEmpty &&
      (Program.parse hiddenRealText).value.analyze.diagnostics.isEmpty &&
        ((Program.parse hiddenRealText).value.analyze.types.map fun entry =>
          entry.2.describe) == ["<error>", "integer"] &&
          match lower Options.standard (Program.parse hiddenRealText).value with
          | .ok module => module.functions.any fun function =>
            decide (.i32TruncF64S ∈ Wasm.codeOperations function.body)
          | .error _ => false) = true := by
  rw [@Program.parse_of_toList hiddenRealText _ String.toList_ofList]
  decide +kernel

end Imperative.Lowering
