import Imperative.Proofs.Lowering.Program
import Imperative.Proofs.Parser.Writings
import Imperative.Proofs.Typing.Program

/-!
# Accepted programs

A text is accepted if neither parsing nor the analysis reports anything.  Accepted programs are
well typed, with one exception that `Program.ParametersApart` rules out: the type of a parameter is
resolved again where the body is checked, and there an earlier parameter hides a type of its name.
-/

namespace Imperative.Lowering

theorem wellTyped_of_accepted (parses : (Program.parse text).diagnostics = [])
    (analyzes : (Program.parse text).value.analyze.diagnostics = [])
    (apart : (Program.parse text).value.ParametersApart) :
    (Program.parse text).value.WellTyped Assignable :=
  Program.wellTyped_of_analyze (fun _ _ _ _ assignable => assignable)
    (Program.parse_wellNamed parses) apart analyzes

/-- The functions of a lowered program are valid if the program is accepted. -/
theorem functions_valid_of_accepted {text : String} (parses : (Program.parse text).diagnostics = [])
    (analyzes : (Program.parse text).value.analyze.diagnostics = [])
    (apart : (Program.parse text).value.ParametersApart) {options : Options} {module : Wasm.Module}
    (lowered : lower options (Program.parse text).value = .ok module) :
    ∀ function ∈ module.functions, function.Valid module := by
  intro function member
  have meets := lower_meets (wellTyped_of_accepted parses analyzes apart) options
  exact (meets.of_ok lowered function member).1

def sampleText : String :=
  "type P is record var x : real var a : array[3] integer end\n" ++
    "routine f(p : P, n : integer) : real is\nfor i in 1..n loop\np.a[i] := i\nend\n" ++
    "return p.a[n]\nend\n"

theorem sampleText_accepted :
    ((Program.parse sampleText).diagnostics.isEmpty &&
      (Program.parse sampleText).value.analyze.diagnostics.isEmpty &&
        decide (Program.parse sampleText).value.ParametersApart &&
          (lower Options.standard (Program.parse sampleText).value).toOption.any
            (·.functions.length == 1)) = true := by
  rw [@Program.parse_of_toList sampleText _
    (toList_append_of (toList_append_of String.toList_ofList String.toList_ofList)
      String.toList_ofList)]
  decide +kernel

theorem functions_valid_of_sampleText :
    ∃ module, lower Options.standard (Program.parse sampleText).value = .ok module ∧
      module.functions.length = 1 ∧ ∀ function ∈ module.functions, function.Valid module := by
  have accepted := sampleText_accepted
  simp only [Bool.and_eq_true, List.isEmpty_iff, decide_eq_true_eq] at accepted
  obtain ⟨⟨⟨parses, analyzes⟩, apart⟩, isLowered⟩ := accepted
  obtain ⟨module, lowered, counted⟩ := exists_of_any isLowered
  exact ⟨module, lowered, eq_of_beq counted,
    functions_valid_of_accepted parses analyzes apart lowered⟩

/-- The message is one of those about a limit. -/
inductive LimitMessage : Refusal → String → Prop
  | literalRange (val : Int) :
      LimitMessage (.literalRange val)
        ("Integer literal " ++ toString val ++ " does not fit in 32 bits")
  | neverDefined (routine : String) :
      LimitMessage (.neverDefined routine)
        ("Routine " ++ Typing.quoted routine ++ " is declared but never defined")
  | noStaticSize (type : Ty) :
      LimitMessage (.noStaticSize type)
        ("Type " ++ Typing.quoted type.describe ++ " has no static size")
  | tooLarge : LimitMessage .tooLarge "Aggregate type is too large for linear memory"

theorem Refusal.IsLimit.message (isLimit : refusal.IsLimit) :
    LimitMessage refusal refusal.message := by
  cases isLimit with
  | literalRange val => exact .literalRange val
  | neverDefined routine => exact .neverDefined routine
  | noStaticSize type => exact .noStaticSize type
  | tooLarge => exact .tooLarge

/--
An accepted program is lowered, or it is refused with one of the four messages about limits; it
never leads to a defect.
-/
theorem lower_of_accepted {text : String} (parses : (Program.parse text).diagnostics = [])
    (analyzes : (Program.parse text).value.analyze.diagnostics = [])
    (apart : (Program.parse text).value.ParametersApart) (options : Options) :
    (∃ module, lower options (Program.parse text).value = .ok module) ∨
      ∃ refusal span, lower options (Program.parse text).value = .error (.refused refusal span) ∧
        LimitMessage refusal refusal.message := by
  have meets := lower_meets (wellTyped_of_accepted parses analyzes apart) options
  cases lowered : lower options (Program.parse text).value with
  | ok module => exact .inl ⟨module, rfl⟩
  | error error =>
    rw [lowered] at meets
    obtain ⟨refusal, span, rfl, isLimit⟩ := meets
    exact .inr ⟨refusal, span, rfl, isLimit.message⟩

def unfinishedText : String :=
  "routine f(n : integer) : integer\nroutine main() is\nprint f(1)\nend\n"

theorem unfinishedText_accepted :
    ((Program.parse unfinishedText).diagnostics.isEmpty &&
      (Program.parse unfinishedText).value.analyze.diagnostics.isEmpty &&
        decide (Program.parse unfinishedText).value.ParametersApart &&
          !(lower Options.standard (Program.parse unfinishedText).value).isOk) = true := by
  rw [@Program.parse_of_toList unfinishedText _ String.toList_ofList]
  decide +kernel

theorem lower_of_unfinishedText :
    ∃ refusal span,
      lower Options.standard (Program.parse unfinishedText).value = .error (.refused refusal span) ∧
        LimitMessage refusal refusal.message := by
  have accepted := unfinishedText_accepted
  simp only [Bool.and_eq_true, List.isEmpty_iff, decide_eq_true_eq] at accepted
  obtain ⟨⟨⟨parses, analyzes⟩, apart⟩, notLowered⟩ := accepted
  rcases lower_of_accepted parses analyzes apart Options.standard with ⟨module, lowered⟩ | refused
  · rw [lowered] at notLowered
    cases notLowered
  · exact refused

/-- A parameter hides the type of a later one, of which a field is then taken. -/
def hiddenTypeText : String := "type T is real\nroutine f(T : integer, x : T) is\nprint x.a\nend\n"

/-- Without the condition on parameters a program may be refused for another reason. -/
theorem lower_of_hiddenTypeText :
    ((Program.parse hiddenTypeText).diagnostics.isEmpty &&
      (Program.parse hiddenTypeText).value.analyze.diagnostics.isEmpty &&
        match lower Options.standard (Program.parse hiddenTypeText).value with
        | .error (.refused refusal _) => refusal.message == "Value of type 'real' has no address"
        | _ => false) = true := by
  rw [@Program.parse_of_toList hiddenTypeText _ String.toList_ofList]
  decide +kernel

end Imperative.Lowering
