import Imperative.Typing.Problem

/-!
# Why a program cannot be lowered

A program is refused for a reason of its own, possibly with a place in its text, or
because of a defect: a state that an analysed program never leads to.
-/

namespace Imperative.Lowering

/-- A reason to refuse a program. -/
inductive Refusal where
  | literalRange (value : Int)
  | neverDefined (routine : String)
  | noStaticSize (type : Ty)
  | tooLarge
  | noAddress (type : Ty)
  | noRepresentation (type : Ty)
  | illTyped (problem : Typing.Problem)

def Refusal.message : Refusal → String
  | literalRange value => "Integer literal " ++ toString value ++ " does not fit in 32 bits"
  | neverDefined routine =>
    "Routine " ++ Typing.quoted routine ++ " is declared but never defined"
  | noStaticSize type => "Type " ++ Typing.quoted type.describe ++ " has no static size"
  | tooLarge => "Aggregate type is too large for linear memory"
  | noAddress type => "Value of type " ++ Typing.quoted type.describe ++ " has no address"
  | noRepresentation type =>
    "Type " ++ Typing.quoted type.describe ++ " has no runtime representation"
  | illTyped problem => problem.message

/-- A state that an analysed program never leads to. -/
inductive Defect where
  | notPlaceable (type : Ty)
  | missingField (record field : String)
  | unregistered (routine : String)
  | notAggregate (type : Ty)
  | noValue (type : Ty)

def Defect.message : Defect → String
  | notPlaceable type => "型 " ++ Typing.quoted type.describe ++ " はメモリに配置できません"
  | missingField record field =>
    "レコード " ++ Typing.quoted record ++ " にフィールド " ++ Typing.quoted field ++
      " がありません"
  | unregistered routine => "ルーチン " ++ Typing.quoted routine ++ " が未登録です"
  | notAggregate type => "型 " ++ Typing.quoted type.describe ++ " は集約型ではありません"
  | noValue type => "型 " ++ Typing.quoted type.describe ++ " は実行時の値を持ちません"

/-- Why a program cannot be lowered. -/
inductive Error where
  | refused (refusal : Refusal) (span : Option Span)
  | defect (defect : Defect)

def Error.refuse (span : Span) (refusal : Refusal) : Error :=
  .refused refusal (some span)

/-- Give a refusal without a place the place `span`. -/
def Error.locate (span : Span) : Error → Error
  | .refused refusal none => .refused refusal (some span)
  | other => other

/-- Give the refusals of a computation that lack a place the place `span`. -/
def locating {α : Type} (span : Span) (result : Except Error α) : Except Error α :=
  result.mapError (Error.locate span)

end Imperative.Lowering
