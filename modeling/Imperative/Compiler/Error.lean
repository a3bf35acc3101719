import Imperative.Compiler.Settings

/-!
# Errors

What can end a compilation without an outcome, and how it is told: the kind of the error
in front, then the message.
-/

namespace Imperative.Compiler

/-- What ends a compilation. -/
inductive Error where
  | lowering (error : Lowering.Error)
  | settings (error : SettingsError)

namespace Error

def message : Error → String
  | lowering (.refused refusal _) => "コード生成エラー: " ++ refusal.message
  | lowering (.defect defect) => "内部エラー: " ++ defect.message
  | settings error => "設定エラー: " ++ error.message

def span : Error → Option Span
  | lowering (.refused _ span) => span
  | _ => none

end Error

end Imperative.Compiler
