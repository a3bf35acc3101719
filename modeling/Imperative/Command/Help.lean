import Imperative.Command.Arguments

/-!
# Help

The texts that explain the command.
-/

namespace Imperative.Command

def versionText : String :=
  "imlang 0.1.0\n"

def unlines (lines : List String) : String :=
  String.join (lines.map fun line => line ++ "\n")

def helpText : Topic → String
  | .general => unlines [
      "imlang言語のコンパイラ（WebAssembly 出力）",
      "",
      "Usage: imlang [OPTIONS] <COMMAND>",
      "",
      "Commands:",
      "  build   ソースコードをコンパイル",
      "  check   構文と型のチェックのみ実行",
      "  tokens  トークン列を表示",
      "  help    Print this message or the help of the given subcommand(s)",
      "",
      "Options:",
      "  -v, --verbose...     詳細なログを出力（-vv でデバッグログと診断ログも出力）",
      "  -c, --config <FILE>  設定ファイルのパス（TOML）",
      "  -h, --help           Print help",
      "  -V, --version        Print version"]
  | .verb .build => unlines [
      "ソースコードをコンパイル",
      "",
      "Usage: imlang build [OPTIONS] <INPUT>",
      "",
      "Arguments:",
      "  <INPUT>  入力ファイル",
      "",
      "Options:",
      "  -o, --output <OUTPUT>  出力ファイル（省略時は入力ファイルの拡張子を置き換える）",
      "  -v, --verbose...       詳細なログを出力（-vv でデバッグログと診断ログも出力）",
      "  -c, --config <FILE>    設定ファイルのパス（TOML）",
      "      --emit <KIND>      出力形式（binary, text, both）",
      "      --no-opt           最適化を無効化",
      "      --entry <NAME>     エントリポイントのルーチン名",
      "      --export-all       本体を持つ全ルーチンをエクスポート",
      "      --stats            統計情報を表示",
      "  -h, --help             Print help"]
  | .verb .check => unlines [
      "構文と型のチェックのみ実行",
      "",
      "Usage: imlang check [OPTIONS] <INPUT>",
      "",
      "Arguments:",
      "  <INPUT>  入力ファイル",
      "",
      "Options:",
      "  -v, --verbose...     詳細なログを出力（-vv でデバッグログと診断ログも出力）",
      "  -c, --config <FILE>  設定ファイルのパス（TOML）",
      "  -h, --help           Print help"]
  | .verb .tokens => unlines [
      "トークン列を表示",
      "",
      "Usage: imlang tokens [OPTIONS] <INPUT>",
      "",
      "Arguments:",
      "  <INPUT>  入力ファイル",
      "",
      "Options:",
      "      --newlines       改行トークンも表示",
      "  -v, --verbose...     詳細なログを出力（-vv でデバッグログと診断ログも出力）",
      "  -c, --config <FILE>  設定ファイルのパス（TOML）",
      "  -h, --help           Print help"]
  | .help => unlines [
      "Print this message or the help of the given subcommand(s)",
      "",
      "Usage: imlang help [COMMAND]...",
      "",
      "Arguments:",
      "  [COMMAND]...  Print help for the subcommand(s)"]

def usageText : String :=
  unlines ["error: invalid arguments", "", "Usage: imlang [OPTIONS] <COMMAND>", "",
    "For more information, try '--help'."]

end Imperative.Command
