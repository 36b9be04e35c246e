import Linewise.Grammar.Description

/-!
# The grammar of Python

A string in three quotes at the beginning of a line counts as a comment, since that is how
documentation is written. A string in three quotes elsewhere has to be tried before one in a single
quote.
-/

namespace Linewise
namespace Builtin

/-- The rules: comments, strings, numbers, decorators, operators, definitions, names. -/
def pythonRules : List (RuleDescription Description) :=
  [ .lua (.one "#.*") "comment",
    .lua (.many ["^%s*\"\"\"", "\"\"\""]) "comment",
    .lua (.many ["[ruU]?\"\"\"", "\"\"\"", "\\"]) "string",
    .lua (.many ["[ruU]?'''", "'''", "\\"]) "string",
    .lua (.many ["[ruU]?\"", "\"", "\\"]) "string",
    .lua (.many ["[ruU]?'", "'", "\\"]) "string",
    .lua (.one "0x%x+") "number",
    .lua (.one "%d+[%d%.eE_]*j?") "number",
    .lua (.one "%.%d+j?") "number",
    .lua (.one "@[%a_][%w_%.]*") "keyword2",
    .lua (.one "[%+%-=/%*%^%%<>!~|&]") "operator",
    { RuleDescription.lua (.one "def%s()[%a_][%w_]*") "keyword" with
      label := some (.many ["keyword", "function"]) },
    { RuleDescription.lua (.one "class%s()[%a_][%w_]*") "keyword" with
      label := some (.many ["keyword", "keyword2"]) },
    .lua (.one "[%a_][%w_]*%f[(]") "function",
    .lua (.one "[%a_][%w_]*") "symbol" ]

/-- The texts that have labels of their own. -/
def pythonSymbols : List (String × String) :=
  Description.sortSymbols
    (Description.labelled "keyword"
      [
        "and", "as", "assert", "async", "await", "break", "continue", "del", "elif", "else",
        "except", "finally", "for", "from", "global", "if", "import", "in", "is", "lambda",
        "nonlocal", "not", "or", "pass", "raise", "return", "try", "while", "with", "yield"
      ] ++
      Description.labelled "keyword2"
      [
        "self", "int", "str", "float", "list", "dict"
      ] ++
      Description.labelled "literal"
      [
        "True", "False", "None"
      ])

/-- The grammar of Python. -/
def python : Description where
  name := some "python"
  extensions := ["py", "pyw", "pyi"]
  defaultLabel := none
  rules := pythonRules
  symbols := pythonSymbols

end Builtin
end Linewise
