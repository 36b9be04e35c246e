import Linewise.Grammar.Description

/-!
# The grammar of C

The rules for comments, strings and character constants come first. None of the rules after them
takes a double quote or an apostrophe, and an operator takes one sign at a time, so they cannot take
the beginning of a comment either: a quick pass, which tries only the first rules, ends each line in
the same carry as a full one.
-/

namespace Linewise
namespace Builtin

/-- The rules: comments, strings, numbers, operators, names. -/
def cRules : List (RuleDescription Description) :=
  [ .lua (.one "//.*") "comment",
    .lua (.many ["/%*", "%*/"]) "comment",
    .lua (.many ["\"", "\"", "\\"]) "string",
    .lua (.many ["'", "'", "\\"]) "string",
    .lua (.one "0x%x+") "number",
    .lua (.one "%d+[%d%.eE]*f?") "number",
    .lua (.one "%.?%d+f?") "number",
    .lua (.one "[%+%-=/%*%^%%<>!~|&]") "operator",
    .lua (.one "##") "operator",
    { RuleDescription.lua (.one "struct%s()[%a_][%w_]*") "keyword" with
      label := some (.many ["keyword", "keyword2"]) },
    { RuleDescription.lua (.one "union%s()[%a_][%w_]*") "keyword" with
      label := some (.many ["keyword", "keyword2"]) },
    .lua (.one "[%a_][%w_]*%f[(]") "function",
    .lua (.one "#%s*[%a_][%w_]*") "keyword",
    .lua (.one "[%a_][%w_]*") "symbol" ]

/-- The texts that have labels of their own. -/
def cSymbols : List (String × String) :=
  Description.sortSymbols
    (Description.labelled "keyword"
      [
        "if", "then", "else", "do", "while", "for", "break", "continue", "return", "goto", "switch",
        "case", "default", "struct", "union", "enum", "typedef", "sizeof", "static", "extern",
        "inline", "const", "volatile", "register", "auto"
      ] ++
      Description.labelled "keyword2"
      [
        "void", "char", "short", "int", "long", "float", "double", "signed", "unsigned", "bool",
        "size_t"
      ] ++
      Description.labelled "literal"
      [
        "true", "false", "NULL"
      ])

/-- The grammar of C and C++. -/
def c : Description where
  name := some "c"
  extensions := ["c", "h", "cpp", "hpp", "cc", "cxx"]
  defaultLabel := none
  rules := cRules
  symbols := cSymbols

end Builtin
end Linewise
