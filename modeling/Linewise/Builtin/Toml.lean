import Linewise.Grammar.Description

/-!
# The grammar of TOML

Strings in three quotes come before strings in one, and headers with two brackets before headers
with one. A key is what stands before an equals sign.
-/

namespace Linewise
namespace Builtin

/-- The rules: comments, strings, headers, dates, numbers, keys, signs, words. -/
def tomlRules : List (RuleDescription Description) :=
  [ .lua (.one "#.*") "comment",
    .lua (.many ["\"\"\"", "\"\"\"", "\\"]) "string",
    .lua (.many ["'''", "'''"]) "string",
    .lua (.many ["\"", "\"", "\\"]) "string",
    .lua (.many ["'", "'"]) "string",
    .lua (.one "^%s*%[%[[^%]]+%]%]") "keyword",
    .lua (.one "^%s*%[[^%]]+%]") "keyword",
    .lua (.one "%d%d%d%d%-%d%d%-%d%d[T ]?[%d:%.]*Z?") "number",
    .lua (.one "[%+%-]?%d[%d_%.eE]*") "number",
    { RuleDescription.lua (.one "[%w_%-%.]+()%s*=") "function" with
      label := some (.many ["function", "operator"]) },
    .lua (.one "[%[%]\x7b\x7d,=]") "operator",
    .lua (.one "[%a_][%w_%-]*") "symbol" ]

/-- The texts that have labels of their own. -/
def tomlSymbols : List (String × String) :=
  Description.sortSymbols
    (Description.labelled "literal"
      [
        "true", "false", "inf", "nan"
      ])

/-- The grammar of TOML. -/
def toml : Description where
  name := some "toml"
  extensions := ["toml"]
  defaultLabel := none
  rules := tomlRules
  symbols := tomlSymbols

end Builtin
end Linewise
