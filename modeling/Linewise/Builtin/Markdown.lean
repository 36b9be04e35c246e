import Linewise.Grammar.Description

/-!
# The grammar of Markdown

A fenced block that is tagged `c` or `python` is tokenized with the grammar of that name; any other
fenced block is a string.
-/

namespace Linewise
namespace Builtin

/-- The rules: fenced blocks, comments, headings, lists, code, emphasis, links. -/
def markdownRules : List (RuleDescription Description) :=
  [ { RuleDescription.lua (.many ["^```c%s*$", "^```"]) "string" with
      nested := some (.named "c") },
    { RuleDescription.lua (.many ["^```python%s*$", "^```"]) "string" with
      nested := some (.named "python") },
    .lua (.many ["^```", "^```"]) "string",
    .lua (.many ["<!%-%-", "%-%->"]) "comment",
    .lua (.one "^#+%s.*") "keyword",
    .lua (.one "^%s*[%*%-+]%s") "operator",
    .lua (.one "`[^`]*`") "string",
    .lua (.one "%*%*[^%*]+%*%*") "keyword2",
    .lua (.one "%*[^%*%s][^%*]*%*") "keyword2",
    { RuleDescription.lua (.one "%[()[^%]]*()%]%([^%)]*%)") "operator" with
      label := some (.many ["operator", "function", "operator"]) },
    .lua (.one "https?://%S+") "function" ]

/-- The grammar of Markdown. -/
def markdown : Description where
  name := some "markdown"
  extensions := ["md", "markdown", "mkd"]
  defaultLabel := none
  rules := markdownRules
  symbols := []

end Builtin
end Linewise
