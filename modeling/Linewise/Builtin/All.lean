import Linewise.Builtin.C
import Linewise.Builtin.Markdown
import Linewise.Builtin.Python
import Linewise.Builtin.Toml

/-!
# The built-in grammars

They are registered in this order. The order matters only to those who look at the registry while it
happens: the fenced blocks of Markdown refer to the other grammars by name.
-/

namespace Linewise
namespace Builtin

/-- The descriptions of all built-in grammars. -/
def all : List Description := [c, python, toml, markdown]

end Builtin
end Linewise
