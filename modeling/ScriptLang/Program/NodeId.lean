/-!
# Node numbers

The nodes of a program are numbered in the order in which they are added, from
zero on.
-/

namespace ScriptLang

/-- The number of a node in its program. -/
abbrev NodeId := Nat

end ScriptLang
