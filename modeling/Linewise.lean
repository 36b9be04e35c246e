import Linewise.Document
import Linewise.Registry.Sources
import Linewise.Proofs.LuaPattern.Reading
import Linewise.Proofs.Text.CharStart
import Linewise.Proofs.LuaPattern.Turn
import Linewise.Proofs.LuaPattern.Bounds
import Linewise.Proofs.Regex.Bounds
import Linewise.Proofs.Tokenizer.RunLength
import Linewise.Proofs.Tokenizer.Progress
import Linewise.Proofs.Tokenizer.Coverage
import Linewise.Proofs.Carry
import Linewise.Proofs.Grammar.Stateful
import Linewise.Proofs.Tokenizer.Resumption
import Linewise.Proofs.Tokenizer.QuickPass
import Linewise.Proofs.LuaPattern.Trace
import Linewise.Proofs.LuaPattern.Barrier
import Linewise.Proofs.LuaPattern.Alike
import Linewise.Proofs.LuaPattern.Circling
import Linewise.Proofs.LuaPattern.Template
import Linewise.Proofs.LuaPattern.Spelling
import Linewise.Proofs.LuaPattern.LeftToRight
import Linewise.Proofs.LuaPattern.Elements
import Linewise.Proofs.LuaPattern.Exhaustion
import Linewise.Proofs.LuaPattern.Passage
import Linewise.Proofs.LuaPattern.Course
import Linewise.Proofs.LuaPattern.Exactness
import Linewise.Proofs.LuaPattern.Soundness
import Linewise.Proofs.CarryCache
import Linewise.Proofs.Grammar.Building
import Linewise.Proofs.Grammar.References
import Linewise.Proofs.Grammar.Resolving
import Linewise.Proofs.Registry.Named
import Linewise.Proofs.Registry.Slots
import Linewise.Proofs.Registry.Loading
import Linewise.Proofs.Registry.Calls
import Linewise.Proofs.Registry.Closure
import Linewise.Proofs.Registry.LoadOrder
import Linewise.Proofs.LuaPattern.Places
import Linewise.Proofs.Tokenizer.Unrolling
import Linewise.Proofs.Tokenizer.OpenPath
import Linewise.Proofs.Grammar.WellFormed
import Linewise.Proofs.LuaPattern.Passed
import Linewise.Proofs.Text.Encoded
import Linewise.Proofs.LuaPattern.Literal
import Linewise.Proofs.Builtin.CMode
import Linewise.Proofs.Builtin.CTracking
import Linewise.Proofs.Builtin.C
import Linewise.Proofs.Grammar.FirstFault
import Linewise.Proofs.Tokenizer.Indexed
import Linewise.Proofs.LuaPattern.CharBoundaries
import Linewise.Proofs.LuaPattern.CloseCount
import Linewise.Proofs.LuaPattern.Tally
import Linewise.Proofs.LuaPattern.BoundaryShape
import Linewise.Proofs.LuaPattern.OptionalTail
import Linewise.Proofs.LuaPattern.InRange
import Linewise.Proofs.LuaPattern.Verbatim
import Linewise.Proofs.LuaPattern.Escapes
import Linewise.Proofs.LuaPattern.LazyEnd
import Linewise.Proofs.LuaPattern.LazySearch
import Linewise.Proofs.Tokenizer.RestOfLine
import Linewise.Proofs.Tokenizer.Escaping
import Linewise.Proofs.Tokenizer.NestedEscaping
import Linewise.Proofs.Tokenizer.EmptyMatches
import Linewise.Proofs.Tokenizer.CharCuts
import Linewise.Proofs.Tokenizer.Pruning
import Linewise.Proofs.CarryLevels
import Linewise.Proofs.Grammar.Symbols
import Linewise.Proofs.Regex.BoundaryShape
import Linewise.Proofs.LuaPattern.ClosePlaces
import Linewise.Proofs.LuaPattern.TailBoundaries
