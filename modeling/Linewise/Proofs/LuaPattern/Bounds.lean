import Linewise.Proofs.LuaPattern.Places

/-!
# The machine stays in the text

Every position that the machine remembers lies in the text: where it stands, where it may return to,
where it met a frontier, and where it closed captures. This is `InText`. It holds at the start of a
match and every turn keeps it, since the positions in the text are places among which an advance
stays: the machine reads only in front of the end of the text.
-/

namespace Linewise
namespace LuaPattern

variable {cfg : Setting} {s s' : State}

/-- Every position that the machine remembers lies in the text. -/
structure InText (cfg : Setting) (s : State) : Prop where
  /-- Where it stands. -/
  position_le : s.position ≤ cfg.text.size
  /-- Where it may return to. -/
  retry_le : ∀ point, s.retry = some point → point ≤ cfg.text.size
  /-- Where it met a frontier. -/
  met_le : ∀ place met, s.frontier = some (place, met) → met ≤ cfg.text.size
  /-- Where it closed captures. -/
  closes_le : ∀ close ∈ s.closes, close ≤ cfg.text.size

theorem inText_iff : InText cfg s ↔ Remembers (· ≤ cfg.text.size) s :=
  ⟨fun h => ⟨h.position_le, h.retry_le, h.met_le, h.closes_le⟩,
    fun h => ⟨h.position, h.retry, h.met, h.closes⟩⟩

theorem inText_of_start {pattern : Source} {text : Text} {offset : Nat}
    (h : start pattern text offset = .ready cfg s) : InText cfg s := by
  obtain ⟨hle, ⟨cursor, rfl, -⟩, -, htext, -, -⟩ := start_eq_ready h
  exact inText_iff.mpr (remembers_atStart (by rw [htext]; exact hle))

/-- **Every turn stays in the text.** -/
theorem inText_of_turns (h : InText cfg s) (hturn : Turns cfg s s') : InText cfg s' :=
  inText_iff.mpr ((places_le_size cfg.text).turns (inText_iff.mp h) hturn)

end LuaPattern
end Linewise
