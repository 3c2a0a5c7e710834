import EnvAudit.Script.Dialect

/-! What comes of the dialects that a source file is tried in. -/
namespace EnvAudit.Script

/-- A text that fits the first dialect is read in it, whatever its path. -/
theorem parseBy_of_fits (read : TreeReader) (path : Path) (source : String)
    (small : source.utf8ByteSize ≤ mostBytes) (fits : (read .tsx source).head.flawed = false) :
    parseBy read path source = .ok (read .tsx source) := by
  simp [parseBy, Nat.not_lt.mpr small, fits]

/-- A text that is no program is faulted under its path. -/
theorem parse_of_parseBy_error {read : TreeReader} {path : Path} {source : String} {fault : Fault}
    (failed : parseBy read path source = .error fault) : ∃ message position, fault = .parse path message position := by
  unfold parseBy at failed
  split at failed
  · cases failed
    exact ⟨_, _, rfl⟩
  · dsimp only at failed
    split at failed
    · split at failed
      · cases failed
      · cases failed
        unfold flawFault
        split <;> exact ⟨_, _, rfl⟩
    · cases failed

/-- A fault of a text names its file. -/
theorem path_of_parseBy_error {read : TreeReader} {path : Path} {source : String} {fault : Fault}
    (failed : parseBy read path source = .error fault) : fault.path? = some path := by
  obtain ⟨message, position, rfl⟩ := parse_of_parseBy_error failed
  rfl

end EnvAudit.Script
