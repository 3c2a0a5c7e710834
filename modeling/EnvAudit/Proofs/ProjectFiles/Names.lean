import EnvAudit.ProjectFiles
import EnvAudit.Proofs.Path
import EnvAudit.Proofs.Text.Utf8
import EnvAudit.Script.Dialect

/-!
# Kinds of files by their names

What a file is taken for depends on the last name of its path alone: a source file by what stands behind the last dot of
the name, a declaration file by what the name begins with.
-/
namespace EnvAudit.Path

open Script (Dialect)

/-! ## The name decides -/

section Named

variable {path other : Path}

theorem hasExtension_congr (same : path.fileName? = other.fileName?) (extensions : List String) :
    path.hasExtension extensions = other.hasExtension extensions := by
  rw [hasExtension, hasExtension, extension?, extension?, same]

theorem isSource_congr (same : path.fileName? = other.fileName?) : path.isSource = other.isSource :=
  hasExtension_congr same sourceExtensions

theorem isDeclaration_congr (same : path.fileName? = other.fileName?) : path.isDeclaration = other.isDeclaration := by
  rw [isDeclaration, isDeclaration, same]

theorem candidates_congr (same : path.fileName? = other.fileName?) :
    Dialect.candidates path = Dialect.candidates other := by
  simp only [Dialect.candidates, Dialect.others, hasExtension_congr same]

/-- A path without a name is of no kind. -/
theorem unclassified (unnamed : path.fileName? = none) : path.isSource = false ∧ path.isDeclaration = false := by
  simp [isSource, hasExtension, extension?, isDeclaration, unnamed]

end Named

/-! ## Kinds of names -/

section Kinds

variable {name : Name}

theorem isSource_iff (alone : fileName? ⟨name⟩ = some name) : isSource ⟨name⟩ = true ↔
    ∃ stem extension, name = stem ++ dot :: extension ∧ stem ≠ [] ∧ dot ∉ extension ∧
      ∃ known ∈ sourceExtensions, extension = Text.Utf8.encode known := by
  rw [isSource, hasExtension, extension?, alone, Option.bind_some]
  constructor
  · intro found
    split at found
    next extension behind =>
      obtain ⟨stem, whole, some, undotted⟩ := extensionOf_eq_some_iff.mp behind
      obtain ⟨known, listed, same⟩ := List.any_eq_true.mp found
      exact ⟨stem, extension, whole, some, undotted, known, listed, (of_decide_eq_true same).symm⟩
    next => cases found
  · rintro ⟨stem, extension, whole, some, undotted, known, listed, same⟩
    rw [extensionOf_eq_some_iff.mpr ⟨stem, whole, some, undotted⟩]
    exact List.any_eq_true.mpr ⟨known, listed, decide_eq_true same.symm⟩

theorem isDeclaration_iff (alone : fileName? ⟨name⟩ = some name) : isDeclaration ⟨name⟩ = true ↔
    (∃ text, name = Text.Utf8.encode text) ∧ Text.Utf8.encode declarationStart <+: name := by
  rw [isDeclaration, alone]
  simp only [Bool.and_eq_true, List.isPrefixOf_iff_prefix, Text.Utf8.isValid_iff]

end Kinds

/-- What a path is taken for is what its last name is taken for, whatever stands in front of that name and however many
slashes and single dots follow it. A name is that of a source file if one of the known extensions stands behind its last
dot and something in front of it, and that of a declaration file if it is a text and begins as the names of these do. A
path that ends by leading to the directory above is neither. -/
theorem classified_by_name {name : Name} (some : name ≠ []) (notHere : name ≠ [dot]) (notUp : name ≠ [dot, dot])
    (noSlash : slash ∉ name) :
    (∀ path, EndsIn name path → path.isSource = isSource ⟨name⟩ ∧ path.isDeclaration = isDeclaration ⟨name⟩ ∧
      Dialect.candidates path = Dialect.candidates ⟨name⟩) ∧
    (isSource ⟨name⟩ = true ↔ ∃ stem extension, name = stem ++ dot :: extension ∧ stem ≠ [] ∧ dot ∉ extension ∧
      ∃ known ∈ sourceExtensions, extension = Text.Utf8.encode known) ∧
    (isDeclaration ⟨name⟩ = true ↔
      (∃ text, name = Text.Utf8.encode text) ∧ Text.Utf8.encode declarationStart <+: name) ∧
    ∀ path, EndsIn [dot, dot] path → path.isSource = false ∧ path.isDeclaration = false := by
  -- The name alone is a path that ends in it, so every other such path has the name that it has.
  have named : Part.ofBytes name = .name name := by simp [Part.ofBytes, some, notHere, notUp]
  have alone : fileName? ⟨name⟩ = .some name := EndsIn.alone.fileName noSlash named
  refine ⟨fun path ends => ?_, isSource_iff alone, isDeclaration_iff alone, fun path up => unclassified up.fileName_up⟩
  have same : path.fileName? = fileName? ⟨name⟩ := (ends.fileName noSlash named).trans alone.symm
  exact ⟨isSource_congr same, isDeclaration_congr same, candidates_congr same⟩

/-- The name of a file that declares and is a script. -/
def bothKinds : Name := Text.Utf8.encode ".env.js"

theorem classified_by_name_bothKinds :
    bothKinds ≠ [] ∧ bothKinds ≠ [dot] ∧ bothKinds ≠ [dot, dot] ∧ slash ∉ bothKinds ∧
      (ofString "..//.env.js/./").isSource = true ∧ (ofString "..//.env.js/./").isDeclaration = true ∧
      Dialect.candidates (ofString "..//.env.js/./") = [.tsx, .javaScript] := by
  have some : bothKinds ≠ [] := by decide +kernel
  have notHere : bothKinds ≠ [dot] := by decide +kernel
  have notUp : bothKinds ≠ [dot, dot] := by decide +kernel
  have noSlash : slash ∉ bothKinds := by decide +kernel
  obtain ⟨decides, source, declaration, -⟩ := classified_by_name some notHere notUp noSlash
  have ends : EndsIn bothKinds (ofString "..//.env.js/./") := by
    have spelled : ofString "..//.env.js/./" =
        ⟨(Text.Utf8.encode "../" ++ slash :: bothKinds) ++ [slash, dot] ++ [slash]⟩ := by decide +kernel
    rw [spelled]
    exact .slash (.here (.inside _))
  obtain ⟨isSource, isDeclaration, candidates⟩ := decides _ ends
  refine ⟨some, notHere, notUp, noSlash, isSource.trans (source.mpr ?_), isDeclaration.trans (declaration.mpr ?_),
    candidates.trans ?_⟩
  · exact ⟨Text.Utf8.encode ".env", Text.Utf8.encode "js", by decide +kernel⟩
  · exact ⟨⟨".env.js", rfl⟩, by decide +kernel⟩
  · decide +kernel

end EnvAudit.Path
