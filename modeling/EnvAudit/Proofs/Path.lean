import EnvAudit.Path
import Mathlib.Data.List.TakeWhile

/-!
# Names of paths

A path is named by the last part of it that leads on to another place: neither what stands in front of that part nor
slashes and single dots behind it make a difference.
-/
namespace EnvAudit.Path

/-! ## Parts -/

theorem split_ne_nil (bytes : Bytes) : split bytes ≠ [] := by
  cases bytes with
  | nil => simp [split]
  | cons byte rest =>
    rw [split]
    split
    · simp
    · split <;> simp

theorem parts_ne_nil (path : Path) : path.parts ≠ [] := by
  simp [parts, split_ne_nil]

theorem split_append (front behind : Bytes) : split (front ++ slash :: behind) = split front ++ split behind := by
  induction front with
  | nil => simp [split]
  | cons byte rest ih =>
    rw [List.cons_append, split, split]
    by_cases ends : byte = slash
    · simp [ends, ih]
    · rw [if_neg ends, if_neg ends, ih]
      cases parted : split rest with
      | nil => exact absurd parted (split_ne_nil rest)
      | cons part parts => rfl

theorem split_entry {name : Bytes} (noSlash : slash ∉ name) : split name = [name] := by
  induction name with
  | nil => rfl
  | cons byte rest ih =>
    rw [List.mem_cons, not_or] at noSlash
    rw [split, if_neg (Ne.symm noSlash.1), ih noSlash.2]

theorem parts_append (front behind : Bytes) :
    parts ⟨front ++ slash :: behind⟩ = parts ⟨front⟩ ++ parts ⟨behind⟩ := by
  rw [parts, split_append, List.map_append]
  rfl

/-! ## The last part -/

/-- The last part of a path, but for slashes behind it and single dots behind slashes. -/
inductive EndsIn (last : Bytes) : Path → Prop
  | alone : EndsIn last ⟨last⟩
  | inside (directory : Bytes) : EndsIn last ⟨directory ++ slash :: last⟩
  | slash {path : Path} (ends : EndsIn last path) : EndsIn last ⟨path.bytes ++ [Path.slash]⟩
  | here {path : Path} (ends : EndsIn last path) : EndsIn last ⟨path.bytes ++ [Path.slash, dot]⟩

section Ends

variable {last : Bytes} {path : Path}

/-- The last part of a path that leads on is the one that it ends in. -/
theorem EndsIn.getLast (ends : EndsIn last path) (noSlash : Path.slash ∉ last)
    (leads : (Part.ofBytes last).stays = false) :
    (path.parts.filter fun part => !part.stays).getLast? = some (Part.ofBytes last) := by
  have only : parts ⟨last⟩ = [Part.ofBytes last] := by rw [parts, split_entry noSlash, List.map_singleton]
  induction ends with
  | alone => simp [only, leads]
  | inside directory => simp [parts_append, only, leads]
  -- What follows adds one part, which stays where it is and so is not among those that lead on.
  | slash ends ih =>
    have stays : parts ⟨[]⟩ = [.nothing] := rfl
    rw [parts_append, stays, List.filter_append]
    simpa [Part.stays] using ih
  | here ends ih =>
    have stays : parts ⟨[dot]⟩ = [.here] := rfl
    rw [parts_append, stays, List.filter_append]
    simpa [Part.stays] using ih

theorem EndsIn.fileName (ends : EndsIn last path) (noSlash : Path.slash ∉ last)
    (named : Part.ofBytes last = .name last) : path.fileName? = some last := by
  have found := ends.getLast noSlash (by rw [named]; rfl)
  rw [named] at found
  rw [fileName?, found]

/-- A path that ends by leading to the directory above has no name. -/
theorem EndsIn.fileName_up (ends : EndsIn [dot, dot] path) : path.fileName? = none := by
  rw [fileName?, ends.getLast (by decide) rfl]
  rfl

end Ends

/-! ## Extensions -/

/-- The extension of a name stands behind its last dot, and something stands in front of that dot. -/
theorem extensionOf_eq_some_iff {name extension : Bytes} : extensionOf name = some extension ↔
    ∃ stem, name = stem ++ dot :: extension ∧ stem ≠ [] ∧ dot ∉ extension := by
  constructor
  · intro found
    -- The name is read from its end, and the first dot that is met there is the last one of the name.
    have parted := List.takeWhile_append_dropWhile (p := (· ≠ dot)) (l := name.reverse)
    have stop := List.head?_dropWhile_not (· ≠ dot) name.reverse
    simp only [extensionOf] at found
    split at found
    · cases found
    · cases found
    next mark byte front dotted =>
      cases found
      rw [dotted] at parted stop
      obtain rfl : mark = dot := by simpa using stop
      refine ⟨(byte :: front).reverse, ?_, by simp, fun member => ?_⟩
      · have whole := List.reverse_eq_iff.mp parted.symm
        rwa [List.reverse_append, List.reverse_cons, List.append_assoc] at whole
      · simpa using List.mem_takeWhile_imp (List.mem_reverse.mp member)
  · rintro ⟨stem, rfl, some, undotted⟩
    have turned : (stem ++ dot :: extension).reverse = extension.reverse ++ dot :: stem.reverse := by simp
    have behind : ∀ byte ∈ extension.reverse, decide (byte ≠ dot) = true := by
      intro byte member
      simpa using fun same : byte = dot => undotted (same ▸ List.mem_reverse.mp member)
    simp only [extensionOf]
    rw [turned, List.takeWhile_append_of_pos behind, List.dropWhile_append_of_pos behind]
    obtain ⟨byte, front, reversed⟩ := List.exists_cons_of_ne_nil (mt List.reverse_eq_nil_iff.mp some)
    simp [reversed]

end EnvAudit.Path
