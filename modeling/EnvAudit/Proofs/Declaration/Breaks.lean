import EnvAudit.Proofs.Declaration.Exact

/-!
# Line breaks

The lines of a declaration file may end with line feeds, with carriage returns or with both, each in its own way, and a
byte order mark may stand in front of it: it declares the same entries. A text is read as another one exactly where it is
that one with its breaks written in such ways.
-/
namespace EnvAudit.Declaration

/-- A text and how it is written with breaks of any kind in place of its line feeds. A carriage return that is a break
does not stand in front of a line feed that is one, since they would be one break together. -/
inductive Rebroken : (text written : List Char) → Prop
  | nil : Rebroken [] []
  | char {c : Char} {text written : List Char} (inLine : c ≠ '\n') (rest : Rebroken text written) :
      Rebroken (c :: text) (c :: written)
  | feed {text written : List Char} (rest : Rebroken text written) : Rebroken ('\n' :: text) ('\n' :: written)
  | pair {text written : List Char} (rest : Rebroken text written) : Rebroken ('\n' :: text) ('\r' :: '\n' :: written)
  | carriage {text written : List Char} (rest : Rebroken text written) (apart : written.head? ≠ some '\n') :
      Rebroken ('\n' :: text) ('\r' :: written)

/-! ## Reading breaks -/

private theorem normalizeOnto_char {c : Char} (inLine : c ≠ '\r') (read rest : List Char) :
    normalizeOnto read (c :: rest) = normalizeOnto (c :: read) rest := by
  rw [normalizeOnto]
  · rintro left rfl
    exact absurd rfl inLine
  · exact inLine

private theorem normalizeOnto_carriage {rest : List Char} (apart : rest.head? ≠ some '\n') (read : List Char) :
    normalizeOnto read ('\r' :: rest) = normalizeOnto ('\n' :: read) rest := by
  rw [normalizeOnto]
  rintro left rfl
  exact apart rfl

private theorem normalizeOnto_rebroken {text written : List Char} (rebroken : Rebroken text written)
    (noReturn : '\r' ∉ text) (read : List Char) : normalizeOnto read written = read.reverse ++ text := by
  -- Each break is read as one line feed, and what is read so far does not matter for what follows.
  induction rebroken generalizing read with
  | nil => simp [normalizeOnto]
  | char inLine rest ih =>
    rw [List.mem_cons, not_or] at noReturn
    rw [normalizeOnto_char (Ne.symm noReturn.1), ih noReturn.2]
    simp
  | feed rest ih =>
    rw [normalizeOnto_char (by decide), ih (List.not_mem_of_not_mem_cons noReturn)]
    simp
  | pair rest ih =>
    rw [normalizeOnto, ih (List.not_mem_of_not_mem_cons noReturn)]
    simp
  | carriage rest apart ih =>
    rw [normalizeOnto_carriage apart, ih (List.not_mem_of_not_mem_cons noReturn)]
    simp

private theorem exists_rebroken (read written : List Char) :
    ∃ text, normalizeOnto read written = read.reverse ++ text ∧ '\r' ∉ text ∧ Rebroken text written := by
  fun_induction normalizeOnto read written with
  | case1 read => exact ⟨[], by simp, by simp, .nil⟩
  | case2 read rest ih =>
    obtain ⟨text, same, noReturn, rebroken⟩ := ih
    exact ⟨'\n' :: text, by simp [same], by simp [noReturn], .pair rebroken⟩
  | case3 read rest other ih =>
    obtain ⟨text, same, noReturn, rebroken⟩ := ih
    refine ⟨'\n' :: text, by simp [same], by simp [noReturn], .carriage rebroken fun first => ?_⟩
    obtain ⟨left, begins⟩ := List.head?_eq_some_iff.mp first
    exact other left begins
  | case4 read c rest pair single ih =>
    obtain ⟨text, same, noReturn, rebroken⟩ := ih
    have apart : '\r' ∉ c :: text := by
      rw [List.mem_cons, not_or]
      exact ⟨fun same => single same.symm, noReturn⟩
    by_cases feed : c = '\n'
    · subst feed
      exact ⟨'\n' :: text, by simp [same], apart, .feed rebroken⟩
    · exact ⟨c :: text, by simp [same], apart, .char feed rebroken⟩

/-- The text as which another one is read has line feeds alone, and is written in the other one with breaks of any kind. -/
theorem normalizeBreaks_eq_iff {text written : List Char} :
    normalizeBreaks written = text ↔ '\r' ∉ text ∧ Rebroken text written := by
  constructor
  · rintro rfl
    obtain ⟨text, same, noReturn, rebroken⟩ := exists_rebroken [] written
    rw [normalizeBreaks_eq, same]
    exact ⟨noReturn, rebroken⟩
  · rintro ⟨noReturn, rebroken⟩
    rw [normalizeBreaks_eq]
    exact normalizeOnto_rebroken rebroken noReturn []

/-! ## Entries -/

private theorem head_rebroken {text written : List Char} (rebroken : Rebroken text written)
    (noMark : text.head? ≠ some '\ufeff') : written.head? ≠ some '\ufeff' := by
  cases rebroken with
  | nil => simp
  | char => simpa using noMark
  | feed => simp
  | pair => simp
  | carriage => simp

theorem normalize_of_head {text : List Char} (noMark : text.head? ≠ some '\ufeff') :
    normalize text = normalizeBreaks text := by
  unfold normalize
  split
  · exact absurd rfl noMark
  · rfl

/-- A text declares the same entries however its line breaks are written, between quotes too, with or without a byte
order mark. -/
theorem entries_rebroken {text written : String} (noReturn : '\r' ∉ text.toList)
    (noMark : text.toList.head? ≠ some '\ufeff') (rebroken : Rebroken text.toList written.toList) :
    entries written = entries text ∧ entries ("\ufeff" ++ written) = entries text := by
  have read : normalizeBreaks written.toList = text.toList := normalizeBreaks_eq_iff.mpr ⟨noReturn, rebroken⟩
  have plain : normalize written.toList = text.toList := by
    rw [normalize_of_head (head_rebroken rebroken noMark), read]
  have marked : normalize ("\ufeff" ++ written).toList = text.toList := by
    rw [String.toList_append]
    exact read
  simp only [entries_eq_readAll, plain, marked, normalize_eq_self noReturn noMark, and_self]

/-- Breaks of all kinds, among them a carriage return in front of a pair between quotes. -/
theorem entries_rebroken_mixed : '\r' ∉ "A='\n\nx'\nB=1\n".toList ∧ "A='\n\nx'\nB=1\n".toList.head? ≠ some '\ufeff' ∧
    Rebroken "A='\n\nx'\nB=1\n".toList "A='\r\r\nx'\nB=1\r".toList ∧
    entries "A='\r\r\nx'\nB=1\r" = [("A", "\n\nx"), ("B", "1")] ∧
    entries ("\ufeff" ++ "A='\r\r\nx'\nB=1\r") = [("A", "\n\nx"), ("B", "1")] := by
  have noReturn : '\r' ∉ "A='\n\nx'\nB=1\n".toList := by decide +kernel
  have noMark : "A='\n\nx'\nB=1\n".toList.head? ≠ some '\ufeff' := by decide +kernel
  have rebroken : Rebroken "A='\n\nx'\nB=1\n".toList "A='\r\r\nx'\nB=1\r".toList :=
    (normalizeBreaks_eq_iff.mp (by decide +kernel)).2
  have declared : entries "A='\n\nx'\nB=1\n" = [("A", "\n\nx"), ("B", "1")] := by decide +kernel
  obtain ⟨plain, marked⟩ := entries_rebroken noReturn noMark rebroken
  exact ⟨noReturn, noMark, rebroken, plain.trans declared, marked.trans declared⟩

end EnvAudit.Declaration
