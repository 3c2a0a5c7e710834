import EnvAudit.Proofs.Declaration.Exact

/-!
# Lines

A text without quotes is read line by line: what each of its lines declares alone, it declares in the text, and nothing
else is declared. Two kinds of breaks are read across, though: one behind the colon of a key, and one between a key and
its equals sign.
-/
namespace EnvAudit.Declaration

open EnvAudit.Text (isBlank dropWhile_append_of_begun)

/-- What the lines of a text declare, each of them read alone. -/
def lineByLine (text : String) : Entries :=
  (text.toList.splitOn '\n').foldl (fun known line => known.putAll (entries (String.ofList line))) []

/-- The break behind a line parts it from the text that follows. -/
structure Parted (line rest : List Char) : Prop where
  /-- No key and its colon are all of the line, where the break would be the white space behind the colon. -/
  colon : ¬ Begins line [':']
  /-- Where a key is all of the line, no equals sign follows it. -/
  equals : ∀ blanks, Begins line blanks → (∀ c ∈ blanks, isBlank c = true) →
    ∀ c ∈ (rest.dropWhile isBlank).head?, c ≠ '='

/-- Every break parts the lines before it from those behind it. -/
inductive Apart : List (List Char) → Prop
  | last (line : List Char) : Apart [line]
  | before {line next : List Char} {lines : List (List Char)}
      (parted : Parted line (List.intercalate ['\n'] (next :: lines))) (apart : Apart (next :: lines)) :
      Apart (line :: next :: lines)

/-! ## One line -/

theorem Begins.behind_blanks {line behind : List Char} (begins : Begins line behind) {blanks : List Char}
    (blank : ∀ c ∈ blanks, isBlank c = true) : Begins (blanks ++ line) behind := by
  have both {more : List Char} (also : ∀ c ∈ more, isBlank c = true) : ∀ c ∈ blanks ++ more, isBlank c = true := by
    intro c member
    exact (List.mem_append.mp member).elim (blank c) (also c)
  cases begins with
  | key key also =>
    rw [← List.append_assoc]
    exact .key key (both also)
  | exported key also some_ gapBlank =>
    rw [← List.append_assoc]
    exact .exported key (both also) some_ gapBlank

/-- Behind a parted line no key of the line finds its separator. -/
private theorem separator_parted {line rest behind : List Char} (parted : Parted line rest)
    (begins : Begins line behind) (unseparated : separator? behind = none) :
    separator? (behind ++ '\n' :: rest) = none := by
  have keyed (blank : ∀ c ∈ behind, isBlank c = true) :
      ∀ c ∈ ((behind ++ '\n' :: rest).dropWhile isBlank).head?, c ≠ '=' := by
    rw [List.dropWhile_append_of_pos blank, List.dropWhile_cons_of_pos (by decide)]
    exact parted.equals behind begins blank
  cases behind with
  | nil => exact separator_none (by simp) (keyed (by simp))
  | cons c left =>
    by_cases colon : c = ':'
    · subst colon
      cases left with
      | nil => exact absurd begins parted.colon
      | cons d left =>
        have solid : isBlank d = false := by simpa [separator?] using unseparated
        simp [separator?, solid]
    · -- Without a colon, only an equals sign behind white space could still separate.
      have first : ∀ d ∈ (c :: left).head?, d ≠ ':' := by
        rintro d ⟨⟩
        exact colon
      refine separator_none first ?_
      cases begun : (c :: left).dropWhile isBlank with
      | nil => exact keyed (List.dropWhile_eq_nil_iff.mp begun)
      | cons d inner =>
        rw [dropWhile_append_of_begun begun]
        rintro e ⟨⟩ rfl
        cases unseparated.symm.trans (separator_equals first begun)

section Line

variable {line rest : List Char}

/-- The entry of a line is read in front of any rest without quotes, and ends before it. -/
private theorem readAll_opened (quoteless : ∀ c ∈ line ++ rest, isQuote c = false) (noBreak : '\n' ∉ line)
    (starts : ∀ c ∈ rest.head?, c = '\n') {key behind : List Char}
    (opened : opening? (line.dropWhile isBlank) = some (key, behind)) (known : Entries) :
    readAll known (line ++ rest) =
      readAll (known.put (String.ofList key) (String.ofList (plainValue behind).1)) rest := by
  have within : behind <:+ line := (opening_suffix opened).trans (List.dropWhile_suffix isBlank)
  have trimmed : (line ++ rest).dropWhile isBlank = line.dropWhile isBlank ++ rest := by
    cases begun : line.dropWhile isBlank with
    | nil =>
      rw [begun] at opened
      cases opened
    | cons c left => exact dropWhile_append_of_begun begun
  have unquoted : ∀ c ∈ ((behind ++ rest).dropWhile isBlank).head?, isQuote c = false := by
    intro c first
    have member := List.dropWhile_subset isBlank (List.mem_of_mem_head? first)
    refine quoteless c (List.mem_append.mpr ((List.mem_append.mp member).imp_left fun inside => ?_))
    exact within.subset inside
  obtain ⟨front, comment, rfl, stops⟩ := exists_cut (fun member => noBreak (within.subset member))
  obtain ⟨taken, ended⟩ := plainValue_cut starts stops comment
  have ends : ∀ c ∈ ([] : List Char).head?, c = '\n' := by simp
  obtain ⟨alone, -⟩ := plainValue_cut ends stops comment
  rw [List.append_nil] at alone
  rw [List.append_assoc] at unquoted
  rw [readAll_of_opening known (by rw [trimmed, opening_append opened]), List.append_assoc, value_of_not_quote unquoted,
    ended, taken, alone]

/-- A line declares in front of a rest what it declares alone, and leaves the rest as it is. -/
theorem readAll_line (quoteless : ∀ c ∈ line ++ rest, isQuote c = false) (noBreak : '\n' ∉ line)
    (starts : ∀ c ∈ rest.head?, c = '\n')
    (closed : ∀ behind, Begins line behind → separator? behind = none → separator? (behind ++ rest) = none)
    (known : Entries) : readAll known (line ++ rest) = readAll (known.putAll (readAll [] line)) rest := by
  have ends : ∀ c ∈ ([] : List Char).head?, c = '\n' := by simp
  cases opened : opening? (line.dropWhile isBlank) with
  | some found =>
    obtain ⟨key, behind⟩ := found
    have alone : readAll [] line = [(String.ofList key, String.ofList (plainValue behind).1)] := by
      have inLine : ∀ c ∈ line ++ [], isQuote c = false := by
        rw [List.append_nil]
        exact fun c member => quoteless c (List.mem_append_left _ member)
      have read := readAll_opened inLine noBreak ends opened []
      rw [List.append_nil] at read
      exact read
    rw [readAll_opened quoteless noBreak starts opened, alone]
    rfl
  | none =>
    have alone : readAll [] line = [] := by
      have read := readAll_passed ends noBreak (.inl (by rw [List.append_nil, opened])) []
      rw [List.append_nil] at read
      exact read
    have passed := opening_behind starts opened fun behind begins => closed behind (by
      rw [← List.takeWhile_append_dropWhile (p := isBlank) (l := line)]
      exact begins.behind_blanks fun c => List.mem_takeWhile_imp)
    rw [readAll_passed starts noBreak passed, alone]
    rfl

end Line

/-! ## All lines -/

private theorem readAll_lines {text : List Char} (quoteless : ∀ c ∈ text, isQuote c = false) (noReturn : '\r' ∉ text)
    (noMark : '\ufeff' ∉ text) (apart : Apart (text.splitOn '\n')) (known : Entries) :
    readAll known text =
      (text.splitOn '\n').foldl (fun known line => known.putAll (entries (String.ofList line))) known := by
  have alone {line : List Char} (within : line ⊆ text) : entries (String.ofList line) = readAll [] line := by
    have unmarked : line.head? ≠ some '\ufeff' := fun first => noMark (within (List.mem_of_mem_head? first))
    rw [entries_eq_readAll, String.toList_ofList, normalize_eq_self (fun member => noReturn (within member)) unmarked]
  -- By lines from the front: behind the first break the text is shorter.
  induction measured : text.length using Nat.strong_induction_on generalizing text known with
  | _ size ih =>
    by_cases broken : '\n' ∈ text
    · obtain ⟨line, rest, rfl, noBreak⟩ := List.eq_append_cons_of_mem broken
      have behind : rest ⊆ line ++ '\n' :: rest := by simp
      rw [List.splitOn_append_cons_self_of_not_mem noBreak] at apart ⊢
      obtain ⟨next, lines, others⟩ := List.exists_cons_of_ne_nil (List.splitOn_ne_nil '\n' rest)
      rw [others] at apart
      obtain ⟨⟩ | ⟨parted, apart⟩ := apart
      rw [← others, List.intercalate_splitOn] at parted
      rw [← others] at apart
      rw [List.foldl_cons, alone (by simp),
        readAll_line quoteless noBreak (by simp) fun _ => separator_parted parted]
      have shorter : rest.length < size := by
        rw [← measured, List.length_append, List.length_cons]
        omega
      rw [← ih rest.length shorter (fun c member => quoteless c (behind member)) (fun member => noReturn (behind member))
        (fun member => noMark (behind member)) apart _ (fun inside => alone fun c member => behind (inside member)) rfl]
      exact @readAll_blanks ['\n'] (by simp [isBlank]) _ rest
    · rw [List.splitOn_eq_singleton broken, List.foldl_cons, List.foldl_nil, alone (List.Subset.refl _)]
      have inText : ∀ c ∈ text ++ [], isQuote c = false := by rwa [List.append_nil]
      have read := readAll_line inText broken (by simp) (by simp) known
      rw [List.append_nil] at read
      exact read

/-- A text without quotes whose breaks part its lines declares what its lines declare, each of them read alone: every key
stands where a line declares it first and has the value that a line declares last. -/
theorem entries_eq_lineByLine {text : String} (quoteless : ∀ c ∈ text.toList, isQuote c = false)
    (noReturn : '\r' ∉ text.toList) (noMark : '\ufeff' ∉ text.toList) (apart : Apart (text.toList.splitOn '\n')) :
    entries text = lineByLine text := by
  have unmarked : text.toList.head? ≠ some '\ufeff' := fun first => noMark (List.mem_of_mem_head? first)
  rw [entries_eq_readAll, normalize_eq_self noReturn unmarked, readAll_lines quoteless noReturn noMark apart]
  rfl

/-- The word `export` alone, a key without a separator, a key that is assigned again, and at the end a key with its
colon. -/
def looseLines : String := "export\nA = 1 # =\n\n B\t\nC: x\nA=2\nD:"

private theorem apart_looseLines : Apart (looseLines.toList.splitOn '\n') := by
  have lines : looseLines.toList.splitOn '\n' = ["export".toList, "A = 1 # =".toList, [], " B\t".toList, "C: x".toList,
      "A=2".toList, "D:".toList] := by decide +kernel
  have parted {line rest : List Char} (colon : ¬ [':'] <:+ line) (equals : (rest.dropWhile isBlank).head? ≠ some '=') :
      Parted line rest := ⟨fun begins => colon begins.suffix, fun _ _ _ c first same => equals (same ▸ first)⟩
  rw [lines]
  refine .before (parted ?_ ?_) (.before (parted ?_ ?_) (.before (parted ?_ ?_) (.before (parted ?_ ?_)
    (.before (parted ?_ ?_) (.before (parted ?_ ?_) (.last _))))))
  all_goals decide +kernel

theorem entries_looseLines : (∀ c ∈ looseLines.toList, isQuote c = false) ∧ '\r' ∉ looseLines.toList ∧
    '\ufeff' ∉ looseLines.toList ∧ Apart (looseLines.toList.splitOn '\n') ∧
    entries looseLines = lineByLine looseLines ∧ lineByLine looseLines = [("A", "2"), ("C", "x")] := by
  have quoteless : ∀ c ∈ looseLines.toList, isQuote c = false := by simp [looseLines, isQuote]
  have noReturn : '\r' ∉ looseLines.toList := by decide +kernel
  have noMark : '\ufeff' ∉ looseLines.toList := by decide +kernel
  have read := entries_eq_lineByLine quoteless noReturn noMark apart_looseLines
  exact ⟨quoteless, noReturn, noMark, apart_looseLines, read, by decide +kernel⟩

/-- A text without quotes need not be read line by line: a key that ends its line with a colon takes the next line, an
assignment, for its value. -/
theorem exists_entries_ne_lineByLine : ¬ ∀ text : String, (∀ c ∈ text.toList, isQuote c = false) →
    '\r' ∉ text.toList → '\ufeff' ∉ text.toList → entries text = lineByLine text := by
  intro always
  have whole : entries "A:\nB=1" = [("A", "B=1")] := by decide +kernel
  have alone : lineByLine "A:\nB=1" = [("B", "1")] := by decide +kernel
  have same := always "A:\nB=1" (by simp [isQuote]) (by decide +kernel) (by decide +kernel)
  rw [whole, alone] at same
  exact absurd same (by decide)

/-- So does a key that the next line goes on with an equals sign. -/
example : entries "A\n=1" = [("A", "1")] ∧ lineByLine "A\n=1" = [] := by decide +kernel

end EnvAudit.Declaration
