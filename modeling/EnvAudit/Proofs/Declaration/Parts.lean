import EnvAudit.Proofs.Declaration.Opening

/-!
# Parts of documents

What the reader makes of each part of a line in front of any text that can follow a line of a document.
-/
namespace EnvAudit.Declaration

open EnvAudit.Text (isBlank trim trimStart trimEnd takeWhile_of_stop dropWhile_of_stop dropWhile_append_of_begun)

/-! ## Stretches of characters -/

private theorem isBlank_of_space {c : Char} (space : c = ' ' ∨ c = '\t') : isBlank c = true := by
  rcases space with rfl | rfl <;> decide

theorem blank_margin (margin : Margin) : ∀ c ∈ margin.val, isBlank c = true :=
  fun c member => isBlank_of_space (margin.property c member)

/-! ## What follows a line -/

/-- What may follow a line: nothing, or a line feed and then a text that neither goes on with a separator nor begins
with a quote. -/
structure Follows (rest : List Char) : Prop where
  line : ∀ c ∈ rest.head?, c = '\n'
  begun : ∀ c ∈ (rest.dropWhile isBlank).head?, c ≠ '=' ∧ isQuote c = false

/-- A comment up to the end of its line declares nothing. -/
theorem readAll_comment {rest : List Char} (starts : ∀ c ∈ rest.head?, c = '\n') (comment : Option Line)
    (entries : Entries) : readAll entries (commentText comment ++ rest) = readAll entries rest := by
  cases comment with
  | none => rfl
  | some comment =>
    have within : ∀ c ∈ '#' :: comment.val, decide (c ≠ '\n') = true := by
      intro c member
      rcases List.mem_cons.mp member with rfl | inside
      · decide
      · simpa using fun same : c = '\n' => comment.property (same ▸ inside)
    have behind : ∀ c ∈ rest.head?, decide (c ≠ '\n') = false := fun c first => by simp [starts c first]
    have mark : (commentText (some comment) ++ rest).dropWhile isBlank = commentText (some comment) ++ rest := by
      simp [commentText, isBlank]
    rw [readAll_of_not_opening entries (by rw [mark]; exact opening_comment _), mark, commentText,
      dropWhile_of_stop within behind]

/-- Behind a value an entry can always end. -/
theorem ending_of_follows {rest : List Char} (follows : Follows rest) (after : Margin) (comment : Option Line) :
    ∃ behind, ending? (after.val ++ (commentText comment ++ rest)) = some behind := by
  unfold ending?
  rw [List.dropWhile_append_of_pos (blank_margin after), List.takeWhile_append_of_pos (blank_margin after)]
  split
  · exact ⟨_, rfl⟩
  next c left begun =>
    split
    · exact ⟨_, rfl⟩
    next unmarked =>
      cases comment with
      | some comment =>
        simp [commentText, isBlank] at begun
        exact absurd begun.1.symm unmarked
      | none =>
        cases rest with
        | nil => simp [commentText] at begun
        | cons first rest =>
          obtain rfl := follows.line first rfl
          simp [commentText, isBlank]

/-! ## Openings -/

/-- Behind a separator there is nothing of it but white space. -/
theorem separator_text (separator : Separator) :
    ∃ blanks : Margin, ∀ rest, separator? (separator.text ++ rest) = some (blanks.val ++ rest) := by
  cases separator with
  | equals before after =>
    refine ⟨after, fun rest => separator_equals ?_ ?_⟩
    · obtain ⟨_ | ⟨c, before⟩, spaces⟩ := before
      · simp [Separator.text]
      · rcases spaces c (by simp) with rfl | rfl <;> simp [Separator.text]
    · rw [Separator.text, List.append_assoc, List.dropWhile_append_of_pos (blank_margin before)]
      rfl
  | colon gap =>
    obtain ⟨⟨_ | ⟨c, gap⟩, spaces⟩, some⟩ := gap
    · exact absurd rfl some
    · refine ⟨⟨gap, fun c member => spaces c (List.mem_cons_of_mem _ member)⟩, fun rest => ?_⟩
      simp [Separator.text, separator?, isBlank_of_space (spaces c (by simp))]

/-- A key and a separator are read as such. -/
theorem key_text (key : KeyText) (separator : Separator) :
    ∃ blanks : Margin, ∀ rest, key? (key.val ++ (separator.text ++ rest)) = some (key.val, blanks.val ++ rest) := by
  obtain ⟨blanks, separated⟩ := separator_text separator
  refine ⟨blanks, fun rest => ?_⟩
  have stop : ∀ c ∈ (separator.text ++ rest).head?, isKeyChar c = false := by
    cases separator with
    | equals before after =>
      obtain ⟨_ | ⟨c, before⟩, spaces⟩ := before
      · simp [Separator.text, isKeyChar]
      · simpa [Separator.text] using not_isKeyChar_of_isBlank (isBlank_of_space (spaces c (by simp)))
    | colon gap => simp [Separator.text, isKeyChar]
  exact key_of_separator key.property.1 key.property.2 stop (separated rest)

theorem opening_text (exported : Option Gap) (key : KeyText) (separator : Separator) :
    ∃ blanks : Margin, ∀ rest, opening? (Assignment.exportText exported ++ (key.val ++ (separator.text ++ rest))) =
      some (key.val, blanks.val ++ rest) := by
  obtain ⟨blanks, found⟩ := key_text key separator
  refine ⟨blanks, fun rest => ?_⟩
  cases exported with
  | none => exact opening_of_key (found rest)
  | some gap =>
    obtain ⟨⟨_ | ⟨c, gap⟩, spaces⟩, some⟩ := gap
    · exact absurd rfl some
    · have blanks : ∀ d ∈ gap, isBlank d = true :=
        fun d member => isBlank_of_space (spaces d (List.mem_cons_of_mem _ member))
      have stop : ∀ d ∈ (key.val ++ (separator.text ++ rest)).head?, isBlank d = false := by
        obtain ⟨_ | ⟨first, key⟩, some, members⟩ := key
        · exact absurd rfl some
        · simpa using not_isBlank_of_isKeyChar (members first (by simp))
      simp only [Assignment.exportText, List.append_assoc, List.cons_append]
      exact opening_export (isBlank_of_space (spaces c (by simp))) (by rw [dropWhile_of_stop blanks stop, found rest])

/-! ## Noise -/

section Noise

variable {line rest : List Char}

private theorem separator_noise (separated : ∀ c ∈ line, c ≠ '=' ∧ c ≠ ':') (follows : Follows rest) :
    separator? (line ++ rest) = none := by
  apply separator_none
  · cases line with
    | nil =>
      rintro c first rfl
      cases follows.line _ first
    | cons c line => simpa using (separated c (by simp)).2
  · intro c first
    cases begun : line.dropWhile isBlank with
    | nil =>
      rw [List.dropWhile_append_of_pos (List.dropWhile_eq_nil_iff.mp begun)] at first
      exact (follows.begun c first).1
    | cons d left =>
      rw [dropWhile_append_of_begun begun] at first
      cases first
      exact (separated c (List.dropWhile_subset isBlank (by simp [begun]))).1

/-- Noise declares nothing. Only the word `export` at its end is read on, and what stands behind it is then read as it
is read without that word. -/
theorem opening_noise (separated : ∀ c ∈ line, c ≠ '=' ∧ c ≠ ':') (follows : Follows rest) :
    opening? (line ++ rest) = none ∨ opening? (line ++ rest) = opening? (rest.dropWhile isBlank) := by
  have nothing : Follows [] := ⟨by simp, by simp⟩
  have within {behind : List Char} (suffix : behind <:+ line) : ∀ c ∈ behind, c ≠ '=' ∧ c ≠ ':' :=
    fun c member => separated c (suffix.subset member)
  have unopened : opening? line = none := by
    cases opened : opening? line with
    | none => rfl
    | some found =>
      -- The key that opens the line would have a separator on it.
      obtain ⟨behind, begins, found⟩ := begins_of_opening opened
      have none := separator_noise (within begins.suffix) nothing
      rw [List.append_nil, found] at none
      cases none
  exact opening_behind follows.line unopened fun behind begins _ => separator_noise (within begins.suffix) follows

/-- A line that opens nothing is passed over. -/
theorem readAll_passed (starts : ∀ c ∈ rest.head?, c = '\n') (noBreak : '\n' ∉ line)
    (passed : opening? (line.dropWhile isBlank ++ rest) = none ∨
      opening? (line.dropWhile isBlank ++ rest) = opening? (rest.dropWhile isBlank)) (entries : Entries) :
    readAll entries (line ++ rest) = readAll entries rest := by
  cases begun : line.dropWhile isBlank with
  | nil => exact readAll_blanks (List.dropWhile_eq_nil_iff.mp begun) entries rest
  | cons c left =>
    have trimmed : (line ++ rest).dropWhile isBlank = c :: left ++ rest := dropWhile_append_of_begun begun
    rw [begun, ← trimmed] at passed
    have toBreak (unopened : opening? ((line ++ rest).dropWhile isBlank) = none) :
        readAll entries (line ++ rest) = readAll entries rest := by
      have inLine : ∀ d ∈ c :: left, decide (d ≠ '\n') = true := by
        intro d member
        have within : d ∈ line := List.dropWhile_subset isBlank (begun ▸ member)
        simpa using fun same : d = '\n' => noBreak (same ▸ within)
      have behind : ∀ d ∈ rest.head?, decide (d ≠ '\n') = false := fun d first => by simp [starts d first]
      rw [readAll_of_not_opening entries unopened, trimmed, dropWhile_of_stop inLine behind]
    rcases passed with unopened | same
    · exact toBreak unopened
    · cases opened : opening? (rest.dropWhile isBlank) with
      | none => exact toBreak (same.trans opened)
      | some found =>
        -- The word before it changes nothing about the entry that follows.
        rw [readAll_of_opening entries opened, readAll_of_opening entries (same.trans opened)]

end Noise

/-! ## Values -/

/-- The first quote that nothing escapes closes a value if the entry can end behind it. -/
theorem closing_of_unclosed {quote : Char} {chars behind rest : List Char} (unclosed : quote ∉ chars)
    (unescaped : chars.getLast? ≠ some '\\') (ended : ending? rest = some behind) {escaped : Bool}
    (free : chars = [] → escaped = false) (read : List Char) :
    closing? quote escaped read none (chars ++ quote :: rest) = some (chars.reverse ++ read, behind) := by
  -- The text before the quote holds none, so whether it is escaped depends on the last character only.
  induction chars generalizing escaped read with
  | nil => simp [closing?, free rfl, ended]
  | cons c chars ih =>
    have differ : c ≠ quote := fun same => unclosed (by simp [same])
    have inner : chars = [] → decide (c = '\\') = false := by
      rintro rfl
      simpa using unescaped
    have last : chars.getLast? ≠ some '\\' := by
      cases chars with
      | nil => simp
      | cons d chars => simpa using unescaped
    rw [List.cons_append, closing?, if_neg differ, ih (fun member => unclosed (List.mem_cons_of_mem _ member)) last inner]
    simp

section Escapes

variable {letter char c : Char}

private theorem expandOnto_append (read earlier text : List Char) :
    expandOnto letter char (read ++ earlier) text = earlier.reverse ++ expandOnto letter char read text := by
  fun_induction expandOnto letter char read text with
  | case1 read => simp [expandOnto]
  | case2 read rest ih => rw [expandOnto, if_pos rfl, ← List.cons_append, ih]
  | case3 read c rest differ ih => rw [expandOnto, if_neg differ, ← List.cons_append, ih]
  | case4 read c rest plain ih =>
    rw [expandOnto, ← List.cons_append, ih]
    exact plain

private theorem expandOnto_eq (read text : List Char) :
    expandOnto letter char read text = read.reverse ++ expand letter char text := expandOnto_append [] read text

private theorem expand_escape (rest : List Char) :
    expand letter char ('\\' :: letter :: rest) = char :: expand letter char rest := by
  rw [expand, expandOnto, if_pos rfl, expandOnto_eq]
  rfl

private theorem expand_backslash (differ : c ≠ letter) (rest : List Char) :
    expand letter char ('\\' :: c :: rest) = '\\' :: expand letter char (c :: rest) := by
  rw [expand, expandOnto, if_neg differ, expandOnto_eq]
  rfl

private theorem expand_last : expand letter char ['\\'] = ['\\'] := by
  simp [expand, expandOnto]

private theorem expand_plain (differ : c ≠ '\\') (rest : List Char) :
    expand letter char (c :: rest) = c :: expand letter char rest := by
  rw [expand, expandOnto, expandOnto_eq]
  · rfl
  · rintro d left rfl
    exact absurd rfl differ

private theorem expand_cons (letter char c : Char) (rest : List Char) :
    ∃ left, expand letter char (c :: rest) = c :: left ∨ expand letter char (c :: rest) = char :: left := by
  by_cases slash : c = '\\'
  · subst slash
    cases rest with
    | nil => exact ⟨[], .inl expand_last⟩
    | cons d rest =>
      by_cases same : d = letter
      · subst same
        exact ⟨_, .inr (expand_escape rest)⟩
      · exact ⟨_, .inl (expand_backslash same rest)⟩
  · exact ⟨_, .inl (expand_plain slash rest)⟩

end Escapes

/-- Writing the characters for one escape and then those for the other is writing both at once: the first neither
makes nor breaks an escape of the second kind. -/
theorem expand_expand (text : List Char) : expand 'r' '\r' (expand 'n' '\n' text) = expandBreaks text := by
  fun_induction expandBreaks text with
  | case1 rest ih => rw [expand_escape, expand_plain (by decide), ih]
  | case2 rest ih =>
    have kept : expand 'n' '\n' ('\\' :: 'r' :: rest) = '\\' :: 'r' :: expand 'n' '\n' rest := by
      rw [expand_backslash (by decide), expand_plain (by decide)]
    rw [kept, expand_escape, ih]
  | case3 c rest notFeed notReturn ih =>
    by_cases slash : c = '\\'
    · subst slash
      cases rest with
      | nil => simp [expand_last, expandBreaks]
      | cons d rest =>
        have feed : d ≠ 'n' := fun same => notFeed rest rfl (by rw [same])
        have carriage : d ≠ 'r' := fun same => notReturn rest rfl (by rw [same])
        rw [expand_backslash feed, ← ih]
        -- The first pass leaves what stands behind the backslash, or a line feed, and neither is the second letter.
        obtain ⟨left, begun | begun⟩ := expand_cons 'n' '\n' d rest
        · rw [begun, expand_backslash carriage]
        · rw [begun, expand_backslash (by decide)]
    · rw [expand_plain slash, expand_plain slash, ih]
  | case4 => rfl

theorem trim_between {before chars after : List Char} (leading : ∀ c ∈ before, isBlank c = true)
    (trailing : ∀ c ∈ after, isBlank c = true) (first : ∀ c ∈ chars.head?, isBlank c = false)
    (last : ∀ c ∈ chars.getLast?, isBlank c = false) : trim (before ++ (chars ++ after)) = chars := by
  unfold trim trimStart trimEnd
  rw [List.dropWhile_append_of_pos leading]
  cases chars with
  | nil =>
    rw [List.nil_append, List.dropWhile_eq_nil_iff.mpr trailing]
    rfl
  | cons c chars =>
    have begun : ∀ d ∈ ((c :: chars).reverse).head?, isBlank d = false := by
      rw [List.head?_reverse]
      exact last
    have behind : ∀ d ∈ after.reverse, isBlank d = true := fun d member => trailing d (List.mem_reverse.mp member)
    rw [List.cons_append, List.dropWhile_cons_of_neg (by simp [first c rfl]), ← List.cons_append, List.reverse_append,
      dropWhile_of_stop behind begun, List.reverse_reverse]

theorem unquote_plain {chars : List Char} (first : ∀ c ∈ chars.head?, isQuote c = false) : unquote chars = chars := by
  cases chars with
  | nil => rfl
  | cons c chars => simp [unquote, first c rfl]

section Values

variable {rest : List Char}

/-- A line is a text and a comment. -/
theorem exists_cut {line : List Char} (noBreak : '\n' ∉ line) :
    ∃ front comment, line = front ++ commentText comment ∧ ∀ c ∈ front, c ≠ '#' ∧ c ≠ '\n' := by
  have split : line.takeWhile (· ≠ '#') ++ line.dropWhile (· ≠ '#') = line := List.takeWhile_append_dropWhile
  have within : ∀ c ∈ line.takeWhile (· ≠ '#'), c ≠ '#' ∧ c ≠ '\n' := by
    intro c member
    refine ⟨by simpa using List.mem_takeWhile_imp member, ?_⟩
    rintro rfl
    exact noBreak ((List.takeWhile_prefix _).subset member)
  cases marked : line.dropWhile (· ≠ '#') with
  | nil => exact ⟨_, none, by rw [marked] at split; exact split.symm, within⟩
  | cons mark comment =>
    have stop := List.head?_dropWhile_not (· ≠ '#') line
    rw [marked] at stop
    obtain rfl : mark = '#' := by simpa using stop
    have inLine : '\n' ∉ comment := by
      intro member
      exact noBreak (List.dropWhile_subset (· ≠ '#') (marked ▸ List.mem_cons_of_mem _ member))
    exact ⟨_, some ⟨comment, inLine⟩, by rw [marked] at split; exact split.symm, within⟩

/-- A text up to a comment or the end of its line is a value. -/
theorem plainValue_cut (starts : ∀ c ∈ rest.head?, c = '\n') {front : List Char}
    (within : ∀ c ∈ front, c ≠ '#' ∧ c ≠ '\n') (comment : Option Line) :
    (plainValue (front ++ (commentText comment ++ rest))).1 = unquote (trim front) ∧
      ∀ entries, readAll entries (plainValue (front ++ (commentText comment ++ rest))).2 = readAll entries rest := by
  have inLine : ∀ c ∈ front, (decide (c ≠ '#') && decide (c ≠ '\n')) = true :=
    fun c member => by simpa using within c member
  have stop : ∀ c ∈ (commentText comment ++ rest).head?, (decide (c ≠ '#') && decide (c ≠ '\n')) = false := by
    intro c begun
    cases comment with
    | none => simp [starts c begun]
    | some comment =>
      cases begun
      rfl
  simp only [plainValue]
  rw [takeWhile_of_stop inLine stop, dropWhile_of_stop inLine stop]
  refine ⟨rfl, fun entries => ?_⟩
  rw [← readAll_comment starts comment]
  cases ended : ending? (commentText comment ++ rest) with
  | none => rfl
  | some behind => exact readAll_of_ending entries ended

theorem plainValue_text (follows : Follows rest) (blanks after : Margin) (comment : Option Line) {chars : List Char}
    (within : ∀ c ∈ chars, c ≠ '#' ∧ c ≠ '\n') (first : ∀ c ∈ chars.head?, isBlank c = false ∧ isQuote c = false)
    (last : ∀ c ∈ chars.getLast?, isBlank c = false) :
    (plainValue (blanks.val ++ (chars ++ (after.val ++ (commentText comment ++ rest))))).1 = chars ∧
      ∀ entries, readAll entries (plainValue (blanks.val ++ (chars ++ (after.val ++ (commentText comment ++ rest))))).2 =
        readAll entries rest := by
  have inLine : ∀ c ∈ blanks.val ++ (chars ++ after.val), c ≠ '#' ∧ c ≠ '\n' := by
    intro c member
    have space {margin : Margin} (inside : c ∈ margin.val) : c ≠ '#' ∧ c ≠ '\n' := by
      rcases margin.property c inside with rfl | rfl <;> decide
    simp only [List.mem_append] at member
    rcases member with inside | inside | inside
    · exact space inside
    · exact within c inside
    · exact space inside
  obtain ⟨taken, behind⟩ := plainValue_cut follows.line inLine comment
  have cut : blanks.val ++ (chars ++ (after.val ++ (commentText comment ++ rest))) =
      blanks.val ++ (chars ++ after.val) ++ (commentText comment ++ rest) := by simp
  rw [cut]
  refine ⟨?_, behind⟩
  -- The white space around the text is trimmed.
  rw [taken, trim_between (blank_margin blanks) (blank_margin after) (fun c begun => (first c begun).1) last,
    unquote_plain fun c begun => (first c begun).2]

theorem value_of_not_quote {text : List Char}
    (first : ∀ c ∈ (text.dropWhile isBlank).head?, isQuote c = false) : value text = plainValue text := by
  unfold value
  split
  next quote left dropped => rw [if_neg (by simp [first quote (by rw [dropped]; rfl)])]
  · rfl

private theorem value_of_quote {text left read behind : List Char} {quote : Char}
    (dropped : text.dropWhile isBlank = quote :: left) (opens : isQuote quote = true)
    (closed : closing? quote false [] none left = some (read, behind)) :
    value text = (unquoted quote read.reverse, behind) := by
  unfold value
  rw [dropped]
  simp only [opens, closed, if_true]

/-- A value is read as what it means, and the entry ends behind it. -/
theorem value_text (follows : Follows rest) (blanks after : Margin) (comment : Option Line) (written : Value) :
    (value (blanks.val ++ (written.text ++ (after.val ++ (commentText comment ++ rest))))).1 = written.meaning ∧
      ∀ entries, readAll entries (value (blanks.val ++ (written.text ++ (after.val ++ (commentText comment ++ rest))))).2 =
        readAll entries rest := by
  cases written with
  | empty =>
    have begun : ∀ c ∈ ((blanks.val ++ (Value.empty.text ++ (after.val ++ (commentText comment ++ rest)))).dropWhile
        isBlank).head?, isQuote c = false := by
      intro c first
      -- Behind an empty value the reader may look past the line for a quote, but finds none.
      rw [List.dropWhile_append_of_pos (blank_margin blanks), Value.text, List.nil_append,
        List.dropWhile_append_of_pos (blank_margin after)] at first
      cases comment with
      | none => exact (follows.begun c first).2
      | some comment =>
        cases first
        rfl
    rw [value_of_not_quote begun]
    exact plainValue_text follows blanks after comment (by simp [Value.text]) (by simp [Value.text]) (by simp [Value.text])
  | plain text =>
    obtain ⟨chars, within, ⟨first, head, first_blank, first_quote⟩, ⟨last, foot, last_blank⟩⟩ := text
    have start : ∀ c ∈ chars.head?, isBlank c = false ∧ isQuote c = false := by
      intro c member
      cases head.symm.trans member
      exact ⟨first_blank, first_quote⟩
    have finish : ∀ c ∈ chars.getLast?, isBlank c = false := by
      intro c member
      cases foot.symm.trans member
      exact last_blank
    have begun : ∀ c ∈ ((blanks.val ++ (chars ++ (after.val ++ (commentText comment ++ rest)))).dropWhile
        isBlank).head?, isQuote c = false := by
      cases chars with
      | nil => cases head
      | cons c chars =>
        cases head
        rw [List.dropWhile_append_of_pos (blank_margin blanks)]
        simpa [first_blank] using first_quote
    rw [Value.text, value_of_not_quote begun]
    exact plainValue_text follows blanks after comment within start finish
  | quoted quote chars unclosed unescaped =>
    obtain ⟨behind, ended⟩ := ending_of_follows follows after comment
    have dropped : (blanks.val ++ ((Value.quoted quote chars unclosed unescaped).text ++
        (after.val ++ (commentText comment ++ rest)))).dropWhile isBlank =
          quote.char :: (chars ++ quote.char :: (after.val ++ (commentText comment ++ rest))) := by
      have stop : isBlank quote.char = false := by cases quote <;> decide
      rw [List.dropWhile_append_of_pos (blank_margin blanks)]
      simp [Value.text, stop]
    have opens : isQuote quote.char = true := by cases quote <;> decide
    rw [value_of_quote dropped opens (closing_of_unclosed unclosed unescaped ended (fun _ => rfl) [])]
    constructor
    · rw [List.append_nil, List.reverse_reverse]
      cases quote with
      | double => exact expand_expand chars
      | single => rfl
      | backtick => rfl
    · intro entries
      rw [readAll_of_ending entries ended, readAll_blanks (blank_margin after), readAll_comment follows.line]

end Values

end EnvAudit.Declaration
