import EnvAudit.Proofs.Declaration.Parts

/-!
# Entries of documents

A document declares what its assignments assign: every key stands where it is assigned first and has the value that
it is assigned last. Nothing else in a document declares anything or changes what stands next to it.
-/
namespace EnvAudit.Declaration

open EnvAudit.Text (isBlank dropWhile_of_stop dropWhile_append_of_begun)

/-! ## Assignments one after another -/

/-- Puts values one after another. -/
def Entries.putAll (entries : Entries) (assigned : List (String × String)) : Entries :=
  assigned.foldl (fun entries entry => entries.put entry.1 entry.2) entries

theorem putAll_cons (entries : Entries) (entry : String × String) (assigned : List (String × String)) :
    entries.putAll (entry :: assigned) = (entries.put entry.1 entry.2).putAll assigned := rfl

private theorem lookup_reverse_append (assigned : List (String × String)) (key value other : String) :
    ((assigned ++ [(key, value)]).reverse.lookup other).getD "" =
      if other = key then value else (assigned.reverse.lookup other).getD "" := by
  rw [List.reverse_append, List.reverse_singleton, List.singleton_append]
  by_cases same : other = key
  · rw [if_pos same, same, List.lookup_cons_self, Option.getD_some]
  · rw [if_neg same, List.lookup_cons, beq_false_of_ne same]

theorem put_settled (assigned : List (String × String)) (key value : String) :
    (settled assigned).put key value = settled (assigned ++ [(key, value)]) := by
  have known : ((settled assigned).any fun entry => entry.1 = key) = true ↔ key ∈ assigned.map Prod.fst := by
    simp [settled]
  have settled_append : settled (assigned ++ [(key, value)]) =
      ((assigned ++ [(key, value)]).map Prod.fst).eraseDups.map fun other =>
        (other, if other = key then value else (assigned.reverse.lookup other).getD "") := by
    simp only [settled, lookup_reverse_append]
  rw [settled_append, List.map_append, List.map_singleton, List.eraseDups_append]
  unfold Entries.put
  by_cases declared : key ∈ assigned.map Prod.fst
  · -- The key keeps its position, and only its value changes.
    have none : List.removeAll [key] (assigned.map Prod.fst) = [] := by simp [List.removeAll, declared]
    rw [if_pos (known.mpr declared), none, List.eraseDups_nil, List.append_nil, settled, List.map_map]
    refine List.map_congr_left fun other _ => ?_
    by_cases same : other = key <;> simp [same]
  · -- A new key stands last, and no value in front of it changes.
    have new : List.removeAll [key] (assigned.map Prod.fst) = [key] := by simp [List.removeAll, declared]
    rw [if_neg (fun found => declared (known.mp found)), new, List.map_append, settled]
    congr 1
    · refine List.map_congr_left fun other member => ?_
      have differ : other ≠ key := by
        rintro rfl
        exact declared (List.mem_eraseDups.mp member)
      rw [if_neg differ]
    · simp [List.eraseDups_cons]

theorem putAll_nil (assigned : List (String × String)) : Entries.putAll [] assigned = settled assigned := by
  induction assigned using List.reverseRecOn with
  | nil => rfl
  | append_singleton front entry ih =>
    rw [← put_settled, ← ih]
    exact List.foldl_append ..

theorem keys_settled (assigned : List (String × String)) :
    (settled assigned).map Prod.fst = (assigned.map Prod.fst).eraseDups := by
  simp [settled, Function.comp_def]

/-- What is settled is what was assigned last. -/
theorem mem_of_mem_settled {assigned : List (String × String)} {entry : String × String}
    (member : entry ∈ settled assigned) : entry ∈ assigned := by
  obtain ⟨key, listed, rfl⟩ := List.mem_map.mp member
  cases found : assigned.reverse.lookup key with
  | none =>
    obtain ⟨⟨other, value⟩, assigned_, rfl⟩ := List.mem_map.mp (List.mem_eraseDups.mp listed)
    have differ := List.lookup_eq_none_iff.mp found _ (List.mem_reverse.mpr assigned_)
    simp at differ
  | some value =>
    obtain ⟨front, behind, split, -⟩ := List.lookup_eq_some_iff.mp found
    rw [Option.getD_some, ← List.mem_reverse, split]
    simp

/-! ## Items one after another -/

/-- Items that follow a line, each behind a line feed. -/
def following (items : List Item) : List Char := items.flatMap fun item => '\n' :: item.text

theorem documentText_cons (item : Item) (items : List Item) :
    documentText (item :: items) = item.text ++ following items := by
  induction items generalizing item with
  | nil => simp [documentText, following]
  | cons next items ih =>
    have joined : documentText (item :: next :: items) = item.text ++ '\n' :: documentText (next :: items) := by
      simp [documentText, List.intercalate]
    rw [joined, ih]
    simp [following]

private theorem text_assignment (assignment : Assignment) (rest : List Char) :
    assignment.text ++ rest = assignment.margin.val ++ (Assignment.exportText assignment.exported ++
      (assignment.key.val ++ (assignment.separator.text ++ (assignment.value.text ++ (assignment.after.val ++
        (commentText assignment.comment ++ rest)))))) := by
  simp [Assignment.text]

/-- What an assignment begins with is part of a key. -/
private theorem head_key (exported : Option Gap) (key : KeyText) (rest : List Char) :
    ∃ c, isKeyChar c = true ∧ (Assignment.exportText exported ++ (key.val ++ rest)).head? = some c := by
  cases exported with
  | some gap => exact ⟨'e', by decide, rfl⟩
  | none =>
    obtain ⟨_ | ⟨c, key⟩, some, members⟩ := key
    · exact absurd rfl some
    · exact ⟨c, members c (by simp), rfl⟩

private theorem dropWhile_key (exported : Option Gap) (key : KeyText) (rest : List Char) :
    (Assignment.exportText exported ++ (key.val ++ rest)).dropWhile isBlank =
      Assignment.exportText exported ++ (key.val ++ rest) := by
  obtain ⟨c, member, begun⟩ := head_key exported key rest
  have stop : ∀ d ∈ (Assignment.exportText exported ++ (key.val ++ rest)).head?, isBlank d = false := by
    intro d first
    cases begun.symm.trans first
    exact not_isBlank_of_isKeyChar member
  exact @dropWhile_of_stop isBlank [] _ (by simp) stop

/-- Behind a line of any kind another one can begin. -/
theorem follows_item {rest : List Char} (follows : Follows rest) (item : Item) :
    Follows ('\n' :: (item.text ++ rest)) := by
  refine ⟨by simp, fun c first => ?_⟩
  rw [List.dropWhile_cons_of_pos (by decide)] at first
  cases item with
  | blank margin =>
    rw [Item.text, List.dropWhile_append_of_pos (blank_margin margin)] at first
    exact follows.begun c first
  | comment margin text =>
    rw [Item.text, List.append_assoc, List.dropWhile_append_of_pos (blank_margin margin)] at first
    cases first
    decide
  | noise unread =>
    -- A line of white space only shows what is behind it.
    cases begun : unread.line.val.dropWhile isBlank with
    | nil =>
      rw [Item.text, List.dropWhile_append_of_pos (List.dropWhile_eq_nil_iff.mp begun)] at first
      exact follows.begun c first
    | cons d left =>
      rw [Item.text, dropWhile_append_of_begun begun] at first
      cases first
      have member : c ∈ unread.line.val := List.dropWhile_subset isBlank (by simp [begun])
      exact ⟨(unread.separated c member).1, unread.unquoted c (by simp [begun])⟩
  | assignment assigned =>
    rw [Item.text, text_assignment, List.dropWhile_append_of_pos (blank_margin assigned.margin), dropWhile_key] at first
    obtain ⟨d, member, begun⟩ := head_key assigned.exported assigned.key _
    cases begun.symm.trans first
    -- Neither the separator nor a quote is part of a key.
    constructor
    · rintro rfl
      cases member
    · by_contra quote
      simp only [isQuote, Bool.not_eq_false, Bool.or_eq_true, decide_eq_true_eq] at quote
      rcases quote with (rfl | rfl) | rfl <;> cases member

theorem follows_following (items : List Item) : Follows (following items) := by
  induction items with
  | nil => exact ⟨by simp [following], by simp [following]⟩
  | cons item items ih =>
    have cons : following (item :: items) = '\n' :: (item.text ++ following items) := by simp [following]
    rw [cons]
    exact follows_item ih item

private theorem readAll_noise {rest : List Char} (follows : Follows rest) (unread : Noise) (entries : Entries) :
    readAll entries (unread.line.val ++ rest) = readAll entries rest := by
  refine readAll_passed follows.line unread.line.property (opening_noise ?_ follows) entries
  exact fun c member => unread.separated c (List.dropWhile_subset isBlank member)

private theorem readAll_assignment {rest : List Char} (follows : Follows rest) (assigned : Assignment)
    (entries : Entries) : readAll entries (assigned.text ++ rest) =
      readAll (entries.put assigned.entry.1 assigned.entry.2) rest := by
  obtain ⟨blanks, opened⟩ := opening_text assigned.exported assigned.key assigned.separator
  obtain ⟨meaning, behind⟩ := value_text follows blanks assigned.after assigned.comment assigned.value
  have found := opened (assigned.value.text ++ (assigned.after.val ++ (commentText assigned.comment ++ rest)))
  rw [← dropWhile_key] at found
  rw [text_assignment, readAll_blanks (blank_margin assigned.margin), readAll_of_opening entries found, behind, meaning]
  rfl

/-- An item declares its own entry whatever stands around it. -/
theorem readAll_item {rest : List Char} (follows : Follows rest) (item : Item) (entries : Entries) :
    readAll entries (item.text ++ rest) = readAll (entries.putAll item.entry?.toList) rest := by
  cases item with
  | blank margin => exact readAll_blanks (blank_margin margin) entries rest
  | comment margin text =>
    rw [Item.text, List.append_assoc, readAll_blanks (blank_margin margin), readAll_comment follows.line]
    rfl
  | noise unread => exact readAll_noise follows unread entries
  | assignment assigned => exact readAll_assignment follows assigned entries

theorem readAll_following (items : List Item) (entries : Entries) :
    readAll entries (following items) = entries.putAll (items.filterMap Item.entry?) := by
  induction items generalizing entries with
  | nil => rfl
  | cons item items ih =>
    have cons : following (item :: items) = ['\n'] ++ (item.text ++ following items) := by simp [following]
    rw [cons, readAll_blanks (by simp [isBlank]), readAll_item (follows_following items), ih]
    cases found : item.entry? with
    | none => simp [found, Entries.putAll]
    | some entry => simp [found, Entries.putAll]

/-! ## Documents -/

/-- Writes every line break of a text as one line feed in one pass, behind what was read. -/
def normalizeOnto (read : List Char) : List Char → List Char
  | [] => read.reverse
  | '\r' :: '\n' :: rest => normalizeOnto ('\n' :: read) rest
  | '\r' :: rest => normalizeOnto ('\n' :: read) rest
  | c :: rest => normalizeOnto (c :: read) rest

private theorem map_joinPairsOnto (read text : List Char) :
    (joinPairsOnto read text).map fed = normalizeOnto (read.map fed) text := by
  fun_induction joinPairsOnto read text with
  | case1 read => rw [List.map_reverse, normalizeOnto]
  | case2 read rest ih =>
    rw [ih, normalizeOnto]
    rfl
  | case3 read c rest pair ih =>
    rw [ih, List.map_cons]
    by_cases carriage : c = '\r'
    · -- No line feed follows, so the second pass makes of the carriage return what one pass makes of it.
      subst carriage
      rw [normalizeOnto]
      · rfl
      · exact fun left same => pair left rfl same
    · rw [fed, if_neg carriage, normalizeOnto]
      · exact fun left same => absurd same carriage
      · exact carriage

/-- The two passes do what one pass does: no pair comes up when the pairs are joined, for a line feed stays one. -/
theorem normalizeBreaks_eq (text : List Char) : normalizeBreaks text = normalizeOnto [] text :=
  map_joinPairsOnto [] text

theorem normalizeOnto_eq {text : List Char} (noReturn : '\r' ∉ text) (read : List Char) :
    normalizeOnto read text = read.reverse ++ text := by
  induction text generalizing read with
  | nil => simp [normalizeOnto]
  | cons c text ih =>
    have differ : c ≠ '\r' := fun same => noReturn (by simp [same])
    rw [normalizeOnto, ih fun member => noReturn (List.mem_cons_of_mem c member)]
    · simp
    · rintro left rfl
      exact absurd rfl differ
    · rintro rfl
      exact absurd rfl differ

theorem normalize_eq_self {text : List Char} (noReturn : '\r' ∉ text) (noMark : text.head? ≠ some '\ufeff') :
    normalize text = text := by
  unfold normalize
  split
  · exact absurd rfl noMark
  · exact (normalizeBreaks_eq text).trans (normalizeOnto_eq noReturn [])

/-- The entries of a document are what its assignments declare. -/
theorem entries_documentText (items : List Item) (noReturn : '\r' ∉ documentText items)
    (noMark : (documentText items).head? ≠ some '\ufeff') :
    entries (String.ofList (documentText items)) = declared items := by
  rw [entries_eq_readAll, String.toList_ofList, normalize_eq_self noReturn noMark]
  cases items with
  | nil => rfl
  | cons item items =>
    have all : item.entry?.toList ++ items.filterMap Item.entry? = (item :: items).filterMap Item.entry? := by
      cases found : item.entry? <;> simp [found]
    rw [documentText_cons, readAll_item (follows_following items), readAll_following, declared, ← all, ← putAll_nil]
    exact (List.foldl_append ..).symm

/-- A comment that looks like an assignment, the word `export` alone in front of a quoted value on two lines, and a key
that is assigned again. -/
def shadowedItems : List Item := [
  .comment ⟨[' '], by simp⟩ ⟨['A', '=', '0'], by simp⟩,
  .noise ⟨⟨exportWord, by decide⟩, by simp [exportWord], by simp [exportWord, isBlank, isQuote]⟩,
  .assignment {
    margin := ⟨[], by simp⟩, exported := none, key := ⟨['A'], by simp [isKeyChar]⟩,
    separator := .equals ⟨[' '], by simp⟩ ⟨[], by simp⟩,
    value := .quoted .double ['1', '\\', 'n', '\n', 'B', '=', '#'] (by decide) (by decide),
    after := ⟨['\t'], by simp⟩, comment := some ⟨[], by simp⟩ },
  .blank ⟨['\t'], by simp⟩,
  .assignment {
    margin := ⟨[' '], by simp⟩, exported := some ⟨⟨[' '], by simp⟩, by simp⟩, key := ⟨['C'], by simp [isKeyChar]⟩,
    separator := .colon ⟨⟨[' '], by simp⟩, by simp⟩, value := .empty,
    after := ⟨[], by simp⟩, comment := none },
  .assignment {
    margin := ⟨[], by simp⟩, exported := none, key := ⟨['A'], by simp [isKeyChar]⟩,
    separator := .equals ⟨[], by simp⟩ ⟨[], by simp⟩,
    value := .plain ⟨['x', '\'', '\''], by simp, ⟨'x', by decide⟩, ⟨'\'', by decide⟩⟩,
    after := ⟨[], by simp⟩, comment := some ⟨['='], by simp⟩ }]

theorem entries_shadowedItems : '\r' ∉ documentText shadowedItems ∧
    (documentText shadowedItems).head? ≠ some '\ufeff' ∧
    entries (String.ofList (documentText shadowedItems)) = declared shadowedItems ∧
    declared shadowedItems = [("A", "x''"), ("C", "")] :=
  ⟨by decide, by decide, entries_documentText shadowedItems (by decide) (by decide), by decide⟩

end EnvAudit.Declaration
