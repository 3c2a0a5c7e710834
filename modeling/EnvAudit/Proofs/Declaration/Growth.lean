import EnvAudit.Proofs.Declaration.Exact
import EnvAudit.Proofs.KeyList
import EnvAudit.Proofs.Text.Utf8

/-!
# Growth

A document whose last line is ended grows by lines that declare keys without values: the keys that it declares are those
from before and the new ones, and the new lines are read apart from the old ones.
-/
namespace EnvAudit.Declaration

/-- Items one after another, each with a line feed behind it. -/
def endedText (items : List Item) : List Char := items.flatMap fun item => item.text ++ ['\n']

/-- Lines that declare keys without values. -/
def emptyLines (keys : List String) : String := String.ofList (keys.flatMap fun key => key.toList ++ ['=', '\n'])

/-! ## Documents -/

theorem readAll_endedText (items : List Item) (entries : Entries) :
    readAll entries (endedText items) = entries.putAll (items.filterMap Item.entry?) := by
  -- With a blank line at the end, the items follow a line feed each.
  have shifted (items : List Item) : '\n' :: endedText items = following (items ++ [.blank ⟨[], by simp⟩]) := by
    induction items with
    | nil => rfl
    | cons item items ih =>
      have cons : following (item :: items ++ [.blank ⟨[], by simp⟩]) =
          '\n' :: (item.text ++ following (items ++ [.blank ⟨[], by simp⟩])) := by simp [following]
      rw [cons, ← ih]
      simp [endedText]
  have blank : readAll entries ('\n' :: endedText items) = readAll entries (endedText items) :=
    @readAll_blanks ['\n'] (by simp [Text.isBlank]) entries _
  rw [← blank, shifted, readAll_following, List.filterMap_append]
  exact congrArg entries.putAll (List.append_nil _)

/-- The keys of a document are those of its assignments. -/
theorem keys_endedText {text : String} {items : List Item} (written : normalize text.toList = endedText items) :
    (keys text).keys = ((items.filterMap Item.entry?).map Prod.fst).eraseDups := by
  rw [keys, entries_eq_readAll, written, readAll_endedText, putAll_nil, KeyList.keys_ofList, keys_settled,
    KeyList.eraseDups_of_nodup (KeyList.nodup_eraseDups _)]

/-! ## Lines that are added -/

private theorem normalizeOnto_append (read text : List Char) {more : List Char} (noReturn : '\r' ∉ more)
    (begins : more.head? ≠ some '\n') : normalizeOnto read (text ++ more) = normalizeOnto read text ++ more := by
  induction read, text using normalizeOnto.induct with
  | case1 read => simp [normalizeOnto, normalizeOnto_eq noReturn]
  | case2 read rest ih => simpa [normalizeOnto] using ih
  | case3 read rest other ih =>
    -- A return at the end of the text stays alone, since what is added does not begin with a line feed.
    have apart : ∀ left, rest ++ more ≠ '\n' :: left := by
      intro left same
      cases rest with
      | nil => simp [show more = '\n' :: left from same] at begins
      | cons c rest => exact other rest (by rw [(List.cons.inj same).1])
    rw [List.cons_append, normalizeOnto, ih, normalizeOnto]
    · exact other
    · exact apart
  | case4 read c rest pair single ih =>
    rw [List.cons_append, normalizeOnto, ih, normalizeOnto]
    · exact pair
    · exact single
    · exact fun _ same => absurd same single
    · exact single

/-- Lines that are added to a text are read as they are, even where the text ends with half a line break. -/
theorem normalize_append (text : List Char) {more : List Char} (noReturn : '\r' ∉ more)
    (begins : ∀ c ∈ more.head?, c ≠ '\n' ∧ c ≠ '\ufeff') : normalize (text ++ more) = normalize text ++ more := by
  have grow (text : List Char) : normalizeBreaks (text ++ more) = normalizeBreaks text ++ more := by
    rw [normalizeBreaks_eq, normalizeBreaks_eq]
    exact normalizeOnto_append [] text noReturn fun first => (begins _ first).1 rfl
  cases text with
  | nil => exact normalize_eq_self noReturn fun first => (begins _ first).2 rfl
  | cons c text =>
    rw [List.cons_append]
    unfold normalize
    split
    next rest same =>
      cases same
      exact grow text
    next rest other =>
      split
      next marked => cases marked; exact absurd rfl (other _)
      next => exact grow (c :: text)

section Added

variable {added : List String}

/-- The lines of new keys are items of a document. -/
private theorem exists_items (spelled : ∀ key ∈ added, key ≠ "" ∧ ∀ c ∈ key.toList, isKeyChar c = true) :
    ∃ items, endedText items = (emptyLines added).toList ∧ (items.filterMap Item.entry?).map Prod.fst = added := by
  induction added with
  | nil => exact ⟨[], rfl, rfl⟩
  | cons key added ih =>
    obtain ⟨⟨some_, chars⟩, others⟩ := List.forall_mem_cons.mp spelled
    obtain ⟨items, text, keys⟩ := ih others
    have written : key.toList ≠ [] := fun none => some_ (String.toList_eq_nil_iff.mp none)
    refine ⟨.assignment {
      margin := ⟨[], by simp⟩, exported := none, key := ⟨key.toList, written, chars⟩,
      separator := .equals ⟨[], by simp⟩ ⟨[], by simp⟩, value := .empty, after := ⟨[], by simp⟩, comment := none } ::
        items, ?_, ?_⟩
    · have line : (emptyLines (key :: added)).toList = key.toList ++ ['=', '\n'] ++ (emptyLines added).toList := by
        simp [emptyLines]
      rw [line, ← text]
      simp [endedText, Item.text, Assignment.text, Assignment.exportText, Separator.text, Value.text, commentText]
    · simp [Item.entry?, Assignment.entry, keys]

/-- A document that grows declares its own keys and the new ones. -/
theorem keys_grown {content : Bytes} {items : List Item}
    (written : normalize (Text.Utf8.lossy content).toList = endedText items)
    (spelled : ∀ key ∈ added, key ≠ "" ∧ ∀ c ∈ key.toList, isKeyChar c = true) :
    (keys (Text.Utf8.lossy (content ++ Text.Utf8.encode (emptyLines added)))).keys =
      ((items.filterMap Item.entry?).map Prod.fst ++ added).eraseDups := by
  obtain ⟨more, text, keys⟩ := exists_items spelled
  have plain : ∀ c ∈ (emptyLines added).toList, isKeyChar c = true ∨ c = '=' ∨ c = '\n' := by
    rw [emptyLines, String.toList_ofList]
    intro c member
    obtain ⟨key, listed, within⟩ := List.mem_flatMap.mp member
    rcases List.mem_append.mp within with char | mark
    · exact .inl ((spelled key listed).2 c char)
    · simpa using Or.inr mark
  have noReturn : '\r' ∉ (emptyLines added).toList := by
    intro member
    rcases plain _ member with key | mark | feed
    · cases key
    · cases mark
    · cases feed
  have begins : ∀ c ∈ (emptyLines added).toList.head?, c ≠ '\n' ∧ c ≠ '\ufeff' := by
    cases added with
    | nil => simp [emptyLines]
    | cons key added =>
      obtain ⟨some_, chars⟩ := spelled key (by simp)
      intro c first
      -- A key is not empty, so the first of the added characters is one of a key.
      cases written : key.toList with
      | nil => exact absurd (String.toList_eq_nil_iff.mp written) some_
      | cons d rest =>
        simp only [emptyLines, List.flatMap_cons, written, String.toList_ofList] at first
        cases first
        have key := chars c (by simp [written])
        constructor
        · rintro rfl
          cases key
        · rintro rfl
          cases key
  have grown : normalize (Text.Utf8.lossy (content ++ Text.Utf8.encode (emptyLines added))).toList =
      endedText (items ++ more) := by
    rw [Text.Utf8.lossy_append_encode, String.toList_append, normalize_append _ noReturn begins, written, ← text]
    exact List.flatMap_append.symm
  rw [keys_endedText grown, List.filterMap_append, List.map_append, keys]

end Added

end EnvAudit.Declaration
