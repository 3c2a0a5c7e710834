import EnvAudit.Proofs.Script.Spelling
import EnvAudit.Script.Direct.Token

/-!
# Literals of plain texts

Strings and templates are read part by part: characters that stand for themselves up to the next one that does not, and
escapes as far as they go.
-/
namespace EnvAudit.Script.Direct

open EnvAudit.Script.StringLiteral (EscapeBody Takes isPlain not_takes_mark)
open EnvAudit.Script.Program (Quote Quoted Literal Template TemplateRun EscapedRun)
open EnvAudit.Script.Program (isBraced isEscape isHexDigit isOctalDigit isTemplateRun isLiteralChar)
open EnvAudit.Script.Tree (leaf)

/-! ## Parts -/

section

variable {quoting : Quoting} (read : List Tree)

theorem partsOnto_mark (rest : List Char) :
    quoting.partsOnto read (quoting.mark :: rest) = some (read.reverse, rest) := by
  rw [Quoting.partsOnto, if_pos rfl]

theorem partsOnto_part {c : Char} {text behind : List Char} {part : Tree} (inside : c ≠ quoting.mark)
    (found : quoting.part? (c :: text) = some (part, behind)) :
    quoting.partsOnto read (c :: text) = quoting.partsOnto (part :: read) behind := by
  rw [Quoting.partsOnto, if_neg inside]
  split
  next other =>
    rw [found] at other
    cases other
    rfl
  next none => simp [found] at none

end

/-! ## Strings -/

theorem isPlain_of_isLiteralChar {c : Char} (plain : isLiteralChar c = true) (quote : Quote) :
    isPlain quote c = true := by
  simp only [isLiteralChar, Program.isLineBreak, Bool.and_eq_true, Bool.not_eq_true', Bool.or_eq_false_iff,
    decide_eq_true_eq, decide_eq_false_iff_not] at plain
  cases quote <;> simp [isPlain, Quote.char, plain]

private theorem fragment_quoted (quote : Quote) (literal : Literal) (rest : List Char) :
    (Quoting.string quote.char).fragment? (literal.val ++ quote.char :: rest) =
      some (literal.val, quote.char :: rest) := by
  have plain : literal.val.all (isPlain quote) = true :=
    List.all_eq_true.mpr fun c member =>
      isPlain_of_isLiteralChar (List.all_eq_true.mp literal.property.2 c member) quote
  apply Pattern.take_of_match literal.property.1
  · exact (StringLiteral.matches_fragment quote literal.val).mpr ⟨literal.property.1, plain⟩
  · -- Whatever is longer holds the quote.
    rintro (_ | ⟨c, more⟩) filled begins
    · exact absurd rfl filled
    · obtain ⟨rfl, -⟩ := List.cons_prefix_cons.mp begins
      intro longer
      have every := ((StringLiteral.matches_fragment quote _).mp longer).2
      simp [isPlain] at every

private theorem token_quote (quote : Quote) (rest : List Char) :
    token? (quote.char :: rest) =
      ((Quoting.string quote.char).tree? rest).map fun (tree, behind) => (.literal tree, behind) := by
  cases quote <;> rfl

theorem token_quoted (quoted : Quoted) (rest : List Char) :
    token? (quoted.text ++ rest) = some (.literal quoted.tree, rest) := by
  obtain ⟨quote, literal⟩ := quoted
  have whole : Quoted.text ⟨quote, literal⟩ ++ rest = quote.char :: (literal.val ++ quote.char :: rest) := by
    simp [Quoted.text]
  have part : (Quoting.string quote.char).part? (literal.val ++ quote.char :: rest) =
      some (leaf "string_fragment" literal.val, quote.char :: rest) := by
    rw [Quoting.part?, fragment_quoted]
  have parts : (Quoting.string quote.char).partsOnto [] (literal.val ++ quote.char :: rest) =
      some ([leaf "string_fragment" literal.val], rest) := by
    obtain ⟨c, chars, first⟩ := List.exists_cons_of_ne_nil literal.property.1
    have plain : isLiteralChar c = true := List.all_eq_true.mp literal.property.2 c (first ▸ List.mem_cons_self)
    have inside : c ≠ quote.char := by
      rintro rfl
      have own := isPlain_of_isLiteralChar plain quote
      simp [isPlain] at own
    rw [first] at part ⊢
    exact (partsOnto_part [] inside part).trans (partsOnto_mark _ rest)
  rw [whole, token_quote, Quoting.tree?, parts]
  rfl

/-! ## Escapes -/

private theorem braced_of_isBraced {rest : List Char} (braced : isBraced rest = true) :
    ∃ digits, rest = '\x7b' :: (digits ++ ['\x7d']) ∧ digits ≠ [] ∧ digits.all isHexDigit = true := by
  cases rest with
  | nil => cases braced
  | cons c rest =>
    simp only [isBraced, Bool.and_eq_true, decide_eq_true_eq] at braced
    obtain ⟨⟨⟨rfl, long⟩, hex⟩, closes⟩ := braced
    obtain ⟨digits, rfl⟩ := List.getLast?_eq_some_iff.mp closes
    rw [List.dropLast_concat] at hex
    refine ⟨digits, rfl, ?_, hex⟩
    rintro rfl
    exact absurd long (by simp)

theorem escapeBody_of_isEscape {body : List Char} (escape : isEscape body = true) : EscapeBody body := by
  match body, escape with
  | [c], escape =>
    simp only [isEscape, Bool.and_eq_true, decide_eq_true_eq] at escape
    exact .one escape.1.1 escape.1.2 escape.2
  | c :: next :: rest, escape =>
    rw [isEscape] at escape
    split_ifs at escape with byte unit ends
    · subst byte
      rw [Bool.and_eq_true, decide_eq_true_eq] at escape
      exact .byte (by simp [escape.1]) escape.2
    · subst unit
      rw [Bool.or_eq_true, Bool.and_eq_true, decide_eq_true_eq] at escape
      rcases escape with ⟨four, hex⟩ | braced
      · exact .unit (by simp [four]) hex
      · obtain ⟨digits, same, filled, hex⟩ := braced_of_isBraced braced
        rw [same]
        exact .braced filled hex
    · rw [Bool.and_eq_true, List.isEmpty_iff] at escape
      obtain ⟨rfl, closes⟩ := escape
      exact .line (by simpa using ends) (by simpa [or_assoc] using closes)
    · rw [Bool.and_eq_true, decide_eq_true_eq] at escape
      have most : (c :: next :: rest).length ≤ 3 := Nat.add_le_add_right escape.1 2
      exact .octal (List.cons_ne_nil _ _) most escape.2

theorem isEscape_of_escapeBody {body : List Char} (escape : EscapeBody body) : isEscape body = true := by
  cases escape with
  | single filled byte unit octal => simp [isEscape, filled, byte, unit]
  | octal filled most octal =>
    obtain ⟨c, rest, rfl⟩ := List.exists_cons_of_ne_nil filled
    have other (letter : Char) (unlike : isOctalDigit letter = false) : c ≠ letter := by
      rintro rfl
      simp [unlike] at octal
    cases rest with
    | nil => simp [isEscape, other '\x00' (by decide), other 'x' (by decide), other 'u' (by decide)]
    | cons next rest =>
      have few : rest.length ≤ 1 := Nat.le_of_add_le_add_right (b := 2) most
      rw [isEscape, if_neg (other 'x' (by decide)), if_neg (other 'u' (by decide)),
        if_neg (by simp [other '\r' (by decide), other '?' (by decide)]), octal]
      simpa using few
  | @byte digits two hex =>
    obtain ⟨first, second, rfl⟩ := List.length_eq_two.mp two
    rw [isEscape, if_pos rfl, hex]
    rfl
  | @unit digits four hex =>
    obtain ⟨first, rest, rfl⟩ := List.exists_cons_of_length_eq_add_one four
    have three : rest.length = 3 := by simpa using four
    rw [isEscape, if_neg (by decide), if_pos rfl, hex, three]
    rfl
  | @braced digits filled hex =>
    have long := List.length_pos_iff.mpr filled
    have braced : isBraced ('\x7b' :: (digits ++ ['\x7d'])) = true := by simp [isBraced, hex, long]
    rw [isEscape, if_neg (by decide), if_pos rfl, braced, Bool.or_true]
  | @line first last opens closes =>
    have unlike : first ≠ 'x' ∧ first ≠ 'u' := by
      constructor <;> rintro rfl <;> exact absurd opens (by decide)
    rw [isEscape, if_neg unlike.1, if_neg unlike.2, if_pos (by simpa using opens)]
    simpa [or_assoc] using closes

private theorem length_le_of_octal {first : Char} {rest : List Char} (escape : EscapeBody (first :: rest))
    (octal : isOctalDigit first = true) : (first :: rest).length ≤ 3 := by
  cases escape with
  | octal _ most => exact most
  | byte | unit | braced => exact absurd octal (by decide)
  | single | line => simp

/-- An escape that goes on with some text goes on with the first character of it. -/
theorem escapeBody_concat {body rest : List Char} {next : Char} (escape : EscapeBody body)
    (longer : EscapeBody (body ++ next :: rest)) : EscapeBody (body ++ [next]) := by
  obtain ⟨first, inner, rfl⟩ := List.exists_cons_of_ne_nil escape.filled
  rcases StringLiteral.takes_of_longer escape longer with ⟨octal, also⟩ | ⟨same | same, ends⟩
  · have most : (first :: (inner ++ next :: rest)).length ≤ 3 :=
      length_le_of_octal longer (Bool.and_eq_true_iff.mp octal).1
    have size : (first :: inner ++ [next]).length ≤ 3 := by
      simp only [List.length_cons, List.length_append, List.length_nil] at most ⊢
      omega
    have digits : (first :: inner ++ [next]).all isOctalDigit = true := by
      rw [List.all_append, octal]
      simpa using also
    exact .octal (by simp) size digits
  · rw [same]
    exact .line (by simp) ends
  · rw [same]
    exact .line (by simp) ends

private theorem take_escape {body rest : List Char} (escape : EscapeBody body)
    (apart : ∀ next ∈ rest.head?, isEscape (body ++ [next]) = false) :
    Grammar.escapeSequence.pattern.take? ('\\' :: (body ++ rest)) = some ('\\' :: body, rest) := by
  apply Pattern.take_of_match (List.cons_ne_nil '\\' body)
  · exact (StringLiteral.matches_escape _).mpr ⟨body, rfl, escape⟩
  · rintro (_ | ⟨next, more⟩) filled ⟨behind, rfl⟩ matched
    · exact absurd rfl filled
    · obtain ⟨longer, same, also⟩ := (StringLiteral.matches_escape _).mp matched
      obtain rfl : body ++ next :: more = longer := (List.cons.inj same).2
      have whole := isEscape_of_escapeBody (escapeBody_concat escape also)
      rw [apart next rfl] at whole
      cases whole

/-! ## Strings by their parts -/

/-- A part of a literal that does not end it is taken whatever is behind the literal. -/
private theorem part_of_firstPart {quote : Quote} {text behind : List Char} {part : Tree}
    (found : StringLiteral.firstPart quote text = some (part, behind)) (left : behind ≠ []) (rest : List Char) :
    ∃ c more, text = c :: more ∧ c ≠ quote.char ∧
      (Quoting.string quote.char).part? (c :: (more ++ rest)) = some (part, behind ++ rest) := by
  obtain ⟨next, behind, rfl⟩ := List.exists_cons_of_ne_nil left
  unfold StringLiteral.firstPart at found
  split at found
  next front behind_ fragment =>
    cases found
    obtain ⟨rfl, matched, most⟩ := Pattern.longest_eq_some fragment
    simp only [Pattern.someMatches_singleton, StringLiteral.matches_fragment] at matched most
    -- A longer part would have the next character, which ends this one.
    have taken : (StringLiteral.fragmentPattern quote).take? (front ++ (next :: behind ++ rest)) =
        some (front, next :: behind ++ rest) := by
      apply Pattern.take_of_match matched.1 ((StringLiteral.matches_fragment quote front).mpr matched)
      rintro (_ | ⟨c, more⟩) filled begins
      · exact absurd rfl filled
      · obtain ⟨rfl, -⟩ := List.cons_prefix_cons.mp begins
        rw [StringLiteral.matches_fragment]
        rintro ⟨-, plain⟩
        refine most [c] (List.cons_ne_nil _ _) (by simp) ⟨by simp, ?_⟩
        simp only [List.all_append, List.all_cons, List.all_nil, Bool.and_eq_true] at plain ⊢
        exact ⟨plain.1, plain.2.1, trivial⟩
    obtain ⟨c, chars, rfl⟩ := List.exists_cons_of_ne_nil matched.1
    refine ⟨c, chars ++ next :: behind, rfl, ?_, ?_⟩
    · rintro rfl
      have plain := matched.2
      simp [isPlain] at plain
    · have fragment : (Quoting.string quote.char).fragment? (c :: chars ++ (next :: behind ++ rest)) =
          some (c :: chars, next :: behind ++ rest) := taken
      rw [List.append_assoc, ← List.cons_append, Quoting.part?, fragment]
  next unplain =>
    obtain ⟨⟨front, behind_⟩, escape, same⟩ := Option.map_eq_some_iff.mp found
    cases same
    obtain ⟨rfl, matched, most⟩ := Pattern.longest_eq_some escape
    simp only [Pattern.someMatches_singleton, StringLiteral.matches_escape] at matched most
    obtain ⟨body, rfl, isBody⟩ := matched
    have apart : ∀ c ∈ (next :: behind ++ rest).head?, isEscape (body ++ [c]) = false := by
      rintro c ⟨⟩
      by_contra longer
      rw [Bool.not_eq_false] at longer
      exact most [next] (List.cons_ne_nil _ _) (by simp) ⟨_, rfl, escapeBody_of_isEscape longer⟩
    have stuck : (StringLiteral.fragmentPattern quote).advance '\\' = [] := by cases quote <;> rfl
    have fragment : (Quoting.string quote.char).fragment? ('\\' :: (body ++ (next :: behind ++ rest))) = none :=
      Pattern.take_of_stuck stuck _
    refine ⟨'\\', body ++ next :: behind, rfl, by cases quote <;> decide, ?_⟩
    rw [List.append_assoc, Quoting.part?, fragment, take_escape isBody apart]
    rfl

private theorem parts_nil (quote : Quote) : StringLiteral.parts quote [] = none := by
  rw [StringLiteral.parts, if_neg (List.cons_ne_nil _ _).symm]
  split
  next => rfl
  next found => exact absurd (StringLiteral.length_firstPart found) (Nat.not_lt_zero _)

/-- What divides a text up to the mark that closes it does so whatever is behind the mark. -/
theorem partsOnto_of_parts {quote : Quote} {text : List Char} {cut : List Tree}
    (divided : StringLiteral.parts quote text = some cut) (read : List Tree) (rest : List Char) :
    (Quoting.string quote.char).partsOnto read (text ++ rest) = some (read.reverse ++ cut, rest) := by
  fun_induction StringLiteral.parts quote text generalizing cut read with
  | case1 =>
    cases divided
    rw [List.append_nil]
    exact partsOnto_mark read rest
  | case2 => cases divided
  | case3 text inside part behind found ih =>
    obtain ⟨later, goes, rfl⟩ := Option.map_eq_some_iff.mp divided
    have left : behind ≠ [] := by
      rintro rfl
      rw [parts_nil] at goes
      cases goes
    obtain ⟨c, more, rfl, unlike, part⟩ := part_of_firstPart found left rest
    rw [List.cons_append, partsOnto_part read unlike part, ih goes, List.reverse_cons, List.append_assoc]
    rfl

/-- A literal with some parts is one token. -/
theorem token_parts {quote : Quote} {text : List Char} {cut : List Tree}
    (divided : StringLiteral.parts quote text = some cut) (rest : List Char) :
    token? (quote.char :: (text ++ rest)) = some (.literal (StringLiteral.stringTree quote cut), rest) := by
  rw [token_quote, Quoting.tree?, partsOnto_of_parts divided]
  rfl

/-! ## Templates -/

/-- Whether a text begins with what ends a stretch of a template. -/
private def Stops (rest : List Char) : Prop := ∃ c more, rest = c :: more ∧ (c = '\x60' ∨ c = '\\')

private theorem templateText_run {run rest : List Char} (plain : isTemplateRun run = true) (stops : Stops rest)
    (read : List Char) : templateText read (run ++ rest) = (read.reverse ++ run, rest) := by
  induction run generalizing read with
  | nil =>
    -- The stretch ends where the literal does, or before an escape.
    obtain ⟨c, more, rfl, rfl | rfl⟩ := stops <;> simp [templateText]
  | cons c run ih =>
    obtain ⟨unlike, later⟩ : (c ≠ '\x60' ∧ c ≠ '\\' ∧ c ≠ '\x00') ∧ isTemplateRun run = true := by
      unfold isTemplateRun at plain
      split at plain <;> simp_all
    -- No substitution begins here, neither in the stretch nor on its end.
    have unfilled : ∀ more, c = '$' → run ++ rest ≠ '\x7b' :: more := by
      rintro more rfl same
      cases run with
      | nil =>
        obtain ⟨d, behind, rfl, rfl | rfl⟩ := stops <;> cases same
      | cons d run =>
        obtain ⟨rfl, -⟩ := List.cons.inj same
        simp [isTemplateRun] at plain
    rw [List.cons_append, templateText, if_neg (by simpa [and_assoc] using unlike), ih later]
    · simp
    · exact unfilled

private theorem part_run {run : TemplateRun} {rest : List Char} (filled : run.val ≠ []) (stops : Stops rest) :
    Quoting.template.part? (run.val ++ rest) = some (leaf "string_fragment" run.val, rest) := by
  have fragment : Quoting.template.fragment? (run.val ++ rest) = some (run.val, rest) := by
    simp [Quoting.fragment?, templateText_run run.property stops, filled]
  rw [Quoting.part?, fragment]

private theorem part_escape {body rest : List Char} (escape : EscapeBody body)
    (apart : ∀ next ∈ rest.head?, isEscape (body ++ [next]) = false) :
    Quoting.template.part? ('\\' :: (body ++ rest)) = some (leaf "escape_sequence" ('\\' :: body), rest) := by
  have fragment : Quoting.template.fragment? ('\\' :: (body ++ rest)) = none := by
    simp [Quoting.fragment?, templateText]
  rw [Quoting.part?, fragment, take_escape escape apart]
  rfl

private theorem partsOnto_run (run : TemplateRun) {rest : List Char} (stops : Stops rest) (read : List Tree) :
    Quoting.template.partsOnto read (run.val ++ rest) =
      Quoting.template.partsOnto ((Template.runTrees run).reverse ++ read) rest := by
  by_cases none : run.val = []
  · simp [Template.runTrees, none]
  · have part := part_run none stops
    obtain ⟨c, chars, first⟩ := List.exists_cons_of_ne_nil none
    have inside : c ≠ Quoting.template.mark := by
      rintro rfl
      have plain := run.property
      rw [first] at plain
      simp [isTemplateRun, Quoting.mark] at plain
    rw [first, List.cons_append] at part ⊢
    rw [partsOnto_part read inside part]
    simp [Template.runTrees, first]

/-- An escape takes nothing of a stretch behind it, nor of what follows. -/
private theorem apart_run (item : EscapedRun) {rest : List Char} (stops : Stops rest) :
    ∀ next ∈ (item.run.val ++ rest).head?, isEscape (item.escape.val ++ [next]) = false := by
  have apart := item.apart
  have escape := escapeBody_of_isEscape item.escape.property
  intro next first
  cases chars : item.run.val with
  | cons c run =>
    rw [chars] at apart first
    cases first
    simpa using apart
  | nil =>
    rw [chars] at first
    obtain ⟨c, more, rfl, mark⟩ := stops
    cases first
    -- Neither mark is a digit or the end of a line, so nothing can be added to the escape.
    by_contra longer
    rw [Bool.not_eq_false] at longer
    rcases StringLiteral.takes_of_longer escape (escapeBody_of_isEscape longer) with ⟨-, octal⟩ | ⟨-, ends⟩
    · rcases mark with rfl | rfl <;> exact absurd octal (by decide)
    · rcases mark with rfl | rfl <;> exact absurd ends (by decide)

private abbrev itemText (item : EscapedRun) : List Char := '\\' :: (item.escape.val ++ item.run.val)

private abbrev itemTrees (item : EscapedRun) : List Tree :=
  leaf "escape_sequence" ('\\' :: item.escape.val) :: Template.runTrees item.run

private theorem stops_escaped (items : List EscapedRun) (rest : List Char) :
    Stops (items.flatMap itemText ++ '\x60' :: rest) := by
  cases items with
  | nil => exact ⟨_, _, rfl, .inl rfl⟩
  | cons item items => exact ⟨_, _, rfl, .inr rfl⟩

private theorem partsOnto_escaped (items : List EscapedRun) (rest : List Char) (read : List Tree) :
    Quoting.template.partsOnto read (items.flatMap itemText ++ '\x60' :: rest) =
      some (read.reverse ++ items.flatMap itemTrees, rest) := by
  -- What was read varies: the parts of an item are put in front of it.
  induction items generalizing read with
  | nil =>
    have closed : Quoting.template.partsOnto read ('\x60' :: rest) = some (read.reverse, rest) :=
      partsOnto_mark read rest
    simpa using closed
  | cons item items ih =>
    have stops := stops_escaped items rest
    have text : (item :: items).flatMap itemText ++ '\x60' :: rest =
        '\\' :: (item.escape.val ++ (item.run.val ++ (items.flatMap itemText ++ '\x60' :: rest))) := by
      simp
    have part := part_escape (escapeBody_of_isEscape item.escape.property) (apart_run item stops)
    rw [text, partsOnto_part read (by decide) part, partsOnto_run item.run stops, ih]
    simp

private theorem token_backtick (rest : List Char) :
    token? ('\x60' :: rest) = (Quoting.template.tree? rest).map fun (tree, behind) => (.literal tree, behind) := rfl

theorem token_template (template : Template) (rest : List Char) :
    token? (template.text ++ rest) = some (.literal template.tree, rest) := by
  have parts := partsOnto_run template.first (stops_escaped template.escaped rest) []
  rw [partsOnto_escaped] at parts
  have whole : template.text ++ rest =
      '\x60' :: (template.first.val ++ (template.escaped.flatMap itemText ++ '\x60' :: rest)) := by
    simp [Template.text]
  rw [whole, token_backtick, Quoting.tree?, parts]
  simp only [Option.map_some, List.append_nil, List.reverse_reverse, Template.tree, Quoting.kind, Quoting.mark]
  rfl

end EnvAudit.Script.Direct
