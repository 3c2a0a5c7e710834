import EnvAudit.Proofs.Script.Direct.Literal
import EnvAudit.Proofs.Script.Direct.Token

/-!
# Tokens of programs

The tokens of the programs of the fragment, and that their texts are divided into these.
-/
namespace EnvAudit.Script

/-! ## Tokens by the parts of a program -/

namespace Program

open EnvAudit.Script.Direct (Token)

def Root.tokens : Root → List Token
  | process => [.word "process".toList, .mark .dot, .word "env".toList]
  | importMeta =>
    [.word "import".toList, .mark .dot, .word "meta".toList, .mark .dot, .word "env".toList]

def Accessor.tokens : Accessor → List Token
  | name named => [.mark .dot, .word named.val]
  | literal quoted => [.mark (.opening .square), .literal quoted.tree, .mark (.closing .square)]

def FirstAccessor.tokens : FirstAccessor → List Token
  | plain accessor => accessor.tokens
  | optional name => [.mark .chain, .word name.val]

def Access.tokens (access : Access) : List Token :=
  access.root.tokens ++ (access.first.tokens ++ access.further.flatMap Accessor.tokens)

/-- Tokens with commas between them. -/
def commaTokens (lists : List (List Token)) : List Token := List.intercalate [.mark .comma] lists

theorem commaTokens_singleton (own : List Token) : commaTokens [own] = own := by
  simp [commaTokens]

theorem commaTokens_cons (own next : List Token) (rest : List (List Token)) :
    commaTokens (own :: next :: rest) = own ++ .mark .comma :: commaTokens (next :: rest) := by
  simp [commaTokens, List.intercalate]

namespace Expression

mutual

def tokens : Expression → List Token
  | access taken => taken.tokens
  | name named => [.word named.val]
  | literal quoted => [.literal quoted.tree]
  | template filled => [.literal filled.tree]
  | computed named =>
    Root.process.tokens ++ [.mark (.opening .square), .word named.val, .mark (.closing .square)]
  | group inner => .mark (.opening .round) :: (inner.tokens ++ [.mark (.closing .round)])
  | array items => .mark (.opening .square) :: (commaTokens (tokensOf items) ++ [.mark (.closing .square)])
  | call callee arguments =>
    .word callee.val :: .mark (.opening .round) :: (commaTokens (tokensOf arguments) ++ [.mark (.closing .round)])
  | sum left right => left.tokens ++ .mark .plus :: right.tokens

def tokensOf : List Expression → List (List Token)
  | [] => []
  | expression :: rest => expression.tokens :: tokensOf rest

end

theorem textsOf_eq_map (expressions : List Expression) : textsOf expressions = expressions.map text := by
  induction expressions with
  | nil => rfl
  | cons expression rest ih => rw [textsOf, ih, List.map_cons]

theorem tokensOf_eq_map (expressions : List Expression) : tokensOf expressions = expressions.map tokens := by
  induction expressions with
  | nil => rfl
  | cons expression rest ih => rw [tokensOf, ih, List.map_cons]

end Expression

def Specifier.tokens (specifier : Specifier) : List Token :=
  .word specifier.name.val ::
    match specifier.renamed with
    | none => []
    | some renamed => [.word "as".toList, .word renamed.val]

def Import.tokens (statement : Import) : List Token :=
  .word "import".toList :: .mark (.opening .curly) :: (commaTokens (statement.specifiers.map Specifier.tokens) ++
    [.mark (.closing .curly), .word "from".toList, .literal statement.source.tree])

def Piece.tokens : Piece → List Token
  | expression whole => whole.tokens ++ [.mark .semicolon, .mark .lineBreak]
  | imports statement => statement.tokens ++ [.mark .semicolon, .mark .lineBreak]
  | line text => [.comment (lineComment text), .mark .lineBreak]
  | block text last => .comment (blockComment text) :: if last then [.mark .lineBreak] else []

end Program

namespace Direct

open EnvAudit.Script.Program

/-! ## Reading -/

/-- A text is divided into some tokens, whatever was read before it. -/
def Reads (text : List Char) (tokens : List Token) : Prop :=
  ∀ read, tokensOnto read text = some (read.reverse ++ tokens)

private theorem isBlank_of_token {c : Char} {text rest : List Char} {token : Token}
    (first : token? (c :: text) = some (token, rest)) : isBlank c = false := by
  by_contra blank
  have none : token? (c :: text) = none := by
    simp only [isBlank, Bool.not_eq_false, Bool.or_eq_true, decide_eq_true_eq] at blank
    rcases blank with rfl | rfl <;> cases text <;> rfl
  rw [none] at first
  cases first

namespace Reads

theorem nil : Reads [] [] := by
  intro read
  simp [tokensOnto]

variable {text rest : List Char} {tokens : List Token}

theorem blank (reads : Reads rest tokens) : Reads (' ' :: rest) tokens := by
  intro read
  rw [tokensOnto, if_pos (by decide), reads]

theorem token {token : Token} (first : token? text = some (token, rest)) (reads : Reads rest tokens) :
    Reads text (token :: tokens) := by
  intro read
  cases text with
  | nil => cases first
  | cons c text =>
    have dark : ¬ isBlank c = true := by simp [isBlank_of_token first]
    rw [tokensOnto, if_neg dark]
    split
    next other =>
      rw [first] at other
      cases other
      rw [reads, List.reverse_cons, List.append_assoc, List.singleton_append]
    next none => simp [first] at none

end Reads

/-! ## Spelling -/

theorem Parted.append {front rest : List Char} (parted : Parted front) (also : Parted rest) :
    Parted (front ++ rest) := by
  cases front with
  | nil => exact also
  | cons c front => exact parted

/-- A text is divided into some tokens in front of everything that does not go on with its last word. -/
def Spells (text : List Char) (own : List Token) : Prop :=
  ∀ rest tokens, Parted rest → Reads rest tokens → Reads (text ++ rest) (own ++ tokens)

namespace Spells

variable {text front behind : List Char} {own first second : List Token}

theorem nil : Spells [] [] := fun _ _ _ reads => reads

theorem append (begins : Spells front first) (goes : Spells behind second) (parted : Parted behind) :
    Spells (front ++ behind) (first ++ second) := by
  intro rest tokens ends reads
  rw [List.append_assoc, List.append_assoc]
  -- The second text keeps the last word of the first one apart, or is empty and leaves that to the rest.
  exact begins _ _ (parted.append ends) (goes _ _ ends reads)

theorem blank (spells : Spells text own) : Spells (' ' :: text) own := by
  intro rest tokens ends reads
  exact (spells _ _ ends reads).blank

theorem mark {c : Char} {mark : Mark} (known : Mark.ofChar? c = some mark) (spells : Spells text own) :
    Spells (c :: text) (.mark mark :: own) := by
  intro rest tokens ends reads
  exact .token (token_mark known _) (spells _ _ ends reads)

theorem chain (spells : Spells text own) : Spells ('?' :: '.' :: text) (.mark .chain :: own) := by
  intro rest tokens ends reads
  exact .token (token_chain _) (spells _ _ ends reads)

theorem word (name : List Char) (word : isWord name = true) : Spells name [.word name] := by
  intro rest tokens ends reads
  exact .token (token_word word ends) reads

theorem name (name : Identifier) : Spells name.val [.word name.val] := word name.val (isWord_of_isName name.property)

theorem quoted (quoted : Quoted) : Spells quoted.text [.literal quoted.tree] := by
  intro rest tokens ends reads
  exact .token (token_quoted quoted rest) reads

theorem template (template : Template) : Spells template.text [.literal template.tree] := by
  intro rest tokens ends reads
  exact .token (token_template template rest) reads

/-- Texts with commas between them are divided at the commas. -/
theorem comma {α : Type} {text : α → List Char} {tokens : α → List Token} {items : List α}
    (each : ∀ item ∈ items, Spells (text item) (tokens item)) :
    Spells (commaText (items.map text)) (commaTokens (items.map tokens)) := by
  induction items with
  | nil => exact nil
  | cons item rest ih =>
    obtain ⟨own, later⟩ := List.forall_mem_cons.mp each
    cases rest with
    | nil => simpa [commaText, commaTokens_singleton] using own
    | cons next rest =>
      have whole := append own (mark (c := ',') rfl (blank (ih later))) (by intro c first; cases first; decide)
      simpa [commaText, commaTokens_cons, List.intercalate] using whole

end Spells

/-! ## Expressions -/

theorem parted_of_head {c : Char} {rest : List Char} (stops : c ∈ " .?[](),;".toList) : Parted (c :: rest) := by
  intro d first
  cases first
  exact stops

theorem spells_root (root : Root) : Spells root.text root.tokens := by
  have env : Spells ('.' :: "env".toList) [.mark .dot, .word "env".toList] := .mark rfl (.word _ (by decide))
  cases root with
  | process => exact .append (.word "process".toList (by decide)) env (parted_of_head (by decide))
  | importMeta =>
    have inner : Spells ("meta".toList ++ '.' :: "env".toList) [.word "meta".toList, .mark .dot, .word "env".toList] :=
      .append (.word _ (by decide)) env (parted_of_head (by decide))
    exact .append (.word "import".toList (by decide)) (.mark (c := '.') rfl inner) (parted_of_head (by decide))

theorem spells_accessor (accessor : Accessor) : Spells accessor.text accessor.tokens := by
  cases accessor with
  | name named => exact .mark rfl (.name named)
  | literal quoted => exact .mark rfl (.append (.quoted quoted) (.mark rfl .nil) (parted_of_head (by decide)))

theorem parted_accessor (accessor : Accessor) : Parted accessor.text := by
  cases accessor <;> exact parted_of_head (by decide)

theorem spells_firstAccessor (first : FirstAccessor) : Spells first.text first.tokens := by
  cases first with
  | plain accessor => exact spells_accessor accessor
  | «optional» name => exact .chain (.name name)

theorem parted_firstAccessor (first : FirstAccessor) : Parted first.text := by
  cases first with
  | plain accessor => exact parted_accessor accessor
  | «optional» name => exact parted_of_head (by decide)

private theorem parted_further (further : List Accessor) : Parted (further.flatMap Accessor.text) := by
  induction further with
  | nil => intro c none; cases none
  | cons accessor rest ih => exact (parted_accessor accessor).append ih

theorem spells_access (access : Access) : Spells access.text access.tokens := by
  -- Each accessor begins with a mark, which ends the word before it.
  have further : Spells (access.further.flatMap Accessor.text) (access.further.flatMap Accessor.tokens) := by
    induction access.further with
    | nil => exact .nil
    | cons accessor rest ih => exact .append (spells_accessor accessor) ih (parted_further rest)
  rw [Access.text, List.append_assoc, Access.tokens]
  exact .append (spells_root _) (.append (spells_firstAccessor _) further (parted_further _))
    ((parted_firstAccessor _).append (parted_further _))

mutual

theorem spells_expression : ∀ expression : Expression, Spells expression.text expression.tokens
  | .access taken => spells_access taken
  | .name named => .name named
  | .literal quoted => .quoted quoted
  | .template filled => .template filled
  | .computed named => by
    have index : Spells ('[' :: (named.val ++ [']']))
        [.mark (.opening .square), .word named.val, .mark (.closing .square)] :=
      .mark rfl (.append (.name named) (.mark rfl .nil) (parted_of_head (by decide)))
    rw [Expression.text, Expression.tokens]
    exact .append (spells_root .process) index (parted_of_head (by decide))
  | .group inner => by
    rw [Expression.text, Expression.tokens]
    exact .mark rfl (.append (spells_expression inner) (.mark rfl .nil) (parted_of_head (by decide)))
  | .array items => by
    rw [Expression.text, Expression.tokens, Expression.textsOf_eq_map, Expression.tokensOf_eq_map]
    exact .mark rfl (.append (.comma (spells_expressions items)) (.mark rfl .nil) (parted_of_head (by decide)))
  | .call callee arguments => by
    rw [Expression.text, Expression.tokens, Expression.textsOf_eq_map, Expression.tokensOf_eq_map]
    -- The callee ends at the bracket, and the last argument at the other one.
    have inside : Spells (commaText (arguments.map Expression.text) ++ [')'])
        (commaTokens (arguments.map Expression.tokens) ++ [.mark (.closing .round)]) :=
      .append (.comma (spells_expressions arguments)) (.mark rfl .nil) (parted_of_head (by decide))
    exact .append (.name callee) (.mark rfl inside) (parted_of_head (by decide))
  | .sum left right => by
    rw [Expression.text, Expression.tokens]
    exact .append (spells_expression left) (.blank (.mark rfl (.blank (spells_expression right))))
      (parted_of_head (by decide))

theorem spells_expressions : ∀ expressions : List Expression,
    ∀ expression ∈ expressions, Spells expression.text expression.tokens
  | [] => List.forall_mem_nil _
  | expression :: rest => List.forall_mem_cons.mpr ⟨spells_expression expression, spells_expressions rest⟩

end

/-! ## Statements -/

end Direct

end EnvAudit.Script
