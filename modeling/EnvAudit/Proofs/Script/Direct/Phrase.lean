import EnvAudit.Proofs.Script.Direct.Text
import EnvAudit.Script.Direct.Phrase

/-!
# Phrases of programs

The tokens of a program are read into its tree: those of an expression in front of any tokens and in any brackets, and
those of a statement up to its semicolon.
-/
namespace EnvAudit.Script.Direct

open EnvAudit.Script.Program
open EnvAudit.Script.Tree (word leaf)

/-! ## Free words -/

private theorem not_isLower_name (name : Identifier) : name.val.any Char.isLower = false := by
  have start {c : Char} (own : (isNameStart c || c.isDigit) = true) : c.isLower = false := by
    simp only [isNameStart, Bool.or_eq_true, isUpper_iff, isDigit_iff, decide_eq_true_eq] at own
    rw [← Bool.not_eq_true, isLower_iff]
    rcases own with (⟨-, most⟩ | rfl) | ⟨-, most⟩
    · exact fun small => absurd (UInt32.le_trans small.1 most) (by decide)
    · decide
    · exact fun small => absurd (UInt32.le_trans small.1 most) (by decide)
  obtain ⟨chars, named⟩ := name
  cases chars with
  | nil => rfl
  | cons c rest =>
    rw [isName, Bool.and_eq_true] at named
    have first := start (Bool.or_eq_true_iff.mpr (.inl named.1))
    have others : ∀ d ∈ rest, d.isLower = false := fun d member => start (List.all_eq_true.mp named.2 d member)
    simpa [first] using others

/-- No word with a meaning of its own is in capital letters, or is the object of an environment. -/
private theorem words_lower :
    words.all (fun chars => chars.any Char.isLower && chars ≠ "process".toList) = true := by
  decide +kernel

theorem isFree_name (name : Identifier) : isFree name.val = true := by
  rw [isFree, Bool.not_eq_true', ← Bool.not_eq_true, List.contains_iff_mem]
  intro member
  have small := List.all_eq_true.mp words_lower _ member
  rw [not_isLower_name] at small
  cases small

theorem isFree_process : isFree "process".toList = true := by
  rw [isFree, Bool.not_eq_true', ← Bool.not_eq_true, List.contains_iff_mem]
  intro member
  have other := List.all_eq_true.mp words_lower _ member
  simp at other

/-! ## Runs -/

/-- Some tokens lead from one reading to another. -/
def Runs (start : Reading) (tokens : List Token) (stop : Reading) : Prop := tokens.foldlM Reading.step start = some stop

namespace Runs

variable {start next stop : Reading} {token : Token} {tokens more : List Token}

theorem nil : Runs start [] start := rfl

theorem cons (stepped : start.step token = some next) (goes : Runs next tokens stop) :
    Runs start (token :: tokens) stop := by
  rw [Runs, List.foldlM_cons, stepped]
  exact goes

theorem append (begins : Runs start tokens next) (goes : Runs next more stop) : Runs start (tokens ++ more) stop := by
  rw [Runs, List.foldlM_append, begins]
  exact goes

end Runs

section

variable (levels : List Level) (front : Option Tree)

private theorem step_free {name : List Char} (free : isFree name = true) (other : name ≠ "import".toList) :
    Reading.step ⟨levels, front, .nothing⟩ (.word name) = some ⟨levels, front, .operand (leaf "identifier" name)⟩ := by
  rw [Reading.step.eq_def]
  simp only [if_neg other, if_pos free]
  rfl

private theorem step_import :
    Reading.step ⟨levels, front, .nothing⟩ (.word "import".toList) = some ⟨levels, front, .importWord⟩ := by
  rw [Reading.step.eq_def]
  exact if_pos rfl

private theorem step_name (name : Identifier) :
    Reading.step ⟨levels, front, .nothing⟩ (.word name.val) =
      some ⟨levels, front, .operand (leaf "identifier" name.val)⟩ := by
  apply step_free levels front (isFree_name name)
  intro same
  have small := not_isLower_name name
  rw [same] at small
  exact absurd small (by decide)

/-! ## Accesses -/

theorem runs_root (root : Root) :
    Runs ⟨levels, front, .nothing⟩ root.tokens ⟨levels, front, .operand root.tree⟩ := by
  cases root with
  | process => exact .cons (step_free levels front isFree_process (by decide)) (.cons rfl (.cons rfl .nil))
  | importMeta =>
    have goes : Reading.step ⟨levels, front, .importDot⟩ (.word "meta".toList) =
        some ⟨levels, front, .operand importMetaTree⟩ := by
      rw [Reading.step.eq_def]
      exact if_pos rfl
    exact .cons (step_import levels front) (.cons rfl (.cons goes (.cons rfl (.cons rfl .nil))))

theorem runs_accessor (object : Tree) (accessor : Accessor) :
    Runs ⟨levels, front, .operand object⟩ accessor.tokens ⟨levels, front, .operand (accessor.treeOf object)⟩ := by
  cases accessor with
  | name named => exact .cons rfl (.cons rfl .nil)
  | literal quoted => exact .cons rfl (.cons rfl (.cons rfl .nil))

theorem runs_firstAccessor (object : Tree) (first : FirstAccessor) :
    Runs ⟨levels, front, .operand object⟩ first.tokens ⟨levels, front, .operand (first.treeOf object)⟩ := by
  cases first with
  | plain accessor => exact runs_accessor levels front object accessor
  | «optional» name => exact .cons rfl (.cons rfl .nil)

theorem runs_access (access : Access) :
    Runs ⟨levels, front, .nothing⟩ access.tokens ⟨levels, front, .operand access.tree⟩ := by
  -- Every accessor is read behind the object that those before it make.
  have further (object : Tree) : Runs ⟨levels, front, .operand object⟩ (access.further.flatMap Accessor.tokens)
      ⟨levels, front, .operand (access.further.foldl Accessor.treeOf object)⟩ := by
    induction access.further generalizing object with
    | nil => exact .nil
    | cons accessor rest ih => exact .append (runs_accessor levels front object accessor) (ih _)
  exact .append (runs_root levels front _) (.append (runs_firstAccessor levels front _ _) (further _))

end

/-! ## Expressions -/

/-- The tokens of an expression are read in any brackets and behind any operands of a sum; the last operand is still in
the hand, for an accessor could follow. -/
def IsRead (expression : Expression) : Prop :=
  ∀ levels front, ∃ operands operand, sumOnto operands operand = expression.treeOnto front ∧
    Runs ⟨levels, front, .nothing⟩ expression.tokens ⟨levels, operands, .operand operand⟩

/-- What is one operand is in the hand as a whole. -/
private theorem isRead_operand {expression : Expression} {tree : Tree}
    (whole : ∀ front, expression.treeOnto front = sumOnto front tree)
    (runs : ∀ levels front, Runs ⟨levels, front, .nothing⟩ expression.tokens ⟨levels, front, .operand tree⟩) :
    IsRead expression :=
  fun levels front => ⟨front, tree, (whole front).symm, runs levels front⟩

/-- Expressions with commas between them are collected in a bracket, up to the last one. -/
private theorem runs_comma {items : List Expression} (each : ∀ item ∈ items, IsRead item) (filled : items ≠ [])
    {opening : Opening} (list : opening.isList = true) (levels : List Level) (front : Option Tree) (read : List Tree) :
    ∃ complete operands operand,
      complete.reverse ++ [sumOnto operands operand] = read.reverse ++ Expression.treesOf items ∧
      Runs ⟨⟨opening, read, front⟩ :: levels, none, .nothing⟩ (commaTokens (items.map Expression.tokens))
        ⟨⟨opening, complete, front⟩ :: levels, operands, .operand operand⟩ := by
  -- At every comma an expression moves from the hand to the items of the bracket, so these vary.
  induction items generalizing read with
  | nil => exact absurd rfl filled
  | cons item rest ih =>
    obtain ⟨own, later⟩ := List.forall_mem_cons.mp each
    obtain ⟨operands, operand, tree, runs⟩ := own (⟨opening, read, front⟩ :: levels) none
    cases rest with
    | nil =>
      refine ⟨read, operands, operand, ?_, ?_⟩
      · rw [tree]
        rfl
      · rwa [List.map_singleton, commaTokens_singleton]
    | cons next rest =>
      obtain ⟨complete, last, hand, trees, goes⟩ :=
        ih later (List.cons_ne_nil _ _) (sumOnto operands operand :: read)
      refine ⟨complete, last, hand, ?_, ?_⟩
      · rw [trees, tree, List.reverse_cons, List.append_assoc]
        rfl
      · have separated : Reading.step ⟨⟨opening, read, front⟩ :: levels, operands, .operand operand⟩ (.mark .comma) =
            some ⟨⟨opening, sumOnto operands operand :: read, front⟩ :: levels, none, .nothing⟩ := by
          simp [Reading.step, Reading.separates?, list]
        rw [List.map_cons, List.map_cons, commaTokens_cons]
        exact runs.append (.cons separated goes)

/-- A bracket around expressions with commas between them is read into the tree that it makes of them. -/
private theorem runs_list {items : List Expression} (each : ∀ item ∈ items, IsRead item) (opening : Opening)
    (list : opening.isList = true) {bracket : Bracket} {build : List Tree → Tree} (levels : List Level)
    (front : Option Tree) (none : Level.close? ⟨opening, [], front⟩ bracket none = some (build []))
    (some_ : ∀ complete last,
      Level.close? ⟨opening, complete, front⟩ bracket (some last) = some (build (complete.reverse ++ [last]))) :
    Runs ⟨⟨opening, [], front⟩ :: levels, .none, .nothing⟩
      (commaTokens (items.map Expression.tokens) ++ [.mark (.closing bracket)])
      ⟨levels, front, .operand (build (Expression.treesOf items))⟩ := by
  by_cases filled : items = []
  · subst filled
    have closed : Reading.step ⟨⟨opening, [], front⟩ :: levels, .none, .nothing⟩ (.mark (.closing bracket)) =
        some ⟨levels, front, .operand (build [])⟩ := by
      simp [Reading.step, Reading.closes?, none]
    exact .cons closed .nil
  · obtain ⟨complete, operands, operand, trees, goes⟩ := runs_comma each filled list levels front []
    have closed : Reading.step ⟨⟨opening, complete, front⟩ :: levels, operands, .operand operand⟩
        (.mark (.closing bracket)) = some ⟨levels, front, .operand (build (Expression.treesOf items))⟩ := by
      rw [List.reverse_nil, List.nil_append] at trees
      simp [Reading.step, Reading.closes?, some_, trees]
    exact goes.append (.cons closed .nil)

mutual

theorem isRead_expression : ∀ expression : Expression, IsRead expression
  | .access taken => isRead_operand (fun _ => rfl) fun levels front => runs_access levels front taken
  | .name named => isRead_operand (fun _ => rfl) fun levels front =>
    .cons (step_name levels front named) .nil
  | .literal quoted => isRead_operand (fun _ => rfl) fun levels front => .cons rfl .nil
  | .template filled => isRead_operand (fun _ => rfl) fun levels front => .cons rfl .nil
  | .computed named => by
    apply isRead_operand fun _ => rfl
    intro levels front
    -- The name is read in the brackets of the index, which are closed behind it.
    have index := step_name (⟨.index Root.process.tree, [], front⟩ :: levels) none named
    exact .append (runs_root levels front .process) (.cons rfl (.cons index (.cons rfl .nil)))
  | .group inner => by
    apply isRead_operand fun _ => rfl
    intro levels front
    -- In the brackets a new sum begins; the operands before them wait there.
    obtain ⟨operands, operand, tree, runs⟩ := isRead_expression inner (⟨.group, [], front⟩ :: levels) none
    rw [← tree]
    exact .cons rfl (runs.append (.cons rfl .nil))
  | .array items => by
    apply isRead_operand fun _ => rfl
    intro levels front
    rw [Expression.tokens, Expression.tokensOf_eq_map]
    refine .cons rfl (runs_list (isRead_expressions items) .array rfl levels front rfl ?_)
    intro complete last
    cases complete <;> rfl
  | .call callee arguments => by
    apply isRead_operand fun _ => rfl
    intro levels front
    rw [Expression.tokens, Expression.tokensOf_eq_map]
    refine .cons (step_name levels front callee) (.cons rfl ?_)
    refine runs_list (isRead_expressions arguments) (.call _) rfl levels front rfl ?_
    intro complete last
    cases complete <;> rfl
  | .sum left right => by
    intro levels front
    obtain ⟨operands, operand, tree, runs⟩ := isRead_expression left levels front
    obtain ⟨others, last, whole, goes⟩ := isRead_expression right levels (some (left.treeOnto front))
    refine ⟨others, last, whole, ?_⟩
    -- Everything before the mark is the left operand of what is behind it.
    have plus : Reading.step ⟨levels, operands, .operand operand⟩ (.mark .plus) =
        some ⟨levels, some (left.treeOnto front), .nothing⟩ := by
      rw [← tree]
      rfl
    rw [Expression.tokens]
    exact runs.append (.cons plus goes)

theorem isRead_expressions : ∀ expressions : List Expression, ∀ expression ∈ expressions, IsRead expression
  | [] => List.forall_mem_nil _
  | expression :: rest => List.forall_mem_cons.mpr ⟨isRead_expression expression, isRead_expressions rest⟩

end

/-! ## Statements -/

section

variable (specifier : Specifier) (read : List Tree) (rest : List Token)

end

/-- Whether a token can stand in a statement. -/
private def isInner : Token → Bool
  | .comment _ | .mark .lineBreak | .mark .semicolon => false
  | _ => true

/-- The tokens of a statement are collected, whatever is behind them. -/
private theorem statementsOnto_inner {tokens : List Token} (inner : ∀ token ∈ tokens, isInner token = true)
    (read : List Tree) (collected rest : List Token) :
    statementsOnto read collected (tokens ++ rest) = statementsOnto read (tokens.reverse ++ collected) rest := by
  induction tokens generalizing collected with
  | nil => rfl
  | cons token tokens ih =>
    obtain ⟨own, later⟩ := List.forall_mem_cons.mp inner
    have collects (rest : List Token) :
        statementsOnto read collected (token :: rest) = statementsOnto read (token :: collected) rest := by
      cases token with
      | comment text => cases own
      | mark mark => cases mark <;> first | rfl | cases own
      | word text => rfl
      | literal tree => rfl
    rw [List.cons_append, collects, ih later, List.reverse_cons, List.append_assoc]
    rfl

/-- What is read into an expression can stand in a statement. -/
private theorem inner_of_runs {start stop : Reading} {tokens : List Token} (runs : Runs start tokens stop) :
    ∀ token ∈ tokens, isInner token = true := by
  induction tokens generalizing start with
  | nil => exact List.forall_mem_nil _
  | cons token tokens ih =>
    rw [Runs, List.foldlM_cons] at runs
    obtain ⟨next, stepped, goes⟩ := Option.bind_eq_some_iff.mp runs
    refine List.forall_mem_cons.mpr ⟨?_, ih goes⟩
    -- No step takes any other token, whatever is in the hand.
    by_contra outer
    obtain ⟨levels, front, hand⟩ := start
    unfold isInner at outer
    split at outer
    · cases hand <;> cases stepped
    · cases hand <;> cases stepped
    · cases hand <;> cases stepped
    · exact outer rfl

/-- The tokens of an expression alone are read into a statement that the text ends with. -/
theorem statements_runs {tokens : List Token} {tree : Tree}
    (runs : Runs ⟨[], none, .nothing⟩ tokens ⟨[], none, .operand tree⟩) :
    statements? tokens = some [lastStatementTree tree] := by
  have filled : tokens.reverse.isEmpty = false := by
    rw [List.isEmpty_eq_false_iff, ne_eq, List.reverse_eq_nil_iff]
    rintro rfl
    cases runs
  have found : expression? tokens = some tree := by
    rw [expression?, runs]
    rfl
  have collected := statementsOnto_inner (inner_of_runs runs) [] [] []
  rw [List.append_nil, List.append_nil] at collected
  rw [statements?, collected, statementsOnto, filled, List.reverse_reverse, found]
  rfl

end EnvAudit.Script.Direct
