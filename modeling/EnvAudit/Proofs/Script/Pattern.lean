import EnvAudit.Script.Pattern
import Mathlib.Data.Char
import Mathlib.Data.List.Basic
import Mathlib.Tactic.Tauto

/-!
# Languages of patterns

The texts that a pattern matches, and that reading a pattern one character at a time comes to the same. The longest
beginning of a text that is matched is found on the way.
-/
namespace EnvAudit.Script

namespace CharClass

theorem has_ofString (text : String) (c : Char) : (CharClass.ofString text).has c = true ↔ c ∈ text.toList := by
  simp [CharClass.ofString, CharClass.has, ← le_antisymm_iff]

theorem has_except {cls : CharClass} (plain : cls.complement = false) (c : Char) :
    cls.except.has c = true ↔ c ≠ '\x00' ∧ ¬ cls.has c = true := by
  simp [CharClass.has, except, plain]

theorem has_range (low high c : Char) : (range low high).has c = (low ≤ c && c ≤ high) := by
  simp [range, has]

theorem has_append {left right : CharClass} (plain : left.complement = false) (also : right.complement = false)
    (c : Char) : (left ++ right).has c = (left.has c || right.has c) := by
  have union : left ++ right = ⟨left.ranges ++ right.ranges, left.complement⟩ := rfl
  simp [union, has, plain, also]

end CharClass

namespace Pattern

/-- The texts that a pattern matches. -/
def Matches : Pattern → List Char → Prop
  | .empty, word => word = []
  | .one cls, word => ∃ c, word = [c] ∧ cls.has c = true
  | .text chars, word => word = chars
  | .seq first second, word => ∃ front behind, word = front ++ behind ∧ first.Matches front ∧ second.Matches behind
  | .alt first second, word => first.Matches word ∨ second.Matches word
  | .many body, word => ∃ rounds : List (List Char), word = rounds.flatten ∧ ∀ round ∈ rounds, body.Matches round

theorem matches_one (cls : CharClass) (word : List Char) :
    (one cls).Matches word ↔ ∃ c, word = [c] ∧ cls.has c = true := Iff.rfl

theorem matches_alt (first second : Pattern) (word : List Char) :
    (alt first second).Matches word ↔ first.Matches word ∨ second.Matches word := Iff.rfl

theorem isNullable_iff (pattern : Pattern) : pattern.isNullable = true ↔ pattern.Matches [] := by
  induction pattern with
  | empty => simp [isNullable, Matches]
  | one cls => simp [isNullable, Matches]
  | text chars => exact List.isEmpty_iff.trans eq_comm
  | seq first second ihFirst ihSecond =>
    simp only [isNullable, Bool.and_eq_true, ihFirst, ihSecond, Matches]
    constructor
    · rintro ⟨first, second⟩
      exact ⟨[], [], rfl, first, second⟩
    · rintro ⟨front, behind, none, first, second⟩
      obtain ⟨rfl, rfl⟩ := List.append_eq_nil_iff.mp none.symm
      exact ⟨first, second⟩
  | alt first second ihFirst ihSecond => simp only [isNullable, Bool.or_eq_true, ihFirst, ihSecond, Matches]
  | many body ih =>
    simp only [isNullable, Matches, true_iff]
    exact ⟨[], rfl, fun round member => by cases member⟩

theorem matches_text_seq {chars : List Char} {second : Pattern} (word : List Char) :
    (seq (text chars) second).Matches word ↔ ∃ rest, word = chars ++ rest ∧ second.Matches rest := by
  constructor
  · rintro ⟨_, rest, rfl, rfl, matched⟩
    exact ⟨rest, rfl, matched⟩
  · rintro ⟨rest, rfl, matched⟩
    exact ⟨chars, rest, rfl, rfl, matched⟩

section

variable {cls : CharClass}

theorem matches_one_seq {second : Pattern} (word : List Char) :
    (seq (one cls) second).Matches word ↔ ∃ c rest, word = c :: rest ∧ cls.has c = true ∧ second.Matches rest := by
  constructor
  · rintro ⟨_, rest, rfl, ⟨c, rfl, held⟩, matched⟩
    exact ⟨c, rest, rfl, held, matched⟩
  · rintro ⟨c, rest, rfl, held, matched⟩
    exact ⟨[c], rest, rfl, ⟨c, rfl, held⟩, matched⟩

theorem matches_times (count : Nat) (word : List Char) :
    (times (one cls) count).Matches word ↔ word.length = count ∧ word.all cls.has = true := by
  induction count generalizing word with
  | zero => simp +contextual [times, Matches]
  | succ count ih =>
    rw [times, matches_one_seq]
    cases word with
    | nil => simp
    | cons c rest => simp [ih, and_left_comm]

theorem matches_many (word : List Char) : (many (one cls)).Matches word ↔ word.all cls.has = true := by
  constructor
  · rintro ⟨rounds, rfl, each⟩
    simp only [List.all_flatten, List.all_eq_true]
    intro round member
    obtain ⟨c, rfl, held⟩ := each round member
    simpa using held
  · intro all
    refine ⟨word.map fun c => [c], (List.flatMap_singleton' word).symm, ?_⟩
    intro round member
    obtain ⟨c, listed, rfl⟩ := List.mem_map.mp member
    exact ⟨c, rfl, List.all_eq_true.mp all c listed⟩

theorem matches_many1 (word : List Char) : (many1 (one cls)).Matches word ↔ word ≠ [] ∧ word.all cls.has = true := by
  rw [many1, matches_one_seq]
  simp only [matches_many]
  cases word <;> simp

theorem matches_upTo (most : Nat) (word : List Char) :
    (upTo (one cls) most).Matches word ↔
      word.length ≤ most ∧ (0 < most → word ≠ []) ∧ word.all cls.has = true := by
  have tail (most : Nat) (word : List Char) :
      (upTo.tail (one cls) most).Matches word ↔ word.length ≤ most ∧ word.all cls.has = true := by
    induction most generalizing word with
    | zero => cases word <;> simp [upTo.tail, Matches]
    | succ most ih =>
      rw [upTo.tail, Matches, matches_one_seq]
      cases word with
      | nil => simp [Matches]
      | cons c rest => simp [Matches, ih]; tauto
  cases most with
  | zero => cases word <;> simp [upTo, Matches]
  | succ most =>
    rw [upTo, matches_one_seq]
    cases word with
    | nil => simp
    | cons c rest => simp [tail]; tauto

end

/-! ## One character -/

theorem matches_followedBy (first second : Pattern) (text : List Char) :
    (followedBy second first).Matches text ↔ (seq first second).Matches text := by
  cases first with
  | empty =>
    constructor
    · intro matched
      exact ⟨[], text, rfl, rfl, matched⟩
    · rintro ⟨front, behind, rfl, rfl, matched⟩
      exact matched
  | _ => exact Iff.rfl

/-- Of rounds that begin with a character, the first one that is not empty does. -/
private theorem rounds_cons {body : Pattern} {c : Char} {text : List Char} {rounds : List (List Char)}
    (spelled : c :: text = rounds.flatten) (each : ∀ round ∈ rounds, body.Matches round) :
    ∃ front behind, text = front ++ behind ∧ body.Matches (c :: front) ∧ (many body).Matches behind := by
  induction rounds with
  | nil => cases spelled
  | cons round rest ih =>
    cases round with
    | nil => exact ih spelled fun other member => each other (List.mem_cons_of_mem _ member)
    | cons first front =>
      obtain ⟨rfl, rfl⟩ := List.cons.inj spelled
      exact ⟨front, rest.flatten, rfl, each _ List.mem_cons_self, rest, rfl,
        fun other member => each other (List.mem_cons_of_mem _ member)⟩

/-- The first character of a text is one of the first part, or the first part is empty. -/
private theorem seq_cons {first second : Pattern} {c : Char} {text : List Char} :
    (seq first second).Matches (c :: text) ↔
      (∃ front behind, text = front ++ behind ∧ first.Matches (c :: front) ∧ second.Matches behind) ∨
        first.Matches [] ∧ second.Matches (c :: text) := by
  constructor
  · rintro ⟨front, behind, spelled, matched, also⟩
    cases front with
    | nil => exact .inr ⟨matched, spelled ▸ also⟩
    | cons d front =>
      obtain ⟨rfl, rfl⟩ := List.cons.inj spelled
      exact .inl ⟨front, behind, rfl, matched, also⟩
  · rintro (⟨front, behind, rfl, matched, also⟩ | ⟨matched, also⟩)
    · exact ⟨c :: front, behind, rfl, matched, also⟩
    · exact ⟨[], c :: text, rfl, matched, also⟩

/-- A text is matched if what may remain of the pattern behind its first character matches the rest. -/
theorem matches_cons_iff (pattern : Pattern) (c : Char) (text : List Char) :
    pattern.Matches (c :: text) ↔ ∃ rest ∈ pattern.advance c, rest.Matches text := by
  -- The text varies, since the second part of a sequence is tried on a shorter one.
  induction pattern generalizing text with
  | empty => simp [Matches, advance]
  | one cls => cases held : cls.has c <;> simp [Matches, advance, held]
  | text chars =>
    cases chars with
    | nil => simp [Matches, advance]
    | cons expected rest =>
      by_cases same : c = expected
      · cases rest <;> simp [Matches, advance, same]
      · simp [Matches, advance, same]
  | seq first second ihFirst ihSecond =>
    have inFirst : (∃ rest ∈ (first.advance c).map (followedBy second), rest.Matches text) ↔
        ∃ front behind, text = front ++ behind ∧ first.Matches (c :: front) ∧ second.Matches behind := by
      simp only [List.mem_map, exists_exists_and_eq_and, matches_followedBy, ihFirst]
      constructor
      · rintro ⟨rest, member, front, behind, rfl, matched, also⟩
        exact ⟨front, behind, rfl, ⟨rest, member, matched⟩, also⟩
      · rintro ⟨front, behind, rfl, ⟨rest, member, matched⟩, also⟩
        exact ⟨rest, member, front, behind, rfl, matched, also⟩
    rw [seq_cons, ← isNullable_iff, ihSecond, advance]
    cases first.isNullable with
    | false => simp [← inFirst]
    | true => simp only [true_and, if_true, List.mem_append, or_and_right, exists_or, inFirst]
  | alt first second ihFirst ihSecond =>
    simp only [Matches, advance, ihFirst, ihSecond, List.mem_append, or_and_right, exists_or]
  | many body ih =>
    simp only [advance, List.mem_map, exists_exists_and_eq_and, matches_followedBy]
    constructor
    · rintro ⟨rounds, spelled, each⟩
      obtain ⟨front, behind, rfl, matched, also⟩ := rounds_cons spelled each
      obtain ⟨rest, member, remains⟩ := (ih front).mp matched
      exact ⟨rest, member, front, behind, rfl, remains, also⟩
    · rintro ⟨rest, member, front, behind, rfl, remains, rounds, rfl, each⟩
      refine ⟨(c :: front) :: rounds, rfl, ?_⟩
      intro round listed
      rcases List.mem_cons.mp listed with rfl | later
      · exact (ih front).mpr ⟨rest, member, remains⟩
      · exact each round later

/-- A repetition goes on behind a round that is one character. -/
theorem matches_many_cons {body : Pattern} {c : Char} (round : body.advance c = [.empty]) (text : List Char) :
    (many body).Matches (c :: text) ↔ (many body).Matches text := by
  have rest : (many body).advance c = [many body] := by
    rw [advance, round]
    rfl
  rw [matches_cons_iff, rest]
  simp

/-- No repetition goes on with a character that no round begins with. -/
theorem not_matches_many_cons {body : Pattern} {c : Char} (stuck : body.advance c = []) (text : List Char) :
    ¬ (many body).Matches (c :: text) := by
  have rest : (many body).advance c = [] := by
    rw [advance, stuck]
    rfl
  rw [matches_cons_iff, rest]
  simp

/-! ## The longest match -/

/-- The longest beginning of a text that one of some patterns matches, and the text behind it. -/
def longest (patterns : List Pattern) : List Char → Option (List Char × List Char)
  | [] => if patterns.any isNullable then some ([], []) else none
  | c :: rest =>
    match longest (patterns.flatMap (advance c)) rest with
    | some (front, behind) => some (c :: front, behind)
    | none => if patterns.any isNullable then some ([], c :: rest) else none

/-- Some pattern matches a text. -/
def SomeMatches (patterns : List Pattern) (text : List Char) : Prop := ∃ pattern ∈ patterns, pattern.Matches text

@[simp] theorem someMatches_singleton (pattern : Pattern) (text : List Char) :
    SomeMatches [pattern] text ↔ pattern.Matches text := by
  simp [SomeMatches]

private theorem someMatches_nil (patterns : List Pattern) :
    SomeMatches patterns [] ↔ patterns.any isNullable = true := by
  simp only [SomeMatches, List.any_eq_true, isNullable_iff]

private theorem someMatches_cons (patterns : List Pattern) (c : Char) (text : List Char) :
    SomeMatches patterns (c :: text) ↔ SomeMatches (patterns.flatMap (advance c)) text := by
  simp only [SomeMatches, matches_cons_iff, List.mem_flatMap]
  constructor
  · rintro ⟨pattern, listed, rest, member, matched⟩
    exact ⟨rest, ⟨pattern, listed, member⟩, matched⟩
  · rintro ⟨rest, ⟨pattern, listed, member⟩, matched⟩
    exact ⟨pattern, listed, rest, member, matched⟩

/-- Where nothing is found, no beginning of the text is matched. -/
theorem longest_eq_none {patterns : List Pattern} {text : List Char} (unmatched : longest patterns text = none) :
    ∀ front, front <+: text → ¬ SomeMatches patterns front := by
  induction text generalizing patterns with
  | nil =>
    intro front begins
    rw [List.prefix_nil.mp begins, someMatches_nil]
    intro nullable
    simp [longest, nullable] at unmatched
  | cons c rest ih =>
    rw [longest] at unmatched
    split at unmatched
    · cases unmatched
    next later =>
      intro front begins
      cases front with
      | nil =>
        rw [someMatches_nil]
        intro nullable
        simp [nullable] at unmatched
      | cons d front =>
        obtain ⟨rfl, inner⟩ := List.cons_prefix_cons.mp begins
        rw [someMatches_cons]
        exact ih later front inner

/-- What is found is a match, and nothing longer is. -/
theorem longest_eq_some {patterns : List Pattern} {text front behind : List Char}
    (found : longest patterns text = some (front, behind)) :
    text = front ++ behind ∧ SomeMatches patterns front ∧
      ∀ more, more ≠ [] → more <+: behind → ¬ SomeMatches patterns (front ++ more) := by
  -- The patterns vary: behind a character what may remain of them is followed.
  induction text generalizing patterns front with
  | nil =>
    rw [longest] at found
    split at found
    next nullable =>
      cases found
      refine ⟨rfl, (someMatches_nil patterns).mpr nullable, ?_⟩
      intro more filled begins
      exact absurd (List.prefix_nil.mp begins) filled
    next => cases found
  | cons c rest ih =>
    rw [longest] at found
    split at found
    next inner behind_ later =>
      cases found
      obtain ⟨rfl, matched, most⟩ := ih later
      refine ⟨rfl, (someMatches_cons patterns c inner).mpr matched, ?_⟩
      intro more filled begins
      rw [List.cons_append, someMatches_cons]
      exact most more filled begins
    next later =>
      -- No pattern matches beyond this place, so it is the empty text that is found.
      split at found
      next nullable =>
        cases found
        refine ⟨rfl, (someMatches_nil patterns).mpr nullable, ?_⟩
        intro more filled begins
        cases more with
        | nil => exact absurd rfl filled
        | cons d more =>
          obtain ⟨rfl, inner⟩ := List.cons_prefix_cons.mp begins
          rw [List.nil_append, someMatches_cons]
          exact longest_eq_none later more inner
      next => cases found

/-- A match that nothing longer continues is what is found. -/
theorem longest_of_match {patterns : List Pattern} {front behind : List Char} (matched : SomeMatches patterns front)
    (most : ∀ more, more ≠ [] → more <+: behind → ¬ SomeMatches patterns (front ++ more)) :
    longest patterns (front ++ behind) = some (front, behind) := by
  cases found : longest patterns (front ++ behind) with
  | none => exact absurd matched (longest_eq_none found front (List.prefix_append _ _))
  | some match_ =>
    obtain ⟨other, rest⟩ := match_
    obtain ⟨spelled, also, mostOther⟩ := longest_eq_some found
    -- Of two matches at one place the shorter one would be continued by the longer one.
    rcases List.append_eq_append_iff.mp spelled with ⟨more, rfl, rfl⟩ | ⟨more, rfl, rfl⟩
    · cases more with
      | nil => simp
      | cons c more => exact absurd also (most (c :: more) (by simp) (List.prefix_append _ _))
    · cases more with
      | nil => simp
      | cons c more => exact absurd matched (mostOther (c :: more) (by simp) (List.prefix_append _ _))

/-- Of nothing no beginning is matched. -/
private theorem longest_nil (text : List Char) : longest [] text = none := by
  induction text with
  | nil => rfl
  | cons c rest ih => rw [longest, List.flatMap_nil, ih]; rfl

/-- What is found in one go, behind what was read, is the longest match. -/
theorem longestOnto_eq (read : List Char) (best : Option (List Char × List Char)) (patterns : List Pattern)
    (text : List Char) :
    longestOnto read best patterns text =
      ((longest patterns text).map fun (front, behind) => (front.reverse ++ read, behind)).or best := by
  induction text generalizing read best patterns with
  | nil =>
    rw [longestOnto, longest]
    split <;> rfl
  | cons c rest ih =>
    rw [longestOnto, longest]
    cases next : patterns.flatMap (advance c) with
    | nil =>
      rw [longest_nil]
      cases patterns.any isNullable <;> rfl
    | cons first others =>
      -- A match that ends at this place is only kept until one that ends later is found.
      refine (ih ..).trans ?_
      cases longest (first :: others) rest with
      | some found => simp
      | none => cases patterns.any isNullable <;> rfl

/-- Nothing is taken of a text that a pattern cannot begin. -/
theorem take_of_stuck {pattern : Pattern} {c : Char} (stuck : pattern.advance c = []) (rest : List Char) :
    pattern.take? (c :: rest) = none := by
  rw [take?, stuck, longestOnto_eq, longest_nil]
  rfl

/-- A match that nothing longer continues is what is taken. -/
theorem take_of_match {pattern : Pattern} {front behind : List Char} (filled : front ≠ [])
    (matched : pattern.Matches front)
    (most : ∀ more, more ≠ [] → more <+: behind → ¬ pattern.Matches (front ++ more)) :
    pattern.take? (front ++ behind) = some (front, behind) := by
  obtain ⟨c, front, rfl⟩ := List.exists_cons_of_ne_nil filled
  have remains (text : List Char) : SomeMatches (pattern.advance c) text ↔ pattern.Matches (c :: text) :=
    (matches_cons_iff pattern c text).symm
  have found : longest (pattern.advance c) (front ++ behind) = some (front, behind) := by
    apply longest_of_match ((remains front).mpr matched)
    intro more filled begins
    rw [remains]
    exact most more filled begins
  rw [List.cons_append, take?, longestOnto_eq, found]
  simp

end Pattern

end EnvAudit.Script
