import SystemsProjects.Lc.Linking
import Mathlib.Data.List.DropRight

/-!
# What becomes of the text of a line

A line is taken apart into a label, an opcode and its operands, and the operands into
registers, numbers and shifts. What the expressions leave out, and what the word has no
digits for, is lost.
-/

namespace SystemsProjects.Lc

open Digits Regex Pattern

section

variable (u : Unicode)

/-! ## The parts of a line -/

/-- The label, and the text behind it and the spaces. -/
def splitLabel (text : Text) : Option Text × Text :=
  let start := text.dropWhile u.isSpace
  let name := start.takeWhile u.isWord
  let rest := start.dropWhile u.isWord
  if name ≠ [] ∧ rest.head? = some ':' then (some name, rest.tail.dropWhile u.isSpace) else
    (none, start)

/-- The opcode and the text behind it, up to the comment. -/
def splitOpcode (text : Text) : Option (Text × Text) :=
  let dot := if text.head? = some '.' then ['.'] else []
  let rest := text.drop dot.length
  let name := rest.takeWhile u.isWord
  if name = [] then none else some (dot ++ name, (rest.dropWhile u.isWord).takeWhile fun c =>
    c != '!')

variable {u} {text : Text}

theorem head_spaces (text : Text) :
    (spaces u text).head? = some (text.takeWhile u.isSpace, text.dropWhile u.isSpace) :=
  head_many u.isSpace text

theorem head_label (text : Text) :
    (optional (do
      let name ← many1 u.isWord
      let _ ← char ':'
      return name : Pattern Text) text).head? =
    if text.takeWhile u.isWord ≠ [] ∧ (text.dropWhile u.isWord).head? = some ':' then
      some (some (text.takeWhile u.isWord), (text.dropWhile u.isWord).tail)
    else some (none, text) := by
  have colon : u.isWord ':' = false := u.isWord_ascii ':' (by decide)
  rw [head_optional, many1_char colon]
  by_cases here : text.takeWhile u.isWord ≠ [] ∧ (text.dropWhile u.isWord).head? = some ':'
  · rw [if_pos here, if_pos here]
    rfl
  · rw [if_neg here, if_neg here]
    rfl

/-- The opcode behind the dot, if there is one, and its operands. -/
def opcodeBehind (u : Unicode) (dot : Option Char) : Pattern (Text × Text) := do
  let name ← many1 u.isWord
  let operands ← many fun c => c != '!'
  return (dot.toList ++ name, operands)

theorem head_opcodeBehind (dot : Option Char) (rest : Text) :
    (opcodeBehind u dot rest).head?.map Prod.fst =
    if rest.takeWhile u.isWord = [] then none
    else some (dot.toList ++ rest.takeWhile u.isWord, (rest.dropWhile u.isWord).takeWhile fun c =>
      c != '!') := by
  unfold opcodeBehind
  rw [head_bind fun name => (Total.many _).bind fun operands => Total.pure _, head_many1]
  by_cases none : rest.takeWhile u.isWord = []
  · rw [if_pos none, if_pos none]
    rfl
  · rw [if_neg none, if_neg none, Option.bind_some, head_bind fun operands => Total.pure _,
      head_many]
    rfl

theorem dotted_opcode (text : Text) :
    (optional (char '.') >>= opcodeBehind u) text =
      if text.head? = some '.' then opcodeBehind u (some '.') text.tail
      else opcodeBehind u none text := by
  have mark : u.isWord '.' = false := u.isWord_ascii '.' (by decide)
  cases text with
  | nil => rfl
  | cons c rest =>
    by_cases dotted : c = '.'
    · subst dotted
      have stuck : opcodeBehind u none ('.' :: rest) = [] := by
        simp [opcodeBehind, many1, one, mark]
      simp [Pattern.optional, char, one, stuck]
    · simp [Pattern.optional, char, one, dotted]

theorem head_opcode (text : Text) :
    (optional (optional (char '.') >>= opcodeBehind u) text).head?.map Prod.fst =
    some (splitOpcode u text) := by
  have named : ((optional (char '.') >>= opcodeBehind u) text).head?.map Prod.fst =
      splitOpcode u text := by
    rw [dotted_opcode]
    unfold splitOpcode
    by_cases dotted : text.head? = some '.'
    · rw [if_pos dotted, if_pos dotted, head_opcodeBehind, ← List.drop_one]
      rfl
    · rw [if_neg dotted, if_neg dotted, head_opcodeBehind]
      rfl
  rw [head_optional, ← named]
  cases ((optional (char '.') >>= opcodeBehind u) text).head? with
  | none => rfl
  | some way => rfl

/-- The expression behind the label and the spaces. -/
def behindLabel (u : Unicode) (label : Option Text) :
    Pattern (Option Text × Option (Text × Text)) := do
  let instruction ← optional (optional (char '.') >>= opcodeBehind u)
  let _ ← optional do
    let _ ← char '!'
    many fun _ => true
  return (label, instruction)

theorem total_behindLabel (label : Option Text) : Total (behindLabel u label) :=
  (Total.optional _).bind fun _ => (Total.optional _).bind fun _ => Total.pure _

theorem first_behindLabel (label : Option Text) (rest : Text) :
    first (behindLabel u label) rest = some (label, splitOpcode u rest) := by
  have opcode := head_opcode (u := u) rest
  unfold first behindLabel
  rw [head_bind fun instruction => (Total.optional _).bind fun _ => Total.pure _]
  cases found : (optional (optional (char '.') >>= opcodeBehind u) rest).head? with
  | none =>
    rw [found] at opcode
    cases opcode
  | some way =>
    rw [found] at opcode
    rw [Option.bind_some, head_bind fun _ => Total.pure _, head_optional, ← Option.some.inj opcode]
    rfl

/-- What the assembler takes for the parts of a line. -/
theorem getParts_eq (text : Text) :
    getParts u text = ((splitLabel u text).1, splitOpcode u (splitLabel u text).2) := by
  have start : reParts u = (spaces u >>= fun _ => optional (do
      let name ← many1 u.isWord
      let _ ← char ':'
      return name) >>= fun label => spaces u >>= fun _ => behindLabel u label) := rfl
  have total : ∀ label : Option Text, Total (spaces u >>= fun _ => behindLabel u label) :=
    fun label => (Total.many _).bind fun _ => total_behindLabel label
  have whole : first (reParts u) text = some ((splitLabel u text).1,
      splitOpcode u (splitLabel u text).2) := by
    have first' : ∀ label rest, ((spaces u >>= fun _ => behindLabel u label) rest).head?.map
      Prod.fst =
        some (label, splitOpcode u (rest.dropWhile u.isSpace)) := by
      intro label rest
      rw [head_bind fun _ => total_behindLabel label, head_spaces, Option.bind_some]
      exact first_behindLabel label _
    unfold first
    rw [start, head_bind fun _ => (Total.optional _).bind total, head_spaces, Option.bind_some,
      head_bind total, head_label]
    unfold splitLabel
    dsimp only
    split
    · rw [Option.bind_some, first']
    · rw [Option.bind_some, first', List.dropWhile_idempotent]
  unfold getParts
  rw [whole]
  rfl

/-! ## What the parts leave out -/

/-- The label as it stands in the line. -/
def labelText : Option Text → Text
  | some name => name ++ [':']
  | none => []

def opcodeText : Option (Text × Text) → Text
  | some (op, operands) => op ++ operands
  | none => []

/-- But for spaces, the text before the comment is all in the parts. -/
def Accounted (u : Unicode) (text : Text) : Prop :=
  ∃ indent gap, indent.all u.isSpace ∧ gap.all u.isSpace ∧
    text.takeWhile (fun c => c != '!') = indent ++ labelText (getParts u text).1 ++ gap ++
    opcodeText (getParts u text).2

/-- The text begins like an opcode. -/
def beginsOpcode (u : Unicode) : Text → Bool
  | '.' :: c :: _ => u.isWord c
  | c :: _ => u.isWord c
  | [] => false

/-- Behind the label and the spaces the line ends, or its comment begins, or an opcode. -/
def Continues (u : Unicode) (text : Text) : Prop :=
  let rest := (splitLabel u text).2
  rest = [] ∨ rest.head? = some '!' ∨ beginsOpcode u rest

theorem splitOpcode_dot (tail : Text) : splitOpcode u ('.' :: tail) =
    if tail.takeWhile u.isWord = [] then none
    else some ('.' :: tail.takeWhile u.isWord, (tail.dropWhile u.isWord).takeWhile fun c =>
      c != '!') := rfl

theorem splitOpcode_plain {rest : Text} (plain : rest.head? ≠ some '.') : splitOpcode u rest =
    if rest.takeWhile u.isWord = [] then none
    else some (rest.takeWhile u.isWord, (rest.dropWhile u.isWord).takeWhile fun c => c != '!') := by
  unfold splitOpcode
  rw [if_neg plain]
  rfl

theorem takeWhile_eq_nil {p : Char → Bool} {rest : Text} :
    rest.takeWhile p = [] ↔ ∀ c ∈ rest.head?, p c = false := by
  cases rest with
  | nil => simp
  | cons c rest => simp [List.takeWhile_cons]

theorem dotted_or (rest : Text) : (∃ tail, rest = '.' :: tail) ∨ rest.head? ≠ some '.' := by
  cases rest with
  | nil => exact Or.inr nofun
  | cons c tail =>
    by_cases dotted : c = '.'
    · exact Or.inl ⟨tail, by rw [dotted]⟩
    · exact Or.inr fun same => dotted (Option.some.inj same)

theorem beginsOpcode_plain {rest : Text} (plain : rest.head? ≠ some '.') :
    beginsOpcode u rest = false ↔ ∀ c ∈ rest.head?, u.isWord c = false := by
  unfold beginsOpcode
  split
  · exact absurd rfl plain
  · simp
  · simp

/-- An opcode has been found where the text begins like one. -/
theorem splitOpcode_eq_none (rest : Text) : splitOpcode u rest = none ↔
    beginsOpcode u rest = false := by
  have mark : u.isWord '.' = false := u.isWord_ascii '.' (by decide)
  rcases dotted_or rest with ⟨tail, rfl⟩ | plain
  · have begins : beginsOpcode u ('.' :: tail) = false ↔ tail.takeWhile u.isWord = [] := by
      rw [takeWhile_eq_nil]
      cases tail <;> simp [beginsOpcode, mark]
    rw [splitOpcode_dot, begins]
    simp
  · rw [splitOpcode_plain plain, beginsOpcode_plain plain, ← takeWhile_eq_nil]
    simp

theorem word_ne_mark {c : Char} (word : u.isWord c = true) : (c != '!') = true := by
  have mark : u.isWord '!' = false := u.isWord_ascii '!' (by decide)
  have ne : c ≠ '!' := by
    rintro rfl
    rw [mark] at word
    cases word
  simp [ne]

theorem splitOpcode_text {rest : Text} (begins : beginsOpcode u rest) :
    opcodeText (splitOpcode u rest) = rest.takeWhile fun c => c != '!' := by
  have found : splitOpcode u rest ≠ none := by
    rw [ne_eq, splitOpcode_eq_none, begins]
    exact Bool.noConfusion
  have before : ∀ tail : Text, tail.takeWhile u.isWord ++
    (tail.dropWhile u.isWord).takeWhile (fun c => c != '!') =
      tail.takeWhile fun c => c != '!' := by
    intro tail
    have inside : ∀ c ∈ tail.takeWhile u.isWord, (c != '!') = true :=
      fun c mem => word_ne_mark (List.mem_takeWhile_imp mem)
    rw [← List.takeWhile_append_of_pos inside, List.takeWhile_append_dropWhile]
  rcases dotted_or rest with ⟨tail, rfl⟩ | plain
  · rw [splitOpcode_dot] at found ⊢
    have name : tail.takeWhile u.isWord ≠ [] := fun none => found (if_pos none)
    rw [if_neg name, opcodeText, List.cons_append, before, List.takeWhile_cons_of_pos (by decide)]
  · rw [splitOpcode_plain plain] at found ⊢
    have name : rest.takeWhile u.isWord ≠ [] := fun none => found (if_pos none)
    rw [if_neg name, opcodeText, before]

theorem splitLabel_text (text : Text) : ∃ gap, gap.all u.isSpace ∧
    text = text.takeWhile u.isSpace ++ labelText (splitLabel u text).1 ++ gap ++
    (splitLabel u text).2 := by
  unfold splitLabel
  dsimp only
  split
  · next labelled =>
    obtain ⟨rest, colon⟩ : ∃ rest, (text.dropWhile u.isSpace).dropWhile u.isWord = ':' :: rest := by
      cases found : (text.dropWhile u.isSpace).dropWhile u.isWord with
      | nil =>
        rw [found] at labelled
        cases labelled.2
      | cons c rest =>
        rw [found] at labelled
        exact ⟨rest, by rw [Option.some.inj labelled.2]⟩
    refine ⟨rest.takeWhile u.isSpace, List.all_takeWhile, ?_⟩
    have behind := List.takeWhile_append_dropWhile (p := u.isWord) (l := text.dropWhile u.isSpace)
    rw [colon] at behind
    rw [colon, List.tail_cons]
    have whole := List.takeWhile_append_dropWhile (p := u.isSpace) (l := text)
    generalize (text.dropWhile u.isSpace).takeWhile u.isWord = name at behind
    rw [← behind] at whole
    simp only [labelText, List.append_assoc, List.cons_append, List.nil_append,
      List.takeWhile_append_dropWhile, whole]
  · refine ⟨[], rfl, ?_⟩
    simp [labelText]

theorem isSpace_ne_mark {c : Char} (space : u.isSpace c = true) : (c != '!') = true := by
  have mark : u.isSpace '!' = false := u.isSpace_ascii '!' (by decide)
  have ne : c ≠ '!' := by
    rintro rfl
    rw [mark] at space
    cases space
  simp [ne]

theorem splitLabel_word {text name : Text} (found : (splitLabel u text).1 = some name) :
    ∀ c ∈ name, u.isWord c = true := by
  unfold splitLabel at found
  dsimp only at found
  split at found
  · cases found
    exact fun c mem => List.mem_takeWhile_imp mem
  · cases found

/-- No comment begins in the label or around it. -/
theorem splitLabel_comment (text : Text) : ∃ gap, gap.all u.isSpace ∧
    text.takeWhile (fun c => c != '!') = text.takeWhile u.isSpace ++
    labelText (splitLabel u text).1 ++ gap ++
      (splitLabel u text).2.takeWhile fun c => c != '!' := by
  obtain ⟨gap, spaces, whole⟩ := splitLabel_text (u := u) text
  refine ⟨gap, spaces, ?_⟩
  have inside : ∀ c ∈ text.takeWhile u.isSpace ++ labelText (splitLabel u text).1 ++ gap,
      (c != '!') = true := by
    intro c mem
    rcases List.mem_append.mp mem with front | here
    · rcases List.mem_append.mp front with indent | label
      · exact isSpace_ne_mark (List.mem_takeWhile_imp indent)
      · cases found : (splitLabel u text).1 with
        | none =>
          rw [found] at label
          cases label
        | some name =>
          rw [found] at label
          rcases List.mem_append.mp label with letter | colon
          · exact word_ne_mark (splitLabel_word found c letter)
          · rw [List.mem_singleton.mp colon]
            decide
    · exact isSpace_ne_mark (List.all_eq_true.mp spaces c here)
  conv_lhs => rw [whole]
  rw [List.takeWhile_append_of_pos inside]

theorem head_dropWhile {p : Char → Bool} {text : Text} {c : Char}
    (mem : c ∈ (text.dropWhile p).head?) : p c = false := by
  have stop := List.head?_dropWhile_not p text
  rw [mem] at stop
  exact stop

theorem splitLabel_rest (text : Text) : ∀ c ∈ (splitLabel u text).2.head?, u.isSpace c = false := by
  unfold splitLabel
  dsimp only
  split
  · exact fun c mem => head_dropWhile mem
  · exact fun c mem => head_dropWhile mem

theorem countP_spaces {text : Text} (spaces : text.all u.isSpace) :
    text.countP (fun c => !u.isSpace c) = 0 := by
  rw [List.countP_eq_zero]
  intro c mem
  simp [List.all_eq_true.mp spaces c mem]

/-- All of the text is in the parts if and only if the line goes on behind the label as it
should: otherwise there is a character that no part has. -/
theorem accounted_iff (text : Text) : Accounted u text ↔ Continues u text := by
  obtain ⟨gap, spaces, before⟩ := splitLabel_comment (u := u) text
  unfold Accounted Continues
  rw [getParts_eq]
  dsimp only
  constructor
  · rintro ⟨indent, gap', indented, spaces', same⟩
    cases found : (splitLabel u text).2 with
    | nil => exact Or.inl rfl
    | cons c rest =>
      right
      by_cases begins : beginsOpcode u (c :: rest)
      · exact Or.inr begins
      · left
        by_contra other
        have mark : (c != '!') = true := by simpa using other
        have letter := splitLabel_rest (u := u) text c (by rw [found]; rfl)
        have none := (splitOpcode_eq_none (u := u) (c :: rest)).mpr (by simpa using begins)
        rw [found, none] at same
        rw [found, List.takeWhile_cons_of_pos (p := fun c => c != '!') mark] at before
        have counted := congrArg (List.countP fun c => !u.isSpace c) (before.symm.trans same)
        simp only [List.countP_append, List.countP_cons, countP_spaces indented,
          countP_spaces spaces, countP_spaces spaces', countP_spaces
          (List.all_takeWhile (p := u.isSpace) (l := text)), letter, opcodeText, List.countP_nil,
          Bool.not_false, if_true] at counted
        omega
  · intro continues
    refine ⟨text.takeWhile u.isSpace, gap, List.all_takeWhile, spaces, ?_⟩
    rw [before]
    congr 1
    rcases continues with none | comment | begins
    · rw [none]
      rfl
    · obtain ⟨rest, comment⟩ : ∃ rest, (splitLabel u text).2 = '!' :: rest := by
        cases found : (splitLabel u text).2 with
        | nil =>
          rw [found] at comment
          cases comment
        | cons c rest =>
          rw [found] at comment
          exact ⟨rest, by rw [Option.some.inj comment]⟩
      have word : u.isWord '!' = false := u.isWord_ascii '!' (by decide)
      have none : splitOpcode u ('!' :: rest) = none :=
        (splitOpcode_eq_none _).mpr (by simp [beginsOpcode, word])
      rw [comment, none]
      rfl
    · exact (splitOpcode_text begins).symm

end

end SystemsProjects.Lc
