import SystemsProjects.Lc.Acceptance
import SystemsProjects.Lc.Ascii
import SystemsProjects.Lc.Losses

/-!
# The files between the assembler and the simulator

The assembler writes the words as lines of binary digits, and the symbol table as lines
with a label and its address. The simulator reads both as text.
-/

namespace SystemsProjects.Lc

open Digits Regex Pattern Tables

/-! ## Writing -/

def digitText (word : List Bool) : Text := word.map fun d => if d then '1' else '0'

/-- `write_file` in the binary format. -/
def writeFile (sep : Text) (words : List (List Bool)) : Text :=
  words.flatMap fun r => digitText r ++ sep

/-- `hex(num)` -/
def hexText (num : Nat) : Text := '0' :: 'x' :: Nat.toDigits 16 num

/-- A line of the `.sym` file. -/
def symbolLine (symbol : Text × Nat) : Text := symbol.1 ++ ':' :: ' ' :: hexText symbol.2 ++ ['\n']

/-- The sort is stable. -/
def writeSymbols (symbols : SymbolTable) : Text :=
  (symbols.mergeSort fun a b => a.2 ≤ b.2).flatMap symbolLine

/-! ## Reading -/

/-- A text file is read with one kind of line break. -/
def newlines : Text → Text
  | [] => []
  | '\r' :: '\n' :: rest => '\n' :: newlines rest
  | '\r' :: rest => '\n' :: newlines rest
  | c :: rest => c :: newlines rest

/-- The lines, each with its line break. -/
def fileLines : Text → List Text
  | [] => []
  | c :: rest =>
    if c = '\n' then ['\n'] :: fileLines rest
    else (c :: (fileLines rest).headD []) :: (fileLines rest).tail

/-- One underscore may stand behind the prefix of a number. -/
def unmarked (text : Text) : Text := if text.head? = some '_' then text.tail else text

/-- The text behind the prefix of `int(text, 2)`, if it is there. -/
def unprefixed (u : Unicode) : Text → Text
  | zero :: letter :: rest =>
    if u.decimal zero = some 0 ∧ (letter = 'b' ∨ letter = 'B') then unmarked rest
    else zero :: letter :: rest
  | text => text

/-- `int(text, 2)` -/
def int2 (u : Unicode) (text : Text) : Option Int :=
  match stripped u.isPadding text with
  | '+' :: rest => (natural u.bit 2 (unprefixed u rest)).map fun v : Nat => (v : Int)
  | '-' :: rest => (natural u.bit 2 (unprefixed u rest)).map fun v : Nat => -(v : Int)
  | rest => (natural u.bit 2 (unprefixed u rest)).map fun v : Nat => (v : Int)

/-- The first loop of `load_program`; the last character of a line is left out. -/
def readProgram (u : Unicode) (runfile : Text) : Option (List Int) :=
  (fileLines (newlines runfile)).mapM fun line => int2 u line.dropLast

def isHex (c : Char) : Bool :=
  c.isDigit || 'a' ≤ c && c ≤ 'f' || 'A' ≤ c && c ≤ 'F'

/-- `(\w+): 0[xX]([0-9a-fA-F]+)` -/
def reSymbol (u : Unicode) : Pattern (Text × Text) := do
  let symbol ← many1 u.isWord
  let _ ← char ':'
  let _ ← char ' '
  let _ ← char '0'
  let _ ← one fun c => c == 'x' || c == 'X'
  let address ← many1 isHex
  return (symbol, address)

/-- `LABELS[addr] = label`, for a line of the `.sym` file. -/
def readSymbol (u : Unicode) (labels : List (Nat × Text)) (line : Text) :
    Option (List (Nat × Text)) :=
  (first (reSymbol u) line).bind fun m =>
    (natural u.hexDigit 16 m.2).map fun addr => insert labels addr m.1

/-- The second loop of `load_program`. -/
def readSymbols (u : Unicode) (symfile : Text) : Option (List (Nat × Text)) :=
  (fileLines (newlines symfile)).foldlM (readSymbol u) []

/-- The last label of its address. -/
def LastAt (symbols : SymbolTable) (label : Text) (address : Nat) : Prop :=
  ∃ front rest, symbols = front ++ (label, address) :: rest ∧ address ∉ rest.map Prod.snd

/-- The labels of the simulator, by their addresses. -/
def byAddress (symbols : SymbolTable) : List (Nat × Text) :=
  insertAll (symbols.map fun symbol => (symbol.2, symbol.1))

/-! ## Lines -/

section

variable {line rest text : Text}

/-- A line ends at the first line break. -/
theorem fileLines_line (one : '\n' ∉ line) (rest : Text) :
    fileLines (line ++ '\n' :: rest) = (line ++ ['\n']) :: fileLines rest := by
  induction line with
  | nil => simp [fileLines]
  | cons c line ih =>
    obtain ⟨other, one⟩ := not_or.mp (List.mem_cons.not.mp one)
    rw [List.cons_append, fileLines, if_neg (Ne.symm other), ih one]
    rfl

theorem fileLines_lines {α : Type} (write : α → Text) (items : List α)
    (one : ∀ item ∈ items, '\n' ∉ write item) :
    fileLines (items.flatMap fun item => write item ++ ['\n']) =
      items.map fun item => write item ++ ['\n'] := by
  induction items with
  | nil => rfl
  | cons item items ih =>
    obtain ⟨here, one⟩ := List.forall_mem_cons.mp one
    rw [List.flatMap_cons, List.append_assoc, List.singleton_append, fileLines_line here, ih one]
    rfl

theorem mapM_map_some {α β γ : Type} {f : α → β} {g : β → Option γ} {h : α → γ} {items : List α}
    (each : ∀ item ∈ items, g (f item) = some (h item)) :
    (items.map f).mapM g = some (items.map h) := by
  induction items with
  | nil => rfl
  | cons item items ih =>
    obtain ⟨here, each⟩ := List.forall_mem_cons.mp each
    rw [List.map_cons, List.mapM_cons, here, ih each]
    rfl

theorem newlines_eq (plain : '\r' ∉ text) : newlines text = text := by
  induction text with
  | nil => rfl
  | cons c text ih =>
    obtain ⟨other, plain⟩ := not_or.mp (List.mem_cons.not.mp plain)
    rw [newlines, ih plain]
    · rintro _ rfl
      exact absurd rfl other
    · rintro rfl
      exact absurd rfl other

end

/-! ## Words -/

section

variable {u : Unicode} {word : List Bool}

theorem mem_digitText {c : Char} (mem : c ∈ digitText word) : c = '0' ∨ c = '1' := by
  obtain ⟨d, -, rfl⟩ := List.mem_map.mp mem
  cases d
  · exact Or.inl rfl
  · exact Or.inr rfl

theorem bit_zero (u : Unicode) : u.bit '0' = some 0 := by
  rw [Unicode.bit, u.decimal_ascii '0' (by decide)]
  rfl

theorem bit_one (u : Unicode) : u.bit '1' = some 1 := by
  rw [Unicode.bit, u.decimal_ascii '1' (by decide)]
  rfl

theorem moreDigits_word (u : Unicode) (v : Nat) (word : List Bool) :
    moreDigits u.bit 2 v (digitText word) = some (v * 2 ^ word.length + value word) := by
  induction word generalizing v with
  | nil => simp [digitText, moreDigits, value]
  | cons d word ih =>
    have next : ∀ c n, u.bit c = some n → c ≠ '_' →
        moreDigits u.bit 2 v (c :: digitText word) =
          some ((v * 2 + n) * 2 ^ word.length + value word) := by
      intro c n here other
      rw [moreDigits, here, Option.bind_some, ih]
      rintro _ _ rfl
      exact absurd rfl other
    cases d with
    | false =>
      refine (next '0' 0 (bit_zero u) (by decide)).trans (congrArg some ?_)
      simp only [value, List.length_cons, Bool.toNat_false]
      ring
    | true =>
      refine (next '1' 1 (bit_one u) (by decide)).trans (congrArg some ?_)
      simp only [value, List.length_cons, Bool.toNat_true]
      ring

theorem natural_of_moreDigits {digit : Char → Option Nat} {base n : Nat} {text : Text}
    (nonempty : text ≠ []) (unmarked : text.head? ≠ some '_')
    (read : moreDigits digit base 0 text = some n) : natural digit base text = some n := by
  cases text with
  | nil => exact absurd rfl nonempty
  | cons c rest =>
    rw [moreDigits] at read
    · simpa [natural] using read
    · rintro _ _ rfl
      exact absurd rfl unmarked

theorem natural_word (u : Unicode) (nonempty : word ≠ []) :
    natural u.bit 2 (digitText word) = some (uint word) := by
  have read := moreDigits_word u 0 word
  rw [Nat.zero_mul, Nat.zero_add] at read
  apply natural_of_moreDigits _ _ read
  · exact fun none => nonempty (List.map_eq_nil_iff.mp none)
  · intro mark
    rcases mem_digitText (List.mem_of_mem_head? mark) with same | same
    · cases same
    · cases same

/-- What `int` reads is the number that the digits stand for. -/
theorem int2_word (u : Unicode) (nonempty : word ≠ []) :
    int2 u (digitText word) = some (uint word : Int) := by
  have solid : ∀ c ∈ digitText word, u.isPadding c = false := by
    intro c mem
    rcases mem_digitText mem with rfl | rfl
    · exact isPadding_solid (digit_solid rfl)
    · exact isPadding_solid (digit_solid rfl)
  have plain : unprefixed u (digitText word) = digitText word := by
    match word with
    | [] => rfl
    | [d] => rfl
    | d :: d' :: word =>
      refine if_neg (fun there => ?_)
      cases d' <;> exact absurd there.2 (by decide)
  have unsigned : ∀ c rest, digitText word = c :: rest → c = '0' ∨ c = '1' :=
    fun c rest text => mem_digitText (text ▸ List.mem_cons_self)
  unfold int2
  rw [stripped_solid solid]
  split
  · next rest text => rcases unsigned '+' rest text with same | same <;> cases same
  · next rest text => rcases unsigned '-' rest text with same | same <;> cases same
  · rw [plain, natural_word u nonempty]
    rfl

/-- The simulator reads the words that the assembler wrote. -/
theorem readProgram_writeFile (u : Unicode) {words : List (List Bool)}
    (nonempty : ∀ word ∈ words, word ≠ []) :
    readProgram u (writeFile ['\n'] words) = some (words.map fun word => (uint word : Int)) := by
  have digit : ∀ word, '\n' ∉ digitText word ∧ '\r' ∉ digitText word := by
    intro word
    constructor
    · intro mem
      rcases mem_digitText mem with same | same <;> cases same
    · intro mem
      rcases mem_digitText mem with same | same <;> cases same
  have plain : '\r' ∉ writeFile ['\n'] words := by
    intro mem
    obtain ⟨word, -, mem⟩ := List.mem_flatMap.mp mem
    rcases List.mem_append.mp mem with mem | mem
    · exact (digit word).2 mem
    · cases List.mem_singleton.mp mem
  have lines : fileLines (writeFile ['\n'] words) = words.map fun word =>
    digitText word ++ ['\n'] :=
    fileLines_lines digitText words fun word _ => (digit word).1
  rw [readProgram, newlines_eq plain, lines]
  apply mapM_map_some
  intro word mem
  rw [List.dropLast_concat]
  exact int2_word u (nonempty word mem)

end

/-! ## Symbols -/

section

variable {u : Unicode} {symbols : SymbolTable} {label : Text} {n : Nat}

theorem hexDigit_digitChar (u : Unicode) {d : Nat} (digit : d < 16) :
    u.hexDigit d.digitChar = some d ∧ isHex d.digitChar = true := by
  have low : ∀ d < 16, Ascii d.digitChar ∧ ascii.hexDigit d.digitChar = some d ∧
      isHex d.digitChar = true := by decide
  obtain ⟨small, value, hex⟩ := low d digit
  rw [hexDigit_eq u _ small]
  exact ⟨value, hex⟩

/-- `int(hex(n), 16)`, without the prefix. -/
theorem natural_toDigits (u : Unicode) (n : Nat) :
    natural u.hexDigit 16 (Nat.toDigits 16 n) = some n ∧
      ∀ c ∈ Nat.toDigits 16 n, isHex c = true := by
  induction n using Nat.strongRecOn with
  | ind n ih =>
    by_cases small : n < 16
    · obtain ⟨value, hex⟩ := hexDigit_digitChar u small
      rw [Nat.toDigits_of_lt_base small]
      constructor
      · simp [natural, value, moreDigits]
      · simpa using hex
    · obtain ⟨front, hexes⟩ := ih (n / 16) (Nat.div_lt_self (by omega) (by decide))
      obtain ⟨value, hex⟩ := hexDigit_digitChar u (Nat.mod_lt n (by decide))
      rw [Nat.toDigits_of_base_le (by decide) (by omega)]
      constructor
      · rw [natural_append (hexDigit_mark u) front, moreDigits, value]
        · exact congrArg some (Nat.div_add_mod' n 16)
        · rintro _ _ mark
          have marked : u.hexDigit (n % 16).digitChar = none := mark ▸ hexDigit_mark u
          cases value.symm.trans marked
      · intro c mem
        rcases List.mem_append.mp mem with mem | mem
        · exact hexes c mem
        · exact List.mem_singleton.mp mem ▸ hex

/-- The expression finds the label and the digits of the address. -/
theorem first_reSymbol (nonempty : label ≠ []) (word : ∀ c ∈ label, u.isWord c = true) (n : Nat) :
    first (reSymbol u) (symbolLine (label, n)) = some (label, Nat.toDigits 16 n) := by
  have colon : u.isWord ':' = false := u.isWord_ascii ':' (by decide)
  have line : symbolLine (label, n) =
      label ++ ':' :: ' ' :: '0' :: 'x' :: (Nat.toDigits 16 n ++ ['\n']) := by
    simp [symbolLine, hexText]
  have taken : (symbolLine (label, n)).takeWhile u.isWord = label := by
    rw [line, List.takeWhile_append_of_pos word]
    simp [colon]
  have left : (symbolLine (label, n)).dropWhile u.isWord =
      ':' :: ' ' :: '0' :: 'x' :: (Nat.toDigits 16 n ++ ['\n']) := by
    rw [line, List.dropWhile_append_of_pos word]
    simp [colon]
  have hexes := (natural_toDigits u n).2
  have digits : (many1 isHex (Nat.toDigits 16 n ++ ['\n'])).head? =
      some (Nat.toDigits 16 n, ['\n']) := by
    have stop : isHex '\n' = false := by decide
    rw [head_many1, List.takeWhile_append_of_pos hexes, List.dropWhile_append_of_pos hexes]
    simp [stop, Nat.toDigits_ne_nil]
  have behind : ∀ text, (do
      let _ ← char ' '
      let _ ← char '0'
      let _ ← one fun c => c == 'x' || c == 'X'
      let address ← many1 isHex
      return (label, address) : Pattern (Text × Text)) (' ' :: '0' :: 'x' :: text) =
        (many1 isHex >>= fun address => pure (label, address)) text := by
    intro text
    simp [char, one]
  have expression : reSymbol u = (many1 u.isWord >>= fun symbol => char ':' >>= fun _ => do
      let _ ← char ' '
      let _ ← char '0'
      let _ ← one fun c => c == 'x' || c == 'X'
      let address ← many1 isHex
      return (symbol, address)) := rfl
  unfold first
  rw [expression, many1_char colon, taken, left, if_pos ⟨nonempty, rfl⟩, List.tail_cons, behind,
    head_bind fun address => Total.pure (label, address), digits]
  rfl

/-- A label that the expression finds. -/
structure Wordy (u : Unicode) (label : Text) : Prop where
  nonempty : label ≠ []
  word : ∀ c ∈ label, u.isWord c = true
  head : ∀ c ∈ label.head?, u.isSpace c = false

theorem readSymbol_line (labels : List (Nat × Text)) {symbol : Text × Nat}
    (wordy : Wordy u symbol.1) :
    readSymbol u labels (symbolLine symbol) = some (insert labels symbol.2 symbol.1) := by
  rw [readSymbol, first_reSymbol wordy.nonempty wordy.word, Option.bind_some,
    (natural_toDigits u symbol.2).1]
  rfl

/-- No line break is in a line but the last character. -/
theorem symbolLine_unbroken {symbol : Text × Nat} (wordy : Wordy u symbol.1) {c : Char}
    (mem : c ∈ symbol.1 ++ ':' :: ' ' :: hexText symbol.2) :
    u.isWord c = true ∨ isHex c = true ∨ c ∈ [':', ' ', 'x'] := by
  simp only [hexText, List.mem_append, List.mem_cons] at mem
  rcases mem with mem | rfl | rfl | rfl | rfl | mem
  · exact Or.inl (wordy.word c mem)
  · exact Or.inr (Or.inr (by decide))
  · exact Or.inr (Or.inr (by decide))
  · exact Or.inr (Or.inl (by decide))
  · exact Or.inr (Or.inr (by decide))
  · exact Or.inr (Or.inl ((natural_toDigits u symbol.2).2 c mem))

/-- The simulator reads the table that the assembler wrote. -/
theorem readSymbols_lines (wordy : ∀ symbol ∈ symbols, Wordy u symbol.1) :
    readSymbols u (symbols.flatMap symbolLine) =
      some (byAddress symbols) := by
  have breaks : ∀ c, c = '\n' ∨ c = '\r' → ¬ (u.isWord c = true ∨ isHex c = true ∨
      c ∈ [':', ' ', 'x']) := by
    rintro c (rfl | rfl)
    · rw [u.isWord_ascii '\n' (by decide)]
      decide
    · rw [u.isWord_ascii '\r' (by decide)]
      decide
  have plain : '\r' ∉ symbols.flatMap symbolLine := by
    intro mem
    obtain ⟨symbol, here, mem⟩ := List.mem_flatMap.mp mem
    rcases List.mem_append.mp mem with mem | mem
    · exact breaks '\r' (Or.inr rfl) (symbolLine_unbroken (wordy symbol here) mem)
    · cases List.mem_singleton.mp mem
  have lines : fileLines (symbols.flatMap symbolLine) = symbols.map symbolLine :=
    fileLines_lines (fun symbol => symbol.1 ++ ':' :: ' ' :: hexText symbol.2) symbols
      fun symbol here mem =>
        breaks '\n' (Or.inl rfl) (symbolLine_unbroken (wordy symbol here) mem)
  have fold : ∀ labels, (symbols.map symbolLine).foldlM (readSymbol u) labels =
      some ((symbols.map fun symbol => (symbol.2, symbol.1)).foldl
        (fun l entry => insert l entry.1 entry.2) labels) := by
    clear plain lines
    induction symbols with
    | nil => exact fun _ => rfl
    | cons symbol symbols ih =>
      obtain ⟨here, wordy⟩ := List.forall_mem_cons.mp wordy
      intro labels
      rw [List.map_cons, List.foldlM_cons, readSymbol_line labels here]
      exact ih wordy _
  rw [readSymbols, newlines_eq plain, lines, fold]
  rfl

/-! ## The labels of a source -/

theorem head_takeWhile {p : Char → Bool} {text : Text} {c : Char}
    (mem : c ∈ (text.takeWhile p).head?) : c ∈ text.head? := by
  cases text with
  | nil => exact mem
  | cons d rest =>
    rw [List.takeWhile_cons] at mem
    split at mem
    · exact mem
    · cases mem

theorem splitLabel_wordy {text name : Text} (found : (splitLabel u text).1 = some name) :
    Wordy u name := by
  have word := splitLabel_word found
  unfold splitLabel at found
  dsimp only at found
  split at found
  · next there =>
    cases found
    exact ⟨there.1, word, fun c first => head_dropWhile (head_takeWhile first)⟩
  · cases found

theorem labels_wordy (file : List Text) (pc : Nat) :
    ∀ symbol ∈ labels u file pc, Wordy u symbol.1 := by
  intro symbol mem
  obtain ⟨_, line, _, -, -, own, -⟩ := mem_labels.mp mem
  rw [lineParts, getParts_eq] at own
  exact splitLabel_wordy own

/-- They come with ascending addresses. -/
theorem labels_sorted (u : Unicode) (file : List Text) (pc : Nat) :
    (labels u file pc).Pairwise (fun a b => a.2 ≤ b.2) ∧
      ∀ symbol ∈ labels u file pc, pc ≤ symbol.2 := by
  induction file generalizing pc with
  | nil => exact ⟨.nil, nofun⟩
  | cons line file ih =>
    rw [labels]
    split
    · exact ih pc
    · obtain ⟨sorted, later⟩ := ih (pc + (lineParts u line).2.toList.length)
      have here : ∀ symbol ∈ ((lineParts u line).1.map fun label => (label, pc)).toList,
          symbol.2 = pc := by
        cases (lineParts u line).1 <;> simp
      constructor
      · rw [List.pairwise_append]
        refine ⟨by cases (lineParts u line).1 <;> simp, sorted, fun a mem b mem' => ?_⟩
        rw [here a mem]
        exact (Nat.le_add_right pc _).trans (later b mem')
      · intro symbol mem
        rcases List.mem_append.mp mem with mem | mem
        · exact (here symbol mem).ge
        · exact (Nat.le_add_right pc _).trans (later symbol mem)

theorem writeSymbols_labels (u : Unicode) (file : List Text) :
    writeSymbols (labels u file 0) = (labels u file 0).flatMap symbolLine := by
  have sorted : (labels u file 0).mergeSort (fun a b => a.2 ≤ b.2) = labels u file 0 := by
    apply List.mergeSort_of_pairwise
    simpa using (labels_sorted u file 0).1
  rw [writeSymbols, sorted]

theorem lookup_byAddress {address : Nat} :
    (byAddress symbols).lookup address = some label ↔ LastAt symbols label address := by
  rw [byAddress, lookup_insertAll]
  constructor
  · rintro ⟨front', rest', parts, absent⟩
    obtain ⟨front, tail, rfl, rfl, behind⟩ := List.map_eq_append_iff.mp parts
    obtain ⟨⟨_, _⟩, rest, rfl, same, rfl⟩ := List.map_eq_cons_iff.mp behind
    cases same
    refine ⟨front, rest, rfl, ?_⟩
    simpa [List.map_map] using absent
  · rintro ⟨front, rest, rfl, absent⟩
    refine ⟨front.map fun symbol => (symbol.2, symbol.1),
      rest.map fun symbol => (symbol.2, symbol.1), by simp, ?_⟩
    simpa [List.map_map] using absent

theorem Assembled.binary_length {pc : Nat} {parts : List (Text × Text)} {instrs : List Instruction}
    (made : Assembled u symbols pc parts instrs) : ∀ instr ∈ instrs, instr.binary.length = 32 := by
  induction made with
  | nil => exact nofun
  | cons _ created _ ih => exact List.forall_mem_cons.mpr ⟨create_length created, ih⟩

/-- What the simulator reads of the symbol table. -/
theorem Assembles.loads_symbols {file : List Text} {p : Pass2} (assembles : Assembles u file p)
    (small : (instructions u file).length < 2 ^ 32) :
    ((pass1 u file .start).symbolTable.map Prod.fst).Nodup ∧
      (∀ symbol ∈ (pass1 u file .start).symbolTable, Wordy u symbol.1) ∧
      readSymbols u (writeSymbols (pass1 u file .start).symbolTable) =
        some (byAddress (pass1 u file .start).symbolTable) := by
  have bound : Pass1.start.pc + (instructions u file).length < 2 ^ 32 := by
    simpa [Pass1.start] using small
  obtain ⟨table, once⟩ := pass1_ok bound List.nodup_nil assembles.first
  have all : (pass1 u file .start).symbolTable = labels u file 0 := table
  have wordy := labels_wordy (u := u) file 0
  refine ⟨once, all ▸ wordy, ?_⟩
  rw [all, writeSymbols_labels]
  exact readSymbols_lines wordy

end

/-- The simulator has the words of the assembler in memory, and under each address that has
labels the last of them. -/
theorem files_read_back {u : Unicode} {file : List Text} {p : Pass2}
    (assembles : Assembles u file p) (small : (instructions u file).length < 2 ^ 32) :
    ∃ out words labels, outputGenerator p.results = some out ∧
      readProgram u (writeFile ['\n'] out) = some words ∧
      (∀ addr, ((loadProgram out).MEM addr : Int) = words.getD addr 0) ∧
      readSymbols u (writeSymbols (pass1 u file .start).symbolTable) = some labels ∧
      ∀ address label, labels.lookup address = some label ↔
        LastAt (pass1 u file .start).symbolTable label address := by
  obtain ⟨instrs, made, output⟩ := assembles.output
  have words : ∀ word ∈ instrs.map Instruction.binary, word ≠ [] := by
    intro word written
    obtain ⟨instr, mem, same⟩ := List.mem_map.mp written
    apply List.ne_nil_of_length_pos
    rw [← same, made.binary_length instr mem]
    decide
  obtain ⟨-, -, symbols⟩ := assembles.loads_symbols small
  refine ⟨_, _, _, output, readProgram_writeFile u words, fun addr => ?_, symbols, ?_⟩
  · have mem : (loadProgram (instrs.map Instruction.binary)).MEM addr =
        ((instrs.map Instruction.binary)[addr]?.map uint).getD 0 := rfl
    rw [mem, List.getD_eq_getElem?_getD, List.getElem?_map (l := instrs.map Instruction.binary)]
    cases (instrs.map Instruction.binary)[addr]? <;> rfl
  · exact fun _ _ => lookup_byAddress

/-- Two labels of one address. -/
def sharedSource : List Text := ["first:".toList, "last: halt".toList]

theorem files_read_back_shared : ∃ p out words labels, Assembles ascii sharedSource p ∧
    outputGenerator p.results = some out ∧ readProgram ascii (writeFile ['\n'] out) = some words ∧
    readSymbols ascii (writeSymbols [("first".toList, 0), ("last".toList, 0)]) = some labels ∧
    labels.lookup 0 = some "last".toList := by
  have success : (pass2 ascii (pass1 ascii sharedSource .start).symbolTable sharedSource .start).map
      Pass2.success = some true := rfl
  obtain ⟨p, second, success⟩ := Option.map_eq_some_iff.mp success
  have assembles : Assembles ascii sharedSource p := ⟨rfl, second, success⟩
  have one : (instructions ascii sharedSource).length = 1 := rfl
  have table : (pass1 ascii sharedSource .start).symbolTable =
      [("first".toList, 0), ("last".toList, 0)] := rfl
  obtain ⟨out, words, labels, output, read, -, symbols, last⟩ :=
    files_read_back assembles (by omega)
  rw [table] at symbols last
  exact ⟨p, out, words, labels, assembles, output, read, symbols,
    (last 0 "last".toList).mpr ⟨[("first".toList, 0)], [], rfl, List.not_mem_nil⟩⟩

end SystemsProjects.Lc
