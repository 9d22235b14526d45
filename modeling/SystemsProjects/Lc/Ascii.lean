import SystemsProjects.Lc.Linking

/-!
# Files of ASCII characters

Python's tables of characters say the same about ASCII. So any two of them assemble a file of
ASCII characters alike.
-/

namespace SystemsProjects.Lc

open Digits Regex Pattern

def Ascii (c : Char) : Prop := c.toNat < 128

instance (c : Char) : Decidable (Ascii c) := inferInstanceAs (Decidable (_ < _))

/-- `lower` changes the capital letters of an ASCII text. -/
def Lowers (u : Unicode) : Prop := ∀ text, Over Ascii text → u.lower text = text.map Char.toLower

section

variable {u : Unicode} {c : Char} {text operands op : Text} {symbols : SymbolTable} {pc : Nat}

theorem isWord_eq (u : Unicode) (c : Char) (low : Ascii c) : u.isWord c = ascii.isWord c :=
  u.isWord_ascii c low

theorem isSpace_eq (u : Unicode) (c : Char) (low : Ascii c) : u.isSpace c = ascii.isSpace c :=
  u.isSpace_ascii c low

theorem decimal_eq (u : Unicode) (c : Char) (low : Ascii c) : u.decimal c = ascii.decimal c :=
  u.decimal_ascii c low

theorem hexDigit_eq (u : Unicode) (c : Char) (low : Ascii c) : u.hexDigit c = ascii.hexDigit c := by
  unfold Unicode.hexDigit
  rw [decimal_eq u c low]

theorem toLower_ascii (low : Ascii c) : Ascii c.toLower := by
  have all : ∀ n : Fin 128, Ascii (Char.ofNat n).toLower := by decide
  have here := all ⟨c.toNat, low⟩
  rwa [Char.ofNat_toNat] at here

theorem lower_ascii (within : Over Ascii text) : Over Ascii (text.map Char.toLower) := by
  intro c mem
  obtain ⟨d, mem', rfl⟩ := List.mem_map.mp mem
  exact toLower_ascii (within d mem')

theorem dropWhile_eq {p q : Char → Bool} (same : ∀ c, Ascii c → p c = q c)
    (within : Over Ascii text) :
    text.dropWhile p = text.dropWhile q := by
  induction text with
  | nil => rfl
  | cons c rest ih =>
    obtain ⟨head, tail⟩ := List.forall_mem_cons.mp within
    rw [List.dropWhile_cons, List.dropWhile_cons, same c head, ih tail]

theorem isPadding_eq (u : Unicode) (c : Char) (low : Ascii c) :
    u.isPadding c = ascii.isPadding c := by
  unfold Unicode.isPadding
  rw [isSpace_eq u c low]

theorem stripped_eq {p q : Char → Bool} (same : ∀ c, Ascii c → p c = q c)
    (within : Over Ascii text) : stripped p text = stripped q text := by
  have front := within.sublist (List.dropWhile_sublist q)
  unfold stripped
  rw [dropWhile_eq same within, dropWhile_eq same]
  intro c mem
  exact front c (List.mem_reverse.mp mem)

theorem strip_eq (within : Over Ascii text) : u.strip text = ascii.strip text :=
  stripped_eq (isSpace_eq u) within

theorem stripped_ascii {p : Char → Bool} (within : Over Ascii text) :
    Over Ascii (stripped p text) := by
  intro c mem
  have mem' := (List.dropWhile_sublist _).mem (List.mem_reverse.mp mem)
  exact within c ((List.dropWhile_sublist _).mem (List.mem_reverse.mp mem'))

theorem strip_ascii (within : Over Ascii text) : Over Ascii (u.strip text) := stripped_ascii within

/-! ## Numbers -/

theorem moreDigits_eq {digit digit' : Char → Option Nat} (same : ∀ c, Ascii c → digit c = digit' c)
    (base v : Nat) (within : Over Ascii text) : moreDigits digit base v text =
    moreDigits digit' base v text := by
  induction v, text using moreDigits.induct base with
  | case1 v => rfl
  | case2 v c rest ih =>
    obtain ⟨_, head, tail⟩ := (List.forall_mem_cons.mp within).imp_right List.forall_mem_cons.mp
    rw [moreDigits, moreDigits, same c head]
    exact Option.bind_congr fun d _ => ih d tail
  | case3 v c rest other ih =>
    obtain ⟨head, tail⟩ := List.forall_mem_cons.mp within
    rw [moreDigits, moreDigits, same c head]
    · exact Option.bind_congr fun d _ => ih d tail
    · exact other
    · exact other

theorem natural_eq {digit digit' : Char → Option Nat} (same : ∀ c, Ascii c → digit c = digit' c)
    (base : Nat) (within : Over Ascii text) :
    natural digit base text = natural digit' base text := by
  cases text with
  | nil => rfl
  | cons c rest =>
    obtain ⟨head, tail⟩ := List.forall_mem_cons.mp within
    unfold natural
    dsimp only
    rw [same c head]
    exact Option.bind_congr fun d _ => moreDigits_eq same base d tail

theorem natural10_eq (within : Over Ascii text) : natural10 u text = natural10 ascii text := by
  unfold natural10
  rw [natural_eq (decimal_eq u) 10 within]

theorem int_eq (within : Over Ascii text) : int u text = int ascii text := by
  have front := stripped_ascii (p := u.isPadding) within
  unfold int
  rw [← stripped_eq (isPadding_eq u) within]
  split
  · next rest found =>
    rw [found] at front
    rw [natural10_eq (List.forall_mem_cons.mp front).2]
  · next rest found =>
    rw [found] at front
    rw [natural10_eq (List.forall_mem_cons.mp front).2]
  · rw [natural10_eq front]

theorem int16_eq (within : Over Ascii text) : int16 u text = int16 ascii text := by
  have front := stripped_ascii (p := u.isPadding) within
  unfold int16
  rw [← stripped_eq (isPadding_eq u) within]
  split
  · next rest found =>
    rw [found] at front
    exact natural_eq (hexDigit_eq u) 16 fun c mem => front c (by simp [mem])
  · next rest _ found =>
    rw [found] at front
    exact natural_eq (hexDigit_eq u) 16 fun c mem => front c (by simp [mem])
  · rfl

theorem parseValue_eq (within : Over Ascii text) (symbols : SymbolTable) (size : Nat)
    (pc : Option Nat) (unsigned : Bool) : parseValue u symbols text size pc unsigned =
    parseValue ascii symbols text size pc unsigned := by
  unfold parseValue hex2bin
  rw [int_eq within, int16_eq within]

/-! ## Operands -/

theorem spaces_agree : Agree Ascii (Over Ascii) (spaces u) (spaces ascii) :=
  Agree.many (isSpace_eq u)

theorem comma_agree : Agree Ascii (fun _ => True) (comma u) (comma ascii) :=
  spaces_agree.bind fun _ _ => (Agree.char ',').bind fun _ _ => spaces_agree.bind fun _ _ =>
    Agree.pure trivial

theorem register_agree : Agree Ascii (Over Ascii) (register u) (register ascii) :=
  (Agree.char '$').bind fun _ dollar => (Agree.few1 (isWord_eq u)).bind fun _ name =>
    Agree.pure (Over.cons dollar name)

theorem offset_agree : Agree Ascii (Over Ascii) (offset u) (offset ascii) :=
  Agree.few1 fun c low => by rw [isSpace_eq u c low]

theorem letters_agree (a b c : Char) : Agree Ascii (Over Ascii) (letters a b c) (letters a b c) :=
  (Agree.one fun _ _ => rfl).bind fun _ first => (Agree.one fun _ _ => rfl).bind fun _ second =>
    (Agree.one fun _ _ => rfl).bind fun _ third => Agree.pure
      (Over.cons first (Over.cons second (Over.cons third Over.nil)))

theorem shift_agree : Agree Ascii (fun _ => True) (shift u) (shift ascii) := by
  have digit : ∀ c, Ascii c → (u.decimal c).isSome = (ascii.decimal c).isSome := by
    intro c low
    rw [decimal_eq u c low]
  have types := (letters_agree 'l' 's' 'l').either
    ((letters_agree 'l' 's' 'r').either (letters_agree 'a' 's' 'r'))
  exact (Agree.char ',').bind fun _ _ => spaces_agree.bind fun _ _ => types.bind fun _ _ =>
    (Agree.many1 (isSpace_eq u)).bind fun _ _ => (Agree.many1 digit).bind fun _ _ =>
      Agree.pure trivial

theorem reNoOperands_agree : Agree Ascii (fun _ => True) (reNoOperands u) (reNoOperands ascii) :=
  spaces_agree.bind fun _ _ => Agree.endOfText

theorem reR_agree : Agree Ascii (fun _ => True) (reR u) (reR ascii) :=
  spaces_agree.bind fun _ _ => register_agree.bind fun _ _ => comma_agree.bind fun _ _ =>
    register_agree.bind fun _ _ => comma_agree.bind fun _ _ => register_agree.bind fun _ _ =>
      shift_agree.optional.bind fun _ _ => spaces_agree.bind fun _ _ =>
        Agree.endOfText.bind fun _ _ => Agree.pure trivial

theorem reMem_agree : Agree Ascii (fun m => Over Ascii m.2.1) (reMem u) (reMem ascii) :=
  spaces_agree.bind fun _ _ => register_agree.bind fun _ _ => comma_agree.bind fun _ _ =>
    offset_agree.bind fun _ offset => spaces_agree.bind fun _ _ => (Agree.char '(').bind fun _ _ =>
      register_agree.bind fun _ _ => (Agree.char ')').bind fun _ _ => spaces_agree.bind fun _ _ =>
        Agree.endOfText.bind fun _ _ => Agree.pure offset

theorem reAddi_agree : Agree Ascii (fun m => Over Ascii m.2.2.1) (reAddi u) (reAddi ascii) :=
  spaces_agree.bind fun _ _ => register_agree.bind fun _ _ => comma_agree.bind fun _ _ =>
    register_agree.bind fun _ _ => comma_agree.bind fun _ _ => offset_agree.bind fun _ offset =>
      spaces_agree.bind fun _ _ => shift_agree.optional.bind fun _ _ =>
        Agree.endOfText.bind fun _ _ => Agree.pure offset

theorem reBranch_agree : Agree Ascii (fun m => Over Ascii m.2.2) (reBranch u) (reBranch ascii) :=
  spaces_agree.bind fun _ _ => register_agree.bind fun _ _ => comma_agree.bind fun _ _ =>
    register_agree.bind fun _ _ => comma_agree.bind fun _ _ => offset_agree.bind fun _ offset =>
      spaces_agree.bind fun _ _ => Agree.endOfText.bind fun _ _ => Agree.pure offset

theorem reLea_agree : Agree Ascii (fun m => Over Ascii m.2) (reLea u) (reLea ascii) :=
  spaces_agree.bind fun _ _ => register_agree.bind fun _ _ => comma_agree.bind fun _ _ =>
    offset_agree.bind fun _ offset => spaces_agree.bind fun _ _ => Agree.endOfText.bind fun _ _ =>
      Agree.pure offset

theorem reJalr_agree : Agree Ascii (fun _ => True) (reJalr u) (reJalr ascii) :=
  spaces_agree.bind fun _ _ => register_agree.bind fun _ _ => comma_agree.bind fun _ _ =>
    register_agree.bind fun _ _ => spaces_agree.bind fun _ _ => Agree.endOfText.bind fun _ _ =>
      Agree.pure trivial

theorem reInc_agree : Agree Ascii (fun _ => True) (reInc u) (reInc ascii) :=
  spaces_agree.bind fun _ _ => register_agree.bind fun _ _ => spaces_agree.bind fun _ _ =>
    Agree.endOfText.bind fun _ _ => Agree.pure trivial

theorem parseR_eq (within : Over Ascii operands) (unused : List Bool) :
    parseR u unused operands = parseR ascii unused operands := by
  unfold parseR
  rw [reR_agree.first within, strip_eq within]

theorem parseOperands_eq (cls : InstrClass) (within : Over Ascii operands) :
    cls.parseOperands u symbols operands pc op =
      cls.parseOperands ascii symbols operands pc op := by
  cases cls with
  | add | nand => exact parseR_eq within _
  | noop =>
    have zeros : Over Ascii "$zero, $zero, $zero".toList := by decide
    exact parseR_eq zeros _
  | minmax =>
    simp only [InstrClass.parseOperands, minmax.parseOperands, parseR_eq within]
  | halt =>
    simp only [InstrClass.parseOperands, parseNone, reNoOperands_agree.first within,
      strip_eq within]
  | jalr =>
    simp only [InstrClass.parseOperands, jalr.parseOperands, reJalr_agree.first within,
      strip_eq within]
  | inc =>
    simp only [InstrClass.parseOperands, inc.parseOperands, reInc_agree.first within,
      strip_eq within]
  | fill =>
    simp only [InstrClass.parseOperands, fill.parseOperands, strip_eq within]
    exact parseValue_eq (strip_ascii within) symbols 32 none false
  | addi =>
    simp only [InstrClass.parseOperands, addi.parseOperands, reAddi_agree.first within,
      strip_eq within]
    split
    · rfl
    · next found =>
      have number := reAddi_agree.found within found
      rw [parseValue_eq number]
  | beq | blt =>
    simp only [InstrClass.parseOperands, branch.parseOperands, reBranch_agree.first within,
      strip_eq within]
    split
    · rfl
    · next found =>
      have number := reBranch_agree.found within found
      rw [parseValue_eq number]
  | lea =>
    simp only [InstrClass.parseOperands, lea.parseOperands, reLea_agree.first within,
      strip_eq within]
    split
    · rfl
    · next found =>
      have number := reLea_agree.found within found
      rw [parseValue_eq number]
  | lw | sw =>
    simp only [InstrClass.parseOperands, MemInstruction.parseOperands, reMem_agree.first within,
      strip_eq within]
    split
    · rfl
    · next found =>
      have number := reMem_agree.found within found
      rw [parseValue_eq number]

/-! ## Lines -/

theorem isBlank_eq (within : Over Ascii text) : isBlank u text = isBlank ascii text := by
  have agree : Agree Ascii (fun _ => True) (reBlank u) (reBlank ascii) :=
    spaces_agree.bind fun _ _ => ((Agree.char '!').bind fun _ _ => Agree.many fun _ _ =>
      rfl).optional.bind fun _ _ =>
      Agree.endOfText
  unfold isBlank
  rw [agree.first within]

theorem reParts_agree : Agree Ascii (fun parts => ∀ instruction ∈ parts.2, Over Ascii instruction.2)
    (reParts u) (reParts ascii) := by
  have word := Agree.many1 (isWord_eq u)
  have label := word.bind fun name within => (Agree.char ':').bind fun _ _ =>
    Agree.pure (a := name) within
  have operands : Agree Ascii (Over Ascii) (many fun c => c != '!') _ := Agree.many fun _ _ => rfl
  have opcode : Agree Ascii (fun instruction : Text × Text => Over Ascii instruction.2) _ _ :=
    (Agree.char '.').optional.bind fun dot _ => word.bind fun name _ =>
      operands.bind fun operands within => Agree.pure (a := (dot.toList ++ name, operands)) within
  have rest : Agree Ascii (Over Ascii) (many fun _ => true) _ := Agree.many fun _ _ => rfl
  have comment := (Agree.char '!').bind fun _ _ => rest
  exact spaces_agree.bind fun _ _ => label.optional.bind fun _ _ => spaces_agree.bind fun _ _ =>
    opcode.optional.bind fun _ within => comment.optional.bind fun _ _ => Agree.pure within

theorem lineParts_eq (lowers : Lowers u) (within : Over Ascii text) :
    lineParts u text = lineParts ascii text := by
  have stripped := strip_ascii (u := u) within
  unfold lineParts
  rw [lowers _ stripped, strip_eq within]
  rw [strip_eq within] at stripped
  unfold getParts
  rw [reParts_agree.first (lower_ascii stripped)]
  rfl

theorem operands_ascii (within : Over Ascii text) {instruction : Text × Text}
    (parts : (lineParts ascii text).2 = some instruction) : Over Ascii instruction.2 := by
  have stripped := lower_ascii (strip_ascii (u := ascii) within)
  unfold lineParts getParts at parts
  cases found : first (reParts ascii) (ascii.lower (ascii.strip text)) with
  | none =>
    rw [found] at parts
    cases parts
  | some m =>
    rw [found] at parts
    exact reParts_agree.found stripped found instruction parts

/-! ## The passes -/

variable {file : List Text}

theorem instructions_eq (lowers : Lowers u) (within : ∀ line ∈ file, Over Ascii line) :
    instructions u file = instructions ascii file := by
  induction file with
  | nil => simp only [instructions, List.filter_nil, List.filterMap_nil]
  | cons line file ih =>
    obtain ⟨head, tail⟩ := List.forall_mem_cons.mp within
    have same := isBlank_eq head (u := u)
    cases blank : isBlank ascii line with
    | true =>
      rw [blank] at same
      rw [instructions_blank u same, instructions_blank ascii blank, ih tail]
    | false =>
      rw [blank] at same
      rw [instructions_cons u same, instructions_cons ascii blank, lineParts_eq lowers head,
        ih tail]

theorem pass1_eq (lowers : Lowers u) (within : ∀ line ∈ file, Over Ascii line) (p : Pass1) :
    pass1 u file p = pass1 ascii file p := by
  induction file generalizing p with
  | nil => rfl
  | cons line file ih =>
    obtain ⟨head, tail⟩ := List.forall_mem_cons.mp within
    unfold pass1
    rw [isBlank_eq head, ih tail, ih tail]
    unfold Pass1.line
    rw [lineParts_eq lowers head]

theorem pass2_eq (lowers : Lowers u) (within : ∀ line ∈ file, Over Ascii line) (p : Pass2) :
    pass2 u symbols file p = pass2 ascii symbols file p := by
  induction file generalizing p with
  | nil => rfl
  | cons line file ih =>
    obtain ⟨head, tail⟩ := List.forall_mem_cons.mp within
    have here : p.line u symbols line = p.line ascii symbols line := by
      unfold Pass2.line
      rw [lineParts_eq lowers head]
      cases parts : (lineParts ascii line).2 with
      | none => rfl
      | some instruction =>
        simp only [Pass2.assemble, InstrClass.create,
          parseOperands_eq _ (operands_ascii head parts)]
    unfold pass2
    rw [isBlank_eq head, ih tail, here]
    split
    · rfl
    · exact Option.bind_congr fun q _ => ih tail q

/-- Whether a file of ASCII characters assembles, and to what, is the same with any tables. -/
theorem assembles_ascii (lowers : Lowers u) (within : ∀ line ∈ file, Over Ascii line) (p : Pass2) :
    Assembles u file p ↔ Assembles ascii file p := by
  have table := pass1_eq lowers within .start
  constructor
  · rintro ⟨first, second, success⟩
    rw [table] at first second
    exact ⟨first, by rw [← pass2_eq lowers within, second], success⟩
  · rintro ⟨first, second, success⟩
    rw [← table] at first second
    exact ⟨first, by rw [pass2_eq lowers within, second], success⟩

end

/-! ## Decimal numerals -/

section

variable {u : Unicode} {n : Nat}

theorem digit_bounds {c : Char} (digit : c.isDigit = true) : 48 ≤ c.toNat ∧ c.toNat ≤ 57 :=
  Char.isDigit_iff_toNat.mp digit

theorem digit_ascii {c : Char} (digit : c.isDigit = true) : Ascii c := by
  have bounds := digit_bounds digit
  show c.toNat < 128
  omega

theorem digit_solid {c : Char} (digit : c.isDigit = true) : u.isSpace c = false := by
  have bounds := digit_bounds digit
  rw [u.isSpace_ascii c (digit_ascii digit)]
  simp
  omega

theorem digit_lower {c : Char} (digit : c.isDigit = true) : c.toLower = c := by
  have bounds := digit_bounds digit
  unfold Char.toLower
  rw [dif_neg]
  rintro ⟨upper, _⟩
  have capital : 65 ≤ c.toNat := UInt32.le_iff_toNat_le.mp upper
  omega

theorem numeral_digit : ∀ c ∈ n.repr.toList, c.isDigit = true := by
  intro c mem
  rw [Nat.toList_repr] at mem
  exact Nat.isDigit_of_mem_toDigits (by decide) (by decide) mem

theorem numeral_ne_nil : n.repr.toList ≠ [] := by
  rw [Nat.toList_repr]
  exact Nat.toDigits_ne_nil

theorem numeral_ascii : Over Ascii n.repr.toList := fun c mem => digit_ascii (numeral_digit c mem)

theorem numeral_strip : u.strip n.repr.toList = n.repr.toList :=
  stripped_solid fun c mem => digit_solid (numeral_digit c mem)

theorem moreDigits_numeral {text : Text} (numeral : ∀ c ∈ text, c.isDigit = true) (v : Nat) :
    moreDigits u.decimal 10 v text = some (Nat.ofDigitChars 10 text v) := by
  induction text generalizing v with
  | nil => rfl
  | cons c rest ih =>
    obtain ⟨head, tail⟩ := List.forall_mem_cons.mp numeral
    have value : u.decimal c = some (c.toNat - 48) := by
      rw [u.decimal_ascii c (digit_ascii head), if_pos head]
    rw [moreDigits]
    · rw [value, Option.bind_some, ih tail, Nat.ofDigitChars_cons, Nat.mul_comm v 10]
      rfl
    · rintro _ _ rfl
      cases head

theorem natural_numeral : natural u.decimal 10 n.repr.toList = some n := by
  have whole := moreDigits_numeral (u := u) (numeral_digit (n := n)) 0
  rw [Nat.toList_repr, Nat.ofDigitChars_ten_toDigits, ← Nat.toList_repr] at whole
  have digits := numeral_digit (n := n)
  cases text : n.repr.toList with
  | nil => exact absurd text numeral_ne_nil
  | cons c rest =>
    rw [text] at whole digits
    have head := digits c List.mem_cons_self
    rw [moreDigits] at whole
    · simpa [natural] using whole
    · rintro _ _ rfl
      cases head

theorem numeral_length (small : n < 2 ^ 31) : n.repr.toList.length ≤ 10 := by
  rw [Nat.toList_repr]
  exact Nat.length_toDigits_le_iff (by decide) (by decide) |>.mpr (by omega)

theorem int_numeral (small : n < 2 ^ 31) : int u n.repr.toList = some (n : Int) := by
  have digits := numeral_digit (n := n)
  have few : n.repr.toList.countP (· ≠ '_') ≤ 10 :=
    List.countP_le_length.trans (numeral_length small)
  have value : (natural10 u n.repr.toList).map (fun v : Nat => (v : Int)) = some (n : Int) := by
    unfold natural10
    rw [if_neg (by omega), natural_numeral]
    rfl
  have solid : stripped u.isPadding n.repr.toList = n.repr.toList :=
    stripped_solid fun c mem => isPadding_solid (digit_solid (numeral_digit c mem))
  unfold int
  rw [solid]
  split
  · next text => cases digits '+' (by simp [text])
  · next text => cases digits '-' (by simp [text])
  · exact value

theorem parseValue_numeral (symbols : SymbolTable) (small : n < 2 ^ 31) :
    parseValue u symbols n.repr.toList 32 none false = .ok (digits 32 n) := by
  have plain : ∀ front : Text, ∀ c ∈ front, c.isDigit = false →
      ¬front.isPrefixOf n.repr.toList = true := by
    intro front c mem other literal
    rw [numeral_digit c ((List.isPrefixOf_iff_prefix.mp literal).subset mem)] at other
    cases other
  unfold parseValue
  rw [show labelOffset symbols none n.repr.toList = none from rfl]
  dsimp only
  rw [if_neg (plain _ 'x' (by decide) (by decide)), if_neg (plain _ 'b' (by decide) (by decide)),
    int_numeral small]
  simp only [boundedValue, Bool.false_eq_true, if_false]
  rw [if_neg (by omega), if_neg (by omega)]
  unfold dec2bin
  rw [if_pos (by omega), Int.toNat_natCast]
  exact congrArg _ (format_of_lt (by omega) (by omega))

/-- A `.fill` with a numeral makes its word. -/
theorem fill_numeral (symbols : SymbolTable) (small : n < 2 ^ 31) (pc : Nat) (op : Text) :
    InstrClass.fill.create u symbols (' ' :: n.repr.toList) pc op = .ok [⟨.fill, digits 32 n⟩] := by
  have space : u.isSpace ' ' = true := u.isSpace_ascii ' ' (by decide)
  have stripped : u.strip (' ' :: n.repr.toList) = n.repr.toList := by
    unfold Unicode.strip SystemsProjects.Lc.stripped
    rw [List.dropWhile_cons_of_pos space]
    exact numeral_strip
  simp only [InstrClass.create, InstrClass.parseOperands, fill.parseOperands, stripped,
    parseValue_numeral symbols small]
  rfl

end

end SystemsProjects.Lc
