import SystemsProjects.Lc.Lines

/-!
# Numeric operands

A grammar of the literals says which numbers a field takes, and `parse_value` is compared with
it. Hexadecimal literals are encoded exactly or refused, and so are decimal ones of at most 4300
digits. A binary literal is always refused: `int` is called without the base.
-/

namespace SystemsProjects.Lc

open Digits

/-! ## Literals -/

/-- Digits, perhaps with single underscores between them, and their value in the base. -/
inductive Numeral (digit : Char → Option Nat) (base : Nat) : Text → Nat → Prop
  | first {c : Char} {d : Nat} : digit c = some d → Numeral digit base [c] d
  | next {text : Text} {c : Char} {v d : Nat} : Numeral digit base text v → digit c = some d →
      Numeral digit base (text ++ [c]) (v * base + d)
  | grouped {text : Text} {c : Char} {v d : Nat} : Numeral digit base text v → digit c = some d →
      Numeral digit base (text ++ ['_', c]) (v * base + d)

namespace Unicode

variable (u : Unicode)

/-- A digit of base 2. -/
def bit (c : Char) : Option Nat := (u.decimal c).filter (· < 2)

/-- A numeral, perhaps with a sign and with white space around it. -/
def Decimal (text : Text) (v : Int) : Prop :=
  ∃ numeral n, Numeral u.decimal 10 numeral n ∧
    (stripped u.isPadding text = numeral ∧ v = n ∨
      stripped u.isPadding text = '+' :: numeral ∧ v = n ∨
      stripped u.isPadding text = '-' :: numeral ∧ v = -n)

/-- How many digits of base 10 a text has within its white space. -/
def digitCount (text : Text) : Nat :=
  (stripped u.isPadding text).countP fun c => (u.decimal c).isSome

/-- A numeral behind a prefix and perhaps an underscore, with white space after it. -/
def Prefixed (letter : Char) (digit : Char → Option Nat) (base : Nat) (text : Text) (v : Nat) :
    Prop :=
  ['0', letter].isPrefixOf text = true ∧ ∃ numeral, Numeral digit base numeral v ∧
    (stripped u.isPadding text = '0' :: letter :: numeral ∨
      stripped u.isPadding text = '0' :: letter :: '_' :: numeral)

def Hexadecimal (text : Text) (v : Nat) : Prop := u.Prefixed 'x' u.hexDigit 16 text v

def Binary (text : Text) (v : Nat) : Prop := u.Prefixed 'b' u.bit 2 text v

/-- The literals that a field of `size` digits has room for: signed numbers in base 10, unsigned
ones in the others. -/
inductive Operand (size : Nat) (text : Text) : Int → Prop
  | decimal {v : Int} : u.Decimal text v → -2 ^ (size - 1) ≤ v → v < 2 ^ (size - 1) →
      Operand size text v
  | hexadecimal {v : Nat} : u.Hexadecimal text v → v < 2 ^ size → Operand size text v
  | binary {v : Nat} : u.Binary text v → v < 2 ^ size → Operand size text v

/-- The literals for which the field has room and which `parse_value` refuses: those in base 2, and
those in base 10 with more than 4300 digits. -/
inductive Refused (size : Nat) (text : Text) : Prop
  | binary {v : Nat} : u.Binary text v → v < 2 ^ size → Refused size text
  | long {v : Int} : u.Decimal text v → -2 ^ (size - 1) ≤ v → v < 2 ^ (size - 1) →
      4300 < u.digitCount text → Refused size text

end Unicode

/-- An operand for which the field has room is encoded modulo the power of 2 in as many digits as
the field has, and all else is refused. -/
structure Encoded (u : Unicode) (symbols : SymbolTable) (offset : Text) (size : Nat)
    (pc : Option Nat) : Prop where
  exact : ∀ v, u.Operand size offset v →
    ∃ bits, parseValue u symbols offset size pc false = .ok bits ∧
      bits.length = size ∧ (value bits : Int) = v % 2 ^ size
  refused : (∀ v, ¬ u.Operand size offset v) →
    ∃ e, parseValue u symbols offset size pc false = .error e
  length : ∀ bits, parseValue u symbols offset size pc false = .ok bits → bits.length = size

/-! ## What Python reads -/

section

variable {digit : Char → Option Nat} {base v w : Nat} {text rest : Text} {c : Char}

theorem moreDigits_append (mark : digit '_' = none) (read : moreDigits digit base v text = some w)
    (rest : Text) : moreDigits digit base v (text ++ rest) = moreDigits digit base w rest := by
  fun_induction moreDigits digit base v text with
  | case1 v =>
    obtain rfl := Option.some.inj read
    rfl
  | case2 v c text ih =>
    obtain ⟨d, here, read⟩ := Option.bind_eq_some_iff.mp read
    rw [List.cons_append, List.cons_append, moreDigits, here]
    exact ih d read
  | case3 v c text grouped ih =>
    obtain ⟨d, here, read⟩ := Option.bind_eq_some_iff.mp read
    rw [List.cons_append, moreDigits, here]
    · exact ih d read
    · rintro _ _ rfl
      rw [mark] at here
      cases here

theorem natural_append (mark : digit '_' = none) (read : natural digit base text = some w)
    (rest : Text) : natural digit base (text ++ rest) = moreDigits digit base w rest := by
  cases text with
  | nil => cases read
  | cons c text =>
    obtain ⟨d, here, read⟩ := Option.bind_eq_some_iff.mp read
    rw [List.cons_append, natural, here]
    exact moreDigits_append mark read rest

theorem Numeral.more (front : Numeral digit base text v)
    (read : moreDigits digit base v rest = some w) :
    Numeral digit base (text ++ rest) w := by
  fun_induction moreDigits digit base v rest generalizing text with
  | case1 v =>
    obtain rfl := Option.some.inj read
    rwa [List.append_nil]
  | case2 v c rest ih =>
    obtain ⟨d, here, read⟩ := Option.bind_eq_some_iff.mp read
    have whole := ih d (front.grouped here) read
    rwa [List.append_assoc] at whole
  | case3 v c rest _ ih =>
    obtain ⟨d, here, read⟩ := Option.bind_eq_some_iff.mp read
    have whole := ih d (front.next here) read
    rwa [List.append_assoc] at whole

/-- Python reads the numerals, each with its value. -/
theorem natural_iff (mark : digit '_' = none) : natural digit base text = some v ↔
    Numeral digit base text v := by
  constructor
  · intro read
    cases text with
    | nil => cases read
    | cons c text =>
      obtain ⟨d, here, read⟩ := Option.bind_eq_some_iff.mp read
      exact (Numeral.first here).more read
  · intro numeral
    induction numeral with
    | first here => simp [natural, here, moreDigits]
    | next _ here ih =>
      rw [natural_append mark ih, moreDigits, here]
      · rfl
      · rintro _ _ rfl
        rw [mark] at here
        cases here
    | grouped _ here ih =>
      rw [natural_append mark ih, moreDigits, here]
      rfl

/-- All characters but underscores are digits. -/
theorem Numeral.absent (strange : digit c = none) (other : c ≠ '_')
    (numeral : Numeral digit base text v) : c ∉ text := by
  have digit_ne : ∀ {c' : Char} {d : Nat}, digit c' = some d → c ≠ c' := by
    rintro c' d here rfl
    rw [strange] at here
    cases here
  induction numeral with
  | first here => simp [digit_ne here]
  | next _ here ih => simp [ih, digit_ne here]
  | grouped _ here ih => simp [ih, digit_ne here, other]

/-- A numeral does not begin with what is not a digit. -/
theorem Numeral.head (mark : digit '_' = none) (strange : digit c = none) :
    ¬ Numeral digit base (c :: rest) v := by
  intro numeral
  have read := (natural_iff mark).mpr numeral
  rw [natural, strange] at read
  cases read

end

section

variable (u : Unicode) {text offset : Text}

theorem decimal_mark {c : Char} (ascii : c.toNat < 128) (strange : c.isDigit = false) :
    u.decimal c = none := by
  rw [u.decimal_ascii c ascii, strange]
  rfl

theorem hexDigit_mark : u.hexDigit '_' = none := by
  unfold Unicode.hexDigit
  rw [decimal_mark u (by decide) (by decide)]
  rfl

theorem natural10_iff {n : Nat} : natural10 u text = some n ↔
    Numeral u.decimal 10 text n ∧ text.countP (· ≠ '_') ≤ 4300 := by
  have mark := decimal_mark u (c := '_') (by decide) (by decide)
  unfold natural10
  split
  · next many => exact iff_of_false nofun fun ⟨_, few⟩ => absurd few (by omega)
  · next few => exact (natural_iff mark).trans (and_iff_left (by omega)).symm

/-- The digits of a numeral are what is no underscore in it. -/
theorem Numeral.digits {n : Nat} (numeral : Numeral u.decimal 10 text n) :
    text.countP (· ≠ '_') = text.countP fun c => (u.decimal c).isSome := by
  have mark := decimal_mark u (c := '_') (by decide) (by decide)
  have ne : ∀ {c : Char} {d : Nat}, u.decimal c = some d → c ≠ '_' := by
    rintro c d here rfl
    rw [mark] at here
    cases here
  induction numeral with
  | first here => simp [here, ne here]
  | next _ here ih =>
    rw [List.countP_append, List.countP_append, ih]
    simp [here, ne here]
  | grouped _ here ih =>
    rw [List.countP_append, List.countP_append, ih]
    simp [here, ne here, mark]

theorem int_iff {v : Int} : int u text = some v ↔
    u.Decimal text v ∧ u.digitCount text ≤ 4300 := by
  have plus := decimal_mark u (c := '+') (by decide) (by decide)
  have minus := decimal_mark u (c := '-') (by decide) (by decide)
  have bare : ∀ {numeral : Text} {n : Nat}, Numeral u.decimal 10 numeral n →
      stripped u.isPadding text = numeral → numeral.countP (· ≠ '_') = u.digitCount text := by
    intro numeral n written inner
    rw [written.digits, Unicode.digitCount, inner]
  have signed : ∀ {sign : Char} {numeral : Text} {n : Nat}, u.decimal sign = none →
      Numeral u.decimal 10 numeral n → stripped u.isPadding text = sign :: numeral →
      numeral.countP (· ≠ '_') = u.digitCount text := by
    intro sign numeral n strange written inner
    rw [written.digits, Unicode.digitCount, inner, List.countP_cons, strange]
    rfl
  constructor
  · intro read
    unfold int at read
    split at read
    · rename_i numeral inner
      obtain ⟨n, found, rfl⟩ := Option.map_eq_some_iff.mp read
      obtain ⟨written, few⟩ := (natural10_iff u).mp found
      rw [signed plus written inner] at few
      exact ⟨⟨numeral, n, written, .inr (.inl ⟨inner, rfl⟩)⟩, few⟩
    · rename_i numeral inner
      obtain ⟨n, found, rfl⟩ := Option.map_eq_some_iff.mp read
      obtain ⟨written, few⟩ := (natural10_iff u).mp found
      rw [signed minus written inner] at few
      exact ⟨⟨numeral, n, written, .inr (.inr ⟨inner, rfl⟩)⟩, few⟩
    · obtain ⟨n, found, rfl⟩ := Option.map_eq_some_iff.mp read
      obtain ⟨written, few⟩ := (natural10_iff u).mp found
      rw [bare written rfl] at few
      exact ⟨⟨_, n, written, .inl ⟨rfl, rfl⟩⟩, few⟩
  · rintro ⟨⟨numeral, n, written, forms⟩, few⟩
    unfold int
    rcases forms with ⟨inner, rfl⟩ | ⟨inner, rfl⟩ | ⟨inner, rfl⟩
    · rw [← bare written inner] at few
      have read := (natural10_iff u).mpr ⟨written, few⟩
      rw [inner]
      split
      · exact absurd written (Numeral.head (decimal_mark u (by decide) (by decide)) plus)
      · exact absurd written (Numeral.head (decimal_mark u (by decide) (by decide)) minus)
      · rw [read]
        rfl
    · rw [← signed plus written inner] at few
      rw [inner]
      exact Option.map_eq_some_iff.mpr ⟨n, (natural10_iff u).mpr ⟨written, few⟩, rfl⟩
    · rw [← signed minus written inner] at few
      rw [inner]
      exact Option.map_eq_some_iff.mpr ⟨n, (natural10_iff u).mpr ⟨written, few⟩, rfl⟩

theorem int16_iff {v : Nat} (literal : "0x".toList.isPrefixOf text = true) :
    int16 u text = some v ↔ u.Hexadecimal text v := by
  have mark := hexDigit_mark u
  constructor
  · intro read
    unfold int16 at read
    split at read
    · exact ⟨literal, _, (natural_iff mark).mp read, .inr ‹_›⟩
    · exact ⟨literal, _, (natural_iff mark).mp read, .inl ‹_›⟩
    · cases read
  · rintro ⟨-, numeral, written, stripped | stripped⟩
    · have read := (natural_iff mark).mpr written
      unfold int16
      rw [stripped]
      split
      · rename_i eq
        obtain rfl := (List.cons.inj (List.cons.inj eq).2).2
        exact absurd written (Numeral.head mark mark)
      · rename_i eq
        obtain rfl := (List.cons.inj (List.cons.inj eq).2).2
        exact read
      · rename_i other
        exact absurd rfl (other numeral)
    · unfold int16
      rw [stripped]
      exact (natural_iff mark).mpr written

/-- No text has two of the three forms. -/
theorem Decimal.plain {letter : Char} {v : Int} (letters : letter = 'x' ∨ letter = 'b')
    (decimal : u.Decimal text v) :
    ['0', letter].isPrefixOf text = false := by
  by_contra literal
  obtain ⟨rest, rfl⟩ := List.isPrefixOf_iff_prefix.mp (Bool.not_eq_false _ ▸ literal)
  have zero : u.isSpace '0' = false := u.isSpace_ascii '0' (by decide)
  have solid : u.isSpace letter = false := by
    rcases letters with rfl | rfl <;> exact u.isSpace_ascii _ (by decide)
  have strange : u.decimal letter = none := by
    rcases letters with rfl | rfl <;> exact u.decimal_ascii _ (by decide)
  have mark : letter ≠ '_' := by
    rcases letters with rfl | rfl <;> decide
  obtain ⟨rest', inner⟩ := stripped_cons rest (isPadding_solid zero) (isPadding_solid solid)
  have inner' : stripped u.isPadding (['0', letter] ++ rest) = '0' :: letter :: rest' := inner
  obtain ⟨numeral, n, written, forms⟩ := decimal
  rw [inner'] at forms
  rcases forms with ⟨same, -⟩ | ⟨same, -⟩ | ⟨same, -⟩
  · exact written.absent strange mark (by rw [← same]; simp)
  · cases (List.cons.inj same).1
  · cases (List.cons.inj same).1

end

/-! ## `parse_value` -/

section

variable {u : Unicode} {symbols : SymbolTable} {offset : Text} {size n : Nat} {pc : Option Nat}
  {e : Error}

theorem prefix_letter {a b : Char} (left : ['0', a].isPrefixOf offset = true)
    (right : ['0', b].isPrefixOf offset = true) : a = b := by
  obtain ⟨rest, rfl⟩ := List.isPrefixOf_iff_prefix.mp left
  obtain ⟨rest', eq⟩ := List.isPrefixOf_iff_prefix.mp right
  exact (List.cons.inj (List.cons.inj eq).2).1.symm

/-- What is refused may not be an operand. -/
theorem encoded_of_error (error : parseValue u symbols offset size pc false = .error e) :
    Encoded u symbols offset size pc ↔ ∀ v, ¬ u.Operand size offset v := by
  constructor
  · intro encoded v operand
    obtain ⟨bits, ok, -⟩ := encoded.exact v operand
    rw [error] at ok
    cases ok
  · intro none
    refine ⟨fun v operand => absurd operand (none v), fun _ => ⟨e, error⟩, fun bits ok => ?_⟩
    rw [error] at ok
    cases ok

/-- What is encoded must be an operand, with the number that is written. -/
theorem encoded_of_ok (ok : parseValue u symbols offset size pc false = .ok (digits size n))
    {w : Int} (operand : u.Operand size offset w)
    (same : ∀ v, u.Operand size offset v → v % 2 ^ size = n) :
    Encoded u symbols offset size pc := by
  refine ⟨fun v operand => ⟨_, ok, length_digits .., ?_⟩, fun none => absurd operand (none w),
    fun bits ok' => ?_⟩
  · have number := same v operand
    have cast : ((2 ^ size : Nat) : Int) = 2 ^ size := by push_cast; rfl
    rw [value_digits, number, Int.natCast_mod, cast, ← number, Int.emod_emod_of_dvd v (dvd_refl _)]
  · obtain rfl := Except.ok.inj (ok.symm.trans ok')
    exact length_digits ..

/-- A hexadecimal literal has room if its digits in base 2 do not outnumber those of the field. -/
theorem hexadecimal_encoded (wide : 0 < size) (unlabelled : labelOffset symbols pc offset = none)
    (literal : "0x".toList.isPrefixOf offset = true) : Encoded u symbols offset size pc := by
  have parsed : parseValue u symbols offset size pc false = ((int16 u offset).map bin).elim
      (.error (.badHexadecimal offset))
      (fun binOffset => if binOffset.length > size then .error (.tooLarge offset)
        else .ok (zeroExtend binOffset size)) := by
    unfold parseValue
    rw [unlabelled]
    refine (if_pos literal).trans ?_
    unfold hex2bin
    cases int16 u offset <;> rfl
  have only : ∀ v, u.Operand size offset v → ∃ n : Nat, v = n ∧ int16 u offset = some n ∧
      n < 2 ^ size := by
    intro v operand
    cases operand with
    | decimal decimal =>
      have plain := Decimal.plain u (.inl rfl) decimal
      exact absurd (literal.symm.trans plain) (by decide)
    | hexadecimal number fits => exact ⟨_, rfl, (int16_iff u literal).mpr number, fits⟩
    | binary number => exact absurd (prefix_letter literal number.1) (by decide)
  cases number : int16 u offset with
  | none =>
    rw [number] at parsed
    apply (encoded_of_error parsed).mpr
    intro v operand
    obtain ⟨n, -, read, -⟩ := only v operand
    rw [number] at read
    cases read
  | some n =>
    rw [number] at parsed
    rw [Option.map_some, Option.elim_some] at parsed
    have room : (bin n).length ≤ size ↔ n < 2 ^ size := length_format_one_le wide
    by_cases fits : n < 2 ^ size
    · rw [if_neg (Nat.not_lt.mpr (room.mpr fits)), zeroExtend_bin wide fits] at parsed
      apply encoded_of_ok parsed (.hexadecimal ((int16_iff u literal).mp number) fits)
      intro v operand
      obtain ⟨n', rfl, read, less⟩ := only v operand
      obtain rfl := Option.some.inj (number.symm.trans read)
      apply Int.emod_eq_of_lt
      · omega
      · exact_mod_cast less
    · rw [if_pos (Nat.not_le.mp fun le => fits (room.mp le))] at parsed
      apply (encoded_of_error parsed).mpr
      intro v operand
      obtain ⟨n', -, read, less⟩ := only v operand
      obtain rfl := Option.some.inj (number.symm.trans read)
      exact fits less

/-- A binary literal is refused. -/
theorem binary_encoded (unlabelled : labelOffset symbols pc offset = none)
    (literal : "0b".toList.isPrefixOf offset = true) :
    Encoded u symbols offset size pc ↔ ¬ ∃ v, u.Binary offset v ∧ v < 2 ^ size := by
  have other : "0x".toList.isPrefixOf offset ≠ true :=
    fun hex => absurd (prefix_letter hex literal) (by decide)
  have parsed : parseValue u symbols offset size pc false = .error (.badBinary offset) := by
    unfold parseValue
    rw [unlabelled]
    dsimp only
    rw [if_neg other, if_pos literal, int_binary u literal]
  rw [encoded_of_error parsed]
  constructor
  · rintro none ⟨v, number, fits⟩
    exact none v (.binary number fits)
  · intro none v operand
    cases operand with
    | decimal decimal =>
      have plain := Decimal.plain u (.inr rfl) decimal
      exact absurd (literal.symm.trans plain) (by decide)
    | hexadecimal number => exact other number.1
    | binary number fits => exact none ⟨_, number, fits⟩

/-- All that has no prefix is read in base 10. -/
theorem decimal_parsed (u : Unicode) (size : Nat)
    (unlabelled : labelOffset symbols pc offset = none)
    (noHex : "0x".toList.isPrefixOf offset ≠ true)
    (noBinary : "0b".toList.isPrefixOf offset ≠ true) :
    parseValue u symbols offset size pc false = (int u offset).elim
      (.error (if pc.isSome then .noLabel offset else .noValue offset))
      (fun offset => boundedValue offset size false) := by
  unfold parseValue
  rw [unlabelled]
  refine ((if_neg noHex).trans (if_neg noBinary)).trans ?_
  cases int u offset <;> rfl

/-- A decimal literal that is not too long has room or is refused. -/
theorem decimal_encoded (wide : 0 < size) (unlabelled : labelOffset symbols pc offset = none)
    (noHex : "0x".toList.isPrefixOf offset ≠ true)
    (noBinary : "0b".toList.isPrefixOf offset ≠ true)
    (short : ∀ v, u.Decimal offset v → -2 ^ (size - 1) ≤ v → v < 2 ^ (size - 1) →
      u.digitCount offset ≤ 4300) :
    Encoded u symbols offset size pc := by
  have parsed := decimal_parsed u size unlabelled noHex noBinary
  have only : ∀ v, u.Operand size offset v →
      int u offset = some v ∧ -2 ^ (size - 1) ≤ v ∧ v < 2 ^ (size - 1) := by
    intro v operand
    cases operand with
    | decimal number least less =>
      exact ⟨(int_iff u).mpr ⟨number, short v number least less⟩, least, less⟩
    | hexadecimal number => exact absurd number.1 noHex
    | binary number => exact absurd number.1 noBinary
  cases number : int u offset with
  | none =>
    rw [number] at parsed
    apply (encoded_of_error parsed).mpr
    intro v operand
    rw [number] at only
    cases (only v operand).1
  | some v =>
    rw [number, Option.elim_some] at parsed
    by_cases fits : -2 ^ (size - 1) ≤ v ∧ v < 2 ^ (size - 1)
    · rw [(boundedValue_iff wide).mpr ⟨fits, rfl⟩] at parsed
      apply encoded_of_ok parsed (.decimal ((int_iff u).mp number).1 fits.1 fits.2)
      intro w operand
      obtain rfl := Option.some.inj (number.symm.trans (only w operand).1)
      have least := Int.emod_nonneg v (Int.pow_pos (by decide) : (0 : Int) < 2 ^ size).ne'
      omega
    · cases bounded : boundedValue v size false with
      | ok bits => exact absurd ((boundedValue_iff wide).mp bounded).1 fits
      | error e =>
        rw [bounded] at parsed
        apply (encoded_of_error parsed).mpr
        intro w operand
        obtain ⟨read, range⟩ := only w operand
        obtain rfl := Option.some.inj (number.symm.trans read)
        exact fits range

/-- A decimal literal with more than 4300 digits is refused. -/
theorem long_refused {v : Int} (unlabelled : labelOffset symbols pc offset = none)
    (decimal : u.Decimal offset v) (long : 4300 < u.digitCount offset) :
    parseValue u symbols offset size pc false =
      .error (if pc.isSome then .noLabel offset else .noValue offset) := by
  have noHex : "0x".toList.isPrefixOf offset ≠ true :=
    fun literal => absurd (literal.symm.trans (Decimal.plain u (.inl rfl) decimal)) (by decide)
  have noBinary : "0b".toList.isPrefixOf offset ≠ true :=
    fun literal => absurd (literal.symm.trans (Decimal.plain u (.inr rfl) decimal)) (by decide)
  have unread : int u offset = none := by
    apply Option.eq_none_iff_forall_ne_some.mpr
    intro w read
    have few := ((int_iff u).mp read).2
    omega
  rw [decimal_parsed _ _ unlabelled noHex noBinary, unread, Option.elim_none]

/-- A field of any width encodes or refuses a text that is no label as it should, if and only if
the text is neither a binary literal that the field has room for nor a decimal one that it has room
for and that has more than 4300 digits. -/
theorem operand_encoded (u : Unicode) (wide : 0 < size)
    (unlabelled : labelOffset symbols pc offset = none) :
    Encoded u symbols offset size pc ↔ ¬u.Refused size offset := by
  constructor
  · rintro encoded (⟨number, fits⟩ | ⟨number, least, less, long⟩)
    · exact (binary_encoded unlabelled number.1).mp encoded ⟨_, number, fits⟩
    · exact (encoded_of_error (long_refused unlabelled number long)).mp encoded _
        (.decimal number least less)
  · intro taken
    by_cases binary : "0b".toList.isPrefixOf offset = true
    · exact (binary_encoded unlabelled binary).mpr fun ⟨v, number, fits⟩ =>
        taken (.binary number fits)
    by_cases hex : "0x".toList.isPrefixOf offset = true
    · exact hexadecimal_encoded wide unlabelled hex
    apply decimal_encoded wide unlabelled hex binary
    intro v number least less
    by_contra long
    exact taken (.long number least less (by omega))

/-- -8 fits into four digits. -/
theorem operand_encoded_least : Encoded ascii [] "-8".toList 4 none := by
  refine (operand_encoded ascii (by decide) rfl).mpr ?_
  rintro (⟨number, _⟩ | ⟨_, _, _, long⟩)
  · exact absurd number.1 (by decide)
  · exact absurd long (by decide)

/-- 5 in base 2 is refused, though there is room for it. -/
theorem binary_refused : ¬ ∀ (symbols : SymbolTable) (offset : Text) (size : Nat) (pc : Option Nat),
    0 < size → labelOffset symbols pc offset = none → Encoded ascii symbols offset size pc := by
  intro law
  have five : Numeral ascii.bit 2 (['1'] ++ ['0'] ++ ['1']) ((1 * 2 + 0) * 2 + 1) :=
    .next (.next (.first rfl) rfl) rfl
  have number : ascii.Binary "0b101".toList 5 := ⟨rfl, _, five, .inl rfl⟩
  exact (binary_encoded rfl rfl).mp (law [] "0b101".toList 20 none (by decide) rfl)
    ⟨5, number, by decide⟩

end

end SystemsProjects.Lc
