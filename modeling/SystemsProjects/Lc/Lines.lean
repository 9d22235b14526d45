import SystemsProjects.Lc.Isa
import SystemsProjects.Lc.Passes

/-!
# Assembled lines

What a line says, and the word that the assembler makes of it. The simulator then gives the
word the effect of the instruction that is written in the line.
-/

namespace SystemsProjects.Lc

open Digits Regex Pattern

/-! ## What a line says -/

section

variable (u : Unicode) (symbols : SymbolTable)

/-- The signed number of an operand. A label stands for its distance, and a hexadecimal
literal for a two's complement of 20 digits. -/
def signedImmediate (pc : Option Nat) (offset : Text) : Option Int :=
  match labelOffset symbols pc offset with
  | some distance => some distance
  | none =>
    if "0x".toList.isPrefixOf offset then (int16 u offset).map fun v : Nat =>
      (v : Int).bmod (2 ^ 20)
    else int u offset

/-- Three registers, without a shift. -/
def threeRegisters (operands : Text) (make : Fin 16 → Fin 16 → Fin 16 → Instr) : Option Instr :=
  match first (reR u) operands with
  | some (rx, ry, rz, none) => do
    let rx ← registers.lookup rx
    let ry ← registers.lookup ry
    let rz ← registers.lookup rz
    return make rx ry rz
  | _ => none

def branchOperands (pc : Nat) (operands : Text) (make : Fin 16 → Fin 16 → Int → Instr) :
    Option Instr :=
  match first (reBranch u) operands with
  | some (rx, ry, offset) => do
    let rx ← registers.lookup rx
    let ry ← registers.lookup ry
    let offset ← signedImmediate u symbols (some pc) offset
    return make rx ry offset
  | none => none

def memOperands (pc : Nat) (operands : Text) (make : Fin 16 → Fin 16 → Int → Instr) :
    Option Instr :=
  match first (reMem u) operands with
  | some (rx, offset, ry) => do
    let rx ← registers.lookup rx
    let ry ← registers.lookup ry
    let offset ← signedImmediate u symbols (some pc) offset
    return make rx ry offset
  | none => none

/-- The instruction that a mnemonic and its operands name. -/
def written (pc : Nat) (op operands : Text) : Option Instr :=
  match lookupClass op with
  | some .add => threeRegisters u operands .add
  | some .nand => threeRegisters u operands .nand
  | some .minmax =>
    if op = "min".toList then threeRegisters u operands .min
    else if op = "max".toList then threeRegisters u operands .max
    else none
  | some .addi =>
    match first (reAddi u) operands with
    | some (rx, ry, offset, none) => do
      let rx ← registers.lookup rx
      let ry ← registers.lookup ry
      let imm ← signedImmediate u symbols none offset
      return .addi rx ry imm
    | _ => none
  | some .lw => memOperands u symbols pc operands .lw
  | some .sw => memOperands u symbols pc operands .sw
  | some .beq => branchOperands u symbols pc operands .beq
  | some .blt => branchOperands u symbols pc operands .blt
  | some .lea =>
    match first (reLea u) operands with
    | some (rx, offset) => do
      let rx ← registers.lookup rx
      let offset ← signedImmediate u symbols (some pc) offset
      return .lea rx offset
    | none => none
  | some .jalr =>
    match first (reJalr u) operands with
    | some (target, ra) => do
      let target ← registers.lookup target
      let ra ← registers.lookup ra
      return .jalr target ra
    | none => none
  | some .inc =>
    match first (reInc u) operands with
    | some dr => do
      let dr ← registers.lookup dr
      return .inc dr
    | none => none
  | some .halt => some .halt
  | some .noop => some .noop
  | some .fill | none => none

/-- The shift suffix that the operands end with. -/
def writtenShift (op operands : Text) : Option (Text × Text) :=
  match lookupClass op with
  | some .add | some .nand | some .minmax => (first (reR u) operands).bind fun m => m.2.2.2
  | some .addi => (first (reAddi u) operands).bind fun m => m.2.2.2
  | _ => none

end

/-! ## Fields -/

theorem zeroExtend_bin {n width : Nat} (wide : 0 < width) (lt : n < 2 ^ width) :
    zeroExtend (bin n) width = digits width n := zeros_format_one lt wide

theorem parseRegister_ok {operand : Text} {bits : List Bool}
    (ok : parseRegister operand = .ok bits) :
    ∃ r, registers.lookup operand = some r ∧ bits = digits 4 r := by
  unfold parseRegister at ok
  split at ok
  · rename_i r found
    cases ok
    exact ⟨r, found, zeroExtend_bin (by omega) r.isLt⟩
  · cases ok

/-- A field takes the signed numbers of its width, modulo the power of 2. -/
theorem boundedValue_iff {v : Int} {size : Nat} {bits : List Bool} (wide : 0 < size) :
    boundedValue v size false = .ok bits ↔
      (-2 ^ (size - 1) ≤ v ∧ v < 2 ^ (size - 1)) ∧ bits = digits size (v % 2 ^ size).toNat := by
  have double : (2 : Int) ^ size = 2 ^ (size - 1) * 2 := by
    rw [← Int.pow_succ, Nat.succ_eq_add_one, Nat.sub_add_cancel wide]
  have cast : ((2 ^ size : Nat) : Int) = 2 ^ size := by push_cast; rfl
  simp only [boundedValue, Bool.false_eq_true, if_false]
  by_cases small : v < -2 ^ (size - 1)
  · rw [if_pos small]
    exact iff_of_false (by simp) fun fits => absurd fits.1.1 (by omega)
  by_cases big : v ≥ 2 ^ (size - 1)
  · rw [if_neg small, if_pos big]
    exact iff_of_false (by simp) fun fits => absurd fits.1.2 (by omega)
  have residue : (if v ≥ 0 then v else 2 ^ size + v) = v % 2 ^ size := by
    split
    · exact (Int.emod_eq_of_lt (by omega) (by omega)).symm
    · rw [← Int.add_emod_left, Int.emod_eq_of_lt (by omega) (by omega)]
  have lt : (v % 2 ^ size).toNat < 2 ^ size := by
    have least := Int.emod_nonneg v (by omega : (2 : Int) ^ size ≠ 0)
    have less := Int.emod_lt_of_pos v (by omega : (0 : Int) < 2 ^ size)
    omega
  rw [if_neg small, if_neg big, dec2bin, residue, format_of_lt wide lt, Except.ok.injEq,
    eq_comm (b := bits)]
  exact ⟨fun same => ⟨by omega, same⟩, And.right⟩

section

variable {blank : Char → Bool}

theorem stripped_cons {a b : Char} (rest : Text) (left : blank a = false)
    (right : blank b = false) : ∃ rest', stripped blank (a :: b :: rest) = a :: b :: rest' := by
  have front : (a :: b :: rest).dropWhile blank = a :: b :: rest := by
    rw [List.dropWhile_cons_of_neg (by simp [left])]
  have regroup : (a :: b :: rest).reverse = rest.reverse ++ [b, a] := by simp
  unfold stripped
  rw [front, regroup, List.dropWhile_append]
  split
  · rw [List.dropWhile_cons_of_neg (by simp [right])]
    exact ⟨[], rfl⟩
  · exact ⟨(rest.reverse.dropWhile blank).reverse, by simp⟩

theorem stripped_solid {text : Text} (solid : ∀ c ∈ text, blank c = false) :
    stripped blank text = text := by
  have front : ∀ l : Text, (∀ c ∈ l, blank c = false) → l.dropWhile blank = l := by
    intro l all
    cases l with
    | nil => rfl
    | cons c l => rw [List.dropWhile_cons_of_neg (by simp [all c List.mem_cons_self])]
  rw [stripped, front text solid, front _ fun c mem => solid c (List.mem_reverse.mp mem),
    List.reverse_reverse]

end

theorem isPadding_solid {u : Unicode} {c : Char} (solid : u.isSpace c = false) :
    u.isPadding c = false := by
  unfold Unicode.isPadding
  rw [solid, Bool.false_and]

/-- `int` without a base takes no literal with a prefix. -/
theorem int_prefixed (u : Unicode) {letter : Char} {offset : Text}
    (letters : letter = 'x' ∨ letter = 'b') (literal : ['0', letter].isPrefixOf offset = true) :
    int u offset = none := by
  obtain ⟨rest, rfl⟩ := List.isPrefixOf_iff_prefix.mp literal
  have zero : u.isSpace '0' = false := u.isSpace_ascii '0' (by decide)
  have solid : u.isSpace letter = false := by
    rcases letters with rfl | rfl <;> exact u.isSpace_ascii _ (by decide)
  have strange : u.decimal letter = none := by
    rcases letters with rfl | rfl <;> exact u.decimal_ascii _ (by decide)
  have mark : letter ≠ '_' := by
    rcases letters with rfl | rfl <;> decide
  obtain ⟨rest', inner⟩ := stripped_cons rest (isPadding_solid zero) (isPadding_solid solid)
  have same : int u (['0', letter] ++ rest) =
      (natural10 u ('0' :: letter :: rest')).map fun v : Nat => (v : Int) := by
    unfold int
    rw [show ['0', letter] ++ rest = '0' :: letter :: rest from rfl, inner]
    rfl
  have stuck : ∀ v, moreDigits u.decimal 10 v (letter :: rest') = none := by
    intro v
    rw [moreDigits]
    · rw [strange]
      rfl
    · rintro _ _ eq
      exact absurd eq mark
  have refused : natural u.decimal 10 ('0' :: letter :: rest') = none := by
    rw [natural]
    cases u.decimal '0' with
    | none => rfl
    | some d => rw [Option.bind_some, stuck]
  rw [same, natural10, refused, ite_self]
  rfl

theorem int_binary (u : Unicode) {offset : Text} (literal : "0b".toList.isPrefixOf offset = true) :
    int u offset = none := int_prefixed u (.inr rfl) literal

theorem boundedValue_length {v : Int} {size : Nat} {bits : List Bool} (wide : 0 < size)
    (ok : boundedValue v size false = .ok bits) : bits.length = size := by
  obtain ⟨-, rfl⟩ := (boundedValue_iff wide).mp ok
  exact length_digits ..

/-- A value takes exactly the digits of its field. -/
theorem parseValue_length {u : Unicode} {symbols : SymbolTable} {offset : Text} {size : Nat}
    {pc : Option Nat} {bits : List Bool} (wide : 0 < size)
    (ok : parseValue u symbols offset size pc false = .ok bits) : bits.length = size := by
  unfold parseValue at ok
  split at ok
  · exact boundedValue_length wide ok
  · split at ok
    · split at ok
      · cases ok
      · split at ok
        · cases ok
        · cases ok
          rw [zeroExtend, List.length_append, List.length_replicate]
          omega
    · split at ok
      · rw [int_binary u ‹_›] at ok
        cases ok
      · split at ok
        · cases ok
        · exact boundedValue_length wide ok

/-- The digits of an operand are those of its signed number. -/
theorem parseValue_ok {u : Unicode} {symbols : SymbolTable} {offset : Text} {pc : Option Nat}
    {bits : List Bool} (ok : parseValue u symbols offset immOffsetSize pc false = .ok bits) :
    ∃ v, signedImmediate u symbols pc offset = some v ∧ (-2 ^ 19 ≤ v ∧ v < 2 ^ 19) ∧
      bits = Instr.immediate v := by
  unfold parseValue at ok
  unfold signedImmediate
  cases found : labelOffset symbols pc offset with
  | some distance =>
    rw [found] at ok
    exact ⟨distance, rfl, (boundedValue_iff (by decide)).mp ok⟩
  | none =>
    rw [found] at ok
    dsimp only at ok ⊢
    by_cases literal : "0x".toList.isPrefixOf offset = true
    · rw [if_pos literal] at ok ⊢
      cases number : int16 u offset with
      | none =>
        rw [hex2bin, number] at ok
        cases ok
      | some v =>
        rw [hex2bin, number] at ok
        dsimp only [Option.map_some] at ok
        split at ok
        · cases ok
        · have lt : v < 2 ^ 20 := (length_format_one_le (by omega)).mp (Nat.not_lt.mp ‹_›)
          cases ok
          refine ⟨(v : Int).bmod (2 ^ 20), rfl, ?_, ?_⟩
          · rw [Int.bmod_def]
            omega
          · have residue : ((v : Int).bmod (2 ^ 20) % 2 ^ 20).toNat = v := by
              rw [Int.bmod_def]
              omega
            rw [Instr.immediate, residue]
            exact zeroExtend_bin (by decide) lt
    · rw [if_neg literal] at ok ⊢
      by_cases literal' : "0b".toList.isPrefixOf offset = true
      · rw [if_pos literal', int_binary u literal'] at ok
        cases ok
      · rw [if_neg literal'] at ok
        cases number : int u offset with
        | none =>
          rw [number] at ok
          cases ok
        | some v =>
          rw [number] at ok
          exact ⟨v, rfl, (boundedValue_iff (by decide)).mp ok⟩

/-! ## Operands -/

section

variable {u : Unicode} {symbols : SymbolTable} {operands instruction : Text} {pc : Nat}
  {bits : List Bool}

theorem bind_ok {α β : Type} {x : Except Error α} {f : α → Except Error β} {b : β}
    (ok : x >>= f = .ok b) : ∃ a, x = .ok a ∧ f a = .ok b := by
  cases x with
  | error e => cases ok
  | ok a => exact ⟨a, rfl, ok⟩

theorem parseR_ok {unused : List Bool} (ok : parseR u unused operands = .ok bits) :
    ∃ m rx ry rz, first (reR u) operands = some m ∧ registers.lookup m.1 = some rx ∧
      registers.lookup m.2.1 = some ry ∧ registers.lookup m.2.2.1 = some rz ∧
      bits = digits 4 rx ++ digits 4 ry ++ unused ++ digits 4 rz := by
  unfold parseR at ok
  cases found : first (reR u) operands with
  | none =>
    rw [found] at ok
    cases ok
  | some m =>
    rw [found] at ok
    obtain ⟨_, okx, ok⟩ := bind_ok ok
    obtain ⟨_, oky, ok⟩ := bind_ok ok
    obtain ⟨_, okz, ok⟩ := bind_ok ok
    obtain ⟨rx, named, rfl⟩ := parseRegister_ok okx
    obtain ⟨ry, named', rfl⟩ := parseRegister_ok oky
    obtain ⟨rz, named'', rfl⟩ := parseRegister_ok okz
    cases ok
    exact ⟨m, rx, ry, rz, rfl, named, named', named'', rfl⟩

theorem threeRegisters_ok {unused : List Bool} (make : Fin 16 → Fin 16 → Fin 16 → Instr)
    (ok : parseR u unused operands = .ok bits)
    (plain : (first (reR u) operands).bind (fun m => m.2.2.2) = none) :
    ∃ rx ry rz, threeRegisters u operands make = some (make rx ry rz) ∧
      bits = digits 4 rx ++ digits 4 ry ++ unused ++ digits 4 rz := by
  obtain ⟨⟨tx, ty, tz, shifted⟩, rx, ry, rz, found, named, named', named'', rfl⟩ := parseR_ok ok
  obtain rfl : shifted = none := by simpa [found] using plain
  refine ⟨rx, ry, rz, ?_, rfl⟩
  unfold threeRegisters
  rw [found]
  simp only at named named' named''
  simp [named, named', named'']

theorem mem_ok (ok : MemInstruction.parseOperands u symbols operands pc = .ok bits) :
    ∃ m rx ry v, first (reMem u) operands = some m ∧ registers.lookup m.1 = some rx ∧
      registers.lookup m.2.2 = some ry ∧ signedImmediate u symbols (some pc) m.2.1 = some v ∧
      (-2 ^ 19 ≤ v ∧ v < 2 ^ 19) ∧ bits = digits 4 rx ++ digits 4 ry ++ Instr.immediate v := by
  unfold MemInstruction.parseOperands at ok
  split at ok
  · cases ok
  · obtain ⟨_, okx, ok⟩ := bind_ok ok
    obtain ⟨_, oky, ok⟩ := bind_ok ok
    obtain ⟨_, okv, ok⟩ := bind_ok ok
    obtain ⟨rx, named, rfl⟩ := parseRegister_ok okx
    obtain ⟨ry, named', rfl⟩ := parseRegister_ok oky
    obtain ⟨v, number, range, rfl⟩ := parseValue_ok okv
    cases ok
    exact ⟨_, rx, ry, v, ‹_›, named, named', number, range, rfl⟩

theorem memOperands_ok (make : Fin 16 → Fin 16 → Int → Instr)
    (ok : MemInstruction.parseOperands u symbols operands pc = .ok bits) :
    ∃ rx ry v, memOperands u symbols pc operands make = some (make rx ry v) ∧
      (-2 ^ 19 ≤ v ∧ v < 2 ^ 19) ∧ bits = digits 4 rx ++ digits 4 ry ++ Instr.immediate v := by
  obtain ⟨⟨tx, offset, ty⟩, rx, ry, v, found, named, named', number, range, rfl⟩ := mem_ok ok
  refine ⟨rx, ry, v, ?_, range, rfl⟩
  simp only at named named' number
  unfold memOperands
  rw [found]
  simp [named, named', number]

theorem branch_ok (ok : branch.parseOperands u symbols operands pc = .ok bits) :
    ∃ m rx ry v, first (reBranch u) operands = some m ∧ registers.lookup m.1 = some rx ∧
      registers.lookup m.2.1 = some ry ∧ signedImmediate u symbols (some pc) m.2.2 = some v ∧
      (-2 ^ 19 ≤ v ∧ v < 2 ^ 19) ∧ bits = digits 4 rx ++ digits 4 ry ++ Instr.immediate v := by
  unfold branch.parseOperands at ok
  split at ok
  · cases ok
  · obtain ⟨_, okx, ok⟩ := bind_ok ok
    obtain ⟨_, oky, ok⟩ := bind_ok ok
    obtain ⟨_, okv, ok⟩ := bind_ok ok
    obtain ⟨rx, named, rfl⟩ := parseRegister_ok okx
    obtain ⟨ry, named', rfl⟩ := parseRegister_ok oky
    obtain ⟨v, number, range, rfl⟩ := parseValue_ok okv
    cases ok
    exact ⟨_, rx, ry, v, ‹_›, named, named', number, range, rfl⟩

theorem branchOperands_ok (make : Fin 16 → Fin 16 → Int → Instr)
    (ok : branch.parseOperands u symbols operands pc = .ok bits) :
    ∃ rx ry v, branchOperands u symbols pc operands make = some (make rx ry v) ∧
      (-2 ^ 19 ≤ v ∧ v < 2 ^ 19) ∧ bits = digits 4 rx ++ digits 4 ry ++ Instr.immediate v := by
  obtain ⟨⟨tx, ty, offset⟩, rx, ry, v, found, named, named', number, range, rfl⟩ := branch_ok ok
  refine ⟨rx, ry, v, ?_, range, rfl⟩
  simp only at named named' number
  unfold branchOperands
  rw [found]
  simp [named, named', number]

theorem addi_ok (ok : addi.parseOperands u symbols operands = .ok bits) :
    ∃ m rx ry v, first (reAddi u) operands = some m ∧ registers.lookup m.1 = some rx ∧
      registers.lookup m.2.1 = some ry ∧ signedImmediate u symbols none m.2.2.1 = some v ∧
      (-2 ^ 19 ≤ v ∧ v < 2 ^ 19) ∧ bits = digits 4 rx ++ digits 4 ry ++ Instr.immediate v := by
  unfold addi.parseOperands at ok
  split at ok
  · cases ok
  · obtain ⟨_, okx, ok⟩ := bind_ok ok
    obtain ⟨_, oky, ok⟩ := bind_ok ok
    obtain ⟨_, okv, ok⟩ := bind_ok ok
    obtain ⟨rx, named, rfl⟩ := parseRegister_ok okx
    obtain ⟨ry, named', rfl⟩ := parseRegister_ok oky
    obtain ⟨v, number, range, rfl⟩ := parseValue_ok okv
    cases ok
    exact ⟨_, rx, ry, v, ‹_›, named, named', number, range, rfl⟩

theorem lea_ok (ok : lea.parseOperands u symbols operands pc = .ok bits) :
    ∃ m rx v, first (reLea u) operands = some m ∧ registers.lookup m.1 = some rx ∧
      signedImmediate u symbols (some pc) m.2 = some v ∧ (-2 ^ 19 ≤ v ∧ v < 2 ^ 19) ∧
      bits = digits 4 rx ++ List.replicate 4 false ++ Instr.immediate v := by
  unfold lea.parseOperands at ok
  split at ok
  · cases ok
  · obtain ⟨_, okx, ok⟩ := bind_ok ok
    obtain ⟨_, okv, ok⟩ := bind_ok ok
    obtain ⟨rx, named, rfl⟩ := parseRegister_ok okx
    obtain ⟨v, number, range, rfl⟩ := parseValue_ok okv
    cases ok
    exact ⟨_, rx, v, ‹_›, named, number, range, rfl⟩

theorem jalr_ok (ok : jalr.parseOperands u operands = .ok bits) :
    ∃ m target ra, first (reJalr u) operands = some m ∧ registers.lookup m.1 = some target ∧
      registers.lookup m.2 = some ra ∧ bits = digits 4 target ++ digits 4 ra := by
  unfold jalr.parseOperands at ok
  split at ok
  · cases ok
  · obtain ⟨_, okt, ok⟩ := bind_ok ok
    obtain ⟨_, okr, ok⟩ := bind_ok ok
    obtain ⟨target, named, rfl⟩ := parseRegister_ok okt
    obtain ⟨ra, named', rfl⟩ := parseRegister_ok okr
    cases ok
    exact ⟨_, target, ra, ‹_›, named, named', rfl⟩

theorem inc_ok (ok : inc.parseOperands u operands = .ok bits) :
    ∃ m dr, first (reInc u) operands = some m ∧ registers.lookup m = some dr ∧
      bits = digits 4 dr := by
  unfold inc.parseOperands at ok
  split at ok
  · cases ok
  · obtain ⟨dr, named, rfl⟩ := parseRegister_ok ok
    exact ⟨_, dr, ‹_›, named, rfl⟩

theorem none_ok (ok : parseNone u operands = .ok bits) : bits = [] := by
  unfold parseNone at ok
  split at ok
  · cases ok
  · exact (Except.ok.inj ok).symm

end

/-! ## `noop` -/

section

variable {u : Unicode} {α : Type}

theorem zero_word : ∀ c ∈ "zero".toList, u.isWord c = true ∧ u.isSpace c = false ∧ c ≠ ',' := by
  intro c mem
  have letter : c = 'z' ∨ c = 'e' ∨ c = 'r' ∨ c = 'o' := by simpa using mem
  obtain rfl | rfl | rfl | rfl := letter
  all_goals exact ⟨u.isWord_ascii _ (by decide), u.isSpace_ascii _ (by decide), by decide⟩

theorem comma_stop {c : Char} (rest : Text) (other : u.isSpace c = false) (ne : c ≠ ',') :
    comma u (c :: rest) = [] := by
  have stop : spaces u (c :: rest) = [([], c :: rest)] := many_stop (by simpa using other)
  simp [comma, stop, char, one, ne]

theorem register_zero {rest : Text} (ends : ∀ c ∈ rest.head?, u.isWord c = false) :
    register u ("$zero".toList ++ rest) =
      [("$z".toList, "ero".toList ++ rest), ("$ze".toList, "ro".toList ++ rest),
       ("$zer".toList, "o".toList ++ rest), ("$zero".toList, rest)] := by
  have z := (zero_word (u := u) 'z' (by decide)).1
  have e := (zero_word (u := u) 'e' (by decide)).1
  have r := (zero_word (u := u) 'r' (by decide)).1
  have o := (zero_word (u := u) 'o' (by decide)).1
  have stop := few_stop ends
  simp [register, char, one, few1, few, z, e, r, o, stop]

/-- A register, a comma and a space. -/
theorem register_comma (f : Text → Pattern α) (rest : Text) :
    (register u >>= fun r => comma u >>= fun _ => f r) ("$zero, $".toList ++ rest) =
      f "$zero".toList ('$' :: rest) ++ f "$zero".toList (' ' :: '$' :: rest) := by
  have ends : ∀ c ∈ (", $".toList ++ rest).head?, u.isWord c = false := by
    simpa using u.isWord_ascii ',' (by decide)
  have e := zero_word (u := u) 'e' (by decide)
  have r := zero_word (u := u) 'r' (by decide)
  have o := zero_word (u := u) 'o' (by decide)
  have mark : u.isSpace ',' = false := u.isSpace_ascii ',' (by decide)
  have blank : u.isSpace ' ' = true := u.isSpace_ascii ' ' (by decide)
  have dollar : u.isSpace '$' = false := u.isSpace_ascii '$' (by decide)
  have here : comma u (", $".toList ++ rest) = [((), '$' :: rest), ((), ' ' :: '$' :: rest)] := by
    simp [comma, spaces, many, char, one, mark, blank, dollar]
  have regroup : "$zero, $".toList ++ rest = "$zero".toList ++ (", $".toList ++ rest) := rfl
  rw [regroup, bind_apply, register_zero ends]
  have first := comma_stop ("ro".toList ++ (", $".toList ++ rest)) e.2.1 e.2.2
  have second := comma_stop ("o".toList ++ (", $".toList ++ rest)) r.2.1 r.2.2
  have third := comma_stop (", $".toList ++ rest) o.2.1 o.2.2
  simp at first second third here
  simp [first, second, third, here]

theorem last_zero (f : Text → Option (Text × Text) → Text × Text × Text × Option (Text × Text)) :
    (do let rz ← register u
        let shifted ← optional (shift u)
        let _ ← spaces u
        endOfText
        return f rz shifted : Pattern _) "$zero".toList = [(f "$zero".toList none, [])] := by
  have e := (zero_word (u := u) 'e' (by decide)).2.1
  have r := (zero_word (u := u) 'r' (by decide)).2.1
  have o := (zero_word (u := u) 'o' (by decide)).2.1
  have word : "$zero".toList = "$zero".toList ++ [] := rfl
  rw [word, bind_apply, register_zero (by simp)]
  simp [Pattern.optional, shift, char, one, spaces, many, endOfText, e, r, o]

theorem reR_zero : first (reR u) "$zero, $zero, $zero".toList =
    some ("$zero".toList, "$zero".toList, "$zero".toList, none) := by
  have dollar : u.isSpace '$' = false := u.isSpace_ascii '$' (by decide)
  have start : spaces u ("$zero, $".toList ++ "zero, $zero".toList) =
      [([], "$zero, $".toList ++ "zero, $zero".toList)] := many_stop (by simpa using dollar)
  have blank : ∀ rest, register u (' ' :: rest) = [] := fun rest => by simp [register, char, one]
  have text : "$zero, $zero, $zero".toList = "$zero, $".toList ++ "zero, $zero".toList := rfl
  have next : '$' :: "zero, $zero".toList = "$zero, $".toList ++ "zero".toList := rfl
  have last : '$' :: "zero".toList = "$zero".toList := rfl
  unfold first reR
  rw [text, bind_apply, start, List.flatMap_singleton, register_comma, next, register_comma, last,
    last_zero]
  simp [blank]

end

/-! ## Lines -/

section

variable {u : Unicode} {symbols : SymbolTable} {op operands : Text} {pc : Nat}

/-- What the assembler makes of an instruction is the word of what is written. -/
theorem create_encode {cls : InstrClass} {assembled : List Instruction}
    (named : lookupClass op = some cls) (word : cls ≠ .fill)
    (plain : writtenShift u op operands = none)
    (created : cls.create u symbols operands pc op = .ok assembled) :
    ∃ i instr, assembled = [instr] ∧ written u symbols pc op operands = some i ∧ i.InRange ∧
      instr.binary = i.encode := by
  obtain ⟨bits, ok, made⟩ := bind_ok created
  cases made
  unfold writtenShift at plain
  unfold written
  rw [named] at plain ⊢
  unfold InstrClass.parseOperands at ok
  cases cls with
  | fill => exact absurd rfl word
  | add =>
    obtain ⟨rx, ry, rz, reads, rfl⟩ := threeRegisters_ok .add ok plain
    exact ⟨_, _, rfl, reads, trivial, by rfl⟩
  | nand =>
    obtain ⟨rx, ry, rz, reads, rfl⟩ := threeRegisters_ok .nand ok plain
    exact ⟨_, _, rfl, reads, trivial, by rfl⟩
  | minmax =>
    dsimp only at ok ⊢
    unfold minmax.parseOperands at ok
    split at ok
    · obtain ⟨rx, ry, rz, reads, rfl⟩ := threeRegisters_ok .min ok plain
      exact ⟨.min rx ry rz, _, rfl, by rw [if_pos ‹_›, reads], trivial, by rfl⟩
    · split at ok
      · obtain ⟨rx, ry, rz, reads, rfl⟩ := threeRegisters_ok .max ok plain
        exact ⟨.max rx ry rz, _, rfl, by rw [if_neg ‹_›, if_pos ‹_›, reads], trivial, by rfl⟩
      · cases ok
  | addi =>
    obtain ⟨⟨tx, ty, tv, shifted⟩, rx, ry, v, found, named, named', number, range, rfl⟩ :=
      addi_ok ok
    dsimp only at plain named named' number ⊢
    obtain rfl : shifted = none := by simpa [found] using plain
    refine ⟨.addi rx ry v, _, rfl, ?_, range, by rfl⟩
    rw [found]
    simp [named, named', number]
  | lw =>
    obtain ⟨rx, ry, v, reads, range, rfl⟩ := memOperands_ok .lw ok
    exact ⟨_, _, rfl, reads, range, by rfl⟩
  | sw =>
    obtain ⟨rx, ry, v, reads, range, rfl⟩ := memOperands_ok .sw ok
    exact ⟨_, _, rfl, reads, range, by rfl⟩
  | beq =>
    obtain ⟨rx, ry, v, reads, range, rfl⟩ := branchOperands_ok .beq ok
    exact ⟨_, _, rfl, reads, range, by rfl⟩
  | blt =>
    obtain ⟨rx, ry, v, reads, range, rfl⟩ := branchOperands_ok .blt ok
    exact ⟨_, _, rfl, reads, range, by rfl⟩
  | lea =>
    obtain ⟨m, rx, v, found, named, number, range, rfl⟩ := lea_ok ok
    refine ⟨.lea rx v, _, rfl, ?_, range, by rfl⟩
    dsimp only
    rw [found]
    simp [named, number]
  | jalr =>
    obtain ⟨m, target, ra, found, named, named', rfl⟩ := jalr_ok ok
    refine ⟨.jalr target ra, _, rfl, ?_, trivial, by rfl⟩
    dsimp only
    rw [found]
    simp [named, named']
  | inc =>
    obtain ⟨m, dr, found, named, rfl⟩ := inc_ok ok
    refine ⟨.inc dr, _, rfl, ?_, trivial, by rfl⟩
    dsimp only
    rw [found]
    simp [named]
  | halt =>
    obtain rfl := none_ok ok
    exact ⟨_, _, rfl, rfl, trivial, by rfl⟩
  | noop =>
    obtain ⟨m, rx, ry, rz, found, named, named', named'', rfl⟩ := parseR_ok ok
    rw [reR_zero] at found
    cases found
    have zero : registers.lookup "$zero".toList = some 0 := by decide
    obtain rfl : 0 = rx := Option.some.inj (zero.symm.trans named)
    obtain rfl : 0 = ry := Option.some.inj (zero.symm.trans named')
    obtain rfl : 0 = rz := Option.some.inj (zero.symm.trans named'')
    exact ⟨_, _, rfl, rfl, trivial, by rfl⟩

variable (u symbols pc)

/-- The class that a line names makes an instruction of its operands. -/
def assembledLine (line : Text) : Option (Except Error (List Instruction)) :=
  (lineParts u line).2.bind fun parts =>
    (lookupClass parts.1).map fun cls => cls.create u symbols parts.2 pc parts.1

/-- The instruction that a line names. -/
def writtenLine (line : Text) : Option Instr :=
  (lineParts u line).2.bind fun parts => written u symbols pc parts.1 parts.2

/-- The line has no shift suffix and is not a `.fill`. -/
def Plain (line : Text) : Prop :=
  ∀ parts ∈ (lineParts u line).2, writtenShift u parts.1 parts.2 = none ∧
    lookupClass parts.1 ≠ some .fill

variable {u symbols pc}

theorem line_encode {line : Text} {assembled : List Instruction}
    (accepted : assembledLine u symbols pc line = some (.ok assembled)) (plain : Plain u line) :
    ∃ i instr, assembled = [instr] ∧ writtenLine u symbols pc line = some i ∧ i.InRange ∧
      instr.binary = i.encode := by
  obtain ⟨parts, split, accepted⟩ := Option.bind_eq_some_iff.mp accepted
  obtain ⟨cls, named, created⟩ := Option.map_eq_some_iff.mp accepted
  obtain ⟨unshifted, word⟩ := plain parts split
  have other : cls ≠ .fill := by
    rintro rfl
    exact word named
  unfold writtenLine
  rw [split]
  exact create_encode named other unshifted created

/-- The simulator does with the word of an accepted line what the mnemonic in the line says if and
only if it supports the instruction and a load finds its word. -/
theorem line_steps {line : Text} {assembled : List Instruction}
    (accepted : assembledLine u symbols pc line = some (.ok assembled)) (plain : Plain u line) :
    ∃ i instr, assembled = [instr] ∧ writtenLine u symbols pc line = some i ∧
      ∀ s : Machine, s.PC < 2 ^ 32 - 1 → s.accessMem s.PC = uint instr.binary →
        (s.stepInstruction = .ok (i.meaning s) ↔ i.Supported s ∧ i.Reads s) := by
  obtain ⟨i, instr, one, reads, range, same⟩ := line_encode accepted plain
  refine ⟨i, instr, one, reads, fun s PC fetch => ?_⟩
  rw [same] at fetch
  exact Instr.step_meaning PC range fetch

end

/-- Tables that know no other characters than ASCII. -/
def ascii : Unicode where
  isWord c := c.isAlphanum || c == '_'
  isSpace c := 9 ≤ c.toNat && c.toNat ≤ 13 || 28 ≤ c.toNat && c.toNat ≤ 32
  decimal c := if c.isDigit then some (c.toNat - 48) else none
  lower := List.map Char.toLower
  isWord_ascii _ _ := rfl
  isSpace_ascii _ _ := rfl
  decimal_ascii _ _ := rfl

theorem inc_line : assembledLine ascii [] 0 "inc $t0".toList = some (.ok [⟨.inc, digits 4 6⟩]) :=
  rfl

/-- The opcode of `inc` is not in the simulator's table. -/
theorem inc_is_unknown : ¬ ∀ (u : Unicode) (symbols : SymbolTable) (pc : Nat) (line : Text)
    (instr : Instruction) (i : Instr), assembledLine u symbols pc line = some (.ok [instr]) →
    Plain u line → writtenLine u symbols pc line = some i →
    ∀ s : Machine, (∀ r, s.REGS r < 2 ^ 32) →
    s.PC < 2 ^ 32 - 1 → s.accessMem s.PC = uint instr.binary →
    s.stepInstruction = .ok (i.meaning s) := by
  intro law
  let s := loadProgram [(⟨.inc, digits 4 6⟩ : Instruction).binary]
  have plain : Plain ascii "inc $t0".toList := by
    intro parts mem
    have split : (lineParts ascii "inc $t0".toList).2 = some ("inc".toList, " $t0".toList) := rfl
    rw [split] at mem
    cases mem
    exact ⟨rfl, by decide⟩
  have fetch : s.accessMem 0 = uint (⟨.inc, digits 4 6⟩ : Instruction).binary := by decide
  have fails : s.stepInstruction.toBool = false := by decide
  have effect := law ascii [] 0 _ _ (.inc 6) inc_line plain rfl s (fun _ => Nat.two_pow_pos 32)
    (by decide) fetch
  rw [effect] at fails
  cases fails

theorem lw_line : assembledLine ascii [] 0 "lw $t0, -1($t1)".toList =
    some (.ok [⟨.lw, digits 28 0x67fffff⟩]) := rfl

/-- A machine that is to load the word at 4, with the negative offset of `lw_line`. -/
def loadingMachine : Machine :=
  ((loadProgram [(Instr.lw 6 7 (-1)).encode]).setReg 7 5).store 4 99

/-- A load with a negative offset. -/
theorem line_steps_lw : loadingMachine.stepInstruction =
    .ok ((Instr.lw 6 7 (-1)).meaning loadingMachine) ∧
    ((Instr.lw 6 7 (-1)).meaning loadingMachine).REGS 6 = 99 := by
  have plain : Plain ascii "lw $t0, -1($t1)".toList := by
    intro parts mem
    have split : (lineParts ascii "lw $t0, -1($t1)".toList).2 =
        some ("lw".toList, " $t0, -1($t1)".toList) := rfl
    rw [split] at mem
    cases mem
    exact ⟨rfl, by decide⟩
  obtain ⟨i, instr, one, reads, steps⟩ := line_steps lw_line plain
  obtain rfl : (⟨.lw, digits 28 0x67fffff⟩ : Instruction) = instr := (List.cons.inj one).1
  have reads' : writtenLine ascii [] 0 "lw $t0, -1($t1)".toList = some (.lw 6 7 (-1)) := rfl
  obtain rfl : Instr.lw 6 7 (-1) = i := Option.some.inj (reads'.symm.trans reads)
  have fetch : loadingMachine.accessMem 0 =
      uint (⟨.lw, digits 28 0x67fffff⟩ : Instruction).binary := by decide
  exact ⟨(steps loadingMachine (by decide) fetch).mpr ⟨trivial, .inr (.inl (by decide))⟩, by decide⟩

end SystemsProjects.Lc
