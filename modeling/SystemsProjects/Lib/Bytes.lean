import Mathlib.Data.Nat.Basic
import Mathlib.Tactic.Ring

/-!
# Byte memory and C record layouts

* `splice` replaces the bytes of one range; `store`, `fill` are its instances
  for a little-endian number and for one repeated byte;
* `load` reads a little-endian number;
* `Layout` places the fields of a record in disjoint byte ranges, and the
  `get`/`set` laws say that a field write changes that field alone.
-/

namespace SystemsProjects.Bytes

abbrev ByteMem := Nat → UInt8

/-- The bytes from `a` to `a + n` replaced by `src 0, src 1, ...`. -/
def splice (m : ByteMem) (a n : Nat) (src : Nat → UInt8) : ByteMem :=
  fun x => if a ≤ x ∧ x < a + n then src (x - a) else m x

/-- The low `n` bytes of `v`, least significant first, written at `a`. -/
def store (m : ByteMem) (a n v : Nat) : ByteMem :=
  splice m a n (fun i => UInt8.ofNat (v / 256 ^ i))

def fill (m : ByteMem) (a n : Nat) (b : UInt8) : ByteMem := splice m a n (fun _ => b)

/-- The little-endian number in the `n` bytes from `a`. -/
def load (m : ByteMem) (a : Nat) : Nat → Nat
  | 0 => 0
  | n + 1 => (m a).toNat + 256 * load m (a + 1) n

theorem splice_outside {m : ByteMem} {a n x : Nat} {src : Nat → UInt8}
    (h : x < a ∨ a + n ≤ x) : splice m a n src x = m x := by
  unfold splice
  rw [if_neg (by omega)]

theorem splice_inside {m : ByteMem} {a n x : Nat} {src : Nat → UInt8}
    (lo : a ≤ x) (hi : x < a + n) : splice m a n src x = src (x - a) := by
  unfold splice
  rw [if_pos ⟨lo, hi⟩]

theorem load_congr {m m' : ByteMem} {a n : Nat} (h : ∀ x, a ≤ x → x < a + n → m x = m' x) :
    load m a n = load m' a n := by
  induction n generalizing a with
  | zero => rfl
  | succ n ih =>
    simp only [load]
    rw [h a (by omega) (by omega), ih (fun x lo hi => h x (by omega) (by omega))]

theorem load_splice_apart {m : ByteMem} {a k b n : Nat} {src : Nat → UInt8}
    (h : a + k ≤ b ∨ b + n ≤ a) : load (splice m a k src) b n = load m b n :=
  load_congr (fun _ _ _ => splice_outside (by omega))

/-- Reading from the middle of a stored number gives its higher digits. -/
theorem load_store_tail (m : ByteMem) (a n v k i : Nat) (h : i + k = n) :
    load (store m a n v) (a + i) k = v / 256 ^ i % 256 ^ k := by
  induction k generalizing i with
  | zero => simp [load, Nat.mod_one]
  | succ k ih =>
    have tail := ih (i + 1) (by omega)
    rw [← Nat.add_assoc] at tail
    simp only [load]
    rw [tail, store, splice_inside (by omega) (by omega), Nat.add_sub_cancel_left]
    have low : (UInt8.ofNat (v / 256 ^ i)).toNat = v / 256 ^ i % 256 := by simp
    rw [low, pow_succ 256 i, ← Nat.div_div_eq_div_mul, pow_succ' 256 k, Nat.mod_mul]

theorem load_store (m : ByteMem) (a n v : Nat) :
    load (store m a n v) a n = v % 256 ^ n := by
  simpa using load_store_tail m a n v n 0 (by omega)

theorem load_store_apart {m : ByteMem} {a k v b n : Nat} (h : a + k ≤ b ∨ b + n ≤ a) :
    load (store m a k v) b n = load m b n :=
  load_splice_apart h

theorem load_fill_zero {m : ByteMem} {a k b n : Nat} (lo : a ≤ b) (hi : b + n ≤ a + k) :
    load (fill m a k 0) b n = 0 := by
  induction n generalizing b with
  | zero => rfl
  | succ n ih =>
    simp only [load]
    rw [ih (by omega) (by omega), fill, splice_inside lo (by omega)]
    rfl

/-! ## Records -/

/-- A record type: each field `f` takes `size f` bytes at `offset f`, inside
the record and apart from every other field. -/
structure Layout (F : Type) where
  offset : F → Nat
  size : F → Nat
  stride : Nat
  inside : ∀ f, offset f + size f ≤ stride
  apart : ∀ f g, f ≠ g → offset f + size f ≤ offset g ∨ offset g + size g ≤ offset f

namespace Layout

variable {F G : Type} (L : Layout F) (K : Layout G)

/-- Field `f` of the record at address `a`. -/
def get (m : ByteMem) (a : Nat) (f : F) : Nat := load m (a + L.offset f) (L.size f)

def set (m : ByteMem) (a : Nat) (f : F) (v : Nat) : ByteMem :=
  store m (a + L.offset f) (L.size f) v

theorem get_set_same (m : ByteMem) (a : Nat) (f : F) (v : Nat) :
    L.get (L.set m a f v) a f = v % 256 ^ L.size f :=
  load_store _ _ _ _

theorem get_set_field {m : ByteMem} {a : Nat} {f g : F} {v : Nat} (h : g ≠ f) :
    L.get (L.set m a f v) a g = L.get m a g := by
  apply load_store_apart
  have := L.apart f g (Ne.symm h)
  omega

/-- A write to a record leaves the records of any kind elsewhere alone. -/
theorem get_set_apart {m : ByteMem} {a b : Nat} {f : F} {g : G} {v : Nat}
    (h : a + K.stride ≤ b ∨ b + L.stride ≤ a) :
    L.get (K.set m a g v) b f = L.get m b f := by
  have := L.inside f
  have := K.inside g
  exact load_store_apart (by omega)

theorem get_splice_apart {m : ByteMem} {a k b : Nat} {src : Nat → UInt8} {f : F}
    (h : a + k ≤ b ∨ b + L.stride ≤ a) : L.get (splice m a k src) b f = L.get m b f := by
  have := L.inside f
  exact load_splice_apart (by omega)

theorem get_fill_zero {m : ByteMem} {a k b : Nat} {f : F} (lo : a ≤ b)
    (hi : b + L.stride ≤ a + k) : L.get (fill m a k 0) b f = 0 := by
  have := L.inside f
  exact load_fill_zero (by omega) (by omega)

/-- Bytes outside the record are untouched by a field write. -/
theorem set_outside {m : ByteMem} {a x : Nat} {f : F} {v : Nat}
    (h : x < a ∨ a + L.stride ≤ x) : L.set m a f v x = m x := by
  have := L.inside f
  unfold set store
  exact splice_outside (by omega)

end Layout

end SystemsProjects.Bytes
