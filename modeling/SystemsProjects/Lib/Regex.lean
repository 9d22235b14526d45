import Mathlib.Data.List.Basic

/-!
# Regular expressions that backtrack

A pattern gives every way to match a front of the text, in the order in which a
backtracking engine tries them. What the engine reports is the first.
-/

namespace SystemsProjects.Regex

/-- Each way to match, with what it captures and the rest of the text. -/
def Pattern (α : Type) : Type := List Char → List (α × List Char)

instance : Monad Pattern where
  pure a := fun text => [(a, text)]
  bind p f := fun text => (p text).flatMap fun way => f way.1 way.2

namespace Pattern

/-- One character of a class. -/
def one (p : Char → Bool) : Pattern Char
  | [] => []
  | c :: rest => if p c then [(c, rest)] else []

def char (c : Char) : Pattern Char := one (· == c)

/-- `p*`, as many as there are. -/
def many (p : Char → Bool) : Pattern (List Char)
  | [] => [([], [])]
  | c :: rest =>
    if p c then (many p rest).map (fun way => (c :: way.1, way.2)) ++ [([], c :: rest)]
    else [([], c :: rest)]

/-- `p*?`, as few as will do. -/
def few (p : Char → Bool) : Pattern (List Char)
  | [] => [([], [])]
  | c :: rest =>
    ([], c :: rest) :: if p c then (few p rest).map (fun way => (c :: way.1, way.2)) else []

/-- `p+` -/
def many1 (p : Char → Bool) : Pattern (List Char) := do
  let c ← one p
  let cs ← many p
  return c :: cs

/-- `p+?` -/
def few1 (p : Char → Bool) : Pattern (List Char) := do
  let c ← one p
  let cs ← few p
  return c :: cs

/-- `(p)?` -/
def optional {α : Type} (p : Pattern α) : Pattern (Option α) :=
  fun text => (p text).map (fun way => (some way.1, way.2)) ++ [(none, text)]

/-- `p|q` -/
def either {α : Type} (p q : Pattern α) : Pattern α := fun text => p text ++ q text

/-- `$`, in a text without line breaks. -/
def endOfText : Pattern Unit
  | [] => [((), [])]
  | _ :: _ => []

/-- What `re.match` reports. -/
def first {α : Type} (p : Pattern α) (text : List Char) : Option α :=
  (p text).head?.map Prod.fst

section

variable {α β : Type}

@[simp]
theorem pure_apply (a : α) (text : List Char) : (pure a : Pattern α) text = [(a, text)] := rfl

@[simp]
theorem bind_apply (p : Pattern α) (f : α → Pattern β) (text : List Char) :
    (p >>= f) text = (p text).flatMap fun way => f way.1 way.2 := rfl

theorem many_stop {p : Char → Bool} {text : List Char} (stop : ∀ c ∈ text.head?, p c = false) :
    many p text = [([], text)] := by
  cases text with
  | nil => rfl
  | cons c rest =>
    unfold many
    rw [if_neg (by simp [stop c rfl])]

theorem few_stop {p : Char → Bool} {text : List Char} (stop : ∀ c ∈ text.head?, p c = false) :
    few p text = [([], text)] := by
  cases text with
  | nil => rfl
  | cons c rest =>
    unfold few
    rw [if_neg (by simp [stop c rfl])]

/-! ## The first way -/

/-- There is always a way to match. -/
def Total (p : Pattern α) : Prop := ∀ text, p text ≠ []

theorem Total.pure (a : α) : Total (pure a : Pattern α) := fun text => List.cons_ne_nil (a, text) []

theorem Total.optional (p : Pattern α) : Total (optional p) :=
  fun text => List.append_ne_nil_of_right_ne_nil (p text |>.map _)
    (List.cons_ne_nil (none, text) [])

theorem Total.many (p : Char → Bool) : Total (many p) := by
  intro text
  cases text with
  | nil => exact List.cons_ne_nil _ _
  | cons c rest =>
    unfold Pattern.many
    split
    · exact List.append_ne_nil_of_right_ne_nil _ (List.cons_ne_nil _ _)
    · exact List.cons_ne_nil _ _

/-- With what can always go on, the first way goes on from the first way. -/
theorem head_bind {p : Pattern α} {f : α → Pattern β} (total : ∀ a, Total (f a))
    (text : List Char) :
    ((p >>= f) text).head? = (p text).head?.bind fun way => (f way.1 way.2).head? := by
  rw [bind_apply]
  cases p text with
  | nil => rfl
  | cons way ways =>
    rw [List.flatMap_cons, List.head?_append_of_ne_nil _ (total way.1 way.2)]
    rfl

theorem Total.bind {p : Pattern α} {f : α → Pattern β} (first : Total p)
    (then' : ∀ a, Total (f a)) :
    Total (p >>= f) := by
  intro text none
  have head := head_bind (p := p) then' text
  rw [none] at head
  cases ways : p text with
  | nil => exact first text ways
  | cons way ways' =>
    rw [ways, List.head?_cons, Option.bind_some, List.head?_nil] at head
    exact then' way.1 way.2 (List.head?_eq_none_iff.mp head.symm)

theorem head_many (p : Char → Bool) (text : List Char) :
    (many p text).head? = some (text.takeWhile p, text.dropWhile p) := by
  induction text with
  | nil => rfl
  | cons c rest ih =>
    unfold many
    by_cases here : p c
    · rw [if_pos here, List.takeWhile_cons_of_pos here, List.dropWhile_cons_of_pos here,
        List.head?_append, List.head?_map, ih]
      rfl
    · rw [if_neg here, List.takeWhile_cons_of_neg here, List.dropWhile_cons_of_neg here]
      rfl

theorem head_optional (p : Pattern α) (text : List Char) :
    (optional p text).head? = some
    (((p text).head?.map fun way => (some way.1, way.2)).getD (none, text)) := by
  unfold optional
  cases p text with
  | nil => rfl
  | cons way ways => rfl

/-- Before a character outside the class there is one way only. -/
theorem many_char {p : Char → Bool} {c : Char} (apart : p c = false) (f : List Char → Pattern α)
    (text : List Char) :
    (many p >>= fun cs => char c >>= fun _ => f cs) text =
      if (text.dropWhile p).head? = some c then f (text.takeWhile p) (text.dropWhile p).tail else
      [] := by
  induction text generalizing f with
  | nil => rfl
  | cons d rest ih =>
    rw [bind_apply]
    unfold many
    by_cases here : p d
    · have ne : d ≠ c := by
        rintro rfl
        rw [apart] at here
        cases here
      have short : (char c >>= fun _ => f []) (d :: rest) = [] := by
        simp [char, one, ne]
      rw [if_pos here, List.flatMap_append, List.flatMap_map, List.takeWhile_cons_of_pos here,
        List.dropWhile_cons_of_pos here, List.flatMap_singleton, short, List.append_nil]
      exact ih fun cs => f (d :: cs)
    · rw [if_neg here, List.takeWhile_cons_of_neg here, List.dropWhile_cons_of_neg here,
        List.flatMap_singleton]
      by_cases same : d = c
      · simp [char, one, same]
      · simp [char, one, same]

theorem many_end (p : Char → Bool) (text : List Char) :
    (many p >>= fun _ => endOfText) text = if text.all p then [((), [])] else [] := by
  induction text with
  | nil => rfl
  | cons c rest ih =>
    rw [bind_apply] at ih ⊢
    unfold many
    by_cases here : p c
    · rw [if_pos here, List.flatMap_append, List.flatMap_map, List.flatMap_singleton, List.all_cons,
        here, Bool.true_and, ← ih]
      exact List.append_nil _
    · rw [if_neg here, List.flatMap_singleton, List.all_cons, Bool.eq_false_iff.mpr here]
      rfl

theorem head_many1 (p : Char → Bool) (text : List Char) : (many1 p text).head? =
    if text.takeWhile p = [] then none else some (text.takeWhile p, text.dropWhile p) := by
  cases text with
  | nil => rfl
  | cons c rest =>
    by_cases here : p c
    · have ways : many1 p (c :: rest) = (many p >>= fun cs => pure (c :: cs)) rest := by
        simp [many1, one, here]
      rw [ways, head_bind fun cs => Total.pure (c :: cs), head_many,
        List.takeWhile_cons_of_pos here, List.dropWhile_cons_of_pos here,
        if_neg (List.cons_ne_nil _ _)]
      rfl
    · rw [List.takeWhile_cons_of_neg here, if_pos rfl]
      simp [many1, one, here]

theorem many1_char {p : Char → Bool} {c : Char} (apart : p c = false) (f : List Char → Pattern α)
    (text : List Char) :
    (many1 p >>= fun cs => char c >>= fun _ => f cs) text =
      if text.takeWhile p ≠ [] ∧ (text.dropWhile p).head? = some c then
        f (text.takeWhile p) (text.dropWhile p).tail
      else [] := by
  cases text with
  | nil => rfl
  | cons d rest =>
    by_cases here : p d
    · have ways : (many1 p >>= fun cs => char c >>= fun _ => f cs) (d :: rest) =
          (many p >>= fun cs => char c >>= fun _ => f (d :: cs)) rest := by
        simp [many1, one, here, List.flatMap_assoc]
      rw [ways, many_char apart, List.takeWhile_cons_of_pos here, List.dropWhile_cons_of_pos here]
      simp
    · rw [List.takeWhile_cons_of_neg here, if_neg (fun h => h.1 rfl)]
      simp [many1, one, here]

/-- As few as will do: what fails after every shorter front goes on after the whole of it. -/
theorem few_bind {p : Char → Bool} {f : List Char → Pattern α} {front rest : List Char}
    (inside : ∀ c ∈ front, p c = true) (short : ∀ before after, after ≠ [] → front = before ++
    after → f before (after ++ rest) = [])
    (here : f front rest ≠ []) : ((few p >>= f) (front ++ rest)).head? = (f front rest).head? := by
  induction front generalizing f with
  | nil =>
    rw [List.nil_append, bind_apply]
    cases rest with
    | nil =>
      unfold few
      rw [List.flatMap_singleton]
    | cons c rest =>
      unfold few
      rw [List.flatMap_cons, List.head?_append_of_ne_nil _ here]
  | cons c front ih =>
    have none := short [] (c :: front) (List.cons_ne_nil c front) rfl
    have next := ih (f := fun cs => f (c :: cs))
      (fun d mem => inside d (List.mem_cons_of_mem c mem))
      (fun before after some split => short (c :: before) after some (congrArg (c :: ·) split)) here
    rw [List.cons_append] at none ⊢
    rw [bind_apply]
    unfold few
    rw [if_pos (inside c List.mem_cons_self), List.flatMap_cons, none, List.nil_append,
      List.flatMap_map]
    exact next

theorem few1_bind {p : Char → Bool} {f : List Char → Pattern α} {c : Char} {front rest : List Char}
    (inside : ∀ d ∈ c :: front, p d = true)
    (short : ∀ before after, after ≠ [] → front = before ++ after →
    f (c :: before) (after ++ rest) = [])
    (here : f (c :: front) rest ≠ []) : ((few1 p >>= f) (c :: front ++ rest)).head? =
    (f (c :: front) rest).head? := by
  have next := few_bind (f := fun cs => f (c :: cs))
    (fun d mem => inside d (List.mem_cons_of_mem c mem)) short here
  rw [← next]
  simp [few1, one, inside c List.mem_cons_self, List.flatMap_assoc]

theorem few_mem {p : Char → Bool} {text cs rest : List Char} (mem : (cs, rest) ∈ few p text) :
    ∀ c ∈ cs, p c = true := by
  induction text generalizing cs with
  | nil =>
    obtain ⟨rfl, _⟩ := Prod.mk.inj (List.mem_singleton.mp mem)
    exact nofun
  | cons c text ih =>
    unfold few at mem
    rcases List.mem_cons.mp mem with first | later
    · obtain ⟨rfl, _⟩ := Prod.mk.inj first
      exact nofun
    · split at later
      · next inside =>
        obtain ⟨⟨more, rest'⟩, mem', same⟩ := List.mem_map.mp later
        obtain ⟨rfl, rfl⟩ := Prod.mk.inj same
        rintro d (_ | ⟨_, hd⟩)
        · exact inside
        · exact ih mem' d hd
      · cases later

theorem few1_mem {p : Char → Bool} {text cs rest : List Char} (mem : (cs, rest) ∈ few1 p text) :
    cs ≠ [] ∧ ∀ c ∈ cs, p c = true := by
  cases text with
  | nil => simp [few1, one] at mem
  | cons c text =>
    by_cases inside : p c
    · simp only [few1, one, bind_apply, if_pos inside, List.flatMap_singleton,
        List.mem_flatMap] at mem
      obtain ⟨⟨more, rest'⟩, mem', same⟩ := mem
      obtain ⟨rfl, rfl⟩ := Prod.mk.inj (List.mem_singleton.mp same)
      refine ⟨List.cons_ne_nil c more, ?_⟩
      rintro d (_ | ⟨_, hd⟩)
      · exact inside
      · exact few_mem mem' d hd
    · simp [few1, one, inside] at mem

theorem first_mem {p : Pattern α} {text : List Char} {a : α} (found : first p text = some a) :
    ∃ rest, (a, rest) ∈ p text := by
  obtain ⟨⟨a', rest⟩, head, rfl⟩ := Option.map_eq_some_iff.mp found
  exact ⟨rest, List.mem_of_mem_head? head⟩

/-! ## Characters of a set -/

/-- All characters of the text are of a set. -/
def Over (S : Char → Prop) (text : List Char) : Prop := ∀ c ∈ text, S c

instance {S : Char → Prop} [DecidablePred S] {text : List Char} : Decidable (Over S text) :=
  List.decidableBAll S text

/-- Two patterns match a text over the set in the same ways, and leave what is over it. -/
def Agree (S : Char → Prop) (A : α → Prop) (p q : Pattern α) : Prop :=
  ∀ text, Over S text → p text = q text ∧ ∀ way ∈ p text, A way.1 ∧ Over S way.2

variable {S : Char → Prop} {A : α → Prop} {B : β → Prop} {p q : Pattern α} {f g : α → Pattern β}
  {class₁ class₂ : Char → Bool}

theorem Over.nil : Over S [] := nofun

theorem Over.cons {c : Char} {text : List Char} (head : S c) (tail : Over S text) :
    Over S (c :: text) :=
  List.forall_mem_cons.mpr ⟨head, tail⟩

theorem Over.sublist {text text' : List Char} (within : Over S text) (part : text'.Sublist text) :
    Over S text' :=
  fun c mem => within c (part.mem mem)

theorem Agree.first (agree : Agree S A p q) {text : List Char} (within : Over S text) :
    first p text = first q text := by
  unfold Pattern.first
  rw [(agree text within).1]

theorem Agree.found (agree : Agree S A p q) {text : List Char} (within : Over S text) {a : α}
    (found : Pattern.first p text = some a) : A a := by
  obtain ⟨rest, mem⟩ := first_mem found
  exact ((agree text within).2 _ mem).1

theorem Agree.pure {a : α} (holds : A a) : Agree S A (pure a) (pure a) := by
  intro text within
  refine ⟨rfl, fun way mem => ?_⟩
  cases List.mem_singleton.mp mem
  exact ⟨holds, within⟩

theorem Agree.bind (agree : Agree S A p q) (then' : ∀ a, A a → Agree S B (f a) (g a)) :
    Agree S B (p >>= f) (q >>= g) := by
  intro text within
  obtain ⟨same, left⟩ := agree text within
  rw [bind_apply, bind_apply, ← same]
  constructor
  · exact List.flatMap_congr fun way mem => (then' way.1 (left way mem).1 way.2 (left way mem).2).1
  · intro way' mem'
    obtain ⟨way, mem, mem'⟩ := List.mem_flatMap.mp mem'
    exact (then' way.1 (left way mem).1 way.2 (left way mem).2).2 way' mem'

theorem Agree.one (same : ∀ c, S c → class₁ c = class₂ c) :
    Agree S S (one class₁) (one class₂) := by
  intro text within
  cases text with
  | nil => exact ⟨rfl, nofun⟩
  | cons c rest =>
    obtain ⟨head, tail⟩ := List.forall_mem_cons.mp within
    unfold Pattern.one
    dsimp only
    rw [← same c head]
    refine ⟨rfl, fun way mem => ?_⟩
    split at mem
    · cases List.mem_singleton.mp mem
      exact ⟨head, tail⟩
    · cases mem

theorem Agree.char (c : Char) : Agree S S (char c) (char c) := Agree.one fun _ _ => rfl

theorem Agree.many (same : ∀ c, S c → class₁ c = class₂ c) :
    Agree S (Over S) (many class₁) (many class₂) := by
  intro text within
  induction text with
  | nil =>
    refine ⟨rfl, fun way mem => ?_⟩
    cases List.mem_singleton.mp mem
    exact ⟨Over.nil, within⟩
  | cons c rest ih =>
    obtain ⟨head, tail⟩ := List.forall_mem_cons.mp within
    obtain ⟨rest_same, left⟩ := ih tail
    unfold Pattern.many
    rw [← same c head, ← rest_same]
    refine ⟨rfl, fun way mem => ?_⟩
    split at mem
    · rcases List.mem_append.mp mem with more | last
      · obtain ⟨way', mem', rfl⟩ := List.mem_map.mp more
        exact ⟨Over.cons head (left way' mem').1, (left way' mem').2⟩
      · cases List.mem_singleton.mp last
        exact ⟨Over.nil, within⟩
    · cases List.mem_singleton.mp mem
      exact ⟨Over.nil, within⟩

theorem Agree.few (same : ∀ c, S c → class₁ c = class₂ c) :
    Agree S (Over S) (few class₁) (few class₂) := by
  intro text within
  induction text with
  | nil =>
    refine ⟨rfl, fun way mem => ?_⟩
    cases List.mem_singleton.mp mem
    exact ⟨Over.nil, within⟩
  | cons c rest ih =>
    obtain ⟨head, tail⟩ := List.forall_mem_cons.mp within
    obtain ⟨rest_same, left⟩ := ih tail
    unfold Pattern.few
    rw [← same c head, ← rest_same]
    refine ⟨rfl, fun way mem => ?_⟩
    rcases List.mem_cons.mp mem with rfl | more
    · exact ⟨Over.nil, within⟩
    · split at more
      · obtain ⟨way', mem', rfl⟩ := List.mem_map.mp more
        exact ⟨Over.cons head (left way' mem').1, (left way' mem').2⟩
      · cases more

theorem Agree.many1 (same : ∀ c, S c → class₁ c = class₂ c) :
    Agree S (Over S) (many1 class₁) (many1 class₂) :=
  (Agree.one same).bind fun _ head => (Agree.many same).bind fun _ tail =>
    Agree.pure (Over.cons head tail)

theorem Agree.few1 (same : ∀ c, S c → class₁ c = class₂ c) :
    Agree S (Over S) (few1 class₁) (few1 class₂) :=
  (Agree.one same).bind fun _ head => (Agree.few same).bind fun _ tail =>
    Agree.pure (Over.cons head tail)

theorem Agree.optional (agree : Agree S A p q) :
    Agree S (fun found => ∀ a ∈ found, A a) (optional p) (optional q) := by
  intro text within
  obtain ⟨same, left⟩ := agree text within
  unfold Pattern.optional
  rw [← same]
  refine ⟨rfl, fun way mem => ?_⟩
  rcases List.mem_append.mp mem with here | none
  · obtain ⟨way', mem', rfl⟩ := List.mem_map.mp here
    refine ⟨?_, (left way' mem').2⟩
    rintro a ⟨⟩
    exact (left way' mem').1
  · cases List.mem_singleton.mp none
    exact ⟨nofun, within⟩

theorem Agree.either {p' q' : Pattern α} (left : Agree S A p q) (right : Agree S A p' q') :
    Agree S A (either p p') (either q q') := by
  intro text within
  obtain ⟨same, here⟩ := left text within
  obtain ⟨same', there⟩ := right text within
  unfold Pattern.either
  rw [← same, ← same']
  refine ⟨rfl, fun way mem => ?_⟩
  rcases List.mem_append.mp mem with mem | mem
  · exact here way mem
  · exact there way mem

theorem Agree.endOfText : Agree S (fun _ => True) endOfText endOfText := by
  intro text within
  cases text with
  | nil =>
    refine ⟨rfl, fun way mem => ?_⟩
    cases List.mem_singleton.mp mem
    exact ⟨trivial, within⟩
  | cons c rest => exact ⟨rfl, nofun⟩

end

end Pattern

end SystemsProjects.Regex
