import SystemsProjects.Chat.Server
import SystemsProjects.Lib.Entries
import Mathlib.Data.List.InsertIdx

/-!
# The two lists of the server

A leave takes the client out of `clients` by value and looks its name up by index,
and takes that name out of `usernames` by value again. The lists stay aligned as long
as what this takes out is the client's own entry.
-/

namespace SystemsProjects.Chat

open Entries

/-- Between `clients.remove` and `usernames.remove`. -/
def HandlerPc.leaves : HandlerPc → Bool
  | .reading _ _ | .unnaming _ _ => true
  | _ => false

/-- Between `usernames.append` and `clients.append`. -/
def MainPc.adds : MainPc → Option Nat
  | .appendingClient client _ => some client
  | _ => none

/-- No join and no leave has changed one list only. -/
def Quiet (s : Server) : Prop := s.main.adds = none ∧ ∀ c, (s.handler c).leaves = false

/-- Each name is that of the client with the same index: what `label` finds is the
name of the client, and what a direct message finds is a client with the name. -/
structure Aligned (s : Server) : Prop where
  length : s.clients.length = s.usernames.length
  names : ∀ (i c : Nat), s.clients[i]? = some c → s.usernames[i]? = some (s.joinedAs c)
  label : ∀ c ∈ s.clients, s.label c = some (s.joinedAs c)
  receiver : ∀ (i : Nat) (username : Text), s.usernames[i]? = some username →
    ∃ c, s.clients[i]? = some c ∧ s.joinedAs c = username

/-- `username` is the name of the client, and from the first entry with that name to
the client's own there are no others. -/
def OwnEntry (s : Server) (client : Nat) (username : Text) : Prop :=
  s.usernames[s.owners.idxOf client]? = some username ∧
  ∀ i ≤ s.owners.idxOf client, s.usernames.idxOf username ≤ i → s.usernames[i]? = some username

instance (s : Server) (client : Nat) (username : Text) : Decidable (OwnEntry s client username) :=
  inferInstanceAs (Decidable (_ ∧ _))

/-- The index that a leave has looked up is one of `usernames`, and the name that it
takes out is at the client's own entry. -/
def Tidy (s : Server) : Turn → Prop
  | .main => True
  | .handler c =>
    match s.handler c with
    | .reading _ index => index < s.usernames.length
    | .unnaming _ username => OwnEntry s c username
    | _ => True

/-- The client is in `clients` if its name is in `usernames`. -/
def Server.registered (s : Server) (c : Nat) : Bool :=
  !(s.handler c).leaves && s.main.adds != some c

/-- What `main` relies on while a client joins. -/
def Joining (s : Server) : MainPc → Prop
  | .welcoming c username | .appendingName c username =>
    c < s.accepted ∧ s.handler c = .absent ∧ c ∉ s.owners ∧ s.joinedAs c = username
  | .appendingClient c _ => c < s.accepted ∧ s.handler c = .absent ∧
      ∃ front, s.owners = front ++ [c]
  | .broadcasting c _ | .starting c => c < s.accepted ∧ s.handler c = .absent
  | .accepting | .refusing | .dead => True

structure Inv (s : Server) : Prop where
  names : s.usernames = s.owners.map s.joinedAs
  nodup : s.owners.Nodup
  clients : s.clients = s.owners.filter s.registered
  fresh : ∀ c, s.accepted ≤ c → c ∉ s.owners ∧ s.handler c = .absent
  joining : Joining s s.main
  leaving : ∀ c, (s.handler c).leaves = true → c ∈ s.owners

section

variable {s : Server} {passcode : Text} {client c : Nat} {pc : HandlerPc}

/-- With the client's own entry its name goes, and only then. -/
theorem ownEntry_iff {username : Text} (names : s.usernames = s.owners.map s.joinedAs)
    (owner : client ∈ s.owners) : OwnEntry s client username ↔
      s.usernames.erase username = (s.owners.erase client).map s.joinedAs := by
  have inside : s.owners.idxOf client < s.usernames.length := by
    rw [names, List.length_map]
    exact List.idxOf_lt_length_of_mem owner
  have own : s.owners.erase client = s.owners.eraseIdx (s.owners.idxOf client) :=
    List.erase_eq_eraseIdx_of_idxOf rfl
  rw [own, ← List.eraseIdx_map, ← names]
  constructor
  · rintro ⟨here, copies⟩
    exact erase_eq_eraseIdx here copies
  · exact copies_of_erase_eq inside

/-! ## A handler that changes no list -/

theorem registered_setHandler (same : pc.leaves = (s.handler client).leaves) :
    (s.setHandler client pc).registered = s.registered := by
  funext c
  simp only [Server.registered, Server.setHandler]
  by_cases eq : c = client
  · rw [if_pos eq, same, eq]
  · rw [if_neg eq]

theorem Joining.setHandler {m : MainPc} (j : Joining s m) (started : s.handler client ≠ .absent) :
    Joining (s.setHandler client pc) m := by
  have other : ∀ c, s.handler c = .absent → (s.setHandler client pc).handler c = .absent := by
    intro c absent
    have ne : c ≠ client := by
      rintro rfl
      exact started absent
    exact (if_neg ne).trans absent
  cases m with
  | welcoming | appendingName => exact ⟨j.1, other _ j.2.1, j.2.2⟩
  | appendingClient => exact ⟨j.1, other _ j.2.1, j.2.2⟩
  | broadcasting | starting => exact ⟨j.1, other _ j.2⟩
  | accepting | refusing | dead => trivial

theorem Inv.setHandler (i : Inv s) (started : s.handler client ≠ .absent)
    (same : pc.leaves = (s.handler client).leaves) : Inv (s.setHandler client pc) where
  names := i.names
  nodup := i.nodup
  clients := by
    rw [registered_setHandler same]
    exact i.clients
  fresh c le := by
    have ne : c ≠ client := by
      rintro rfl
      exact started (i.fresh c le).2
    exact ⟨(i.fresh c le).1, (if_neg ne).trans (i.fresh c le).2⟩
  joining := i.joining.setHandler started
  leaving c leaves := by
    by_cases eq : c = client
    · subst eq
      refine i.leaving c (same ▸ ?_)
      simpa [Server.setHandler] using leaves
    · exact i.leaving c (by simpa [Server.setHandler, eq] using leaves)

/-! ## A leave -/

/-- `clients.remove(client)`. -/
theorem Inv.remove {index : Nat} {tried : Bool} (i : Inv s) (member : client ∈ s.clients)
    (before : (s.handler client).leaves = false) (started : s.handler client ≠ .absent) :
    Inv ((s.removeClient client).setHandler client (.reading tried index)) := by
  have registered : ∀ c, ((s.removeClient client).setHandler client
    (.reading tried index)).registered c =
      (s.registered c && c != client) := by
    intro c
    by_cases eq : c = client
    · simp [Server.registered, Server.setHandler, HandlerPc.leaves, eq]
    · simp [Server.registered, Server.setHandler, Server.removeClient, eq]
  have owner : client ∈ s.owners := by
    rw [i.clients] at member
    exact (List.mem_filter.mp member).1
  refine ⟨i.names, i.nodup, ?_, fun c le => ?_, i.joining.setHandler started, fun c leaves => ?_⟩
  · change s.clients.erase client = s.owners.filter _
    rw [funext registered, i.clients, List.Nodup.erase_eq_filter (i.nodup.filter _),
      List.filter_filter]
    refine List.filter_congr (fun c _ => ?_)
    exact Bool.and_comm _ _
  · have ne : c ≠ client := by
      rintro rfl
      exact started (i.fresh c le).2
    exact ⟨(i.fresh c le).1, (if_neg ne).trans (i.fresh c le).2⟩
  · by_cases eq : c = client
    · exact eq ▸ owner
    · exact i.leaving c (by simpa [Server.setHandler, Server.removeClient, eq] using leaves)

/-- Nothing else is left out when one that was left out before is taken out. -/
theorem filter_erase {l : List Nat} {a : Nat} {p q : Nat → Bool} (nodup : l.Nodup)
    (gone : p a = false) (others : ∀ c, c ≠ a → q c = p c) : l.filter p = (l.erase a).filter q := by
  rw [List.Nodup.erase_eq_filter nodup, List.filter_filter]
  refine List.filter_congr (fun c _ => ?_)
  by_cases eq : c = a
  · simp [eq, gone]
  · rw [others c eq]
    simp [eq]

/-- `usernames.remove(username)`. -/
theorem Inv.unname {username text : Text} {tried : Bool} {n : Nat} (i : Inv s)
    (own : OwnEntry s client username) (leaves : (s.handler client).leaves = true) :
    Inv ((s.removeName client username).setHandler client (.announcing tried text n)) := by
  have started : s.handler client ≠ .absent := by
    intro absent
    simp [absent, HandlerPc.leaves] at leaves
  have other : ∀ c, s.handler c = .absent → c ≠ client := by
    rintro c absent rfl
    exact started absent
  have erased : ∀ c, c ∈ s.owners.erase client ↔ c ≠ client ∧ c ∈ s.owners :=
    fun c => i.nodup.mem_erase_iff
  refine ⟨(ownEntry_iff i.names (i.leaving client leaves)).mp own, i.nodup.erase client, ?_,
    fun c le => ?_, ?_, fun c still => ?_⟩
  · refine i.clients.trans (filter_erase i.nodup ?_ (fun c ne => ?_))
    · simp [Server.registered, leaves]
    · simp [Server.registered, Server.setHandler, Server.removeName, ne]
  · have ne := other c (i.fresh c le).2
    exact ⟨fun mem => (i.fresh c le).1 ((erased c).mp mem).2, (if_neg ne).trans (i.fresh c le).2⟩
  · have joining := i.joining
    change Joining _ s.main
    cases main : s.main with
    | welcoming c name | appendingName c name =>
      rw [main] at joining
      obtain ⟨lt, absent, out, name⟩ := joining
      exact ⟨lt, (if_neg (other c absent)).trans absent, fun mem => out ((erased c).mp mem).2, name⟩
    | appendingClient c name =>
      rw [main] at joining
      obtain ⟨lt, absent, front, split⟩ := joining
      have ne := other c absent
      have member : client ∈ front := by
        have mem := i.leaving client leaves
        rw [split] at mem
        rcases List.mem_append.mp mem with mem | mem
        · exact mem
        · exact absurd (List.mem_singleton.mp mem).symm ne
      refine ⟨lt, (if_neg ne).trans absent, front.erase client, ?_⟩
      change s.owners.erase client = _
      rw [split, List.erase_append_left _ member]
    | broadcasting c n | starting c =>
      rw [main] at joining
      exact ⟨joining.1, (if_neg (other c joining.2)).trans joining.2⟩
    | accepting | refusing | dead => trivial
  · have ne : c ≠ client := by
      rintro rfl
      simp [Server.setHandler, HandlerPc.leaves] at still
    exact (erased c).mpr ⟨ne, i.leaving c (by simpa [Server.setHandler, Server.removeName, ne]
      using still)⟩

theorem raised_leaves (tried : Bool) : (Server.raised tried).leaves = false ∧
    Server.raised tried ≠ .absent := by
  cases tried <;> exact ⟨rfl, HandlerPc.noConfusion⟩

theorem dispatch_leaves (msg : Text) : (s.dispatch msg).leaves = false := by
  unfold Server.dispatch
  split
  · rfl
  · split
    · split
      · rfl
      · rfl
    · rfl

theorem Inv.handlerStep (i : Inv s) (tidy : Tidy s (.handler client)) (socket : Option Text) :
    Inv (s.handlerStep client socket) := by
  unfold Server.handlerStep
  simp only [Tidy] at tidy
  -- all but two statements neither are nor come to be between the two removals
  have stays : ∀ {before after : HandlerPc}, s.handler client = before → before ≠ .absent →
      before.leaves = false → after.leaves = false → Inv (s.setHandler client after) :=
    fun pc started out still => i.setHandler (pc ▸ started) (by rw [pc, out, still])
  cases pc : s.handler client with
  | absent | finished => exact i
  | receiving =>
    refine stays pc HandlerPc.noConfusion rfl ?_
    cases socket <;> rfl
  | received msg => exact stays pc HandlerPc.noConfusion rfl (dispatch_leaves msg)
  | searching receiver msg n m =>
    refine stays pc HandlerPc.noConfusion rfl ?_
    repeat' split
    all_goals rfl
  | directing receiver msg n =>
    refine stays pc HandlerPc.noConfusion rfl ?_
    split <;> rfl
  | reporting | printing msg =>
    refine stays pc HandlerPc.noConfusion rfl ?_
    split <;> rfl
  | naming msg =>
    refine stays pc HandlerPc.noConfusion rfl ?_
    cases s.label client <;> rfl
  | broadcasting text n =>
    refine stays pc HandlerPc.noConfusion rfl ?_
    repeat' split
    all_goals rfl
  | testing tried =>
    refine stays pc HandlerPc.noConfusion rfl ?_
    split <;> rfl
  | indexing tried =>
    refine stays pc HandlerPc.noConfusion rfl ?_
    cases s.clients.idxOf? client
    · exact (raised_leaves tried).1
    · rfl
  | announcing tried text n =>
    refine stays pc HandlerPc.noConfusion rfl ?_
    split
    · rfl
    · split
      · rfl
      · exact (raised_leaves tried).1
  | removing tried index =>
    dsimp only
    split
    · rename_i member
      exact i.remove member (by rw [pc]; rfl) (by simp [pc])
    · exact stays pc HandlerPc.noConfusion rfl (raised_leaves tried).1
  | reading tried index =>
    rw [pc] at tidy
    dsimp only at tidy ⊢
    rw [List.getElem?_eq_getElem tidy]
    exact i.setHandler (by simp [pc]) (by rw [pc]; rfl)
  | unnaming tried username =>
    rw [pc] at tidy
    dsimp only at tidy ⊢
    have member : username ∈ s.usernames := List.mem_of_getElem? tidy.1
    rw [if_pos member]
    exact i.unname tidy (by rw [pc]; rfl)

/-! ## A statement of `main` -/

theorem filter_append_one {l : List Nat} {a : Nat} {p q : Nat → Bool} (out : a ∉ l)
    (others : ∀ x, x ≠ a → q x = p x) : (l ++ [a]).filter q = l.filter p ++
    if q a then [a] else [] := by
  have front : l.filter q = l.filter p := by
    refine List.filter_congr (fun x mem => others x ?_)
    rintro rfl
    exact out mem
  rw [List.filter_append, front]
  by_cases kept : q a
  · simp [kept]
  · simp [kept]

/-- `main` moves on and changes nothing. -/
theorem Inv.setMain {m : MainPc} (i : Inv s) (before : s.main.adds = none) (after : m.adds = none)
    (joining : Joining s m) : Inv (s.setMain m) where
  names := i.names
  nodup := i.nodup
  clients := by
    have same : (s.setMain m).registered = s.registered := by
      funext c
      simp [Server.registered, Server.setMain, before, after]
    rw [same]
    exact i.clients
  fresh := i.fresh
  joining := by
    change Joining (s.setMain m) m
    cases m <;> exact joining
  leaving := i.leaving

theorem Inv.login {credentials : Text} (i : Inv s) (accepting : s.main = .accepting) :
    Inv (s.login passcode credentials) := by
  unfold Server.login
  split
  · rename_i username clientPasscode _
    have old : ∀ c ∈ s.owners, c ≠ s.accepted := by
      rintro c mem rfl
      exact (i.fresh _ (Nat.le_refl _)).1 mem
    refine ⟨?_, i.nodup, ?_, fun c le => i.fresh c (Nat.le_of_succ_le le), ?_, i.leaving⟩
    · refine i.names.trans (List.map_congr_left (fun c mem => ?_))
      exact (if_neg (old c mem)).symm
    · refine i.clients.trans (List.filter_congr (fun c _ => ?_))
      simp only [Server.registered, accepting]
      split <;> rfl
    · dsimp only
      split
      · exact ⟨Nat.lt_succ_self _, (i.fresh _ (Nat.le_refl _)).2, (i.fresh _ (Nat.le_refl _)).1,
          if_pos rfl⟩
      · trivial
  · exact i.setMain (by rw [accepting]; rfl) rfl trivial

/-- `usernames.append(username)`. -/
theorem Inv.addName {username : Text} (i : Inv s) (pc : s.main = .appendingName c username) :
    Inv ((s.addName c username).setMain (.appendingClient c username)) := by
  have joining := i.joining
  rw [pc] at joining
  obtain ⟨lt, absent, out, name⟩ := joining
  refine ⟨?_, ?_, ?_, fun d le => ⟨fun mem => ?_, (i.fresh d le).2⟩, ⟨lt, absent, s.owners, rfl⟩,
    fun d leaves => ?_⟩
  · change s.usernames ++ [username] = (s.owners ++ [c]).map s.joinedAs
    rw [i.names, List.map_append, List.map_singleton, name]
  · refine List.nodup_append.mpr ⟨i.nodup, by simp, fun a mem b last => ?_⟩
    rintro rfl
    exact out (List.mem_singleton.mp last ▸ mem)
  · have others : ∀ d, d ≠ c →
        ((s.addName c username).setMain (.appendingClient c username)).registered d =
        s.registered d := by
      intro d ne
      have same : (some c != some d) = true := by simpa using Ne.symm ne
      simp [Server.registered, Server.setMain, Server.addName, MainPc.adds, pc, same]
    have kept := filter_append_one out others
    rw [if_neg (by simp [Server.registered, Server.setMain, MainPc.adds]), List.append_nil] at kept
    exact i.clients.trans kept.symm
  · rcases List.mem_append.mp mem with mem | mem
    · exact (i.fresh d le).1 mem
    · rw [List.mem_singleton.mp mem] at le
      exact absurd lt (Nat.not_lt.mpr le)
  · exact List.mem_append_left _ (i.leaving d leaves)

/-- `clients.append(client)`. -/
theorem Inv.addClient {username : Text} (i : Inv s) (pc : s.main = .appendingClient c username) :
    Inv ((s.addClient c).setMain (.broadcasting c 0)) := by
  have joining := i.joining
  rw [pc] at joining
  obtain ⟨lt, absent, front, split⟩ := joining
  refine ⟨i.names, i.nodup, ?_, i.fresh, ⟨lt, absent⟩, i.leaving⟩
  have out : c ∉ front := by
    have nodup := i.nodup
    rw [split, List.nodup_append] at nodup
    exact fun mem => nodup.2.2 c mem c (List.mem_singleton_self c) rfl
  have others : ∀ d, d ≠ c → ((s.addClient c).setMain (.broadcasting c 0)).registered d =
      s.registered d := by
    intro d ne
    have same : (some c != some d) = true := by simpa using Ne.symm ne
    simp [Server.registered, Server.setMain, Server.addClient, MainPc.adds, pc, same]
  have before := filter_append_one (q := s.registered) out (fun _ _ => rfl)
  have after := filter_append_one out others
  rw [if_neg (by simp [Server.registered, MainPc.adds, pc]), List.append_nil, ← split,
    ← i.clients] at before
  rw [if_pos (by simp [Server.registered, Server.setMain, Server.addClient, MainPc.adds, absent,
    HandlerPc.leaves]), ← split, ← before] at after
  exact after.symm

/-- `thread.start()`. -/
theorem Inv.startThread (i : Inv s) (pc : s.main = .starting c) :
    Inv ((s.setHandler c .receiving).setMain .accepting) := by
  have joining := i.joining
  rw [pc] at joining
  obtain ⟨lt, absent⟩ := joining
  have same : ∀ d, (((s.setHandler c .receiving).setMain .accepting).handler d).leaves =
      (s.handler d).leaves := by
    intro d
    by_cases eq : d = c
    · simp [Server.setHandler, Server.setMain, eq, absent, HandlerPc.leaves]
    · simp [Server.setHandler, Server.setMain, eq]
  refine ⟨i.names, i.nodup, ?_, fun d le => ⟨(i.fresh d le).1, ?_⟩, trivial, fun d leaves => ?_⟩
  · refine i.clients.trans (List.filter_congr (fun d _ => ?_))
    simp only [Server.registered, same, pc]
    rfl
  · have ne : d ≠ c := Nat.ne_of_gt (Nat.lt_of_lt_of_le lt le)
    exact (if_neg ne).trans (i.fresh d le).2
  · exact i.leaving d (same d ▸ leaves)

theorem Inv.mainStep (i : Inv s) (socket : Option Text) : Inv (s.mainStep passcode socket) := by
  unfold Server.mainStep
  have joining := i.joining
  cases pc : s.main with
  | accepting =>
    cases socket
    · exact i.setMain (by rw [pc]; rfl) rfl trivial
    · exact i.login pc
  | refusing =>
    dsimp only
    split
    · exact i.setMain (by rw [pc]; rfl) rfl trivial
    · exact i.setMain (by rw [pc]; rfl) rfl trivial
  | welcoming c username =>
    rw [pc] at joining
    dsimp only
    split
    · exact i.setMain (by rw [pc]; rfl) rfl joining
    · exact i.setMain (by rw [pc]; rfl) rfl trivial
  | appendingName c username => exact i.addName pc
  | appendingClient c username => exact i.addClient pc
  | broadcasting c n =>
    rw [pc] at joining
    refine i.setMain (by rw [pc]; rfl) ?_ ?_
    · repeat' split
      all_goals rfl
    · repeat' split
      all_goals first | exact joining | trivial
  | starting c => exact i.startThread pc
  | dead => exact i

/-! ## Runs -/

theorem inv_initial : Inv initial := by
  refine ⟨rfl, List.nodup_nil, rfl, fun c _ => ⟨List.not_mem_nil, rfl⟩, trivial, fun c leaves => ?_⟩
  simp [initial, HandlerPc.leaves] at leaves

theorem Run.inv (run : Run passcode Tidy s) : Inv s := by
  induction run with
  | initial => exact inv_initial
  | next turn socket _ tidy ih =>
    cases turn with
    | main => exact ih.mainStep socket
    | handler c => exact ih.handlerStep tidy socket

/-- With nothing in progress `clients` are the owners of the names. -/
theorem Inv.aligned (i : Inv s) (quiet : Quiet s) : Aligned s := by
  have clients : s.clients = s.owners := by
    refine i.clients.trans (List.filter_eq_self.mpr (fun c _ => ?_))
    simp [Server.registered, quiet.1, quiet.2]
  have names : s.usernames = s.clients.map s.joinedAs := by rw [clients, i.names]
  refine ⟨by rw [names, List.length_map], fun n c here => ?_, fun c mem => ?_,
    fun n username here => ?_⟩
  · rw [names, List.getElem?_map, here]
    rfl
  · obtain ⟨n, found⟩ := Option.isSome_iff_exists.mp (List.isSome_idxOf?.mpr mem)
    obtain ⟨lt, here, _⟩ := List.idxOf?_eq_some_iff.mp found
    simp only [Server.label, found, Option.bind_some]
    rw [names, List.getElem?_map, List.getElem?_eq_getElem lt, here]
    rfl
  · rw [names, List.getElem?_map, Option.map_eq_some_iff] at here
    exact here

/-- A leave that takes out another entry misaligns the lists. -/
theorem Inv.misaligned {username : Text} {tried : Bool} (i : Inv s)
    (pc : s.handler client = .unnaming tried username) (found : username ∈ s.usernames)
    (foreign : ¬ OwnEntry s client username) (adds : s.main.adds = none)
    (others : ∀ c, c ≠ client → (s.handler c).leaves = false) (socket : Option Text) :
    Quiet (s.handlerStep client socket) ∧ ¬ Aligned (s.handlerStep client socket) := by
  obtain ⟨text, step⟩ : ∃ text, s.handlerStep client socket =
      (s.removeName client username).setHandler client (.announcing tried text 0) := by
    refine ⟨username ++ " left the chatroom".toList, ?_⟩
    simp only [Server.handlerStep, pc]
    exact if_pos found
  have leaves : (s.handler client).leaves = true := by rw [pc]; rfl
  have clients : s.clients = s.owners.erase client := by
    have kept : s.owners.filter s.registered = (s.owners.erase client).filter (fun _ => true) := by
      refine filter_erase i.nodup ?_ (fun c ne => ?_)
      · simp [Server.registered, leaves]
      · simp [Server.registered, adds, others c ne]
    rw [i.clients, kept, List.filter_true]
  rw [step]
  refine ⟨⟨adds, fun c => ?_⟩, fun aligned => foreign ?_⟩
  · by_cases eq : c = client
    · simp [Server.setHandler, eq, HandlerPc.leaves]
    · simpa [Server.setHandler, Server.removeName, eq] using others c eq
  · rw [ownEntry_iff i.names (i.leaving client leaves), ← clients]
    refine List.ext_getElem? (fun n => ?_)
    rw [List.getElem?_map]
    cases here : s.clients[n]? with
    | some c => exact aligned.names n c here
    | none =>
      have short := List.getElem?_eq_none_iff.mp here
      exact List.getElem?_eq_none_iff.mpr (aligned.length ▸ short)

end

/-! ## Scripts -/

/-- The statements of `turns`, one after the other. -/
def script (passcode : Text) : List (Turn × Option Text) → Server → Server
  | [], s => s
  | (turn, socket) :: turns, s => script passcode turns (s.step passcode socket turn)

def Meets (passcode : Text) (ok : Server → Turn → Prop) : List (Turn × Option Text) → Server → Prop
  | [], _ => True
  | (turn, socket) :: turns, s => ok s turn ∧ Meets passcode ok turns (s.step passcode socket turn)

instance decidableMeets {passcode : Text} {ok : Server → Turn → Prop}
    [∀ s turn, Decidable (ok s turn)] :
    ∀ turns s, Decidable (Meets passcode ok turns s)
  | [], _ => isTrue trivial
  | (turn, socket) :: turns, s =>
    have : Decidable (Meets passcode ok turns (s.step passcode socket turn)) :=
  decidableMeets turns _
    inferInstanceAs (Decidable (ok s turn ∧ Meets passcode ok turns (s.step passcode socket turn)))

theorem Run.script {passcode : Text} {ok : Server → Turn → Prop} {s : Server}
    {turns : List (Turn × Option Text)} (run : Run passcode ok s)
    (meets : Meets passcode ok turns s) :
    Run passcode ok (script passcode turns s) := by
  induction turns generalizing s with
  | nil => exact run
  | cons turn turns ih => exact ih (run.next turn.1 turn.2 meets.1) meets.2

instance (s : Server) (turn : Turn) : Decidable (Tidy s turn) := by
  unfold Tidy
  split
  · infer_instance
  · split <;> infer_instance

/-- `main` accepts a client that sends `credentials` while `n` others are there. -/
def join (credentials : Text) (n : Nat) : List (Turn × Option Text) :=
  (Turn.main, some credentials) :: List.replicate (n + 6) (Turn.main, some [])

/-- The client sends `:Exit`, and is taken out of the lists. -/
def leave (client : Nat) : List (Turn × Option Text) :=
  List.replicate 7 (.handler client, some disconnectMessage)

end SystemsProjects.Chat
