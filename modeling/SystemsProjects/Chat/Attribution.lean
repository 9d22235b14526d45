import SystemsProjects.Chat.Broadcasts
import SystemsProjects.Chat.Membership

/-!
# Names on messages

A message carries the name that `usernames` has at its sender's index, and a direct
message goes to the client at the index of a name. Both are right as long as no join or
leave in front of that index has changed one list only. A broadcast passes nobody over as
long as nobody whom it has passed is taken out of `clients`.
-/

namespace SystemsProjects.Chat

open Entries

/-! ## Where broadcasts have come to -/

def HandlerPc.loop : HandlerPc → Option Nat
  | .broadcasting _ i | .announcing _ _ i => some i
  | _ => none

def MainPc.loop : MainPc → Option (Nat × Nat)
  | .broadcasting client i => some (client, i)
  | _ => none

/-- The loop of `broadcast` that a thread is in: for whom, and before which step. -/
def Server.loop (s : Server) : Turn → Option (Nat × Nat)
  | .main => s.main.loop
  | .handler client => (s.handler client).loop.map (fun i => (client, i))

/-- Those that the thread's broadcast has been sent to, after its next statement. -/
def Server.tell (s : Server) (turn : Turn) (socket : Option Text) (told : List Nat) : List Nat :=
  if (s.loop turn).isNone then []
  else if socket.isSome then told ++ ((s.sends turn).map Prod.fst).toList
  else told

/-- The runs of `Run`, with those that the broadcast of each thread has been sent to. -/
inductive Talk (passcode : Text) (ok : Server → Turn → Prop) : Server → (Turn → List Nat) → Prop
  | initial : Talk passcode ok initial (fun _ => [])
  | next {s told} (turn : Turn) (socket : Option Text) : Talk passcode ok s told → ok s turn →
      Talk passcode ok (s.step passcode socket turn)
        (Function.update told turn (s.tell turn socket (told turn)))

/-! ## What a statement has to find -/

/-- No join and no leave of the entries up to `n` has changed one list only. -/
def Settled (s : Server) (n : Nat) : Prop :=
  ∀ c ∈ s.owners, s.owners.idxOf c ≤ n → s.registered c = true

/-- No broadcast has passed the index. -/
def Ahead (s : Server) (index : Nat) : Prop :=
  (∀ p ∈ s.loop .main, p.2 ≤ index) ∧ ∀ c < s.accepted, ∀ p ∈ s.loop (.handler c), p.2 ≤ index

/-- A leave does not take a client out behind the place where a broadcast is. The sender of a
message is looked up, and the receiver of a direct message is still at its index, while the
lists agree up to there. -/
def Finds (s : Server) (client : Nat) : HandlerPc → Prop
  | .naming _ => Settled s (s.owners.idxOf client)
  | .directing receiver _ i => s.usernames[i]? = some receiver ∧ Settled s i ∧
      Settled s (s.owners.idxOf client)
  | .removing _ _ => Ahead s (s.clients.idxOf client)
  | _ => True

def Orderly (s : Server) : Turn → Prop
  | .main => True
  | .handler client => Tidy s (.handler client) ∧ Finds s client (s.handler client)

theorem Orderly.tidy {s : Server} {turn : Turn} (orderly : Orderly s turn) : Tidy s turn := by
  cases turn with
  | main => trivial
  | handler client => exact orderly.1

/-- What the next statement of a thread sends carries the name of the client that it is
from, and a direct message goes to a client with the name that it is for. -/
def Right (s : Server) : Turn → Prop
  | .main => ∀ sender i, s.main = .broadcasting sender i → ∀ receiver text,
      s.sends .main = some (receiver, text) → receiver ∈ s.clients ∧ receiver ≠ sender ∧
        text = s.joinedAs sender ++ " joined the chatroom".toList
  | .handler sender =>
    match s.handler sender with
    | .directing name msg _ => ∃ receiver ∈ s.clients, s.joinedAs receiver = name ∧
        s.sends (.handler sender) = some (receiver, s.line sender msg)
    | .broadcasting _ _ => ∀ receiver text, s.sends (.handler sender) = some (receiver, text) →
        receiver ∈ s.clients ∧ receiver ≠ sender ∧ ∃ msg, text = s.line sender msg
    | .announcing _ _ _ => ∀ receiver text, s.sends (.handler sender) = some (receiver, text) →
        receiver ∈ s.clients ∧ receiver ≠ sender ∧
          text = s.joinedAs sender ++ " left the chatroom".toList
    | _ => True

section

variable {s t : Server} {passcode : Text} {client c n : Nat} {pc : HandlerPc} {turn : Turn}
  {told : Turn → List Nat}

/-! ## The lists up to an index -/

theorem Inv.clients_at (i : Inv s) (settled : Settled s n) {k : Nat} (le : k ≤ n) :
    s.clients[k]? = s.owners[k]? := by
  rw [i.clients]
  refine getElem?_filter fun c mem => ?_
  have owner := List.mem_of_mem_take mem
  have front := (List.mem_take_iff_idxOf_lt owner).mp mem
  exact settled c owner (by omega)

/-- The name that is looked up is that of the client. -/
theorem Inv.label_own (i : Inv s) (settled : Settled s (s.owners.idxOf c)) (owner : c ∈ s.owners) :
    c ∈ s.clients ∧ s.label c = some (s.joinedAs c) := by
  have here : s.clients[s.owners.idxOf c]? = some c := by
    rw [i.clients_at settled (Nat.le_refl _)]
    exact List.getElem?_idxOf owner
  have member := List.mem_of_getElem? here
  obtain ⟨k, found⟩ := Option.isSome_iff_exists.mp (List.isSome_idxOf?.mpr member)
  obtain ⟨inside, there, _⟩ := List.idxOf?_eq_some_iff.mp found
  have nodup : s.clients.Nodup := by
    rw [i.clients]
    exact i.nodup.filter _
  have same : k = s.owners.idxOf c := by
    obtain ⟨inside', here⟩ := List.getElem?_eq_some_iff.mp here
    exact (nodup.getElem_inj_iff).mp (there.trans here.symm)
  refine ⟨member, ?_⟩
  rw [Server.label, found, Option.bind_some, same, i.names, List.getElem?_map,
    List.getElem?_idxOf owner]
  rfl

/-! ## Who speaks, and in whose name -/

/-- What a handler relies on: its client's name is in the list until it leaves, and the text of
a broadcast carries it. -/
def Speaking (s : Server) (client : Nat) : HandlerPc → Prop
  | .receiving | .received _ | .searching _ _ _ _ | .directing _ _ _ | .reporting | .printing _
  | .naming _ => client ∈ s.owners
  | .broadcasting text _ => client ∈ s.owners ∧ ∃ msg, text = s.line client msg
  | .announcing _ text _ => text = s.joinedAs client ++ " left the chatroom".toList
  | _ => True

/-- What `main` relies on after a join. -/
def Introducing (s : Server) : MainPc → Prop
  | .appendingClient client _ | .broadcasting client _ | .starting client => client ∈ s.owners
  | _ => True

structure Spoken (s : Server) : Prop where
  handlers : ∀ c, Speaking s c (s.handler c)
  main : Introducing s s.main

theorem Speaking.congr (h : Speaking s c pc) (owner : c ∈ s.owners → c ∈ t.owners)
    (name : pc ≠ .absent → t.joinedAs c = s.joinedAs c) : Speaking t c pc := by
  cases pc with
  | broadcasting =>
    obtain ⟨mem, msg, text⟩ := h
    exact ⟨owner mem, msg, by rw [text, Server.line, Server.line, name HandlerPc.noConfusion]⟩
  | announcing => exact h.trans (by rw [name HandlerPc.noConfusion])
  | receiving | received | searching | directing | reporting | printing | naming => exact owner h
  | absent | testing | indexing | removing | reading | unnaming | finished => trivial

theorem Introducing.congr {m : MainPc} (h : Introducing s m) (owners : t.owners = s.owners) :
    Introducing t m := by
  unfold Introducing
  rw [owners]
  exact h

theorem raised_speaks (tried : Bool) : Speaking s client (Server.raised tried) := by
  cases tried <;> trivial

/-- A handler moves on and changes no list. -/
theorem Spoken.setHandler (h : Spoken s) (speaks : Speaking s client pc) :
    Spoken (s.setHandler client pc) where
  handlers c := by
    by_cases same : c = client
    · subst same
      rw [Server.setHandler_handler]
      exact speaks.congr id fun _ => rfl
    · rw [Server.setHandler_other same]
      exact (h.handlers c).congr id fun _ => rfl
  main := h.main.congr rfl

theorem dispatch_speaks (owner : client ∈ s.owners) (msg : Text) :
    Speaking s client (s.dispatch msg) := by
  unfold Server.dispatch
  split
  · trivial
  · split
    · split
      · exact owner
      · trivial
    · exact owner

/-- The name goes, and the notice carries it. -/
theorem Spoken.unname {username : Text} {tried : Bool} (h : Spoken s) (i : Inv s)
    (own : OwnEntry s client username) (leaves : (s.handler client).leaves = true) :
    Spoken ((s.removeName client username).setHandler client
      (.announcing tried (username ++ " left the chatroom".toList) 0)) := by
  have owner := i.leaving client leaves
  have name : username = s.joinedAs client := by
    have here := own.1
    rw [i.names, List.getElem?_map, List.getElem?_idxOf owner] at here
    exact (Option.some.inj here).symm
  refine ⟨fun c => ?_, ?_⟩
  · by_cases same : c = client
    · subst same
      rw [Server.setHandler_handler, name]
      rfl
    · rw [Server.setHandler_other same]
      refine (h.handlers c).congr (fun mem => ?_) fun _ => rfl
      exact (List.mem_erase_of_ne same).mpr mem
  · have main := h.main
    have joining := i.joining
    have started : s.handler client ≠ .absent := by
      intro absent
      rw [absent] at leaves
      exact Bool.false_ne_true leaves
    -- `main` introduces a client whose handler has not been started
    have other : ∀ c, s.handler c = .absent → c ∈ s.owners → c ∈ s.owners.erase client := by
      intro c absent mem
      refine (List.mem_erase_of_ne ?_).mpr mem
      rintro rfl
      exact started absent
    change Introducing _ s.main
    cases pc : s.main with
    | appendingClient c name =>
      rw [pc] at main joining
      exact other c joining.2.1 main
    | broadcasting c n | starting c =>
      rw [pc] at main joining
      exact other c joining.2 main
    | accepting | refusing | welcoming | appendingName | dead => trivial

theorem Spoken.handlerStep (h : Spoken s) (i : Inv s) (orderly : Orderly s (.handler client))
    (socket : Option Text) : Spoken (s.handlerStep client socket) := by
  obtain ⟨tidy, orderly⟩ := orderly
  have own := h.handlers client
  unfold Server.handlerStep
  simp only [Tidy] at tidy
  cases pc : s.handler client with
  | absent | finished => exact h
  | receiving =>
    rw [pc] at own
    refine h.setHandler ?_
    cases socket
    · exact raised_speaks true
    · exact own
  | received msg =>
    rw [pc] at own
    exact h.setHandler (dispatch_speaks own msg)
  | searching receiver msg n m =>
    rw [pc] at own
    refine h.setHandler ?_
    repeat' split
    all_goals first | exact own | exact raised_speaks true
  | directing receiver msg n =>
    rw [pc] at own
    refine h.setHandler ?_
    split
    · exact own
    · exact raised_speaks true
  | reporting | printing msg =>
    rw [pc] at own
    refine h.setHandler ?_
    split
    · exact own
    · exact raised_speaks true
  | naming msg =>
    rw [pc] at own orderly
    refine h.setHandler ?_
    rw [(i.label_own orderly own).2]
    exact ⟨own, msg, rfl⟩
  | broadcasting text n =>
    rw [pc] at own
    refine h.setHandler ?_
    repeat' split
    · exact own.1
    · exact own
    · exact raised_speaks true
  | testing tried =>
    refine h.setHandler ?_
    split <;> trivial
  | indexing tried =>
    refine h.setHandler ?_
    cases s.clients.idxOf? client
    · exact raised_speaks tried
    · trivial
  | removing tried index =>
    dsimp only
    split
    · exact Spoken.setHandler (s := s.removeClient client)
        ⟨fun c => (h.handlers c).congr id fun _ => rfl, h.main⟩ trivial
    · exact h.setHandler (raised_speaks tried)
  | reading tried index =>
    refine h.setHandler ?_
    cases s.usernames[index]?
    · exact raised_speaks tried
    · trivial
  | unnaming tried username =>
    rw [pc] at tidy
    dsimp only at tidy ⊢
    rw [if_pos (List.mem_of_getElem? tidy.1)]
    exact h.unname i tidy (by rw [pc]; rfl)
  | announcing tried text n =>
    rw [pc] at own
    refine h.setHandler ?_
    repeat' split
    · trivial
    · exact own
    · exact raised_speaks tried

/-- `main` moves on and changes no list. -/
theorem Spoken.setMain {m : MainPc} (h : Spoken s) (introduces : Introducing s m) :
    Spoken (s.setMain m) where
  handlers c := (h.handlers c).congr id fun _ => rfl
  main := introduces.congr rfl

theorem Spoken.login {credentials : Text} (h : Spoken s) (i : Inv s) :
    Spoken (s.login passcode credentials) := by
  unfold Server.login
  split
  · refine ⟨fun c => (h.handlers c).congr id fun started => if_neg ?_, ?_⟩
    · rintro rfl
      exact started (i.fresh _ (Nat.le_refl _)).2
    · dsimp only
      split <;> trivial
  · exact h.setMain trivial

theorem Spoken.mainStep (h : Spoken s) (i : Inv s) (socket : Option Text) :
    Spoken (s.mainStep passcode socket) := by
  have main := h.main
  unfold Server.mainStep
  cases pc : s.main with
  | accepting =>
    cases socket
    · exact h.setMain trivial
    · exact h.login i
  | refusing =>
    refine h.setMain ?_
    split <;> trivial
  | welcoming c username =>
    refine h.setMain ?_
    split <;> trivial
  | appendingName c username =>
    refine ⟨fun d => (h.handlers d).congr (fun mem => ?_) fun _ => rfl, ?_⟩
    · exact List.mem_append_left _ mem
    · exact List.mem_append_right _ (List.mem_singleton_self c)
  | appendingClient c username =>
    rw [pc] at main
    exact ⟨fun d => (h.handlers d).congr id fun _ => rfl, main⟩
  | broadcasting c n =>
    rw [pc] at main
    refine h.setMain ?_
    repeat' split
    · exact main
    · exact main
    · trivial
  | starting c =>
    rw [pc] at main
    refine Spoken.setMain ?_ trivial
    exact h.setHandler main
  | dead => exact h

/-! ## Whom a broadcast has reached -/

/-- Of the first `n` clients all but the sender are in the list. -/
def Reached (clients : List Nat) (sender n : Nat) (told : List Nat) : Prop :=
  n ≤ clients.length ∧ ∀ c ∈ clients.take n, c ≠ sender → c ∈ told

/-- So it is for the broadcast of each thread. -/
def Told (s : Server) (told : Turn → List Nat) : Prop :=
  ∀ turn sender n, s.loop turn = some (sender, n) → Reached s.clients sender n (told turn)

section

variable {clients l l' : List Nat} {sender : Nat}

theorem Reached.zero : Reached clients sender 0 l :=
  ⟨Nat.zero_le _, fun _ mem => absurd mem List.not_mem_nil⟩

theorem Reached.next (h : Reached clients sender n l) (here : clients[n]? = some c)
    (more : ∀ x ∈ l, x ∈ l') (served : c ≠ sender → c ∈ l') :
    Reached clients sender (n + 1) l' := by
  obtain ⟨inside, there⟩ := List.getElem?_eq_some_iff.mp here
  refine ⟨inside, fun x mem ne => ?_⟩
  rw [List.take_succ_eq_append_getElem inside, there] at mem
  rcases List.mem_append.mp mem with before | last
  · exact more x (h.2 x before ne)
  · obtain rfl := List.mem_singleton.mp last
    exact served ne

theorem Reached.erase (h : Reached clients sender n l) (member : c ∈ clients)
    (ahead : n ≤ clients.idxOf c) : Reached (clients.erase c) sender n l := by
  have inside := List.idxOf_lt_length_of_mem member
  refine ⟨?_, ?_⟩
  · rw [List.length_erase_of_mem member]
    omega
  · rw [take_erase ahead]
    exact h.2

theorem Reached.append (h : Reached clients sender n l) (c : Nat) :
    Reached (clients ++ [c]) sender n l := by
  refine ⟨?_, ?_⟩
  · rw [List.length_append]
    exact Nat.le_add_right_of_le h.1
  · rw [List.take_append_of_le_length h.1]
    exact h.2

/-- At the end of the loop all but the sender have been sent to. -/
theorem Reached.all (h : Reached clients sender n l) (ended : clients[n]? = none) :
    ∀ c ∈ clients, c ≠ sender → c ∈ l := by
  have whole : clients.take n = clients :=
    List.take_of_length_le (List.getElem?_eq_none_iff.mp ended)
  exact whole ▸ h.2

end

/-- The next one is sent to, unless it is the sender. -/
theorem sends_loop {sender : Nat} (at' : s.loop turn = some (sender, n)) :
    (s.sends turn).map Prod.fst = s.clients[n]?.filter (fun c => c ≠ sender) := by
  cases turn with
  | main =>
    simp only [Server.loop] at at'
    cases pc : s.main <;> simp [pc, MainPc.loop] at at'
    obtain ⟨rfl, rfl⟩ := at'
    simp [Server.sends, pc, Function.comp_def]
  | handler client =>
    simp only [Server.loop] at at'
    cases pc : s.handler client <;> simp [pc, HandlerPc.loop] at at' <;>
      obtain ⟨rfl, rfl⟩ := at' <;> simp [Server.sends, pc, Function.comp_def]

/-- A step of the loop that goes on has sent to the next one. -/
theorem Reached.tell {sender : Nat} {socket : Option Text}
    (h : Reached s.clients sender n (told turn)) (at' : s.loop turn = some (sender, n))
    (here : s.clients[n]? = some c) (goes : c = sender ∨ socket.isSome) :
    Reached s.clients sender (n + 1) (s.tell turn socket (told turn)) := by
  have tell : s.tell turn socket (told turn) = if socket.isSome then
      told turn ++ (s.clients[n]?.filter (fun c => c ≠ sender)).toList else told turn := by
    rw [Server.tell, at', ← sends_loop at']
    rfl
  rw [tell]
  refine h.next here (fun x mem => ?_) fun ne => ?_
  · split
    · exact List.mem_append_left _ mem
    · exact mem
  · rw [if_pos (goes.resolve_left ne), here]
    exact List.mem_append_right _ (by simp [ne])

/-! ## The steps of a handler -/

theorem raised_loop (tried : Bool) : (Server.raised tried).loop = none := by
  cases tried <;> rfl

theorem dispatch_loop (msg : Text) : (s.dispatch msg).loop = none := by
  unfold Server.dispatch
  repeat' split
  all_goals rfl

/-- A handler that is in a loop has begun it or has made one step of it. -/
theorem handlerStep_loop {socket : Option Text}
    (at' : ((s.handlerStep client socket).handler client).loop = some n) : n = 0 ∨
    ∃ m c, (s.handler client).loop = some m ∧ n = m + 1 ∧ s.clients[m]? = some c ∧
      (c = client ∨ socket.isSome) := by
  have raised : ∀ {tried}, (Server.raised tried).loop ≠ some n := by
    intro tried
    rw [raised_loop]
    exact nofun
  unfold Server.handlerStep at at'
  cases pc : s.handler client with
  | absent | finished =>
    rw [pc] at at'
    dsimp only at at'
    rw [pc] at at'
    cases at'
  | receiving =>
    simp only [pc, Server.setHandler_handler] at at'
    cases socket
    · exact absurd at' raised
    · cases at'
  | received msg =>
    simp only [pc, Server.setHandler_handler, dispatch_loop] at at'
    cases at'
  | searching | directing | reporting | printing | testing =>
    simp only [pc, Server.setHandler_handler] at at'
    repeat' split at at'
    all_goals cases at'
  | naming msg =>
    simp only [pc, Server.setHandler_handler] at at'
    cases label : s.label client <;> rw [label] at at'
    · exact absurd at' raised
    · exact .inl (Option.some.inj at').symm
  | indexing tried =>
    simp only [pc, Server.setHandler_handler] at at'
    cases found : s.clients.idxOf? client <;> rw [found] at at'
    · exact absurd at' raised
    · cases at'
  | reading tried index =>
    simp only [pc, Server.setHandler_handler] at at'
    cases name : s.usernames[index]? <;> rw [name] at at'
    · exact absurd at' raised
    · cases at'
  | removing tried index =>
    simp only [pc] at at'
    split at at' <;> rw [Server.setHandler_handler] at at'
    · cases at'
    · exact absurd at' raised
  | unnaming tried username =>
    simp only [pc] at at'
    split at at' <;> rw [Server.setHandler_handler] at at'
    · exact .inl (Option.some.inj at').symm
    · exact absurd at' raised
  | broadcasting text m | announcing tried text m =>
    simp only [pc, Server.setHandler_handler] at at'
    cases here : s.clients[m]? with
    | none =>
      rw [here] at at'
      cases at'
    | some c =>
      simp only [here] at at'
      split at at'
      · exact .inr ⟨m, c, rfl, (Option.some.inj at').symm, here, ‹_›⟩
      · exact absurd at' raised

theorem Told.handlerStep (h : Told s told) (i : Inv s) (orderly : Orderly s (.handler client))
    (socket : Option Text) : Told (s.handlerStep client socket)
      (Function.update told (.handler client)
        (s.tell (.handler client) socket (told (.handler client)))) := by
  intro turn sender n at'
  by_cases own : turn = .handler client
  · subst own
    rw [Function.update_self]
    simp only [Server.loop, Option.map_eq_some_iff, Prod.mk.injEq] at at'
    obtain ⟨n, at', rfl, rfl⟩ := at'
    rcases handlerStep_loop at' with rfl | ⟨m, c, before, rfl, here, goes⟩
    · exact .zero
    · have loop : s.loop (.handler client) = some (client, m) := by rw [Server.loop, before]; rfl
      have clients : (s.handlerStep client socket).clients = s.clients := by
        rcases handlerStep_removes s client socket with same | ⟨_, _, pc, _⟩
        · exact same
        · rw [pc] at before
          cases before
      rw [clients]
      exact (h _ _ _ loop).tell loop here goes
  · rw [Function.update_of_ne own]
    have loop : s.loop turn = some (sender, n) := by
      cases turn with
      | main => rwa [Server.loop, handlerStep_main] at at'
      | handler c =>
        have ne : client ≠ c := by
          rintro rfl
          exact own rfl
        rwa [Server.loop, handlerStep_other ne] at at'
    have reached := h turn sender n loop
    rcases handlerStep_removes s client socket with same | ⟨_, _, pc, mem, out⟩
    · rwa [same]
    · rw [out]
      refine reached.erase mem ?_
      have ahead := orderly.2
      rw [pc] at ahead
      cases turn with
      | main => exact ahead.1 _ loop
      | handler c =>
        by_cases lt : c < s.accepted
        · exact ahead.2 c lt _ loop
        · rw [Server.loop, (i.fresh c (Nat.le_of_not_lt lt)).2] at loop
          cases loop

/-! ## The steps of `main` -/

theorem mainStep_loop {socket : Option Text} {sender : Nat}
    (at' : (s.mainStep passcode socket).main.loop = some (sender, n)) : n = 0 ∨
    ∃ m c, s.main.loop = some (sender, m) ∧ n = m + 1 ∧ s.clients[m]? = some c ∧
      (c = sender ∨ socket.isSome) ∧ (s.mainStep passcode socket).clients = s.clients := by
  unfold Server.mainStep at at' ⊢
  cases pc : s.main with
  | accepting =>
    cases socket with
    | none => simp [pc, Server.setMain, MainPc.loop] at at'
    | some credentials =>
      simp only [pc, Option.elim_some, Server.login] at at'
      repeat' split at at'
      all_goals simp [Server.setMain, MainPc.loop] at at'
  | refusing | welcoming =>
    simp only [pc, Server.setMain] at at'
    split at at' <;> simp [MainPc.loop] at at'
  | appendingName | starting => simp [pc, Server.setMain, MainPc.loop] at at'
  | dead => simp [pc, MainPc.loop] at at'
  | appendingClient c username =>
    simp only [pc, Server.setMain, MainPc.loop, Option.some.injEq, Prod.mk.injEq] at at'
    exact .inl at'.2.symm
  | broadcasting c m =>
    simp only [pc, Server.setMain] at at'
    cases here : s.clients[m]? with
    | none => simp [here, MainPc.loop] at at'
    | some d =>
      simp only [here] at at'
      split at at'
      · obtain ⟨rfl, rfl⟩ := Prod.mk.inj (Option.some.inj at')
        exact .inr ⟨m, d, rfl, rfl, here, ‹_›, rfl⟩
      · simp [MainPc.loop] at at'

/-- `main` starts a handler outside the loops. -/
theorem mainStep_starts {socket : Option Text}
    (at' : ((s.mainStep passcode socket).handler client).loop = some n) :
    (s.handler client).loop = some n := by
  by_cases pc : s.main = .starting client
  · simp only [Server.mainStep, pc, Server.setMain, Server.setHandler_handler] at at'
    cases at'
  · rwa [mainStep_handler pc] at at'

theorem Told.mainStep (h : Told s told) (socket : Option Text) :
    Told (s.mainStep passcode socket)
      (Function.update told .main (s.tell .main socket (told .main))) := by
  intro turn sender n at'
  cases turn with
  | main =>
    rw [Function.update_self]
    rcases mainStep_loop at' with rfl | ⟨m, c, before, rfl, here, goes, clients⟩
    · exact .zero
    · rw [clients]
      have loop : s.loop .main = some (sender, m) := before
      exact (h _ _ _ loop).tell loop here goes
  | handler client =>
    rw [Function.update_of_ne Turn.noConfusion]
    simp only [Server.loop, Option.map_eq_some_iff, Prod.mk.injEq] at at'
    obtain ⟨n, at', rfl, rfl⟩ := at'
    have reached := h (.handler client) client n (by rw [Server.loop, mainStep_starts at']; rfl)
    rcases mainStep_clients s passcode socket with same | ⟨c, more⟩
    · rwa [same]
    · rw [more]
      exact reached.append c

/-! ## Every run -/

theorem Talk.run {ok ok' : Server → Turn → Prop} (talk : Talk passcode ok s told)
    (weaker : ∀ s turn, ok s turn → ok' s turn) : Run passcode ok' s := by
  induction talk with
  | initial => exact .initial
  | next turn socket _ meets ih => exact .next turn socket ih (weaker _ _ meets)

/-- A broadcast is sent to a client other than its sender. -/
theorem sends_other {sender receiver : Nat} {text : Text}
    (at' : s.loop turn = some (sender, n)) (sends : s.sends turn = some (receiver, text)) :
    receiver ∈ s.clients ∧ receiver ≠ sender := by
  have here := sends_loop at'
  rw [sends] at here
  obtain ⟨here, ne⟩ := Option.filter_eq_some_iff.mp here.symm
  exact ⟨List.mem_of_getElem? here, of_decide_eq_true ne⟩

/-- A direct message goes to a client with the name that it is for. -/
theorem Inv.direct {receiver msg : Text} {k : Nat} (i : Inv s)
    (pc : s.handler client = .directing receiver msg k)
    (orderly : Orderly s (.handler client)) (owner : client ∈ s.owners) :
    ∃ c ∈ s.clients, s.joinedAs c = receiver ∧
      s.sends (.handler client) = some (c, s.line client msg) := by
  have ok := orderly.2
  rw [pc] at ok
  obtain ⟨name, front, own⟩ := ok
  rw [i.names, List.getElem?_map, Option.map_eq_some_iff] at name
  obtain ⟨c, there, rfl⟩ := name
  have here : s.clients[k]? = some c := (i.clients_at front (Nat.le_refl k)).trans there
  refine ⟨c, List.mem_of_getElem? here, rfl, ?_⟩
  simp only [Server.sends, pc, here, (i.label_own own owner).2]
  rfl

theorem Spoken.right (h : Spoken s) (i : Inv s) (orderly : Orderly s turn) : Right s turn := by
  cases turn with
  | main =>
    intro sender n pc receiver text sends
    have loop : s.loop .main = some (sender, n) := by rw [Server.loop, pc]; rfl
    obtain ⟨member, ne⟩ := sends_other loop sends
    refine ⟨member, ne, ?_⟩
    simp only [Server.sends, pc, Option.map_eq_some_iff, Prod.mk.injEq] at sends
    obtain ⟨_, _, _, rfl⟩ := sends
    rfl
  | handler sender =>
    have own := h.handlers sender
    unfold Right
    dsimp only
    cases pc : s.handler sender with
    | directing name msg k =>
      rw [pc] at own
      exact i.direct pc orderly own
    | broadcasting said n | announcing tried said n =>
      rw [pc] at own
      intro receiver text sends
      have loop : s.loop (.handler sender) = some (sender, n) := by rw [Server.loop, pc]; rfl
      obtain ⟨member, ne⟩ := sends_other loop sends
      simp only [Server.sends, pc, Option.map_eq_some_iff, Prod.mk.injEq] at sends
      obtain ⟨_, _, _, rfl⟩ := sends
      first
      | exact ⟨member, ne, own.2⟩
      | exact ⟨member, ne, own⟩
    | _ => trivial

end

instance (s : Server) (n : Nat) : Decidable (Settled s n) :=
  inferInstanceAs (Decidable (∀ c ∈ s.owners, s.owners.idxOf c ≤ n → s.registered c = true))

instance (s : Server) (index : Nat) : Decidable (Ahead s index) :=
  inferInstanceAs (Decidable (_ ∧ _))

instance (s : Server) (client : Nat) : (pc : HandlerPc) → Decidable (Finds s client pc)
  | .naming _ => inferInstanceAs (Decidable (Settled _ _))
  | .directing _ _ _ => inferInstanceAs (Decidable (_ ∧ _ ∧ _))
  | .removing _ _ => inferInstanceAs (Decidable (Ahead _ _))
  | .absent | .receiving | .received _ | .searching _ _ _ _ | .reporting | .printing _
  | .broadcasting _ _ | .testing _ | .indexing _ | .reading _ _ | .unnaming _ _
  | .announcing _ _ _ | .finished => .isTrue trivial

instance (s : Server) : (turn : Turn) → Decidable (Orderly s turn)
  | .main => .isTrue trivial
  | .handler _ => inferInstanceAs (Decidable (_ ∧ _))

theorem Talk.script {passcode : Text} {ok : Server → Turn → Prop} {s : Server}
    {told : Turn → List Nat} {turns : List (Turn × Option Text)} (talk : Talk passcode ok s told)
    (meets : Meets passcode ok turns s) :
    ∃ told, Talk passcode ok (script passcode turns s) told := by
  induction turns generalizing s told with
  | nil => exact ⟨told, talk⟩
  | cons turn turns ih => exact ih (talk.next turn.1 turn.2 meets.1) meets.2

end SystemsProjects.Chat
