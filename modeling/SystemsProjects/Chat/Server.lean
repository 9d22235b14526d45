import Mathlib.Data.List.Infix

/-!
# The chat server

`server.py`: the accept loop of `main` and one thread of `client_handler` for each
client, a statement at a time. A client is numbered as it is accepted.
-/

namespace SystemsProjects.Chat

abbrev Text := List Char

def disconnectMessage : Text := ":Exit".toList

/-- Where `client_handler` is. The code for leaving is there twice, in the `try` and
in the `except`. -/
inductive HandlerPc where
  | absent
  /-- before `client.recv` -/
  | receiving
  /-- before the tests of `msg` -/
  | received (msg : Text)
  /-- in `for i in range(len(usernames))`, of which there were `n` -/
  | searching (receiver msg : Text) (i n : Nat)
  /-- before `clients[i].send` -/
  | directing (receiver msg : Text) (i : Nat)
  /-- before the `print` after it -/
  | reporting
  /-- before the `print` of a message to all -/
  | printing (msg : Text)
  /-- before its `broadcast` -/
  | naming (msg : Text)
  /-- in the loop of `broadcast`, before its `i`-th step -/
  | broadcasting (text : Text) (i : Nat)
  /-- before `if client in clients` -/
  | testing (tried : Bool)
  /-- before `clients.index(client)` -/
  | indexing (tried : Bool)
  /-- before `clients.remove(client)` -/
  | removing (tried : Bool) (index : Nat)
  /-- before `usernames[index]` -/
  | reading (tried : Bool) (index : Nat)
  /-- before `usernames.remove(username)` -/
  | unnaming (tried : Bool) (username : Text)
  /-- in the loop of `broadcast` after that -/
  | announcing (tried : Bool) (text : Text) (i : Nat)
  | finished
  deriving DecidableEq

/-- Where `main` is. -/
inductive MainPc where
  | accepting
  /-- before `client.send("Incorrect passcode")` -/
  | refusing
  /-- before `client.send("Welcome to the chatroom!")` -/
  | welcoming (client : Nat) (username : Text)
  /-- before `usernames.append(username)` -/
  | appendingName (client : Nat) (username : Text)
  /-- before `clients.append(client)` -/
  | appendingClient (client : Nat) (username : Text)
  /-- in the loop of `broadcast`, before its `i`-th step -/
  | broadcasting (client : Nat) (i : Nat)
  /-- before `thread.start()` -/
  | starting (client : Nat)
  /-- ended by an exception -/
  | dead
  deriving DecidableEq

/-- The lists and the threads. The last two say with which name a client has joined,
and whose name each of `usernames` is. -/
structure Server where
  clients : List Nat
  usernames : List Text
  main : MainPc
  handler : Nat → HandlerPc
  accepted : Nat
  joinedAs : Nat → Text
  owners : List Nat

def initial : Server := ⟨[], [], .accepting, fun _ => .absent, 0, fun _ => [], []⟩

namespace Server

def setHandler (s : Server) (client : Nat) (pc : HandlerPc) : Server :=
  { s with handler := fun c => if c = client then pc else s.handler c }

def setMain (s : Server) (pc : MainPc) : Server := { s with main := pc }

/-- `clients.remove(client)`. -/
def removeClient (s : Server) (client : Nat) : Server :=
  { s with clients := s.clients.erase client }

/-- `usernames.remove(username)`, by the handler of `client`. -/
def removeName (s : Server) (client : Nat) (username : Text) : Server :=
  { s with
    usernames := s.usernames.erase username
    owners := s.owners.erase client }

/-- `usernames.append(username)`, for `client`. -/
def addName (s : Server) (client : Nat) (username : Text) : Server :=
  { s with
    usernames := s.usernames ++ [username]
    owners := s.owners ++ [client] }

/-- `clients.append(client)`. -/
def addClient (s : Server) (client : Nat) : Server := { s with clients := s.clients ++ [client] }

/-- `usernames[clients.index(client)]`. -/
def label (s : Server) (client : Nat) : Option Text :=
  (s.clients.idxOf? client).bind (fun index => s.usernames[index]?)

/-- An exception, in the `try` or else in the `except`. -/
def raised (tried : Bool) : HandlerPc := if tried then .testing false else .finished

/-- The tests of `msg`. -/
def dispatch (s : Server) (msg : Text) : HandlerPc :=
  if msg = disconnectMessage then .testing true
  else if ":dm".toList <:+: msg then
    match msg.splitOn ' ' with
    | _ :: receiver :: word :: words =>
      .searching receiver (List.intercalate [' '] (word :: words)) 0 s.usernames.length
    | _ => raised true
  else .printing msg

/-- The next statement of the handler of `client`; `socket` is what a call of the
socket gives, `none` if it raises. -/
def handlerStep (s : Server) (client : Nat) (socket : Option Text) : Server :=
  match s.handler client with
  | .absent | .finished => s
  | .receiving => s.setHandler client (socket.elim (raised true) .received)
  | .received msg => s.setHandler client (s.dispatch msg)
  | .searching receiver msg i n => s.setHandler client
      (if i < n then
        match s.usernames[i]? with
        | some username =>
          if username = receiver then .directing receiver msg i else .searching receiver msg (i + 1)
          n
        | none => raised true
      else .receiving)
  | .directing _ _ i => s.setHandler client
      (if s.clients[i]?.isSome ∧ (s.label client).isSome ∧
        socket.isSome then .reporting else raised true)
  | .reporting => s.setHandler client (if (s.label client).isSome then .receiving else raised true)
  | .printing msg => s.setHandler client
    (if (s.label client).isSome then .naming msg else raised true)
  | .naming msg => s.setHandler client
      ((s.label client).elim (raised true) (fun name =>
        .broadcasting (name ++ ": ".toList ++ msg) 0))
  | .broadcasting text i => s.setHandler client
      (match s.clients[i]? with
      | none => .receiving
      | some c => if c = client ∨ socket.isSome then .broadcasting text (i + 1) else raised true)
  | .testing tried => s.setHandler client
    (if client ∈ s.clients then .indexing tried else .finished)
  | .indexing tried => s.setHandler client
    ((s.clients.idxOf? client).elim (raised tried) (.removing tried))
  | .removing tried index =>
    if client ∈ s.clients then (s.removeClient client).setHandler client (.reading tried index)
    else s.setHandler client (raised tried)
  | .reading tried index =>
    s.setHandler client (s.usernames[index]?.elim (raised tried) (.unnaming tried))
  | .unnaming tried username =>
    if username ∈ s.usernames then
      (s.removeName client username).setHandler client
        (.announcing tried (username ++ " left the chatroom".toList) 0)
    else s.setHandler client (raised tried)
  | .announcing tried text i => s.setHandler client
      (match s.clients[i]? with
      | none => .finished
      | some c =>
        if c = client ∨ socket.isSome then .announcing tried text (i + 1) else raised tried)

/-- A new client has sent its credentials. -/
def login (s : Server) (passcode credentials : Text) : Server :=
  match credentials.splitOn ':' with
  | [username, clientPasscode] =>
    { s with
      accepted := s.accepted + 1
      joinedAs := fun c => if c = s.accepted then username else s.joinedAs c
      main := if clientPasscode = passcode then .welcoming s.accepted username else .refusing }
  | _ => s.setMain .dead

/-- The next statement of `main`. -/
def mainStep (s : Server) (passcode : Text) (socket : Option Text) : Server :=
  match s.main with
  | .accepting => socket.elim (s.setMain .dead) (s.login passcode)
  | .refusing => s.setMain (if socket.isSome then .accepting else .dead)
  | .welcoming client username =>
    s.setMain (if socket.isSome then .appendingName client username else .dead)
  | .appendingName client username =>
    (s.addName client username).setMain (.appendingClient client username)
  | .appendingClient client _ =>
    (s.addClient client).setMain (.broadcasting client 0)
  | .broadcasting client i => s.setMain
      (match s.clients[i]? with
      | none => .starting client
      | some c => if c = client ∨ socket.isSome then .broadcasting client (i + 1) else .dead)
  | .starting client => (s.setHandler client .receiving).setMain .accepting
  | .dead => s

section

variable {s : Server} {client : Nat}

@[simp] theorem setHandler_handler (pc : HandlerPc) :
    (s.setHandler client pc).handler client = pc :=
  if_pos rfl

@[simp] theorem setHandler_clients (pc : HandlerPc) :
    (s.setHandler client pc).clients = s.clients := rfl

theorem setHandler_other {pc : HandlerPc} {c : Nat} (ne : c ≠ client) :
    (s.setHandler client pc).handler c = s.handler c :=
  if_neg ne

@[simp] theorem setHandler_setHandler (pc pc' : HandlerPc) :
    (s.setHandler client pc).setHandler client pc' = s.setHandler client pc' := by
  simp only [setHandler, Server.mk.injEq, true_and, and_true]
  funext c
  split <;> rfl

theorem setHandler_self {pc : HandlerPc} (here : s.handler client = pc) :
    s.setHandler client pc = s := by
  subst here
  unfold setHandler
  congr
  funext c
  by_cases eq : c = client
  · rw [if_pos eq, eq]
  · rw [if_neg eq]

end

end Server

/-- Whose statement is next. -/
inductive Turn where
  | main
  | handler (client : Nat)
  deriving DecidableEq

def Server.step (passcode : Text) (s : Server) (socket : Option Text) : Turn → Server
  | .main => s.mainStep passcode socket
  | .handler client => s.handlerStep client socket

/-- The states of interleavings whose statements all meet `ok`. -/
inductive Run (passcode : Text) (ok : Server → Turn → Prop) : Server → Prop
  | initial : Run passcode ok initial
  | next {s} (turn : Turn) (socket : Option Text) : Run passcode ok s → ok s turn →
      Run passcode ok (s.step passcode socket turn)

/-! ## What a statement leaves alone -/

section

variable {s : Server} {client : Nat} {passcode : Text}

theorem handlerStep_other {other : Nat} {socket : Option Text} (ne : other ≠ client) :
    (s.handlerStep other socket).handler client = s.handler client := by
  have keeps : ∀ (t : Server) (pc : HandlerPc), (t.setHandler other pc).handler client =
    t.handler client :=
    fun t pc => if_neg ne.symm
  unfold Server.handlerStep
  split <;> (try split) <;> simp only [keeps] <;> rfl

theorem mainStep_handler {socket : Option Text} (ne : s.main ≠ .starting client) :
    (s.mainStep passcode socket).handler client = s.handler client := by
  unfold Server.mainStep
  split
  · cases socket with
    | none => rfl
    | some credentials =>
      simp only [Option.elim_some, Server.login]
      split <;> rfl
  · rfl
  · rfl
  · rfl
  · rfl
  · rfl
  · rename_i starting at_pc
    have other : client ≠ starting := by
      rintro rfl
      exact ne at_pc
    exact if_neg other
  · rfl

theorem handlerStep_main {socket : Option Text} : (s.handlerStep client socket).main = s.main := by
  unfold Server.handlerStep
  cases s.handler client with
  | removing | unnaming =>
    dsimp only
    split <;> rfl
  | _ => rfl

/-- Only `clients.remove` changes `clients`. -/
theorem handlerStep_removes (s : Server) (client : Nat) (socket : Option Text) :
    (s.handlerStep client socket).clients = s.clients ∨
    ∃ tried index, s.handler client = .removing tried index ∧ client ∈ s.clients ∧
      (s.handlerStep client socket).clients = s.clients.erase client := by
  unfold Server.handlerStep
  cases pc : s.handler client with
  | removing tried index =>
    dsimp only
    split
    · exact .inr ⟨tried, index, rfl, ‹_›, rfl⟩
    · exact .inl rfl
  | unnaming =>
    dsimp only
    split <;> exact .inl rfl
  | _ => exact .inl rfl

/-- Only `clients.append` of `main` does. -/
theorem mainStep_clients (s : Server) (passcode : Text) (socket : Option Text) :
    (s.mainStep passcode socket).clients = s.clients ∨
    ∃ c, (s.mainStep passcode socket).clients = s.clients ++ [c] := by
  unfold Server.mainStep
  split
  · cases socket with
    | none => exact .inl rfl
    | some credentials =>
      simp only [Option.elim_some, Server.login]
      split <;> exact .inl rfl
  case h_5 => exact .inr ⟨_, rfl⟩
  all_goals exact .inl rfl

end

end SystemsProjects.Chat
