import SystemsProjects.Chat.Server
import SystemsProjects.Lib.Loops
import Mathlib.Data.List.Count
import Mathlib.Data.List.Nodup
import Mathlib.Data.List.Perm.Basic
import Mathlib.Data.List.TakeWhile

/-!
# Broadcasts that fail

`broadcast` sends to one client after the other and stops at the first `send` that
raises. Who catches it depends on the caller: the `try` of the handler, its `except`
only, or nobody.
-/

namespace SystemsProjects.Chat

/-- The server, and what has been sent: to whom and which text. -/
structure Observed where
  server : Server
  sent : List (Nat × Text)

/-- A text with the name of its sender. -/
def Server.line (s : Server) (client : Nat) (msg : Text) : Text :=
  s.joinedAs client ++ ": ".toList ++ msg

/-- What the next statement of a thread sends. -/
def Server.sends (s : Server) : Turn → Option (Nat × Text)
  | .handler client =>
    match s.handler client with
    | .directing _ msg i => s.clients[i]?.bind (fun receiver =>
        (s.label client).map (fun name => (receiver, name ++ ": ".toList ++ msg)))
    | .broadcasting text i | .announcing _ text i =>
      (s.clients[i]?.filter (fun c => c ≠ client)).map (fun c => (c, text))
    | _ => none
  | .main =>
    match s.main with
    | .refusing => some (s.accepted - 1, "Incorrect passcode".toList)
    | .welcoming client _ => some (client, "Welcome to the chatroom!".toList)
    | .broadcasting client i =>
      (s.clients[i]?.filter (fun c => c ≠ client)).map
        (fun c => (c, s.joinedAs client ++ " joined the chatroom".toList))
    | _ => none

/-- Waiting for a message, or not running. -/
def HandlerPc.rests : HandlerPc → Bool
  | .absent | .receiving | .finished => true
  | _ => false

/-- Waiting for a connection, or ended. -/
def MainPc.rests : MainPc → Bool
  | .accepting | .dead => true
  | _ => false

def Server.resting (s : Server) : Turn → Bool
  | .handler client => (s.handler client).rests
  | .main => s.main.rests

section

variable (passcode : Text) (works : Nat → Bool) (turn : Turn)

/-- The next statement of a thread; `works` says of each client whether a `send` to it
succeeds. -/
def Observed.step (o : Observed) : Observed :=
  match o.server.sends turn with
  | none => ⟨o.server.step passcode (some []) turn, o.sent⟩
  | some (client, text) =>
    if works client then ⟨o.server.step passcode (some []) turn, o.sent ++ [(client, text)]⟩
    else ⟨o.server.step passcode none turn, o.sent⟩

/-- Up to `n` statements of the thread. -/
def Observed.run (o : Observed) : Nat → Observed
  | 0 => o
  | n + 1 => if o.server.resting turn then o else (o.step passcode works turn).run n

/-- The thread gets from one state to the other. -/
def Leads (o o' : Observed) : Prop :=
  ∃ n, ∀ m, o.run passcode works turn (n + m) = o'.run passcode works turn m

/-- The thread rests in the state, and stays there. -/
def Ends (o o' : Observed) : Prop :=
  ∃ n, ∀ m, o.run passcode works turn (n + m) = o'

/-- The loop of `broadcast`: who is sent the message, and whether it comes to its end. -/
def broadcast (sender : Nat) : List Nat → List Nat × Bool
  | [] => ([], true)
  | client :: clients =>
    if client = sender then broadcast sender clients
    else if works client then
      (client :: (broadcast sender clients).1, (broadcast sender clients).2)
    else ([], false)

end

section

variable {passcode : Text} {works : Nat → Bool} {turn : Turn} {o o' o'' : Observed}

theorem Leads.refl : Leads passcode works turn o o :=
  ⟨0, fun m => by rw [Nat.zero_add]⟩

theorem Leads.trans (first : Leads passcode works turn o o')
    (second : Leads passcode works turn o' o'') : Leads passcode works turn o o'' := by
  obtain ⟨n, run⟩ := first
  obtain ⟨n', run'⟩ := second
  refine ⟨n + n', fun m => ?_⟩
  rw [Nat.add_assoc, run, run']

theorem Leads.next (inside : o.server.resting turn = false)
    (eq : o.step passcode works turn = o') : Leads passcode works turn o o' := by
  refine ⟨1, fun m => ?_⟩
  rw [Nat.add_comm, Observed.run, inside, if_neg Bool.false_ne_true, eq]

theorem Leads.ends (leads : Leads passcode works turn o o')
    (rests : o'.server.resting turn = true) :
    Ends passcode works turn o o' := by
  obtain ⟨n, run⟩ := leads
  refine ⟨n, fun m => ?_⟩
  rw [run]
  cases m with
  | zero => rfl
  | succ m => rw [Observed.run, if_pos rests]

theorem Ends.unique (ends : Ends passcode works turn o o') (also : Ends passcode works turn o o'') :
    o' = o'' := by
  obtain ⟨n, run⟩ := ends
  obtain ⟨n', run'⟩ := also
  rw [← run n', ← run' n, Nat.add_comm]

/-! ## The loop -/

/-- A loop of the server over its clients does what `broadcast` does. -/
theorem Leads.broadcast (place : Nat → Server) (done failed : Server) (sender : Nat) (text : Text)
    (clients : List Nat) (inside : ∀ i, (place i).resting turn = false)
    (sends : ∀ i, (place i).sends turn =
      (clients[i]?.filter (fun c => c ≠ sender)).map (fun c => (c, text)))
    (step : ∀ i socket, (place i).step passcode socket turn =
      match clients[i]? with
      | none => done
      | some c => if c = sender ∨ socket.isSome then place (i + 1) else failed)
    (i : Nat) (sent : List (Nat × Text)) :
    Leads passcode works turn ⟨place i, sent⟩
      ⟨if (broadcast works sender (clients.drop i)).2 then done else failed,
        sent ++ (broadcast works sender (clients.drop i)).1.map (fun c => (c, text))⟩ := by
  generalize left : clients.drop i = rest
  induction rest generalizing i sent with
  | nil =>
    have ended : clients[i]? = none := List.getElem?_eq_none (List.drop_eq_nil_iff.mp left)
    apply Leads.next (inside i)
    have nothing : (place i).sends turn = none := by rw [sends, ended]; rfl
    simp only [Observed.step, nothing, step, ended, Chat.broadcast, if_pos, List.map_nil,
      List.append_nil]
  | cons c rest ih =>
    obtain ⟨here, later⟩ := Loops.drop_cons left
    unfold Chat.broadcast
    by_cases own : c = sender
    · have nothing : (place i).sends turn = none := by
        rw [sends, here]
        simp [own]
      have moved : Observed.step passcode works turn ⟨place i, sent⟩ = ⟨place (i + 1), sent⟩ := by
        simp only [Observed.step, nothing, step, here, own, true_or, if_true]
      rw [if_pos own]
      exact (Leads.next (inside i) moved).trans (ih (i + 1) sent later)
    have sending : (place i).sends turn = some (c, text) := by
      rw [sends, here]
      simp [own]
    rw [if_neg own]
    by_cases work : works c = true
    · have moved : Observed.step passcode works turn ⟨place i, sent⟩ =
          ⟨place (i + 1), sent ++ [(c, text)]⟩ := by
        simp only [Observed.step, sending, step, here, work, if_true, Option.isSome_some, or_true]
      rw [if_pos work]
      have rest' := (Leads.next (inside i) moved).trans (ih (i + 1) (sent ++ [(c, text)]) later)
      simpa only [List.append_assoc, List.singleton_append, List.map_cons] using rest'
    · have raised : Observed.step passcode works turn ⟨place i, sent⟩ = ⟨failed, sent⟩ := by
        simp [Observed.step, sending, step, here, own, work]
      rw [if_neg work]
      simpa using Leads.next (inside i) raised

/-! ## Who is served -/

/-- A `send` that raises stands behind all that succeed. -/
def FailsLast (works : Nat → Bool) (clients : List Nat) : Prop :=
  clients.Pairwise (fun c d => works d = true → works c = true)

theorem broadcast_eq (sender : Nat) (clients : List Nat) :
    broadcast works sender clients = ((clients.filter (fun c => c ≠ sender)).takeWhile works,
      (clients.filter (fun c => c ≠ sender)).all works) := by
  induction clients with
  | nil => rfl
  | cons c clients ih =>
    unfold Chat.broadcast
    by_cases own : c = sender
    · rw [if_pos own, ih, List.filter_cons_of_neg (by simpa using own)]
    · rw [if_neg own, ih, List.filter_cons_of_pos (by simpa using own)]
      cases works_c : works c <;> simp [works_c]

/-- If no `send` raises, all but the sender are sent the message. -/
theorem broadcast_all {sender : Nat} {clients : List Nat}
    (work : ∀ c ∈ clients, c ≠ sender → works c = true) :
    broadcast works sender clients = (clients.filter (fun c => c ≠ sender), true) := by
  have others : ∀ c ∈ clients.filter (fun c => c ≠ sender), works c = true := by
    intro c mem
    obtain ⟨mem, ne⟩ := List.mem_filter.mp mem
    exact work c mem (of_decide_eq_true ne)
  rw [broadcast_eq, List.takeWhile_eq_self_iff.mpr others, List.all_eq_true.mpr others]

theorem served_iff {clients : List Nat} (nodup : clients.Nodup) :
    (∀ c ∈ clients, works c = true → c ∈ clients.takeWhile works) ↔ FailsLast works clients := by
  induction clients with
  | nil => simp [FailsLast]
  | cons c clients ih =>
    obtain ⟨fresh, nodup⟩ := List.nodup_cons.mp nodup
    rw [FailsLast, List.pairwise_cons]
    by_cases work : works c = true
    · rw [List.takeWhile_cons_of_pos work, ← FailsLast, ← ih nodup]
      constructor
      · intro served
        refine ⟨fun _ _ _ => work, fun d mem works_d => ?_⟩
        obtain rfl | later := List.mem_cons.mp (served d (List.mem_cons_of_mem c mem) works_d)
        · exact absurd mem fresh
        · exact later
      · rintro ⟨-, served⟩ d mem works_d
        obtain rfl | mem := List.mem_cons.mp mem
        · exact List.mem_cons_self
        · exact List.mem_cons_of_mem c (served d mem works_d)
    · rw [List.takeWhile_cons_of_neg work]
      constructor
      · intro served
        have none : ∀ d ∈ clients, works d ≠ true := fun d mem works_d =>
          absurd (served d (List.mem_cons_of_mem c mem) works_d) List.not_mem_nil
        refine ⟨fun d mem works_d => absurd works_d (none d mem), ?_⟩
        exact List.pairwise_of_forall_mem_list
          (fun _ _ d mem works_d => absurd works_d (none d mem))
      · rintro ⟨front, -⟩ d mem works_d
        obtain rfl | mem := List.mem_cons.mp mem
        · exact absurd works_d work
        · exact absurd (front d mem works_d) work

theorem count_text {clients : List Nat} (nodup : clients.Nodup) (c : Nat) (text : Text) :
    (clients.map (fun c => (c, text))).count (c, text) = if c ∈ clients then 1 else 0 := by
  have inj : Function.Injective (fun c : Nat => (c, text)) := fun c d eq => congrArg Prod.fst eq
  rw [List.count_map_of_injective _ _ inj]
  split
  · exact List.count_eq_one_of_mem nodup ‹_›
  · exact List.count_eq_zero_of_not_mem ‹_›

theorem count_other {clients : List Nat} (c : Nat) {text other : Text} (ne : other ≠ text) :
    (clients.map (fun c => (c, other))).count (c, text) = 0 := by
  apply List.count_eq_zero_of_not_mem
  intro mem
  obtain ⟨d, -, eq⟩ := List.mem_map.mp mem
  exact ne (congrArg Prod.snd eq)

/-- Each client that is sent to and whose `send` succeeds is sent the text once, if and
only if no `send` fails before. -/
theorem served_once {sender : Nat} {clients : List Nat} (nodup : clients.Nodup) (text : Text) :
    (∀ c ∈ clients, c ≠ sender → works c = true →
      ((broadcast works sender clients).1.map (fun c => (c, text))).count (c, text) = 1) ↔
      FailsLast works (clients.filter (fun c => c ≠ sender)) := by
  have others := nodup.filter (fun c => decide (c ≠ sender))
  have sent := others.sublist (List.takeWhile_sublist works)
  rw [← served_iff others, broadcast_eq]
  constructor
  · intro once c mem work
    obtain ⟨mem, ne⟩ := List.mem_filter.mp mem
    have one := once c mem (by simpa using ne) work
    rw [count_text sent] at one
    by_contra missing
    rw [if_neg missing] at one
    exact absurd one (by decide)
  · intro served c mem ne work
    rw [count_text sent, if_pos (served c (List.mem_filter.mpr ⟨mem, by simpa using ne⟩) work)]

end

/-! ## The steps that broadcast -/

/-- What a broadcast is about. -/
inductive Event where
  /-- a message of the client to all -/
  | message (msg : Text)
  /-- a leave, in the `try` or in the `except` -/
  | leave (tried : Bool)
  /-- a join -/
  | join

namespace Event

def turn (client : Nat) : Event → Turn
  | .message _ | .leave _ => .handler client
  | .join => .main

/-- What is broadcast. -/
def text (s : Server) (client : Nat) : Event → Text
  | .message msg => s.joinedAs client ++ ": ".toList ++ msg
  | .leave _ => s.joinedAs client ++ " left the chatroom".toList
  | .join => s.joinedAs client ++ " joined the chatroom".toList

/-- Where the thread is before its step. -/
def Begins (s : Server) (client : Nat) : Event → Prop
  | .message msg => s.handler client = .printing msg ∧ client ∈ s.clients
  | .leave tried => s.handler client = .testing tried ∧ client ∈ s.clients
  | .join => s.main = .welcoming client (s.joinedAs client) ∧ client ∉ s.clients

end Event

/-- The clients of the two lists, each with the name that it has joined with. -/
structure Registered (s : Server) : Prop where
  nodup : s.clients.Nodup
  names : s.usernames = s.clients.map s.joinedAs

/-- Dead sockets do no harm to the clients whose sockets work: each other than the one it
is about is sent the text once, none is taken out of the lists or has its socket closed but
the one that leaves, and the other threads go on. -/
structure Contained (works : Nat → Bool) (event : Event) (client : Nat) (s : Server)
    (o : Observed) :
    Prop where
  served : ∀ c ∈ s.clients, c ≠ client → works c = true →
    o.sent.count (c, event.text s client) = 1
  kept : ∀ c ∈ s.clients, works c = true → (c = client → ∀ tried, event ≠ .leave tried) →
    c ∈ o.server.clients ∧ (s.handler c ≠ .finished → o.server.handler c ≠ .finished)
  names : o.server.usernames.Perm (o.server.clients.map s.joinedAs)
  accepts : s.main ≠ .dead → o.server.main ≠ .dead
  others : ∀ c, c ≠ client → o.server.handler c = s.handler c

/-- No `send` that counts raises. -/
def Harmless (works : Nat → Bool) (s : Server) (client : Nat) : Event → Prop
  | .message _ => (∀ c ∈ s.clients, c ≠ client → works c = true) ∨
      works client = false ∧ FailsLast works (s.clients.filter (fun c => c ≠ client))
  | .leave _ => FailsLast works (s.clients.filter (fun c => c ≠ client))
  | .join => works client = true ∧ ∀ c ∈ s.clients, works c = true

section

variable {passcode : Text} {works : Nat → Bool} {s : Server} {client : Nat}

@[simp] theorem resting_setHandler (pc : HandlerPc) :
    (s.setHandler client pc).resting (.handler client) = pc.rests := by
  rw [Server.resting, Server.setHandler_handler]

/-- A statement of a handler that sends nothing. -/
theorem Leads.goto {pc : HandlerPc} {t : Server} {sent : List (Nat × Text)}
    (inside : pc.rests = false)
    (silent : (s.setHandler client pc).sends (.handler client) = none)
    (step : (s.setHandler client pc).handlerStep client (some []) = t) :
    Leads passcode works (.handler client) ⟨s.setHandler client pc, sent⟩ ⟨t, sent⟩ := by
  apply Leads.next
  · rw [resting_setHandler, inside]
  · simp only [Observed.step, silent, Server.step, step]

theorem Registered.index (registered : Registered s) (mem : client ∈ s.clients) :
    ∃ index, s.clients.idxOf? client = some index ∧
      s.usernames[index]? = some (s.joinedAs client) := by
  obtain ⟨index, found⟩ := Option.isSome_iff_exists.mp (List.isSome_idxOf?.mpr mem)
  obtain ⟨inside, here, _⟩ := List.idxOf?_eq_some_iff.mp found
  refine ⟨index, found, ?_⟩
  rw [registered.names, List.getElem?_map, List.getElem?_eq_getElem inside, here]
  rfl

theorem Registered.label (registered : Registered s) (mem : client ∈ s.clients) :
    s.label client = some (s.joinedAs client) := by
  obtain ⟨index, found, name⟩ := registered.index mem
  rw [Server.label, found]
  exact name

/-- The entries of a client go with it. -/
theorem Registered.leaves (registered : Registered s) (mem : client ∈ s.clients) :
    (s.usernames.erase (s.joinedAs client)).Perm ((s.clients.erase client).map s.joinedAs) := by
  have apart := (List.perm_cons_erase mem).map s.joinedAs
  rw [← registered.names] at apart
  have less := apart.erase (s.joinedAs client)
  rwa [List.map_cons, List.erase_cons_head] at less

/-! ## Messages -/

/-- The server after a client has left. -/
def Server.without (s : Server) (client : Nat) : Server :=
  ((s.removeClient client).removeName client (s.joinedAs client)).setHandler client .finished

theorem message_broadcast {name msg : Text} (registered : s.label client = some name)
    (here : s.handler client = .printing msg) (sent : List (Nat × Text)) :
    Leads passcode works (.handler client) ⟨s, sent⟩
      ⟨if (broadcast works client s.clients).2 then s.setHandler client .receiving
        else s.setHandler client (.testing false),
        sent ++ (broadcast works client s.clients).1.map
        (fun c => (c, name ++ ": ".toList ++ msg))⟩ := by
  have label : ∀ pc, (s.setHandler client pc).label client = some name := fun _ => registered
  have named : Leads passcode works (.handler client) ⟨s.setHandler client (.printing msg), sent⟩
      ⟨s.setHandler client (.naming msg), sent⟩ := by
    apply Leads.goto rfl
    · rw [Server.sends, Server.setHandler_handler]
    · rw [Server.handlerStep, Server.setHandler_handler]
      dsimp only
      rw [label, Server.setHandler_setHandler]
      rfl
  have texted : Leads passcode works (.handler client) ⟨s.setHandler client (.naming msg), sent⟩
      ⟨s.setHandler client (.broadcasting (name ++ ": ".toList ++ msg) 0), sent⟩ := by
    apply Leads.goto rfl
    · rw [Server.sends, Server.setHandler_handler]
    · rw [Server.handlerStep, Server.setHandler_handler]
      dsimp only
      rw [label, Server.setHandler_setHandler]
      rfl
  rw [Server.setHandler_self here] at named
  apply (named.trans texted).trans
  generalize name ++ ": ".toList ++ msg = text
  apply Leads.broadcast (fun i => s.setHandler client (.broadcasting text i))
    (s.setHandler client .receiving) (s.setHandler client (.testing false)) client text s.clients
  · exact fun i => resting_setHandler _
  · intro i
    rw [Server.sends, Server.setHandler_handler]
    rfl
  · intro i socket
    rw [Server.step, Server.handlerStep, Server.setHandler_handler]
    dsimp only
    rw [Server.setHandler_setHandler]
    show s.setHandler client (match s.clients[i]? with
      | none => _
      | some c => if c = client ∨ socket.isSome then _ else _) = _
    cases s.clients[i]? with
    | none => rfl
    | some c => exact apply_ite (s.setHandler client) _ _ _

/-! ## Leaves -/

theorem broadcast_erase (nodup : s.clients.Nodup) :
    broadcast works client (s.clients.erase client) = broadcast works client s.clients := by
  have same : (s.clients.erase client).filter (fun c => c ≠ client) =
      s.clients.filter (fun c => c ≠ client) := by
    rw [nodup.erase_eq_filter, List.filter_filter]
    apply List.filter_congr
    intro c _
    by_cases eq : c = client <;> simp [eq]
  rw [broadcast_eq, broadcast_eq, same]

/-- The client has left the lists when its leave is announced. -/
theorem leave_lists (registered : Registered s) (mem : client ∈ s.clients) {tried : Bool}
    (here : s.handler client = .testing tried) (sent : List (Nat × Text)) :
    Leads passcode works (.handler client) ⟨s, sent⟩
      ⟨(s.without client).setHandler client
        (.announcing tried (s.joinedAs client ++ " left the chatroom".toList) 0), sent⟩ := by
  obtain ⟨index, found, name⟩ := registered.index mem
  have tested : Leads passcode works (.handler client) ⟨s.setHandler client (.testing tried), sent⟩
      ⟨s.setHandler client (.indexing tried), sent⟩ := by
    apply Leads.goto rfl
    · rw [Server.sends, Server.setHandler_handler]
    · rw [Server.handlerStep, Server.setHandler_handler]
      dsimp only
      rw [Server.setHandler_setHandler]
      exact congrArg (s.setHandler client) (if_pos mem)
  have indexed : Leads passcode works (.handler client)
    ⟨s.setHandler client (.indexing tried), sent⟩
      ⟨s.setHandler client (.removing tried index), sent⟩ := by
    apply Leads.goto rfl
    · rw [Server.sends, Server.setHandler_handler]
    · rw [Server.handlerStep, Server.setHandler_handler]
      dsimp only
      rw [Server.setHandler_setHandler]
      exact congrArg (fun found : Option Nat => s.setHandler client (found.elim _ _)) found
  have removed : Leads passcode works (.handler client)
      ⟨s.setHandler client (.removing tried index), sent⟩
      ⟨(s.removeClient client).setHandler client (.reading tried index), sent⟩ := by
    apply Leads.goto rfl
    · rw [Server.sends, Server.setHandler_handler]
    · rw [Server.handlerStep, Server.setHandler_handler]
      refine (if_pos mem).trans ?_
      exact (s.removeClient client).setHandler_setHandler _ _
  have read : Leads passcode works (.handler client)
      ⟨(s.removeClient client).setHandler client (.reading tried index), sent⟩
      ⟨(s.removeClient client).setHandler client (.unnaming tried (s.joinedAs client)), sent⟩ := by
    apply Leads.goto rfl
    · rw [Server.sends, Server.setHandler_handler]
    · rw [Server.handlerStep, Server.setHandler_handler]
      dsimp only
      rw [Server.setHandler_setHandler]
      exact congrArg (fun name : Option Text =>
        (s.removeClient client).setHandler client (name.elim _ _)) name
  have unnamed : Leads passcode works (.handler client)
      ⟨(s.removeClient client).setHandler client (.unnaming tried (s.joinedAs client)), sent⟩
      ⟨(s.without client).setHandler client
        (.announcing tried (s.joinedAs client ++ " left the chatroom".toList) 0), sent⟩ := by
    apply Leads.goto rfl
    · rw [Server.sends, Server.setHandler_handler]
    · rw [Server.handlerStep, Server.setHandler_handler]
      refine (if_pos (List.mem_of_getElem? name)).trans ?_
      rw [Server.without, Server.setHandler_setHandler]
      exact ((s.removeClient client).removeName client _).setHandler_setHandler _ _
  rw [Server.setHandler_self here] at tested
  exact (((tested.trans indexed).trans removed).trans read).trans unnamed

/-- In the `try` a `send` that raises leads to the `except`, which has nothing left to do. -/
theorem leave_broadcast (registered : Registered s) (mem : client ∈ s.clients) {tried : Bool}
    (here : s.handler client = .testing tried) (sent : List (Nat × Text)) :
    Leads passcode works (.handler client) ⟨s, sent⟩
      ⟨s.without client, sent ++ (broadcast works client s.clients).1.map
        (fun c => (c, s.joinedAs client ++ " left the chatroom".toList))⟩ := by
  apply (leave_lists registered mem here sent).trans
  generalize s.joinedAs client ++ " left the chatroom".toList = text
  rw [← broadcast_erase registered.nodup]
  refine (Leads.broadcast (fun i => (s.without client).setHandler client (.announcing tried text i))
    (s.without client) ((s.without client).setHandler client (Server.raised tried)) client text
    (s.clients.erase client) ?_ ?_ ?_ 0 sent).trans ?_
  · exact fun i => resting_setHandler _
  · intro i
    rw [Server.sends, Server.setHandler_handler]
    rfl
  · intro i socket
    rw [Server.step, Server.handlerStep, Server.setHandler_handler]
    dsimp only
    rw [Server.setHandler_setHandler]
    show (s.without client).setHandler client (match (s.clients.erase client)[i]? with
      | none => _
      | some c => if c = client ∨ socket.isSome then _ else _) = _
    cases (s.clients.erase client)[i]? with
    | none => exact Server.setHandler_setHandler _ _
    | some c => exact apply_ite ((s.without client).setHandler client) _ _ _
  rw [List.drop_zero]
  split
  · exact Leads.refl
  · cases tried with
    | false =>
      rw [Server.raised, if_neg Bool.false_ne_true, Server.without, Server.setHandler_setHandler]
      exact Leads.refl
    | true =>
      rw [Server.raised, if_pos rfl]
      apply Leads.goto rfl
      · rw [Server.sends, Server.setHandler_handler]
      · rw [Server.handlerStep, Server.setHandler_handler]
        have gone : client ∉ ((s.without client).setHandler client (.testing false)).clients :=
          registered.nodup.not_mem_erase
        dsimp only
        rw [if_neg gone, Server.without, Server.setHandler_setHandler, Server.setHandler_setHandler]

/-! ## Joins -/

/-- The server with the entries of a new client. -/
def Server.withEntry (s : Server) (client : Nat) : Server :=
  (s.addName client (s.joinedAs client)).addClient client

/-- A statement of `main` that sends nothing. -/
theorem Leads.main {t : Server} {sent : List (Nat × Text)} (inside : s.main.rests = false)
    (silent : s.sends .main = none) (step : s.mainStep passcode (some []) = t) :
    Leads passcode works .main ⟨s, sent⟩ ⟨t, sent⟩ := by
  apply Leads.next
  · exact inside
  · simp only [Observed.step, silent, Server.step, step]

theorem join_broadcast (here : s.main = .welcoming client (s.joinedAs client))
    (work : works client = true) :
    Leads passcode works .main ⟨s, []⟩
      ⟨if (broadcast works client s.clients).2 then
          ((s.withEntry client).setHandler client .receiving).setMain .accepting
        else (s.withEntry client).setMain .dead,
        (client, "Welcome to the chatroom!".toList) :: (broadcast works client s.clients).1.map
          (fun c => (c, s.joinedAs client ++ " joined the chatroom".toList))⟩ := by
  generalize entry : s.withEntry client = t
  have welcomed : Leads passcode works .main ⟨s, []⟩
      ⟨s.setMain (.appendingName client (s.joinedAs client)),
        [(client, "Welcome to the chatroom!".toList)]⟩ := by
    apply Leads.next
    · rw [Server.resting, here]
      rfl
    · rw [Observed.step, Server.sends, here]
      dsimp only
      rw [if_pos work, Server.step, Server.mainStep, here]
      rfl
  have named : ∀ sent, Leads passcode works .main
      ⟨s.setMain (.appendingName client (s.joinedAs client)), sent⟩
      ⟨(s.addName client (s.joinedAs client)).setMain (.appendingClient client (s.joinedAs client)),
        sent⟩ :=
    fun sent => Leads.main rfl rfl rfl
  have listed : ∀ sent, Leads passcode works .main
      ⟨(s.addName client (s.joinedAs client)).setMain (.appendingClient client (s.joinedAs client)),
        sent⟩ ⟨t.setMain (.broadcasting client 0), sent⟩ :=
    fun sent => Leads.main rfl rfl (entry ▸ rfl)
  have same : broadcast works client t.clients = broadcast works client s.clients := by
    rw [broadcast_eq, broadcast_eq, ← entry]
    simp [Server.withEntry, Server.addClient, Server.addName]
  refine ((welcomed.trans (named _)).trans (listed _)).trans ?_
  have name : s.joinedAs client = t.joinedAs client := by
    rw [← entry]
    rfl
  rw [name, ← same]
  refine (Leads.broadcast (fun i => t.setMain (.broadcasting client i))
    (t.setMain (.starting client)) (t.setMain .dead) client
    (t.joinedAs client ++ " joined the chatroom".toList) t.clients ?_ ?_ ?_ 0 _).trans ?_
  · exact fun i => rfl
  · exact fun i => rfl
  · intro i socket
    show t.setMain (match t.clients[i]? with
      | none => _
      | some c => if c = client ∨ socket.isSome then _ else _) = _
    cases t.clients[i]? with
    | none => rfl
    | some c => exact apply_ite t.setMain _ _ _
  rw [List.drop_zero]
  split
  · exact Leads.main rfl rfl rfl
  · exact Leads.refl

/-- The new client cannot be greeted. -/
theorem join_dead (here : s.main = .welcoming client (s.joinedAs client))
    (dead : works client = false) :
    Leads passcode works .main ⟨s, []⟩ ⟨s.setMain .dead, []⟩ := by
  apply Leads.next
  · rw [Server.resting, here]
    rfl
  · rw [Observed.step, Server.sends, here]
    dsimp only
    rw [dead, if_neg Bool.false_ne_true, Server.step, Server.mainStep, here]
    rfl

/-! ## Who is harmed -/

theorem message_ne_leave (name msg : Text) :
    name ++ " left the chatroom".toList ≠ name ++ ": ".toList ++ msg := by
  intro eq
  rw [List.append_assoc] at eq
  exact absurd (List.append_cancel_left eq) (by simp)

theorem failsLast_of_works {clients : List Nat} (work : ∀ c ∈ clients, works c = true) :
    FailsLast works clients :=
  List.pairwise_of_forall_mem_list (fun c mem _ _ _ => work c mem)

theorem broadcast_completes (sender : Nat) (clients : List Nat) :
    (broadcast works sender clients).2 = true ↔ ∀ c ∈ clients, c ≠ sender → works c = true := by
  rw [broadcast_eq]
  simp [or_iff_not_imp_left]

@[simp] theorem without_handler_other {c : Nat} (ne : c ≠ client) :
    (s.without client).handler c = s.handler c :=
  if_neg ne

theorem without_setHandler (pc : HandlerPc) : (s.setHandler client pc).without client =
    s.without client :=
  Server.setHandler_setHandler (s := (s.removeClient client).removeName client _) _ _

theorem without_resting : (s.without client).resting (.handler client) = true := by
  rw [Server.without, resting_setHandler]
  rfl

/-- What a leave does to the others, whatever has been sent. -/
theorem leave_kept (registered : Registered s) {c : Nat} (mem : c ∈ s.clients) (ne : c ≠ client) :
    c ∈ (s.without client).clients ∧
      (s.handler c ≠ .finished → (s.without client).handler c ≠ .finished) := by
  refine ⟨(registered.nodup.mem_erase_iff).mpr ⟨ne, mem⟩, fun runs => ?_⟩
  rw [without_handler_other ne]
  exact runs

theorem message_sent (passcode : Text) (registered : Registered s) (mem : client ∈ s.clients)
    {msg : Text} (here : s.handler client = .printing msg)
    (completes : (broadcast works client s.clients).2 = true) :
    ∃ o, Ends passcode works (.handler client) ⟨s, []⟩ o ∧
      Contained works (.message msg) client s o := by
  have leads : Leads passcode works _ _ _ := message_broadcast (registered.label mem) here []
  rw [if_pos completes] at leads
  have others := (broadcast_completes client s.clients).mp completes
  refine ⟨_, leads.ends (resting_setHandler _), ?_, ?_, ?_, fun alive => alive, fun c ne =>
    if_neg ne⟩
  · apply (served_once registered.nodup _).mpr
    apply failsLast_of_works
    intro c mem
    obtain ⟨mem, ne⟩ := List.mem_filter.mp mem
    exact others c mem (of_decide_eq_true ne)
  · intro c mem _ _
    refine ⟨mem, fun runs => ?_⟩
    by_cases eq : c = client
    · subst eq
      rw [Server.setHandler_handler]
      exact HandlerPc.noConfusion
    · rw [Server.setHandler_other eq]
      exact runs
  · exact List.Perm.of_eq registered.names

theorem message_failed (passcode : Text) (registered : Registered s) (mem : client ∈ s.clients)
    {msg : Text} (here : s.handler client = .printing msg)
    (fails : (broadcast works client s.clients).2 = false) :
    ∃ o, Ends passcode works (.handler client) ⟨s, []⟩ o ∧
      (Contained works (.message msg) client s o ↔
        works client = false ∧ FailsLast works (s.clients.filter (fun c => c ≠ client))) := by
  have leads : Leads passcode works _ _ _ := message_broadcast (registered.label mem) here []
  rw [fails, if_neg Bool.false_ne_true] at leads
  have left : ∀ sent, Leads passcode works (.handler client)
      ⟨s.setHandler client (.testing false), sent⟩ ⟨s.without client, sent ++
        (broadcast works client s.clients).1.map
          (fun c => (c, s.joinedAs client ++ " left the chatroom".toList))⟩ := by
    intro sent
    have leaves : Leads passcode works _ _ _ := leave_broadcast
      (s := s.setHandler client (.testing false)) ⟨registered.nodup, registered.names⟩ mem
      (Server.setHandler_handler _) sent
    rw [without_setHandler] at leaves
    exact leaves
  refine ⟨_, (leads.trans (left _)).ends without_resting, ?_⟩
  have counts : ∀ c, List.count (c, s.joinedAs client ++ ": ".toList ++ msg)
      ((broadcast works client s.clients).1.map (fun c =>
        (c, s.joinedAs client ++ ": ".toList ++ msg)) ++ (broadcast works client s.clients).1.map
          (fun c => (c, s.joinedAs client ++ " left the chatroom".toList))) =
      List.count (c, s.joinedAs client ++ ": ".toList ++ msg)
        ((broadcast works client s.clients).1.map
          (fun c => (c, s.joinedAs client ++ ": ".toList ++ msg))) := by
    intro c
    rw [List.count_append, count_other c (message_ne_leave _ _), Nat.add_zero]
  constructor
  · intro contained
    constructor
    · apply Bool.eq_false_iff.mpr
      intro work
      have kept := (contained.kept client mem work (fun _ _ => Event.noConfusion)).1
      exact registered.nodup.not_mem_erase kept
    · apply (served_once registered.nodup _).mp
      intro c mem ne work
      exact (counts c).symm.trans (contained.served c mem ne work)
  · rintro ⟨dead, last⟩
    refine ⟨?_, ?_, registered.leaves mem, fun alive => alive, fun c ne => without_handler_other ne⟩
    · intro c mem ne work
      exact (counts c).trans ((served_once registered.nodup _).mpr last c mem ne work)
    · intro c mem work _
      apply leave_kept registered mem
      rintro rfl
      exact absurd (work.symm.trans dead) (by decide)

theorem leave_contained (passcode : Text) (registered : Registered s) (mem : client ∈ s.clients)
    {tried : Bool} (here : s.handler client = .testing tried) :
    ∃ o, Ends passcode works (.handler client) ⟨s, []⟩ o ∧
      (Contained works (.leave tried) client s o ↔
        FailsLast works (s.clients.filter (fun c => c ≠ client))) := by
  have leads : Leads passcode works _ _ _ := leave_broadcast registered mem here []
  refine ⟨_, leads.ends without_resting, ?_⟩
  constructor
  · intro contained
    exact (served_once registered.nodup _).mp contained.served
  · intro last
    refine ⟨(served_once registered.nodup _).mpr last, ?_, registered.leaves mem,
      fun alive => alive, fun c ne => without_handler_other ne⟩
    intro c mem _ stays
    apply leave_kept registered mem
    rintro rfl
    exact stays rfl tried rfl

theorem join_contained (passcode : Text) (registered : Registered s) (fresh : client ∉ s.clients)
    (here : s.main = .welcoming client (s.joinedAs client)) :
    ∃ o, Ends passcode works .main ⟨s, []⟩ o ∧
      (Contained works .join client s o ↔
        works client = true ∧ ∀ c ∈ s.clients, works c = true) := by
  have alive : s.main ≠ .dead := by
    rw [here]
    exact MainPc.noConfusion
  by_cases work : works client = true
  · have leads : Leads passcode works _ _ _ := join_broadcast here work
    by_cases completes : (broadcast works client s.clients).2 = true
    · rw [if_pos completes] at leads
      have others : ∀ c ∈ s.clients, works c = true := by
        intro c mem
        apply (broadcast_completes client s.clients).mp completes c mem
        rintro rfl
        exact fresh mem
      refine ⟨_, leads.ends rfl, fun _ => ⟨work, others⟩, fun _ => ⟨?_, ?_, ?_, ?_, ?_⟩⟩
      · intro c mem ne _
        rw [List.count_cons_of_ne (fun eq => ne (congrArg Prod.fst eq).symm)]
        apply (served_once registered.nodup _).mpr _ c mem ne (others c mem)
        exact failsLast_of_works (fun c mem => others c (List.mem_of_mem_filter mem))
      · intro c mem _ _
        refine ⟨List.mem_append_left _ mem, fun runs => ?_⟩
        have ne : c ≠ client := by
          rintro rfl
          exact fresh mem
        show ((s.withEntry client).setHandler client .receiving).handler c ≠ .finished
        rw [Server.setHandler_other ne]
        exact runs
      · apply List.Perm.of_eq
        show s.usernames ++ [s.joinedAs client] = (s.clients ++ [client]).map s.joinedAs
        rw [registered.names, List.map_append]
        rfl
      · intro _
        exact MainPc.noConfusion
      · exact fun c ne => Server.setHandler_other (s := s.withEntry client) ne
    · rw [if_neg completes] at leads
      refine ⟨_, leads.ends rfl, fun contained => absurd rfl (contained.accepts alive), ?_⟩
      rintro ⟨-, others⟩
      exact absurd ((broadcast_completes client s.clients).mpr (fun c mem _ => others c mem))
        completes
  · have leads : Leads passcode works _ _ _ := join_dead here (Bool.eq_false_iff.mpr work)
    refine ⟨_, leads.ends rfl, fun contained => absurd rfl (contained.accepts alive), ?_⟩
    exact fun harmless => absurd harmless.1 work

/-- Dead sockets do no harm to others if and only if none of them comes before a working
one in a leave, and none is sent to in a message or a join; a message that does expel its
sender harms nobody else if the sender's own socket is dead and stands for the last. -/
theorem broadcast_contained (passcode : Text) (works : Nat → Bool) (event : Event)
    (registered : Registered s) (begins : event.Begins s client) :
    ∃ o, Ends passcode works (event.turn client) ⟨s, []⟩ o ∧
      (Contained works event client s o ↔ Harmless works s client event) := by
  cases event with
  | message msg =>
    obtain ⟨here, mem⟩ := begins
    by_cases completes : (broadcast works client s.clients).2 = true
    · obtain ⟨o, ends, contained⟩ :=
        message_sent passcode registered mem here completes
      have others := (broadcast_completes client s.clients).mp completes
      exact ⟨o, ends, fun _ => .inl others, fun _ => contained⟩
    · obtain ⟨o, ends, contained⟩ := message_failed passcode registered mem here
        (Bool.eq_false_iff.mpr completes)
      refine ⟨o, ends, contained.trans ⟨.inr, fun harmless => harmless.resolve_left ?_⟩⟩
      exact fun others => completes ((broadcast_completes client s.clients).mpr others)
  | leave tried =>
    obtain ⟨here, mem⟩ := begins
    exact leave_contained passcode registered mem here
  | join =>
    obtain ⟨here, fresh⟩ := begins
    exact join_contained passcode registered fresh here

end

/-- Three clients, of which the first is about to send a message to all. -/
def room (msg : Text) : Server where
  clients := [0, 1, 2]
  usernames := ["x".toList, "y".toList, "z".toList]
  main := .accepting
  handler c := if c = 0 then .printing msg else .receiving
  accepted := 3
  joinedAs c := if c = 0 then "x".toList else if c = 1 then "y".toList else "z".toList
  owners := [0, 1, 2]

/-- The three clients, when all handlers wait for a message. -/
def lobby : Server := (room []).setHandler 0 .receiving

/-- The second has died: the third misses the message, and the first is expelled. -/
theorem dead_socket_harms : ¬ ∀ (works : Nat → Bool) (event : Event) (s : Server) (client : Nat),
    Registered s → event.Begins s client →
    ∃ o, Ends [] works (event.turn client) ⟨s, []⟩ o ∧ Contained works event client s o := by
  intro law
  have registered : Registered (room "hi".toList) := ⟨by decide, by decide⟩
  have mem : 0 ∈ (room "hi".toList).clients := by decide
  obtain ⟨o, ends, contained⟩ := law (fun c => c != 1) (.message "hi".toList) _ 0 registered
    ⟨rfl, mem⟩
  obtain ⟨o', ends', iff⟩ := message_failed [] registered mem rfl
    (show (broadcast (fun c => c != 1) 0 (room "hi".toList).clients).2 = false by decide)
  rw [ends.unique ends', iff] at contained
  exact absurd contained.1 (by decide)

/-- The third has died when the first leaves. -/
theorem broadcast_contained_last : ∃ s o, 2 ∈ s.clients ∧
    Ends [] (fun c => c != 2) (.handler 0) ⟨s, []⟩ o ∧
      Contained (fun c => c != 2) (.leave true) 0 s o := by
  have registered : Registered ((room []).setHandler 0 (.testing true)) := ⟨by decide, by decide⟩
  have begins : Event.Begins ((room []).setHandler 0 (.testing true)) 0 (.leave true) :=
    ⟨rfl, by decide⟩
  obtain ⟨o, ends, iff⟩ := broadcast_contained [] (fun c => c != 2) _ registered begins
  refine ⟨_, o, by decide, ends, iff.mpr ?_⟩
  show FailsLast (fun c => c != 2) [1, 2]
  simp [FailsLast]

end SystemsProjects.Chat
