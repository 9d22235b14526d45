import SystemsProjects.Chat.Broadcasts

/-!
# A connection that is closed

When the peer has closed its side, every `recv` returns zero bytes. `client_handler` has no
case for that: the empty text is a message to all, and the loop goes on to the next `recv`.
-/

namespace SystemsProjects.Chat

section

variable (passcode : Text) (works : Nat → Bool) (client : Nat)

/-- `n` statements of the handler, where each `recv` returns zero bytes. -/
def Observed.steps (o : Observed) : Nat → Observed
  | 0 => o
  | n + 1 => (o.steps n).step passcode works (.handler client)

/-- The next statement of the handler goes on to `client.close()`. An exception in the
`except` does not. -/
def Server.closes (s : Server) : Prop :=
  match s.handler client with
  | .testing _ => client ∉ s.clients
  | .announcing _ _ i => s.clients[i]? = none
  | _ => False

/-- The handler has ended, the client and its name are out of the lists, each other client
has been sent one notice of the leave, and nothing else has been sent. -/
structure Gone (s : Server) (name : Text) (o : Observed) : Prop where
  ended : o.server.handler client = .finished
  clients : client ∉ o.server.clients
  usernames : o.server.usernames = s.usernames.erase name
  noticed : ∀ c ∈ s.clients, c ≠ client → o.sent.count (c, name ++ " left the chatroom".toList) = 1
  silent : ∀ message ∈ o.sent, message.2 = name ++ " left the chatroom".toList

/-- The handler ends, with its socket closed. -/
def ClosesDown (s : Server) (name : Text) : Prop :=
  ∃ n, Gone client s name (Observed.steps passcode works client ⟨s, []⟩ n) ∧
    ∃ k < n, (Observed.steps passcode works client ⟨s, []⟩ k).server.closes client

end

/-- Where the handler is while every text is empty. -/
def HandlerPc.Spins : HandlerPc → Prop
  | .receiving | .broadcasting _ _ => True
  | .received msg | .printing msg | .naming msg => msg = []
  | _ => False

section

variable {passcode : Text} {works : Nat → Bool} {s : Server} {client : Nat} {name : Text}
  {pc : HandlerPc}

theorem step_silent {pc' : HandlerPc} {sent : List (Nat × Text)}
    (silent : (s.setHandler client pc).sends (.handler client) = none)
    (step : (s.setHandler client pc).handlerStep client (some []) = s.setHandler client pc') :
    Observed.step passcode works (.handler client) ⟨s.setHandler client pc, sent⟩ =
      ⟨s.setHandler client pc', sent⟩ := by
  simp only [Observed.step, silent, Server.step, step]

theorem step_receiving (sent : List (Nat × Text)) :
    Observed.step passcode works (.handler client) ⟨s.setHandler client .receiving, sent⟩ =
      ⟨s.setHandler client (.received []), sent⟩ := by
  apply step_silent
  · rw [Server.sends, Server.setHandler_handler]
  · rw [Server.handlerStep, Server.setHandler_handler]
    exact Server.setHandler_setHandler _ _

theorem step_received (sent : List (Nat × Text)) :
    Observed.step passcode works (.handler client) ⟨s.setHandler client (.received []), sent⟩ =
      ⟨s.setHandler client (.printing []), sent⟩ := by
  apply step_silent
  · rw [Server.sends, Server.setHandler_handler]
  · rw [Server.handlerStep, Server.setHandler_handler]
    exact Server.setHandler_setHandler _ _

/-- The statement stays in the loop if no `send` to another client raises. -/
theorem step_spins (registered : s.label client = some name)
    (work : ∀ c ∈ s.clients, c ≠ client → works c = true) (spins : pc.Spins)
    (sent : List (Nat × Text)) :
    ∃ pc' sent', pc'.Spins ∧
      Observed.step passcode works (.handler client) ⟨s.setHandler client pc, sent⟩ =
        ⟨s.setHandler client pc', sent'⟩ := by
  have label : (s.setHandler client pc).label client = some name := registered
  cases pc with
  | receiving => exact ⟨.received [], sent, rfl, step_receiving sent⟩
  | received msg =>
    obtain rfl : msg = [] := spins
    exact ⟨.printing [], sent, rfl, step_received sent⟩
  | printing msg =>
    obtain rfl : msg = [] := spins
    refine ⟨.naming [], sent, rfl, step_silent ?_ ?_⟩
    · rw [Server.sends, Server.setHandler_handler]
    · rw [Server.handlerStep, Server.setHandler_handler]
      dsimp only
      rw [label, Server.setHandler_setHandler]
      rfl
  | naming msg =>
    obtain rfl : msg = [] := spins
    refine ⟨.broadcasting (name ++ ": ".toList ++ []) 0, sent, trivial, step_silent ?_ ?_⟩
    · rw [Server.sends, Server.setHandler_handler]
    · rw [Server.handlerStep, Server.setHandler_handler]
      dsimp only
      rw [label, Server.setHandler_setHandler]
      rfl
  | broadcasting text i =>
    have sends : (s.setHandler client (.broadcasting text i)).sends (.handler client) =
        (s.clients[i]?.filter (fun c => c ≠ client)).map (fun c => (c, text)) := by
      rw [Server.sends, Server.setHandler_handler]
      rfl
    have step : ∀ socket, (s.setHandler client (.broadcasting text i)).handlerStep client socket =
        s.setHandler client (s.clients[i]?.elim .receiving fun c =>
          if c = client ∨ socket.isSome then .broadcasting text (i + 1)
          else Server.raised true) := by
      intro socket
      rw [Server.handlerStep, Server.setHandler_handler]
      refine (Server.setHandler_setHandler _ _).trans ?_
      rw [Server.setHandler_clients]
      cases s.clients[i]? <;> rfl
    cases found : s.clients[i]? with
    | none =>
      rw [found] at sends step
      exact ⟨.receiving, sent, trivial, step_silent sends (step _)⟩
    | some c =>
      rw [found] at sends step
      by_cases own : c = client
      · refine ⟨.broadcasting text (i + 1), sent, trivial, step_silent ?_ ?_⟩
        · rw [sends]
          simp [own]
        · rw [step]
          exact congrArg (s.setHandler client) (if_pos (.inl own))
      · refine ⟨.broadcasting text (i + 1), sent ++ [(c, text)], trivial, ?_⟩
        have served := work c (List.mem_of_getElem? found) own
        simp only [Observed.step, sends, Option.filter_some, own, ne_eq, not_false_eq_true,
          decide_true, if_true, Option.map_some, served, Server.step, step]
        simp
  | _ => exact spins.elim

/-- The handler never leaves the loop. -/
theorem steps_spins (passcode : Text) (registered : s.label client = some name)
    (work : ∀ c ∈ s.clients, c ≠ client → works c = true) (here : s.handler client = .receiving)
    (n : Nat) :
    ∃ pc sent, pc.Spins ∧
      Observed.steps passcode works client ⟨s, []⟩ n = ⟨s.setHandler client pc, sent⟩ := by
  induction n with
  | zero => exact ⟨.receiving, [], trivial, by rw [Server.setHandler_self here]; rfl⟩
  | succ n ih =>
    obtain ⟨pc, sent, spins, reached⟩ := ih
    rw [Observed.steps, reached]
    exact step_spins registered work spins sent

/-! ## Rounds -/

theorem steps_add (o : Observed) (m n : Nat) :
    o.steps passcode works client (m + n) =
      (o.steps passcode works client m).steps passcode works client n := by
  induction n with
  | zero => rfl
  | succ n ih => rw [← Nat.add_assoc, Observed.steps, ih, Observed.steps]

theorem run_steps (passcode : Text) (works : Nat → Bool) (client : Nat) (o : Observed) (n : Nat) :
    ∃ k, o.run passcode works (.handler client) n = o.steps passcode works client k := by
  induction n generalizing o with
  | zero => exact ⟨0, rfl⟩
  | succ n ih =>
    rw [Observed.run]
    split
    · exact ⟨0, rfl⟩
    · obtain ⟨k, same⟩ := ih (o.step passcode works (.handler client))
      refine ⟨1 + k, ?_⟩
      rw [same, steps_add]
      rfl

theorem Leads.steps {o o' : Observed} (leads : Leads passcode works (.handler client) o o') :
    ∃ k, o.steps passcode works client k = o' := by
  obtain ⟨n, run⟩ := leads
  obtain ⟨k, same⟩ := run_steps passcode works client o n
  exact ⟨k, same.symm.trans (run 0)⟩

/-- Time and again each of the others is sent an empty message in the name of the client, which
stays in the lists. -/
theorem steps_rounds (registered : s.label client = some name)
    (work : ∀ c ∈ s.clients, c ≠ client → works c = true) (here : s.handler client = .receiving)
    (n : Nat) :
    ∃ k, Observed.steps passcode works client ⟨s, []⟩ k =
      ⟨s, (List.replicate n ((s.clients.filter (fun c => c ≠ client)).map
        (fun c => (c, name ++ ": ".toList)))).flatten⟩ := by
  induction n with
  | zero => exact ⟨0, rfl⟩
  | succ n ih =>
    obtain ⟨k, reached⟩ := ih
    rw [List.replicate_succ', List.flatten_append, List.flatten_singleton]
    generalize (List.replicate n _).flatten = sent at reached ⊢
    have received : Observed.steps passcode works client ⟨s, sent⟩ 2 =
        ⟨s.setHandler client (.printing []), sent⟩ := by
      rw [Observed.steps, Observed.steps, Observed.steps]
      nth_rewrite 1 [← Server.setHandler_self here]
      rw [step_receiving, step_received]
    have sends : Leads passcode works (.handler client) _ _ := message_broadcast
      (s := s.setHandler client (.printing [])) registered (Server.setHandler_handler _) sent
    obtain ⟨k', round⟩ := sends.steps
    refine ⟨k + (2 + k'), ?_⟩
    rw [steps_add, reached, steps_add, received, round]
    rw [Server.setHandler_clients, broadcast_all work, if_pos rfl, Server.setHandler_setHandler,
      Server.setHandler_self here, List.append_nil]

theorem never_gone (passcode : Text) (registered : s.label client = some name)
    (here : s.handler client = .receiving) (work : ∀ c ∈ s.clients, c ≠ client → works c = true)
    (n : Nat) : ¬ Gone client s name (Observed.steps passcode works client ⟨s, []⟩ n) := by
  intro gone
  obtain ⟨pc, sent, spins, reached⟩ := steps_spins passcode registered work here n
  have ended := gone.ended
  rw [reached, Server.setHandler_handler] at ended
  rw [ended] at spins
  exact spins

/-- In no membership does a handler end when its peer has closed. -/
theorem closed_never (passcode : Text) (registered : s.label client = some name)
    (here : s.handler client = .receiving) (work : ∀ c ∈ s.clients, c ≠ client → works c = true) :
    ¬ ClosesDown passcode works client s name := by
  rintro ⟨n, gone, -⟩
  exact never_gone passcode registered here work n gone

end

/-- Three clients, of which the first has closed. -/
theorem closed_never_lobby : ¬ ClosesDown [] (fun _ => true) 0 lobby "x".toList :=
  closed_never [] (by decide) rfl (fun _ _ _ => rfl)

theorem closed_spins : ¬ ∀ (s : Server) (client : Nat) (name : Text), s.label client = some name →
    s.handler client = .receiving → ClosesDown [] (fun _ => true) client s name := by
  intro law
  have registered : lobby.label 0 = some "x".toList := by decide
  obtain ⟨n, gone, -⟩ := law lobby 0 "x".toList registered rfl
  exact never_gone [] registered rfl (fun _ _ _ => rfl) n gone

end SystemsProjects.Chat
