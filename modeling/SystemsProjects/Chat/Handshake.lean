import SystemsProjects.Chat.Broadcasts
import SystemsProjects.Chat.Framing
import SystemsProjects.Chat.Membership
import SystemsProjects.Lib.Split

/-!
# Joining

The client sends `username:passcode` and looks at the reply; the server splits what it
receives at the colons. The two programs name the refusal differently.
-/

namespace SystemsProjects.Chat

open Split

/-! ## The client -/

/-- `f"{username}:{passcode}"`. -/
def credentials (username passcode : Text) : Text := username ++ ':' :: passcode

/-- The checks of the arguments. -/
def validArguments (username passcode : Text) : Bool :=
  !(username.length > 8) && !(passcode.length > 5)

/-- Whether `main` goes on to the chat. -/
def entersChat (reply : Text) : Bool := reply ≠ "Invalid credentials".toList

theorem welcome_enters : entersChat "Welcome to the chatroom!".toList = true := by decide

/-- The refusal of the server is not the one that the client knows. -/
theorem refusal_enters : entersChat "Incorrect passcode".toList = true := by decide

/-- What the client receives: the first that the server has sent to it, or what `recv`
returns of a connection that the server does not answer, if it returns. -/
def reply (o : Observed) (client : Nat) (unanswered : Option Text) : Option Text :=
  match o.sent.find? (fun m => m.1 = client) with
  | some m => some m.2
  | none => unanswered

/-- The client chats if and only if the server has it in both lists, with its name. -/
def Agrees (s : Server) (o : Observed) (username : Text) (unanswered : Option Text) : Prop :=
  (reply o s.accepted unanswered).any entersChat = true ↔
    o.server.clients = s.clients ++ [s.accepted] ∧ o.server.usernames = s.usernames ++ [username]

/-! ## New connections -/

/-- The client that `main` will append to `clients`. -/
def MainPc.joins : MainPc → Option Nat
  | .welcoming client _ | .appendingName client _ | .appendingClient client _ => some client
  | _ => none

/-- Clients that are known have been accepted before. -/
def Numbered (s : Server) : Prop :=
  (∀ c ∈ s.clients, c < s.accepted) ∧ ∀ c, s.main.joins = some c → c < s.accepted

variable {passcode : Text} {ok : Server → Turn → Prop} {s : Server} {works : Nat → Bool}

theorem handlerStep_clients (s : Server) (client : Nat) (socket : Option Text) :
    (s.handlerStep client socket).clients.Sublist s.clients ∧
    (s.handlerStep client socket).accepted = s.accepted ∧
    (s.handlerStep client socket).main = s.main := by
  unfold Server.handlerStep
  split
  case h_13 =>
    split
    · exact ⟨List.erase_sublist, rfl, rfl⟩
    · exact ⟨List.Sublist.refl _, rfl, rfl⟩
  case h_15 =>
    split
    · exact ⟨List.Sublist.refl _, rfl, rfl⟩
    · exact ⟨List.Sublist.refl _, rfl, rfl⟩
  all_goals exact ⟨List.Sublist.refl _, rfl, rfl⟩

theorem Numbered.login (numbered : Numbered s) (text : Text) :
    Numbered (s.login passcode text) := by
  unfold Server.login
  split
  · refine ⟨fun c mem => Nat.lt_succ_of_lt (numbered.1 c mem), fun c joins => ?_⟩
    dsimp only at joins
    split at joins
    · cases joins
      exact Nat.lt_succ_self _
    · cases joins
  · exact ⟨numbered.1, fun c joins => by cases joins⟩

theorem Numbered.mainStep (numbered : Numbered s) (socket : Option Text) :
    Numbered (s.mainStep passcode socket) := by
  have idle : ∀ {pc : MainPc}, pc.joins = none → Numbered (s.setMain pc) := by
    intro pc joins
    exact ⟨numbered.1, fun c eq => by cases joins.symm.trans eq⟩
  unfold Server.mainStep
  cases at_pc : s.main with
  | accepting =>
    cases socket with
    | none => exact idle rfl
    | some text => exact numbered.login text
  | refusing =>
    dsimp only
    split
    · exact idle rfl
    · exact idle rfl
  | welcoming client username =>
    have joining := numbered.2 client (by rw [at_pc]; rfl)
    dsimp only
    split
    · exact ⟨numbered.1, fun c eq => by cases eq; exact joining⟩
    · exact idle rfl
  | appendingName client username =>
    have joining := numbered.2 client (by rw [at_pc]; rfl)
    exact ⟨numbered.1, fun c eq => by cases eq; exact joining⟩
  | appendingClient client username =>
    have joining := numbered.2 client (by rw [at_pc]; rfl)
    refine ⟨fun c mem => ?_, fun c eq => by cases eq⟩
    obtain mem | mem := List.mem_append.mp mem
    · exact numbered.1 c mem
    · cases List.mem_singleton.mp mem
      exact joining
  | broadcasting client i =>
    dsimp only
    split
    · exact idle rfl
    · split
      · exact idle rfl
      · exact idle rfl
  | starting client => exact ⟨numbered.1, fun c eq => by cases eq⟩
  | dead => exact numbered

theorem Run.numbered (run : Run passcode ok s) : Numbered s := by
  induction run with
  | initial => exact ⟨fun c mem => absurd mem List.not_mem_nil, fun c joins => by cases joins⟩
  | @next s turn socket _ _ ih =>
    cases turn with
    | main => exact ih.mainStep socket
    | handler client =>
      obtain ⟨clients, accepted, main⟩ := handlerStep_clients s client socket
      rw [Server.step, Numbered, accepted, main]
      exact ⟨fun c mem => ih.1 c (clients.subset mem), ih.2⟩

theorem Run.fresh (run : Run passcode ok s) : s.accepted ∉ s.clients :=
  fun mem => Nat.lt_irrefl _ (run.numbered.1 _ mem)

/-! ## The answer -/

/-- Two fields: a username and a passcode. -/
def WellFormed (username clientPasscode : Text) : Prop := ':' ∉ username ∧ ':' ∉ clientPasscode

theorem credentials_split {username clientPasscode username' clientPasscode' : Text} :
    (credentials username clientPasscode).splitOn ':' = [username', clientPasscode'] ↔
      (username' = username ∧ clientPasscode' = clientPasscode) ∧
      WellFormed username clientPasscode := by
  rw [credentials, splitOn_pair, WellFormed]
  tauto

/-- The state after credentials of two fields. -/
def Server.opened (s : Server) (passcode username clientPasscode : Text) : Server :=
  { s with
    accepted := s.accepted + 1
    joinedAs := fun c => if c = s.accepted then username else s.joinedAs c
    main := if clientPasscode = passcode then .welcoming s.accepted username else .refusing }

theorem mainStep_wellFormed (accepting : s.main = .accepting) {username clientPasscode : Text}
    (wellFormed : WellFormed username clientPasscode) :
    s.mainStep passcode (some (credentials username clientPasscode)) =
      s.opened passcode username clientPasscode := by
  rw [Server.mainStep, accepting]
  dsimp only
  rw [Option.elim_some, Server.login, credentials_split.mpr ⟨⟨rfl, rfl⟩, wellFormed⟩]
  rfl

theorem mainStep_malformed (accepting : s.main = .accepting) {message : Option Text}
    (malformed : ∀ username clientPasscode, WellFormed username clientPasscode →
      message ≠ some (credentials username clientPasscode)) :
    s.mainStep passcode message = s.setMain .dead := by
  rw [Server.mainStep, accepting]
  cases message with
  | none => rfl
  | some text =>
    dsimp only
    rw [Option.elim_some, Server.login]
    split
    · rename_i username clientPasscode two
      have whole := text.intercalate_splitOn ':'
      rw [two] at whole
      have joined : text = credentials username clientPasscode := by
        rw [← whole]
        simp [List.intercalate, credentials]
      rw [joined] at two
      exact absurd (congrArg some joined) (malformed _ _ (credentials_split.mp two).2)
    · rfl

/-- What the connection that is accepted next comes to. -/
inductive Answer (passcode : Text) (works : Nat → Bool) (s : Server) (message : Option Text)
    (o : Observed) : Prop
  | joined (username : Text) (wellFormed : WellFormed username passcode)
      (sent : message = some (credentials username passcode)) (work : works s.accepted = true)
      (welcome : ∃ later, o.sent = (s.accepted, "Welcome to the chatroom!".toList) :: later)
      (clients : o.server.clients = s.clients ++ [s.accepted])
      (usernames : o.server.usernames = s.usernames ++ [username])
      (survives : o.server.main = .accepting ↔ ∀ c ∈ s.clients, works c = true)
  | refused (username clientPasscode : Text) (wellFormed : WellFormed username clientPasscode)
      (sent : message = some (credentials username clientPasscode))
      (wrong : clientPasscode ≠ passcode)
      (work : works s.accepted = true)
      (refusal : o.sent = [(s.accepted, "Incorrect passcode".toList)])
      (clients : o.server.clients = s.clients) (survives : o.server.main = .accepting)
  | unanswered
      (why : works s.accepted = false ∨ ∀ username clientPasscode,
        WellFormed username clientPasscode → message ≠ some (credentials username clientPasscode))
      (silent : o.sent = []) (clients : o.server.clients = s.clients) (ends : o.server.main = .dead)

theorem answered (passcode : Text) (works : Nat → Bool) (accepting : s.main = .accepting)
    (fresh : s.accepted ∉ s.clients) (message : Option Text) :
    ∃ o, Ends passcode works .main ⟨s.mainStep passcode message, []⟩ o ∧
      Answer passcode works s message o := by
  by_cases two : ∃ username clientPasscode, WellFormed username clientPasscode ∧
      message = some (credentials username clientPasscode)
  swap
  · have malformed : ∀ username clientPasscode, WellFormed username clientPasscode →
        message ≠ some (credentials username clientPasscode) :=
      fun username clientPasscode wellFormed sent => two ⟨_, _, wellFormed, sent⟩
    rw [mainStep_malformed accepting malformed]
    exact ⟨_, Leads.refl.ends rfl, .unanswered (.inr malformed) rfl rfl rfl⟩
  obtain ⟨username, clientPasscode, wellFormed, rfl⟩ := two
  rw [mainStep_wellFormed accepting wellFormed]
  generalize opened : s.opened passcode username clientPasscode = t
  have clients : t.clients = s.clients := by
    rw [← opened]
    rfl
  by_cases right : clientPasscode = passcode
  · subst right
    have name : t.joinedAs s.accepted = username := by
      rw [← opened]
      exact if_pos rfl
    have usernames : t.usernames ++ [t.joinedAs s.accepted] = s.usernames ++ [username] := by
      rw [name, ← opened]
      rfl
    have here : t.main = .welcoming s.accepted (t.joinedAs s.accepted) := by
      rw [name, ← opened]
      exact if_pos rfl
    by_cases work : works s.accepted = true
    · have leads : Leads clientPasscode works _ _ _ := join_broadcast here work
      rw [clients] at leads
      have all : (broadcast works s.accepted s.clients).2 = true ↔
          ∀ c ∈ s.clients, works c = true := by
        rw [broadcast_completes]
        refine forall₂_congr (fun c mem => ?_)
        have ne : c ≠ s.accepted := by
          rintro rfl
          exact fresh mem
        exact ⟨fun other => other ne, fun work _ => work⟩
      by_cases completes : (broadcast works s.accepted s.clients).2 = true
      · rw [if_pos completes] at leads
        refine ⟨_, leads.ends rfl, .joined username wellFormed rfl work ⟨_, rfl⟩ ?_ usernames ?_⟩
        · exact congrArg (fun cs => cs ++ [s.accepted]) clients
        · exact ⟨fun _ => all.mp completes, fun _ => rfl⟩
      · rw [if_neg completes] at leads
        refine ⟨_, leads.ends rfl, .joined username wellFormed rfl work ⟨_, rfl⟩ ?_ usernames ?_⟩
        · exact congrArg (fun cs => cs ++ [s.accepted]) clients
        · exact ⟨fun accepts => MainPc.noConfusion accepts, fun others =>
            absurd (all.mpr others) completes⟩
    · have dead := Bool.eq_false_iff.mpr work
      have leads : Leads clientPasscode works _ _ _ := join_dead here dead
      exact ⟨_, leads.ends rfl, .unanswered (.inl dead) rfl clients rfl⟩
  · have here : t.main = .refusing := by
      rw [← opened]
      exact if_neg right
    have refusal : t.sends .main = some (s.accepted, "Incorrect passcode".toList) := by
      rw [Server.sends, here, ← opened]
      rfl
    have inside : t.resting .main = false := by
      rw [Server.resting, here]
      rfl
    by_cases work : works s.accepted = true
    · have leads : Leads passcode works .main ⟨t, []⟩
          ⟨t.setMain .accepting, [(s.accepted, "Incorrect passcode".toList)]⟩ := by
        apply Leads.next inside
        rw [Observed.step, refusal]
        dsimp only
        rw [if_pos work, Server.step, Server.mainStep, here]
        rfl
      exact ⟨_, leads.ends rfl, .refused username clientPasscode wellFormed rfl right work rfl
        clients rfl⟩
    · have leads : Leads passcode works .main ⟨t, []⟩ ⟨t.setMain .dead, []⟩ := by
        apply Leads.next inside
        rw [Observed.step, refusal]
        dsimp only
        rw [if_neg work, Server.step, Server.mainStep, here]
        rfl
      exact ⟨_, leads.ends rfl, .unanswered (.inl (Bool.eq_false_iff.mpr work)) rfl clients rfl⟩

/-! ## Agreement -/

/-- The client has sent the passcode of the server and both fields are free of colons; or
it gets no answer, and does not take the end of the connection for one. -/
def Greeted (passcode : Text) (works : Nat → Bool) (s : Server) (username clientPasscode : Text)
    (unanswered : Option Text) : Prop :=
  (WellFormed username clientPasscode ∧ clientPasscode = passcode ∧ works s.accepted = true) ∨
  ((¬ WellFormed username clientPasscode ∨ works s.accepted = false) ∧
    unanswered.any entersChat = false)

/-- Two fields, and no `send` that raises. -/
def Survivable (passcode : Text) (works : Nat → Bool) (s : Server) (message : Option Text) : Prop :=
  works s.accepted = true ∧ ∃ username clientPasscode, WellFormed username clientPasscode ∧
    message = some (credentials username clientPasscode) ∧
    (clientPasscode = passcode → ∀ c ∈ s.clients, works c = true)

theorem credentials_inj {username clientPasscode username' clientPasscode' : Text}
    (wellFormed : WellFormed username' clientPasscode')
    (eq : credentials username clientPasscode = credentials username' clientPasscode') :
    (username' = username ∧ clientPasscode' = clientPasscode) ∧
    WellFormed username clientPasscode := by
  apply credentials_split.mp
  rw [eq]
  exact credentials_split.mpr ⟨⟨rfl, rfl⟩, wellFormed⟩

theorem Answer.agrees {username clientPasscode : Text} {o : Observed}
    (answer : Answer passcode works s (some (credentials username clientPasscode)) o)
    (unanswered : Option Text) :
    Agrees s o username unanswered ↔
      Greeted passcode works s username clientPasscode unanswered := by
  unfold Agrees reply
  cases answer with
  | joined username' wellFormed sent work welcome clients usernames survives =>
    obtain ⟨⟨rfl, rfl⟩, wellFormed⟩ := credentials_inj wellFormed (Option.some.inj sent)
    obtain ⟨later, welcome⟩ := welcome
    rw [welcome, List.find?_cons_of_pos (by simp)]
    exact ⟨fun _ => .inl ⟨wellFormed, rfl, work⟩, fun _ =>
      ⟨fun _ => ⟨clients, usernames⟩, fun _ => welcome_enters⟩⟩
  | refused username' clientPasscode' wellFormed sent wrong work refusal clients survives =>
    obtain ⟨⟨rfl, rfl⟩, wellFormed⟩ := credentials_inj wellFormed (Option.some.inj sent)
    rw [refusal, List.find?_cons_of_pos (by simp), clients]
    constructor
    · intro agrees
      have listed := (agrees.mp refusal_enters).1
      exact absurd (congrArg List.length listed) (by simp)
    · rintro (⟨-, right, -⟩ | ⟨malformed | dead, -⟩)
      · exact absurd right wrong
      · exact absurd wellFormed malformed
      · exact absurd (work.symm.trans dead) (by decide)
  | unanswered why silent clients ends =>
    rw [silent, List.find?_nil, clients]
    have missing : ¬ (s.clients = s.clients ++ [s.accepted] ∧
        o.server.usernames = s.usernames ++ [username]) :=
      fun listed => absurd (congrArg List.length listed.1) (by simp)
    constructor
    · intro agrees
      refine .inr ⟨?_, Bool.eq_false_iff.mpr (fun enters => missing (agrees.mp enters))⟩
      obtain dead | malformed := why
      · exact .inr dead
      · exact .inl (fun wellFormed => malformed _ _ wellFormed rfl)
    · rintro (⟨wellFormed, -, work⟩ | ⟨-, stays⟩)
      · obtain dead | malformed := why
        · exact absurd (work.symm.trans dead) (by decide)
        · exact absurd rfl (malformed _ _ wellFormed)
      · exact ⟨fun enters => absurd (enters.symm.trans stays) (by decide),
          fun listed => absurd listed missing⟩

theorem Answer.survives {message : Option Text} {o : Observed}
    (answer : Answer passcode works s message o) :
    o.server.main = .accepting ↔ Survivable passcode works s message := by
  cases answer with
  | joined username wellFormed sent work welcome clients usernames survives =>
    subst sent
    rw [survives]
    constructor
    · exact fun others => ⟨work, username, passcode, wellFormed, rfl, fun _ => others⟩
    · rintro ⟨-, username', clientPasscode, wellFormed', sent, others⟩
      obtain ⟨⟨-, right⟩, -⟩ := credentials_inj wellFormed' (Option.some.inj sent)
      exact others right
  | refused username clientPasscode wellFormed sent wrong work refusal clients survives =>
    exact ⟨fun _ => ⟨work, username, clientPasscode, wellFormed, sent, fun right =>
      absurd right wrong⟩, fun _ => survives⟩
  | unanswered why silent clients ends =>
    rw [ends]
    constructor
    · exact fun accepts => MainPc.noConfusion accepts
    · rintro ⟨work, username, clientPasscode, wellFormed, sent, -⟩
      obtain dead | malformed := why
      · exact absurd (work.symm.trans dead) (by decide)
      · exact absurd sent (malformed _ _ wellFormed)

/-- Client and server agree on the handshake, and the accept loop survives a first message,
under these conditions and no others. -/
theorem handshake_agrees (works : Nat → Bool) (run : Run passcode ok s)
    (accepting : s.main = .accepting) :
    (∀ (username clientPasscode : Text) (unanswered : Option Text),
      validArguments username clientPasscode = true →
      ∃ o, Ends passcode works .main
        ⟨s.mainStep passcode (decode (encode (credentials username clientPasscode))), []⟩ o ∧
        (Agrees s o username unanswered ↔
          Greeted passcode works s username clientPasscode unanswered)) ∧
    ∀ first : Chunk, ∃ o, Ends passcode works .main ⟨s.mainStep passcode (decode first), []⟩ o ∧
      (o.server.main = .accepting ↔ Survivable passcode works s (decode first)) := by
  constructor
  · intro username clientPasscode unanswered _
    rw [utf8.decodes]
    obtain ⟨o, ends, answer⟩ := answered passcode works accepting run.fresh
      (some (credentials username clientPasscode))
    exact ⟨o, ends, answer.agrees unanswered⟩
  · intro first
    obtain ⟨o, ends, answer⟩ := answered passcode works accepting run.fresh (decode first)
    exact ⟨o, ends, answer.survives⟩

/-- A wrong passcode: the client chats all the same. -/
theorem wrong_passcode_enters : ¬ ∀ (username clientPasscode : Text),
    validArguments username clientPasscode = true →
    ∃ o, Ends "right".toList (fun _ => true) .main
      ⟨initial.mainStep "right".toList (decode (encode (credentials username clientPasscode))), []⟩
        o ∧
      Agrees initial o username none := by
  intro law
  obtain ⟨o, ends, agrees⟩ := law "x".toList "wrong".toList (by decide)
  rw [utf8.decodes] at ends
  have fresh : initial.accepted ∉ initial.clients := List.not_mem_nil
  obtain ⟨o', ends', answer⟩ := answered "right".toList (fun _ => true) (s := initial) rfl fresh
    (some (credentials "x".toList "wrong".toList))
  rw [ends.unique ends', answer.agrees] at agrees
  obtain ⟨-, right, -⟩ | ⟨malformed | dead, -⟩ := agrees
  · exact absurd right (by decide)
  · exact malformed ⟨by decide, by decide⟩
  · exact absurd dead (by decide)

/-- The second client, with the right passcode. -/
theorem handshake_agrees_second : ∃ s, Run "right".toList (fun _ _ => True) s ∧ s.clients = [0] ∧
    ∃ o, Ends "right".toList (fun _ => true) .main
        ⟨s.mainStep "right".toList (decode (encode (credentials "y".toList "right".toList))), []⟩
        o ∧
      Agrees s o "y".toList none := by
  have run : Run "right".toList (fun _ _ => True)
      (script "right".toList (join "x:right".toList 0) initial) := Run.initial.script (by decide)
  obtain ⟨o, ends, iff⟩ := (handshake_agrees (fun _ => true) run (by decide)).1 "y".toList
    "right".toList none (by decide)
  exact ⟨_, run, by decide, o, ends, iff.mpr (.inl ⟨⟨by decide, by decide⟩, rfl, rfl⟩)⟩

end SystemsProjects.Chat
