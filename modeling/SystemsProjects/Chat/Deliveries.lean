import SystemsProjects.Chat.Broadcasts
import SystemsProjects.Lib.Split

/-!
# Direct messages

`client_handler` takes every text that contains `:dm` for a direct message, wherever the word
stands, and splits it at its first two spaces. If there are fewer, an exception ends the handler.
-/

namespace SystemsProjects.Chat

open Split

/-- The text comes apart at its first two spaces. -/
def Splits (msg first second body : Text) : Prop :=
  msg = first ++ ' ' :: (second ++ ' ' :: body) ∧ ' ' ∉ first ∧ ' ' ∉ second

/-- `:dm name body`: there is no space in the name, and the body is all that is left. -/
def Direct (msg name body : Text) : Prop :=
  msg = ":dm".toList ++ ' ' :: (name ++ ' ' :: body) ∧ ' ' ∉ name

/-- A text is delivered as intended: the body of a direct message to the client with the name, if
there is one, and every other text to each of the others. -/
structure Delivered (s : Server) (client : Nat) (msg : Text) (o : Observed) : Prop where
  registered : client ∈ o.server.clients
  running : o.server.handler client = .receiving
  direct : ∀ name body, Direct msg name body →
    (∀ c ∈ s.clients, s.joinedAs c = name → o.sent = [(c, s.line client body)]) ∧
      ((∀ c ∈ s.clients, s.joinedAs c ≠ name) → o.sent = [])
  everyone : (∀ name body, ¬ Direct msg name body) →
    o.sent.Perm ((s.clients.filter (fun c => c ≠ client)).map (fun c => (c, s.line client msg)))

/-- The text does not contain `:dm`, or it is a direct message, or nobody else is there and what
stands between its first two spaces is not the name of the sender. -/
def Deliverable (s : Server) (client : Nat) (msg : Text) : Prop :=
  ¬ ":dm".toList <:+: msg ∨ (∃ name body, Direct msg name body) ∨
    (∀ c ∈ s.clients, c = client) ∧
      ∃ first second body, Splits msg first second body ∧ second ≠ s.joinedAs client

section

variable {passcode : Text} {works : Nat → Bool} {s : Server} {client : Nat}
  {msg receiver body : Text}

/-! ## What a text is taken for -/

theorem splits_iff {first second : Text} : Splits msg first second body ↔
    ∃ word words, msg.splitOn ' ' = first :: second :: word :: words ∧
      List.intercalate [' '] (word :: words) = body := by
  constructor
  · rintro ⟨rfl, absent, absent'⟩
    obtain ⟨word, words, pieces⟩ := List.exists_cons_of_ne_nil (List.splitOn_ne_nil ' ' body)
    refine ⟨word, words, ?_, by rw [← pieces, List.intercalate_splitOn]⟩
    exact splitOn_cons.mpr ⟨_, rfl, absent, splitOn_cons.mpr ⟨_, rfl, absent', pieces⟩⟩
  · rintro ⟨word, words, pieces, rfl⟩
    obtain ⟨tail, rfl, absent, pieces⟩ := splitOn_cons.mp pieces
    obtain ⟨tail, rfl, absent', pieces⟩ := splitOn_cons.mp pieces
    rw [← pieces, List.intercalate_splitOn]
    exact ⟨rfl, absent, absent'⟩

theorem Splits.unique {first second first' second' body' : Text}
    (splits : Splits msg first second body) (also : Splits msg first' second' body') :
    first = first' ∧ second = second' ∧ body = body' := by
  obtain ⟨word, words, pieces, rfl⟩ := splits_iff.mp splits
  obtain ⟨word', words', pieces', rfl⟩ := splits_iff.mp also
  rw [pieces] at pieces'
  obtain ⟨rfl, rest⟩ := List.cons.inj pieces'
  obtain ⟨rfl, same⟩ := List.cons.inj rest
  exact ⟨rfl, rfl, by rw [same]⟩

theorem Direct.splits {name : Text} (direct : Direct msg name body) :
    Splits msg ":dm".toList name body :=
  ⟨direct.1, by decide, direct.2⟩

theorem dispatch_plain (s : Server) (stays : msg ≠ disconnectMessage)
    (plain : ¬ ":dm".toList <:+: msg) :
    s.dispatch msg = .printing msg := by
  rw [Server.dispatch, if_neg stays, if_neg plain]

theorem dispatch_splits (s : Server) (stays : msg ≠ disconnectMessage)
    (marked : ":dm".toList <:+: msg) {first : Text} (splits : Splits msg first receiver body) :
    s.dispatch msg = .searching receiver body 0 s.usernames.length := by
  obtain ⟨word, words, pieces, rfl⟩ := splits_iff.mp splits
  rw [Server.dispatch, if_neg stays, if_pos marked, pieces]

theorem dispatch_short (s : Server) (stays : msg ≠ disconnectMessage)
    (marked : ":dm".toList <:+: msg) (short : ∀ first second body, ¬ Splits msg first second body) :
    s.dispatch msg = .testing false := by
  rw [Server.dispatch, if_neg stays, if_pos marked]
  split
  · exact absurd (splits_iff.mpr ⟨_, _, ‹_›, rfl⟩) (short _ _ _)
  · rfl

/-! ## The search for the receiver -/

/-- A client with the name has been found. -/
theorem directing_leads (registered : Registered s) (mem : client ∈ s.clients) {i c : Nat}
    (here : s.clients[i]? = some c) (work : works c = true) :
    Leads passcode works (.handler client) ⟨s.setHandler client (.directing receiver body i), []⟩
      ⟨s.setHandler client .receiving, [(c, s.line client body)]⟩ := by
  have label : ∀ pc, (s.setHandler client pc).label client = some (s.joinedAs client) :=
    fun _ => registered.label mem
  have sends : (s.setHandler client (.directing receiver body i)).sends (.handler client) =
      some (c, s.line client body) := by
    rw [Server.sends, Server.setHandler_handler]
    dsimp only
    rw [label, show (s.setHandler client _).clients[i]? = some c from here]
    rfl
  have sent : Leads passcode works (.handler client)
      ⟨s.setHandler client (.directing receiver body i), []⟩
      ⟨s.setHandler client .reporting, [(c, s.line client body)]⟩ := by
    apply Leads.next
    · rw [resting_setHandler]
      rfl
    · simp only [Observed.step, sends, if_pos work, Server.step, Server.handlerStep,
        Server.setHandler_handler, Server.setHandler_setHandler, label]
      rw [if_pos ⟨Option.isSome_of_eq_some here, rfl, rfl⟩]
      rfl
  apply sent.trans
  apply Leads.goto rfl
  · rw [Server.sends, Server.setHandler_handler]
  · rw [Server.handlerStep, Server.setHandler_handler]
    dsimp only
    rw [label, Server.setHandler_setHandler]
    rfl

/-- From where the loop stands on, the first client with the name is sent the body. -/
theorem search_leads (receiver body : Text) (registered : Registered s) (mem : client ∈ s.clients)
    (work : ∀ c ∈ s.clients, works c = true) (i : Nat) :
    Leads passcode works (.handler client)
      ⟨s.setHandler client (.searching receiver body i s.usernames.length), []⟩
      ⟨s.setHandler client .receiving,
        (((s.clients.drop i).find? (fun c => s.joinedAs c = receiver)).map
        (fun c => (c, s.line client body))).toList⟩ := by
  have searched : ∀ i,
      Server.handlerStep (s.setHandler client (.searching receiver body i s.usernames.length))
          client (some []) =
        s.setHandler client (if i < s.usernames.length then
          s.usernames[i]?.elim (Server.raised true) fun username =>
            if username = receiver then .directing receiver body i
            else .searching receiver body (i + 1) s.usernames.length
        else .receiving) := by
    intro i
    rw [Server.handlerStep, Server.setHandler_handler]
    refine (Server.setHandler_setHandler _ _).trans ?_
    dsimp only [Server.setHandler]
    cases s.usernames[i]? <;> rfl
  generalize left : s.clients.drop i = rest
  induction rest generalizing i with
  | nil =>
    have ended : ¬ i < s.usernames.length := by
      rw [registered.names, List.length_map]
      exact Nat.not_lt.mpr (List.drop_eq_nil_iff.mp left)
    apply Leads.goto rfl
    · rw [Server.sends, Server.setHandler_handler]
    · rw [searched, if_neg ended]
  | cons c rest ih =>
    obtain ⟨here, later⟩ := Loops.drop_cons left
    have username : s.usernames[i]? = some (s.joinedAs c) := by
      rw [registered.names, List.getElem?_map, here]
      rfl
    obtain ⟨inside, -⟩ := List.getElem?_eq_some_iff.mp username
    by_cases found : s.joinedAs c = receiver
    · have reached : Leads passcode works (.handler client)
          ⟨s.setHandler client (.searching receiver body i s.usernames.length), []⟩
          ⟨s.setHandler client (.directing receiver body i), []⟩ := by
        apply Leads.goto rfl
        · rw [Server.sends, Server.setHandler_handler]
        · rw [searched, if_pos inside, username, Option.elim_some, if_pos found]
      rw [List.find?_cons_of_pos (by simpa using found)]
      exact reached.trans (directing_leads registered mem here (work c (List.mem_of_getElem? here)))
    · have moved : Leads passcode works (.handler client)
          ⟨s.setHandler client (.searching receiver body i s.usernames.length), []⟩
          ⟨s.setHandler client (.searching receiver body (i + 1) s.usernames.length), []⟩ := by
        apply Leads.goto rfl
        · rw [Server.sends, Server.setHandler_handler]
        · rw [searched, if_pos inside, username, Option.elim_some, if_neg found]
      rw [List.find?_cons_of_neg (by simpa using found)]
      exact moved.trans (ih (i + 1) later)

/-! ## One iteration -/

/-- `recv`, and the tests of the text. -/
theorem received_leads (msg : Text) (here : s.handler client = .receiving) :
    Leads passcode works (.handler client) ⟨s.handlerStep client (some msg), []⟩
      ⟨s.setHandler client (s.dispatch msg), []⟩ := by
  have received : s.handlerStep client (some msg) = s.setHandler client (.received msg) := by
    rw [Server.handlerStep, here]
    rfl
  rw [received]
  apply Leads.goto rfl
  · rw [Server.sends, Server.setHandler_handler]
  · rw [Server.handlerStep, Server.setHandler_handler]
    exact Server.setHandler_setHandler _ _

theorem plain_delivered (passcode : Text) (registered : Registered s) (mem : client ∈ s.clients)
    (here : s.handler client = .receiving) (work : ∀ c ∈ s.clients, works c = true)
    (stays : msg ≠ disconnectMessage) (plain : ¬ ":dm".toList <:+: msg) :
    ∃ o, Ends passcode works (.handler client) ⟨s.handlerStep client (some msg), []⟩ o ∧
      Delivered s client msg o := by
  have leads : Leads passcode works (.handler client) _ _ := received_leads msg here
  rw [dispatch_plain s stays plain] at leads
  have sent : Leads passcode works (.handler client) _ _ :=
    message_broadcast (s := s.setHandler client (.printing msg)) (registered.label mem)
      (Server.setHandler_handler _) []
  rw [Server.setHandler_clients, broadcast_all fun c mem _ => work c mem, if_pos rfl,
    Server.setHandler_setHandler] at sent
  refine ⟨_, (leads.trans sent).ends (resting_setHandler _), mem, Server.setHandler_handler _, ?_,
    fun _ => .refl _⟩
  rintro name body ⟨rfl, -⟩
  exact absurd (List.prefix_append _ _).isInfix plain

/-- With distinct names, the search finds whoever has the name. -/
theorem find_named (registered : Registered s) (distinct : s.usernames.Nodup) {c : Nat}
    (mem : c ∈ s.clients) (named : s.joinedAs c = receiver) :
    s.clients.find? (fun c => s.joinedAs c = receiver) = some c := by
  cases found : s.clients.find? (fun c => s.joinedAs c = receiver) with
  | none => exact absurd named (by simpa using List.find?_eq_none.mp found c mem)
  | some d =>
    rw [registered.names] at distinct
    have same : s.joinedAs d = receiver := by simpa using List.find?_some found
    rw [List.inj_on_of_nodup_map distinct (List.mem_of_find?_eq_some found) mem
      (same.trans named.symm)]

theorem find_nobody (none : ∀ c ∈ s.clients, s.joinedAs c ≠ receiver) :
    s.clients.find? (fun c => s.joinedAs c = receiver) = .none :=
  List.find?_eq_none.mpr fun c mem => by simpa using none c mem

theorem others_nil : s.clients.filter (fun c => c ≠ client) = [] ↔
    ∀ c ∈ s.clients, c = client := by
  simp [List.filter_eq_nil_iff]

/-- What the handler leaves when a text has been taken for a direct message. -/
def directed (s : Server) (client : Nat) (receiver body : Text) : Observed :=
  ⟨s.setHandler client .receiving,
    ((s.clients.find? (fun c => s.joinedAs c = receiver)).map
      (fun c => (c, s.line client body))).toList⟩

theorem directed_named (registered : Registered s) (distinct : s.usernames.Nodup) {c : Nat}
    (mem : c ∈ s.clients) (named : s.joinedAs c = receiver) :
    (directed s client receiver body).sent = [(c, s.line client body)] := by
  rw [directed, find_named registered distinct mem named]
  rfl

theorem directed_nobody (none : ∀ c ∈ s.clients, s.joinedAs c ≠ receiver) :
    (directed s client receiver body).sent = [] := by
  rw [directed, find_nobody none]
  rfl

theorem direct_delivered (registered : Registered s) (distinct : s.usernames.Nodup)
    (mem : client ∈ s.clients) (direct : Direct msg receiver body) :
    Delivered s client msg (directed s client receiver body) := by
  refine ⟨mem, Server.setHandler_handler _, fun name body' written => ?_,
    fun none => absurd direct (none receiver body)⟩
  obtain ⟨-, rfl, rfl⟩ := direct.splits.unique written.splits
  exact ⟨fun c mem named => directed_named registered distinct mem named, directed_nobody⟩

/-- A text that only looks like a direct message is still delivered if there is nobody to whom it
could go and nobody is found. -/
theorem mistaken_delivered (registered : Registered s) (distinct : s.usernames.Nodup)
    (mem : client ∈ s.clients) {first : Text} (splits : Splits msg first receiver body)
    (other : ∀ name body, ¬ Direct msg name body) :
    Delivered s client msg (directed s client receiver body) ↔
      (∀ c ∈ s.clients, c = client) ∧ receiver ≠ s.joinedAs client := by
  constructor
  · intro delivered
    have sent := delivered.everyone other
    have alone : ∀ c ∈ s.clients, c = client := by
      intro c mem
      by_contra ne
      have served : (c, s.line client msg) ∈ (s.clients.filter (fun c => c ≠ client)).map
          (fun c => (c, s.line client msg)) :=
        List.mem_map.mpr ⟨c, List.mem_filter.mpr ⟨mem, decide_eq_true ne⟩, rfl⟩
      have line := sent.mem_iff.mpr served
      rw [directed, Option.mem_toList, Option.map_eq_some_iff] at line
      obtain ⟨_, _, same⟩ := line
      -- the body is sent, which is shorter than the text
      have whole : body = msg := List.append_cancel_left (Prod.mk.inj same).2
      have longer := congrArg List.length splits.1
      rw [← whole] at longer
      simp at longer
      omega
    refine ⟨alone, fun own => ?_⟩
    rw [directed_named registered distinct mem own.symm, others_nil.mpr alone] at sent
    cases sent.eq_nil
  · rintro ⟨alone, ne⟩
    have unnamed : ∀ c ∈ s.clients, s.joinedAs c ≠ receiver := by
      intro c mem named
      rw [alone c mem] at named
      exact ne named.symm
    refine ⟨mem, Server.setHandler_handler _, fun name body written =>
      absurd written (other name body), fun _ => ?_⟩
    rw [directed_nobody unnamed, others_nil.mpr alone]
    exact .refl _

/-- The text is taken for a direct message. -/
theorem splits_delivered (passcode : Text) (registered : Registered s)
    (distinct : s.usernames.Nodup) (mem : client ∈ s.clients) (here : s.handler client = .receiving)
    (work : ∀ c ∈ s.clients, works c = true) (stays : msg ≠ disconnectMessage)
    (marked : ":dm".toList <:+: msg) {first : Text} (splits : Splits msg first receiver body) :
    ∃ o, Ends passcode works (.handler client) ⟨s.handlerStep client (some msg), []⟩ o ∧
      (Delivered s client msg o ↔ Deliverable s client msg) := by
  have leads : Leads passcode works (.handler client) _ _ := received_leads msg here
  rw [dispatch_splits s stays marked splits] at leads
  have sent : Leads passcode works (.handler client) _ (directed s client receiver body) :=
    search_leads receiver body registered mem work 0
  refine ⟨_, (leads.trans sent).ends (resting_setHandler _), ?_⟩
  by_cases direct : ∃ name body, Direct msg name body
  · obtain ⟨name, body', written⟩ := direct
    obtain ⟨rfl, rfl, rfl⟩ := splits.unique written.splits
    exact iff_of_true (direct_delivered registered distinct mem written)
      (.inr (.inl ⟨_, _, written⟩))
  · have other : ∀ name body, ¬ Direct msg name body :=
      fun name body written => direct ⟨name, body, written⟩
    rw [mistaken_delivered registered distinct mem splits other]
    constructor
    · rintro ⟨alone, ne⟩
      exact .inr (.inr ⟨alone, first, receiver, body, splits, ne⟩)
    · rintro (plain | written | ⟨alone, first', second, body', splits', ne⟩)
      · exact absurd marked plain
      · exact absurd written direct
      · obtain ⟨-, rfl, -⟩ := splits.unique splits'
        exact ⟨alone, ne⟩

/-- There is nothing to split, and the client is expelled. -/
theorem short_expels (passcode : Text) (works : Nat → Bool) (registered : Registered s)
    (mem : client ∈ s.clients) (here : s.handler client = .receiving)
    (stays : msg ≠ disconnectMessage)
    (marked : ":dm".toList <:+: msg) (short : ∀ first second body, ¬ Splits msg first second body) :
    ∃ o, Ends passcode works (.handler client) ⟨s.handlerStep client (some msg), []⟩ o ∧
      ¬ Delivered s client msg o := by
  have leads : Leads passcode works (.handler client) _ _ := received_leads msg here
  rw [dispatch_short s stays marked short] at leads
  have left : Leads passcode works (.handler client) _ _ :=
    leave_broadcast (s := s.setHandler client (.testing false))
      ⟨registered.nodup, registered.names⟩ mem (Server.setHandler_handler _) []
  rw [without_setHandler] at left
  exact ⟨_, (leads.trans left).ends without_resting, fun delivered =>
    registered.nodup.not_mem_erase delivered.registered⟩

/-- With distinct names and no `send` that raises, a text that is not `:Exit` is delivered as
intended and leaves its sender in the room if and only if it is deliverable. -/
theorem text_delivered (passcode : Text) (works : Nat → Bool) (registered : Registered s)
    (distinct : s.usernames.Nodup) (mem : client ∈ s.clients) (here : s.handler client = .receiving)
    (work : ∀ c ∈ s.clients, works c = true) (stays : msg ≠ disconnectMessage) :
    ∃ o, Ends passcode works (.handler client) ⟨s.handlerStep client (some msg), []⟩ o ∧
      (Delivered s client msg o ↔ Deliverable s client msg) := by
  by_cases marked : ":dm".toList <:+: msg
  · by_cases splits : ∃ first second body, Splits msg first second body
    · obtain ⟨first, second, body, splits⟩ := splits
      exact splits_delivered passcode registered distinct mem here work stays marked splits
    · have short : ∀ first second body, ¬ Splits msg first second body :=
        fun first second body both => splits ⟨first, second, body, both⟩
      obtain ⟨o, ends, expelled⟩ := short_expels passcode works registered mem here stays
        marked short
      refine ⟨o, ends, iff_of_false expelled ?_⟩
      rintro (plain | ⟨name, body, direct⟩ | ⟨-, first, second, body, both, -⟩)
      · exact plain marked
      · exact short _ _ _ direct.splits
      · exact short _ _ _ both
  · obtain ⟨o, ends, delivered⟩ := plain_delivered passcode registered mem here work stays marked
    exact ⟨o, ends, iff_of_true delivered (.inl marked)⟩

end

/-- The second of three clients writes to the third. -/
theorem text_delivered_lobby : ∃ o, Ends [] (fun _ => true) (.handler 1)
    ⟨lobby.handlerStep 1 (some ":dm z hi".toList), []⟩ o ∧
    Delivered lobby 1 ":dm z hi".toList o := by
  have registered : Registered lobby := ⟨by decide, by decide⟩
  obtain ⟨o, ends, iff⟩ := text_delivered [] (fun _ => true) registered (by decide)
    (show 1 ∈ lobby.clients by decide) rfl (fun _ _ => rfl)
    (show ":dm z hi".toList ≠ disconnectMessage by decide)
  exact ⟨o, ends, iff.mpr (.inr (.inl ⟨"z".toList, "hi".toList, rfl, by decide⟩))⟩

/-- The body is missing, and the sender is expelled. -/
theorem text_expels : ¬ ∀ (s : Server) (client : Nat) (msg : Text), Registered s →
    s.usernames.Nodup → client ∈ s.clients → s.handler client = .receiving → msg ≠ [] →
    msg ≠ disconnectMessage →
    ∃ o, Ends [] (fun _ => true) (.handler client) ⟨s.handlerStep client (some msg), []⟩ o ∧
      Delivered s client msg o := by
  intro law
  have registered : Registered lobby := ⟨by decide, by decide⟩
  have mem : 1 ∈ lobby.clients := by decide
  have short : ∀ first second body, ¬ Splits ":dm z".toList first second body := by
    intro first second body splits
    obtain ⟨word, words, pieces, -⟩ := splits_iff.mp splits
    have two : (":dm z".toList.splitOn ' ').length = 2 := by decide
    rw [pieces] at two
    cases two
  obtain ⟨o, ends, delivered⟩ := law lobby 1 ":dm z".toList registered (by decide) mem rfl
    (by decide) (by decide)
  obtain ⟨o', ends', expelled⟩ := short_expels [] (fun _ => true) registered mem rfl
    (by decide) (by decide) short
  rw [ends.unique ends'] at delivered
  exact expelled delivered

end SystemsProjects.Chat
