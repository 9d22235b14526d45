import SystemsProjects.Chat.Server
import SystemsProjects.Lib.Framing

/-!
# Texts on the socket

`client.py` sends each text with one `send`, and `client_handler` takes what one `recv`
returns for one text. Nothing on the socket says where a text ends.
-/

namespace SystemsProjects.Chat

open Framing

/-- What `recv` returns. -/
abbrev Chunk := List UInt8

/-- `SIZE`. -/
def size : Nat := 1024

/-- `msg.encode(FORMAT)`. -/
def encode (msg : Text) : Chunk := msg.flatMap String.utf8EncodeChar

/-- `.decode(FORMAT)`, `none` if it raises. -/
def decode (chunk : Chunk) : Option Text := chunk.toByteArray.utf8Decode?.map Array.toList

/-! ## The client -/

/-- `mytime` and `hour` are what `strftime` returns, now and in an hour. -/
def dynamicShortcuts (mytime hour msg : Text) : Text :=
  if msg = ":)".toList then "[Feeling Joyful]".toList
  else if msg = ":(".toList then "[Feeling Unhappy]".toList
  else if msg = ":mytime".toList then mytime
  else if msg = ":+1hr".toList then hour
  else msg

/-- What `send` sends for the lines that are typed; `clock` is what `strftime` would
return at each. -/
def send (clock : Nat → Text × Text) : List Text → List Text
  | [] => []
  | msg :: lines =>
    if msg = disconnectMessage then [msg]
    else dynamicShortcuts (clock 0).1 (clock 0).2 msg :: send (fun k => clock (k + 1)) lines

/-! ## The handler -/

/-- The text is the last that the handler takes: `:Exit`, or a direct message without
a receiver and a text. -/
def lastText (msg : Text) : Bool :=
  msg = disconnectMessage || (":dm".toList <:+: msg && (msg.splitOn ' ').length < 3)

/-- The texts that `client_handler` takes from the chunks, one in each round of its loop;
`fails` says in which rounds a lookup in the lists or a `send` raises. -/
def clientHandler (fails : Nat → Bool) : List Chunk → List Text
  | [] => []
  | chunk :: chunks =>
    match decode chunk with
    | none => []
    | some msg =>
      msg :: if lastText msg || fails 0 then [] else clientHandler (fun k => fails (k + 1)) chunks

/-- No text but the last makes the handler leave. -/
def Stays (fails : Nat → Bool) (texts : List Text) : Prop :=
  ∀ k msg, texts[k]? = some msg → k + 1 < texts.length → (lastText msg || fails k) = false

theorem utf8Encode_eq (msg : Text) : msg.utf8Encode = (encode msg).toByteArray := rfl

theorem utf8 : Codec encode decode where
  decodes msg := by
    unfold decode
    rw [← utf8Encode_eq, List.utf8Decode?_utf8Encode]
    rfl
  encodes {chunk msg} taken := by
    unfold decode at taken
    obtain ⟨chars, found, rfl⟩ := Option.map_eq_some_iff.mp taken
    obtain ⟨l, eq⟩ := ByteArray.isSome_utf8Decode?_iff.mp (Option.isSome_of_eq_some found)
    rw [eq, List.utf8Decode?_utf8Encode] at found
    cases found
    exact List.toByteArray_inj.mp eq

variable {fails : Nat → Bool} {chunks : List Chunk} {texts : List Text}

theorem clientHandler_decoded {chunk : Chunk} {msg : Text} (decoded : decode chunk = some msg) :
    clientHandler fails (chunk :: chunks) =
      msg :: if lastText msg || fails 0 then []
        else clientHandler (fun k => fails (k + 1)) chunks := by
  rw [clientHandler, decoded]

theorem clientHandler_undecodable {chunk : Chunk} (undecodable : decode chunk = none) :
    clientHandler fails (chunk :: chunks) = [] := by
  rw [clientHandler, undecodable]

/-- With all texts taken the chunks begin with their encodings. -/
theorem clientHandler_front (taken : clientHandler fails chunks = texts) :
    texts.map encode <+: chunks ∧ Stays fails texts := by
  induction chunks generalizing fails texts with
  | nil =>
    subst taken
    exact ⟨List.nil_prefix, fun k msg at_k _ => by simp [clientHandler] at at_k⟩
  | cons chunk chunks ih =>
    cases found : decode chunk with
    | none =>
      rw [clientHandler_undecodable found] at taken
      subst taken
      exact ⟨List.nil_prefix, fun k msg at_k _ => by simp at at_k⟩
    | some msg =>
      rw [clientHandler_decoded found] at taken
      have first : chunk = encode msg := utf8.encodes found
      by_cases leaves : (lastText msg || fails 0) = true
      · rw [if_pos leaves] at taken
        subst taken
        refine ⟨⟨chunks, by rw [first]; rfl⟩, fun k msg at_k inside => ?_⟩
        exact absurd inside (by simp)
      · rw [if_neg leaves] at taken
        subst taken
        obtain ⟨⟨rest, eq⟩, stays⟩ := ih rfl
        refine ⟨⟨rest, ?_⟩, fun k msg at_k inside => ?_⟩
        · rw [first, List.map_cons, List.cons_append, eq]
        cases k with
        | zero =>
          cases at_k
          exact Bool.not_eq_true _ ▸ leaves
        | succ k => exact stays k msg at_k (Nat.lt_of_succ_lt_succ inside)

theorem clientHandler_map (stays : Stays fails texts) :
    clientHandler fails (texts.map encode) = texts := by
  induction texts generalizing fails with
  | nil => rfl
  | cons msg texts ih =>
    have rest : clientHandler (fun k => fails (k + 1)) (texts.map encode) = texts :=
      ih (fun k msg at_k inside => stays (k + 1) msg at_k (Nat.succ_lt_succ inside))
    rw [List.map_cons, clientHandler_decoded (utf8.decodes msg), rest]
    cases texts with
    | nil => simp
    | cons next texts =>
      have here := stays 0 msg rfl (Nat.succ_lt_succ (Nat.succ_pos _))
      rw [here, if_neg Bool.false_ne_true]

/-- The handler takes the texts that the client sends if and only if each `recv` returns
what one `send` sent. -/
theorem segmentation {clock : Nat → Text × Text} {lines : List Text} (fails : Nat → Bool)
    (cut : Cut size ((send clock lines).flatMap encode) chunks) :
    clientHandler fails chunks = send clock lines ↔
      chunks = (send clock lines).map encode ∧ Stays fails (send clock lines) := by
  constructor
  · intro taken
    obtain ⟨front, stays⟩ := clientHandler_front taken
    exact ⟨cut.eq_map front, stays⟩
  · rintro ⟨rfl, stays⟩
    exact clientHandler_map stays

/-- Two lines that one `recv` returns together. -/
theorem segmentation_hi_yo : ¬ ∀ (clock : Nat → Text × Text) (lines : List Text)
    (chunks : List Chunk), Cut size ((send clock lines).flatMap encode) chunks →
      clientHandler (fun _ => false) chunks = send clock lines := by
  intro law
  have cut : Cut size ((send (fun _ => ([], [])) ["hi".toList, "yo".toList]).flatMap encode)
      [encode "hiyo".toList] := ⟨by decide, by decide⟩
  have whole := law _ _ _ cut
  simp only [clientHandler, utf8.decodes] at whole
  exact absurd whole (by decide)

/-- The same lines, each in a chunk of its own. -/
theorem segmentation_hi_then_yo :
    clientHandler (fun _ => false) [encode "hi".toList, encode "yo".toList] =
      send (fun _ => ([], [])) ["hi".toList, "yo".toList] := by
  have cut : Cut size ((send (fun _ => ([], [])) ["hi".toList, "yo".toList]).flatMap encode)
      [encode "hi".toList, encode "yo".toList] := ⟨by decide, by decide⟩
  apply (segmentation (fun _ => false) cut).mpr
  constructor
  · decide
  · intro k msg at_k inside
    have first : k = 0 := by
      have short : (send (fun _ => ([], [])) ["hi".toList, "yo".toList]).length = 2 := by decide
      omega
    subst first
    cases at_k
    decide

/-! ## The loop in the server -/

/-- What the handler of `client` has taken from `chunks`, and which it has not received
yet, while other threads run. -/
inductive Reads (passcode : Text) (client : Nat) (chunks : List Chunk) :
    Server → List Chunk → List Text → Prop
  | start {s : Server} : s.handler client = .receiving → Reads passcode client chunks s chunks []
  | receive {s : Server} {chunk rest texts} : Reads passcode client chunks s (chunk :: rest) texts →
      s.handler client = .receiving →
      Reads passcode client chunks (s.handlerStep client (decode chunk)) rest
        (texts ++ (decode chunk).toList)
  | next {s : Server} {rest texts} (socket : Option Text) :
      Reads passcode client chunks s rest texts → s.handler client ≠ .receiving →
      Reads passcode client chunks (s.handlerStep client socket) rest texts
  | handler {s : Server} {rest texts} (other : Nat) (socket : Option Text) :
      Reads passcode client chunks s rest texts → other ≠ client →
      Reads passcode client chunks (s.handlerStep other socket) rest texts
  | main {s : Server} {rest texts} (socket : Option Text) :
      Reads passcode client chunks s rest texts → s.main ≠ .starting client →
      Reads passcode client chunks (s.mainStep passcode socket) rest texts

/-- The loop goes on after each of the texts, and `rest` is left. -/
inductive Handled (chunks : List Chunk) : List Chunk → List Text → Prop
  | none : Handled chunks chunks []
  | more {chunk rest texts msg} : Handled chunks (chunk :: rest) texts → decode chunk = some msg →
      lastText msg = false → Handled chunks rest (texts ++ [msg])

theorem Handled.taken {rest : List Chunk} (handled : Handled chunks rest texts)
    (later : Nat → Bool) : ∃ fails, clientHandler fails chunks = texts ++
    clientHandler later rest := by
  induction handled generalizing later with
  | none => exact ⟨later, rfl⟩
  | @more chunk rest texts msg _ decoded goes ih =>
    obtain ⟨fails, eq⟩ := ih (fun k => k.casesOn false later)
    refine ⟨fails, ?_⟩
    rw [eq, clientHandler_decoded decoded, goes, List.append_assoc]
    rfl

/-- The round with the last of the texts is not over. -/
def InHand (chunks rest : List Chunk) (texts : List Text) (msg : Text) : Prop :=
  ∃ chunk before, decode chunk = some msg ∧ Handled chunks (chunk :: rest) before ∧
    texts = before ++ [msg]

theorem InHand.ends {rest : List Chunk} {msg : Text} (here : InHand chunks rest texts msg) :
    ∃ fails, clientHandler fails chunks = texts := by
  obtain ⟨chunk, before, decoded, handled, rfl⟩ := here
  obtain ⟨fails, eq⟩ := handled.taken (fun _ => true)
  refine ⟨fails, ?_⟩
  rw [eq, clientHandler_decoded decoded, Bool.or_true, if_pos rfl]

theorem InHand.handled {rest : List Chunk} {msg : Text} (here : InHand chunks rest texts msg)
    (goes : lastText msg = false) : Handled chunks rest texts := by
  obtain ⟨chunk, before, decoded, handled, rfl⟩ := here
  exact handled.more decoded goes

/-- How far the loop has come, by where the handler is. -/
def Account (chunks rest : List Chunk) (texts : List Text) : HandlerPc → Prop
  | .absent => False
  | .receiving => Handled chunks rest texts
  | .received msg => InHand chunks rest texts msg
  | .searching .. | .directing .. | .reporting | .printing _ | .naming _ | .broadcasting .. =>
    ∃ msg, InHand chunks rest texts msg ∧ lastText msg = false
  | _ => ∃ fails, clientHandler fails chunks = texts

variable {s : Server} {client : Nat} {rest : List Chunk}

theorem lastText_dispatch (msg : Text) : (lastText msg = true ∧ ∃ tried, s.dispatch msg =
    .testing tried) ∨
    (lastText msg = false ∧ ((∃ receiver text, s.dispatch msg =
    .searching receiver text 0 s.usernames.length) ∨
      s.dispatch msg = .printing msg)) := by
  by_cases exit : msg = disconnectMessage
  · refine .inl ⟨?_, true, ?_⟩
    · rw [lastText, decide_eq_true exit, Bool.true_or]
    · rw [Server.dispatch, if_pos exit]
  rw [lastText, Server.dispatch, if_neg exit, decide_eq_false exit, Bool.false_or]
  by_cases direct : ":dm".toList <:+: msg
  · rw [if_pos direct, decide_eq_true direct, Bool.true_and]
    rcases msg.splitOn ' ' with _ | ⟨first, _ | ⟨receiver, _ | ⟨word, words⟩⟩⟩
    · exact .inl ⟨rfl, false, rfl⟩
    · exact .inl ⟨rfl, false, rfl⟩
    · exact .inl ⟨rfl, false, rfl⟩
    · exact .inr ⟨by simp, .inl ⟨receiver, _, rfl⟩⟩
  · rw [if_neg direct, decide_eq_false direct, Bool.false_and]
    exact .inr ⟨rfl, .inr rfl⟩

theorem Account.raised {tried : Bool} (left : ∃ fails, clientHandler fails chunks = texts) :
    Account chunks rest texts (Server.raised tried) := by
  cases tried with
  | false => exact left
  | true => exact left

/-- A statement in a round goes on with it, ends it or raises. -/
theorem Account.step {socket : Option Text} (account : Account chunks rest texts (s.handler client))
    (inside : s.handler client ≠ .receiving) :
    Account chunks rest texts ((s.handlerStep client socket).handler client) := by
  unfold Server.handlerStep
  cases at_pc : s.handler client with
  | absent =>
    rw [at_pc] at account
    exact account.elim
  | receiving => exact absurd at_pc inside
  | received msg =>
    rw [at_pc] at account
    simp only [Server.setHandler_handler]
    obtain ⟨_, tried, eq⟩ | ⟨goes, ⟨receiver, text, eq⟩ | eq⟩ := lastText_dispatch (s := s) msg
    · rw [eq]
      exact InHand.ends account
    · rw [eq]
      exact ⟨msg, account, goes⟩
    · rw [eq]
      exact ⟨msg, account, goes⟩
  | searching receiver text i n =>
    rw [at_pc] at account
    obtain ⟨msg, here, goes⟩ := account
    simp only [Server.setHandler_handler]
    split
    · split
      · split
        · exact ⟨msg, here, goes⟩
        · exact ⟨msg, here, goes⟩
      · exact here.ends
    · exact here.handled goes
  | directing receiver text i =>
    rw [at_pc] at account
    obtain ⟨msg, here, goes⟩ := account
    simp only [Server.setHandler_handler]
    split
    · exact ⟨msg, here, goes⟩
    · exact here.ends
  | reporting =>
    rw [at_pc] at account
    obtain ⟨msg, here, goes⟩ := account
    simp only [Server.setHandler_handler]
    split
    · exact here.handled goes
    · exact here.ends
  | printing text =>
    rw [at_pc] at account
    obtain ⟨msg, here, goes⟩ := account
    simp only [Server.setHandler_handler]
    split
    · exact ⟨msg, here, goes⟩
    · exact here.ends
  | naming text =>
    rw [at_pc] at account
    obtain ⟨msg, here, goes⟩ := account
    simp only [Server.setHandler_handler]
    cases s.label client with
    | none => exact here.ends
    | some name => exact ⟨msg, here, goes⟩
  | broadcasting text i =>
    rw [at_pc] at account
    obtain ⟨msg, here, goes⟩ := account
    simp only [Server.setHandler_handler]
    split
    · exact here.handled goes
    · split
      · exact ⟨msg, here, goes⟩
      · exact here.ends
  | testing tried =>
    rw [at_pc] at account
    simp only [Server.setHandler_handler]
    split
    · exact account
    · exact account
  | indexing tried =>
    rw [at_pc] at account
    simp only [Server.setHandler_handler]
    cases s.clients.idxOf? client with
    | none => exact Account.raised account
    | some index => exact account
  | removing tried index =>
    rw [at_pc] at account
    dsimp only
    split
    · simp only [Server.setHandler_handler]
      exact account
    · simp only [Server.setHandler_handler]
      exact Account.raised account
  | reading tried index =>
    rw [at_pc] at account
    simp only [Server.setHandler_handler]
    cases s.usernames[index]? with
    | none => exact Account.raised account
    | some username => exact account
  | unnaming tried username =>
    rw [at_pc] at account
    dsimp only
    split
    · simp only [Server.setHandler_handler]
      exact account
    · simp only [Server.setHandler_handler]
      exact Account.raised account
  | announcing tried text i =>
    rw [at_pc] at account
    simp only [Server.setHandler_handler]
    split
    · exact account
    · split
      · exact account
      · exact Account.raised account
  | finished =>
    rw [at_pc] at account
    dsimp only
    rw [at_pc]
    exact account

/-- The statements of the other threads leave the handler where it is. -/
theorem Reads.account {passcode : Text} (reads : Reads passcode client chunks s rest texts) :
    Account chunks rest texts (s.handler client) := by
  induction reads with
  | start here =>
    rw [here]
    exact .none
  | @receive s chunk rest texts _ here ih =>
    rw [here] at ih
    rw [Server.handlerStep, here]
    simp only [Server.setHandler_handler]
    cases decoded : decode chunk with
    | none =>
      obtain ⟨fails, eq⟩ := Handled.taken ih (fun _ => false)
      rw [clientHandler_undecodable decoded] at eq
      exact ⟨fails, eq⟩
    | some msg => exact ⟨chunk, texts, decoded, ih, rfl⟩
  | next socket _ inside ih => exact ih.step inside
  | handler other socket _ ne ih =>
    rw [handlerStep_other ne]
    exact ih
  | main socket _ ne ih =>
    rw [mainStep_handler ne]
    exact ih

/-- What a handler has taken when it has no chunk left to receive, or when it has left, is
what the loop takes, whatever the other threads did. -/
theorem reads_clientHandler {passcode : Text} (reads : Reads passcode client chunks s rest texts)
    (ended : s.handler client = .receiving ∧ rest = [] ∨ s.handler client = .finished) :
    ∃ fails, clientHandler fails chunks = texts := by
  have account := reads.account
  obtain ⟨here, rfl⟩ | left := ended
  · rw [here] at account
    obtain ⟨fails, eq⟩ := Handled.taken account (fun _ => false)
    exact ⟨fails, eq.trans (List.append_nil texts)⟩
  · rw [left] at account
    exact account

end SystemsProjects.Chat
