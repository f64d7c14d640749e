import Itch.Soup.Completion
import Itch.Tcp.Client

/-!
# The client on SoupBinTCP

The client calls `next_message` of a reconnecting client again and again and prints what it
gets.  It exits when the user interrupts it, when a message or the server says that there is no
more, when the login is rejected, and when it cannot print.  Every other error is left to the
reconnecting client.

So an exit with success that the user has not asked for means one of three things: nobody reads
the output any more, the last line printed was the end of the messages, or everything the store
had from the first login on was printed.
-/

namespace Itch

open Lib

namespace SoupClient

/-- The configuration of the client. -/
def config (username password : Text) : ResilientSoupConfig where
  username := username
  password := password
  requestedSession := none
  initialSequence := 0
  maxAttempts := none

/-- The branch that `select!` takes in a turn of the loop: the user interrupts it, or the call
has a result. -/
inductive Selected where
  | ctrlC
  | next (result : Option (Except SoupError Message))
deriving Repr, DecidableEq

/-- The exit code, if the loop ends with the turn. -/
def exitCode (write : Message → WriteResult) : Selected → Option Nat
  | .ctrlC => some 0
  | .next (some (.ok msg)) =>
      match write msg with
      | .written => if endsMessages msg then some 0 else none
      | .brokenPipe => some 0
      | .failed => some 4
  | .next (some (.error (.protocol _))) => none
  | .next (some (.error .sessionEnded)) => some 0
  | .next (some (.error (.loginRejected _))) => some 6
  -- the reconnecting client connects again
  | .next (some (.error _)) => none
  | .next none => some 0

/-- What is printed in the turn. -/
def printedOf (write : Message → WriteResult) : Selected → List Message
  | .next (some (.ok msg)) => if write msg = .written then [msg] else []
  | _ => []

/-- The loop: the exit code, `none` if it goes on, and what is printed. -/
def runSoup (write : Message → WriteResult) : List Selected → Option Nat × List Message
  | [] => (none, [])
  | turn :: turns =>
      match exitCode write turn with
      | some code => (some code, printedOf write turn)
      | none => ((runSoup write turns).1, printedOf write turn ++ (runSoup write turns).2)

variable {write : Message → WriteResult} {turn : Selected} {turns : List Selected} {code : Nat}

/-- The message of a turn. -/
def Selected.message : Selected → Option Message
  | .next (some (.ok msg)) => some msg
  | _ => none

/-- The messages of the turns. -/
def messagesOf (turns : List Selected) : List Message :=
  turns.filterMap Selected.message

/-- A message with which the loop goes on is printed. -/
theorem printedOf_of_goesOn (h : exitCode write turn = none) :
    printedOf write turn = messagesOf [turn] := by
  rcases turn with _ | _ | e | msg
  · rfl
  · rfl
  · rfl
  · cases hwrite : write msg with
    | written => simp [printedOf, hwrite, messagesOf, Selected.message]
    | brokenPipe => simp [exitCode, hwrite] at h
    | failed => simp [exitCode, hwrite] at h

theorem messagesOf_append (turns turns' : List Selected) :
    messagesOf (turns ++ turns') = messagesOf turns ++ messagesOf turns' :=
  List.filterMap_append

theorem messagesOf_cons : messagesOf (turn :: turns) = messagesOf [turn] ++ messagesOf turns :=
  messagesOf_append [turn] turns

/-- The loop goes on as long as every turn lets it, and then prints all messages. -/
theorem runSoup_of_goesOn (h : ∀ turn ∈ turns, exitCode write turn = none) :
    runSoup write turns = (none, messagesOf turns) := by
  induction turns with
  | nil => rfl
  | cons turn turns ih =>
      have hhead := h turn List.mem_cons_self
      rw [runSoup, hhead, messagesOf_cons, ← printedOf_of_goesOn hhead,
        ih fun t ht => h t (List.mem_cons_of_mem _ ht)]

/-- A loop that ends does so with the first turn that makes it. -/
theorem runSoup_eq_some (h : (runSoup write turns).1 = some code) :
    ∃ before turn after, turns = before ++ turn :: after ∧
      exitCode write turn = some code ∧ (∀ t ∈ before, exitCode write t = none) ∧
      (runSoup write turns).2 = messagesOf before ++ printedOf write turn := by
  induction turns with
  | nil => cases h
  | cons turn turns ih =>
      rw [runSoup] at h ⊢
      cases hcode : exitCode write turn with
      | some code' =>
          simp only [hcode, Option.some_inj] at h
          exact ⟨[], turn, turns, rfl, by rw [hcode, h], by simp, rfl⟩
      | none =>
          simp only [hcode] at h
          obtain ⟨before, turn', after, rfl, hexit, hbefore, hprinted⟩ := ih h
          refine ⟨turn :: before, turn', after, rfl, hexit, ?_, ?_⟩
          · rintro t (_ | ⟨_, ht⟩)
            · exact hcode
            · exact hbefore t ht
          · dsimp only
            rw [hprinted, messagesOf_cons, printedOf_of_goesOn hcode, List.append_assoc]

theorem runSoup_eq_none (h : (runSoup write turns).1 = none) :
    ∀ turn ∈ turns, exitCode write turn = none := by
  induction turns with
  | nil => exact fun _ ht => absurd ht List.not_mem_nil
  | cons turn turns ih =>
      rw [runSoup] at h
      cases hcode : exitCode write turn with
      | some code' => simp [hcode] at h
      | none =>
          simp only [hcode] at h
          rintro t (_ | ⟨_, ht⟩)
          · exact hcode
          · exact ih h t ht

/-- The turn that ends the loop is found in one place only. -/
theorem first_exit_unique {before before' after after' : List Selected} {turn' : Selected}
    (h : before ++ turn :: after = before' ++ turn' :: after')
    (hbefore : ∀ t ∈ before, exitCode write t = none) (hexit : exitCode write turn ≠ none)
    (hbefore' : ∀ t ∈ before', exitCode write t = none) (hexit' : exitCode write turn' ≠ none) :
    before = before' ∧ turn = turn' := by
  induction before generalizing before' with
  | nil =>
      cases before' with
      | nil => exact ⟨rfl, (List.cons.inj h).1⟩
      | cons t before' =>
          have ht := hbefore' t List.mem_cons_self
          rw [← (List.cons.inj h).1] at ht
          exact absurd ht hexit
  | cons t before ih =>
      cases before' with
      | nil =>
          have ht := hbefore t List.mem_cons_self
          rw [(List.cons.inj h).1] at ht
          exact absurd ht hexit'
      | cons t' before' =>
          obtain ⟨rfl, htail⟩ := List.cons.inj h
          obtain ⟨rfl, hsame⟩ := ih htail (fun x hx => hbefore x (List.mem_cons_of_mem _ hx))
            fun x hx => hbefore' x (List.mem_cons_of_mem _ hx)
          exact ⟨rfl, hsame⟩

/-- What is printed is a beginning of the messages. -/
theorem runSoup_le (write : Message → WriteResult) (turns : List Selected) :
    (runSoup write turns).2 <+: messagesOf turns := by
  have hhead : ∀ turn, printedOf write turn <+: messagesOf [turn] := by
    intro turn
    rcases turn with _ | _ | e | msg
    · exact List.nil_prefix
    · exact List.nil_prefix
    · exact List.nil_prefix
    · rw [printedOf]
      split
      next => exact List.prefix_refl _
      next => exact List.nil_prefix
  induction turns with
  | nil => exact List.nil_prefix
  | cons turn turns ih =>
      rw [runSoup, messagesOf_cons]
      cases hcode : exitCode write turn with
      | some code => exact (hhead turn).trans (List.prefix_append _ _)
      | none =>
          rw [← printedOf_of_goesOn hcode]
          exact (List.prefix_append_right_inj _).mpr ih

end SoupClient

namespace Net

open SoupClient

variable {σ : Type}

/-- The turns that the results of the calls so far make. -/
def calls (net : Net σ) : List Selected :=
  net.returned.map fun result => .next (some result)

/-- The turns of the loop so far, with an interrupt after them or not.  A client that has given
up returns nothing more. -/
def turns (net : Net σ) (interrupted : Bool) : List Selected :=
  net.calls ++ (if net.client.terminated then [.next none] else []) ++
    if interrupted then [.ctrlC] else []

/-- Every result but the last let the loop go on. -/
def Called (write : Message → WriteResult) (net : Net σ) : Prop :=
  ∀ turn ∈ net.calls.dropLast, exitCode write turn = none

instance (write : Message → WriteResult) (net : Net σ) : Decidable (Called write net) :=
  inferInstanceAs (Decidable (∀ turn ∈ net.calls.dropLast, exitCode write turn = none))

theorem messagesOf_calls (net : Net σ) : messagesOf net.calls = net.messages := by
  rw [messagesOf, calls, List.filterMap_map]
  refine List.filterMap_congr fun result _ => ?_
  cases result <;> rfl

theorem messagesOf_turns (net : Net σ) (interrupted : Bool) :
    messagesOf (net.turns interrupted) = net.messages := by
  have hnone : messagesOf (if net.client.terminated then [Selected.next none] else []) = [] := by
    split <;> rfl
  have hctrlC : messagesOf (if interrupted then [Selected.ctrlC] else []) = [] := by
    split <;> rfl
  rw [turns, messagesOf_append, messagesOf_append, hnone, hctrlC, List.append_nil,
    List.append_nil, messagesOf_calls]

/-! ## When the client gives up -/

/-- The client has given up only after its login was rejected. -/
def Rejected (net : Net σ) : Prop :=
  net.client.terminated = true → ∃ reason, .error (.loginRejected reason) ∈ net.returned

variable {net net' : Net σ} {link link' : Link σ} {username password : Text}
  {item : Option (Except SoupError SoupPacket)}

theorem Rejected.attemptFailed {e : SoupError} (h : ∀ a b, e ≠ .sessionMismatch a b) :
    (net.attemptFailed (config username password) e).Rejected := by
  intro hterminated
  simp only [Net.attemptFailed, ResilientSoupClient.attemptFailed, config, Option.any_none,
    Bool.or_false] at hterminated ⊢
  cases e with
  | loginRejected reason => exact ⟨reason, by cases reason <;> simp [ResilientSoupClient.isFatal]⟩
  | sessionMismatch a b => exact absurd rfl (h a b)
  | _ => cases hterminated

/-- A session is not asked for, so it cannot be the wrong one. -/
theorem onReplyItem_ne_sessionMismatch {e : SoupError}
    (hitem : ∀ e, item = some (.error e) → e = .io)
    (h : SoupConnection.onReplyItem [] item = some (.error e)) (a b : Text) :
    e ≠ .sessionMismatch a b := by
  rintro rfl
  rcases item with _ | e | p
  · cases h
  · obtain rfl := hitem e rfl
    cases h
  · cases p <;> cases h

/-- What a connection reports once the login is through is not fatal. -/
theorem pollNext_not_fatal {conn conn' : SoupConnection} {e : SoupError}
    (hitem : ∀ e, item = some (.error e) → e = .io)
    (h : conn.pollNext item = (some (some (.error e)), conn')) :
    ResilientSoupClient.isFatal e = false := by
  unfold SoupConnection.pollNext at h
  split at h
  next => cases h
  next =>
    rcases item with _ | e' | p
    · cases h
    · cases h
      rw [hitem e rfl]
      rfl
    · cases p with
      | sequencedData payload =>
          simp only [SoupConnection.onPacket, SoupConnection.deliverSequenced] at h
          split at h
          next =>
            cases h
            rfl
          next => cases h
      | serverHeartbeat => cases h
      | debug text => cases h
      | _ =>
          cases h
          rfl

theorem Rejected.onResult {conn : SoupConnection} {result : Option (Except SoupError Message)}
    (h : net.Rejected)
    (hfatal : ∀ e, result = some (.error e) → ResilientSoupClient.isFatal e = false) :
    (net.onResult link conn result).Rejected := by
  intro hterminated
  have hsame : (net.onResult link conn result).client.terminated = net.client.terminated := by
    rcases result with _ | e | msg
    · rfl
    · have hno := hfatal e rfl
      cases e <;> simp_all [Net.onResult, ResilientSoupClient.onResult]
    · rfl
  obtain ⟨reason, hmem⟩ := h (hsame.symm.trans hterminated)
  exact ⟨reason, List.mem_append_left _ hmem⟩

theorem Rejected.poll {framed : Framed} (h : net.Rejected)
    (hitem : ∀ e, item = some (.error e) → e = .io) :
    (net.poll (config username password) { link with framed := framed } item).Rejected := by
  unfold Net.poll
  split
  next =>
    split
    next => exact h
    next e hreply => exact .attemptFailed (onReplyItem_ne_sessionMismatch hitem hreply)
    next => exact h
  next conn hconn =>
    split
    next => exact h
    next result conn' hpoll =>
      refine h.onResult ?_
      rintro e rfl
      exact pollNext_not_fatal hitem hpoll

variable [LawfulSeqStore σ] {cfg : ServerConfig} {first : σ} {start : Nat}

open LawfulSeqStore (view latestSeq)

/-- The only error of the socket is that of the connection. -/
theorem Inv.error_eq_io {atEnd : Bool} {framed : Framed} (hinv : net.Inv cfg first start)
    (hlink : net.link = some link) (hpoll : link.framed.poll atEnd = some (item, framed)) :
    ∀ e, item = some (.error e) → e = .io := by
  have hfits := (hinv.link link hlink).sound.sends.fits
  have hqueued : ∃ j, link.Queued j := by
    cases hinv.progress link hlink with
    | handshake _ _ hqueued => exact ⟨0, hqueued⟩
    | following _ hfollow => exact ⟨_, hfollow.queued⟩
  obtain ⟨j, hqueued⟩ := hqueued
  rintro e rfl
  rcases hqueued.poll hfits hpoll with (hnone | hio) | ⟨p, -, hok, -⟩
  · cases hnone
  · cases hio
    rfl
  · cases hok

theorem Rejected.step {action : NetAction} (h : net.Rejected) (hinv : net.Inv cfg first start)
    (hstep : net.step cfg (config username password) action = some net') : net'.Rejected := by
  have honLink : ∀ f, net.onLink f = some net' → net'.Rejected := by
    intro f hf
    obtain ⟨link, link', -, -, rfl⟩ := onLink_eq_some hf
    exact h
  cases action with
  | ingest action =>
      obtain ⟨srv, -, rfl⟩ := Option.map_eq_some_iff.mp hstep
      exact h
  | connect =>
      rw [Net.step] at hstep
      split at hstep
      next => cases hstep
      next =>
        cases hstep
        exact h
  | connectFails =>
      rw [Net.step] at hstep
      split at hstep
      next => cases hstep
      next =>
        cases hstep
        exact .attemptFailed (by rintro _ _ ⟨⟩)
  | clientRead atEnd =>
      obtain ⟨link, hlink, hmap⟩ := Option.bind_eq_some_iff.mp hstep
      obtain ⟨⟨item, framed⟩, hpoll, rfl⟩ := Option.map_eq_some_iff.mp hmap
      exact h.poll (hinv.error_eq_io hlink hpoll)
  | clientReset =>
      obtain ⟨link, -, rfl⟩ := Option.map_eq_some_iff.mp hstep
      exact h.poll (by
        rintro e ⟨⟩
        rfl)
  | loginTimeout =>
      obtain ⟨link, -, hif⟩ := Option.bind_eq_some_iff.mp hstep
      split at hif
      next =>
        cases hif
        exact .attemptFailed (by rintro _ _ ⟨⟩)
      next => cases hif
  | _ => exact honLink _ hstep

/-! ## What the exit code tells -/

/-- What an exit code tells about what was printed; `none` if the client still runs. -/
def Tells (write : Message → WriteResult) (interrupted : Bool) (net : Net σ)
    (printed : List Message) : Option Nat → Prop
  | none => printed = net.messages
  | some 0 => (∃ m ∈ net.messages, write m = .brokenPipe) ∨
      (∃ m, printed.getLast? = some m ∧ endsMessages m = true) ∨
      (printed = net.messages ∧ (interrupted = true ∨ net.HasAll))
  | some 4 => ∃ m ∈ net.messages, write m = .failed
  | some 6 => ∃ reason, .error (.loginRejected reason) ∈ net.returned
  | some _ => False

variable {write : Message → WriteResult} {code : Nat} {interrupted : Bool}

omit [LawfulSeqStore σ] in
/-- The loop does not outlive a client that has given up. -/
theorem Rejected.exits (h : net.Rejected) (hterminated : net.client.terminated = true) :
    ∃ turn ∈ net.calls, exitCode write turn ≠ none := by
  obtain ⟨reason, hmem⟩ := h hterminated
  exact ⟨_, List.mem_map_of_mem hmem, Option.some_ne_none 6⟩

omit [LawfulSeqStore σ] in
/-- If a result ends the loop, it is the last one. -/
theorem Called.eq_of_exit (hcalled : Called write net) {last turn : Selected}
    (hlast : last ∈ net.calls) (hexits : exitCode write last ≠ none) {before after : List Selected}
    (hturns : net.turns interrupted = before ++ turn :: after)
    (hexit : exitCode write turn ≠ none) (hbefore : ∀ t ∈ before, exitCode write t = none) :
    net.calls = before ++ [turn] := by
  have hne : net.calls ≠ [] := List.ne_nil_of_mem hlast
  have hsplit := List.dropLast_append_getLast hne
  have heq : net.calls.getLast hne = last := by
    rw [← hsplit] at hlast
    rcases List.mem_append.mp hlast with hinit | htail
    · exact absurd (hcalled last hinit) hexits
    · exact (List.mem_singleton.mp htail).symm
  rw [heq] at hsplit
  rw [turns, ← hsplit, List.append_assoc, List.append_assoc] at hturns
  obtain ⟨hsame, rfl⟩ := first_exit_unique hturns hcalled hexits hbefore hexit
  rw [← hsame, hsplit]

omit [LawfulSeqStore σ] in
/-- If no result ends the loop, only the interrupt does. -/
theorem Rejected.eq_of_interrupt (hrejected : net.Rejected)
    (hgoes : ∀ t ∈ net.calls, exitCode write t = none) {turn : Selected}
    {before after : List Selected}
    (hturns : net.turns interrupted = before ++ turn :: after)
    (hexit : exitCode write turn ≠ none) (hbefore : ∀ t ∈ before, exitCode write t = none) :
    interrupted = true ∧ turn = .ctrlC ∧ before = net.calls := by
  have hnot : ¬ net.client.terminated = true := by
    intro hterminated
    obtain ⟨t, ht, hexits⟩ := @Rejected.exits σ net write hrejected hterminated
    exact hexits (hgoes t ht)
  rw [turns, if_neg hnot, List.append_nil] at hturns
  cases interrupted with
  | false =>
      have hmem : turn ∈ net.calls := by
        rw [← List.append_nil net.calls]
        exact hturns ▸ List.mem_append_right _ List.mem_cons_self
      exact absurd (hgoes turn hmem) hexit
  | true =>
      obtain ⟨hsame, rfl⟩ :=
        first_exit_unique hturns hgoes (Option.some_ne_none 0) hbefore hexit
      exact ⟨rfl, rfl, hsame.symm⟩

/-- What the exit code says of the last result. -/
theorem tells_of_exit {turn : Selected} {before : List Selected}
    (hcalls : net.calls = before ++ [turn])
    (htold : .error .sessionEnded ∈ net.returned → net.HasAll)
    (hexit : exitCode write turn = some code) :
    Tells write interrupted net (messagesOf before ++ printedOf write turn) (some code) := by
  obtain ⟨last, hmem, rfl⟩ : ∃ last ∈ net.returned, Selected.next (some last) = turn := by
    refine List.mem_map.mp ?_
    change turn ∈ net.calls
    rw [hcalls]
    exact List.mem_append_right _ List.mem_cons_self
  have hmessages : net.messages = messagesOf before ++ messagesOf [.next (some last)] := by
    rw [← messagesOf_append, ← hcalls, messagesOf_calls]
  cases last with
  | error e =>
      cases e with
      | sessionEnded =>
          cases hexit
          exact .inr (.inr ⟨hmessages.symm, .inr (htold hmem)⟩)
      | loginRejected reason =>
          cases hexit
          exact ⟨reason, hmem⟩
      | _ => cases hexit
  | ok msg =>
      have hmsg : msg ∈ net.messages := by
        rw [hmessages]
        exact List.mem_append_right _ List.mem_cons_self
      simp only [exitCode] at hexit
      cases hwrite : write msg with
      | written =>
          simp only [hwrite] at hexit
          split at hexit
          next hend =>
            cases hexit
            refine .inr (.inl ⟨msg, ?_, hend⟩)
            rw [printedOf, if_pos hwrite, List.getLast?_concat]
          next => cases hexit
      | brokenPipe =>
          simp only [hwrite] at hexit
          cases hexit
          exact .inl ⟨msg, hmsg, hwrite⟩
      | failed =>
          simp only [hwrite] at hexit
          cases hexit
          exact ⟨msg, hmsg, hwrite⟩

/-- An interrupt leaves nothing out that was returned. -/
theorem tells_of_interrupt (hinterrupted : interrupted = true) :
    Tells write interrupted net (messagesOf net.calls ++ printedOf write .ctrlC) (some 0) := by
  have hprinted : messagesOf net.calls ++ printedOf write .ctrlC = net.messages := by
    rw [messagesOf_calls]
    exact List.append_nil _
  exact .inr (.inr ⟨hprinted, .inl hinterrupted⟩)

/-- A message is stored while the client is connected, then the channel is closed. -/
def followToEnd : List NetAction :=
  dial ++ [.proceed, .proceed, .warmup, .proceed] ++
    [.ingest (.store (emptyEvent .startOfMessages) false), .ingest .broadcast, .ingest .close] ++
    [.proceed, .proceed, .download 128, .clientRead false, .clientRead false, .clientRead false]

end Net

end Itch
