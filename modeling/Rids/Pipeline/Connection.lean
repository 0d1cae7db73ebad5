import Rids.Lib.Lines
import Rids.Pipeline.RuleCommand
import Rids.Pipeline.RuleText

/-!
# Which lines are executed (`conn.c`, `cli.c`)

Commands come from a script, read by `fgets`, or from a client, read in chunks by
`data_event_handle`. Both buffers take 1024 characters, the one of a script with the newline. A
line that does not fit is cut: `fgets` returns it in parts, and `data_event_handle` drops what it
has and the character that does not fit, and goes on in the middle of the line. What is handed on
is a C string, which ends at the first NUL.

A write to the client that fails leaves the loop of `data_event_handle`: the rest of the chunk is
not read, and the message is kept.

* `handed_eq_fed` — while no write that fails leaves anything behind (`Kept`), a connection
  depends neither on the chunking nor on the writes.
* `scriptLines_eq_iff`, `fed_eq_iff` — when what is handed over is the short lines and nothing
  else.
* `wholeLines_iff` — the two together.
-/

namespace Rids.Pipeline

open Rids.Lib.Lines

/-- A string is read to its end when it has no NUL. -/
theorem cString_eq_self_iff {buffer : List Char} : cString buffer = buffer ↔ '\x00' ∉ buffer := by
  rw [cString, List.takeWhile_eq_self_iff]
  constructor
  · intro h hnul
    exact absurd (h _ hnul) (by decide)
  · intro h c hc
    rw [decide_eq_true_eq]
    rintro rfl
    exact h hc

/-! ### A connection -/

/-- `msg_in` up to `msg_in_len`; what was handed to `msg_handle`, and how many writes there were. -/
structure Conn where
  msgIn : List Char := []
  handed : List (List Char) := []
  nWrites : ℕ := 0

/-- The world of a connection: whether `msg_handle` replies to the last of the strings handed to
it, and whether write number `k` to the client succeeds. -/
structure ConnWorld where
  replies : List (List Char) → Bool
  writes : ℕ → Bool

variable (world : ConnWorld)

/-- Source: `conn.c`, `write(fd_client, ..)`. Kind: D -/
def Conn.write (conn : Conn) : Bool × Conn :=
  (world.writes conn.nWrites, { conn with nWrites := conn.nWrites + 1 })

/-- The message is ended by a NUL and handed on as a C string.
Source: `conn.c`, `conn->msg_handle(conn->msg_in, ..)`. Kind: D -/
def Conn.hand (conn : Conn) : Conn := { conn with handed := conn.handed ++ [cString conn.msgIn] }

/-- Source: `conn.c`, `conn->msg_in_len = 0`. Kind: D -/
def Conn.clear (conn : Conn) : Conn := { conn with msgIn := [] }

/-- The loop over the bytes of a chunk. A write that fails leaves it with the bytes that are in no
message, among them the one that was too many.
Source: `conn.c` `data_event_handle`
Kind: D -/
def handleMessages : Conn → List Char → Except (List Char × Conn) Conn
  | conn, [] => .ok conn
  | conn, c :: buf =>
    if c = '\n' then
      if world.replies conn.hand.handed then
        match conn.hand.write world with
        | (true, conn) => handleMessages conn.clear buf
        | (false, conn) => .error (buf, conn)
      else handleMessages conn.hand.clear buf
    else if conn.msgIn.length < msgInLenMax then
      handleMessages { conn with msgIn := conn.msgIn ++ [c] } buf
    else
      -- "Command too long."
      match conn.write world with
      | (true, conn) => handleMessages conn.clear buf
      | (false, conn) => .error (c :: buf, conn)

/-- The status and the connection after a chunk; after the loop the prompt is written.
Source: `conn.c` `data_event_handle`
Kind: D -/
def dataEventHandle (conn : Conn) (buf : List Char) : Int × Conn :=
  if buf.isEmpty then (0, conn)
  else
    match handleMessages world conn buf with
    | .error (_, conn) => (-1, conn)
    | .ok conn =>
      match conn.write world with
      | (true, conn) => (0, conn)
      | (false, conn) => (-1, conn)

/-- A connection after more chunks of its client. -/
def Conn.run (conn : Conn) (chunks : List (List Char)) : Conn :=
  chunks.foldl (fun conn buf => (dataEventHandle world conn buf).2) conn

/-- The connection with which the loop ends. -/
def connAfter : Except (List Char × Conn) Conn → Conn
  | .error (_, conn) => conn
  | .ok conn => conn

/-- The bytes with which the loop ends. -/
def restAfter : Except (List Char × Conn) Conn → List Char
  | .error (rest, _) => rest
  | .ok _ => []

/-- The bytes of the chunks that are in no message because a write failed. -/
def Conn.unread : Conn → List (List Char) → List Char
  | _, [] => []
  | conn, buf :: chunks =>
    restAfter (handleMessages world conn buf) ++
      Conn.unread (dataEventHandle world conn buf).2 chunks

/-- The write that a byte asks for fails: the reply to the message it ends, or `Command too long`.
-/
def Conn.WriteFails (conn : Conn) (c : Char) : Prop :=
  (if c = '\n' then world.replies conn.hand.handed = true else msgInLenMax ≤ conn.msgIn.length) ∧
    world.writes conn.nWrites = false

instance (conn : Conn) (c : Char) : Decidable (conn.WriteFails world c) :=
  inferInstanceAs (Decidable (_ ∧ _))

/-- The first write of a chunk that fails, if one does, leaves nothing behind that counts: it is
the reply to an empty message whose newline ends the chunk, or no newline follows, in the chunk or
`later`. -/
def Conn.KeptIn (later : List Char) : Conn → List Char → Prop
  | _, [] => True
  | conn, c :: buf =>
    if conn.WriteFails world c then
      c = '\n' ∧ conn.msgIn = [] ∧ buf = [] ∨ '\n' ∉ buf ++ later
    else KeptIn later (connAfter (handleMessages world conn [c])) buf

instance decidableKeptIn (later : List Char) (conn : Conn) (buf : List Char) :
    Decidable (conn.KeptIn world later buf) :=
  match buf with
  | [] => .isTrue trivial
  | c :: buf =>
    have := decidableKeptIn later (connAfter (handleMessages world conn [c])) buf
    inferInstanceAs (Decidable (if conn.WriteFails world c then _ else _))

/-- In every chunk. -/
def Conn.Kept : Conn → List (List Char) → Prop
  | _, [] => True
  | conn, buf :: chunks =>
    conn.KeptIn world chunks.flatten buf ∧ Conn.Kept (dataEventHandle world conn buf).2 chunks

instance decidableKept (conn : Conn) (chunks : List (List Char)) :
    Decidable (conn.Kept world chunks) :=
  match chunks with
  | [] => .isTrue trivial
  | buf :: chunks =>
    have := decidableKept (dataEventHandle world conn buf).2 chunks
    inferInstanceAs (Decidable (_ ∧ _))

/-! ### A stream of bytes -/

/-- What a byte does to the message and to the strings handed over, when the writes succeed. -/
def feed (s : List Char × List (List Char)) (c : Char) : List Char × List (List Char) :=
  if c = '\n' then ([], s.2 ++ [cString s.1])
  else if s.1.length < msgInLenMax then (s.1 ++ [c], s.2)
  else ([], s.2)

/-- The strings that a stream hands over, after the message `msg`. -/
def fed (msg stream : List Char) : List (List Char) := (stream.foldl feed (msg, [])).2

/-- A newline hands the message over. -/
theorem feed_newline (msg : List Char) (handed : List (List Char)) :
    feed (msg, handed) '\n' = ([], handed ++ [cString msg]) := if_pos rfl

/-- A character that fits is appended. -/
theorem feed_of_lt {msg : List Char} {c : Char} (hc : c ≠ '\n') (h : msg.length < msgInLenMax)
    (handed : List (List Char)) : feed (msg, handed) c = (msg ++ [c], handed) := by
  rw [feed, if_neg hc, if_pos h]

/-- A character too many drops the message. -/
theorem feed_of_full {msg : List Char} {c : Char} (hc : c ≠ '\n')
    (h : ¬ msg.length < msgInLenMax) (handed : List (List Char)) :
    feed (msg, handed) c = ([], handed) := by
  rw [feed, if_neg hc, if_neg h]

/-- What was handed over before does not matter to what follows. -/
theorem foldl_feed_snd (msg : List Char) (handed : List (List Char)) (stream : List Char) :
    (stream.foldl feed (msg, handed)).2 = handed ++ fed msg stream := by
  unfold fed
  induction stream generalizing msg handed with
  | nil => exact (List.append_nil handed).symm
  | cons c stream ih =>
    rw [List.foldl_cons, List.foldl_cons]
    by_cases hc : c = '\n'
    · rw [hc, feed_newline, feed_newline, ih, ih [] ([] ++ [cString msg]), List.nil_append,
        List.append_assoc]
    · by_cases hroom : msg.length < msgInLenMax
      · rw [feed_of_lt hc hroom, feed_of_lt hc hroom, ih]
      · rw [feed_of_full hc hroom, feed_of_full hc hroom, ih]

/-- The first newline hands over what precedes it. -/
theorem fed_newline (msg stream : List Char) :
    fed msg ('\n' :: stream) = cString msg :: fed [] stream := by
  rw [fed, List.foldl_cons, feed_newline, foldl_feed_snd]
  rfl

/-- A character that fits belongs to the message. -/
theorem fed_of_lt {msg : List Char} {c : Char} (hc : c ≠ '\n') (h : msg.length < msgInLenMax)
    (stream : List Char) : fed msg (c :: stream) = fed (msg ++ [c]) stream := by
  rw [fed, List.foldl_cons, feed_of_lt hc h, fed]

/-- After a character too many the message begins anew. -/
theorem fed_of_full {msg : List Char} {c : Char} (hc : c ≠ '\n') (h : ¬ msg.length < msgInLenMax)
    (stream : List Char) : fed msg (c :: stream) = fed [] stream := by
  rw [fed, List.foldl_cons, feed_of_full hc h, fed]

/-- A string is handed over at every newline. -/
theorem length_fed (msg stream : List Char) : (fed msg stream).length = stream.count '\n' := by
  induction stream generalizing msg with
  | nil => rfl
  | cons c stream ih =>
    by_cases hc : c = '\n'
    · rw [hc, fed_newline, List.length_cons, ih, List.count_cons_self]
    · rw [List.count_cons_of_ne hc]
      by_cases hroom : msg.length < msgInLenMax
      · rw [fed_of_lt hc hroom, ih]
      · rw [fed_of_full hc hroom, ih]

/-- Without a newline nothing is handed over. -/
theorem foldl_feed_of_notMem {stream : List Char} (h : '\n' ∉ stream) (msg : List Char)
    (handed : List (List Char)) : (stream.foldl feed (msg, handed)).2 = handed := by
  have hnone : fed msg stream = [] := by
    rw [← List.length_eq_zero_iff, length_fed, List.count_eq_zero_of_not_mem h]
  rw [foldl_feed_snd, hnone, List.append_nil]

/-- The message and the strings handed over. -/
def Conn.fedState (conn : Conn) : List Char × List (List Char) := (conn.msgIn, conn.handed)

/-- What a chunk leaves of a connection: the state that its bytes feed, or, after a write that
fails, what the bytes before the rest hand over. The message they leave is empty if there is no
rest: it was handed over by the last of them. -/
def LeavesFed (conn : Conn) (buf : List Char) : Except (List Char × Conn) Conn → Prop
  | .ok conn' => conn'.fedState = buf.foldl feed conn.fedState
  | .error (rest, conn') => ∃ seen, buf = seen ++ rest ∧
      conn'.handed = (seen.foldl feed conn.fedState).2 ∧
      (rest = [] → (seen.foldl feed conn.fedState).1 = [])

/-- A byte more before a chunk. -/
theorem LeavesFed.cons {conn conn' : Conn} {c : Char} {buf : List Char}
    {after : Except (List Char × Conn) Conn} (h : LeavesFed conn' buf after)
    (hc : conn'.fedState = feed conn.fedState c) : LeavesFed conn (c :: buf) after := by
  obtain ⟨rest, last⟩ | last := after
  · obtain ⟨seen, rfl, hhanded, hempty⟩ := h
    refine ⟨c :: seen, rfl, ?_, ?_⟩
    · rw [List.foldl_cons, ← hc]
      exact hhanded
    · rw [List.foldl_cons, ← hc]
      exact hempty
  · rw [LeavesFed, List.foldl_cons, ← hc]
    exact h

/-- **One chunk.** By cases on the byte, as the loop does. -/
theorem handleMessages_leavesFed (conn : Conn) (buf : List Char) :
    LeavesFed conn buf (handleMessages world conn buf) := by
  induction buf generalizing conn with
  | nil => exact rfl
  | cons c buf ih =>
    rw [handleMessages]
    by_cases hc : c = '\n'
    · subst hc
      have hfeed : ([], conn.hand.handed) = feed conn.fedState '\n' :=
        (feed_newline conn.msgIn conn.handed).symm
      rw [if_pos rfl]
      by_cases hreply : world.replies conn.hand.handed = true
      · rw [if_pos hreply]
        rcases hwrite : conn.hand.write world with ⟨_ | _, next⟩ <;>
          obtain ⟨-, rfl⟩ := Prod.mk.inj hwrite
        · exact ⟨['\n'], rfl, congrArg Prod.snd hfeed, fun _ => (congrArg Prod.fst hfeed).symm⟩
        · exact LeavesFed.cons (ih _) hfeed
      · rw [if_neg hreply]
        exact LeavesFed.cons (ih _) hfeed
    · rw [if_neg hc]
      by_cases hroom : conn.msgIn.length < msgInLenMax
      · rw [if_pos hroom]
        exact LeavesFed.cons (ih _) (feed_of_lt hc hroom _).symm
      · rw [if_neg hroom]
        rcases hwrite : conn.write world with ⟨_ | _, next⟩ <;>
          obtain ⟨-, rfl⟩ := Prod.mk.inj hwrite
        · exact ⟨[], rfl, rfl, fun h => absurd h (List.cons_ne_nil c buf)⟩
        · exact LeavesFed.cons (ih _) (feed_of_full hc hroom _).symm

/-- The prompt changes neither the message nor what was handed over. -/
theorem dataEventHandle_fedState (conn : Conn) (buf : List Char) :
    (dataEventHandle world conn buf).2.fedState =
      (connAfter (handleMessages world conn buf)).fedState := by
  unfold dataEventHandle
  rcases buf with _ | ⟨c, buf⟩
  · rfl
  · rw [if_neg (by simp)]
    rcases handleMessages world conn (c :: buf) with ⟨rest, last⟩ | last
    · rfl
    · simp only [Conn.write]
      rcases world.writes last.nWrites <;> rfl

/-- A chunk without a newline hands nothing over, whether its writes succeed or not. -/
theorem dataEventHandle_handed_of_notMem {buf : List Char} (h : '\n' ∉ buf) (conn : Conn) :
    (dataEventHandle world conn buf).2.handed = conn.handed := by
  have hstate := congrArg Prod.snd (dataEventHandle_fedState world conn buf)
  have hleaves := handleMessages_leavesFed world conn buf
  rw [show (dataEventHandle world conn buf).2.handed = _ from hstate]
  rcases hafter : handleMessages world conn buf with ⟨rest, last⟩ | last <;>
    rw [hafter] at hleaves
  · obtain ⟨seen, rfl, hhanded, -⟩ := hleaves
    have hseen : '\n' ∉ seen := fun hmem => h (List.mem_append_left rest hmem)
    exact hhanded.trans (foldl_feed_of_notMem hseen _ _)
  · exact (congrArg Prod.snd hleaves).trans (foldl_feed_of_notMem h _ _)

/-- Nor do any number of them. -/
theorem run_handed_of_notMem {chunks : List (List Char)} (h : '\n' ∉ chunks.flatten)
    (conn : Conn) : (conn.run world chunks).handed = conn.handed := by
  induction chunks generalizing conn with
  | nil => rfl
  | cons buf chunks ih =>
    rw [List.flatten_cons, List.mem_append, not_or] at h
    exact (ih h.2 _).trans (dataEventHandle_handed_of_notMem world h.1 conn)

variable {world}

/-- A byte whose write fails ends the loop; if it is a newline, the message stays. -/
theorem handleMessages_of_writeFails {conn : Conn} {c : Char} (h : conn.WriteFails world c)
    (buf : List Char) : ∃ last, last.msgIn = conn.msgIn ∧
      handleMessages world conn (c :: buf) = .error (if c = '\n' then buf else c :: buf, last) := by
  obtain ⟨hasks, hfails⟩ := h
  rw [handleMessages]
  by_cases hc : c = '\n'
  · rw [if_pos hc] at hasks
    refine ⟨(conn.hand.write world).2, rfl, ?_⟩
    rw [if_pos hc, if_pos hasks, if_pos hc,
      show conn.hand.write world = (false, _) from congrArg (·, _) hfails]
  · rw [if_neg hc] at hasks
    refine ⟨(conn.write world).2, rfl, ?_⟩
    rw [if_neg hc, if_neg (Nat.not_lt.mpr hasks), if_neg hc,
      show conn.write world = (false, _) from congrArg (·, _) hfails]

/-- After any other byte the loop goes on. -/
theorem handleMessages_of_not_writeFails {conn : Conn} {c : Char}
    (h : ¬ conn.WriteFails world c) (buf : List Char) :
    handleMessages world conn (c :: buf) =
      handleMessages world (connAfter (handleMessages world conn [c])) buf := by
  rw [Conn.WriteFails, not_and, Bool.not_eq_false] at h
  simp only [handleMessages]
  by_cases hc : c = '\n'
  · rw [if_pos hc] at h
    rw [if_pos hc, if_pos hc]
    by_cases hreply : world.replies conn.hand.handed = true
    · rw [if_pos hreply, if_pos hreply,
        show conn.hand.write world = (true, _) from congrArg (·, _) (h hreply)]
      rfl
    · rw [if_neg hreply, if_neg hreply]
      rfl
  · rw [if_neg hc] at h
    rw [if_neg hc, if_neg hc]
    by_cases hroom : conn.msgIn.length < msgInLenMax
    · rw [if_pos hroom, if_pos hroom]
      rfl
    · rw [if_neg hroom, if_neg hroom,
        show conn.write world = (true, _) from congrArg (·, _) (h (Nat.le_of_not_lt hroom))]
      rfl

/-- How a chunk of which nothing that counts is left behind can end. -/
theorem Conn.KeptIn.exit {later buf rest : List Char} {conn last : Conn}
    (hkept : conn.KeptIn world later buf)
    (hexit : handleMessages world conn buf = .error (rest, last)) :
    rest = [] ∧ last.msgIn = [] ∨ '\n' ∉ rest ++ later := by
  induction buf generalizing conn with
  | nil => cases hexit
  | cons c buf ih =>
    rw [Conn.KeptIn] at hkept
    by_cases hfails : conn.WriteFails world c
    · rw [if_pos hfails] at hkept
      obtain ⟨stopped, hmsg, hstop⟩ := handleMessages_of_writeFails hfails buf
      obtain ⟨rfl, rfl⟩ := Prod.mk.inj (Except.error.inj (hstop.symm.trans hexit))
      rcases hkept with ⟨hc, hempty, hend⟩ | hend
      · left
        rw [if_pos hc]
        exact ⟨hend, hmsg.trans hempty⟩
      · right
        by_cases hc : c = '\n'
        · rw [if_pos hc]
          exact hend
        · rw [if_neg hc, List.cons_append, List.mem_cons, not_or]
          exact ⟨Ne.symm hc, hend⟩
    · rw [if_neg hfails] at hkept
      rw [handleMessages_of_not_writeFails hfails] at hexit
      exact ih hkept hexit

/-- **All chunks.** Only the bytes count, while nothing that counts is left behind. -/
theorem handed_eq_foldl {chunks : List (List Char)} {conn : Conn}
    (hkept : conn.Kept world chunks) :
    (conn.run world chunks).handed = (chunks.flatten.foldl feed conn.fedState).2 := by
  induction chunks generalizing conn with
  | nil => rfl
  | cons buf chunks ih =>
    obtain ⟨hchunk, hlater⟩ := hkept
    have hstate := dataEventHandle_fedState world conn buf
    have hleaves := handleMessages_leavesFed world conn buf
    rw [List.flatten_cons, List.foldl_append]
    refine Eq.trans (b := ((dataEventHandle world conn buf).2.run world chunks).handed) rfl ?_
    rcases hafter : handleMessages world conn buf with ⟨rest, last⟩ | last <;>
      simp only [hafter] at hstate hleaves
    · obtain ⟨seen, rfl, hhanded, hempty⟩ := hleaves
      rcases hchunk.exit hafter with ⟨rfl, hmsg⟩ | hend
      · -- the message and the rest are empty: the write might as well have succeeded
        have hfed : last.fedState = (seen ++ []).foldl feed conn.fedState := by
          rw [List.append_nil]
          exact Prod.ext (hmsg.trans (hempty rfl).symm) hhanded
        rw [ih hlater, hstate, ← hfed]
        rfl
      · -- nothing is handed over any more, of the rest or of what comes later
        have hchunks : '\n' ∉ chunks.flatten := fun h => hend (List.mem_append_right rest h)
        rw [run_handed_of_notMem world hchunks, ← List.foldl_append, List.append_assoc,
          List.foldl_append]
        refine (congrArg Prod.snd hstate).trans (hhanded.trans ?_)
        exact (foldl_feed_of_notMem hend _ _).symm
    · rw [ih hlater, hstate]
      exact congrArg (fun s => (chunks.flatten.foldl feed s).2) hleaves

/-- A new connection. -/
theorem handed_eq_fed {chunks : List (List Char)} (hkept : Conn.Kept world {} chunks) :
    (Conn.run world {} chunks).handed = fed [] chunks.flatten :=
  handed_eq_foldl hkept

/-- Writes that succeed leave nothing behind. -/
theorem kept_of_writes (hwrites : ∀ k, world.writes k = true) (conn : Conn)
    (chunks : List (List Char)) : conn.Kept world chunks := by
  have hin (later buf : List Char) (conn : Conn) : conn.KeptIn world later buf := by
    induction buf generalizing conn with
    | nil => trivial
    | cons c buf ih =>
      have hsucceeds : ¬ conn.WriteFails world c := fun h =>
        Bool.false_ne_true (h.2.symm.trans (hwrites _))
      rw [Conn.KeptIn, if_neg hsucceeds]
      exact ih _
  induction chunks generalizing conn with
  | nil => trivial
  | cons buf chunks ih => exact ⟨hin _ buf conn, ih _⟩

/-- **Newlines are never invented.** A string is handed over at every newline that is read. -/
theorem length_handed_add_unread (world : ConnWorld) (conn : Conn) (chunks : List (List Char)) :
    (conn.run world chunks).handed.length + (conn.unread world chunks).count '\n' =
      conn.handed.length + chunks.flatten.count '\n' := by
  induction chunks generalizing conn with
  | nil => rfl
  | cons buf chunks ih =>
    have hstate := congrArg Prod.snd (dataEventHandle_fedState world conn buf)
    have hleaves := handleMessages_leavesFed world conn buf
    have hone : (dataEventHandle world conn buf).2.handed.length +
        (restAfter (handleMessages world conn buf)).count '\n' =
          conn.handed.length + buf.count '\n' := by
      rw [show (dataEventHandle world conn buf).2.handed = _ from hstate]
      rcases hafter : handleMessages world conn buf with ⟨rest, last⟩ | last <;>
        rw [hafter] at hleaves
      · obtain ⟨seen, rfl, hhanded, -⟩ := hleaves
        rw [Conn.fedState, foldl_feed_snd] at hhanded
        simp only [connAfter, restAfter, Conn.fedState, hhanded, List.length_append, length_fed,
          List.count_append]
        omega
      · have hhanded : last.handed = conn.handed ++ fed conn.msgIn buf :=
          (congrArg Prod.snd hleaves).trans (foldl_feed_snd _ _ _)
        simp only [connAfter, restAfter, Conn.fedState, hhanded, List.length_append, length_fed,
          List.count_nil, Nat.add_zero]
    have hlater := ih (dataEventHandle world conn buf).2
    rw [Conn.unread, List.flatten_cons, List.count_append, List.count_append]
    refine Eq.trans (b := ((dataEventHandle world conn buf).2.run world chunks).handed.length + _)
      rfl ?_
    omega

/-! ### Lines -/

/-- The newline-terminated lines of a text, without their newlines. -/
abbrev textLines (text : List Char) : List (List Char) := lines '\n' text

/-- Those that are to be executed. -/
def shortLines (text : List Char) : List (List Char) :=
  (textLines text).filter fun line => line.length ≤ msgInLenMax

/-- Where all lines fit, they are handed over, each up to its first NUL. -/
theorem fed_eq_lines {msg stream : List Char} (hmsg : '\n' ∉ msg)
    (hall : ∀ line ∈ textLines (msg ++ stream), line.length ≤ msgInLenMax) :
    fed msg stream = (textLines (msg ++ stream)).map cString := by
  induction stream generalizing msg with
  | nil => rw [List.append_nil, textLines, lines_of_notMem hmsg, fed, List.foldl_nil, List.map_nil]
  | cons c stream ih =>
    by_cases hc : c = '\n'
    · subst hc
      have hlines : textLines (msg ++ '\n' :: stream) = msg :: textLines stream :=
        lines_append_sep hmsg stream
      rw [hlines] at hall ⊢
      rw [fed_newline,
        ih List.not_mem_nil fun line hline => hall line (List.mem_cons_of_mem msg hline),
        List.nil_append, List.map_cons]
    · have hnext : '\n' ∉ msg ++ [c] := by simp [hmsg, Ne.symm hc]
      have hassoc : msg ++ c :: stream = (msg ++ [c]) ++ stream := by simp
      by_cases hroom : msg.length < msgInLenMax
      · rw [fed_of_lt hc hroom, hassoc]
        rw [hassoc] at hall
        exact ih hnext hall
      · -- a line that is full already is never terminated
        have hend : '\n' ∉ stream := by
          intro hmem
          obtain ⟨before, after, rfl, hbefore⟩ := List.eq_append_cons_of_mem hmem
          have hline : '\n' ∉ msg ++ c :: before := by simp [hmsg, hbefore, Ne.symm hc]
          have hlines : textLines (msg ++ c :: (before ++ '\n' :: after)) =
              (msg ++ c :: before) :: textLines after := by
            rw [← lines_append_sep hline after, List.append_assoc, List.cons_append]
          have hlong := hall _ (hlines ▸ List.mem_cons_self)
          rw [List.length_append, List.length_cons] at hlong
          omega
        have hnone : fed msg (c :: stream) = [] := by
          rw [← List.length_eq_zero_iff, length_fed, List.count_eq_zero]
          simp [hend, Ne.symm hc]
        rw [hnone, textLines, lines_of_notMem (by simp [hmsg, hend, Ne.symm hc]), List.map_nil]

/-- A string without NUL that fits into a buffer of `n` characters. -/
def FitsInto (n : ℕ) (line : List Char) : Prop := line.length ≤ n ∧ '\x00' ∉ line

/-- Where all lines fit, all are short. -/
theorem shortLines_eq_textLines {text : List Char}
    (hall : ∀ line ∈ textLines text, line.length ≤ msgInLenMax) :
    shortLines text = textLines text :=
  List.filter_eq_self.mpr fun line hline => decide_eq_true (hall line hline)

/-- As many lines are short as there are newlines only if all are. -/
theorem length_le_of_length_shortLines {text : List Char}
    (h : (shortLines text).length = text.count '\n') :
    ∀ line ∈ textLines text, line.length ≤ msgInLenMax := by
  intro line hline
  rw [← length_lines] at h
  exact of_decide_eq_true (List.length_filter_eq_length_iff.mp h line hline)

/-- Every line reads as itself exactly when none has a NUL. -/
theorem map_cString_eq_self_iff {ls : List (List Char)} :
    ls.map cString = ls ↔ ∀ line ∈ ls, '\x00' ∉ line := by
  rw [← List.map_id ls, List.map_map, List.map_inj_left, List.map_id]
  exact forall₂_congr fun line _ => cString_eq_self_iff

/-- **What a stream hands over.** -/
theorem fed_eq_iff (stream : List Char) :
    fed [] stream = shortLines stream ↔ ∀ line ∈ textLines stream, FitsInto msgInLenMax line := by
  have hfed (hall : ∀ line ∈ textLines stream, line.length ≤ msgInLenMax) :
      fed [] stream = shortLines stream ↔ ∀ line ∈ textLines stream, '\x00' ∉ line := by
    rw [fed_eq_lines List.not_mem_nil hall, List.nil_append, shortLines_eq_textLines hall,
      map_cString_eq_self_iff]
  constructor
  · intro heq
    have hall := length_le_of_length_shortLines (by rw [← heq, length_fed])
    exact fun line hline => ⟨hall line hline, (hfed hall).mp heq line hline⟩
  · intro hfits
    exact (hfed fun line hline => (hfits line hline).1).mpr fun line hline => (hfits line hline).2

/-! ### A script -/

/-- `fgets` cuts a text in two; the first part fits into the buffer. -/
theorem fgets_parts (n : ℕ) (text : List Char) :
    (fgets n text).1 ++ (fgets n text).2 = text ∧ (fgets n text).1.length ≤ n := by
  induction n generalizing text with
  | zero => exact ⟨rfl, le_rfl⟩
  | succ n ih =>
    cases text with
    | nil => exact ⟨rfl, Nat.zero_le _⟩
    | cons c text =>
      rw [fgets]
      split_ifs
      · exact ⟨rfl, Nat.succ_le_succ (Nat.zero_le n)⟩
      · obtain ⟨happend, hlen⟩ := ih text
        exact ⟨congrArg (c :: ·) happend, Nat.succ_le_succ hlen⟩

/-- `fgets` returns something as long as there is something. -/
theorem fgets_ne_nil {n : ℕ} (hn : 0 < n) {text : List Char} (h : text ≠ []) :
    (fgets n text).1 ≠ [] := by
  obtain ⟨n, rfl⟩ := Nat.exists_eq_succ_of_ne_zero hn.ne'
  obtain ⟨c, text, rfl⟩ := List.exists_cons_of_ne_nil h
  rw [fgets]
  split_ifs <;> exact List.cons_ne_nil _ _

/-- The parts of a script add up to it and fit into the buffer. -/
theorem messages_parts {n : ℕ} (hn : 0 < n) (text : List Char) :
    (messages n n text).flatten = text ∧ ∀ part ∈ messages n n text, part.length ≤ n := by
  induction hlen : text.length using Nat.strong_induction_on generalizing text with
  | _ len ih =>
    by_cases htext : text = []
    · subst htext
      exact ⟨rfl, fun part hpart => nomatch hpart⟩
    obtain ⟨happend, hfirst⟩ := fgets_parts n text
    have hshorter : (fgets n text).2.length < len := by
      have hpos := List.length_pos_of_ne_nil (fgets_ne_nil hn htext)
      have hsum := congrArg List.length happend
      rw [List.length_append] at hsum
      omega
    obtain ⟨hflatten, hparts⟩ := ih _ hshorter (fgets n text).2 rfl
    rw [messages_eq hn htext]
    refine ⟨?_, List.forall_mem_cons.mpr ⟨hfirst, hparts⟩⟩
    rw [List.flatten_cons, hflatten, happend]

/-- A text of lines ends with one. -/
theorem endsWithLine_flatMap (ls : List (List Char)) :
    EndsWithLine (ls.flatMap (· ++ ['\n'])) := by
  rcases List.eq_nil_or_concat ls with rfl | ⟨init, last, rfl⟩
  · exact .inl rfl
  · right
    simp [List.flatMap_append]

/-- A text that ends with a line is its lines. -/
theorem eq_flatMap_textLines {text : List Char} (h : EndsWithLine text) :
    text = (textLines text).flatMap (· ++ ['\n']) := by
  obtain ⟨rest, hrest, htext⟩ : ∃ rest, '\n' ∉ rest ∧
      text = (textLines text).flatMap (· ++ ['\n']) ++ rest := exists_rest text
  have hnil : rest = [] := by
    by_contra hne
    rcases h with h | h
    · rw [h] at htext
      exact hne (List.append_eq_nil_iff.mp htext.symm).2
    · rw [htext, List.getLast?_append_of_ne_nil _ hne] at h
      exact hrest (List.mem_of_getLast? h)
  rw [hnil, List.append_nil] at htext
  exact htext

/-- `fgets` stops behind the first newline. -/
theorem notMem_dropLast_fgets (n : ℕ) (text : List Char) : '\n' ∉ (fgets n text).1.dropLast := by
  induction n generalizing text with
  | zero => exact List.not_mem_nil
  | succ n ih =>
    rcases text with _ | ⟨c, text⟩
    · exact List.not_mem_nil
    · rw [fgets]
      split_ifs with hc
      · exact List.not_mem_nil
      · change '\n' ∉ (c :: (fgets n text).1).dropLast
        rcases hrest : (fgets n text).1 with _ | ⟨c', rest⟩
        · exact List.not_mem_nil
        · have hnext := ih text
          rw [hrest] at hnext
          rw [List.dropLast_cons_cons, List.mem_cons, not_or]
          exact ⟨Ne.symm hc, hnext⟩

/-- A part that is read up to a newline is read to its end. -/
theorem cString_part_eq_self {n : ℕ} (hn : 0 < n) {text part : List Char}
    (hpart : part ∈ messages n n text) (h : '\n' ∈ cString part) : cString part = part := by
  have hlast : '\n' ∉ part.dropLast := by
    induction hlen : text.length using Nat.strong_induction_on generalizing text with
    | _ len ih =>
      by_cases htext : text = []
      · subst htext
        cases hpart
      have hshorter : (fgets n text).2.length < len := by
        have hpos := List.length_pos_of_ne_nil (fgets_ne_nil hn htext)
        have hsum := congrArg List.length (fgets_parts n text).1
        rw [List.length_append] at hsum
        omega
      rw [messages_eq hn htext] at hpart
      rcases List.mem_cons.mp hpart with rfl | hpart
      · exact notMem_dropLast_fgets n text
      · exact ih _ hshorter hpart rfl
  by_contra hne
  have hprefix : cString part <+: part := List.takeWhile_prefix _
  obtain ⟨rest, hrest⟩ := hprefix
  have hne' : rest ≠ [] := by
    rintro rfl
    exact hne (by rw [List.append_nil] at hrest; exact hrest)
  rw [← hrest, List.dropLast_append_of_ne_nil hne'] at hlast
  exact hlast (List.mem_append_left _ h)

/-- **What a script hands over.** The newline is part of a string. -/
theorem scriptLines_eq_iff (text : List Char) :
    (scriptLines text).map cString = (shortLines text).map (· ++ ['\n']) ↔
      EndsWithLine text ∧ ∀ line ∈ textLines text, FitsInto 1023 line := by
  constructor
  · intro hmap
    obtain ⟨hflatten, hparts⟩ := messages_parts (n := msgInLenMax) (by decide) text
    -- every part is read up to a newline
    have heq : scriptLines text = (shortLines text).map (· ++ ['\n']) := by
      rw [← hmap, eq_comm, map_cString_eq_self_iff]
      intro part hpart
      have hline : cString part ∈ (shortLines text).map (· ++ ['\n']) :=
        hmap ▸ List.mem_map_of_mem hpart
      obtain ⟨line, -, hline⟩ := List.mem_map.mp hline
      have hnewline : '\n' ∈ cString part := hline ▸ List.mem_append_right line (.head [])
      exact cString_eq_self_iff.mp (cString_part_eq_self (by decide) hpart hnewline)
    have hshort : ∀ line ∈ shortLines text, '\n' ∉ line := fun line hline =>
      notMem_of_mem_lines (List.mem_of_mem_filter hline)
    have htext : text = (shortLines text).flatMap (· ++ ['\n']) := by
      rw [List.flatMap_def, ← heq]
      exact hflatten.symm
    have hlines : textLines text = shortLines text := by
      conv_lhs => rw [htext]
      exact lines_flatMap hshort
    refine ⟨htext ▸ endsWithLine_flatMap _, fun line hline => ?_⟩
    have hpart : line ++ ['\n'] ∈ scriptLines text :=
      heq ▸ List.mem_map_of_mem (hlines ▸ hline)
    have hfits := hparts _ hpart
    have hnul := map_cString_eq_self_iff.mp (hmap.trans heq.symm) _ hpart
    rw [List.length_append, List.length_singleton] at hfits
    exact ⟨Nat.le_of_lt_succ hfits, fun h => hnul (List.mem_append_left _ h)⟩
  · rintro ⟨hend, hall⟩
    have hshort : shortLines text = textLines text :=
      shortLines_eq_textLines fun line hline => (hall line hline).1.trans (by decide)
    have hlines : ∀ line ∈ textLines text, '\n' ∉ line ∧ line.length < msgInLenMax :=
      fun line hline => ⟨notMem_of_mem_lines hline, Nat.lt_succ_of_le (hall line hline).1⟩
    have hread : scriptLines text = (textLines text).map (· ++ ['\n']) := by
      rw [scriptLines, ← messages_lines hlines, ← eq_flatMap_textLines hend]
    rw [hshort, hread, map_cString_eq_self_iff]
    intro part hpart hnul
    obtain ⟨line, hline, rfl⟩ := List.mem_map.mp hpart
    rcases List.mem_append.mp hnul with hnul | hnul
    · exact (hall line hline).2 hnul
    · exact absurd (List.mem_singleton.mp hnul) (by decide)

/-- **When whole lines are executed, and nothing else.** A script hands over its short lines
exactly when its last line is terminated and every line fits into 1023 characters. A client, in
any chunks, while no write that fails leaves anything behind, does exactly when every line it
sends fits into 1024; and if its lines fit and are what is handed over, then no write that failed
has lost a newline. -/
theorem wholeLines_iff (text : List Char) (world : ConnWorld) (chunks : List (List Char)) :
    ((scriptLines text).map cString = (shortLines text).map (· ++ ['\n']) ↔
      EndsWithLine text ∧ ∀ line ∈ textLines text, FitsInto 1023 line) ∧
    (Conn.Kept world {} chunks →
      ((Conn.run world {} chunks).handed = shortLines chunks.flatten ↔
        ∀ line ∈ textLines chunks.flatten, FitsInto 1024 line)) ∧
    ((∀ line ∈ textLines chunks.flatten, FitsInto 1024 line) →
      (Conn.run world {} chunks).handed = shortLines chunks.flatten →
        '\n' ∉ Conn.unread world {} chunks) := by
  refine ⟨scriptLines_eq_iff text, fun hkept => ?_, fun hall heq => ?_⟩
  · rw [handed_eq_fed hkept]
    exact fed_eq_iff chunks.flatten
  · have hcount := length_handed_add_unread world {} chunks
    rw [heq, shortLines_eq_textLines fun line hline => (hall line hline).1, length_lines] at hcount
    exact List.count_eq_zero.mp (by simpa using hcount)

/-- The reply to the only line fails, with no newline to come. -/
theorem failingReply_wholeLines :
    Conn.Kept ⟨fun _ => true, fun _ => false⟩ {} [['h', 'e', 'l', 'p', '\n'], ['q']] ∧
      (Conn.run ⟨fun _ => true, fun _ => false⟩ {} [['h', 'e', 'l', 'p', '\n'], ['q']]).handed =
        shortLines [['h', 'e', 'l', 'p', '\n'], ['q']].flatten := by
  have hkept : Conn.Kept ⟨fun _ => true, fun _ => false⟩ {}
      [['h', 'e', 'l', 'p', '\n'], ['q']] := by decide
  exact ⟨hkept, ((wholeLines_iff [] _ _).2.1 hkept).mpr (by unfold FitsInto; decide)⟩

/-- A line of `n` characters `#`, and `help`. -/
def longComment (n : ℕ) : List Char := List.replicate n '#' ++ ['h', 'e', 'l', 'p', '\n']

/-- The end of a comment that is too long is executed. -/
theorem longComment_executed :
    (scriptLines (longComment 1024)).map cString =
        [List.replicate 1024 '#', ['h', 'e', 'l', 'p', '\n']] ∧
      (scriptLines (longComment 1024)).map cString ≠
        (shortLines (longComment 1024)).map (· ++ ['\n']) ∧
      (Conn.run ⟨fun _ => false, fun _ => true⟩ {} [longComment 1025]).handed =
        [['h', 'e', 'l', 'p']] ∧
      (Conn.run ⟨fun _ => false, fun _ => true⟩ {} [longComment 1025]).handed ≠
        shortLines (longComment 1025) := by
  decide +kernel

end Rids.Pipeline
