import Mathlib.Data.List.Basic
import Rids.Pipeline.Parser

/-!
# Lines and tokens (`cli.c`, `parser.c`)

`cli_script_process` and `cli_rule_file_process` read a file through `fgets`, skip comments and cut
what is left into tokens. A file is a list of characters of one byte each.

* `messages_eq` — the messages of a file are what `fgets` returns until the file ends.
* `messages_append` — a file that ends with its last line is read before what follows it.
* `strtok_append_cons` — tokens on both sides of a delimiter are read on their own.
-/

namespace Rids.Pipeline

/-! ### `fgets` -/

/-- At most `n` characters, up to and with the first newline, and what is left of the file.
Source: `<stdio.h>` `fgets` with a buffer of `n + 1` bytes
Kind: D -/
def fgets : ℕ → List Char → List Char × List Char
  | 0, text => ([], text)
  | _ + 1, [] => ([], [])
  | n + 1, c :: text =>
    if c = '\n' then ([c], text)
    else
      let (line, rest) := fgets n text
      (c :: line, rest)

/-- What the calls of `fgets` return, where the buffer takes `room` characters at the first call
and `n` at the next. -/
def messages (n : ℕ) : ℕ → List Char → List (List Char)
  | _, [] => []
  | room, c :: text =>
    if c = '\n' ∨ room ≤ 1 then [c] :: messages n n text
    else
      match messages n (room - 1) text with
      | [] => [[c]]
      | line :: lines => (c :: line) :: lines

section Messages

variable {n : ℕ}

/-- A text that is not empty has a message. -/
theorem messages_ne_nil {room : ℕ} {text : List Char} (h : text ≠ []) :
    messages n room text ≠ [] := by
  cases text with
  | nil => exact absurd rfl h
  | cons c text =>
    rw [messages]
    split_ifs
    · exact List.cons_ne_nil _ _
    · split <;> exact List.cons_ne_nil _ _

/-- The first message is what one `fgets` returns. -/
theorem messages_eq_fgets {room : ℕ} (hroom : 0 < room) {text : List Char} (h : text ≠ []) :
    messages n room text = (fgets room text).1 :: messages n n (fgets room text).2 := by
  induction text generalizing room with
  | nil => exact absurd rfl h
  | cons c text ih =>
    obtain ⟨room, rfl⟩ := Nat.exists_eq_succ_of_ne_zero hroom.ne'
    rw [messages, fgets]
    by_cases hc : c = '\n'
    · rw [if_pos (.inl hc), if_pos hc]
    · rw [if_neg hc]
      by_cases hlast : room = 0
      · subst hlast
        rw [if_pos (.inr le_rfl), fgets]
      · have hgo : ¬ (c = '\n' ∨ room.succ ≤ 1) := by
          rintro (heq | hle)
          · exact hc heq
          · exact hlast (Nat.le_zero.mp (Nat.le_of_succ_le_succ hle))
        rw [if_neg hgo, Nat.succ_sub_one]
        by_cases htext : text = []
        · subst htext
          obtain ⟨room, rfl⟩ := Nat.exists_eq_succ_of_ne_zero hlast
          rfl
        · rw [ih (Nat.pos_of_ne_zero hlast) htext]

/-- The loop over a file: a message, and the messages of what is left. -/
theorem messages_eq (hn : 0 < n) {text : List Char} (h : text ≠ []) :
    messages n n text = (fgets n text).1 :: messages n n (fgets n text).2 :=
  messages_eq_fgets hn h

/-- A file with its last line complete. -/
def EndsWithLine (text : List Char) : Prop := text = [] ∨ text.getLast? = some '\n'

/-- Behind a newline the messages start anew. -/
theorem messages_append_of_getLast {room : ℕ} {text : List Char}
    (h : text.getLast? = some '\n') (more : List Char) :
    messages n room (text ++ more) = messages n room text ++ messages n n more := by
  induction text generalizing room with
  | nil => cases h
  | cons c text ih =>
    rw [List.cons_append, messages, messages]
    by_cases htext : text = []
    · subst htext
      obtain rfl : c = '\n' := Option.some.inj h
      rw [if_pos (.inl rfl), if_pos (.inl rfl)]
      rfl
    · rw [List.getLast?_cons_of_ne_nil htext] at h
      by_cases hc : c = '\n' ∨ room ≤ 1
      · rw [if_pos hc, if_pos hc, ih h, List.cons_append]
      · rw [if_neg hc, if_neg hc, ih h]
        cases hlines : messages n (room - 1) text with
        | nil => exact absurd hlines (messages_ne_nil htext)
        | cons line lines => rfl

/-- A file with its last line complete is read before what follows it. -/
theorem messages_append {text : List Char} (h : EndsWithLine text) (more : List Char) :
    messages n n (text ++ more) = messages n n text ++ messages n n more := by
  rcases h with rfl | h
  · rfl
  · exact messages_append_of_getLast h more

/-- A newline at the end of a file makes an empty line or closes the last one. -/
theorem messages_newline (room : ℕ) (text : List Char) :
    messages n room (text ++ ['\n']) = messages n room text ++ [['\n']] ∨
      ∃ lines line, messages n room text = lines ++ [line] ∧
        messages n room (text ++ ['\n']) = lines ++ [line ++ ['\n']] := by
  induction text generalizing room with
  | nil =>
    left
    simp [messages]
  | cons c text ih =>
    rw [List.cons_append, messages, messages]
    by_cases hc : c = '\n' ∨ room ≤ 1
    · rw [if_pos hc, if_pos hc]
      rcases ih n with h | ⟨lines, line, h, h'⟩
      · left
        rw [h, List.cons_append]
      · right
        exact ⟨[c] :: lines, line, by rw [h, List.cons_append], by rw [h', List.cons_append]⟩
    · rw [if_neg hc, if_neg hc]
      rcases ih (room - 1) with h | ⟨lines, line, h, h'⟩
      · rw [h]
        cases messages n (room - 1) text with
        | nil => exact .inr ⟨[], [c], rfl, rfl⟩
        | cons first lines => exact .inl rfl
      · rw [h, h']
        right
        cases lines with
        | nil => exact ⟨[], c :: line, rfl, rfl⟩
        | cons first lines => exact ⟨(c :: first) :: lines, line, rfl, rfl⟩

/-- A line that fits is one message. -/
theorem messages_line_of_room {room : ℕ} {line : List Char} (hline : '\n' ∉ line)
    (hlen : line.length < room) (more : List Char) :
    messages n room (line ++ '\n' :: more) = (line ++ ['\n']) :: messages n n more := by
  induction line generalizing room with
  | nil =>
    rw [List.nil_append, messages, if_pos (.inl rfl)]
    rfl
  | cons c line ih =>
    rw [List.mem_cons, not_or] at hline
    rw [List.length_cons] at hlen
    have hgo : ¬ (c = '\n' ∨ room ≤ 1) := by
      rintro (hc | hroom)
      · exact hline.1 hc.symm
      · omega
    rw [List.cons_append, messages, if_neg hgo, ih hline.2 (Nat.lt_sub_of_add_lt hlen)]
    rfl

/-- A line that fits into the buffer is one message. -/
theorem messages_line {line : List Char} (hline : '\n' ∉ line) (hlen : line.length < n)
    (more : List Char) :
    messages n n (line ++ '\n' :: more) = (line ++ ['\n']) :: messages n n more :=
  messages_line_of_room hline hlen more

end Messages

/-- What the string functions see of a buffer. -/
def cString (buffer : List Char) : List Char := buffer.takeWhile (· ≠ '\x00')

/-- A newline behind the NUL is not read. -/
theorem cString_newline (buffer : List Char) :
    cString (buffer ++ ['\n']) = cString buffer ++ ['\n'] ∨
      cString (buffer ++ ['\n']) = cString buffer := by
  unfold cString
  rw [List.takeWhile_append]
  split_ifs with h
  · left
    rw [(List.takeWhile_prefix _).eq_of_length h]
    rfl
  · exact .inr rfl

/-! ### Comments and tokens -/

/-- Source: `cli.c` `is_comment`. Kind: D -/
def isComment (s : List Char) : Bool :=
  (s.head?.any fun c => c ∈ ['!', '#', '%', ';']) || s.take 2 = ['/', '/'] ||
    s.take 2 = ['-', '-']

/-- A newline behind a line does not make it a comment. -/
theorem isComment_newline (s : List Char) : isComment (s ++ ['\n']) = isComment s := by
  match s with
  | [] => rfl
  | [c] => simp [isComment]
  | _ :: _ :: _ => rfl

/-- `PARSE_DELIMITER`. -/
def parseDelimiter : List Char := [' ', '\x0c', '\n', '\r', '\t', '\x0b']

/-- The character ends a token. -/
def isDelimiter (c : Char) : Bool := c ∈ parseDelimiter

/-- What `strtok_r` returns, called until it finds no more: the runs of characters between
delimiters.
Source: `<string.h>` `strtok_r` with `PARSE_DELIMITER`
Kind: D -/
def strtok (s : List Char) : List (List Char) :=
  (s.splitOnP isDelimiter).filter fun w => w ≠ []

/-- `CMD_MAX_TOKENS`. -/
def cmdMaxTokens : ℕ := 256

/-- `none` where there are too many tokens.
Source: `parser.c` `parse_tokenize_string`
Kind: D -/
def parseTokenizeString (s : List Char) : Option (List String) :=
  let tokens := (strtok s).map String.ofList
  if cmdMaxTokens < tokens.length then none else some tokens

/-- A delimiter separates the tokens. -/
theorem strtok_append_cons (xs ys : List Char) {c : Char} (hc : isDelimiter c) :
    strtok (xs ++ c :: ys) = strtok xs ++ strtok ys := by
  rw [strtok, strtok, strtok, List.splitOnP_append_cons xs ys hc, List.filter_append]

/-- The empty text has no token. -/
theorem strtok_nil : strtok [] = [] := rfl

/-- A newline behind a line adds no token. -/
theorem parseTokenizeString_newline (s : List Char) :
    parseTokenizeString (s ++ ['\n']) = parseTokenizeString s := by
  unfold parseTokenizeString
  rw [strtok_append_cons s [] (by decide : isDelimiter '\n'), strtok_nil, List.append_nil]

/-- A text without delimiters is one token. -/
theorem strtok_of_forall {w : List Char} (hne : w ≠ []) (hw : ∀ c ∈ w, isDelimiter c = false) :
    strtok w = [w] := by
  rw [strtok, List.splitOnP_eq_singleton hw, List.filter_cons_of_pos (by simpa using hne)]
  rfl

end Rids.Pipeline
