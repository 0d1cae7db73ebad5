import Rids.Pipeline.RuleText

/-!
# DSCP tables (`cli.c`)

A DSCP table has 64 entries, each with a traffic class, a queue and a colour. It is read from a
file with an entry a line; comments and empty lines are skipped, and a line that does not fit into
the buffer is read in parts.

* `loadDscpTable_ok` — a file is accepted exactly when all its lines are entries, of which there
  are 64 at most; entry `i` of the table is that of the `i`th of them.
* `determined_iff` — the entries behind the last one are those that the table had before: what is
  read depends on the file alone exactly when there are 64 entries.
* `loadDscpTable_error` — a file that is rejected is rejected at its first line that is no entry, or
  one too many.
* `loadDscpTable_show` — a table that is written line by line is read as it was.
-/

namespace Rids.Pipeline

/-! ### Entries -/

/-- Source: DPDK `enum rte_color`. Kind: D -/
inductive Color
  | green | yellow | red
deriving DecidableEq, Repr

/-- Source: DPDK `struct rte_table_action_dscp_table_entry`. Kind: D -/
structure DscpEntry where
  tcId : ℕ
  tcQueueId : ℕ
  color : Color
deriving DecidableEq, Repr

/-- The bounds of an entry: `RTE_TABLE_ACTION_TC_MAX` and `RTE_TABLE_ACTION_TC_QUEUE_MAX`. -/
structure DscpBounds where
  tcMax : ℕ
  tcQueueMax : ℕ

/-- `RTE_DIM(dscp_table->entry)`. -/
def dscpTableSize : ℕ := 64

/-- A token of one character.
Source: `cli.c` `load_dscp_table`, `switch (tokens[2][0])`
Kind: D -/
def readColor (token : String) : Option Color :=
  match token.toList with
  | ['g'] => some .green
  | ['G'] => some .green
  | ['y'] => some .yellow
  | ['Y'] => some .yellow
  | ['r'] => some .red
  | ['R'] => some .red
  | _ => none

section Load

variable (bounds : DscpBounds)

/-- The entry that a line of tokens is.
Source: `cli.c` `load_dscp_table`
Kind: D -/
def readDscpEntry : List String → Option DscpEntry
  | [tcId, tcQueueId, color] =>
    match parserReadUint32 tcId, parserReadUint32 tcQueueId, readColor color with
    | .ok tcId, .ok tcQueueId, some color =>
      if tcId.toNat < bounds.tcMax ∧ tcQueueId.toNat < bounds.tcQueueMax then
        some ⟨tcId.toNat, tcQueueId.toNat, color⟩
      else none
    | _, _, _ => none
  | _ => none

/-- What a line is: a mistake, nothing, or an entry. `parse_tokenize_string` has room for three
tokens.
Source: `cli.c` `load_dscp_table`
Kind: D -/
def readDscpLine (line : List Char) : Option (Option DscpEntry) :=
  let s := cString line
  if isComment s then some none
  else
    match (strtok s).map String.ofList with
    | [] => some none
    | tokens => (readDscpEntry bounds tokens).map some

/-- The loop, where `dscp` entries are written and line `l` is the next; the number of the line of
a mistake.
Source: `cli.c` `load_dscp_table`
Kind: D -/
def readDscpLines : List (List Char) → ℕ → ℕ → (ℕ → DscpEntry) → Except ℕ (ℕ → DscpEntry)
  | [], _, _, table => .ok table
  | line :: lines, dscp, l, table =>
    match readDscpLine bounds line with
    | none => .error l
    | some none => readDscpLines lines dscp (l + 1) table
    | some (some e) =>
      if dscpTableSize ≤ dscp then .error l
      else readDscpLines lines (dscp + 1) (l + 1) (Function.update table dscp e)

/-- `fgets` reads at most this many characters into `line`. -/
def dscpLineMax : ℕ := 63

/-- The table after the file, where `table` is what it held, or the number of the line of a
mistake; line 0 is a file that is not there.
Source: `cli.c` `load_dscp_table`
Kind: D -/
def loadDscpTable (file : Option (List Char)) (table : ℕ → DscpEntry) :
    Except ℕ (ℕ → DscpEntry) :=
  match file with
  | none => .error 0
  | some text => readDscpLines bounds (messages dscpLineMax dscpLineMax text) 0 1 table

/-! ### The entries of a file -/

/-- The entries of the lines; `none` where one is a mistake. -/
def dscpEntries : List (List Char) → Option (List DscpEntry)
  | [] => some []
  | line :: lines =>
    match readDscpLine bounds line with
    | none => none
    | some none => dscpEntries lines
    | some (some e) => (dscpEntries lines).map (e :: ·)

/-- The table with entries written from place `dscp` on. -/
def overwrite (table : ℕ → DscpEntry) (dscp : ℕ) (es : List DscpEntry) : ℕ → DscpEntry := fun i =>
  if dscp ≤ i then es.getD (i - dscp) (table i) else table i

variable {bounds}

/-- No entry leaves the table as it is. -/
theorem overwrite_nil (table : ℕ → DscpEntry) (dscp : ℕ) : overwrite table dscp [] = table := by
  funext i
  simp [overwrite]

/-- Entries are written one behind the other. -/
theorem overwrite_cons (table : ℕ → DscpEntry) (dscp : ℕ) (e : DscpEntry) (es : List DscpEntry) :
    overwrite table dscp (e :: es) = overwrite (Function.update table dscp e) (dscp + 1) es := by
  funext i
  unfold overwrite
  rcases Nat.lt_trichotomy i dscp with hlt | rfl | hgt
  · rw [if_neg (by omega), if_neg (by omega), Function.update_of_ne (by omega)]
  · rw [if_pos (by omega), if_neg (by omega), Function.update_self, Nat.sub_self,
      List.getD_cons_zero]
  · obtain ⟨k, rfl⟩ := Nat.exists_eq_add_of_lt hgt
    rw [if_pos (by omega), if_pos (by omega), Function.update_of_ne (by omega),
      show dscp + k + 1 - dscp = k + 1 by omega, show dscp + k + 1 - (dscp + 1) = k by omega,
      List.getD_cons_succ]

/-- The loop accepts lines that are entries, as long as there is room. -/
theorem readDscpLines_ok {lines : List (List Char)} {dscp l : ℕ} {table table' : ℕ → DscpEntry}
    (hdscp : dscp ≤ dscpTableSize) :
    readDscpLines bounds lines dscp l table = .ok table' ↔
      ∃ es, dscpEntries bounds lines = some es ∧ dscp + es.length ≤ dscpTableSize ∧
        table' = overwrite table dscp es := by
  induction lines generalizing dscp l table with
  | nil =>
    simp only [readDscpLines, dscpEntries, Except.ok.injEq, Option.some.injEq]
    constructor
    · rintro rfl
      exact ⟨[], rfl, hdscp, (overwrite_nil _ _).symm⟩
    · rintro ⟨es, rfl, -, rfl⟩
      exact (overwrite_nil _ _).symm
  | cons line lines ih =>
    unfold readDscpLines dscpEntries
    cases readDscpLine bounds line with
    | none => simp
    | some o =>
      cases o with
      | none => exact ih hdscp
      | some e =>
        simp only [Option.map_eq_some_iff]
        split_ifs with hfull
        · constructor
          · intro h
            cases h
          · rintro ⟨-, ⟨es, -, rfl⟩, hlen, -⟩
            rw [List.length_cons] at hlen
            omega
        · rw [ih (by omega)]
          constructor
          · rintro ⟨es, hes, hlen, rfl⟩
            refine ⟨e :: es, ⟨es, hes, rfl⟩, ?_, (overwrite_cons _ _ _ _).symm⟩
            rw [List.length_cons]
            omega
          · rintro ⟨-, ⟨es, hes, rfl⟩, hlen, rfl⟩
            rw [List.length_cons] at hlen
            exact ⟨es, hes, by omega, overwrite_cons _ _ _ _⟩

/-- The lines are read up to one that is a mistake, or an entry for which there is no room. -/
def RejectedAt (bounds : DscpBounds) (lines : List (List Char)) (dscp k : ℕ) : Prop :=
  ∃ es, dscpEntries bounds (lines.take k) = some es ∧ dscp + es.length ≤ dscpTableSize ∧
    ∃ line, lines[k]? = some line ∧ (readDscpLine bounds line = none ∨
      dscp + es.length = dscpTableSize ∧ ∃ e, readDscpLine bounds line = some (some e))

section Rejected

variable {lines : List (List Char)} {line : List Char} {dscp k : ℕ}

/-- A mistake rejects the file at its line. -/
theorem rejectedAt_mistake (hdscp : dscp ≤ dscpTableSize) (h : readDscpLine bounds line = none) :
    RejectedAt bounds (line :: lines) dscp k ↔ k = 0 := by
  constructor
  · rintro ⟨es, hes, -⟩
    cases k with
    | zero => rfl
    | succ k => simp [List.take_succ_cons, dscpEntries, h] at hes
  · rintro rfl
    exact ⟨[], rfl, hdscp, line, rfl, .inl h⟩

/-- A line that is skipped rejects nothing. -/
theorem rejectedAt_skip (h : readDscpLine bounds line = some none) :
    RejectedAt bounds (line :: lines) dscp k ↔
      ∃ k', k = k' + 1 ∧ RejectedAt bounds lines dscp k' := by
  cases k with
  | zero =>
    constructor
    · rintro ⟨es, -, -, line', hline, hbad⟩
      obtain rfl : line = line' := Option.some.inj hline
      simp [h] at hbad
    · rintro ⟨k', hk, -⟩
      omega
  | succ k =>
    simp [RejectedAt, dscpEntries, h]

/-- An entry behind the last place rejects the file at its line. -/
theorem rejectedAt_full {e : DscpEntry} (hdscp : dscp = dscpTableSize)
    (h : readDscpLine bounds line = some (some e)) :
    RejectedAt bounds (line :: lines) dscp k ↔ k = 0 := by
  constructor
  · rintro ⟨es, hes, hlen, -⟩
    cases k with
    | zero => rfl
    | succ k =>
      simp only [List.take_succ_cons, dscpEntries, h, Option.map_eq_some_iff] at hes
      obtain ⟨es, -, rfl⟩ := hes
      rw [List.length_cons] at hlen
      omega
  · rintro rfl
    exact ⟨[], rfl, hdscp.le, line, rfl, .inr ⟨hdscp, e, h⟩⟩

/-- An entry that has a place rejects nothing. -/
theorem rejectedAt_entry {e : DscpEntry} (hdscp : dscp < dscpTableSize)
    (h : readDscpLine bounds line = some (some e)) :
    RejectedAt bounds (line :: lines) dscp k ↔
      ∃ k', k = k' + 1 ∧ RejectedAt bounds lines (dscp + 1) k' := by
  cases k with
  | zero =>
    constructor
    · rintro ⟨es, hes, -, line', hline, hbad⟩
      obtain rfl : line = line' := Option.some.inj hline
      obtain rfl : [] = es := Option.some.inj hes
      simp only [h, reduceCtorEq, List.length_nil, false_or] at hbad
      omega
    · rintro ⟨k', hk, -⟩
      omega
  | succ k =>
    simp only [RejectedAt, List.take_succ_cons, dscpEntries, h, Option.map_eq_some_iff,
      List.getElem?_cons_succ, Nat.add_right_cancel_iff, exists_eq_left']
    constructor
    · rintro ⟨-, ⟨es, hes, rfl⟩, hlen, hbad⟩
      rw [List.length_cons] at hlen hbad
      refine ⟨es, hes, by omega, ?_⟩
      rwa [Nat.add_right_comm, Nat.add_assoc]
    · rintro ⟨es, hes, hlen, hbad⟩
      refine ⟨e :: es, ⟨es, hes, rfl⟩, ?_, ?_⟩
      · rw [List.length_cons]
        omega
      · rwa [List.length_cons, Nat.add_comm es.length, ← Nat.add_assoc]

end Rejected

/-- The loop stops at the line that is rejected. -/
theorem readDscpLines_error {lines : List (List Char)} {dscp l n : ℕ} {table : ℕ → DscpEntry}
    (hdscp : dscp ≤ dscpTableSize) :
    readDscpLines bounds lines dscp l table = .error n ↔
      ∃ k, n = l + k ∧ RejectedAt bounds lines dscp k := by
  induction lines generalizing dscp l table with
  | nil => simp [readDscpLines, RejectedAt]
  | cons line lines ih =>
    have hnext {c : ℕ → Prop} : (∃ k, n = l + k ∧ ∃ k', k = k' + 1 ∧ c k') ↔
        ∃ k', n = l + 1 + k' ∧ c k' := by
      constructor
      · rintro ⟨-, hn, k', rfl, hc⟩
        exact ⟨k', by omega, hc⟩
      · rintro ⟨k', hn, hc⟩
        exact ⟨k' + 1, by omega, k', rfl, hc⟩
    unfold readDscpLines
    cases hline : readDscpLine bounds line with
    | none => simp [rejectedAt_mistake hdscp hline, eq_comm]
    | some o =>
      cases o with
      | none =>
        simp only [rejectedAt_skip hline, hnext]
        exact ih hdscp
      | some e =>
        simp only
        split_ifs with hfull
        · simp [rejectedAt_full (Nat.le_antisymm hdscp hfull) hline, eq_comm]
        · have hlt : dscp < dscpTableSize := Nat.not_le.mp hfull
          simp only [rejectedAt_entry hlt hline, hnext]
          exact ih hlt

/-! ### Files -/

/-- The lines of a file, as `fgets` returns them. -/
def dscpLines (text : List Char) : List (List Char) := messages dscpLineMax dscpLineMax text

/-- The file holds the entries, and the table has room for them. -/
def HoldsEntries (bounds : DscpBounds) (text : List Char) (es : List DscpEntry) : Prop :=
  dscpEntries bounds (dscpLines text) = some es ∧ es.length ≤ dscpTableSize

/-- **What is loaded**: the entries of the file over the table of the caller. -/
theorem loadDscpTable_ok {text : List Char} {table table' : ℕ → DscpEntry} :
    loadDscpTable bounds (some text) table = .ok table' ↔
      ∃ es, HoldsEntries bounds text es ∧ table' = overwrite table 0 es := by
  simp only [loadDscpTable, readDscpLines_ok (Nat.zero_le _), Nat.zero_add, HoldsEntries,
    dscpLines, and_assoc]

/-- **What is rejected**: the file at the number of the first wrong line. -/
theorem loadDscpTable_error {text : List Char} {table : ℕ → DscpEntry} {n : ℕ} :
    loadDscpTable bounds (some text) table = .error n ↔
      ∃ k, n = 1 + k ∧ RejectedAt bounds (dscpLines text) 0 k :=
  readDscpLines_error (Nat.zero_le _)

/-- A file of entries is loaded. -/
theorem HoldsEntries.load {text : List Char} {es : List DscpEntry}
    (h : HoldsEntries bounds text es) (table : ℕ → DscpEntry) :
    loadDscpTable bounds (some text) table = .ok (overwrite table 0 es) :=
  loadDscpTable_ok.mpr ⟨es, h, rfl⟩

/-- A place behind the entries keeps what it held. -/
theorem overwrite_zero (table : ℕ → DscpEntry) (es : List DscpEntry) (i : ℕ) :
    overwrite table 0 es i = es.getD i (table i) := rfl

/-- The 64 entries that are read do not depend on what the table held. -/
def Determined (es : List DscpEntry) : Prop :=
  ∀ table table' : ℕ → DscpEntry, ∀ i < dscpTableSize,
    overwrite table 0 es i = overwrite table' 0 es i

/-- Entries behind the last one are left as they were. -/
theorem determined_iff {es : List DscpEntry} : Determined es ↔ dscpTableSize ≤ es.length := by
  constructor
  · intro h
    by_contra hlt
    have hlast := h (fun _ => ⟨0, 0, .green⟩) (fun _ => ⟨0, 0, .red⟩) es.length (Nat.not_le.mp hlt)
    simp [overwrite_zero] at hlast
  · intro hle table table' i hi
    rw [overwrite_zero, overwrite_zero, List.getD_eq_getElem _ _ (by omega),
      List.getD_eq_getElem _ _ (by omega)]

/-! ### Writing a table -/

/-- The letter of a colour. -/
def Color.show : Color → String
  | green => "g"
  | yellow => "y"
  | red => "r"

/-- A line in the format of the help text. -/
def DscpEntry.words (e : DscpEntry) : List String :=
  [showUint e.tcId, showUint e.tcQueueId, e.color.show]

/-- A file with an entry a line. -/
def showDscpTable (es : List DscpEntry) : List Char :=
  es.flatMap fun e => spaced e.words ++ ['\n']

/-- The entry is one that a file can hold. -/
def DscpEntry.InRange (bounds : DscpBounds) (e : DscpEntry) : Prop :=
  e.tcId < bounds.tcMax ∧ e.tcQueueId < bounds.tcQueueMax ∧ e.tcId < 2 ^ 32 ∧ e.tcQueueId < 2 ^ 32

/-- A line that starts with a digit is no comment. -/
theorem isComment_of_isDigit {c : Char} (hc : c.isDigit = true) (s : List Char) :
    isComment (c :: s) = false := by
  have hmem : c ∉ ['!', '#', '%', ';', '/', '-'] := by
    intro hmem
    have hall : ['!', '#', '%', ';', '/', '-'].all (fun d => !d.isDigit) = true := rfl
    have hnot := List.all_eq_true.mp hall c hmem
    rw [hc] at hnot
    cases hnot
  cases s with
  | nil => simp_all [isComment]
  | cons d s => simp_all [isComment]

/-- A color is a word. -/
theorem isWord_show (color : Color) : IsWord color.show := by
  cases color <;> decide

/-- An entry is printed in words. -/
theorem allWords_words (e : DscpEntry) : AllWords e.words :=
  allWords_cons.mpr ⟨isWord_showUint _, allWords_cons.mpr ⟨isWord_showUint _,
    allWords_cons.mpr ⟨isWord_show _, fun _ h => by cases h⟩⟩⟩

/-- No word of an entry is empty. -/
theorem tokensOf_words (e : DscpEntry) : tokensOf e.words = e.words := by
  have hcolor : e.color.show ≠ "" := by
    cases e.color <;> decide
  simp [tokensOf, DscpEntry.words, showUint_ne_empty, hcolor]

/-- A number that was printed is read back. -/
theorem parserReadUint_showUint_of_lt {n : ℕ} (h : n < 2 ^ 32) :
    parserReadUint 32 (showUint n) = .ok (.ofNat 32 n) := by
  have hread := parserReadUint_showUint (w := 32) (by decide) (.ofNat 32 n)
  rwa [BitVec.toNat_ofNat, Nat.mod_eq_of_lt h] at hread

/-- An entry in range is read back. -/
theorem readDscpEntry_words {e : DscpEntry} (he : e.InRange bounds) :
    readDscpEntry bounds e.words = some e := by
  obtain ⟨hid, hqueue, hid32, hqueue32⟩ := he
  have hcolor : readColor e.color.show = some e.color := by
    cases e.color <;> rfl
  unfold readDscpEntry DscpEntry.words
  simp only [parserReadUint_showUint_of_lt hid32, parserReadUint_showUint_of_lt hqueue32, hcolor,
    BitVec.toNat_ofNat, Nat.mod_eq_of_lt hid32, Nat.mod_eq_of_lt hqueue32, hid, hqueue, and_self,
    if_true]

/-- A line that is written is read as its entry. -/
theorem readDscpLine_words {e : DscpEntry} (he : e.InRange bounds) :
    readDscpLine bounds (spaced e.words ++ ['\n']) = some (some e) := by
  have hcomment : isComment (spaced e.words ++ ['\n']) = false := by
    obtain ⟨d, ds, hds⟩ :=
      List.exists_cons_of_ne_nil (Nat.toDigits_ne_nil : Nat.toDigits 10 e.tcId ≠ [])
    have hd : d.isDigit = true :=
      Nat.isDigit_of_mem_toDigits (by decide) (by decide) (hds ▸ List.mem_cons_self)
    rw [DscpEntry.words, spaced_cons, showUint, Nat.toList_repr, hds]
    exact isComment_of_isDigit hd _
  have htokens : (strtok (spaced e.words ++ ['\n'])).map String.ofList = e.words := by
    rw [strtok_spaced (allWords_words e), tokensOf_words]
    exact List.append_nil _
  unfold readDscpLine
  simp only [cString_spaced (allWords_words e), hcomment, htokens, Bool.false_eq_true, if_false]
  rw [DscpEntry.words]
  change (readDscpEntry bounds e.words).map some = _
  rw [readDscpEntry_words he]
  rfl

/-- A line that is written fits into the buffer. -/
theorem fits_words {e : DscpEntry} (he : e.InRange bounds) :
    '\n' ∉ spaced e.words ∧ (spaced e.words).length < dscpLineMax := by
  obtain ⟨-, -, hid, hqueue⟩ := he
  have hcolor : e.color.show.length = 1 := by
    cases e.color <;> rfl
  have hid' : (showUint e.tcId).length ≤ 10 :=
    length_showUint_le (by decide) (hid.trans (by decide))
  have hqueue' : (showUint e.tcQueueId).length ≤ 10 :=
    length_showUint_le (by decide) (hqueue.trans (by decide))
  refine ⟨fun h => (mem_spaced (allWords_words e) h).1 rfl, ?_⟩
  rw [length_spaced, DscpEntry.words, textLength_cons, textLength_cons, textLength_cons, hcolor]
  simp only [textLength, List.map_nil, List.sum_nil, dscpLineMax]
  omega

/-- A file that is written holds the entries that it was written from. -/
theorem holdsEntries_showDscpTable {es : List DscpEntry} (hes : ∀ e ∈ es, e.InRange bounds)
    (hlen : es.length ≤ dscpTableSize) : HoldsEntries bounds (showDscpTable es) es := by
  refine ⟨?_, hlen⟩
  have hlines : dscpLines (showDscpTable es) =
      (es.map fun e => spaced e.words).map (· ++ ['\n']) := by
    have hfits : ∀ line ∈ es.map fun e => spaced e.words,
        '\n' ∉ line ∧ line.length < dscpLineMax := by
      intro line hline
      obtain ⟨e, he, rfl⟩ := List.mem_map.mp hline
      exact fits_words (hes e he)
    rw [dscpLines, ← messages_lines hfits, showDscpTable, List.flatMap_map]
  rw [hlines, List.map_map]
  clear hlines hlen
  induction es with
  | nil => rfl
  | cons e es ih =>
    obtain ⟨he, hes⟩ := List.forall_mem_cons.mp hes
    rw [List.map_cons]
    unfold dscpEntries
    rw [Function.comp_apply, readDscpLine_words he]
    simp only [ih hes, Option.map_some]

/-! ### The file format -/

variable (bounds)

/-- **What a DSCP file does to a table.** The lines of an accepted file are entries, of which there
is room for 64, and they are written in order to the places from 0 on; what is sent to the library
depends on the file alone exactly when it holds all 64 entries. The line that is named where a file
is rejected is the first that is no entry, or for which there is no room. Entries that are
written to a file are read as they were. -/
theorem loadDscpTable_spec :
    (∀ text table table', loadDscpTable bounds (some text) table = .ok table' ↔
      ∃ es, HoldsEntries bounds text es ∧ table' = overwrite table 0 es) ∧
    (∀ text es, HoldsEntries bounds text es →
      (Determined es ↔ es.length = dscpTableSize)) ∧
    (∀ text table n, loadDscpTable bounds (some text) table = .error n ↔
      ∃ k, n = 1 + k ∧ RejectedAt bounds (dscpLines text) 0 k) ∧
    ∀ es table, (∀ e ∈ es, e.InRange bounds) → es.length ≤ dscpTableSize →
      loadDscpTable bounds (some (showDscpTable es)) table = .ok (overwrite table 0 es) := by
  refine ⟨fun _ _ _ => loadDscpTable_ok, fun text es hes => ?_, fun _ _ _ => loadDscpTable_error,
    fun es table hes hlen => (holdsEntries_showDscpTable hes hlen).load table⟩
  rw [determined_iff]
  exact ⟨fun h => Nat.le_antisymm hes.2 h, fun h => h.ge⟩

end Load

/-- A file with one entry, which leaves 63 entries of the table as they were. -/
theorem loadDscpTable_spec_oneEntry :
    loadDscpTable ⟨16, 16⟩ (some (showDscpTable [⟨1, 2, .green⟩])) (fun _ => ⟨0, 0, .red⟩) =
        .ok (overwrite (fun _ => ⟨0, 0, .red⟩) 0 [⟨1, 2, .green⟩]) ∧
      ¬ Determined [⟨1, 2, .green⟩] := by
  obtain ⟨-, hdetermined, -, hshow⟩ := loadDscpTable_spec ⟨16, 16⟩
  have hrange : ∀ e ∈ [(⟨1, 2, .green⟩ : DscpEntry)], e.InRange ⟨16, 16⟩ := by
    simp [DscpEntry.InRange]
  have hholds := holdsEntries_showDscpTable hrange (by decide)
  refine ⟨hshow _ _ hrange (by decide), ?_⟩
  rw [hdetermined _ _ hholds]
  decide

end Rids.Pipeline
