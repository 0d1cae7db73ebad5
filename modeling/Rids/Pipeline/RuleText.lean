import Mathlib.Data.List.TakeWhile
import Rids.Pipeline.RuleFile

/-!
# The text of a rule file read back

A line of words with blanks is cut into the same words, and a number, a hex string or an Ethernet
address that is printed reads as what was printed.

* `strtok_spaced`, `readRuleLine_spaced` — a line of words.
* `messages_lines` — a file of lines.
* `parserReadUint_showUint`, `parseHexString_showByte`, `parseMacAddr_etherAddrShow` — words.
-/

namespace Rids.Pipeline

open Rids.Lib.ByteMem

/-! ### Words -/

/-- A character that can stand in a word. -/
def isWordChar (c : Char) : Bool := !isDelimiter c && c ≠ '\x00'

/-- A string without delimiters. -/
def IsWord (w : String) : Prop := ∀ c ∈ w.toList, isWordChar c = true

instance (w : String) : Decidable (IsWord w) :=
  decidable_of_iff (w.toList.all isWordChar = true) List.all_eq_true

/-- All strings of the list are words. -/
def AllWords (ws : List String) : Prop := ∀ w ∈ ws, IsWord w

instance (ws : List String) : Decidable (AllWords ws) :=
  inferInstanceAs (Decidable (∀ w ∈ ws, IsWord w))

/-- Two words written together are a word. -/
theorem IsWord.append {w w' : String} (h : IsWord w) (h' : IsWord w') : IsWord (w ++ w') := by
  intro c hc
  rw [String.toList_append, List.mem_append] at hc
  rcases hc with hc | hc
  · exact h c hc
  · exact h' c hc

/-- No words. -/
theorem allWords_nil : AllWords [] := fun _ h => absurd h List.not_mem_nil

/-- A word in front of others. -/
theorem allWords_cons {w : String} {ws : List String} :
    AllWords (w :: ws) ↔ IsWord w ∧ AllWords ws :=
  List.forall_mem_cons

/-- Two groups of words. -/
theorem allWords_append {ws ws' : List String} :
    AllWords (ws ++ ws') ↔ AllWords ws ∧ AllWords ws' :=
  List.forall_mem_append

/-- The tokens of a list of words: the empty ones are not seen. -/
def tokensOf (ws : List String) : List String := ws.filter fun w => w ≠ ""

/-- The tokens of two groups of words. -/
theorem tokensOf_append (ws ws' : List String) :
    tokensOf (ws ++ ws') = tokensOf ws ++ tokensOf ws' :=
  List.filter_append ..

/-- The text of no words. -/
theorem spaced_nil : spaced [] = [] := rfl

/-- The text of a word in front of others. -/
theorem spaced_cons (w : String) (ws : List String) :
    spaced (w :: ws) = w.toList ++ ' ' :: spaced ws := by
  rw [spaced, List.flatMap_cons, List.append_assoc]
  rfl

/-- A word is cut off at the blank behind it. -/
theorem strtok_word {w : String} (hw : IsWord w) (rest : List Char) :
    (strtok (w.toList ++ ' ' :: rest)).map String.ofList =
      tokensOf [w] ++ (strtok rest).map String.ofList := by
  rw [strtok_append_cons _ _ (by decide), List.map_append]
  apply congrArg (· ++ (strtok rest).map String.ofList)
  by_cases hempty : w = ""
  · subst hempty
    rfl
  · have hne : w.toList ≠ [] := fun h => hempty (String.toList_eq_nil_iff.mp h)
    rw [strtok_of_forall hne, List.map_singleton, String.ofList_toList]
    · simp [tokensOf, hempty]
    · intro c hc
      have hchar := hw c hc
      rw [isWordChar, Bool.and_eq_true, Bool.not_eq_true'] at hchar
      exact hchar.1

/-- A line of words is cut into its words. -/
theorem strtok_spaced {ws : List String} (hws : AllWords ws) (rest : List Char) :
    (strtok (spaced ws ++ rest)).map String.ofList =
      tokensOf ws ++ (strtok rest).map String.ofList := by
  induction ws with
  | nil => rfl
  | cons w ws ih =>
    obtain ⟨hw, hws⟩ := allWords_cons.mp hws
    rw [spaced_cons, List.append_assoc, List.cons_append, strtok_word hw, ih hws,
      ← List.append_assoc, ← tokensOf_append]
    rfl

/-- The text of words has neither newline nor NUL. -/
theorem mem_spaced {ws : List String} (hws : AllWords ws) {c : Char} (hc : c ∈ spaced ws) :
    c ≠ '\n' ∧ c ≠ '\x00' := by
  induction ws with
  | nil => cases hc
  | cons w ws ih =>
    obtain ⟨hw, hws⟩ := allWords_cons.mp hws
    rw [spaced_cons, List.mem_append, List.mem_cons] at hc
    rcases hc with hc | rfl | hc
    · have hchar := hw c hc
      rw [isWordChar, Bool.and_eq_true, decide_eq_true_eq] at hchar
      refine ⟨?_, hchar.2⟩
      rintro rfl
      exact absurd hchar.1 (by decide)
    · exact ⟨by decide, by decide⟩
    · exact ih hws hc

/-- The text of words is read to its end. -/
theorem cString_spaced {ws : List String} (hws : AllWords ws) :
    cString (spaced ws ++ ['\n']) = spaced ws ++ ['\n'] := by
  apply List.takeWhile_eq_self_iff.mpr
  intro c hc
  rw [decide_eq_true_eq]
  rcases List.mem_append.mp hc with hc | hc
  · exact (mem_spaced hws hc).2
  · rw [List.mem_singleton.mp hc]
    decide

/-! ### Lines -/

/-- The length of the text of a list of words. -/
def textLength (ws : List String) : ℕ := (ws.map fun w => w.length + 1).sum

/-- The length of the text of words. -/
theorem length_spaced (ws : List String) : (spaced ws).length = textLength ws := by
  simp [spaced, textLength, List.length_flatMap, String.length_toList]

/-- The length of two groups of words. -/
theorem textLength_append (ws ws' : List String) :
    textLength (ws ++ ws') = textLength ws + textLength ws' := by
  simp [textLength]

/-- The length of a word in front of others. -/
theorem textLength_cons (w : String) (ws : List String) :
    textLength (w :: ws) = w.length + 1 + textLength ws := by
  simp [textLength]

/-- There are no more tokens than words. -/
theorem length_tokensOf_le (ws : List String) : (tokensOf ws).length ≤ ws.length :=
  List.length_filter_le _ _

section Lines

variable {S : Type} {inet : InetPton} {symCrypto : List String → Parse (S × ℕ)}

/-- A line of words that starts with `match` is read as the rule of its words. -/
theorem readRuleLine_spaced {ws : List String} (hws : AllWords ("match" :: ws))
    (hcount : ws.length < cmdMaxTokens) :
    readRuleLine inet symCrypto (spaced ("match" :: ws) ++ ['\n']) =
      (parseFileRule inet symCrypto ("match" :: tokensOf ws)).map some := by
  have hcomment : isComment (spaced ("match" :: ws) ++ ['\n']) = false := rfl
  have htokens : parseTokenizeString (spaced ("match" :: ws) ++ ['\n']) =
      some ("match" :: tokensOf ws) := by
    have hle := length_tokensOf_le ws
    have hlen : ¬ cmdMaxTokens < (("match" :: tokensOf ws).length) := by
      rw [List.length_cons]
      omega
    unfold parseTokenizeString
    rw [strtok_spaced hws, show tokensOf ("match" :: ws) ++ (strtok ['\n']).map String.ofList =
      "match" :: tokensOf ws from List.append_nil _, if_neg hlen]
  unfold readRuleLine
  simp only [cString_spaced hws, hcomment, htokens, Bool.false_eq_true, if_false]

/-- A file of lines that fit into the buffer. -/
theorem messages_lines {n : ℕ} {lines : List (List Char)}
    (hlines : ∀ line ∈ lines, '\n' ∉ line ∧ line.length < n) :
    messages n n (lines.flatMap (· ++ ['\n'])) = lines.map (· ++ ['\n']) := by
  induction lines with
  | nil => rfl
  | cons line lines ih =>
    obtain ⟨⟨hline, hlen⟩, hlines⟩ := List.forall_mem_cons.mp hlines
    rw [List.flatMap_cons, List.append_assoc, List.singleton_append, messages_line hline hlen,
      ih hlines]
    rfl

end Lines

/-! ### Numbers -/

/-- The decimal text of a number is a word. -/
theorem isWord_showUint (n : ℕ) : IsWord (showUint n) := by
  intro c hc
  rw [showUint, Nat.toList_repr] at hc
  have hdigit := Nat.isDigit_of_mem_toDigits (by decide) (by decide) hc
  have hnotDelimiter : isDelimiter c = false := by
    apply decide_eq_false
    intro hmem
    have hall : parseDelimiter.all (fun d => !d.isDigit) = true := rfl
    have hnot := List.all_eq_true.mp hall c hmem
    rw [hdigit] at hnot
    cases hnot
  have hnotNul : c ≠ '\x00' := by
    rintro rfl
    cases hdigit
  rw [isWordChar, hnotDelimiter, Bool.not_false, Bool.true_and]
  exact decide_eq_true hnotNul

/-- A number has a text. -/
theorem showUint_ne_empty (n : ℕ) : showUint n ≠ "" := Nat.repr_ne_empty

/-- The digits of a bounded number. -/
theorem length_showUint_le {n k : ℕ} (hk : 0 < k) (h : n < 10 ^ k) : (showUint n).length ≤ k :=
  (Nat.length_repr_le_iff hk).mpr h

/-- The value of the decimal digits of a number. -/
theorem decimal_toDigits (n : ℕ) : decimal (Nat.toDigits 10 n) = n := by
  have hfold : decimal (Nat.toDigits 10 n) = Nat.ofDigitChars 10 (Nat.toDigits 10 n) 0 := by
    rw [decimal, Nat.ofDigitChars_eq_foldl]
    simp only [Nat.mul_comm]
  rw [hfold, Nat.ofDigitChars_ten_toDigits]

/-- A number that is printed reads as itself. -/
theorem parserReadUint64_showUint {n : ℕ} (h : n < 2 ^ 64) :
    parserReadUint64 (showUint n) = .ok (.ofNat 64 n) := by
  have hdigits : ∀ c ∈ Nat.toDigits 10 n, c.isDigit = true :=
    fun c hc => Nat.isDigit_of_mem_toDigits (by decide) (by decide) hc
  obtain ⟨d, ds, hds⟩ := List.exists_cons_of_ne_nil (Nat.toDigits_ne_nil : Nat.toDigits 10 n ≠ [])
  have hd : d.isDigit = true := hdigits d (hds ▸ List.mem_cons_self)
  have hspace : isSpace d = false := by
    rw [Char.isDigit, Bool.and_eq_true, decide_eq_true_eq, decide_eq_true_eq] at hd
    have hlo : 48 ≤ d.toNat := hd.1
    rw [isSpace, Bool.or_eq_false_iff, Bool.and_eq_false_iff]
    refine ⟨?_, .inr ?_⟩
    · apply decide_eq_false
      rintro rfl
      exact absurd hlo (by decide)
    · apply decide_eq_false
      omega
  have hskip : skipWhiteSpaces (Nat.toDigits 10 n) = Nat.toDigits 10 n := by
    rw [hds, skipWhiteSpaces, List.dropWhile_cons_of_neg (by rw [hspace]; exact Bool.false_ne_true)]
  have htake : (Nat.toDigits 10 n).takeWhile Char.isDigit = Nat.toDigits 10 n :=
    List.takeWhile_eq_self_iff.mpr hdigits
  have hdrop : (Nat.toDigits 10 n).dropWhile Char.isDigit = [] :=
    List.dropWhile_eq_nil_iff.mpr hdigits
  have hhead : (Nat.toDigits 10 n).head?.all (!·.isDigit) = false := by
    rw [hds, List.head?_cons, Option.all_some, hd]
    rfl
  have hmin : min n (2 ^ 64 - 1) = n := by omega
  unfold parserReadUint64 strtoul10
  rw [showUint, Nat.toList_repr, hskip]
  simp only [hhead, htake, hdrop, decimal_toDigits, hmin]
  rfl

/-- A number that was printed is read back, at every width. -/
theorem parserReadUint_showUint {w : ℕ} (hw : w ≤ 64) (v : BitVec w) :
    parserReadUint w (showUint v.toNat) = .ok v := by
  have hlt : v.toNat < 2 ^ 64 := v.isLt.trans_le (Nat.pow_le_pow_right (by decide) hw)
  rw [parserReadUint_ok_iff]
  refine ⟨_, parserReadUint64_showUint hlt, ?_⟩
  rw [BitVec.toNat_ofNat, Nat.mod_eq_of_lt hlt]

/-! ### Bytes in hexadecimal -/

/-- What the readers ask of the character of a digit. -/
theorem digitChar_spec {d : ℕ} (hd : d < 16) :
    isHexDigit d.digitChar = true ∧ getHexVal d.digitChar = d ∧ isWordChar d.digitChar = true ∧
      isSpace d.digitChar = false ∧ d.digitChar ∉ ['-', '+', 'x', 'X'] := by
  revert d
  decide

/-- The character of a hex digit is one. -/
theorem isHexDigit_digitChar {d : ℕ} (hd : d < 16) : isHexDigit d.digitChar = true :=
  (digitChar_spec hd).1

/-- The value of the character of a hex digit. -/
theorem getHexVal_digitChar {d : ℕ} (hd : d < 16) : getHexVal d.digitChar = d :=
  (digitChar_spec hd).2.1

section Byte

variable (b : BitVec 8)

/-- The high half of a byte. -/
theorem high_lt : b.toNat / 16 < 16 := Nat.div_lt_of_lt_mul b.isLt

/-- The low half of a byte. -/
theorem low_lt : b.toNat % 16 < 16 := Nat.mod_lt _ (by decide)

/-- A byte is printed in hex digits. -/
theorem isHexDigit_of_mem_showByte : ∀ c ∈ showByte b, isHexDigit c = true := by
  intro c hc
  rcases List.mem_pair.mp hc with rfl | rfl
  · exact isHexDigit_digitChar (high_lt b)
  · exact isHexDigit_digitChar (low_lt b)

/-- A byte is printed in word characters. -/
theorem isWordChar_of_mem_showByte : ∀ c ∈ showByte b, isWordChar c = true := by
  intro c hc
  rcases List.mem_pair.mp hc with rfl | rfl
  · exact (digitChar_spec (high_lt b)).2.2.1
  · exact (digitChar_spec (low_lt b)).2.2.1

/-- A printed byte is read back. -/
theorem getHexVal_showByte :
    getHexVal (b.toNat / 16).digitChar * 16 + getHexVal (b.toNat % 16).digitChar = b.toNat := by
  rw [getHexVal_digitChar (high_lt b), getHexVal_digitChar (low_lt b)]
  exact Nat.div_add_mod' _ _

end Byte

/-- A byte is two characters. -/
theorem length_flatMap_showByte (bs : List (BitVec 8)) :
    (bs.flatMap showByte).length = 2 * bs.length := by
  induction bs with
  | nil => rfl
  | cons b bs ih =>
    rw [List.flatMap_cons, List.length_append, ih, List.length_cons, showByte]
    exact (Nat.add_comm _ _).trans (Nat.mul_succ _ _).symm

/-- The two digits of byte `i`. -/
theorem getD_flatMap_showByte {bs : List (BitVec 8)} {i : ℕ} (hi : i < bs.length) :
    (bs.flatMap showByte).getD (2 * i) '0' = (bs[i].toNat / 16).digitChar ∧
      (bs.flatMap showByte).getD (2 * i + 1) '0' = (bs[i].toNat % 16).digitChar := by
  induction bs generalizing i with
  | nil => cases hi
  | cons b bs ih =>
    cases i with
    | zero => exact ⟨rfl, rfl⟩
    | succ i => exact ih (Nat.lt_of_succ_lt_succ hi)

/-- A printed key is a word. -/
theorem isWord_flatMap_showByte (bs : List (BitVec 8)) :
    IsWord (.ofList (bs.flatMap showByte)) := by
  intro c hc
  rw [String.toList_ofList, List.mem_flatMap] at hc
  obtain ⟨b, -, hc⟩ := hc
  exact isWordChar_of_mem_showByte b c hc

/-- Bytes that are printed read as themselves, if their number is even. -/
theorem parseHexString_showByte {bs : List (BitVec 8)} {size : ℕ} (hsize : 0 < size)
    (heven : bs.length % 2 = 0) (hle : bs.length ≤ size) :
    ∃ bytes, parseHexString (.ofList (bs.flatMap showByte)) size = some (bytes, bs.length) ∧
      ∀ i (hi : i < bs.length), bytes i = bs[i] := by
  have hlen := length_flatMap_showByte bs
  have hall : (bs.flatMap showByte).all isHexDigit = true := by
    apply List.all_eq_true.mpr
    intro c hc
    obtain ⟨b, -, hc⟩ := List.mem_flatMap.mp hc
    exact isHexDigit_of_mem_showByte b c hc
  have hgo : ¬ (size = 0 ∨ (bs.flatMap showByte).length % 4 ≠ 0 ∨
      size * 2 < (bs.flatMap showByte).length ∨
      (!(bs.flatMap showByte).all isHexDigit) = true) := by
    rw [hall]
    rintro (h | h | h | h)
    · omega
    · omega
    · omega
    · cases h
  refine ⟨fun i => .ofNat 8 (getHexVal ((bs.flatMap showByte).getD (2 * i) '0') * 16 +
    getHexVal ((bs.flatMap showByte).getD (2 * i + 1) '0')), ?_, ?_⟩
  · unfold parseHexString
    simp only [String.toList_ofList]
    rw [if_neg hgo, hlen, Nat.mul_div_cancel_left _ (by decide : 0 < 2)]
  · intro i hi
    obtain ⟨hhigh, hlow⟩ := getD_flatMap_showByte hi
    simp only [hhigh, hlow, getHexVal_showByte, BitVec.ofNat_toNat, BitVec.setWidth_eq]

/-! ### Ethernet addresses -/

/-- Two digits are read up to what follows them. -/
theorem strtoul16_showByte (b : BitVec 8) {rest : List Char}
    (hrest : rest.head?.all fun c => !isHexDigit c) :
    strtoul16 (showByte b ++ rest) = some (b.setWidth 64, rest) := by
  obtain ⟨hhex, -, -, hspace, hnot⟩ := digitChar_spec (high_lt b)
  obtain ⟨hhex', -, -, -, hnot'⟩ := digitChar_spec (low_lt b)
  have hval := getHexVal_showByte b
  unfold showByte at *
  generalize (b.toNat / 16).digitChar = c at *
  generalize (b.toNat % 16).digitChar = c' at *
  simp only [List.mem_cons, List.not_mem_nil, or_false, not_or] at hnot hnot'
  have hskip : skipWhiteSpaces ([c, c'] ++ rest) = c :: c' :: rest :=
    List.dropWhile_cons_of_neg (by rw [hspace]; exact Bool.false_ne_true)
  have hsign : strtoulSign (c :: c' :: rest) = (false, c :: c' :: rest) := by
    unfold strtoulSign
    split
    · rename_i heq
      exact absurd (List.cons.inj heq).1 hnot.1
    · rename_i heq
      exact absurd (List.cons.inj heq).1 hnot.2.1
    · rfl
  have hstart : strtoulHexPrefix (c :: c' :: rest) = c :: c' :: rest := by
    unfold strtoulHexPrefix
    split
    · rename_i heq
      obtain ⟨-, hrest⟩ := List.cons.inj heq
      obtain ⟨rfl, -⟩ := List.cons.inj hrest
      rw [if_neg]
      rintro ⟨hx | hx, -⟩
      · exact hnot'.2.2.1 hx
      · exact hnot'.2.2.2 hx
    · rfl
  have hnil : rest.takeWhile isHexDigit = [] ∧ rest.dropWhile isHexDigit = rest := by
    cases rest with
    | nil => exact ⟨rfl, rfl⟩
    | cons d rest =>
      have hd : ¬ isHexDigit d = true := by simpa using hrest
      exact ⟨List.takeWhile_cons_of_neg hd, List.dropWhile_cons_of_neg hd⟩
  have htake : (c :: c' :: rest).takeWhile isHexDigit = [c, c'] := by
    rw [List.takeWhile_cons_of_pos hhex, List.takeWhile_cons_of_pos hhex', hnil.1]
  have hdrop : (c :: c' :: rest).dropWhile isHexDigit = rest := by
    rw [List.dropWhile_cons_of_pos hhex, List.dropWhile_cons_of_pos hhex', hnil.2]
  have hhexadecimal : hexadecimal [c, c'] = b.toNat := by
    rw [← hval]
    simp [hexadecimal]
  have hlt : ¬ 2 ^ 64 ≤ b.toNat := Nat.not_le.mpr (b.isLt.trans (by decide))
  unfold strtoul16
  rw [hskip, hsign]
  simp only [hstart, htake, hdrop, hhexadecimal, hlt, List.cons_ne_nil, or_self, if_false,
    Bool.false_eq_true, BitVec.ofNat_toNat]

/-- Bytes with colons between them are read one after the other. -/
theorem etherWords_intercalate {bs : List (BitVec 8)} (hne : bs ≠ []) {n : ℕ}
    (hle : bs.length ≤ n) :
    etherWords n (List.intercalate [':'] (bs.map showByte)) =
      some (bs.map fun b => b.setWidth 64) := by
  induction bs generalizing n with
  | nil => exact absurd rfl hne
  | cons b bs ih =>
    obtain ⟨n, rfl⟩ := Nat.exists_eq_add_of_le' (Nat.succ_le_of_lt (Nat.zero_lt_of_lt hle))
    cases bs with
    | nil =>
      have hread : strtoul16 (showByte b ++ []) = _ := strtoul16_showByte b rfl
      rw [List.append_nil] at hread
      rw [List.map_singleton, List.intercalate_singleton, etherWords, hread]
      rfl
    | cons b' bs =>
      have hn : n ≠ 0 := by
        simp only [List.length_cons] at hle
        omega
      rw [List.map_cons, List.map_cons, List.intercalate_cons_cons, List.append_assoc,
        etherWords, strtoul16_showByte b rfl]
      simp only [List.singleton_append, hn, ne_eq, not_false_eq_true, and_self, if_true]
      rw [← List.map_cons, ih (List.cons_ne_nil _ _) (Nat.le_of_succ_le_succ hle)]
      rfl

/-- An address that is printed reads as itself. -/
theorem parseMacAddr_etherAddrShow (addr : EtherAddr) :
    parseMacAddr (etherAddrShow addr) = some addr := by
  obtain ⟨bytes, hbytes⟩ := addr
  have hne : bytes ≠ [] := List.ne_nil_of_length_pos (by omega)
  have hlen : (bytes.map fun b => b.setWidth 64).length = 6 := by rw [List.length_map, hbytes]
  have hall : ((bytes.map fun b => b.setWidth 64).all fun (x : BitVec 64) =>
      x.toNat ≤ 0xff) = true := by
    apply List.all_eq_true.mpr
    intro x hx
    obtain ⟨b, -, rfl⟩ := List.mem_map.mp hx
    have hb := b.isLt
    rw [BitVec.toNat_setWidth, decide_eq_true_eq]
    exact (Nat.mod_le _ _).trans (by omega)
  have hback : (bytes.map fun b => b.setWidth 64).map (fun (x : BitVec 64) => x.setWidth 8) =
      bytes := by
    rw [List.map_map]
    conv_rhs => rw [← List.map_id bytes]
    apply List.map_congr_left
    intro b _
    exact (BitVec.setWidth_setWidth_of_le b (by decide)).trans (BitVec.setWidth_eq b)
  unfold parseMacAddr etherAddrShow
  rw [String.toList_ofList, etherWords_intercalate hne hbytes.le]
  simp only [hlen, hall, hback, dite_true, if_true]

end Rids.Pipeline
