import Rids.Lib.Fallible
import Rids.Lib.TokenPattern
import Rids.Pipeline.AclCommand
import Rids.Pipeline.SymCrypto

/-!
# What a reader asks of the token it reads

For every reader of tokens: which tokens it accepts (`At`), and when it reads past the end of its
array (`Overruns`).
-/

namespace Rids.Pipeline

open Rids.Lib.ByteMem Rids.Lib.Fallible Rids.Lib.TokenPattern

/-! ### Tokens -/

/-- The token is a word. -/
def Is (word t : String) : Prop := t = word

/-- The token is a number of `w` bits. -/
def IsUint (w : ℕ) (t : String) : Prop := ∃ v, parserReadUint w t = .ok v

/-- The token is a number of `w` bits that is not above a bound. -/
def IsUintLe (w bound : ℕ) (t : String) : Prop :=
  ∃ v, parserReadUint w t = .ok v ∧ v.toNat ≤ bound

/-- The token is a number that fits into a field of `w` bits. -/
def IsBounded (w : ℕ) : String → Prop := IsUintLe 32 (2 ^ w - 1)

/-- The token is one that a partial reader accepts. -/
def ReadBy {α : Type} (read : String → Option α) (t : String) : Prop := ∃ a, read t = some a

instance (w : ℕ) (t : String) : Decidable (IsUint w t) :=
  match h : parserReadUint w t with
  | .ok v => .isTrue ⟨v, h⟩
  | .error e => .isFalse (by rintro ⟨v, hv⟩; rw [h] at hv; cases hv)

/-- A number of few bits is one of more. -/
theorem IsUint.mono {w w' : ℕ} {t : String} (hle : w ≤ w') (h : IsUint w t) : IsUint w' t := by
  obtain ⟨v, hv⟩ := h
  obtain ⟨val, hval, hnat⟩ := parserReadUint_ok_iff.mp hv
  refine ⟨v.setWidth w', parserReadUint_ok_iff.mpr ⟨val, hval, ?_⟩⟩
  rw [hnat, BitVec.toNat_setWidth_of_le hle]

section Accepts

variable {α : Type} {tokens : List String} {i w : ℕ} {name : String}

/-- A word at a position. -/
theorem at_is : At tokens i (Is name) ↔ tokens[i]? = some name := at_eq

/-- A keyword is read where it stands. -/
theorem keyword_ok {u : Unit} : keyword tokens i name = .ok u ↔ At tokens i (Is name) := by
  rw [keyword_eq_ok, at_is]

/-- An expected word is read where it stands. -/
theorem expect_ok {u : Unit} : expect tokens i name = .ok u ↔ At tokens i (Is name) := by
  rw [expect, bind_eq_ok, at_is]
  simp [arg_eq_ok, ensure_eq_ok]

/-- A number is read where one stands. -/
theorem readUint_ok :
    (∃ n, readUint tokens i name (parserReadUint w) = .ok n) ↔ At tokens i (IsUint w) := by
  simp only [readUint_eq_ok, TokenUint, At, IsUint]
  constructor
  · rintro ⟨-, v, ⟨t, ht, hv⟩, -⟩
    exact ⟨t, ht, v, hv⟩
  · rintro ⟨t, ht, v, hv⟩
    exact ⟨v.toNat, v, ⟨t, ht, hv⟩, rfl⟩

/-- A number is read and is not above a bound where such a one stands. -/
theorem readUint_le_ok {bound : ℕ} {c : Prop} :
    (∃ n, readUint tokens i name (parserReadUint w) = .ok n ∧ n ≤ bound ∧ c) ↔
      At tokens i (IsUintLe w bound) ∧ c := by
  simp only [readUint_eq_ok, TokenUint, At, IsUintLe]
  constructor
  · rintro ⟨-, ⟨v, ⟨t, ht, hv⟩, rfl⟩, hle, hc⟩
    exact ⟨⟨t, ht, v, hv, hle⟩, hc⟩
  · rintro ⟨⟨t, ht, v, hv, hle⟩, hc⟩
    exact ⟨v.toNat, ⟨v, ⟨t, ht, hv⟩, rfl⟩, hle, hc⟩

/-- An address is read where one stands. -/
theorem readAddr_ok {parse : String → Option Mem} :
    (∃ a, readAddr tokens i name parse = .ok a) ↔ At tokens i (ReadBy parse) := by
  simp only [readAddr_eq_ok, TokenAddr, At, ReadBy]
  constructor
  · rintro ⟨a, t, ht, ha⟩
    exact ⟨t, ht, a, ha⟩
  · rintro ⟨t, ht, a, ha⟩
    exact ⟨a, t, ht, ha⟩

/-- A token is read as its reader reads it. -/
theorem readToken_eq_ok {read : String → Except Errno (BitVec w)} {t : String} {v : BitVec w} :
    readToken read t = .ok v ↔ read t = .ok v := by
  unfold readToken
  cases read t <;> simp

/-- A partial reader, as it reads. -/
theorem orSilent_eq_ok {o : Option α} {a : α} : orSilent o = .ok a ↔ o = some a := by
  cases o <;> simp [orSilent]

/-- A number is read where one stands. -/
theorem readSilent_ok :
    (∃ v, readSilent tokens i (parserReadUint w) = .ok v) ↔ At tokens i (IsUint w) := by
  simp only [readSilent, bind_eq_ok, arg_eq_ok, readToken_eq_ok, At, IsUint]
  exact exists_comm.trans (exists_congr fun t => exists_and_left)

/-- A number is read and is not above a bound where such a one stands. -/
theorem readSilent_le_ok {bound : ℕ} {c : Prop} :
    (∃ v, readSilent tokens i (parserReadUint w) = .ok v ∧ v.toNat ≤ bound ∧ c) ↔
      At tokens i (IsUintLe w bound) ∧ c := by
  simp only [readSilent, bind_eq_ok, arg_eq_ok, readToken_eq_ok, At, IsUintLe]
  constructor
  · rintro ⟨v, ⟨t, ht, hv⟩, hle, hc⟩
    exact ⟨⟨t, ht, v, hv, hle⟩, hc⟩
  · rintro ⟨⟨t, ht, v, hv, hle⟩, hc⟩
    exact ⟨v, ⟨t, ht, hv⟩, hle, hc⟩

/-- A bounded number is read where one stands. -/
theorem readBounded_ok :
    (∃ v, readBounded tokens i w = .ok v) ↔ At tokens i (IsBounded w) := by
  rw [IsBounded, ← and_true (At _ _ _), ← readSilent_le_ok]
  simp only [readBounded, bind_eq_ok, ensure_eq_ok, decide_eq_true_eq, Except.ok.injEq, and_true]
  constructor
  · rintro ⟨-, v, hv, u, hle, -⟩
    exact ⟨v, hv, hle⟩
  · rintro ⟨v, hv, hle⟩
    exact ⟨_, v, hv, (), hle, rfl⟩

/-- A token that is handed to a partial reader. -/
theorem exists_readBy {read : String → Option α} {c : Prop} :
    (∃ t, tokens[i]? = some t ∧ (∃ a, read t = some a) ∧ c) ↔ At tokens i (ReadBy read) ∧ c := by
  rw [At, ← exists_and_right]
  exact exists_congr fun t => and_assoc.symm

/-- A partial reader on a token. -/
theorem readOption_eq_ok {read : String → Option α} {a : α} :
    readOption tokens i read = .ok a ↔ At tokens i (fun t => read t = some a) := by
  simp only [readOption, bind_eq_ok, arg_eq_ok, orSilent_eq_ok, At]

/-- A token that a partial reader accepts. -/
theorem exists_at_read {read : String → Option α} :
    (∃ a, At tokens i (fun t => read t = some a)) ↔ At tokens i (ReadBy read) := by
  simp only [At, ReadBy]
  exact exists_comm.trans (exists_congr fun t => exists_and_left)

/-- A partial reader reads where it accepts the token. -/
theorem readOption_ok {read : String → Option α} :
    (∃ a, readOption tokens i read = .ok a) ↔ At tokens i (ReadBy read) := by
  rw [← exists_at_read]
  exact exists_congr fun a => readOption_eq_ok

end Accepts

/-! ### Reads past the end -/

/-- The computation reads a token past the end of its array. -/
def Overruns {α : Type} (x : Parse α) : Prop := Raises (fun e => ∃ i, e = .unread i) x

instance {α : Type} (x : Parse α) : Decidable (Overruns x) :=
  match x with
  | .ok a => .isFalse (raises_ok a)
  | .error (.unread i) => .isTrue ⟨_, ⟨i, rfl⟩, rfl⟩
  | .error .silent => .isFalse (by simp [Overruns, raises_error])
  | .error (.argNotFound name) => .isFalse (by simp [Overruns, raises_error])
  | .error (.argMismatch name) => .isFalse (by simp [Overruns, raises_error])
  | .error (.argInvalid name) => .isFalse (by simp [Overruns, raises_error])

section Overruns

variable {α β : Type} {tokens : List String} {i w : ℕ} {name : String}

/-- A result is not past the end. -/
theorem overruns_ok (a : α) : ¬ Overruns (.ok a) := raises_ok a

/-- Only the error of a missing token is past the end. -/
theorem overruns_error {e : ParseError} :
    Overruns (.error e : Parse α) ↔ ∃ i, e = .unread i := raises_error

/-- A bind goes past the end in its first part or behind it. -/
theorem overruns_bind {x : Parse α} {f : α → Parse β} :
    Overruns (x >>= f) ↔ Overruns x ∨ ∃ a, x = .ok a ∧ Overruns (f a) := raises_bind

/-- A conditional goes past the end where the branch taken does. -/
theorem overruns_ite {c : Prop} [Decidable c] {x y : Parse α} :
    Overruns (if c then x else y) ↔ (c ∧ Overruns x) ∨ (¬ c ∧ Overruns y) := raises_ite

/-- The same for a conditional whose branches use the condition. -/
theorem overruns_dite {c : Prop} [Decidable c] {x : c → Parse α} {y : ¬ c → Parse α} :
    Overruns (if h : c then x h else y h) ↔ (∃ h, Overruns (x h)) ∨ ∃ h, Overruns (y h) :=
  raises_dite

/-- A check reads nothing. -/
theorem overruns_ensure {b : Bool} {e : ParseError} :
    Overruns (ensure b e) ↔ b = false ∧ ∃ i, e = .unread i := by
  unfold ensure
  cases b with
  | true => simp [overruns_ok]
  | false => simp [overruns_error]

/-- A token is read past the end when it is missing. -/
theorem overruns_arg : Overruns (arg tokens i) ↔ tokens.length ≤ i := by
  unfold arg
  cases h : tokens[i]? with
  | none => exact iff_of_true ⟨_, ⟨i, rfl⟩, rfl⟩ (List.getElem?_eq_none_iff.mp h)
  | some t =>
    have hlt := (List.getElem?_eq_some_iff.mp h).1
    exact iff_of_false (overruns_ok t) (by omega)

/-- A reader goes past the end with its token alone. -/
theorem overruns_arg_bind {f : String → Parse α} (h : ∀ t, ¬ Overruns (f t)) :
    Overruns (arg tokens i >>= f) ↔ tokens.length ≤ i := by
  rw [overruns_bind, overruns_arg]
  simp [h]

/-- A keyword is read past the end when it is missing. -/
theorem overruns_keyword : Overruns (keyword tokens i name) ↔ tokens.length ≤ i :=
  overruns_arg_bind fun _ => by simp [overruns_ensure]

/-- An expected word is read past the end when it is missing. -/
theorem overruns_expect : Overruns (expect tokens i name) ↔ tokens.length ≤ i :=
  overruns_arg_bind fun _ => by simp [overruns_ensure]

/-- A number is read past the end when it is missing. -/
theorem overruns_readUint {read : String → Except Errno (BitVec w)} :
    Overruns (readUint tokens i name read) ↔ tokens.length ≤ i :=
  overruns_arg_bind fun t => by
    cases read t with
    | error e => simp [overruns_error]
    | ok v => exact overruns_ok _

/-- An address is read past the end when it is missing. -/
theorem overruns_readAddr {parse : String → Option Mem} :
    Overruns (readAddr tokens i name parse) ↔ tokens.length ≤ i :=
  overruns_arg_bind fun t => by
    cases parse t with
    | none => simp [overruns_error]
    | some a => exact overruns_ok _

/-- A partial reader reads no token. -/
theorem overruns_orSilent (o : Option α) : ¬ Overruns (orSilent o) := by
  cases o with
  | none => simp [orSilent, overruns_error]
  | some a => exact overruns_ok a

/-- A reader reads no other token. -/
theorem overruns_readToken (read : String → Except Errno (BitVec w)) (t : String) :
    ¬ Overruns (readToken read t) := by
  unfold readToken
  cases read t with
  | error e => simp [overruns_error]
  | ok v => exact overruns_ok _

/-- A number is read past the end when it is missing. -/
theorem overruns_readSilent {read : String → Except Errno (BitVec w)} :
    Overruns (readSilent tokens i read) ↔ tokens.length ≤ i :=
  overruns_arg_bind (overruns_readToken read)

/-- A bounded number is read past the end when it is missing. -/
theorem overruns_readBounded : Overruns (readBounded tokens i w) ↔ tokens.length ≤ i := by
  rw [readBounded, overruns_bind, overruns_readSilent]
  simp [overruns_bind, overruns_ensure, overruns_ok]

/-- A partial reader goes past the end when the token is missing. -/
theorem overruns_readOption {read : String → Option α} :
    Overruns (readOption tokens i read) ↔ tokens.length ≤ i :=
  overruns_arg_bind fun _ => overruns_orSilent _

end Overruns

end Rids.Pipeline
