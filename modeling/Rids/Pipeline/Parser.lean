import Mathlib.Data.Nat.Basic
import Rids.Lib.ByteMem

/-!
# Reading command tokens (`parser.c`)

The readers `parse_match` calls on single tokens. A token is a string without NUL; a reader
returns the value or the error code of the source. Addresses go through `inet_pton`, which is
outside the repository and a parameter (`InetPton`).

* `parserReadUint64` — decimal digits, saturating like `strtoul`, with an optional suffix
  `k K M G T` that multiplies modulo `2 ^ 64`.
* `parserReadUint` — the reader of the narrower widths: a value that does not fit is an error,
  never truncated (`parserReadUint_ok_iff`).
-/

namespace Rids.Pipeline

open Rids.Lib.ByteMem

/-- The error codes of `parser.c`. -/
inductive Errno
  | einval | erange
deriving DecidableEq, Repr

/-! ### Characters -/

/-- Source: `<ctype.h>` `isspace`. Kind: D -/
def isSpace (c : Char) : Bool := c = ' ' || (9 ≤ c.toNat && c.toNat ≤ 13)

/-- Source: `parser.h` `skip_white_spaces`. Kind: D -/
def skipWhiteSpaces (p : List Char) : List Char := p.dropWhile isSpace

/-- The value of a run of decimal digits. -/
def decimal (ds : List Char) : ℕ := ds.foldl (fun n c => n * 10 + (c.toNat - '0'.toNat)) 0

/-- Base 10, from a digit on: the value, saturated at `ULONG_MAX`, and what is left.
Source: `<stdlib.h>` `strtoul`
Kind: D -/
def strtoul10 (p : List Char) : BitVec 64 × List Char :=
  (.ofNat 64 (min (decimal (p.takeWhile Char.isDigit)) (2 ^ 64 - 1)), p.dropWhile Char.isDigit)

/-! ### Unsigned integers -/

/-- The suffix switch of `parser_read_uint64`, with its fall-throughs.
Source: `parser.c` `parser_read_uint64`
Kind: D -/
def readSuffix (val : BitVec 64) : List Char → BitVec 64 × List Char
  | 'T' :: p => (val * 1024 * 1024 * 1024 * 1024, p)
  | 'G' :: p => (val * 1024 * 1024 * 1024, p)
  | 'M' :: p => (val * 1024 * 1024, p)
  | 'k' :: p => (val * 1024, p)
  | 'K' :: p => (val * 1024, p)
  | p => (val, p)

/-- Source: `parser.c` `parser_read_uint64`. Kind: D -/
def parserReadUint64 (token : String) : Except Errno (BitVec 64) :=
  let p := skipWhiteSpaces token.toList
  if p.head?.all (!·.isDigit) then .error .einval
  else
    let (val, next) := strtoul10 p
    let (val, p) := readSuffix val next
    if skipWhiteSpaces p ≠ [] then .error .einval else .ok val

/-- The common text of `parser_read_uint32`, `parser_read_uint16` and `parser_read_uint8`. -/
def parserReadUint (w : ℕ) (token : String) : Except Errno (BitVec w) :=
  match parserReadUint64 token with
  | .error e => .error e
  | .ok val => if 2 ^ w - 1 < val.toNat then .error .erange else .ok (val.setWidth w)

/-- Source: `parser.c` `parser_read_uint32`. Kind: D -/
abbrev parserReadUint32 := parserReadUint 32
/-- Source: `parser.c` `parser_read_uint16`. Kind: D -/
abbrev parserReadUint16 := parserReadUint 16
/-- Source: `parser.c` `parser_read_uint8`. Kind: D -/
abbrev parserReadUint8 := parserReadUint 8

/-- A narrow reader returns the number the token denotes. -/
theorem parserReadUint_ok_iff {w : ℕ} {token : String} {v : BitVec w} :
    parserReadUint w token = .ok v ↔
      ∃ val, parserReadUint64 token = .ok val ∧ val.toNat = v.toNat := by
  have hpow : 0 < 2 ^ w := Nat.two_pow_pos w
  unfold parserReadUint
  cases parserReadUint64 token with
  | error e => simp
  | ok val =>
    simp only [Except.ok.injEq, exists_eq_left']
    split_ifs with h
    · have hv := v.isLt
      simp only [false_iff]
      omega
    · rw [Except.ok.injEq, ← BitVec.toNat_inj, BitVec.toNat_setWidth,
        Nat.mod_eq_of_lt (by omega : val.toNat < 2 ^ w)]

/-! ### Bytes and addresses -/

/-- Source: `parser.c` `get_hex_val`. Kind: D -/
def getHexVal (c : Char) : ℕ :=
  if '0' ≤ c ∧ c ≤ '9' then c.toNat - '0'.toNat
  else if 'A' ≤ c ∧ c ≤ 'F' then c.toNat - 'A'.toNat + 10
  else if 'a' ≤ c ∧ c ≤ 'f' then c.toNat - 'a'.toNat + 10
  else 0

/-- The characters that `parse_hex_string` lets through. -/
def isHexDigit (c : Char) : Bool :=
  ('0' ≤ c && c ≤ '9') || ('A' ≤ c && c ≤ 'F') || ('a' ≤ c && c ≤ 'f')

/-- The bytes of a hex string of at most `size` bytes, and their number. The length test asks for
a multiple of 4 characters.
Source: `parser.c` `parse_hex_string`
Kind: D -/
def parseHexString (src : String) (size : ℕ) : Option (Mem × ℕ) :=
  let cs := src.toList
  if size = 0 ∨ cs.length % 4 ≠ 0 ∨ size * 2 < cs.length ∨ !cs.all isHexDigit then none
  else
    some (fun i =>
      .ofNat 8 (getHexVal (cs.getD (2 * i) '0') * 16 + getHexVal (cs.getD (2 * i + 1) '0')),
      cs.length / 2)

/-- `inet_pton`: the 4 or 16 bytes of an address in network order, `none` for a token it does not
accept. -/
structure InetPton where
  af4 : String → Option Mem
  af6 : String → Option Mem

/-- Source: `parser.c` `parse_ipv4_addr` (`INET_ADDRSTRLEN` is 16). Kind: D -/
def parseIpv4Addr (inet : InetPton) (token : String) : Option Mem :=
  if 16 ≤ token.length then none else inet.af4 token

/-- Source: `parser.c` `parse_ipv6_addr` (`INET6_ADDRSTRLEN` is 46). Kind: D -/
def parseIpv6Addr (inet : InetPton) (token : String) : Option Mem :=
  if 46 ≤ token.length then none else inet.af6 token

end Rids.Pipeline
