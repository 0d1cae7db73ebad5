import Rids.Pipeline.TableAction

/-!
# The `sym_crypto` part of an action (`cli.c`)

`parseTableActionSymCrypto` is `parse_table_action_sym_crypto` with the parsers of its three
transforms. The numbers of the algorithms come from DPDK (`CryptoAlgos`), and allocations succeed.
-/

namespace Rids.Pipeline

open Rids.Lib.ByteMem

/-! ### The structs -/

/-- The number of an algorithm, `none` for a name that is not known.
Source: DPDK `rte_cryptodev_get_cipher_algo_enum`, `rte_cryptodev_get_auth_algo_enum`,
`rte_cryptodev_get_aead_algo_enum`
Kind: D -/
structure CryptoAlgos where
  cipher : String → Option ℕ
  auth : String → Option ℕ
  aead : String → Option ℕ

/-- The bytes of a key or a vector, and their number. -/
structure CryptoBytes where
  val : Mem
  length : ℕ

/-- Source: DPDK `struct rte_crypto_sym_xform`, by `type`. Kind: D -/
inductive CryptoXform
  | cipher (encrypt : Bool) (algo : ℕ) (key : CryptoBytes) (ivLength : BitVec 16)
  | auth (generate : Bool) (algo : ℕ) (key : CryptoBytes) (digestLength : BitVec 16)
  | aead (encrypt : Bool) (algo : ℕ) (key : CryptoBytes)
      (ivLength aadLength digestLength : BitVec 16)

/-- The arms of the union in DPDK's `struct rte_table_action_sym_crypto_params`. -/
inductive CryptoData
  | cipherAuth (cipherIv : CryptoBytes)
  | aead (iv aad : CryptoBytes)

/-- The chain `xform` is a list.
Source: DPDK `struct rte_table_action_sym_crypto_params`
Kind: D -/
structure SymCryptoParams where
  dataOffset : BitVec 32
  xform : List CryptoXform
  data : CryptoData

/-- `SYM_CRYPTO_MAX_KEY_SIZE`. -/
def symCryptoMaxKeySize : ℕ := 256

/-! ### Reading arguments -/

section Readers

variable (tokens : List String) (i : ℕ)

/-- `parse_hex_string` with the length of the token for a size. -/
def hexBytes (t : String) : Option CryptoBytes :=
  (parseHexString t t.length).map fun x => ⟨x.1, x.2⟩

/-- `parse_hex_string` behind the test that half of the token is not longer than `maxKeyLen`. -/
def keyBytes (maxKeyLen : ℕ) (t : String) : Option CryptoBytes :=
  if maxKeyLen < t.length / 2 then none else hexBytes t

/-- A token that a partial reader must accept. -/
def readOption {α : Type} (read : String → Option α) : Parse α := do
  let t ← arg tokens i
  orSilent (read t)

end Readers

/-! ### The transforms -/

section Transforms

variable (algos : CryptoAlgos) (maxKeyLen : ℕ) (encrypt : Bool) (tokens : List String)

/-- The transform, the vector and the number of tokens.
Source: `cli.c` `parse_table_action_cipher`
Kind: D -/
def parseTableActionCipher : Parse ((CryptoXform × CryptoBytes) × ℕ) := do
  ensure (7 ≤ tokens.length) .silent
  expect tokens 1 "cipher_algo"
  expect tokens 3 "cipher_key"
  expect tokens 5 "cipher_iv"
  let algo ← readOption tokens 2 algos.cipher
  let key ← readOption tokens 4 (keyBytes maxKeyLen)
  let iv ← readOption tokens 6 hexBytes
  .ok ((.cipher encrypt algo key (.ofNat 16 iv.length), iv), 7)

/-- The key of the cipher is put behind that of the authentication.
Source: `cli.c` `parse_table_action_cipher_auth`
Kind: D -/
def parseTableActionCipherAuth : Parse ((List CryptoXform × CryptoBytes) × ℕ) := do
  ensure (13 ≤ tokens.length) .silent
  expect tokens 7 "auth_algo"
  expect tokens 9 "auth_key"
  expect tokens 11 "digest_size"
  let algo ← readOption tokens 8 algos.auth
  let key ← readOption tokens 10 (keyBytes maxKeyLen)
  expect tokens 11 "digest_size"
  let digestLength ← readSilent tokens 12 parserReadUint16
  let ((cipher, iv), n) ←
    parseTableActionCipher algos (maxKeyLen - key.length) encrypt (tokens.take 7)
  let auth := .auth encrypt algo key digestLength
  .ok ((if encrypt then [cipher, auth] else [auth, cipher], iv), n + 6)

/-- Source: `cli.c` `parse_table_action_aead`. Kind: D -/
def parseTableActionAead : Parse ((CryptoXform × CryptoData) × ℕ) := do
  ensure (11 ≤ tokens.length) .silent
  expect tokens 1 "aead_algo"
  expect tokens 3 "aead_key"
  expect tokens 5 "aead_iv"
  expect tokens 7 "aead_aad"
  expect tokens 9 "digest_size"
  let algo ← readOption tokens 2 algos.aead
  let key ← readOption tokens 4 (keyBytes maxKeyLen)
  let iv ← readOption tokens 6 hexBytes
  let aad ← readOption tokens 8 hexBytes
  let digestLength ← readSilent tokens 10 parserReadUint16
  .ok ((.aead encrypt algo key (.ofNat 16 iv.length) (.ofNat 16 aad.length) digestLength,
    .aead iv aad), 11)

end Transforms

/-- The transform that the fourth token of the part names, with the number of its tokens.
Source: `cli.c` `parse_table_action_sym_crypto`, `cipher | cipher_auth | aead`
Kind: D -/
def parseSymCryptoXform (algos : CryptoAlgos) (encrypt : Bool) (kind : String)
    (tokens : List String) : Parse ((List CryptoXform × CryptoData) × ℕ) :=
  if kind = "cipher" then do
    let ((xform, iv), n) ← parseTableActionCipher algos symCryptoMaxKeySize encrypt tokens
    .ok (([xform], .cipherAuth iv), n)
  else if kind = "cipher_auth" then do
    let ((xforms, iv), n) ← parseTableActionCipherAuth algos symCryptoMaxKeySize encrypt tokens
    .ok ((xforms, .cipherAuth iv), n)
  else if kind = "aead" then do
    let ((xform, data), n) ← parseTableActionAead algos symCryptoMaxKeySize encrypt tokens
    .ok (([xform], data), n)
  else .error .silent

/-- The data offset is read from the last token of the array.
Source: `cli.c` `parse_table_action_sym_crypto`
Kind: D -/
def parseTableActionSymCrypto (algos : CryptoAlgos) (tokens : List String) :
    Parse (SymCryptoParams × ℕ) := do
  ensure (12 ≤ tokens.length) .silent
  expect tokens 0 "sym_crypto"
  expect tokens 2 "type"
  let op ← arg tokens 1
  let dataOffset ← readSilent tokens (tokens.length - 1) parserReadUint32
  let kind ← arg tokens 3
  let tokens := tokens.drop 3
  let ((xform, data), usedNTokens) ← parseSymCryptoXform algos (op = "encrypt") kind tokens
  expect tokens usedNTokens "data_offset"
  .ok (⟨dataOffset, xform, data⟩, usedNTokens + 5)

end Rids.Pipeline
