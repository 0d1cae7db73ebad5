import Rids.Pipeline.ActionGrammar

/-!
# Which tokens the grammar of actions examines

Two parts of an action read past the end of their tokens, on a tunnel and on a transform that break
off (`overruns_parseTableActionEncap`, `overruns_parseTableActionSymCrypto`), the others on nothing.
`overruns_parseTableAction` says the same of a whole action.
-/

namespace Rids.Pipeline

open Rids.Lib.ByteMem Rids.Lib.Fallible Rids.Lib.TokenPattern

/-! ### The parts that keep to their tokens -/

section Parts

variable {inet : InetPton} {tokens : List String}

/-- `parse_table_action_fwd` keeps to its tokens. -/
theorem not_overruns_parseTableActionFwd : ¬ Overruns (parseTableActionFwd tokens) := by
  simp only [parseTableActionFwd, overruns_bind, overruns_ite, overruns_ok, overruns_error,
    overruns_ensure, overruns_expect, overruns_arg, overruns_readSilent, ensure_eq_ok,
    decide_eq_true_eq, exists_const, reduceCtorEq, and_false, or_false, false_or]
  grind

/-- A loop keeps to its tokens when each turn does. -/
theorem not_overruns_mapM {α β : Type} {f : α → Parse β} (h : ∀ a, ¬ Overruns (f a)) (l : List α) :
    ¬ Overruns (l.mapM f) := by
  induction l with
  | nil => exact overruns_ok _
  | cons a l ih =>
    simp only [List.mapM_cons, overruns_bind, h, ih, false_or, not_exists, not_and]
    exact fun _ _ _ _ => overruns_ok _

/-- `parse_table_action_balance` keeps to its tokens. -/
theorem not_overruns_parseTableActionBalance : ¬ Overruns (parseTableActionBalance tokens) := by
  have hmap : ¬ Overruns (((tokens.drop 1).take 8).mapM (readToken parserReadUint32)) :=
    not_overruns_mapM (overruns_readToken parserReadUint32) _
  simp only [parseTableActionBalance, overruns_bind, overruns_dite, overruns_ok, overruns_error,
    overruns_ensure, overruns_expect, ensure_eq_ok, decide_eq_true_eq, exists_const, reduceCtorEq,
    exists_false, and_false, or_false, false_or, hmap]
  omega

/-- `parse_table_action_meter_tc` keeps to its tokens. -/
theorem not_overruns_parseTableActionMeterTc : ¬ Overruns (parseTableActionMeterTc tokens) := by
  simp only [parseTableActionMeterTc, readPolicer, overruns_bind, overruns_ok, overruns_ensure,
    overruns_expect, overruns_arg, overruns_readSilent, overruns_orSilent, ensure_eq_ok,
    decide_eq_true_eq, exists_const, reduceCtorEq, exists_false, and_false, or_false, false_or]
  grind

/-- `parse_table_action_meter` keeps to its tokens. -/
theorem not_overruns_parseTableActionMeter : ¬ Overruns (parseTableActionMeter tokens) := by
  simp only [parseTableActionMeter, overruns_bind, overruns_ite, overruns_ok, overruns_ensure,
    overruns_expect, not_overruns_parseTableActionMeterTc, List.length_drop, ensure_eq_ok,
    decide_eq_true_eq, exists_const, reduceCtorEq, exists_false, and_false, or_false, false_or]
  grind

/-- `parse_table_action_tm` keeps to its tokens. -/
theorem not_overruns_parseTableActionTm : ¬ Overruns (parseTableActionTm tokens) := by
  simp only [parseTableActionTm, overruns_bind, overruns_ok, overruns_ensure, overruns_expect,
    overruns_readSilent, ensure_eq_ok, decide_eq_true_eq, exists_const, reduceCtorEq,
    and_false, or_false, false_or]
  grind

/-- `parse_table_action_nat` keeps to its tokens. -/
theorem not_overruns_parseTableActionNat : ¬ Overruns (parseTableActionNat inet tokens) := by
  simp only [parseTableActionNat, overruns_bind, overruns_ite, overruns_ok, overruns_error,
    overruns_ensure, overruns_expect, overruns_arg, overruns_readSilent, overruns_orSilent,
    ensure_eq_ok, decide_eq_true_eq, exists_const, reduceCtorEq, and_false,
    or_false, false_or]
  grind

/-- `parse_table_action_ttl` keeps to its tokens. -/
theorem not_overruns_parseTableActionTtl : ¬ Overruns (parseTableActionTtl tokens) := by
  simp only [parseTableActionTtl, overruns_bind, overruns_ite, overruns_ok, overruns_error,
    overruns_ensure, overruns_expect, overruns_arg, ensure_eq_ok, decide_eq_true_eq, exists_const,
    reduceCtorEq, and_false, or_false, false_or]
  grind

/-- `parse_table_action_stats` and `parse_table_action_time` keep to their tokens. -/
theorem not_overruns_parseTableActionFlag {name : String} :
    ¬ Overruns (parseTableActionFlag name tokens) := by
  simp only [parseTableActionFlag, overruns_bind, overruns_ok, overruns_ensure, overruns_expect,
    ensure_eq_ok, decide_eq_true_eq, exists_const, reduceCtorEq, and_false,
    or_false, false_or]
  omega

/-- `parse_table_action_tag` and `parse_table_action_decap` keep to their tokens. -/
theorem not_overruns_parseTableActionUint {w : ℕ} {name : String}
    {read : String → Except Errno (BitVec w)} :
    ¬ Overruns (parseTableActionUint name read tokens) := by
  simp only [parseTableActionUint, overruns_bind, overruns_ok, overruns_ensure, overruns_expect,
    overruns_readSilent, ensure_eq_ok, decide_eq_true_eq, exists_const, reduceCtorEq,
    and_false, or_false, false_or]
  grind

end Parts

/-! ### `encap` -/

section Encap

variable {inet : InetPton} {tokens : List String}

/-- A tunnel that breaks off behind the addresses, or behind the vlan. -/
def TruncatedVxlan (tokens : List String) : Prop :=
  IsText vxlanHead tokens ∨ IsText (vxlanHead ++ Is "vlan" :: vlanPattern) tokens

/-- An Ethernet header is two tokens. -/
theorem lt_of_overruns_readEther {i : ℕ} (h : Overruns (readEther tokens i)) :
    tokens.length < i + 2 := by
  simp only [readEther, overruns_bind, overruns_ok, overruns_arg, overruns_orSilent, and_false,
    exists_false, or_false, false_or] at h
  grind

/-- A vlan tag is three tokens. -/
theorem lt_of_overruns_readVlan {i : ℕ} (h : Overruns (readVlan tokens i)) :
    tokens.length < i + 3 := by
  simp only [readVlan, overruns_bind, overruns_ok, overruns_readBounded, and_false, exists_false,
    or_false] at h
  grind

/-- A label is three tokens. -/
theorem lt_of_overruns_readMplsLabel {i : ℕ} (h : Overruns (readMplsLabel tokens i)) :
    tokens.length < i + 3 := by
  simp only [readMplsLabel, overruns_bind, overruns_ok, overruns_readBounded, and_false,
    exists_false, or_false] at h
  grind

/-- The further labels compare the number of tokens first. -/
theorem not_overruns_parseMplsMore {names : List String} :
    ¬ Overruns (parseMplsMore names tokens) := by
  induction names generalizing tokens with
  | nil => exact overruns_ok _
  | cons name names ih =>
    simp only [parseMplsMore, overruns_ite, overruns_bind, overruns_ok, overruns_ensure,
      ensure_eq_ok, decide_eq_true_eq, ih, reduceCtorEq, exists_false, exists_const, and_false,
      or_false, false_or]
    rintro ⟨-, hlen, h⟩
    have hlt := lt_of_overruns_readMplsLabel h
    omega

/-- `encap mpls` keeps to its tokens. -/
theorem not_overruns_parseEncapMpls : ¬ Overruns (parseEncapMpls tokens) := by
  simp only [parseEncapMpls, overruns_bind, overruns_ite, overruns_dite, overruns_ok,
    overruns_error, overruns_ensure, overruns_expect, overruns_arg, not_overruns_parseMplsMore,
    ensure_eq_ok, decide_eq_true_eq, exists_const, reduceCtorEq, exists_false, false_and,
    and_false, or_false, false_or]
  grind [→ lt_of_overruns_readEther, → lt_of_overruns_readMplsLabel]

/-- The vlan of a tunnel looks at one token without a comparison. -/
theorem overruns_parseVxlanVlan : Overruns (parseVxlanVlan tokens) ↔ tokens.length = 0 := by
  simp only [parseVxlanVlan, overruns_bind, overruns_ite, overruns_ok, overruns_ensure,
    overruns_arg, ensure_eq_ok, decide_eq_true_eq, exists_const, reduceCtorEq, exists_false,
    and_false, or_false, false_or]
  grind [→ lt_of_overruns_readVlan]

/-- The addresses of a tunnel look at one token without a comparison. -/
theorem overruns_parseVxlanIp : Overruns (parseVxlanIp inet tokens) ↔ tokens.length = 0 := by
  simp only [parseVxlanIp, overruns_bind, overruns_ite, overruns_ok, overruns_error,
    overruns_ensure, overruns_arg, overruns_orSilent, overruns_readSilent, ensure_eq_ok,
    decide_eq_true_eq, exists_const, reduceCtorEq, and_false, or_false, false_or]
  grind

/-- `encap vxlan` goes past the end exactly on the truncated tunnels. -/
theorem overruns_parseEncapVxlan (hencap : At tokens 0 (Is "encap"))
    (hvxlan : At tokens 1 (Is "vxlan")) :
    Overruns (parseEncapVxlan inet (tokens.drop 1)) ↔ TruncatedVxlan tokens := by
  have hhead : Starts vxlanHead tokens ↔ At tokens 2 (Is "ether") ∧
      At tokens 3 (ReadBy parseMacAddr) ∧ At tokens 4 (ReadBy parseMacAddr) := by
    simp only [vxlanHead, etherPattern, List.cons_append, List.nil_append, starts_cons,
      starts_nil, at_drop, List.drop_drop, Nat.reduceAdd, hencap, hvxlan, true_and, and_true]
  have hheadLength : vxlanHead.length = 5 := rfl
  have hvlanLength : (Is "vlan" :: vlanPattern).length = 4 := rfl
  simp only [parseEncapVxlan, overruns_bind, overruns_ok, overruns_ensure, overruns_expect,
    overruns_readSilent, overruns_readBounded, overruns_parseVxlanVlan, overruns_parseVxlanIp,
    ensure_eq_ok, decide_eq_true_eq, expect_ok, readEther_ok, takes_parseVxlanVlan,
    takes_parseVxlanIp, Prod.exists, exists_takes, exists_and_right, exists_const, at_drop,
    List.length_drop, List.drop_drop, Nat.reduceAdd, reduceCtorEq, and_false, or_false, false_or,
    TruncatedVxlan, IsText, starts_append, hhead, List.length_append, hheadLength, hvlanLength]
  constructor
  · rintro ⟨hlen, hend | ⟨hether, hend | ⟨⟨hda, hsa⟩, hend | ⟨k, hk, hend⟩⟩⟩⟩
    · omega
    · have hlt := lt_of_overruns_readEther hend
      rw [List.length_drop] at hlt
      omega
    · exact .inl ⟨by omega, hether, hda, hsa⟩
    · have hnone : tokens.length - (5 + k) = 0 := by grind
      rcases hk with ⟨rfl, hvlan⟩ | ⟨rfl, hlt, -⟩
      · have hle := hvlan.le_of_drop (Nat.succ_pos _)
        rw [hvlanLength] at hle
        exact .inr ⟨by omega, ⟨hether, hda, hsa⟩, hvlan⟩
      · omega
  · rintro (⟨hlen, hether, hda, hsa⟩ | ⟨hlen, ⟨hether, hda, hsa⟩, hvlan⟩)
    · exact ⟨by omega, .inr ⟨hether, .inr ⟨⟨hda, hsa⟩, .inl (by omega)⟩⟩⟩
    · exact ⟨by omega, .inr ⟨hether, .inr ⟨⟨hda, hsa⟩, .inr ⟨4, .inl ⟨rfl, hvlan⟩,
        .inl (by omega)⟩⟩⟩⟩

/-- `encap` goes past the end of the truncated tunnels and of nothing else. -/
theorem overruns_parseTableActionEncap :
    Overruns (parseTableActionEncap inet tokens) ↔ TruncatedVxlan tokens := by
  simp only [parseTableActionEncap, overruns_bind, overruns_ensure, overruns_expect, ensure_eq_ok,
    decide_eq_true_eq, expect_ok, exists_const, List.head?_drop, List.length_drop, reduceCtorEq,
    and_false, false_or]
  constructor
  · rintro ⟨hlen, hend | ⟨hencap, h⟩⟩
    · omega
    · cases hkind : tokens[1]? with
      | none => simp [hkind, overruns_error] at h
      | some kind =>
        simp only [hkind, overruns_ite, overruns_bind, overruns_ok, overruns_error,
          overruns_ensure, overruns_readSilent, not_overruns_parseEncapMpls, ensure_eq_ok,
          decide_eq_true_eq, exists_const, List.length_drop, reduceCtorEq, exists_false,
          and_false, or_false, false_or] at h
        have hvxlan : kind = "vxlan" ∧ Overruns (parseEncapVxlan inet (tokens.drop 1)) := by
          grind [→ lt_of_overruns_readEther, → lt_of_overruns_readVlan]
        obtain ⟨rfl, hbad⟩ := hvxlan
        exact (overruns_parseEncapVxlan hencap (at_is.mpr hkind)).mp hbad
  · intro h
    have hstarts : Starts vxlanHead tokens := by
      rcases h with ⟨-, h⟩ | ⟨-, h⟩
      · exact h
      · exact (starts_append.mp h).1
    have hencap : At tokens 0 (Is "encap") := starts_iff.mp hstarts 0 _ rfl
    have hvxlan : At tokens 1 (Is "vxlan") := starts_iff.mp hstarts 1 _ rfl
    refine ⟨hencap.lt, .inr ⟨hencap, ?_⟩⟩
    rw [at_is.mp hvxlan]
    simpa using (overruns_parseEncapVxlan hencap hvxlan).mpr h

end Encap

/-! ### `sym_crypto` -/

section SymCrypto

variable {algos : CryptoAlgos} {tokens : List String} {n : ℕ}

variable (algos) in
/-- A transform with a digest that nothing comes after. -/
def TruncatedSymCrypto (tokens : List String) : Prop :=
  12 ≤ tokens.length ∧ CryptoStarts algos tokens.length tokens

/-- `parse_table_action_cipher` keeps to its tokens. -/
theorem not_overruns_parseTableActionCipher {maxKeyLen : ℕ} {encrypt : Bool} :
    ¬ Overruns (parseTableActionCipher algos maxKeyLen encrypt tokens) := by
  simp only [parseTableActionCipher, overruns_bind, overruns_ok, overruns_ensure, overruns_expect,
    overruns_readOption, ensure_eq_ok, decide_eq_true_eq, exists_const, reduceCtorEq,
    exists_false, and_false, or_false, false_or]
  grind

/-- `parse_table_action_cipher_auth` keeps to its tokens. -/
theorem not_overruns_parseTableActionCipherAuth {maxKeyLen : ℕ} {encrypt : Bool} :
    ¬ Overruns (parseTableActionCipherAuth algos maxKeyLen encrypt tokens) := by
  simp only [parseTableActionCipherAuth, overruns_bind, overruns_ok, overruns_ensure,
    overruns_expect, overruns_readOption, overruns_readSilent,
    not_overruns_parseTableActionCipher, ensure_eq_ok, decide_eq_true_eq, exists_const,
    reduceCtorEq, exists_false, and_false, or_false, false_or]
  grind

/-- `parse_table_action_aead` keeps to its tokens. -/
theorem not_overruns_parseTableActionAead {maxKeyLen : ℕ} {encrypt : Bool} :
    ¬ Overruns (parseTableActionAead algos maxKeyLen encrypt tokens) := by
  simp only [parseTableActionAead, overruns_bind, overruns_ok, overruns_ensure, overruns_expect,
    overruns_readOption, overruns_readSilent, ensure_eq_ok, decide_eq_true_eq, exists_const,
    reduceCtorEq, and_false, or_false, false_or]
  grind

/-- Each kind of transformation keeps to its tokens. -/
theorem not_overruns_parseSymCryptoXform {encrypt : Bool} {kind : String} :
    ¬ Overruns (parseSymCryptoXform algos encrypt kind tokens) := by
  simp only [parseSymCryptoXform, overruns_ite, overruns_bind, overruns_ok, overruns_error,
    not_overruns_parseTableActionCipher, not_overruns_parseTableActionCipherAuth,
    not_overruns_parseTableActionAead, reduceCtorEq, exists_false, and_false, or_false,
    not_false_eq_true]

/-- `sym_crypto` goes past the end of the transforms with a digest that nothing comes after, and
of nothing else. -/
theorem overruns_parseTableActionSymCrypto :
    Overruns (parseTableActionSymCrypto algos tokens) ↔ TruncatedSymCrypto algos tokens := by
  simp only [parseTableActionSymCrypto, overruns_bind, overruns_ok, overruns_ensure,
    overruns_expect, overruns_arg, overruns_readSilent, not_overruns_parseSymCryptoXform,
    ensure_eq_ok, decide_eq_true_eq, exists_const, reduceCtorEq, and_false, or_false, false_or,
    expect_ok, arg_eq_ok, List.length_drop]
  constructor
  · rintro ⟨hlen, hend | ⟨hname, hend | ⟨htype, hend | ⟨op, -, hend | ⟨offset, -, hend | ⟨kind,
      hkind, ⟨x, n⟩, hx, hend⟩⟩⟩⟩⟩⟩
    iterate 5
      · omega
    · have hstarts : CryptoStarts algos (n + 3) tokens :=
        (takes_parseSymCryptoXform hname htype hkind).mp ⟨x, hx⟩
      have hle := hstarts.le_length
      change _ ≤ n at hend
      have hn : n + 3 = tokens.length := by omega
      exact ⟨hlen, hn ▸ hstarts⟩
  · rintro ⟨hlen, hstarts⟩
    have hoffset : At tokens (tokens.length - 1) (IsUint 32) := by
      obtain ⟨t, ht, hsize⟩ := hstarts.last hlen
      exact ⟨t, ht, hsize.mono (by decide)⟩
    obtain ⟨offset, hread⟩ := readSilent_ok.mpr hoffset
    obtain ⟨hname, htype, hlt⟩ := hstarts.head
    have hkind : tokens[3]? = some tokens[3] := List.getElem?_eq_getElem hlt
    have hop : tokens[1]? = some tokens[1] := List.getElem?_eq_getElem (by omega)
    have htakes : Takes (tokens.length - 3) (parseSymCryptoXform algos (tokens[1] = "encrypt")
        tokens[3] (tokens.drop 3)) := by
      rw [takes_parseSymCryptoXform hname htype hkind]
      rwa [Nat.sub_add_cancel (by omega)]
    obtain ⟨x, hx⟩ := htakes
    exact ⟨hlen, .inr ⟨hname, .inr ⟨htype, .inr ⟨_, hop, .inr ⟨offset, hread, .inr ⟨_, hkind,
      (x, tokens.length - 3), hx, Nat.le_refl _⟩⟩⟩⟩⟩⟩

/-- The word `data_offset` is no number. -/
theorem not_isUint_data_offset : ¬ IsUint 32 "data_offset" := by decide

/-- The last token is a number: there is one behind `data_offset`. -/
theorem takes_parseTableActionSymCrypto_le (h : Takes n (parseTableActionSymCrypto algos tokens)) :
    n ≤ tokens.length := by
  simp only [parseTableActionSymCrypto, takes_bind, takes_ok, ensure_eq_ok, decide_eq_true_eq,
    exists_const, expect_ok, at_drop] at h
  obtain ⟨hlen, -, -, -, -, offset, hoffset, -, -, ⟨x, k⟩, -, hname, rfl⟩ := h
  obtain ⟨t, ht, hnum⟩ := readSilent_ok.mp ⟨offset, hoffset⟩
  have hlt : 3 + k < tokens.length := hname.lt
  have hne : 3 + k ≠ tokens.length - 1 := by
    intro heq
    rw [at_is, heq, ht] at hname
    exact not_isUint_data_offset (Option.some.inj hname ▸ hnum)
  omega

end SymCrypto

/-! ### The row of parts -/

section Action

variable {inet : InetPton} {algos : CryptoAlgos} {tokens : List String}

variable (inet algos) in
/-- An action whose tunnel or whose transform is truncated, and whose parts in front of it are
whole. -/
def TruncatedAction (tokens : List String) : Prop :=
  At tokens 0 (Is "action") ∧ ∃ mid, AfterAll partsToTm (tokens.drop 1) mid ∧
    (TruncatedVxlan mid ∨
      ∃ left, AfterAll (partsToTime inet) mid left ∧ TruncatedSymCrypto algos left)

/-- A part of an action is read where its name is the next token. -/
theorem overruns_actionPart {α : Type} {name : String} {part : List String → Parse (α × ℕ)} :
    Overruns (actionPart name part tokens) ↔ tokens.head? = some name ∧ Overruns (part tokens) := by
  unfold actionPart
  by_cases hname : tokens.head? = some name
  · simp only [hname, if_true, true_and]
    cases part tokens with
    | ok x => simp [overruns_ok]
    | error e => cases e <;> simp [overruns_error]
  · simp [hname, overruns_ok]

/-- The same for the part of the cryptography. -/
theorem overruns_actionPartSymCrypto {S : Type} {symCrypto : List String → Parse (S × ℕ)} :
    Overruns (actionPartSymCrypto symCrypto tokens) ↔
      tokens.head? = some "sym_crypto" ∧ Overruns (symCrypto tokens) := by
  unfold actionPartSymCrypto
  by_cases hname : tokens.head? = some "sym_crypto"
  · simp only [hname, if_true, true_and]
    cases symCrypto tokens with
    | ok x => simp [overruns_ok]
    | error e => cases e <;> simp [overruns_error, overruns_ok]
  · simp [hname, overruns_ok]

/-- A truncated tunnel starts with its name. -/
theorem TruncatedVxlan.head (h : TruncatedVxlan tokens) : tokens.head? = some "encap" := by
  rw [List.head?_eq_getElem?, ← at_is]
  rcases h with ⟨-, h⟩ | ⟨-, h⟩
  · exact starts_iff.mp h 0 _ rfl
  · exact starts_iff.mp h 0 _ rfl

/-- A truncated cryptography starts with its name. -/
theorem TruncatedSymCrypto.head (h : TruncatedSymCrypto algos tokens) :
    tokens.head? = some "sym_crypto" := by
  rw [List.head?_eq_getElem?, ← at_is]
  exact h.2.head.1

/-- A truncated action has at least two tokens. -/
theorem TruncatedAction.two_le (h : TruncatedAction inet algos tokens) : 2 ≤ tokens.length := by
  obtain ⟨-, mid, hmid, h⟩ := h
  have hle := hmid.length_le
  rw [List.length_drop] at hle
  have hpos : 0 < mid.length := by
    rcases h with h | ⟨left, hleft, h⟩
    · exact List.length_pos_of_mem (List.mem_of_mem_head? h.head)
    · exact (List.length_pos_of_mem (List.mem_of_mem_head? h.head)).trans_le hleft.length_le
  omega

/-- **`parse_table_action` goes past the end exactly on the truncated actions**. -/
theorem overruns_parseTableAction :
    Overruns (parseTableAction inet (parseTableActionSymCrypto algos) tokens) ↔
      TruncatedAction inet algos tokens := by
  have hvxlan {ts : List String} : ts.head? = some "encap" ∧ TruncatedVxlan ts ↔
      TruncatedVxlan ts := and_iff_right_of_imp TruncatedVxlan.head
  have hcrypto {ts : List String} : ts.head? = some "sym_crypto" ∧ TruncatedSymCrypto algos ts ↔
      TruncatedSymCrypto algos ts := and_iff_right_of_imp TruncatedSymCrypto.head
  have htwo : 2 ≤ tokens.length ∧ TruncatedAction inet algos tokens ↔
      TruncatedAction inet algos tokens := and_iff_right_of_imp TruncatedAction.two_le
  rw [← htwo]
  simp only [parseTableAction, overruns_bind, overruns_ok, overruns_ensure, overruns_expect,
    overruns_actionPart, overruns_actionPartSymCrypto, overruns_parseTableActionEncap,
    overruns_parseTableActionSymCrypto, not_overruns_parseTableActionFwd,
    not_overruns_parseTableActionBalance, not_overruns_parseTableActionMeter,
    not_overruns_parseTableActionTm, not_overruns_parseTableActionNat,
    not_overruns_parseTableActionTtl, parseTableActionStats, parseTableActionTime,
    parseTableActionTag, parseTableActionDecap, not_overruns_parseTableActionFlag,
    not_overruns_parseTableActionUint, ensure_eq_ok, decide_eq_true_eq, expect_ok, exists_const,
    reduceCtorEq, and_false, or_false, false_or, Prod.exists, exists_returns, hvxlan, hcrypto]
  simp only [actionPart_after (f := ⟨"fwd", StartsAny fwdPatterns⟩) takes_parseTableActionFwd,
    actionPart_after (f := ⟨"balance", StartsAny [balancePattern]⟩) takes_parseTableActionBalance,
    actionPart_after (f := ⟨"meter", MeterWhole⟩) takes_parseTableActionMeter,
    actionPart_after (f := ⟨"tm", StartsAny [tmPattern]⟩) takes_parseTableActionTm,
    actionPart_after (f := ⟨"encap", EncapWhole inet⟩) takes_parseTableActionEncap,
    actionPart_after (f := ⟨"nat", StartsAny (natPatterns inet)⟩) takes_parseTableActionNat,
    actionPart_after (f := ⟨"ttl", StartsAny ttlPatterns⟩) takes_parseTableActionTtl,
    actionPart_after (f := ⟨"stats", StartsAny [[Is "stats"]]⟩) takes_parseTableActionFlag,
    actionPart_after (f := ⟨"time", StartsAny [[Is "time"]]⟩) takes_parseTableActionFlag,
    TruncatedAction, partsToTm, partsToTime, exists_afterAll_cons, exists_afterAll_nil]
  refine and_congr_right fun hlen => ?_
  rw [or_iff_right (by omega)]

end Action

end Rids.Pipeline
