import Rids.Pipeline.ActionText

/-!
# The action of a line read back

* `parseTableAction_eq_ok` — the twelve blocks of `parse_table_action`.
* `true_mem_actionMask` — an action that is read has a part.
* `parseTableAction_actionWords`, `parseTableAction_actionWords_lt` — an action that is printed is
  read back as itself when it is `Printable`, and not with all its words otherwise.
-/

namespace Rids.Pipeline

section Blocks

variable {S : Type} {inet : InetPton} {symCrypto : List String → Parse (S × ℕ)}

/-- The blocks one after the other. -/
theorem parseTableAction_eq_ok {tokens : List String} {x : TableRuleAction S × ℕ} :
    parseTableAction inet symCrypto tokens = .ok x ↔
      2 ≤ tokens.length ∧ tokens[0]? = some "action" ∧
      ∃ fwd l₁, actionPart "fwd" parseTableActionFwd (tokens.drop 1) = .ok (fwd, l₁) ∧
      ∃ lb l₂, actionPart "balance" parseTableActionBalance l₁ = .ok (lb, l₂) ∧
      ∃ mtr l₃, actionPart "meter" parseTableActionMeter l₂ = .ok (mtr, l₃) ∧
      ∃ tm l₄, actionPart "tm" parseTableActionTm l₃ = .ok (tm, l₄) ∧
      ∃ encap l₅, actionPart "encap" (parseTableActionEncap inet) l₄ = .ok (encap, l₅) ∧
      ∃ nat l₆, actionPart "nat" (parseTableActionNat inet) l₅ = .ok (nat, l₆) ∧
      ∃ ttl l₇, actionPart "ttl" parseTableActionTtl l₆ = .ok (ttl, l₇) ∧
      ∃ stats l₈, actionPart "stats" parseTableActionStats l₇ = .ok (stats, l₈) ∧
      ∃ time l₉, actionPart "time" parseTableActionTime l₈ = .ok (time, l₉) ∧
      ∃ crypto l₁₀, actionPartSymCrypto symCrypto l₉ = .ok (crypto, l₁₀) ∧
      ∃ tag l₁₁, actionPart "tag" parseTableActionTag l₁₀ = .ok (tag, l₁₁) ∧
      ∃ decap l₁₂, actionPart "decap" parseTableActionDecap l₁₁ = .ok (decap, l₁₂) ∧
        tokens.length - l₁₂.length ≠ 1 ∧
        (⟨fwd, lb, mtr, tm, encap, nat, ttl, stats.isSome, time.isSome, crypto, tag, decap⟩,
          tokens.length - l₁₂.length) = x := by
  unfold parseTableAction
  simp only [bind_eq_ok, ensure_eq_ok, expect_eq_ok, Prod.exists, exists_and_left, exists_const,
    decide_eq_true_eq, Except.ok.injEq]

section Part

variable {α : Type} {name : String} {part : List String → Parse (α × ℕ)} {tokens : List String}

/-- A block that finds no part leaves the tokens. -/
theorem actionPart_none {l : List String} (h : actionPart name part tokens = .ok (none, l)) :
    l = tokens := by
  unfold actionPart at h
  split_ifs at h with hhead
  · cases hpart : part tokens with
    | ok x =>
      simp only [hpart, Except.ok.injEq, Prod.mk.injEq, reduceCtorEq, false_and] at h
    | error e =>
      rw [hpart] at h
      cases e <;> cases h
  · exact (congrArg Prod.snd (Except.ok.inj h)).symm

/-- A part is absent where another word stands. -/
theorem actionPart_of_head_ne (h : tokens.head? ≠ some name) :
    actionPart name part tokens = .ok (none, tokens) := if_neg h

/-- A block does not go past a token that is not its name. -/
theorem actionPart_stays {t : String} {o : Option α} {l : List String}
    (hhead : tokens.head? = some t) (hne : t ≠ name)
    (h : actionPart name part tokens = .ok (o, l)) : l = tokens := by
  have hother : tokens.head? ≠ some name := by
    rw [hhead]
    exact fun heq => hne (Option.some.inj heq)
  rw [actionPart_of_head_ne hother] at h
  exact (congrArg Prod.snd (Except.ok.inj h)).symm

/-- The cryptography is absent where another word stands. -/
theorem actionPartSymCrypto_of_head_ne (h : tokens.head? ≠ some "sym_crypto") :
    actionPartSymCrypto symCrypto tokens = .ok (none, tokens) := if_neg h

/-- Where another word stands the cryptography takes no token. -/
theorem actionPartSymCrypto_stays {t : String} {o : Option S} {l : List String}
    (hhead : tokens.head? = some t) (hne : t ≠ "sym_crypto")
    (h : actionPartSymCrypto symCrypto tokens = .ok (o, l)) : l = tokens := by
  have hother : tokens.head? ≠ some "sym_crypto" := by
    rw [hhead]
    exact fun heq => hne (Option.some.inj heq)
  rw [actionPartSymCrypto_of_head_ne hother] at h
  exact (congrArg Prod.snd (Except.ok.inj h)).symm

/-- An absent cryptography takes no token. -/
theorem actionPartSymCrypto_none {l : List String}
    (h : actionPartSymCrypto symCrypto tokens = .ok (none, l)) : l = tokens := by
  unfold actionPartSymCrypto at h
  split_ifs at h with hhead
  · cases hcrypto : symCrypto tokens with
    | ok x =>
      simp only [hcrypto, Except.ok.injEq, Prod.mk.injEq, reduceCtorEq, false_and] at h
    | error e =>
      rw [hcrypto] at h
      cases e with
      | unread i => cases h
      | _ => exact (congrArg Prod.snd (Except.ok.inj h)).symm
  · exact (congrArg Prod.snd (Except.ok.inj h)).symm

end Part

/-- An action that is read has a part: `action_mask` is not 0. -/
theorem true_mem_actionMask {tokens : List String} {a : TableRuleAction S} {n : ℕ}
    (h : parseTableAction inet symCrypto tokens = .ok (a, n)) : true ∈ a.actionMask := by
  obtain ⟨hlen, -, fwd, l₁, hfwd, lb, l₂, hlb, mtr, l₃, hmtr, tm, l₄, htm, encap, l₅, hencap, nat,
    l₆, hnat, ttl, l₇, httl, stats, l₈, hstats, time, l₉, htime, crypto, l₁₀, hcrypto, tag, l₁₁,
    htag, decap, l₁₂, hdecap, hcount, hx⟩ := parseTableAction_eq_ok.mp h
  obtain rfl := congrArg Prod.fst hx
  by_contra hmask
  simp only [TableRuleAction.actionMask, List.mem_cons, List.not_mem_nil, or_false, not_or,
    Bool.true_eq, Bool.not_eq_true, Option.isSome_eq_false_iff, Option.isNone_iff_eq_none] at hmask
  obtain ⟨rfl, rfl, rfl, rfl, rfl, rfl, rfl, rfl, rfl, rfl, rfl, rfl⟩ := hmask
  obtain rfl := actionPart_none hfwd
  obtain rfl := actionPart_none hlb
  obtain rfl := actionPart_none hmtr
  obtain rfl := actionPart_none htm
  obtain rfl := actionPart_none hencap
  obtain rfl := actionPart_none hnat
  obtain rfl := actionPart_none httl
  obtain rfl := actionPart_none hstats
  obtain rfl := actionPart_none htime
  obtain rfl := actionPartSymCrypto_none hcrypto
  obtain rfl := actionPart_none htag
  obtain rfl := actionPart_none hdecap
  rw [List.length_drop] at hcount
  omega

end Blocks

/-! ### The tokens of an action -/

/-- The tokens of a part that is there. -/
def partTokens {α : Type} (f : α → List String) (o : Option α) : List String :=
  partWords (fun a => tokensOf (f a)) o

/-- The next token, if there is one, is one of the names. -/
def NextIn (names tokens : List String) : Prop := ∀ t ∈ tokens.head?, t ∈ names

section Tokens

variable {α : Type} {name : String} {names rest : List String} {f : α → List String}
  {part : List String → Parse (α × ℕ)}

/-- The tokens of a part that may be absent. -/
theorem tokensOf_partWords (f : α → List String) (o : Option α) :
    tokensOf (partWords f o) = partTokens f o := by
  cases o <;> rfl

/-- Nothing follows. -/
theorem nextIn_nil : NextIn names [] := by
  intro t ht
  cases ht

/-- A word that is not among the next ones does not follow. -/
theorem NextIn.head_ne (h : NextIn names rest) (hname : name ∉ names) :
    rest.head? ≠ some name := by
  intro hhead
  exact hname (h name hhead)

/-- A part in front adds its name to the next words. -/
theorem NextIn.partTokens (hhead : ∀ a, (tokensOf (f a)).head? = some name)
    (h : NextIn names rest) (o : Option α) :
    NextIn (name :: names) (partTokens f o ++ rest) := by
  intro t ht
  cases o with
  | none => exact List.mem_cons_of_mem name (h t ht)
  | some a =>
    change t ∈ (tokensOf (f a) ++ rest).head? at ht
    rw [List.head?_append, hhead] at ht
    obtain rfl := Option.some.inj ht
    exact List.mem_cons_self

/-- A part that is one word adds it to the next words. -/
theorem NextIn.flagWords (h : NextIn names rest) (b : Bool) :
    NextIn (name :: names) (flagWords name b ++ rest) := by
  intro t ht
  cases b with
  | false => exact List.mem_cons_of_mem name (h t ht)
  | true =>
    obtain rfl := Option.some.inj ht
    exact List.mem_cons_self

/-- The first of two lists decides the head. -/
theorem head_append_of_head {ws : List String} (h : ws.head? = some name) :
    (ws ++ rest).head? = some name := by
  rw [List.head?_append, h]
  rfl

/-- A block reads the part that is there, up to the next name. -/
theorem actionPart_partTokens (hhead : ∀ a, (tokensOf (f a)).head? = some name) {o : Option α}
    (hpart : ∀ a ∈ o, part (tokensOf (f a) ++ rest) = .ok (a, (tokensOf (f a)).length))
    (hrest : NextIn names rest) (hname : name ∉ names) :
    actionPart name part (partTokens f o ++ rest) = .ok (o, rest) := by
  cases o with
  | none => exact actionPart_of_head_ne (hrest.head_ne hname)
  | some a =>
    change actionPart name part (tokensOf (f a) ++ rest) = _
    unfold actionPart
    rw [if_pos (head_append_of_head (hhead a)), hpart a rfl]
    simp only [List.drop_left]

/-- A block of a part whose words are never empty. -/
theorem actionPart_words (hhead : ∀ a, (tokensOf (f a)).head? = some name)
    (hwords : ∀ a, tokensOf (f a) = f a)
    (hpart : ∀ a, part (f a ++ rest) = .ok (a, (f a).length)) (hrest : NextIn names rest)
    (hname : name ∉ names) (o : Option α) :
    actionPart name part (partTokens f o ++ rest) = .ok (o, rest) := by
  refine actionPart_partTokens hhead (fun a _ => ?_) hrest hname
  rw [hwords]
  exact hpart a

/-- A block whose part is not read fails. -/
theorem actionPart_ne (hhead : ∀ a, (tokensOf (f a)).head? = some name) {a : α}
    (hpart : ∀ x, part (tokensOf (f a) ++ rest) ≠ .ok x) (y : Option α × List String) :
    actionPart name part (partTokens f (some a) ++ rest) ≠ .ok y := by
  intro h
  change actionPart name part (tokensOf (f a) ++ rest) = .ok y at h
  unfold actionPart at h
  rw [if_pos (head_append_of_head (hhead a))] at h
  cases hparsed : part (tokensOf (f a) ++ rest) with
  | ok x => exact hpart x hparsed
  | error e =>
    rw [hparsed] at h
    cases e <;> cases h

/-- The block of a part without arguments. -/
theorem actionPart_flagWords (b : Bool) (hrest : NextIn names rest) (hname : name ∉ names) :
    actionPart name (parseTableActionFlag name) (flagWords name b ++ rest) =
      .ok (if b then some () else none, rest) := by
  cases b with
  | false => exact actionPart_of_head_ne (hrest.head_ne hname)
  | true =>
    change actionPart name (parseTableActionFlag name) (name :: rest) = _
    unfold actionPart
    rw [if_pos List.head?_cons, parseTableActionFlag_word]
    rfl

end Tokens

section Words

variable {S : Type} (ap : ActionProfile) (a : TableRuleAction S)

/-- The tokens from `tag` on. -/
def tagTokens : List String := partTokens tagWords a.tag ++ (partTokens decapWords a.decap ++ [])

/-- The tokens from `ttl` on. -/
def ttlTokens : List String :=
  partTokens ttlWords a.ttl ++ (flagWords "stats" a.stats ++ (flagWords "time" a.time ++
    (flagWords "sym_crypto" a.symCrypto.isSome ++ tagTokens a)))

/-- The tokens from `encap` on. -/
def encapTokens : List String :=
  partTokens (encapWords ap) a.encap ++ (partTokens natWords a.nat ++ ttlTokens a)

/-- The tokens from `mtr` on. -/
def mtrTokens : List String :=
  partTokens mtrWords a.mtr ++ (partTokens tmWords a.tm ++ encapTokens ap a)

/-- The word of a part is not empty. -/
theorem tokensOf_flagWords {name : String} (hname : name ≠ "") (b : Bool) :
    tokensOf (flagWords name b) = flagWords name b := by
  cases b with
  | false => rfl
  | true => exact List.filter_cons_of_pos (decide_eq_true hname)

/-- The tokens of an action, up to the meter. -/
theorem tokensOf_actionWords : tokensOf (actionWords ap a) =
    partTokens fwdWords a.fwd ++ (partTokens lbWords a.lb ++ mtrTokens ap a) := by
  simp only [actionWords, tokensOf_append, tokensOf_partWords,
    tokensOf_flagWords (by decide : "stats" ≠ ""), tokensOf_flagWords (by decide : "time" ≠ ""),
    tokensOf_flagWords (by decide : "sym_crypto" ≠ ""), mtrTokens, encapTokens, ttlTokens,
    tagTokens, List.append_nil]

/-- A forward action starts with its name. -/
theorem head_fwdWords (fwd : FwdAction) : (tokensOf (fwdWords fwd)).head? = some "fwd" := by
  cases fwd <;> rfl

/-- An encapsulation starts with its name. -/
theorem head_encapWords (e : EncapParams) :
    (tokensOf (encapWords ap e)).head? = some "encap" := by
  cases e <;> rfl

/-- An address translation starts with its name. -/
theorem head_natWords (nat : NatParams) : (tokensOf (natWords nat)).head? = some "nat" := by
  cases nat <;> rfl

/-- What may come from the tag on. -/
theorem nextIn_tagTokens : NextIn ["tag", "decap"] (tagTokens a) :=
  .partTokens (fun _ => rfl) (.partTokens (fun _ => rfl) nextIn_nil a.decap) a.tag

/-- What may come from the time to live on. -/
theorem nextIn_ttlTokens :
    NextIn ["ttl", "stats", "time", "sym_crypto", "tag", "decap"] (ttlTokens a) :=
  .partTokens (fun _ => rfl) (.flagWords (.flagWords (.flagWords (nextIn_tagTokens a) _) _) _)
    a.ttl

/-- What may come from the encapsulation on. -/
theorem nextIn_encapTokens :
    NextIn ["encap", "nat", "ttl", "stats", "time", "sym_crypto", "tag", "decap"]
      (encapTokens ap a) :=
  .partTokens (head_encapWords ap) (.partTokens head_natWords (nextIn_ttlTokens a) a.nat) a.encap

/-- What may come from the meter on. -/
theorem nextIn_mtrTokens :
    NextIn ["mtr", "tm", "encap", "nat", "ttl", "stats", "time", "sym_crypto", "tag", "decap"]
      (mtrTokens ap a) :=
  .partTokens (fun _ => rfl) (.partTokens (fun _ => rfl) (nextIn_encapTokens ap a) a.tm) a.mtr

end Words

/-! ### The blocks on the tokens of an action -/

section RoundTrip

variable {S : Type} {inet : InetPton} {symCrypto : List String → Parse (S × ℕ)}
  (ap : ActionProfile) (a : TableRuleAction S)

/-- The first two blocks. -/
theorem actionPart_fwd_lb :
    actionPart "fwd" parseTableActionFwd (tokensOf (actionWords ap a)) =
        .ok (a.fwd, partTokens lbWords a.lb ++ mtrTokens ap a) ∧
      actionPart "balance" parseTableActionBalance (partTokens lbWords a.lb ++ mtrTokens ap a) =
        .ok (a.lb, mtrTokens ap a) := by
  have hlb : NextIn ("balance" :: _) (partTokens lbWords a.lb ++ mtrTokens ap a) :=
    .partTokens (fun _ => rfl) (nextIn_mtrTokens ap a) a.lb
  constructor
  · rw [tokensOf_actionWords]
    exact actionPart_words head_fwdWords tokensOf_fwdWords (parseTableActionFwd_fwdWords _) hlb
      (by decide) a.fwd
  · exact actionPart_words (fun _ => rfl) tokensOf_lbWords (parseTableActionBalance_lbWords _)
      (nextIn_mtrTokens ap a) (by decide) a.lb

/-- The block of the meter finds none, and the next block reads the traffic manager. -/
theorem actionPart_mtr_tm (hmtr : a.mtr = none) :
    actionPart "meter" parseTableActionMeter (mtrTokens ap a) = .ok (none, mtrTokens ap a) ∧
      actionPart "tm" parseTableActionTm (mtrTokens ap a) = .ok (a.tm, encapTokens ap a) := by
  constructor
  · exact actionPart_of_head_ne ((nextIn_mtrTokens ap a).head_ne (by decide))
  · rw [mtrTokens, hmtr]
    exact actionPart_words (fun _ => rfl) tokensOf_tmWords (parseTableActionTm_tmWords _)
      (nextIn_encapTokens ap a) (by decide) a.tm

/-- What may come from the address translation on. -/
theorem nextIn_natTokens :
    NextIn ["nat", "ttl", "stats", "time", "sym_crypto", "tag", "decap"]
      (partTokens natWords a.nat ++ ttlTokens a) :=
  .partTokens head_natWords (nextIn_ttlTokens a) a.nat

variable (inet) {a} in
/-- The encapsulation of an action is read back. -/
theorem actionPart_encap (hencap : ∀ e ∈ a.encap, e.Printable) :
    actionPart "encap" (parseTableActionEncap inet) (encapTokens ap a) =
      .ok (a.encap, partTokens natWords a.nat ++ ttlTokens a) := by
  have hlabels : ∀ t ∈ ["nat", "ttl", "stats", "time", "sym_crypto", "tag", "decap"],
    t ∉ labelNames 1 3 := by decide
  refine actionPart_partTokens (head_encapWords ap) (fun e he => ?_) (nextIn_natTokens a)
    (by decide)
  exact parseTableActionEncap_encapWords inet ap (hencap e he) fun t ht =>
    hlabels t (nextIn_natTokens a t ht)

variable {a} in
/-- The address translation of an action is read back. -/
theorem actionPart_nat (hinet : inet.Standard) (hnat : ∀ n ∈ a.nat, n.Printable) :
    actionPart "nat" (parseTableActionNat inet) (partTokens natWords a.nat ++ ttlTokens a) =
      .ok (a.nat, ttlTokens a) :=
  actionPart_partTokens head_natWords (fun n hn => parseTableActionNat_natWords hinet (hnat n hn))
    (nextIn_ttlTokens a) (by decide)

/-- The time to live of an action is read back. -/
theorem actionPart_ttl :
    actionPart "ttl" parseTableActionTtl (ttlTokens a) = .ok (a.ttl, flagWords "stats" a.stats ++
      (flagWords "time" a.time ++ (flagWords "sym_crypto" a.symCrypto.isSome ++ tagTokens a))) :=
  actionPart_words (fun _ => rfl) tokensOf_ttlWords (parseTableActionTtl_ttlWords _)
    (.flagWords (.flagWords (.flagWords (nextIn_tagTokens a) _) _) _) (by decide) a.ttl

/-- The blocks of the parts without arguments. -/
theorem actionPart_stats_time :
    actionPart "stats" parseTableActionStats (flagWords "stats" a.stats ++
          (flagWords "time" a.time ++ (flagWords "sym_crypto" a.symCrypto.isSome ++ tagTokens a))) =
        .ok (if a.stats then some () else none,
          flagWords "time" a.time ++ (flagWords "sym_crypto" a.symCrypto.isSome ++ tagTokens a)) ∧
      actionPart "time" parseTableActionTime
          (flagWords "time" a.time ++ (flagWords "sym_crypto" a.symCrypto.isSome ++ tagTokens a)) =
        .ok (if a.time then some () else none,
          flagWords "sym_crypto" a.symCrypto.isSome ++ tagTokens a) := by
  have hcrypto : NextIn ["sym_crypto", "tag", "decap"]
      (flagWords "sym_crypto" a.symCrypto.isSome ++ tagTokens a) :=
    (nextIn_tagTokens a).flagWords _
  have htime : NextIn ["time", "sym_crypto", "tag", "decap"]
      (flagWords "time" a.time ++ (flagWords "sym_crypto" a.symCrypto.isSome ++ tagTokens a)) :=
    hcrypto.flagWords _
  exact ⟨actionPart_flagWords a.stats htime (by decide),
    actionPart_flagWords a.time hcrypto (by decide)⟩

/-- The last two blocks. -/
theorem actionPart_tag_decap :
    actionPart "tag" parseTableActionTag (tagTokens a) =
        .ok (a.tag, partTokens decapWords a.decap ++ []) ∧
      actionPart "decap" parseTableActionDecap (partTokens decapWords a.decap ++ []) =
        .ok (a.decap, []) := by
  have hdecap : NextIn ["decap"] (partTokens decapWords a.decap ++ []) :=
    .partTokens (fun _ => rfl) nextIn_nil a.decap
  constructor
  · exact actionPart_words (fun _ => rfl) tokensOf_tagWords (parseTableActionTag_tagWords _) hdecap
      (by decide) a.tag
  · exact actionPart_words (fun _ => rfl) tokensOf_decapWords (parseTableActionDecap_decapWords _)
      nextIn_nil List.not_mem_nil a.decap

/-- A part without tokens is absent. -/
theorem partTokens_eq_nil {α : Type} {name : String} {f : α → List String}
    (hhead : ∀ a, (tokensOf (f a)).head? = some name) {o : Option α} :
    partTokens f o = [] ↔ o = none := by
  cases o with
  | none => exact ⟨fun _ => rfl, fun _ => rfl⟩
  | some a =>
    constructor
    · intro h
      change tokensOf (f a) = [] at h
      have hfirst := hhead a
      rw [h] at hfirst
      cases hfirst
    · intro h
      cases h

/-- An action with a part has a token. -/
theorem tokensOf_actionWords_ne_nil (hmask : true ∈ a.actionMask) :
    tokensOf (actionWords ap a) ≠ [] := by
  intro h
  have hflag {name : String} {b : Bool} : flagWords name b = [] ↔ b = false := by
    cases b <;> simp [flagWords]
  simp only [tokensOf_actionWords, mtrTokens, encapTokens, ttlTokens, tagTokens,
    List.append_eq_nil_iff, hflag, and_true, partTokens_eq_nil head_fwdWords,
    partTokens_eq_nil (head_encapWords ap), partTokens_eq_nil head_natWords,
    partTokens_eq_nil (fun _ => rfl : ∀ lb, (tokensOf (lbWords lb)).head? = some "balance"),
    partTokens_eq_nil (fun _ => rfl : ∀ mtr, (tokensOf (mtrWords mtr)).head? = some "mtr"),
    partTokens_eq_nil (fun _ => rfl : ∀ tm, (tokensOf (tmWords tm)).head? = some "tm"),
    partTokens_eq_nil (fun _ => rfl : ∀ dec, (tokensOf (ttlWords dec)).head? = some "ttl"),
    partTokens_eq_nil (fun _ => rfl : ∀ tag, (tokensOf (tagWords tag)).head? = some "tag"),
    partTokens_eq_nil (fun _ => rfl : ∀ n, (tokensOf (decapWords n)).head? = some "decap")] at h
  simp [TableRuleAction.actionMask, h] at hmask

/-- An action that is printed in the words of the parser. -/
structure TableRuleAction.Printable : Prop where
  mtr : a.mtr = none
  encap : ∀ e ∈ a.encap, e.Printable
  nat : ∀ n ∈ a.nat, n.Printable

variable {a}

/-- An action that is printed in the words of the parser is read back. -/
theorem parseTableAction_actionWords (hinet : inet.Standard) (ha : a.Printable)
    (hcrypto : a.symCrypto = none) (hmask : true ∈ a.actionMask) :
    parseTableAction inet symCrypto ("action" :: tokensOf (actionWords ap a)) =
      .ok (a, ("action" :: tokensOf (actionWords ap a)).length) := by
  obtain ⟨hfwd, hlb⟩ := actionPart_fwd_lb ap a
  obtain ⟨hmeter, htm⟩ := actionPart_mtr_tm ap a ha.mtr
  have hencap := actionPart_encap inet ap ha.encap
  have hnat := actionPart_nat hinet ha.nat
  have httl := actionPart_ttl a
  obtain ⟨hstats, htime⟩ := actionPart_stats_time a
  obtain ⟨htag, hdecap⟩ := actionPart_tag_decap a
  have hskip : actionPartSymCrypto symCrypto (flagWords "sym_crypto" a.symCrypto.isSome ++
      tagTokens a) = .ok (none, tagTokens a) := by
    rw [hcrypto]
    exact actionPartSymCrypto_of_head_ne ((nextIn_tagTokens a).head_ne (by decide))
  have hlen := List.length_pos_of_ne_nil (tokensOf_actionWords_ne_nil ap a hmask)
  have hcount : ("action" :: tokensOf (actionWords ap a)).length -
      ([] : List String).length ≠ 1 := by
    rw [List.length_cons, List.length_nil]
    omega
  refine parseTableAction_eq_ok.mpr ⟨Nat.succ_le_succ hlen, rfl, _, _, hfwd, _, _, hlb, _, _,
    hmeter, _, _, htm, _, _, hencap, _, _, hnat, _, _, httl, _, _, hstats, _, _, htime, _, _,
    hskip, _, _, htag, _, _, hdecap, hcount, ?_⟩
  obtain ⟨fwd, lb, mtr, tm, encap, nat, ttl, stats, time, crypto, tag, decap⟩ := a
  obtain rfl : mtr = none := ha.mtr
  obtain rfl : crypto = none := hcrypto
  cases stats <;> cases time <;> rfl

/-- An action that is printed in other words is not read with all of them. -/
theorem parseTableAction_actionWords_lt (hinet : inet.Standard) (ha : ¬ a.Printable)
    {x : TableRuleAction S} {n : ℕ}
    (h : parseTableAction inet symCrypto ("action" :: tokensOf (actionWords ap a)) = .ok (x, n)) :
    n < ("action" :: tokensOf (actionWords ap a)).length := by
  obtain ⟨hfwd, hlb⟩ := actionPart_fwd_lb ap a
  obtain ⟨-, -, fwd, l₁, hfwd', lb, l₂, hlb', mtr, l₃, hmtr', tm, l₄, htm', encap, l₅, hencap',
    nat, l₆, hnat', ttl, l₇, httl', stats, l₈, hstats', time, l₉, htime', crypto, l₁₀, hcrypto',
    tag, l₁₁, htag', decap, l₁₂, hdecap', -, hx⟩ := parseTableAction_eq_ok.mp h
  obtain ⟨rfl, rfl⟩ := eq_of_ok hfwd hfwd'
  obtain ⟨rfl, rfl⟩ := eq_of_ok hlb hlb'
  cases hmtr : a.mtr with
  | some m =>
    -- `mtr` is not the name of a part, and no block goes past it
    have hhead : (mtrTokens ap a).head? = some "mtr" := by
      rw [mtrTokens, hmtr]
      rfl
    obtain rfl := actionPart_stays hhead (by decide) hmtr'
    obtain rfl := actionPart_stays hhead (by decide) htm'
    obtain rfl := actionPart_stays hhead (by decide) hencap'
    obtain rfl := actionPart_stays hhead (by decide) hnat'
    obtain rfl := actionPart_stays hhead (by decide) httl'
    obtain rfl := actionPart_stays hhead (by decide) hstats'
    obtain rfl := actionPart_stays hhead (by decide) htime'
    obtain rfl := actionPartSymCrypto_stays hhead (by decide) hcrypto'
    obtain rfl := actionPart_stays hhead (by decide) htag'
    obtain rfl := actionPart_stays hhead (by decide) hdecap'
    have hne : mtrTokens ap a ≠ [] := by
      intro hnil
      rw [hnil] at hhead
      cases hhead
    have hleft := List.length_pos_of_ne_nil hne
    have hcount : ("action" :: tokensOf (actionWords ap a)).length - (mtrTokens ap a).length = n :=
      congrArg Prod.snd hx
    rw [← hcount]
    exact Nat.sub_lt (Nat.succ_pos _) hleft
  | none =>
    obtain ⟨hmeter, htm⟩ := actionPart_mtr_tm ap a hmtr
    obtain ⟨rfl, rfl⟩ := eq_of_ok hmeter hmtr'
    obtain ⟨rfl, rfl⟩ := eq_of_ok htm htm'
    exfalso
    by_cases hencap : ∀ e ∈ a.encap, e.Printable
    · have hencap'' := actionPart_encap inet ap hencap
      obtain ⟨rfl, rfl⟩ := eq_of_ok hencap'' hencap'
      have hnat : ¬ ∀ n ∈ a.nat, n.Printable := fun hnat => ha ⟨hmtr, hencap, hnat⟩
      obtain ⟨n, hn, hne⟩ := not_forall₂.mp hnat
      rw [hn] at hnat'
      exact actionPart_ne head_natWords (parseTableActionNat_natWords_ne hinet hne) _ hnat'
    · obtain ⟨e, he, hne⟩ := not_forall₂.mp hencap
      have hudp := (nextIn_natTokens a).head_ne (by decide : "udp" ∉ _)
      rw [encapTokens, he] at hencap'
      exact actionPart_ne (head_encapWords ap)
        (parseTableActionEncap_encapWords_ne hinet ap hne hudp) _ hencap'

end RoundTrip

end Rids.Pipeline
