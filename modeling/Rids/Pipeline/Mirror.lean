import Mathlib.Data.List.Perm.Basic
import Rids.Lib.Runs
import Rids.Pipeline.RuleStore

/-!
# Does the rule list mirror the table of the library?

`table->rules` finds a rule by its whole match, the table of the library by a key that it reads
from the converted match. The two stores hold the same rules, each with the place of its entry,
as long as they agree on which rule a call names.

* `Mirrors` — the entries of the two stores correspond one to one, by key, with equal `data`.
* `mirrors_bulk_iff` — rules that are installed keep the mirror exactly when no two rules with
  different matches have one key.
* `mirrors_delete_iff` — a delete keeps it exactly when both stores take it for the same rule.
* `always_mirrors_iff` — runs of adds, bulk adds and deletes.
-/

namespace Rids.Pipeline

open Rids.Lib.ByteMem Rids.Lib Rids.Lib.Runs

section Mirror

variable {κ A E D : Type} [DecidableEq κ]

/-! ### The mirror -/

/-- The key under which the library keeps the rule of a match. -/
def libKey (lib : LowLevel κ E D) (m : TableRuleMatch) : Option κ :=
  (matchConvert m true).map lib.addKey

/-- The rules and the entries, as pairs of a key and the place of the entry, are the same up to
order. -/
def Mirrors (lib : LowLevel κ E D) (rules : List (TableRule A D)) (ll : List (LlEntry E D)) :
    Prop :=
  (rules.map fun r => (libKey lib r.ruleMatch, r.data)).Perm
    (ll.map fun e => (some (lib.entryKey e), e.data))

/-- A struct ends with its union: two matches `memcmp` takes for the same are equal. -/
def TableRuleMatch.Sized (m : TableRuleMatch) : Prop := ∀ a, matchUnionSize ≤ a → m.mem a = 0

/-- Matches without stray bytes are the same exactly when they are equal. -/
theorem TableRuleMatch.Sized.same_iff {m m' : TableRuleMatch} (h : m.Sized) (h' : m'.Sized) :
    m.Same m' ↔ m = m' := by
  constructor
  · rintro ⟨htype, hmem⟩
    have heq : m.mem = m'.mem := by
      funext a
      by_cases ha : a < matchUnionSize
      · exact hmem a ha
      · rw [h a (not_lt.mp ha), h' a (not_lt.mp ha)]
    cases m
    cases m'
    simp only at htype heq
    rw [htype, heq]
  · rintro rfl
    exact ⟨rfl, fun _ _ => rfl⟩

variable {lib : LowLevel κ E D} {rules : List (TableRule A D)} {ll : List (LlEntry E D)}

omit [DecidableEq κ] in
/-- The keys of the rules are the keys of the entries. -/
theorem Mirrors.keys_perm (h : Mirrors lib rules ll) :
    (rules.map fun r => libKey lib r.ruleMatch).Perm (ll.map fun e => some (lib.entryKey e)) := by
  have hfst := h.map Prod.fst
  rwa [List.map_map, List.map_map] at hfst

omit [DecidableEq κ] in
/-- A mirrored list names no entry twice. -/
theorem Mirrors.keys_nodup (h : Mirrors lib rules ll) (hll : KeyedList.Distinct lib.entryKey ll) :
    (rules.map fun r => libKey lib r.ruleMatch).Nodup := by
  rw [h.keys_perm.nodup_iff]
  have hsome := hll.map (Option.some_injective κ)
  rwa [List.map_map] at hsome

/-- A key of an entry is the key of a rule. -/
theorem Mirrors.exists_rule_iff (h : Mirrors lib rules ll) (k : κ) :
    (∃ r ∈ rules, libKey lib r.ruleMatch = some k) ↔
      (KeyedList.find lib.entryKey ll k).isSome := by
  have hmem := h.keys_perm.mem_iff (a := some k)
  rw [List.mem_map, List.mem_map] at hmem
  rw [hmem, Option.isSome_iff_ne_none, ne_eq, KeyedList.find_eq_none_iff]
  simp only [Option.some.injEq, not_forall, not_not, exists_prop]

omit [DecidableEq κ] in
/-- A mirrored rule has a key. -/
theorem Mirrors.libKey_ne_none (h : Mirrors lib rules ll) {r : TableRule A D} (hr : r ∈ rules) :
    libKey lib r.ruleMatch ≠ none := by
  intro hnone
  have hmem := h.keys_perm.mem_iff.mp (List.mem_map_of_mem hr)
  rw [hnone] at hmem
  simp at hmem

/-- Erasing the rules and the entries of one key keeps the mirror. -/
theorem Mirrors.filter (h : Mirrors lib rules ll) (k : κ) :
    Mirrors lib (rules.filter fun r => libKey lib r.ruleMatch ≠ some k)
      (ll.filter fun e => lib.entryKey e ≠ k) := by
  have hfilter := List.Perm.filter (fun x => decide (x.1 ≠ some k)) h
  rw [List.filter_map, List.filter_map] at hfilter
  simpa [Mirrors, Function.comp_def] using hfilter

/-- Erasing a rule erases the rules with its key of the library. -/
theorem filter_rules_eq (hrules : KeyedList.Distinct TableRule.key rules) {m : TableRuleMatch}
    {k : κ} (hkey : ∀ r ∈ rules, libKey lib r.ruleMatch = some k ↔ r.ruleMatch.Same m) :
    KeyedList.erase TableRule.key rules m.key =
      rules.filter fun r => libKey lib r.ruleMatch ≠ some k := by
  rw [KeyedList.erase_eq_filter hrules]
  apply List.filter_congr
  intro r hr
  have hsame : r.key = m.key ↔ r.ruleMatch.Same m := TableRuleMatch.same_iff.symm
  simp only [ne_eq, hkey r hr, hsame]

/-! ### Installing rules -/

/-- Where the library's key names the rules with the match, an add keeps the mirror. -/
theorem Mirrors.put (h : Mirrors lib rules ll) (hrules : KeyedList.Distinct TableRule.key rules)
    (hll : KeyedList.Distinct lib.entryKey ll) {m : TableRuleMatch} {ml : Mem}
    (hml : matchConvert m true = some ml)
    (hkey : ∀ r ∈ rules, libKey lib r.ruleMatch = some (lib.addKey ml) ↔ r.ruleMatch.Same m)
    (action : A) (e : E) (data : D) :
    Mirrors lib (tableRuleAdd rules ⟨m, action, data⟩)
      (KeyedList.put lib.entryKey ⟨ml, e, data⟩ ll) := by
  have hnew : libKey lib m = some (lib.addKey ml) := by rw [libKey, hml]; rfl
  have hputRules : (KeyedList.put TableRule.key ⟨m, action, data⟩ rules).Perm
      (⟨m, action, data⟩ :: KeyedList.erase TableRule.key rules m.key) :=
    KeyedList.put_perm _ _
  have hputLl : (KeyedList.put lib.entryKey ⟨ml, e, data⟩ ll).Perm
      (⟨ml, e, data⟩ :: KeyedList.erase lib.entryKey ll (lib.addKey ml)) :=
    KeyedList.put_perm _ _
  have hleft := hputRules.map fun r => (libKey lib r.ruleMatch, r.data)
  have hright := hputLl.map fun e => (some (lib.entryKey e), e.data)
  rw [tableRuleAdd_eq_put, Mirrors]
  refine hleft.trans (List.Perm.trans ?_ hright.symm)
  have hrest := h.filter (lib.addKey ml)
  rw [← filter_rules_eq hrules hkey, ← KeyedList.erase_eq_filter hll] at hrest
  rw [List.map_cons, List.map_cons, hnew]
  exact hrest.cons _

/-- No rule in the list, and no other of the new ones, has the key of a new rule under another
match. -/
def KeysApart (lib : LowLevel κ E D) (rules : List (TableRule A D))
    (installed : List TableRuleMatch) : Prop :=
  ∀ m ∈ installed, ∀ m', m' ∈ rules.map TableRule.ruleMatch ∨ m' ∈ installed →
    libKey lib m' = libKey lib m → m'.Same m

/-- Every match is a struct of the size of the source. -/
def AllSized (rules : List (TableRule A D)) : Prop := ∀ r ∈ rules, r.ruleMatch.Sized

omit [DecidableEq κ] in
/-- A rule after an add is the new one or an old one. -/
theorem mem_tableRuleAdd {r new : TableRule A D} (h : r ∈ tableRuleAdd rules new) :
    r = new ∨ r ∈ rules := by
  rw [tableRuleAdd_eq_put] at h
  have hput : (KeyedList.put TableRule.key new rules).Perm
      (new :: KeyedList.erase TableRule.key rules new.key) :=
    KeyedList.put_perm _ _
  have hperm := hput.mem_iff.mp h
  rcases List.mem_cons.mp hperm with rfl | herase
  · exact .inl rfl
  · exact .inr (List.mem_of_mem_eraseP herase)

/-- An add of a sized rule keeps the rules sized. -/
theorem AllSized.tableRuleAdd (h : AllSized rules) {new : TableRule A D}
    (hnew : new.ruleMatch.Sized) : AllSized (tableRuleAdd rules new) := by
  intro r hr
  rcases mem_tableRuleAdd hr with rfl | hr
  · exact hnew
  · exact h r hr

/-- A bulk of sized rules keeps the rules sized. -/
theorem AllSized.tableRuleAddBulk (h : AllSized rules) {news : List (TableRule A D)}
    (hnews : ∀ r ∈ news, r.ruleMatch.Sized) : AllSized (tableRuleAddBulk rules news) := by
  unfold Pipeline.tableRuleAddBulk
  induction news generalizing rules with
  | nil => exact h
  | cons new news ih =>
    obtain ⟨hnew, hnews⟩ := List.forall_mem_cons.mp hnews
    exact ih (h.tableRuleAdd hnew) hnews

/-- The keys of the old rules and of the new ones are all in the list afterwards. -/
theorem mem_keys_tableRuleAddBulk (news : List (TableRule A D))
    {k : TableType × List (BitVec 8)}
    (hk : k ∈ rules.map TableRule.key ∨ k ∈ news.map TableRule.key) :
    k ∈ (tableRuleAddBulk rules news).map TableRule.key := by
  unfold tableRuleAddBulk
  induction news generalizing rules with
  | nil => simpa using hk
  | cons new news ih =>
    rw [List.map_cons, List.mem_cons] at hk
    apply ih
    rw [tableRuleAdd_eq_put, KeyedList.mem_map_put_iff]
    tauto

/-- What holds of the converted rules holds of those the library has placed. -/
theorem forall_placed (lib : LowLevel κ E D) (ll : List (LlEntry E D))
    {P : Converted A E → Prop} {xs : List (Converted A E)} (hxs : ∀ x ∈ xs, P x) :
    ∀ y ∈ (entryAddAll lib ll xs).1, P y.toConverted := by
  induction xs generalizing ll with
  | nil => simp [entryAddAll]
  | cons x xs ih =>
    obtain ⟨hx, hrest⟩ := List.forall_mem_cons.mp hxs
    rw [entryAddAll]
    cases lib.place ll x.params x.entry with
    | none => simp
    | some data =>
      rw [List.forall_mem_cons]
      exact ⟨hx, ih _ hrest⟩

/-- **Installing rules.** The rules that the library accepts one after the other keep the mirror
exactly when no two rules with different matches have one key. -/
theorem mirrors_bulk_iff (h : Mirrors lib rules ll)
    (hrules : KeyedList.Distinct TableRule.key rules) (hll : KeyedList.Distinct lib.entryKey ll)
    (hsized : AllSized rules) {xs : List (Converted A E)}
    (hxs : ∀ x ∈ xs, matchConvert x.ruleMatch true = some x.params ∧ x.ruleMatch.Sized) :
    Mirrors lib (tableRuleAddBulk rules ((entryAddAll lib ll xs).1.map Placed.rule))
        (entryAddAll lib ll xs).2 ↔
      KeysApart lib rules ((entryAddAll lib ll xs).1.map fun x => x.ruleMatch) := by
  constructor
  · intro hafter m hm m' hm' hkey
    have hnodup := hafter.keys_nodup (distinct_entryAddAll hll xs)
    have hplaced := forall_placed lib ll hxs
    have hfinal : AllSized
        (tableRuleAddBulk rules ((entryAddAll lib ll xs).1.map Placed.rule)) := by
      apply hsized.tableRuleAddBulk
      intro r hr
      obtain ⟨y, hy, rfl⟩ := List.mem_map.mp hr
      exact (hplaced y hy).2
    -- a match of the list or of the new rules is the match of a rule in the end
    have hend : ∀ m', m' ∈ rules.map TableRule.ruleMatch ∨
        m' ∈ (entryAddAll lib ll xs).1.map (fun x => x.ruleMatch) →
        ∃ r ∈ tableRuleAddBulk rules ((entryAddAll lib ll xs).1.map Placed.rule),
          r.ruleMatch = m' := by
      intro m' hm'
      have hsize : m'.Sized := by
        rcases hm' with hm' | hm'
        · obtain ⟨r, hr, rfl⟩ := List.mem_map.mp hm'
          exact hsized r hr
        · obtain ⟨y, hy, rfl⟩ := List.mem_map.mp hm'
          exact (hplaced y hy).2
      have hkey : m'.key ∈ rules.map TableRule.key ∨
          m'.key ∈ ((entryAddAll lib ll xs).1.map Placed.rule).map TableRule.key := by
        rcases hm' with hm' | hm'
        · obtain ⟨r, hr, rfl⟩ := List.mem_map.mp hm'
          exact .inl (List.mem_map_of_mem hr)
        · obtain ⟨y, hy, rfl⟩ := List.mem_map.mp hm'
          exact .inr (List.mem_map_of_mem (List.mem_map_of_mem hy))
      obtain ⟨r, hr, hsame⟩ := List.mem_map.mp (mem_keys_tableRuleAddBulk _ hkey)
      exact ⟨r, hr, ((hfinal r hr).same_iff hsize).mp (TableRuleMatch.same_iff.mpr hsame)⟩
    obtain ⟨r, hr, rfl⟩ := hend m (.inr hm)
    obtain ⟨r', hr', rfl⟩ := hend m' hm'
    rw [List.inj_on_of_nodup_map hnodup hr' hr hkey]
    exact TableRuleMatch.same_iff.mpr rfl
  · induction xs generalizing rules ll with
    | nil =>
      intro _
      exact h
    | cons x xs ih =>
      obtain ⟨⟨hml, hx⟩, hrest⟩ := List.forall_mem_cons.mp hxs
      rw [entryAddAll]
      cases hplace : lib.place ll x.params x.entry with
      | none =>
        intro _
        exact h
      | some data =>
        intro hapart
        have hkeyx : libKey lib x.ruleMatch = some (lib.addKey x.params) := by
          rw [libKey, hml]
          rfl
        have hput := h.put hrules hll hml (fun r hr => ?_) x.action x.entry data
        · refine ih hput ?_ (hll.put _) (hsized.tableRuleAdd hx) hrest ?_
          · rw [tableRuleAdd_eq_put]
            exact hrules.put _
          · -- the rules that are left are apart from the list with `x` in it
            intro m hm m' hm' hkey
            refine hapart m (List.mem_cons_of_mem _ hm) m' ?_ hkey
            rcases hm' with hm' | hm'
            · obtain ⟨r, hr, rfl⟩ := List.mem_map.mp hm'
              rcases mem_tableRuleAdd hr with rfl | hr
              · exact .inr List.mem_cons_self
              · exact .inl (List.mem_map_of_mem hr)
            · exact .inr (List.mem_cons_of_mem _ hm')
        · constructor
          · intro hkey
            exact hapart x.ruleMatch List.mem_cons_self r.ruleMatch
              (.inl (List.mem_map_of_mem hr)) (hkey.trans hkeyx.symm)
          · intro hsame
            rw [((hsized r hr).same_iff hx).mp hsame, hkeyx]

/-! ### Deleting a rule -/

/-- The two stores take a delete of `m` with key `k` for the same rule: the rules with the key are
those with the match. Where no rule has the key, a library that reports it is followed. -/
def DeleteAgrees (lib : LowLevel κ E D) (rules : List (TableRule A D)) (m : TableRuleMatch)
    (k : κ) : Prop :=
  (∀ r ∈ rules, libKey lib r.ruleMatch = some k ↔ r.ruleMatch.Same m) ∨
    lib.deleteMissing ≠ 0 ∧ ∀ r ∈ rules, libKey lib r.ruleMatch ≠ some k

/-- The rules after a delete. -/
def deleteRules (lib : LowLevel κ E D) (rules : List (TableRule A D)) (ll : List (LlEntry E D))
    (m : TableRuleMatch) (ml : Mem) : List (TableRule A D) :=
  if lib.deleteStatus ll ml = 0 then tableRuleDelete rules m else rules

omit [DecidableEq κ] in
/-- The rules after a delete are those of another match. -/
theorem mem_tableRuleDelete_iff (hrules : KeyedList.Distinct TableRule.key rules)
    {m : TableRuleMatch} {r : TableRule A D} :
    r ∈ tableRuleDelete rules m ↔ r ∈ rules ∧ ¬ r.ruleMatch.Same m := by
  rw [tableRuleDelete_eq_erase, KeyedList.erase_eq_filter hrules, List.mem_filter,
    decide_eq_true_eq, TableRuleMatch.same_iff]
  rfl

omit [DecidableEq κ] in
/-- A delete of a match that is not there changes nothing. -/
theorem tableRuleDelete_eq_self {m : TableRuleMatch}
    (h : ∀ r ∈ rules, ¬ r.ruleMatch.Same m) : tableRuleDelete rules m = rules := by
  rw [tableRuleDelete_eq_erase]
  apply List.eraseP_of_forall_not
  intro r hr hkey
  exact h r hr (TableRuleMatch.same_iff.mpr (of_decide_eq_true hkey))

/-- A delete of a key that is not there changes nothing. -/
theorem erase_ll_eq_self {k : κ} (h : KeyedList.find lib.entryKey ll k = none) :
    KeyedList.erase lib.entryKey ll k = ll := by
  apply List.eraseP_of_forall_not
  intro e he
  simpa using KeyedList.find_eq_none_iff.mp h e he

/-- **Deleting a rule.** A delete keeps the mirror exactly when both stores take it for the same
rule. -/
theorem mirrors_delete_iff (h : Mirrors lib rules ll)
    (hrules : KeyedList.Distinct TableRule.key rules) (hll : KeyedList.Distinct lib.entryKey ll)
    (m : TableRuleMatch) (ml : Mem) :
    Mirrors lib (deleteRules lib rules ll m ml)
        (KeyedList.erase lib.entryKey ll (lib.deleteKey ml)) ↔
      DeleteAgrees lib rules m (lib.deleteKey ml) := by
  generalize hk : lib.deleteKey ml = k
  have hexists := h.exists_rule_iff k
  unfold deleteRules LowLevel.deleteStatus DeleteAgrees
  rw [hk]
  by_cases hfound : (KeyedList.find lib.entryKey ll k).isSome
  · -- the library has an entry with the key, and deletes it
    obtain ⟨r₀, hr₀, hkey₀⟩ := hexists.mpr hfound
    have hright : ¬ (lib.deleteMissing ≠ 0 ∧ ∀ r ∈ rules, libKey lib r.ruleMatch ≠ some k) :=
      fun hnone => hnone.2 r₀ hr₀ hkey₀
    rw [if_pos hfound, if_pos rfl, or_iff_left hright]
    constructor
    · intro hafter r hr
      constructor
      · intro hkey
        by_contra hne
        have hstay := (mem_tableRuleDelete_iff hrules).mpr ⟨hr, hne⟩
        have hgone := (hafter.exists_rule_iff k).mp ⟨r, hstay, hkey⟩
        rw [KeyedList.find_erase_self hll] at hgone
        cases hgone
      · intro hsame
        by_contra hne
        obtain ⟨k', hk'⟩ := Option.ne_none_iff_exists'.mp (h.libKey_ne_none hr)
        have hkk : k' ≠ k := fun heq => hne (heq ▸ hk')
        have hentry := (h.exists_rule_iff k').mp ⟨r, hr, hk'⟩
        rw [← KeyedList.find_erase_of_ne hkk] at hentry
        obtain ⟨r', hr', hkey'⟩ := (hafter.exists_rule_iff k').mpr hentry
        obtain ⟨hr', hne'⟩ := (mem_tableRuleDelete_iff hrules).mp hr'
        have heq : r' = r :=
          List.inj_on_of_nodup_map (h.keys_nodup hll) hr' hr (hkey'.trans hk'.symm)
        exact hne' (heq ▸ hsame)
    · intro hagree
      have hfilter := h.filter k
      rwa [← filter_rules_eq hrules hagree, ← KeyedList.erase_eq_filter hll,
        ← tableRuleDelete_eq_erase] at hfilter
  · -- it has none, and leaves its table as it is
    have hnone : ∀ r ∈ rules, libKey lib r.ruleMatch ≠ some k := by
      intro r hr hkey
      exact hfound (hexists.mp ⟨r, hr, hkey⟩)
    rw [if_neg hfound, erase_ll_eq_self (Option.not_isSome_iff_eq_none.mp hfound)]
    by_cases hstatus : lib.deleteMissing = 0
    · rw [if_pos hstatus]
      constructor
      · intro hafter
        left
        intro r hr
        refine iff_of_false (hnone r hr) ?_
        intro hsame
        have hlen : (tableRuleDelete rules m).length = rules.length := by
          have hleft := hafter.length_eq
          have hright := h.length_eq
          simp only [List.length_map] at hleft hright
          rw [hleft, hright]
        have hsub : (tableRuleDelete rules m).Sublist rules := by
          rw [tableRuleDelete_eq_erase]
          exact List.eraseP_sublist
        rw [← hsub.eq_of_length hlen] at hr
        exact ((mem_tableRuleDelete_iff hrules).mp hr).2 hsame
      · rintro (hagree | ⟨hne, -⟩)
        · rw [tableRuleDelete_eq_self]
          · exact h
          · intro r hr hsame
            exact hnone r hr ((hagree r hr).mpr hsame)
        · exact absurd hstatus hne
    · rw [if_neg hstatus]
      exact iff_of_true h (.inr ⟨hstatus, hnone⟩)

omit [DecidableEq κ] in
/-- Where a delete reads the key as an add does, as in a hash table and in an LPM table, the two
stores agree exactly when no rule has the key of `m` under another match. -/
theorem deleteAgrees_iff_keysApart (hkey : lib.deleteKey = lib.addKey) (hsized : AllSized rules)
    {m : TableRuleMatch} (hm : m.Sized) (hacl : m.matchType ≠ .acl) {ml : Mem}
    (hml : matchConvert m false = some ml) :
    DeleteAgrees lib rules m (lib.deleteKey ml) ↔ KeysApart lib rules [m] := by
  have hadd : matchConvert m true = some ml := by
    rw [← hml]
    unfold matchConvert matchConvertAssigns
    cases htype : m.matchType with
    | acl => exact absurd htype hacl
    | array => rfl
    | hash => rfl
    | lpm => rfl
    | stub => rfl
  have hlib : libKey lib m = some (lib.deleteKey ml) := by
    rw [libKey, hadd, hkey]
    rfl
  unfold DeleteAgrees
  rw [← hlib]
  constructor
  · intro hagree m₁ hm₁ m' hm' hsame
    obtain rfl := List.mem_singleton.mp hm₁
    rcases hm' with hm' | hm'
    · obtain ⟨r, hr, rfl⟩ := List.mem_map.mp hm'
      rcases hagree with hall | ⟨-, hnone⟩
      · exact (hall r hr).mp hsame
      · exact absurd hsame (hnone r hr)
    · rw [List.mem_singleton.mp hm']
      exact TableRuleMatch.same_iff.mpr rfl
  · intro hapart
    left
    intro r hr
    constructor
    · intro hsame
      exact hapart m List.mem_cons_self r.ruleMatch (.inl (List.mem_map_of_mem hr)) hsame
    · intro hsame
      rw [((hsized r hr).same_iff hm).mp hsame]

example (n : ℕ) (place : List (LlEntry E D) → Mem → E → Option D) (status : Int) :
    (LowLevel.hash n place status).deleteKey = (LowLevel.hash n place status).addKey := rfl

example (n : BitVec 32) (place : List (LlEntry E D) → Mem → E → Option D) (status : Int) :
    (LowLevel.lpm n place status).deleteKey = (LowLevel.lpm n place status).addKey := rfl

end Mirror

/-! ### Runs -/

section Run

variable {κ A E D : Type} [DecidableEq κ] {lib : LowLevel κ E D}

/-- A match as the source has it: nothing after the union. -/
abbrev SizedMatch := {m : TableRuleMatch // m.Sized}

/-- A call on a table. -/
inductive RuleCall (A : Type)
  | add (m : SizedMatch) (action : A)
  | addBulk (list : List (SizedMatch × A))
  | delete (m : SizedMatch)

/-- The list of a bulk as the functions take it. -/
def bulkList (list : List (SizedMatch × A)) : List (TableRuleMatch × A) :=
  list.map fun (m, action) => (m.1, action)

variable (ops : ActionOps A E) (params : TableParams)

/-- The table after a call. -/
def TableState.call (s : TableState lib A) : RuleCall A → TableState lib A
  | .add m action => (pipelineTableRuleAdd ops params s m action).2
  | .addBulk list => (pipelineTableRuleAddBulk ops params s (bulkList list)).2.2
  | .delete m => (pipelineTableRuleDelete params s m).2

/-- The matches of a list that pass the checks and that the library accepts from this state on. -/
def acceptedMatches (s : TableState lib A) (list : List (TableRuleMatch × A)) :
    List TableRuleMatch :=
  if list.all fun (m, action) => matchCheck m params && ops.check action then
    match tableRuleAddBulkLl lib ops (params.matchType = .acl) s.ll list with
    | none => []
    | some (placed, _) => placed.map fun x => x.ruleMatch
  else []

/-- The two stores agree on the rules that a call names. -/
def CallAgrees (s : TableState lib A) : RuleCall A → Prop
  | .add m action => KeysApart lib s.rules (acceptedMatches ops params s [(m.1, action)])
  | .addBulk list => KeysApart lib s.rules (acceptedMatches ops params s (bulkList list))
  | .delete m => matchCheck m params = true → ∀ ml, matchConvert m false = some ml →
      DeleteAgrees lib s.rules m (lib.deleteKey ml)

variable {ops params} {s : TableState lib A}

/-- What is converted comes from the list. -/
theorem convertAll_eq_some {list : List (TableRuleMatch × A)} {xs : List (Converted A E)}
    (h : convertAll ops list = some xs) :
    ∀ x ∈ xs, matchConvert x.ruleMatch true = some x.params ∧ ∃ r ∈ list, x.ruleMatch = r.1 := by
  induction list generalizing xs with
  | nil =>
    cases h
    simp
  | cons r list ih =>
    unfold convertAll at h
    cases hx : convertRule ops r with
    | none => simp [hx] at h
    | some x =>
      cases hrest : convertAll ops list with
      | none => simp [hx, hrest] at h
      | some ys =>
        simp only [hx, hrest, Option.some.injEq] at h
        subst h
        obtain ⟨hml, hr, -⟩ := convertRule_eq_some hx
        rw [List.forall_mem_cons]
        refine ⟨⟨hml, r, List.mem_cons_self, hr⟩, ?_⟩
        intro y hy
        obtain ⟨hml', r', hr', heq⟩ := ih hrest y hy
        exact ⟨hml', r', List.mem_cons_of_mem _ hr', heq⟩

/-- The two stores of a table. -/
def TableState.stores (s : TableState lib A) : List (TableRule A D) × List (LlEntry E D) :=
  (s.rules, s.ll)

/-- The stores after the rules of a list have been checked, converted and installed. -/
def installStores (ops : ActionOps A E) (params : TableParams) (s : TableState lib A)
    (list : List (TableRuleMatch × A)) : List (TableRule A D) × List (LlEntry E D) :=
  if list.all fun (m, action) => matchCheck m params && ops.check action then
    match tableRuleAddBulkLl lib ops (params.matchType = .acl) s.ll list with
    | none => s.stores
    | some (placed, ll') => (tableRuleAddBulk s.rules (placed.map Placed.rule), ll')
  else s.stores

/-- An add is a bulk of one rule. -/
theorem stores_pipelineTableRuleAdd (m : TableRuleMatch) (action : A) :
    (pipelineTableRuleAdd ops params s m action).2.stores =
      installStores ops params s [(m, action)] := by
  unfold pipelineTableRuleAdd installStores
  rw [← Bool.not_and]
  simp only [List.all_cons, List.all_nil, Bool.and_true]
  cases matchCheck m params && ops.check action with
  | false => rfl
  | true =>
    simp only [Bool.not_true, Bool.false_eq_true, if_false, if_true]
    unfold tableRuleAddBulkLl
    simp only [convertAll, convertRule]
    cases matchConvert m true with
    | none => rfl
    | some ml =>
      cases ops.convert action with
      | none => rfl
      | some e =>
        cases hplace : lib.place s.ll ml e with
        | none => simp [entryAddAll, hplace]
        | some data =>
          simp [entryAddAll, hplace, tableRuleAddBulk, Placed.rule, TableState.stores]

/-- The two stores after a bulk. -/
theorem stores_pipelineTableRuleAddBulk (list : List (TableRuleMatch × A)) :
    (pipelineTableRuleAddBulk ops params s list).2.2.stores = installStores ops params s list := by
  unfold pipelineTableRuleAddBulk installStores
  cases list with
  | nil => simp [tableRuleAddBulkLl, convertAll, entryAddAll, tableRuleAddBulk, TableState.stores]
  | cons r list =>
    simp only [List.isEmpty_cons, Bool.false_eq_true, if_false]
    cases (r :: list).all fun (m, action) => matchCheck m params && ops.check action with
    | false => rfl
    | true =>
      simp only [Bool.not_true, Bool.false_eq_true, if_false, if_true]
      split
      · next hadd => simp only [hadd]
      · next placed ll' hadd =>
        simp only [hadd]
        rfl

/-- The two stores after a delete. -/
theorem stores_pipelineTableRuleDelete (m : TableRuleMatch) :
    (pipelineTableRuleDelete params s m).2.stores =
      if matchCheck m params = true then
        match matchConvert m false with
        | none => s.stores
        | some ml =>
          (deleteRules lib s.rules s.ll m ml,
            KeyedList.erase lib.entryKey s.ll (lib.deleteKey ml))
      else s.stores := by
  unfold pipelineTableRuleDelete
  cases matchCheck m params with
  | false => rfl
  | true =>
    simp only [Bool.not_true, Bool.false_eq_true, if_false, if_true]
    cases matchConvert m false with
    | none => rfl
    | some ml => rfl

section Install

variable {list : List (TableRuleMatch × A)}

/-- Converted rules of sized matches. -/
theorem sized_converted (hlist : ∀ r ∈ list, r.1.Sized) {xs : List (Converted A E)}
    (hconv : convertAll ops list = some xs) :
    ∀ x ∈ xs, matchConvert x.ruleMatch true = some x.params ∧ x.ruleMatch.Sized := by
  intro x hx
  obtain ⟨hml, r, hr, heq⟩ := convertAll_eq_some hconv x hx
  exact ⟨hml, heq ▸ hlist r hr⟩

/-- A bulk of sized matches keeps the rules sized. -/
theorem allSized_installStores (hs : AllSized s.rules) (hlist : ∀ r ∈ list, r.1.Sized) :
    AllSized (installStores ops params s list).1 := by
  unfold installStores
  split_ifs
  · cases hadd : tableRuleAddBulkLl lib ops (params.matchType = .acl) s.ll list with
    | none => exact hs
    | some res =>
      obtain ⟨placed, ll'⟩ := res
      obtain ⟨xs, hconv, hplaced⟩ := tableRuleAddBulkLl_eq_some hadd
      apply hs.tableRuleAddBulk
      intro r hr
      obtain ⟨y, hy, rfl⟩ := List.mem_map.mp hr
      have hall := forall_placed lib s.ll (sized_converted hlist hconv)
      rw [hplaced] at hall
      exact (hall y hy).2
  · exact hs

/-- A bulk keeps the mirror exactly when its keys are apart. -/
theorem mirrors_installStores_iff (h : Mirrors lib s.rules s.ll) (hs : AllSized s.rules)
    (hlist : ∀ r ∈ list, r.1.Sized) :
    Mirrors lib (installStores ops params s list).1 (installStores ops params s list).2 ↔
      KeysApart lib s.rules (acceptedMatches ops params s list) := by
  have hnil : KeysApart lib s.rules [] := by simp [KeysApart]
  unfold installStores acceptedMatches
  split_ifs
  · cases hadd : tableRuleAddBulkLl lib ops (params.matchType = .acl) s.ll list with
    | none => exact iff_of_true h hnil
    | some res =>
      obtain ⟨placed, ll'⟩ := res
      obtain ⟨xs, hconv, hplaced⟩ := tableRuleAddBulkLl_eq_some hadd
      have hiff := mirrors_bulk_iff h s.rules_distinct s.ll_distinct hs
        (sized_converted hlist hconv)
      rw [hplaced] at hiff
      exact hiff
  · exact iff_of_true h hnil

end Install

/-! ### Runs of calls -/

/-- The rules of a file are sized. -/
theorem sized_bulkList (list : List (SizedMatch × A)) : ∀ r ∈ bulkList list, r.1.Sized := by
  intro r hr
  obtain ⟨x, -, rfl⟩ := List.mem_map.mp hr
  exact x.1.2

/-- A call leaves matches of the size of the source. -/
theorem allSized_call (hs : AllSized s.rules) (c : RuleCall A) :
    AllSized (s.call ops params c).rules := by
  change AllSized (s.call ops params c).stores.1
  cases c with
  | add m action =>
    rw [TableState.call, stores_pipelineTableRuleAdd]
    exact allSized_installStores hs (sized_bulkList [(m, action)])
  | addBulk list =>
    rw [TableState.call, stores_pipelineTableRuleAddBulk]
    exact allSized_installStores hs (sized_bulkList list)
  | delete m =>
    rw [TableState.call, stores_pipelineTableRuleDelete]
    split_ifs
    · cases matchConvert m.1 false with
      | none => exact hs
      | some ml =>
        intro r hr
        change r ∈ deleteRules lib s.rules s.ll m.1 ml at hr
        unfold deleteRules at hr
        split_ifs at hr
        · exact hs r ((mem_tableRuleDelete_iff s.rules_distinct).mp hr).1
        · exact hs r hr
    · exact hs

/-- **A call.** It keeps the mirror exactly when the two stores agree on the rules it names. -/
theorem mirrors_call_iff (hs : AllSized s.rules) (h : Mirrors lib s.rules s.ll)
    (c : RuleCall A) :
    Mirrors lib (s.call ops params c).rules (s.call ops params c).ll ↔
      CallAgrees ops params s c := by
  change Mirrors lib (s.call ops params c).stores.1 (s.call ops params c).stores.2 ↔ _
  cases c with
  | add m action =>
    rw [TableState.call, stores_pipelineTableRuleAdd]
    exact mirrors_installStores_iff h hs (sized_bulkList [(m, action)])
  | addBulk list =>
    rw [TableState.call, stores_pipelineTableRuleAddBulk]
    exact mirrors_installStores_iff h hs (sized_bulkList list)
  | delete m =>
    rw [TableState.call, stores_pipelineTableRuleDelete, CallAgrees]
    by_cases hcheck : matchCheck m.1 params = true
    · simp only [hcheck, true_imp_iff]
      cases hml : matchConvert m.1 false with
      | none => exact iff_of_true h (by simp)
      | some ml =>
        simp only [Option.some.injEq, forall_eq']
        exact mirrors_delete_iff h s.rules_distinct s.ll_distinct m.1 ml
    · rw [if_neg hcheck]
      exact iff_of_true h fun hpass => absurd hpass hcheck

/-- **When the rule list mirrors the table of the library.** Let `calls` be adds, bulk adds and
deletes on a table that was just created. After each of them the rules and the entries correspond
one to one, each rule with the `data` of its entry, exactly when at each of them the two stores
agree on the rules that the call names. -/
theorem always_mirrors_iff (lib : LowLevel κ E D) (ops : ActionOps A E) (params : TableParams)
    (calls : List (RuleCall A)) :
    Always (TableState.call ops params) (fun s => Mirrors lib s.rules s.ll)
        (TableState.empty : TableState lib A) calls ↔
      AllSafe (TableState.call ops params) (CallAgrees ops params)
        (TableState.empty : TableState lib A) calls := by
  have hempty : AllSized ([] : List (TableRule A D)) := by simp [AllSized]
  have hnil : Mirrors lib ([] : List (TableRule A D)) [] := List.Perm.refl []
  exact forall_prefix_iff (fun s c hs => allSized_call hs c)
    (fun s c hs h => mirrors_call_iff hs h c) hempty hnil calls

end Run

/-! ### Two prefixes of one network -/

/-- The match of an ipv4 rule of an LPM table. -/
def lpmMatch (ip depth : ℕ) : TableRuleMatch where
  matchType := .lpm
  mem := ((Mem.zero.set Lpm.ipVersion 1).set Lpm.ipv4 ip).set Lpm.depth depth

/-- The match of the example is sized. -/
theorem sized_lpmMatch (ip depth : ℕ) : (lpmMatch ip depth).Sized := by
  intro a ha
  simp only [lpmMatch]
  have hdepth : Lpm.depth.off + Lpm.depth.len ≤ a := (by decide : _ ≤ matchUnionSize).trans ha
  have hipv4 : Lpm.ipv4.off + Lpm.ipv4.len ≤ a := (by decide : _ ≤ matchUnionSize).trans ha
  have hversion : Lpm.ipVersion.off + Lpm.ipVersion.len ≤ a :=
    (by decide : _ ≤ matchUnionSize).trans ha
  rw [Mem.set_apply_of_not_covered _ _ (.inr hdepth),
    Mem.set_apply_of_not_covered _ _ (.inr hipv4),
    Mem.set_apply_of_not_covered _ _ (.inr hversion)]
  rfl

/-- A table of the library for ipv4 prefixes: an entry stays where it is when it is overwritten,
and a delete of a missing rule is a success. -/
def prefixes : LowLevel (ℕ × ℕ) Unit ℕ :=
  .lpm 4 (fun ll ml _ =>
    match KeyedList.find (fun e => lpmPrefix 4 e.params) ll (lpmPrefix 4 ml) with
    | some e => some e.data
    | none => some ll.length) 0

/-- The rules 10.0.0.0/8 and 10.1.0.0/8. -/
def twoNames : List (RuleCall Unit) :=
  [.add ⟨lpmMatch 0x0a000000 8, sized_lpmMatch _ _⟩ (),
    .add ⟨lpmMatch 0x0a010000 8, sized_lpmMatch _ _⟩ ()]

/-- The table after the two adds. -/
def afterTwoNames : TableState prefixes Unit :=
  twoNames.foldl (TableState.call ⟨fun _ => true, some⟩ (.lpm 4)) .empty

/-- The list keeps two rules, the table of the library one entry. -/
theorem twoNames_not_mirrors :
    (afterTwoNames.rules.map fun r => r.data) = [0, 0] ∧
      (afterTwoNames.ll.map fun e => e.data) = [0] ∧
      ¬ Always (TableState.call ⟨fun _ => true, some⟩ (.lpm 4))
        (fun s => Mirrors prefixes s.rules s.ll) (TableState.empty : TableState prefixes Unit)
        twoNames := by
  have hrules : (afterTwoNames.rules.map fun r => r.data) = [0, 0] := by decide +kernel
  have hll : (afterTwoNames.ll.map fun e => e.data) = [0] := by decide +kernel
  refine ⟨hrules, hll, ?_⟩
  intro h
  have hmirror : Mirrors prefixes afterTwoNames.rules afterTwoNames.ll := h twoNames List.prefix_rfl
  have hlen := hmirror.length_eq
  have hrules' := congrArg List.length hrules
  have hll' := congrArg List.length hll
  rw [List.length_map] at hlen hrules' hll'
  rw [List.length_map, hrules', hll'] at hlen
  exact absurd hlen (by decide)

end Rids.Pipeline
