import Mathlib.Data.Finset.Card
import PluralForms.Cache

/-! A cache keeps exactly the entries that were used last. The uses of its keys since it was cleared
tell which keys it holds: those that were inserted, and after whose last use fewer other keys were
used than the cache has room for. Under each of them is the value that was inserted last. -/

namespace PluralForms.Cache

variable {α ε σ : Type}

/-- The keys of the entries, the one used last in front. -/
def keys (cache : Cache α) : List String := cache.entries.map Prod.fst

/-! ### Calls and uses -/

/-- A call of a cache. -/
inductive Call (α ε σ : Type) where
  | get (key : String)
  | insert (key : String) (value : α)
  | getOrInsert (key : String) (build : Unit → Except ε α × σ)
  | clear

/-- The cache after a call. -/
def after (cache : Cache α) : Call α ε σ → Cache α
  | .get key => (cache.get key).2
  | .insert key value => cache.insert key value
  | .getOrInsert key build => (cache.getOrInsert key build).2.2
  | .clear => cache.clear

/-- A use of a key: it is found by a look-up, or a value is inserted under it. -/
inductive Use (α : Type) where
  | found (key : String)
  | inserted (key : String) (value : α)

namespace Use

def key : Use α → String
  | .found key | .inserted key _ => key

/-- The value that the use inserts under a key. -/
def inserts? (key : String) : Use α → Option α
  | .found _ => none
  | .inserted key' value => if key' = key then some value else none

end Use

/-- What happened to a cache since it was cleared: the uses of keys, the last one in front, and the
number of look-ups. -/
structure History (α : Type) where
  uses : List (Use α) := []
  lookups : Nat := 0

namespace History

def add (history : History α) (use : Use α) : History α :=
  { history with uses := use :: history.uses }

def lookUp (history : History α) : History α := { history with lookups := history.lookups + 1 }

/-- The history after a call of `cache`. -/
def after (history : History α) (cache : Cache α) : Call α ε σ → History α
  | .get key =>
    match (cache.get key).1 with
    | some _ => history.lookUp.add (.found key)
    | none => history.lookUp
  | .insert key value => history.add (.inserted key value)
  | .getOrInsert key build =>
    match (cache.get key).1, (build ()).1 with
    | some _, _ => history.lookUp.add (.found key)
    | none, .ok value => history.lookUp.add (.inserted key value)
    | none, .error _ => history.lookUp
  | .clear => {}

/-- The value that was inserted last under a key. -/
def latest? (history : History α) (key : String) : Option α :=
  history.uses.findSome? (Use.inserts? key)

/-- The keys of the uses after the last use of `key`. -/
def since (history : History α) (key : String) : List String :=
  (history.uses.map Use.key).takeWhile (· != key)

end History

/-- A cache with its history. -/
structure Traced (α : Type) where
  cache : Cache α
  history : History α

namespace Traced

def start (capacity : Nat) : Traced α := ⟨{ capacity }, {}⟩

def after (traced : Traced α) (call : Call α ε σ) : Traced α :=
  ⟨traced.cache.after call, traced.history.after traced.cache call⟩

end Traced

/-! ### The order of the last uses -/

variable {cache : Cache α} {history : History α} {key other : String} {value : α}

/-- The keys of a list, each where it stands first. -/
def firsts : List String → List String
  | [] => []
  | key :: rest => key :: (firsts rest).filter (· != key)

theorem mem_firsts {keys : List String} : key ∈ firsts keys ↔ key ∈ keys := by
  induction keys with
  | nil => rfl
  | cons first rest ih =>
    by_cases h : key = first <;> simp [firsts, ih, h]

theorem nodup_firsts (keys : List String) : (firsts keys).Nodup := by
  induction keys with
  | nil => exact .nil
  | cons first rest ih => exact List.nodup_cons.mpr ⟨by simp, ih.filter _⟩

theorem takeWhile_filter_ne (h : other ≠ key) (keys : List String) :
    (keys.filter (· != other)).takeWhile (· != key) =
      (keys.takeWhile (· != key)).filter (· != other) := by
  induction keys with
  | nil => rfl
  | cons first rest ih =>
    by_cases hother : first = other
    · subst hother
      simpa [h] using ih
    · by_cases hkey : first = key
      · simp [hkey, Ne.symm h]
      · simpa [hother, hkey] using ih

/-- The same keys stand before a key, whether or not they are repeated there. -/
theorem mem_takeWhile_firsts {keys : List String} :
    other ∈ (firsts keys).takeWhile (· != key) ↔ other ∈ keys.takeWhile (· != key) := by
  induction keys with
  | nil => rfl
  | cons first rest ih =>
    by_cases h : first = key
    · simp [firsts, h]
    · rw [firsts, List.takeWhile_cons_of_pos (by simpa using h),
        List.takeWhile_cons_of_pos (by simpa using h), takeWhile_filter_ne h, List.mem_cons,
        List.mem_cons, List.mem_filter, ih, bne_iff_ne]
      exact or_congr_right' fun hne => and_iff_left hne

theorem mem_take_iff {keys : List String} {count : Nat} :
    key ∈ keys.take count ↔ key ∈ keys ∧ (keys.takeWhile (· != key)).length < count := by
  induction keys generalizing count with
  | nil => simp
  | cons first rest ih =>
    cases count with
    | zero => simp
    | succ count =>
      by_cases h : first = key
      · simp [h]
      · simp [h, Ne.symm h, ih]

/-- A key is among the first `count` of those without repetitions if fewer keys stand before it. -/
theorem mem_take_firsts {keys : List String} {count : Nat} :
    key ∈ (firsts keys).take count ↔
      key ∈ keys ∧ (keys.takeWhile (· != key)).toFinset.card < count := by
  have hnodup := (nodup_firsts keys).sublist (List.takeWhile_sublist (· != key))
  have hsame : ((firsts keys).takeWhile (· != key)).toFinset =
      (keys.takeWhile (· != key)).toFinset := by
    ext other
    rw [List.mem_toFinset, List.mem_toFinset, mem_takeWhile_firsts]
  rw [mem_take_iff, mem_firsts, ← List.toFinset_card_of_nodup hnodup, hsame]

/-- It makes no difference to the first ones but a key whether the list is cut before or after that
key is taken out. -/
theorem take_filter_take {keys : List String} (h : keys.Nodup) (count : Nat) :
    ((keys.take (count + 1)).filter (· != key)).take count =
      (keys.filter (· != key)).take count := by
  induction keys generalizing count with
  | nil => rfl
  | cons first rest ih =>
    obtain ⟨hfirst, hrest⟩ := List.nodup_cons.mp h
    by_cases hkey : first = key
    · subst hkey
      have hkept : ∀ keys : List String, first ∉ keys → keys.filter (· != first) = keys := by
        intro keys hmem
        refine List.filter_eq_self.mpr fun other hother => ?_
        rw [bne_iff_ne]
        rintro rfl
        exact hmem hother
      have htake := hkept (rest.take count) fun hmem => hfirst (List.mem_of_mem_take hmem)
      rw [List.take_succ_cons, List.filter_cons_of_neg (by simp),
        List.filter_cons_of_neg (by simp), htake, hkept rest hfirst, List.take_take, Nat.min_self]
    · rw [List.take_succ_cons, List.filter_cons_of_pos (by simpa using hkey),
        List.filter_cons_of_pos (by simpa using hkey)]
      cases count with
      | zero => rfl
      | succ count => rw [List.take_succ_cons, List.take_succ_cons, ih hrest]

/-! ### What a call does -/

theorem mem_of_find? (h : cache.find? key = some value) : (key, value) ∈ cache.entries := by
  obtain ⟨entry, hentry, rfl⟩ := Option.map_eq_some_iff.mp h
  have hkey : entry.1 = key := by simpa using List.find?_some hentry
  rw [← hkey]
  exact List.mem_of_find?_eq_some hentry

theorem find?_eq_none : cache.find? key = none ↔ key ∉ cache.keys := by
  simp only [find?, keys, Option.map_eq_none_iff, List.find?_eq_none, List.mem_map, not_exists,
    not_and, beq_iff_eq]

theorem fst_get (cache : Cache α) (key : String) : (cache.get key).1 = cache.find? key := by
  simp only [get]
  cases cache.find? key <;> rfl

theorem get_of_find?_eq_none (h : cache.find? key = none) :
    cache.get key = (none, { cache with misses := cache.misses + 1 }) := by
  simp only [get, h]

theorem keys_insert (cache : Cache α) (key : String) (value : α) :
    (cache.insert key value).keys =
      (key :: cache.keys.filter (· != key)).take cache.capacity := by
  simp only [keys, insert, others, List.map_take, List.map_cons, List.filter_map]
  rfl

/-- To find a key leaves the same entries as to insert its value once more. -/
theorem get_of_find? (h : cache.find? key = some value) (hsize : cache.size ≤ cache.capacity) :
    cache.get key = (some value, { cache.insert key value with hits := cache.hits + 1 }) := by
  have hlt : (cache.others key).length < cache.entries.length :=
    List.length_filter_lt_length_iff_exists.mpr ⟨_, mem_of_find? h, by simp⟩
  have hall : ((key, value) :: cache.others key).take cache.capacity =
      (key, value) :: cache.others key :=
    List.take_of_length_le (Nat.le_trans hlt hsize)
  simp only [get, h, insert, hall]

theorem getOrInsert_of_find? (h : cache.find? key = some value)
    (build : Unit → Except ε α × σ) :
    cache.getOrInsert key build = (.ok value, none, (cache.get key).2) := by
  simp only [getOrInsert, get, h]

theorem getOrInsert_of_ok (h : cache.find? key = none) {build : Unit → Except ε α × σ} {left : σ}
    (hbuild : build () = (.ok value, left)) :
    cache.getOrInsert key build = (.ok value, some left, (cache.get key).2.insert key value) := by
  simp only [getOrInsert, get_of_find?_eq_none h, hbuild]

/-- A value that cannot be built leaves the cache with one more miss. -/
theorem getOrInsert_of_error (h : cache.find? key = none) {build : Unit → Except ε α × σ}
    {error : ε} {left : σ} (hbuild : build () = (.error error, left)) :
    cache.getOrInsert key build =
      (.error error, some left, { cache with misses := cache.misses + 1 }) := by
  simp only [getOrInsert, get_of_find?_eq_none h, hbuild]

theorem Use.inserts?_of_ne {use : Use α} (h : use.key ≠ key) : use.inserts? key = none := by
  cases use with
  | found => rfl
  | inserted => exact if_neg h

theorem History.latest?_add (history : History α) (use : Use α) (key : String) :
    (history.add use).latest? key = (use.inserts? key).or (history.latest? key) := by
  simp only [latest?, add, List.findSome?_cons]
  cases use.inserts? key <;> rfl

/-! ### The cache against its history -/

/-- The keys of the cache are the first ones in the order of their last uses, as many as it has room
for, each with the value that was inserted last. -/
structure Recalls (cache : Cache α) (history : History α) : Prop where
  keys : cache.keys = (firsts (history.uses.map Use.key)).take cache.capacity
  values : ∀ entry ∈ cache.entries, history.latest? entry.1 = some entry.2
  inserted : ∀ use ∈ history.uses, (history.latest? use.key).isSome = true
  lookups : cache.hits + cache.misses = history.lookups

namespace Recalls

theorem start (capacity : Nat) : Recalls (Traced.start (α := α) capacity).cache {} where
  keys := List.take_nil.symm
  values _ h := by cases h
  inserted _ h := by cases h
  lookups := rfl

theorem size_le (h : Recalls cache history) : cache.size ≤ cache.capacity := by
  have hlength := congrArg List.length h.keys
  rw [Cache.keys, List.length_map, List.length_take] at hlength
  rw [size, hlength]
  exact Nat.min_le_left ..

/-- A look-up is counted, whatever it finds. -/
theorem count (h : Recalls cache history) {hits misses : Nat}
    (hcount : hits + misses = cache.hits + cache.misses + 1) :
    Recalls { cache with hits, misses } history.lookUp where
  keys := h.keys
  values := h.values
  inserted := h.inserted
  lookups := hcount.trans (congrArg (· + 1) h.lookups)

/-- A use brings its key to the front, with the value that was inserted last. -/
theorem use (h : Recalls cache history) {use : Use α}
    (hvalue : (history.add use).latest? use.key = some value) :
    Recalls (cache.insert use.key value) (history.add use) where
  keys := by
    rw [keys_insert, h.keys]
    show _ = (use.key :: (firsts (history.uses.map Use.key)).filter (· != use.key)).take
      cache.capacity
    cases cache.capacity with
    | zero => rfl
    | succ count =>
      rw [List.take_succ_cons, List.take_succ_cons, take_filter_take (nodup_firsts _)]
  values entry hmem := by
    rcases List.mem_cons.mp (List.mem_of_mem_take hmem) with rfl | hmem
    · exact hvalue
    · obtain ⟨hentry, hkey⟩ := List.mem_filter.mp hmem
      have hne : use.key ≠ entry.1 := Ne.symm (by simpa using hkey)
      rw [History.latest?_add, Use.inserts?_of_ne hne]
      exact h.values entry hentry
  inserted use' hmem := by
    rcases List.mem_cons.mp hmem with rfl | hmem
    · rw [hvalue]
      rfl
    · rw [History.latest?_add, Option.isSome_or, h.inserted use' hmem, Bool.or_true]
  lookups := h.lookups

theorem insert (h : Recalls cache history) (key : String) (value : α) :
    Recalls (cache.insert key value) (history.add (.inserted key value)) := by
  have hvalue : (history.add (.inserted key value)).latest? (Use.inserted key value).key =
      some value := by
    rw [History.latest?_add, Use.key, Use.inserts?, if_pos rfl, Option.some_or]
  exact h.use hvalue

theorem found (h : Recalls cache history) (hfind : cache.find? key = some value) :
    Recalls (cache.get key).2 (history.lookUp.add (.found key)) := by
  rw [get_of_find? hfind h.size_le]
  have hvalue : (history.add (.found key)).latest? (Use.found (α := α) key).key = some value :=
    h.values (key, value) (mem_of_find? hfind)
  exact (h.use hvalue).count (by simp only [Cache.insert]; omega)

theorem missed (h : Recalls cache history) (hfind : cache.find? key = none) :
    Recalls (cache.get key).2 history.lookUp := by
  rw [get_of_find?_eq_none hfind]
  exact h.count (Nat.add_assoc ..).symm

/-- Each call of a cache keeps it in accord with its history. -/
theorem after (h : Recalls cache history) (call : Call α ε σ) :
    Recalls (cache.after call) (history.after cache call) := by
  cases call with
  | get key =>
    simp only [Cache.after, History.after, fst_get]
    cases hfind : cache.find? key with
    | some value => exact h.found hfind
    | none => exact h.missed hfind
  | insert key value => exact h.insert key value
  | getOrInsert key build =>
    simp only [Cache.after, History.after, fst_get]
    cases hfind : cache.find? key with
    | some value =>
      rw [getOrInsert_of_find? hfind]
      exact h.found hfind
    | none =>
      cases hbuild : build () with
      | mk answer left =>
        cases answer with
        | ok value =>
          rw [getOrInsert_of_ok hfind hbuild]
          exact (h.missed hfind).insert key value
        | error error =>
          rw [getOrInsert_of_error hfind hbuild]
          exact h.count (Nat.add_assoc ..).symm
  | clear => exact start cache.capacity

/-- The cache has a key that was inserted if fewer other keys were used after it than there is room
for. -/
theorem mem_keys_iff (h : Recalls cache history) :
    key ∈ cache.keys ↔ (∃ value, .inserted key value ∈ history.uses) ∧
      (history.since key).toFinset.card < cache.capacity := by
  rw [h.keys, mem_take_firsts, History.since]
  refine and_congr_left' ⟨fun hmem => ?_, fun ⟨value, hmem⟩ => List.mem_map.mpr ⟨_, hmem, rfl⟩⟩
  obtain ⟨use, huse, rfl⟩ := List.mem_map.mp hmem
  obtain ⟨use', huse', hinserts⟩ := List.findSome?_isSome_iff.mp (h.inserted use huse)
  cases use' with
  | found => cases hinserts
  | inserted key value =>
    by_cases hkey : key = use.key
    · exact ⟨value, hkey ▸ huse'⟩
    · rw [Use.inserts?, if_neg hkey] at hinserts
      cases hinserts

theorem find?_eq_some_iff (h : Recalls cache history) :
    cache.find? key = some value ↔ key ∈ cache.keys ∧ history.latest? key = some value := by
  constructor
  · intro hfind
    have hmem := mem_of_find? hfind
    exact ⟨List.mem_map.mpr ⟨_, hmem, rfl⟩, h.values _ hmem⟩
  · rintro ⟨hmem, hlatest⟩
    cases hfind : cache.find? key with
    | none => exact absurd hmem (find?_eq_none.mp hfind)
    | some value' => rw [← hlatest, h.values _ (mem_of_find? hfind)]

end Recalls

/-! ### Any calls -/

theorem capacity_after (cache : Cache α) (call : Call α ε σ) :
    (cache.after call).capacity = cache.capacity := by
  cases call with
  | get key =>
    simp only [after, get]
    split <;> rfl
  | getOrInsert key build =>
    simp only [after]
    cases hfind : cache.find? key with
    | some value =>
      rw [getOrInsert_of_find? hfind]
      simp only [get, hfind]
    | none =>
      simp only [getOrInsert, get_of_find?_eq_none hfind]
      split <;> rfl
  | insert | clear => rfl

theorem foldl_after {traced : Traced α} (h : Recalls traced.cache traced.history)
    (calls : List (Call α ε σ)) :
    (calls.foldl Traced.after traced).cache.capacity = traced.cache.capacity ∧
      Recalls (calls.foldl Traced.after traced).cache
        (calls.foldl Traced.after traced).history := by
  induction calls generalizing traced with
  | nil => exact ⟨rfl, h⟩
  | cons call calls ih =>
    obtain ⟨hcapacity, hrecalls⟩ := @ih (traced.after call) (h.after call)
    exact ⟨hcapacity.trans (capacity_after traced.cache call), hrecalls⟩

/-- After any calls, a cache has a key if it was inserted since the cache was cleared, and after its
last use fewer other keys were used than there is room for. A look-up that finds a key yields the
value that was inserted last under it. There are never more entries than there is room for, and each
look-up is a hit or a miss. To find a key builds nothing, and to fail to build a value changes
nothing but the number of misses. -/
theorem get_after_calls (capacity : Nat) (calls : List (Call α ε σ)) :
    let traced := calls.foldl Traced.after (.start capacity)
    let cache := traced.cache
    let history := traced.history
    (∀ key, key ∈ cache.keys ↔ (∃ value, .inserted key value ∈ history.uses) ∧
      (history.since key).toFinset.card < capacity) ∧
    (∀ key value, (cache.get key).1 = some value ↔
      key ∈ cache.keys ∧ history.latest? key = some value) ∧
    cache.size ≤ capacity ∧ cache.hits + cache.misses = history.lookups ∧
    ∀ key (build : Unit → Except ε α × σ),
      (∀ value, (cache.get key).1 = some value →
        cache.getOrInsert key build = (.ok value, none, (cache.get key).2)) ∧
      ∀ error left, (cache.get key).1 = none → build () = (.error error, left) →
        cache.getOrInsert key build =
          (.error error, some left, { cache with misses := cache.misses + 1 }) := by
  intro traced cache history
  obtain ⟨hcapacity, h⟩ := foldl_after (.start capacity) calls
  refine ⟨fun key => ?_, fun key value => ?_, ?_, h.lookups, fun key build => ⟨?_, ?_⟩⟩
  · rw [h.mem_keys_iff, hcapacity]
    rfl
  · rw [fst_get]
    exact h.find?_eq_some_iff
  · exact h.size_le.trans_eq hcapacity
  · intro value hget
    exact getOrInsert_of_find? ((fst_get cache key).symm.trans hget) build
  · intro error left hget hbuild
    exact getOrInsert_of_error ((fst_get cache key).symm.trans hget) hbuild

theorem get_after_calls_evicted :
    let calls : List (Call Nat String Unit) :=
      [.insert "a" 1, .insert "b" 2, .get "a", .insert "a" 3, .insert "c" 4]
    let cache := (calls.foldl Traced.after (.start 2)).cache
    let build : Unit → Except String Nat × Unit := fun _ => (.error "refused", ())
    (cache.get "a").1 = some 3 ∧
      cache.getOrInsert "a" build = (.ok 3, none, (cache.get "a").2) ∧
      (cache.get "b").1 = none ∧
      cache.getOrInsert "b" build =
        (.error "refused", some (), { cache with misses := cache.misses + 1 }) := by
  intro calls cache build
  obtain ⟨-, hget, -, -, hbuild⟩ := get_after_calls 2 calls
  have hsome : (cache.get "a").1 = some 3 := (hget "a" 3).mpr (by decide)
  have hnone : (cache.get "b").1 = none := by decide
  exact ⟨hsome, (hbuild "a" build).1 3 hsome, hnone, (hbuild "b" build).2 "refused" () hnone rfl⟩

end PluralForms.Cache
