import PluralForms.Config

/-! A cache that keeps the entries that were used last. Finding an entry and inserting one count as
uses; an insertion into a full cache drops the entry whose last use is the longest ago. -/

namespace PluralForms

/-- At most `capacity` entries with their keys, the one used last in front, and the numbers of
look-ups that found an entry and that did not. They have no bound here; counters of 64 bits hold the
same numbers for fewer than `2 ^ 64` look-ups. -/
structure Cache (α : Type) where
  capacity : Nat
  entries : List (String × α) := []
  hits : Nat := 0
  misses : Nat := 0

namespace Cache

variable {α : Type}

def find? (cache : Cache α) (key : String) : Option α :=
  (cache.entries.find? fun entry => entry.1 == key).map Prod.snd

/-- The entries with other keys. -/
def others (cache : Cache α) (key : String) : List (String × α) :=
  cache.entries.filter fun entry => entry.1 != key

/-- Looks up a key, and counts whether it was found. -/
def get (cache : Cache α) (key : String) : Option α × Cache α :=
  match cache.find? key with
  | some value =>
    (some value,
      { cache with entries := (key, value) :: cache.others key, hits := cache.hits + 1 })
  | none => (none, { cache with misses := cache.misses + 1 })

/-- Enters a value under a key, in place of one that is there. -/
def insert (cache : Cache α) (key : String) (value : α) : Cache α :=
  { cache with entries := ((key, value) :: cache.others key).take cache.capacity }

/-- The value under a key, or one that is built and entered if there is none. A value that cannot be
built is not entered. What is left from building comes with the value, if it was built. -/
def getOrInsert {ε σ : Type} (cache : Cache α) (key : String) (build : Unit → Except ε α × σ) :
    Except ε α × Option σ × Cache α :=
  match cache.get key with
  | (some value, cache) => (.ok value, none, cache)
  | (none, cache) =>
    match build () with
    | (.ok value, left) => (.ok value, some left, cache.insert key value)
    | (.error error, left) => (.error error, some left, cache)

def clear (cache : Cache α) : Cache α := { cache with entries := [], hits := 0, misses := 0 }

def size (cache : Cache α) : Nat := cache.entries.length

/-- The share of look-ups that found an entry, in percent. -/
def hitRate (cache : Cache α) : Float :=
  let total := cache.hits + cache.misses
  if total = 0 then 0 else cache.hits.toFloat / total.toFloat * 100

/-- The number of entries that a cache holds unless another is set. -/
def defaultCapacity : Nat := 256

/-- An empty cache, with the capacity that the environment asks for. -/
def ofEnvironment (environment : Environment) : Cache α where
  capacity :=
    (((environment "PLURALIS_FORMULA_CACHE_SIZE").bind fun value =>
      Text.unsigned64? value.toList).filter (0 < ·)).getD defaultCapacity

def debug (cache : Cache α) : String :=
  s!"FormulaCache \x7b len: {cache.size}, capacity: {cache.capacity}, " ++
    s!"stats: FormulaCacheStats \x7b hits: {cache.hits}, misses: {cache.misses} \x7d \x7d"

end Cache

end PluralForms
