/-
Module: OrdDogecoin.Lib.StampedCache
Purpose: A cache with lazy eviction.  Each use of an entry takes a new stamp and joins a queue; to make
  room, the queue is taken from the front, and an entry goes when its stamp is the one in the queue.
  Whatever the stamps are, a value that is found is one that was put and not put again.
Trusted boundary: none
Main exports: StampedCache, StampedCache.value_touch, StampedCache.value_remove
-/
import OrdDogecoin.Lib.KeyTable

/-- A value with the stamp of its last use. -/
structure Stamped (V : Type) where
  stamp : ℕ
  value : V
deriving DecidableEq, Repr

/-- The entries, and the queue of stamps, oldest first. -/
structure StampedCache (K V : Type) where
  hot : KeyTable K (Stamped V)
  lru : List (K × ℕ)

namespace StampedCache

open KeyTable

variable {K V : Type} [DecidableEq K]

def empty : StampedCache K V := { hot := ∅, lru := [] }

def value (cache : StampedCache K V) (key : K) : Option V := (cache.hot.lookup key).map Stamped.value

/-- Take the queue from the front until at most `limit` entries are left. -/
def evictFrom (limit : ℕ) : KeyTable K (Stamped V) → List (K × ℕ) → StampedCache K V
  | hot, [] => { hot := hot, lru := [] }
  | hot, (key, stamp) :: lru =>
      if hot.entries.length ≤ limit then { hot := hot, lru := (key, stamp) :: lru }
      else
        evictFrom limit
          (if (hot.lookup key).any fun entry => entry.stamp = stamp then hot.erase key else hot) lru

def evict (limit : ℕ) (cache : StampedCache K V) : StampedCache K V :=
  evictFrom limit cache.hot cache.lru

/-- Put a value under a new stamp, and make room. -/
def put (limit : ℕ) (key : K) (stamp : ℕ) (value : V) (cache : StampedCache K V) : StampedCache K V :=
  evict limit
    { hot := cache.hot.insert key { stamp := stamp, value := value }
      lru := cache.lru ++ [(key, stamp)] }

/-- Give the entry of a key a new stamp. -/
def touch (key : K) (stamp : ℕ) (cache : StampedCache K V) : StampedCache K V :=
  match cache.hot.lookup key with
  | none => cache
  | some entry =>
      { hot := cache.hot.insert key { entry with stamp := stamp }
        lru := cache.lru ++ [(key, stamp)] }

/-- Forget a key; its stamps stay in the queue. -/
def remove (key : K) (cache : StampedCache K V) : StampedCache K V :=
  { cache with hot := cache.hot.erase key }

@[simp] theorem value_empty (key : K) : (empty : StampedCache K V).value key = none := rfl

theorem lookup_evictFrom (limit : ℕ) {key : K} {entry : Stamped V} :
    ∀ {lru : List (K × ℕ)} {hot : KeyTable K (Stamped V)},
      (evictFrom limit hot lru).hot.lookup key = some entry → hot.lookup key = some entry
  | [], hot, hfound => hfound
  | (other, stamp) :: lru, hot, hfound => by
      unfold evictFrom at hfound
      split at hfound
      · exact hfound
      · have hrest := lookup_evictFrom limit hfound
        split at hrest
        · exact (lookup_erase_cases hrest).2
        · exact hrest

/-- What is found after a put is the value put, or an older one of another key. -/
theorem value_put {limit stamp : ℕ} {key other : K} {value found : V} {cache : StampedCache K V}
    (hfound : (cache.put limit key stamp value).value other = some found) :
    (other = key ∧ found = value) ∨ (other ≠ key ∧ cache.value other = some found) := by
  obtain ⟨entry, hentry, rfl⟩ := Option.map_eq_some_iff.1 hfound
  obtain ⟨rfl, rfl⟩ | ⟨hne, hold⟩ := lookup_insert_cases (lookup_evictFrom limit hentry)
  · exact .inl ⟨rfl, rfl⟩
  · exact .inr ⟨hne, by rw [StampedCache.value, hold, Option.map_some]⟩

/-- A use changes no value. -/
@[simp] theorem value_touch (key other : K) (stamp : ℕ) (cache : StampedCache K V) :
    (cache.touch key stamp).value other = cache.value other := by
  unfold touch
  cases hentry : cache.hot.lookup key with
  | none => rfl
  | some entry =>
      simp only [value, lookup_insert_ite]
      split
      next hsame => rw [hsame, hentry, Option.map_some, Option.map_some]
      next => rfl

theorem value_remove {key other : K} {found : V} {cache : StampedCache K V}
    (hfound : (cache.remove key).value other = some found) :
    other ≠ key ∧ cache.value other = some found := by
  obtain ⟨entry, hentry, rfl⟩ := Option.map_eq_some_iff.1 hfound
  obtain ⟨hne, hold⟩ := lookup_erase_cases hentry
  exact ⟨hne, by rw [value, hold, Option.map_some]⟩

end StampedCache
