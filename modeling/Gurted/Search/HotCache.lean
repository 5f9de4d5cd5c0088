import Mathlib.Logic.Function.Basic
import Gurted.Query.Parse

/-!
# The hot query cache (`gurtd/src/search/mod.rs`)
-/

namespace Gurted.Search

open Gurted Gurted.Query

variable {S : Type*}

structure SearchResultItem (S : Type*) where
  title : Str
  url : Str
  score : S

structure SearchResponse (S : Type*) where
  query : Str
  total : Nat
  page : Nat
  size : Nat
  results : List (SearchResultItem S)

/-- The separator of `normalize_key`, U+001F. -/
def keySeparator : Str := [Char.ofNat 0x1F]

/-- `normalize_key`. -/
def normalizeKey (pq : ParsedQuery) : Str :=
  Str.join keySeparator
    (pq.terms.map Str.toAsciiLowercase
      ++ (pq.filters.site.map fun site => "site=".toList ++ site.toAsciiLowercase).toList
      ++ (pq.filters.filetype.map fun ft => "filetype=".toList ++ ft.toAsciiLowercase).toList)

structure CacheEntry (S : Type*) where
  inserted : Nat
  response : SearchResponse S

/-- Instants and the time to live are in nanoseconds. -/
structure HotQueryCache (S : Type*) where
  ttl : Nat
  map : Str → Option (CacheEntry S)

/-- `HotQueryCache::new`. -/
def HotQueryCache.new (ttl : Nat) : HotQueryCache S := ⟨ttl, fun _ => none⟩

/-- `get` at an instant: an entry that is too old is removed. -/
def HotQueryCache.get (cache : HotQueryCache S) (key : Str) (now : Nat) :
    Option (SearchResponse S) × HotQueryCache S :=
  match cache.map key with
  | some entry =>
      if now - entry.inserted ≤ cache.ttl then (some entry.response, cache)
      else (none, { cache with map := Function.update cache.map key none })
  | none => (none, { cache with map := Function.update cache.map key none })

/-- `put` at an instant. -/
def HotQueryCache.put (cache : HotQueryCache S) (key : Str) (resp : SearchResponse S)
    (now : Nat) : HotQueryCache S :=
  { cache with map := Function.update cache.map key (some ⟨now, resp⟩) }

theorem HotQueryCache.get_of_some {cache : HotQueryCache S} {key : Str} {entry : CacheEntry S}
    {now : Nat} (h : cache.map key = some entry) (hfresh : now - entry.inserted ≤ cache.ttl) :
    cache.get key now = (some entry.response, cache) := by
  rw [get, h]
  exact if_pos hfresh

theorem HotQueryCache.get_of_none {cache : HotQueryCache S} {key : Str}
    (h : cache.map key = none) (now : Nat) : cache.get key now = (none, cache) := by
  have hsame : Function.update cache.map key none = cache.map := by
    rw [Function.update_eq_self_iff, h]
  rw [get, h]
  exact congrArg (fun m => (none, { cache with map := m })) hsame

/-- A look-up answers with an entry that is young enough, or leaves no entry that was not
there. -/
theorem HotQueryCache.get_cases (cache : HotQueryCache S) (key : Str) (now : Nat) :
    (∃ entry, cache.map key = some entry ∧ now - entry.inserted ≤ cache.ttl ∧
      cache.get key now = (some entry.response, cache)) ∨
    ∃ cache', cache.get key now = (none, cache') ∧ cache'.ttl = cache.ttl ∧
      ∀ k entry, cache'.map k = some entry → cache.map k = some entry := by
  have hremoved : ∀ k entry, Function.update cache.map key none k = some entry →
      cache.map k = some entry := by
    intro k entry hentry
    by_cases hkey : k = key
    · rw [hkey, Function.update_self] at hentry
      cases hentry
    · rwa [Function.update_of_ne hkey] at hentry
  rw [get]
  cases hentry : cache.map key with
  | none => exact .inr ⟨_, rfl, rfl, hremoved⟩
  | some entry =>
    by_cases hyoung : now - entry.inserted ≤ cache.ttl
    · exact .inl ⟨entry, rfl, hyoung, if_pos hyoung⟩
    · exact .inr ⟨_, if_neg hyoung, rfl, hremoved⟩

theorem HotQueryCache.map_put {cache : HotQueryCache S} {key k : Str} {resp : SearchResponse S}
    {now : Nat} {entry : CacheEntry S} (h : (cache.put key resp now).map k = some entry) :
    (k = key ∧ entry = ⟨now, resp⟩) ∨ cache.map k = some entry := by
  rw [put] at h
  by_cases hkey : k = key
  · simp only [hkey, Function.update_self, Option.some.injEq] at h
    exact .inl ⟨hkey, h.symm⟩
  · simp only [Function.update_of_ne hkey] at h
    exact .inr h

end Gurted.Search
