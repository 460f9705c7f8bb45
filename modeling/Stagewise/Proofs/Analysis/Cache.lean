import Mathlib.Data.List.Basic
import Stagewise.Analysis.State

/-!
# The cache of expansions

Requests are kept in buckets by a hash, and nothing is asked of the hash. Two
requests with the same hash share a bucket, where their texts tell them apart,
and a request is only ever looked for in the bucket that it was put in. So a
cache is a map from texts to answers (`Cache.get?_insert`), in which the first
answer to a text stays.

There is no assumption that hashes differ. A hash that puts all texts into one
bucket makes for a slow cache, and for the same answers. So a claim that two
texts are never confused is one about how texts are compared, and it holds
because the texts themselves are kept in the buckets.
-/

namespace Stagewise.Analysis.Cache

variable {c : Cache} {text : String}

/-- What is found in a list with one more entry. -/
theorem lookup_cons_eq_ite {α γ : Type} [DecidableEq α] (key k : α) (a : γ)
    (entries : List (α × γ)) :
    ((key, a) :: entries).lookup k = if k = key then some a else entries.lookup k := by
  by_cases hk : k = key
  · rw [if_pos hk, hk, List.lookup_cons_self]
  · rw [if_neg hk, List.lookup_cons, beq_eq_false_iff_ne.mpr hk]

/-- The bucket of a hash after something was put into the bucket of some
hash. -/
theorem lookup_put (key k : UInt64) (entry : String × Data) (buckets : List (UInt64 × Bucket)) :
    (put key entry buckets).lookup k
      = if k = key then some ((buckets.lookup key).getD [] ++ [entry]) else buckets.lookup k := by
  induction buckets with
  | nil => exact lookup_cons_eq_ite key k [entry] []
  | cons b rest ih =>
    obtain ⟨j, es⟩ := b
    by_cases hj : j = key
    · subst hj
      rw [put, if_pos rfl, List.lookup_cons_self, lookup_cons_eq_ite, lookup_cons_eq_ite]
      split <;> rfl
    · rw [put, if_neg hj, lookup_cons_eq_ite, lookup_cons_eq_ite, lookup_cons_eq_ite, ih,
        if_neg (Ne.symm hj)]
      by_cases hk : k = j
      · rw [if_pos hk, if_neg (hk ▸ hj), if_pos hk]
      · rw [if_neg hk, if_neg hk]

/-- The bucket of a request after another one was kept. -/
theorem bucket_insert (c : Cache) (text text' : String) (d : Data) :
    (c.insert text d).bucket text'
      = if c.hash text' = c.hash text then c.bucket text ++ [(text, d)] else c.bucket text' := by
  show ((put (c.hash text) (text, d) c.buckets).lookup (c.hash text')).getD [] = _
  rw [lookup_put]
  split <;> rfl

/-- **What is found after an answer was kept**: what was found before, and
otherwise the answer, if the text is the same. -/
theorem get?_insert (c : Cache) (text text' : String) (d : Data) :
    (c.insert text d).get? text' = (c.get? text').or (if text' = text then some d else none) := by
  unfold get?
  rw [bucket_insert]
  by_cases hhash : c.hash text' = c.hash text
  · rw [if_pos hhash, List.lookup_append]
    congr 1
    · rw [bucket, bucket, hhash]
    · exact lookup_cons_eq_ite text text' d []
  · have htext : text' ≠ text := fun h => hhash (congrArg c.hash h)
    rw [if_neg hhash, if_neg htext, Option.or_none]

/-- An answer that was found is found still. -/
theorem get?_insert_of_some {text' : String} {d d' : Data} (h : c.get? text' = some d') :
    (c.insert text d).get? text' = some d' := by
  rw [get?_insert, h, Option.some_or]

/-- **A cache with some answers in it**, which were kept one after the other. -/
def keeping (hash : String → UInt64) (answers : List (String × Data)) : Cache :=
  answers.foldl (fun c answer => c.insert answer.1 answer.2) { hash }

/-- **The first answer that was kept for a text is found**, whatever the
hash. -/
theorem get?_keeping (hash : String → UInt64) (answers : List (String × Data)) (text : String) :
    (keeping hash answers).get? text = answers.lookup text := by
  suffices h : ∀ c : Cache, (answers.foldl (fun c answer => c.insert answer.1 answer.2) c).get? text
      = (c.get? text).or (answers.lookup text) from h { hash }
  -- what is in the cache at the beginning goes before what is kept later
  induction answers with
  | nil => exact fun c => (Option.or_none).symm
  | cons answer answers ih =>
    intro c
    rw [List.foldl_cons, ih, get?_insert, Option.or_assoc]
    obtain ⟨text', d⟩ := answer
    rw [lookup_cons_eq_ite]
    by_cases htext : text = text'
    · rw [if_pos htext, if_pos htext, Option.some_or]
    · rw [if_neg htext, if_neg htext, Option.none_or]

end Stagewise.Analysis.Cache
