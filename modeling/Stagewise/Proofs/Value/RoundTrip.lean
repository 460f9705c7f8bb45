import Stagewise.Proofs.Ty.Grammar
import Stagewise.Value.Tagged

/-!
# Tagged data reads back

What is written as tagged data is read back, types by `Ty.decode` and values by
`Value.decode`, whatever list of types the reader is given for the references in
it. The readers take more than is ever written, a box around a type and a
reference by number, and neither has a tag that anything is written with.

Doubles are the exception. One that is infinite or not a number is written as
null, and null is no number, so a value with such a double in it is refused, at
whatever depth the double is. It is never read as another value
(`tagged_data_reads_back`).
-/

namespace Stagewise

/-- A double is read back as data if it is finite, and as no double at all
otherwise. -/
theorem Data.float?_ofFloat (x : Float) :
    (Data.ofFloat x).float? = if x.isFinite then some x else none := by
  unfold Data.ofFloat
  split <;> rfl

/-- The value that a node holds. -/
theorem Data.lookup_value (tag : String) (d : Data) :
    List.lookup "value" [(tagKey, .string tag), ("value", d)] = some d := rfl

/-!
## Types

What is written follows the rules, and so it is read. The box and the reference
are never needed.
-/

namespace Ty

variable {ids : List Ty}

mutual

/-- **What is written for a type follows the rules.** -/
theorem encodes_encode (t : Ty) : Encodes ids t.encode t := by
  cases t with
  | type | int | float | bool | string | nil => exact .plain rfl (by simp [plainTags])
  | tuple elements => exact .tuple rfl rfl (encodes_encodeAll elements)
  | list element => exact .list rfl rfl (encodes_encode element)
  | fn argument result =>
    exact .fn rfl rfl (encodes_encode argument) rfl (encodes_encode result)
  | struct name => exact .struct rfl rfl

theorem encodes_encodeAll (ts : List Ty) : List.Forall₂ (Encodes ids) (encodeAll ts) ts := by
  cases ts with
  | nil => exact .nil
  | cons t ts => exact .cons (encodes_encode t) (encodes_encodeAll ts)

end

/-- **A type reads back.** -/
theorem decode_encode (t : Ty) : decode ids t.encode = .ok t := decode_of_encodes (encodes_encode t)

end Ty

/-!
## Values

A value is refused for a double only, and a double is refused wherever it is. So
whether a value reads back is told by the list of all doubles in it.
-/

namespace Value

variable {ids : List Ty}

mutual

/-- **The doubles in a value**, in order, at whatever depth. -/
def doubles : Value → List Float
  | .float x => [x]
  | .tuple elements | .list elements => doublesAll elements
  | .int _ | .bool _ | .string _ | .type _ | .nil => []

/-- The doubles in several values. -/
def doublesAll : List Value → List Float
  | [] => []
  | v :: vs => doubles v ++ doublesAll vs

end

/-- What is read of a node that holds a list of values. -/
theorem decode_elements {tag : String} {make : List Value → Value}
    (htag : tag = "Tuple" ∧ make = .tuple ∨ tag = "List" ∧ make = .list) (items : List Data) :
    decode ids (.node tag [("elements", .array items)]) = make <$> decodeAll ids items := by
  rw [decode]
  split
  · rename_i h
    cases h
  · rename_i h
    cases h
    obtain ⟨rfl, rfl⟩ | ⟨rfl, rfl⟩ := htag
    all_goals
      simp only [String.reduceEq, if_false, if_true]
      split
      · rename_i h
        cases h
        rfl
      · rename_i h
        exact absurd rfl (h items)

mutual

/-- **A value reads back** if all doubles in it are finite, and is refused
otherwise.

By recursion on the value. The reader goes through the elements of a tuple or a
list in order and stops at the first that is refused. All are refused with the
same error, so it does not matter which of them it is. -/
theorem decode_encode (v : Value) :
    decode ids v.encode
      = if v.doubles.all Float.isFinite then .ok v else .error (.badField "Float" "value") := by
  cases v with
  | bool | string | nil =>
    rw [decode]
    split
    · rename_i h
      cases h
    · rename_i h
      cases h
      rfl
  | int n =>
    rw [decode]
    split
    · rename_i h
      cases h
    · rename_i h
      cases h
      have hread : (some (Data.ofInt n.toInt) >>= Data.int64?) = some n := Integer.fit_toInt n
      simp only [Data.lookup_value, hread, doubles, List.all_nil, if_true]
  | float x =>
    rw [decode]
    split
    · rename_i h
      cases h
    · rename_i h
      cases h
      have hread : (some (Data.ofFloat x) >>= Data.float?) = _ := Data.float?_ofFloat x
      simp only [Data.lookup_value, hread, String.reduceEq, if_false, if_true, doubles,
        List.all_cons, List.all_nil, Bool.and_true]
      by_cases hfinite : x.isFinite = true
      · simp only [hfinite, if_true]
      · simp only [hfinite, if_false, Bool.false_eq_true]
  | type t =>
    rw [decode]
    split
    · rename_i h
      cases h
    · rename_i h
      cases h
      simp only [Data.lookup_value, Ty.decode_encode, String.reduceEq, if_false, if_true, doubles,
        List.all_nil]
      rfl
  | tuple elements =>
    rw [encode, decode_elements (.inl ⟨rfl, rfl⟩), decodeAll_encodeAll elements, doubles]
    split <;> rfl
  | list elements =>
    rw [encode, decode_elements (.inr ⟨rfl, rfl⟩), decodeAll_encodeAll elements, doubles]
    split <;> rfl

/-- Values are read one after the other, and the first that is refused decides.
All are refused in the same way. -/
theorem decodeAll_encodeAll (vs : List Value) :
    decodeAll ids (encodeAll vs) =
      if (doublesAll vs).all Float.isFinite then .ok vs
      else .error (.badField "Float" "value") := by
  cases vs with
  | nil =>
    unfold decodeAll
    rfl
  | cons v vs =>
    unfold decodeAll
    rw [encodeAll]
    dsimp only
    rw [decode_encode v, decodeAll_encodeAll vs, doublesAll, List.all_append]
    cases v.doubles.all Float.isFinite <;> cases (doublesAll vs).all Float.isFinite <;> rfl

end

end Value

/-- **Tagged data reads back**, with any list of types for references. Every
type does, and a value does if every double in it is finite. Otherwise what is
read is an error about a double, and no value.

What is written for a type follows the rules of the grammar, and the reader
accepts what the rules derive, whatever the references stand for. -/
theorem tagged_data_reads_back (ids : List Ty) :
    (∀ t : Ty, Ty.decode ids t.encode = .ok t) ∧
    ∀ v : Value, Value.decode ids v.encode
      = if v.doubles.all Float.isFinite then .ok v else .error (.badField "Float" "value") :=
  ⟨fun _ => Ty.decode_encode _, fun _ => Value.decode_encode _⟩

end Stagewise
