import Mathlib.Data.List.Forall2
import Mathlib.Data.Nat.Digits.Defs
import Mathlib.Logic.Basic
import Stagewise.Ty.Tagged

/-!
# The grammar of types

What data stands for a type is said here by rules (`Ty.Encodes`), and not by a
reader: a node is an object whose tag says which rule applies, a rule asks for
the fields that it needs and for nothing of the others, and wherever a rule asks
for a type there may be a box around one or a reference to one of the types that
are known by number. A number is written with decimal digits, any number of
zeros in front of them and a plus sign in front of all.

The reader accepts what the rules derive and gives the type that they derive
(`decodes_exactly`). On all other data it ends in an error.
-/

namespace Stagewise

/-!
## Nodes

A rule asks for a tag and for fields. That the reader finds a tag is said once,
for all rules.
-/

theorem exists_of_map_eq_ok {ε α γ : Type} {f : α → γ} {x : Except ε α} {c : γ}
    (h : f <$> x = .ok c) : ∃ a, x = .ok a ∧ f a = c := by
  cases x with
  | error e => cases h
  | ok a => exact ⟨a, rfl, Except.ok.inj h⟩

namespace Data

/-- **Fields with a tag among them.** -/
def Tagged (tag : String) (fields : Fields) : Prop := fields.lookup tagKey = some (.string tag)

/-- A node is an object with a tag among its fields. -/
theorem tagged_eq_ok_iff {d : Data} {tag : String} {fields : Fields} :
    d.tagged = .ok (tag, fields) ↔ d = .object fields ∧ Tagged tag fields := by
  constructor
  · intro h
    obtain rfl := eq_object_of_tagged h
    refine ⟨rfl, ?_⟩
    unfold tagged at h
    dsimp only at h
    split at h
    · rename_i htag
      cases h
      exact htag
    · cases h
  · rintro ⟨rfl, htag⟩
    unfold tagged Tagged at *
    dsimp only
    rw [htag]

theorem Tagged.tagged_eq {tag : String} {fields : Fields} (h : Tagged tag fields) :
    (object fields).tagged = .ok (tag, fields) := tagged_eq_ok_iff.mpr ⟨rfl, h⟩

end Data

namespace Ty

/-!
## Numbers of types

A reference writes a number as text, and the reader of numbers is more liberal
than what writes them: there may be a plus sign, and zeros. The rules have to
admit the same.
-/

/-- **A text writes a number**: in decimal digits, at least one, perhaps after a
plus sign. -/
def Numeral (id : String) (i : Nat) : Prop :=
  ∃ sign digits : List Char, id.toList = sign ++ digits ∧ (sign = [] ∨ sign = ['+']) ∧
    digits ≠ [] ∧ (∀ c ∈ digits, '0' ≤ c ∧ c ≤ '9') ∧
    i = Nat.ofDigits 10 (digits.reverse.map fun c => c.toNat - '0'.toNat)

/-- Reading digits from the front gives the number they write. -/
theorem foldl_digits (digits : List Char) :
    digits.foldl (fun n c => n * 10 + (c.toNat - 48)) 0
      = Nat.ofDigits 10 (digits.reverse.map fun c => c.toNat - '0'.toNat) := by
  rw [Nat.ofDigits_eq_foldr, List.foldr_map, List.foldr_reverse]
  congr 1
  funext n c
  exact (Nat.add_comm _ _).trans (congrArg _ (Nat.mul_comm _ _))

theorem isDigit_iff {c : Char} : c.isDigit = true ↔ '0' ≤ c ∧ c ≤ '9' := by
  simp [Char.isDigit, Char.le_def]

/-- The digits of a text are what is left of it without a plus sign in front. -/
theorem index?_eq {id : String} {sign digits : List Char} (h : id.toList = sign ++ digits)
    (hsign : sign = [] ∧ digits.head? ≠ some '+' ∨ sign = ['+']) :
    index? id = if digits.isEmpty then none else if digits.all Char.isDigit then
      some (digits.foldl (fun n c => n * 10 + (c.toNat - 48)) 0) else none := by
  unfold index?
  rw [h]
  obtain ⟨rfl, hhead⟩ | rfl := hsign
  · rw [List.nil_append]
    split
    · exact absurd rfl hhead
    · rfl
  · rfl

/-- **A number is read from the texts that write it.** -/
theorem index?_eq_some_iff {id : String} {i : Nat} : index? id = some i ↔ Numeral id i := by
  constructor
  · intro h
    obtain ⟨sign, digits, hid, hsign⟩ : ∃ sign digits, id.toList = sign ++ digits ∧
        (sign = [] ∧ digits.head? ≠ some '+' ∨ sign = ['+']) := by
      by_cases hplus : id.toList.head? = some '+'
      · obtain ⟨digits, hid⟩ := List.head?_eq_some_iff.mp hplus
        exact ⟨['+'], digits, hid, .inr rfl⟩
      · exact ⟨[], id.toList, rfl, .inl ⟨rfl, hplus⟩⟩
    rw [index?_eq hid hsign, Option.ite_none_left_eq_some, Option.ite_none_right_eq_some,
      List.isEmpty_iff, List.all_eq_true, foldl_digits, Option.some.injEq] at h
    obtain ⟨hne, hdigits, hvalue⟩ := h
    exact ⟨sign, digits, hid, hsign.imp_left And.left, hne,
      fun c hc => isDigit_iff.mp (hdigits c hc), hvalue.symm⟩
  · rintro ⟨sign, digits, hid, hsign, hne, hdigits, rfl⟩
    have hhead : digits.head? ≠ some '+' := by
      intro hplus
      exact absurd (hdigits '+' (List.mem_of_mem_head? hplus)) (by decide)
    rw [index?_eq hid (hsign.imp_left fun h => ⟨h, hhead⟩), Option.ite_none_left_eq_some,
      Option.ite_none_right_eq_some, List.isEmpty_iff, List.all_eq_true, foldl_digits]
    exact ⟨hne, fun c hc => isDigit_iff.mpr (hdigits c hc), rfl⟩

/-- A reference stands for the type whose number it writes. -/
theorem ofId?_eq_some_iff {ids : List Ty} {id : String} {t : Ty} :
    ofId? ids id = some t ↔ ∃ i, Numeral id i ∧ ∃ h : i < ids.length, ids[i] = t := by
  simp only [ofId?, bind, Option.bind_eq_some_iff, index?_eq_some_iff, List.getElem?_eq_some_iff]

/-!
## The rules

There is one rule for all types without parts, one for each form with parts, and
the two that have nothing to do with any form: a box and a reference.
-/

/-- The tags of types that have no parts. -/
def plainTags : List (String × Ty) :=
  [("TypeType", .type), ("IntType", .int), ("FloatType", .float), ("BoolType", .bool),
    ("StringType", .string), ("NilType", .nil)]

/-- **Data stands for a type**, with `ids` for the types that are known by
number. -/
inductive Encodes (ids : List Ty) : Data → Ty → Prop where
  | plain {fields : Data.Fields} {tag : String} {t : Ty} (tagged : Data.Tagged tag fields)
    (mem : (tag, t) ∈ plainTags) : Encodes ids (.object fields) t
  | tuple {fields : Data.Fields} {items : List Data} {ts : List Ty}
    (tagged : Data.Tagged "TupleType" fields)
    (elements : fields.lookup "elements" = some (.array items))
    (each : List.Forall₂ (Encodes ids) items ts) : Encodes ids (.object fields) (.tuple ts)
  | list {fields : Data.Fields} {d : Data} {t : Ty} (tagged : Data.Tagged "ListType" fields)
    (element : fields.lookup "element" = some d) (encodes : Encodes ids d t) :
    Encodes ids (.object fields) (.list t)
  | fn {fields : Data.Fields} {a r : Data} {argument result : Ty}
    (tagged : Data.Tagged "FnType" fields) (argumentField : fields.lookup "argument" = some a)
    (encodesArgument : Encodes ids a argument) (returnField : fields.lookup "return" = some r)
    (encodesResult : Encodes ids r result) : Encodes ids (.object fields) (.fn argument result)
  | struct {fields : Data.Fields} {name : String} (tagged : Data.Tagged "StructType" fields)
    (nameField : fields.lookup "name" = some (.string name)) :
    Encodes ids (.object fields) (.struct name)
  /-- A box around a type is no part of it. -/
  | box {fields : Data.Fields} {d : Data} {t : Ty} (tagged : Data.Tagged "Box" fields)
    (value : fields.lookup "value" = some d) (encodes : Encodes ids d t) :
    Encodes ids (.object fields) t
  | reference {fields : Data.Fields} {id : String} {i : Nat}
    (tagged : Data.Tagged "TypeId" fields) (value : fields.lookup "value" = some (.string id))
    (numeral : Numeral id i) (lt : i < ids.length) : Encodes ids (.object fields) ids[i]

variable {ids : List Ty}

/-!
## The reader

That what is read follows the rules is shown by going through the tags as the
reader does. For the other direction there is a lemma for each tag, and they are
put together by recursion on the derivation.
-/

mutual

/-- **What is read follows the rules.** -/
theorem encodes_of_decode {d : Data} {t : Ty} (h : decode ids d = .ok t) : Encodes ids d t := by
  unfold decode at h
  split at h
  · cases h
  rename_i tag fields htagged
  obtain ⟨rfl, tagged⟩ := Data.tagged_eq_ok_iff.mp htagged
  -- the tags are told apart one by one: first those of types without parts
  iterate 6
    obtain ⟨rfl, h⟩ | ⟨-, h⟩ := ite_eq_iff.mp h
    · cases h
      exact .plain tagged (by simp [plainTags])
  obtain ⟨rfl, h⟩ | ⟨-, h⟩ := ite_eq_iff.mp h
  · split at h
    · rename_i items hitems
      have hlt := Data.sizeOf_items_lt htagged hitems
      obtain ⟨ts, hts, rfl⟩ := exists_of_map_eq_ok h
      exact .tuple tagged hitems (encodes_of_decodeAll hts)
    · cases h
  obtain ⟨rfl, h⟩ | ⟨-, h⟩ := ite_eq_iff.mp h
  · split at h
    · rename_i e he
      have hlt := Data.sizeOf_field_lt htagged he
      obtain ⟨t, ht, rfl⟩ := exists_of_map_eq_ok h
      exact .list tagged he (encodes_of_decode ht)
    · cases h
  obtain ⟨rfl, h⟩ | ⟨-, h⟩ := ite_eq_iff.mp h
  · split at h
    · cases h
    rename_i a ha
    split at h
    · cases h
    rename_i argument hargument
    split at h
    · cases h
    rename_i r hr
    have hlt := Data.sizeOf_field_lt htagged ha
    have hlt' := Data.sizeOf_field_lt htagged hr
    obtain ⟨result, hresult, rfl⟩ := exists_of_map_eq_ok h
    exact .fn tagged ha (encodes_of_decode hargument) hr (encodes_of_decode hresult)
  obtain ⟨rfl, h⟩ | ⟨-, h⟩ := ite_eq_iff.mp h
  · split at h
    · rename_i name hname
      cases h
      exact .struct tagged hname
    · cases h
  obtain ⟨rfl, h⟩ | ⟨-, h⟩ := ite_eq_iff.mp h
  · split at h
    · rename_i id hid
      split at h
      · rename_i u hu
        cases h
        obtain ⟨i, numeral, lt, rfl⟩ := ofId?_eq_some_iff.mp hu
        exact .reference tagged hid numeral lt
      · cases h
    · cases h
  obtain ⟨rfl, h⟩ | ⟨-, h⟩ := ite_eq_iff.mp h
  · split at h
    · rename_i e he
      have hlt := Data.sizeOf_field_lt htagged he
      exact .box tagged he (encodes_of_decode h)
    · cases h
  · cases h
termination_by sizeOf d

theorem encodes_of_decodeAll {items : List Data} {ts : List Ty}
    (h : decodeAll ids items = .ok ts) : List.Forall₂ (Encodes ids) items ts := by
  unfold decodeAll at h
  split at h
  · cases h
    exact .nil
  · rename_i d items
    split at h
    · cases h
    rename_i t ht
    obtain ⟨ts, hts, rfl⟩ := exists_of_map_eq_ok h
    exact .cons (encodes_of_decode ht) (encodes_of_decodeAll hts)
termination_by sizeOf items

end

variable {fields : Data.Fields}

/-- What is read of a type without parts. -/
theorem decode_plain {tag : String} {t : Ty} (tagged : Data.Tagged tag fields)
    (mem : (tag, t) ∈ plainTags) : decode ids (.object fields) = .ok t := by
  unfold decode
  split <;> rename_i h <;> rw [tagged.tagged_eq] at h <;> cases h
  simp only [plainTags, List.mem_cons, Prod.mk.injEq, List.not_mem_nil, or_false] at mem
  obtain ⟨rfl, rfl⟩ | ⟨rfl, rfl⟩ | ⟨rfl, rfl⟩ | ⟨rfl, rfl⟩ | ⟨rfl, rfl⟩ | ⟨rfl, rfl⟩ := mem
  all_goals rfl

/-- What is read of a list of types. -/
theorem decode_tuple {items : List Data} (tagged : Data.Tagged "TupleType" fields)
    (elements : fields.lookup "elements" = some (.array items)) :
    decode ids (.object fields) = .tuple <$> decodeAll ids items := by
  unfold decode
  split <;> rename_i h <;> rw [tagged.tagged_eq] at h <;> cases h
  simp only [String.reduceEq, if_false, if_true]
  split <;> rename_i h
  · rw [elements] at h
    cases h
    rfl
  · exact absurd elements (h items)

/-- What is read of one type in another. -/
theorem decode_list {d : Data} (tagged : Data.Tagged "ListType" fields)
    (element : fields.lookup "element" = some d) :
    decode ids (.object fields) = .list <$> decode ids d := by
  rw [decode]
  split <;> rename_i h <;> rw [tagged.tagged_eq] at h <;> cases h
  simp only [String.reduceEq, if_false, if_true]
  split <;> rename_i h <;> rw [element] at h <;> cases h
  rfl

/-- What is read of two. The second is only looked for if the first is read. -/
theorem decode_fn {a r : Data} {argument : Ty} (tagged : Data.Tagged "FnType" fields)
    (argumentField : fields.lookup "argument" = some a)
    (returnField : fields.lookup "return" = some r) (ha : decode ids a = .ok argument) :
    decode ids (.object fields) = .fn argument <$> decode ids r := by
  rw [decode]
  split <;> rename_i h <;> rw [tagged.tagged_eq] at h <;> cases h
  simp only [String.reduceEq, if_false, if_true]
  split <;> rename_i h <;> rw [argumentField] at h <;> cases h
  simp only [ha]
  split <;> rename_i h <;> rw [returnField] at h <;> cases h
  rfl

theorem decode_struct {name : String} (tagged : Data.Tagged "StructType" fields)
    (nameField : fields.lookup "name" = some (.string name)) :
    decode ids (.object fields) = .ok (.struct name) := by
  unfold decode
  split <;> rename_i h <;> rw [tagged.tagged_eq] at h <;> cases h
  simp only [String.reduceEq, if_false, if_true, nameField]

/-- A box is read for what is in it. -/
theorem decode_box {d : Data} (tagged : Data.Tagged "Box" fields)
    (value : fields.lookup "value" = some d) : decode ids (.object fields) = decode ids d := by
  rw [decode]
  split <;> rename_i h <;> rw [tagged.tagged_eq] at h <;> cases h
  simp only [String.reduceEq, if_false, if_true]
  split <;> rename_i h <;> rw [value] at h <;> cases h
  rfl

theorem decode_reference {id : String} {t : Ty} (tagged : Data.Tagged "TypeId" fields)
    (value : fields.lookup "value" = some (.string id)) (hid : ofId? ids id = some t) :
    decode ids (.object fields) = .ok t := by
  unfold decode
  split <;> rename_i h <;> rw [tagged.tagged_eq] at h <;> cases h
  simp only [String.reduceEq, if_false, if_true, value, hid]

mutual

/-- **What follows the rules is read.** -/
theorem decode_of_encodes {d : Data} {t : Ty} (h : Encodes ids d t) : decode ids d = .ok t := by
  cases h with
  | plain tagged mem => exact decode_plain tagged mem
  | tuple tagged elements each =>
    have hlt := Data.sizeOf_lookup_array_lt elements
    rw [decode_tuple tagged elements, decodeAll_of_encodes each]
    rfl
  | list tagged element encodes =>
    have hlt := Data.sizeOf_lookup_lt element
    rw [decode_list tagged element, decode_of_encodes encodes]
    rfl
  | fn tagged argumentField encodesArgument returnField encodesResult =>
    have hlt := Data.sizeOf_lookup_lt argumentField
    have hlt' := Data.sizeOf_lookup_lt returnField
    rw [decode_fn tagged argumentField returnField (decode_of_encodes encodesArgument),
      decode_of_encodes encodesResult]
    rfl
  | struct tagged nameField => exact decode_struct tagged nameField
  | box tagged value encodes =>
    have hlt := Data.sizeOf_lookup_lt value
    rw [decode_box tagged value, decode_of_encodes encodes]
  | reference tagged value numeral lt =>
    exact decode_reference tagged value (ofId?_eq_some_iff.mpr ⟨_, numeral, lt, rfl⟩)
termination_by sizeOf d
decreasing_by all_goals first | exact hlt | exact hlt'

theorem decodeAll_of_encodes {items : List Data} {ts : List Ty}
    (h : List.Forall₂ (Encodes ids) items ts) : decodeAll ids items = .ok ts := by
  cases h with
  | nil =>
    unfold decodeAll
    rfl
  | cons first others =>
    rw [decodeAll, decode_of_encodes first]
    dsimp only
    rw [decodeAll_of_encodes others]
    rfl
termination_by sizeOf items

end

theorem decode_eq_ok_iff {d : Data} {t : Ty} : decode ids d = .ok t ↔ Encodes ids d t :=
  ⟨encodes_of_decode, decode_of_encodes⟩

/-- **The reader of types accepts what the rules derive**, and gives the type
that they derive. It always ends, and where the rules derive nothing it ends in
an error.

The reader is a function on trees that calls itself on parts of the tree only,
and ends for this reason. It tries the tags one by one, and they are those of
the rules. So it reads a node if a rule applies to it and the parts that the
rule asks for are read, and it fails otherwise. -/
theorem decodes_exactly (ids : List Ty) (d : Data) :
    (∀ t, decode ids d = .ok t ↔ Encodes ids d t) ∧
    ((∃ e, decode ids d = .error e) ↔ ¬∃ t, Encodes ids d t) := by
  refine ⟨fun t => decode_eq_ok_iff, ?_⟩
  simp only [← decode_eq_ok_iff]
  cases decode ids d <;> simp

end Ty

end Stagewise
