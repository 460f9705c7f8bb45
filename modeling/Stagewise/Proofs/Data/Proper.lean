import Mathlib.Algebra.Ring.Int.Defs
import Mathlib.Data.String.Basic
import Stagewise.Data.Reader

/-!
# Proper data

Data is a tree, and not every tree is one that a text writes. In a tree that was
read an integer fits into sixty-four bits, with a sign or without one, and the
fields of an object have different keys and are in their order. Such a tree is
*proper* (`Data.Proper`), and what is read is proper (`Data.proper_of_read?`).

A number in proper data is a finite double however it was written
(`Number.isFinite_toFloat`). For an integer this takes an argument, because the
conversion rounds, and a number that is rounded can become infinite. It is by
the size of the exponent: the conversion multiplies and rounds a bounded number
of times, and each of these steps adds a bounded amount to the exponent.
-/

namespace Stagewise

/-!
## Integers as doubles

No bound on the value of a double is used below, only one on its exponent. A
bound on the exponent is kept by every operation that the conversion is made of,
be it coarse: rounding and packing are met with twice the length of the
mantissa, and there are not many of them on the way from an integer of
sixty-four bits to a double. What comes out stays far below 971, where the
doubles end.
-/

namespace Double

open Float.Model Float.Model.UnpackedFloat

/-- **A number with an exponent of at most `b`**, in the form with mantissa and
exponent apart. -/
inductive Below (b : Int) : UnpackedFloat → Prop
  | zero (s : Sign) : Below b (.zero s)
  | finite (s : Sign) (m : Nat) {e : Int} (h : 0 < m) (he : e ≤ b) : Below b (.finite s m e h)

theorem below_mono {b b' : Int} {u : UnpackedFloat} (h : Below b u) (hle : b ≤ b') :
    Below b' u := by
  cases h with
  | zero s => exact .zero s
  | finite s m hm he => exact .finite s m hm (he.trans hle)

/-- The form in which a shift or a conversion hands back a mantissa that may
have become zero. -/
theorem below_dite {e b : Int} (s : Sign) (m : Nat) (he : e ≤ b) :
    Below b (if h : m = 0 then .zero s else .finite s m e (Nat.pos_of_ne_zero h)) := by
  by_cases h : m = 0
  · rw [dif_pos h]
    exact .zero s
  · rw [dif_neg h]
    exact .finite s m _ he

/-- Bits that are shifted out only make the mantissa smaller. -/
theorem mantissa_shiftRight (em : ExtendedMantissa) (k : Nat) :
    (em >>> k).mantissa ≤ em.mantissa := by
  induction k with
  | zero => exact le_rfl
  | succ k ih => exact (Nat.div_le_self _ 2).trans ih

/-- Rounding goes up by one at most. -/
theorem roundedMantissa_le (em : ExtendedMantissa) : em.roundedMantissa ≤ em.mantissa + 1 := by
  obtain ⟨m, round, sticky⟩ := em
  cases round <;> cases sticky <;>
    simp [ExtendedMantissa.roundedMantissa, ExtendedMantissa.accuracy, Accuracy.roundToNearestEven]
  omega

/-- A double has a mantissa of fifty-three bits, and its least exponent is
-1074. -/
theorem targetExponent_eq (e : Int) : Format.binary64.targetExponent e = max (e - 53) (-1074) := rfl

/-- Shifting a mantissa of `k` bits to its exponent makes it no larger, and adds
at most `k` to the exponent. -/
theorem shift_le {m k : Nat} {e b : Int} (a : Accuracy) (hm : m ≤ 2 ^ k) (he : e ≤ b)
    (hb : -1074 ≤ b) :
    (shiftToTargetExponent Format.binary64 m e a).1.mantissa ≤ m ∧
      (shiftToTargetExponent Format.binary64 m e a).2 ≤ b + k := by
  constructor
  · refine (mantissa_shiftRight _ _).trans ?_
    cases a with
    | exact => exact le_rfl
    | inexact o => cases o <;> exact le_rfl
  · have hlog : m.log2 ≤ k := by
      by_cases hm0 : m = 0
      · simp [hm0]
      · exact Nat.lt_succ_iff.mp ((Nat.log2_lt hm0).mpr (by omega))
    simp only [shiftToTargetExponent, shiftToExponent, targetExponent_eq, totalExponent]
    omega

/-- **Rounding adds at most twice the bits of the mantissa to the exponent**:
there is a shift before it and one after it, as rounding up may make the
mantissa longer. -/
theorem below_round {s : Sign} {m k : Nat} {e b : Int} {a : Accuracy} (hm : m < 2 ^ k) (he : e ≤ b)
    (hb : -1074 ≤ b) : Below (b + 2 * k) (roundWithAccuracy Format.binary64 s m e a) := by
  obtain ⟨hm₁, he₁⟩ := shift_le a hm.le he hb
  have hr := (roundedMantissa_le (shiftToTargetExponent Format.binary64 m e a).1).trans
    (Nat.succ_le_succ hm₁)
  have hfinal := (shift_le .exact (hr.trans hm) he₁ (by omega)).2
  exact below_mono (below_dite s _ hfinal) (by omega)

/-- What the bits of a number with a small exponent stand for. -/
theorem below_unpack {b : Int} {bits : BitVec Format.binary64.numBits} (hb : -1074 ≤ b)
    (hexponent : (unpackExponent bits).toNat < 2047)
    (hle : ((unpackExponent bits).toNat : Int) - 1075 ≤ b) :
    Below b (UnpackedFloat.unpack Format.binary64 bits) := by
  have hne : unpackExponent bits ≠ -1#_ := by
    intro h
    rw [h] at hexponent
    exact absurd hexponent (by decide)
  unfold UnpackedFloat.unpack
  rw [if_neg hne]
  by_cases hzero : unpackExponent bits = 0#_
  · rw [if_pos hzero, hzero]
    by_cases hmantissa : unpackMantissa bits = 0#_
    · rw [dif_pos hmantissa]
      exact .zero _
    · rw [dif_neg hmantissa]
      exact .finite _ _ _ hb
  · rw [if_neg hzero]
    exact .finite _ _ _ hle

/-- How a number other than zero is packed. -/
theorem pack_finite (s : Sign) (m : Nat) (e : Int) (h : 0 < m) :
    UnpackedFloat.pack Format.binary64 (.finite s m e h)
      = if 2 ^ 11 ≤ (e + 1023 + 52).toNat + 1 then packedInfinity Format.binary64 s
        else if m.log2 + 1 = 53 then
          packComponents Format.binary64 s (BitVec.ofNat 11 (e + 1023 + 52).toNat)
            (BitVec.ofNat 52 m)
        else packComponents Format.binary64 s 0 (BitVec.ofNat 52 m) := rfl

/-- Doubles hold all exponents up to 971, so a number below one of these
survives being packed. -/
theorem below_unpack_pack {b : Int} {u : UnpackedFloat} (h : Below b u) (hb : -1074 ≤ b)
    (hb' : b ≤ 971) : Below b (Float.Model.pack u).unpack := by
  unfold Float.Model.unpack Float.Model.pack
  cases h with
  | zero s =>
    show Below b (UnpackedFloat.unpack _ (packedZero _ s))
    exact below_unpack hb (by simp [packedZero]) (by simp [packedZero]; omega)
  | @finite s m e hm he =>
    have hbiased : (e + 1023 + 52).toNat < 2047 ∧ ((e + 1023 + 52).toNat : Int) - 1075 ≤ b := by
      omega
    show Below b (UnpackedFloat.unpack _ (UnpackedFloat.pack _ (.finite s m e hm)))
    rw [pack_finite]
    generalize (e + 1023 + 52).toNat = n at hbiased ⊢
    rw [if_neg (by omega)]
    split
    · have hlt : n < 2 ^ 11 := by omega
      refine below_unpack hb ?_ ?_ <;>
        rw [unpackExponent_packComponents, BitVec.toNat_ofNat, Nat.mod_eq_of_lt hlt]
      · exact hbiased.1
      · exact hbiased.2
    · refine below_unpack hb ?_ ?_ <;> rw [unpackExponent_packComponents]
      · decide
      · show ((0 : Nat) : Int) - 1075 ≤ b
        omega

/-- The infinities and what is no number have no exponent, so they are below
nothing. -/
theorem isFinite_of_below {b : Int} {u : UnpackedFloat} (h : Below b u) : u.isFinite = true := by
  cases h <;> rfl

/-- The mantissa of a double has fifty-three bits. -/
theorem mantissa_unpack_lt {bits : BitVec Format.binary64.numBits} {s : Sign} {m : Nat} {e : Int}
    {hm : 0 < m} (h : UnpackedFloat.unpack Format.binary64 bits = .finite s m e hm) :
    m < 2 ^ 53 := by
  unfold UnpackedFloat.unpack at h
  by_cases hspecial : unpackExponent bits = -1#_
  · rw [if_pos hspecial] at h
    by_cases hmantissa : unpackMantissa bits = 0#_
    · rw [if_pos hmantissa] at h
      cases h
    · rw [if_neg hmantissa] at h
      cases h
  rw [if_neg hspecial] at h
  by_cases hzero : unpackExponent bits = 0#_
  · rw [if_pos hzero] at h
    by_cases hmantissa : unpackMantissa bits = 0#_
    · rw [dif_pos hmantissa] at h
      cases h
    · rw [dif_neg hmantissa] at h
      cases h
      exact (BitVec.isLt _).trans (by decide)
  · rw [if_neg hzero] at h
    cases h
    exact BitVec.isLt _

/-- The sign has no part in it. -/
theorem below_neg {b : Int} {x : Float} (h : Below b x.toModel.unpack) (hb : -1074 ≤ b)
    (hb' : b ≤ 971) : Below b x.neg.toModel.unpack := by
  refine below_unpack_pack ?_ hb hb'
  generalize x.toModel.unpack = u at h ⊢
  cases h with
  | zero s => exact .zero _
  | finite s m hm he => exact .finite _ m hm he

/-- A product is a product of the mantissas and a sum of the exponents, which is
rounded. -/
theorem below_mul {s s' : Sign} {m m' k : Nat} {e e' b : Int} {h : 0 < m} {h' : 0 < m'}
    (hm : m * m' < 2 ^ k) (he : e + e' ≤ b) (hb : -1074 ≤ b) :
    Below (b + 2 * k) (UnpackedFloat.mul Format.binary64 (.finite s m e h) (.finite s' m' e' h')) :=
  below_round hm he hb

/-- Multiplication with one is a multiplication, and rounds. -/
theorem below_mul_one {b : Int} {bits : BitVec Format.binary64.numBits}
    (h : Below b (UnpackedFloat.unpack Format.binary64 bits)) (hb : -1000 ≤ b) :
    Below (b + 200) (UnpackedFloat.mul Format.binary64 (UnpackedFloat.unpack Format.binary64 bits)
      (.finite .positive (2 ^ 52) (-52) (by decide))) := by
  generalize hu : UnpackedFloat.unpack Format.binary64 bits = u at h ⊢
  cases h with
  | zero s => exact .zero _
  | @finite s m e hm he =>
    have hlt := mantissa_unpack_lt hu
    have hprod : m * 2 ^ 52 < 2 ^ 105 := by omega
    exact below_mono (below_mul (b := b - 52) hprod (by omega) (by omega)) (by omega)

/-- An integer is shifted and rounded to the length of a mantissa. -/
theorem below_normalize {n : Nat} (h : n < 2 ^ 64) :
    Below 232 (UnpackedFloat.normalize Format.binary64 n 0 .positive) := by
  unfold UnpackedFloat.normalize
  split
  · rename_i hlt
    rw [Int.compare_eq_lt] at hlt
    omega
  · exact .zero _
  · unfold UnpackedFloat.round
    have hshift : ((0 : Int) - Format.binary64.targetExponent
        (totalExponent (n : Int).toNat 0)).toNat ≤ 52 := by
      rw [targetExponent_eq, totalExponent]
      omega
    have hmantissa : (n : Int).toNat <<< ((0 : Int) - Format.binary64.targetExponent
        (totalExponent (n : Int).toNat 0)).toNat < 2 ^ 116 := by
      rw [Nat.shiftLeft_eq, Int.toNat_natCast]
      calc n * 2 ^ _ < 2 ^ 64 * 2 ^ 52 :=
            Nat.mul_lt_mul_of_lt_of_le h (Nat.pow_le_pow_right (by decide) hshift) (by decide)
        _ = 2 ^ 116 := by decide
    refine below_mono (below_round (b := 0) (k := 116) hmantissa ?_ (by decide)) (by decide)
    show (0 : Int) - (_ : Nat) ≤ 0
    omega

/-- A decimal without an exponent, which is multiplied with one after it was
shifted. -/
theorem below_ofScientific {n : Nat} (h : n < 2 ^ 64) :
    Below 232 (UnpackedFloat.ofScientific Format.binary64 n 0) := by
  rw [UnpackedFloat.ofScientific]
  by_cases hzero : n = 0
  · rw [dif_pos hzero]
    exact .zero _
  · rw [dif_neg hzero, if_neg (by decide),
      if_neg (by show ¬(0 : Int) < -(2 ^ 11 + n.log2); omega), if_pos le_rfl]
    refine below_mono (below_mul (b := -53) (k := 117) ?_ ?_ (by decide)) (by decide)
    · rw [Int.toNat_zero, Nat.pow_zero, Nat.mul_one, Nat.shiftLeft_eq]
      show n * 2 ^ 53 < 2 ^ 117
      omega
    · decide

/-- A natural number is read as a decimal without an exponent. -/
theorem below_ofNat {n : Nat} (h : n < 2 ^ 64) : Below 432 (Float.ofNat n).toModel.unpack := by
  show Below 432 (Float.ofScientific n false 0).toModel.unpack
  unfold Float.ofScientific
  -- what a double holds exactly is multiplied with a power of ten, here with one
  split
  · have hnat : n.toUInt64.toNat = n := by
      show n % 2 ^ 64 = n
      exact Nat.mod_eq_of_lt h
    have hfactor : Below 232 n.toUInt64.toFloat.toModel.unpack := by
      refine below_unpack_pack ?_ (by decide) (by decide)
      show Below 232 (UnpackedFloat.normalize Format.binary64 (n.toUInt64.toNat : Int) 0 .positive)
      rw [hnat]
      exact below_normalize h
    have hone : Float.exactlyRepresentablePowersOfTen[0].toModel.unpack
        = .finite .positive (2 ^ 52) (-52) (by decide) := by rfl
    refine below_unpack_pack ?_ (by decide) (by decide)
    show Below 432 (UnpackedFloat.mul _ _ Float.exactlyRepresentablePowersOfTen[0].toModel.unpack)
    rw [hone]
    exact below_mul_one hfactor (by decide)
  · exact below_unpack_pack (below_mono (below_ofScientific h) (by decide)) (by decide) (by decide)

end Double

/-- **An integer of sixty-four bits is a finite double.** -/
theorem Double.isFinite_ofInt {n : Int} (h : n.natAbs < 2 ^ 64) :
    (Float.ofInt n).isFinite = true := by
  unfold Float.ofInt
  split
  · exact isFinite_of_below (below_ofNat h)
  · exact isFinite_of_below (below_neg (below_ofNat h) (by decide) (by decide))

/-!
## Proper trees

The trees that are proper are closed under what the compiler does with data,
which is to look up fields and to go through items. So it is enough to know that
the whole is proper.
-/

/-- **An integer fits into sixty-four bits**, with a sign or without one. -/
def Number.Proper : Number → Prop
  | .int n => -2 ^ 63 ≤ n ∧ n < 2 ^ 64
  | .double _ _ => True

/-- A number in proper data is a finite double. -/
theorem Number.isFinite_toFloat {n : Number} (h : n.Proper) : n.toFloat.isFinite = true := by
  cases n with
  | int n =>
    obtain ⟨hlower, hupper⟩ := h
    exact Double.isFinite_ofInt (by omega)
  | double x finite => exact finite

namespace Data

/-- **A tree that a text may write.** -/
inductive Proper : Data → Prop
  | null : Proper .null
  | bool (b : Bool) : Proper (.bool b)
  | string (s : String) : Proper (.string s)
  | number {n : Number} (h : n.Proper) : Proper (.number n)
  | array {items : List Data} (each : ∀ d ∈ items, Proper d) : Proper (.array items)
  /-- The keys of an object increase, so no key is there twice. -/
  | object {fields : Fields} (ordered : fields.Pairwise fun f g => f.1 < g.1)
    (each : ∀ f ∈ fields, Proper f.2) : Proper (.object fields)

/-- A field of a proper object is proper. -/
theorem Proper.lookup {fields : Fields} (h : (Data.object fields).Proper) {key : String} {d : Data}
    (hd : fields.lookup key = some d) : d.Proper := by
  obtain ⟨front, back, rfl, -⟩ := List.lookup_eq_some_iff.mp hd
  cases h with
  | object ordered each => exact each (key, d) (by simp)

/-- An item of a proper list is proper. -/
theorem Proper.forall_mem {items : List Data} (h : (Data.array items).Proper) :
    ∀ d ∈ items, d.Proper := by
  cases h with
  | array each => exact each

/-- A field comes in, and none that was not there. -/
theorem mem_insertField {key : String} {d : Data} {f : String × Data} {fields : Fields}
    (h : f ∈ insertField key d fields) : f = (key, d) ∨ f ∈ fields := by
  induction fields with
  | nil => exact .inl (List.mem_singleton.mp h)
  | cons g fields ih =>
    obtain ⟨k, e⟩ := g
    rw [insertField] at h
    split at h
    · exact List.mem_cons.mp h
    split at h
    · exact (List.mem_cons.mp h).imp_right (List.mem_cons_of_mem _)
    · obtain rfl | h := List.mem_cons.mp h
      · exact .inr List.mem_cons_self
      · exact (ih h).imp_right (List.mem_cons_of_mem _)

/-- A field is inserted in the order of the keys. -/
theorem pairwise_insertField {key : String} {d : Data} {fields : Fields}
    (h : fields.Pairwise fun f g => f.1 < g.1) :
    (insertField key d fields).Pairwise fun f g => f.1 < g.1 := by
  induction fields with
  | nil => exact List.pairwise_singleton _ _
  | cons g fields ih =>
    obtain ⟨k, e⟩ := g
    obtain ⟨hk, hfields⟩ := List.pairwise_cons.mp h
    rw [insertField]
    split
    · rename_i hlt
      refine List.pairwise_cons.mpr ⟨fun f hf => ?_, h⟩
      obtain rfl | hf := List.mem_cons.mp hf
      · exact hlt
      · exact lt_trans hlt (hk f hf)
    split
    · rename_i heq
      subst heq
      exact List.pairwise_cons.mpr ⟨hk, hfields⟩
    · rename_i hnlt hne
      refine List.pairwise_cons.mpr ⟨fun f hf => ?_, ih hfields⟩
      obtain rfl | hf := mem_insertField hf
      · exact lt_of_le_of_ne (not_lt.mp hnlt) (Ne.symm hne)
      · exact hk f hf

/-- An object of proper fields is proper, whatever order they come in. -/
theorem proper_ofFields {fields : Fields} (h : ∀ f ∈ fields, f.2.Proper) :
    (ofFields fields).Proper := by
  unfold ofFields
  suffices hfold : ∀ sorted : Fields, (object sorted).Proper →
      (object (fields.foldl (fun sorted f => insertField f.1 f.2 sorted) sorted)).Proper from
    hfold [] (.object List.Pairwise.nil (by simp))
  induction fields with
  | nil => exact fun _ hsorted => hsorted
  | cons f fields ih =>
    intro sorted hsorted
    obtain ⟨hf, hfields⟩ := List.forall_mem_cons.mp h
    refine ih hfields _ ?_
    cases hsorted with
    | object ordered each =>
      refine .object (pairwise_insertField ordered) fun g hg => ?_
      obtain rfl | hg := mem_insertField hg
      · exact hf
      · exact each g hg

/-!
## What is read

The reader is a family of mutual functions, one for trees and three for the
inside of lists and objects. Numbers are where a tree could fail to be proper.
Integers that are too long are read as doubles, and a double that overflows is
refused.
-/

namespace Reader

/-- The significand that is gathered fits into sixty-four bits. -/
theorem significand_foldl_whole (digits : List Char) {g : Gathered} (h : g.significand ≤ greatest) :
    (digits.foldl Gathered.whole g).significand ≤ greatest := by
  induction digits generalizing g with
  | nil => exact h
  | cons c digits ih =>
    refine ih ?_
    unfold Gathered.whole
    dsimp only
    split
    · exact h
    · rename_i hfits
      exact not_lt.mp fun hlt => hfits (.inr hlt)

/-- A double that is read was checked to be finite. -/
theorem proper_of_signed {negative : Bool} {x : Float} {n : Number}
    (h : signed negative x = some n) : n.Proper := by
  obtain ⟨finite, h⟩ := Option.dite_none_right_eq_some.mp h
  cases h
  trivial

/-- **A number that is read is proper.** -/
theorem Numeral.proper_of_value {n : Numeral} {negative : Bool} {x : Number}
    (h : n.value negative = some x) : x.Proper := by
  have hlt : (n.whole.foldl Gathered.whole ⟨0, 0, false⟩).significand < 2 ^ 64 :=
    Nat.lt_of_le_pred (by decide) (significand_foldl_whole n.whole (Nat.zero_le _))
  have hdouble {g : Gathered} (h : double g n.exponent >>= signed negative = some x) :
      x.Proper := by
    obtain ⟨y, -, h⟩ := Option.bind_eq_some_iff.mp h
    exact proper_of_signed h
  unfold Numeral.value at h
  dsimp only at h
  split at h
  · split at h
    · cases h
      exact ⟨by omega, by omega⟩
    split at h
    · rename_i hfits
      have hle : (n.whole.foldl Gathered.whole ⟨0, 0, false⟩).significand ≤ 2 ^ 63 := hfits.2
      cases h
      exact ⟨by omega, by omega⟩
    · exact hdouble h
  · exact hdouble h

/-- A numeral is first gathered, and then turned into a number. -/
theorem proper_of_number {negative : Bool} {cs rest : List Char} {n : Number}
    (h : number negative cs = some (n, rest)) : n.Proper := by
  obtain ⟨⟨numeral, after⟩, -, h⟩ := Option.bind_eq_some_iff.mp h
  obtain ⟨x, hx, h⟩ := Option.bind_eq_some_iff.mp h
  cases h
  exact Numeral.proper_of_value hx

mutual

/-- **A tree that is read is proper.** -/
theorem proper_of_tree {bound depth : Nat} {cs rest : List Char} {d : Data}
    (h : tree bound depth cs = some (d, rest)) : d.Proper := by
  cases bound with
  | zero =>
    rw [tree] at h
    cases h
  | succ bound =>
    rw [tree] at h
    split at h
    · obtain ⟨⟨s, after⟩, -, h⟩ := Option.bind_eq_some_iff.mp h
      cases h
      exact .string s
    · split at h
      · cases h
      split at h
      · cases h
        exact .array (by simp)
      · obtain ⟨⟨ds, after⟩, hds, h⟩ := Option.bind_eq_some_iff.mp h
        cases h
        exact .array (proper_of_items hds)
    · split at h
      · cases h
      obtain ⟨⟨fs, after⟩, hfs, h⟩ := Option.bind_eq_some_iff.mp h
      cases h
      exact proper_ofFields (proper_of_fields hfs)
    · cases h
      exact .null
    · cases h
      exact .bool true
    · cases h
      exact .bool false
    all_goals
      obtain ⟨⟨n, after⟩, hn, h⟩ := Option.bind_eq_some_iff.mp h
      cases h
      exact .number (proper_of_number hn)

/-- The items of a list. -/
theorem proper_of_items {bound depth : Nat} {cs rest : List Char} {ds : List Data}
    (h : items bound depth cs = some (ds, rest)) : ∀ d ∈ ds, d.Proper := by
  cases bound with
  | zero =>
    rw [items] at h
    cases h
  | succ bound =>
    rw [items] at h
    obtain ⟨⟨d, after⟩, hd, h⟩ := Option.bind_eq_some_iff.mp h
    dsimp only at h
    split at h
    · obtain ⟨⟨others, last⟩, hothers, h⟩ := Option.bind_eq_some_iff.mp h
      cases h
      exact List.forall_mem_cons.mpr ⟨proper_of_tree hd, proper_of_items hothers⟩
    · cases h
      exact List.forall_mem_singleton.mpr (proper_of_tree hd)
    · cases h

/-- The fields of an object, where there may be none. -/
theorem proper_of_fields {bound depth : Nat} {cs rest : List Char} {fs : Fields}
    (h : fields bound depth cs = some (fs, rest)) : ∀ f ∈ fs, f.2.Proper := by
  cases bound with
  | zero =>
    rw [fields] at h
    cases h
  | succ bound =>
    rw [fields] at h
    split at h
    · cases h
      simp
    · exact proper_of_members h

/-- The fields of an object after the first. -/
theorem proper_of_members {bound depth : Nat} {cs rest : List Char} {fs : Fields}
    (h : members bound depth cs = some (fs, rest)) : ∀ f ∈ fs, f.2.Proper := by
  cases bound with
  | zero =>
    rw [members] at h
    cases h
  | succ bound =>
    rw [members] at h
    split at h
    · obtain ⟨⟨key, after⟩, -, h⟩ := Option.bind_eq_some_iff.mp h
      dsimp only at h
      split at h
      · obtain ⟨⟨d, after⟩, hd, h⟩ := Option.bind_eq_some_iff.mp h
        dsimp only at h
        split at h
        · obtain ⟨⟨others, last⟩, hothers, h⟩ := Option.bind_eq_some_iff.mp h
          cases h
          exact List.forall_mem_cons.mpr ⟨proper_of_tree hd, proper_of_members hothers⟩
        · cases h
          exact List.forall_mem_singleton.mpr (proper_of_tree hd)
        · cases h
      · cases h
    · cases h

end

end Reader

/-- **What a text writes is proper.**

The fields of an object are put in order when they are gathered, with the last
of equal keys kept, so what holds of the keys holds by how they are inserted.
What holds of the numbers holds by the checks that the reader makes. -/
theorem proper_of_read? {s : String} {d : Data} (h : read? s = some d) : d.Proper := by
  obtain ⟨⟨d', rest⟩, hd, h⟩ := Option.bind_eq_some_iff.mp h
  obtain ⟨-, h⟩ := Option.ite_none_right_eq_some.mp h
  cases h
  exact Reader.proper_of_tree hd

end Data

end Stagewise
