import Mathlib.Data.List.Forall2
import Stagewise.Proofs.Declaration.Lookup

/-!
# Which names clash

A module is collected if its names are distinct and none of them is that of a
built-in. Otherwise every declaration whose name was taken before it is
reported, and nothing else is. Which those are is said here by positions in the
list of all declarations: a position **repeats** an earlier one if it has the
same name, and nothing has that name further up (`Repeats`). So a position
repeats one other at most, and a name that is declared three times is repeated
twice, both times from where it stood first.
-/

namespace Stagewise.Declarations

variable {m : Source.Module} {ds earlier entries : List Declaration} {d : Declaration} {j k : Nat}

/-!
## Repetitions

Declarations are registered one after the other, each under its name if it is
free. So the register remembers for a name the first declaration that took it,
and an error is recorded with that one. The list of errors is described twice:
as `clashes`, by recursion on the list as the register does it, and by
positions, which is how a reader of the diagnostics would say it.
-/

/-- **A position repeats an earlier one**, which is the first of its name. -/
structure Repeats (entries : List Declaration) (j k : Nat) : Prop where
  lt : j < k
  same : ∃ first second, entries[j]? = some first ∧ entries[k]? = some second ∧
    first.name = second.name ∧ ∀ i < j, ∀ d, entries[i]? = some d → d.name ≠ second.name

/-- **A diagnostic reports a repetition**: it has the name, and where the name
was written, first and again. -/
def Reported (entries : List Declaration) (p : Nat × Nat) (diagnostic : Diagnostic) : Prop :=
  ∃ first second, entries[p.1]? = some first ∧ entries[p.2]? = some second ∧
    diagnostic = .duplicate second.name first.span second.span

/-- A diagnostic for every declaration of a list whose name was taken before it,
by one of `earlier` or further up the list. It points at the first that took
it. -/
def clashes (earlier : List Declaration) : List Declaration → List Diagnostic
  | [] => []
  | d :: ds =>
    match earlier.find? (·.name = d.name) with
    | some first => .duplicate d.name first.span d.span :: clashes (earlier ++ [d]) ds
    | none => clashes (earlier ++ [d]) ds

/-- **The errors of a register are the clashes** of what is read. -/
theorem errors_foldl_read {r : Register} (h : r.Holds earlier) :
    ((ds.zipIdx earlier.length).foldl (Register.read (earlier ++ ds)) r).errors
      = r.errors ++ clashes earlier ds := by
  induction ds generalizing earlier r with
  | nil => simp [clashes]
  | cons d ds ih =>
    have hnext := ih (h.read (earlier ++ d :: ds) d)
    rw [List.length_append, List.length_singleton, List.append_assoc,
      List.singleton_append] at hnext
    rw [List.zipIdx_cons, List.foldl_cons, hnext, clashes, List.find?_eq_bind_findIdx?_getElem?,
      ← h.positions]
    unfold Register.read
    dsimp only
    cases hd : r.positions.lookup d.name with
    | none => rfl
    | some i =>
      -- the first that took the name is among those that were read
      rw [h.positions] at hd
      have hlt : i < earlier.length := (List.findIdx?_eq_some_iff_getElem.mp hd).1
      dsimp only
      rw [List.getElem?_append_left hlt, Option.bind_some, List.getElem?_eq_getElem hlt]
      dsimp only
      rw [Option.elim_some, List.append_assoc, List.singleton_append]

/-- The register of a list starts out empty. -/
theorem errors_of (entries : List Declaration) :
    (Register.of entries).errors = clashes [] entries :=
  errors_foldl_read Register.holds_nil

/-- The position after some declarations repeats the first of these that has the
name. -/
theorem repeats_length_iff :
    Repeats (earlier ++ d :: ds) j earlier.length
      ↔ earlier.findIdx? (·.name = d.name) = some j := by
  have hd : (earlier ++ d :: ds)[earlier.length]? = some d := by simp
  have hearlier {i : Nat} (hi : i < earlier.length) :
      (earlier ++ d :: ds)[i]? = some (earlier.get ⟨i, hi⟩) := by
    rw [List.getElem?_append_left hi, List.getElem?_eq_getElem hi]
    rfl
  rw [List.findIdx?_eq_some_iff_getElem]
  constructor
  · rintro ⟨hlt, first, second, hfirst, hsecond, hname, hno⟩
    obtain rfl := Option.some.inj (hd.symm.trans hsecond)
    obtain rfl := Option.some.inj ((hearlier hlt).symm.trans hfirst)
    refine ⟨hlt, decide_eq_true hname, fun i hi => ?_⟩
    have hne := hno i hi _ (hearlier (Nat.lt_trans hi hlt))
    simpa using hne
  · rintro ⟨hlt, hname, hno⟩
    refine ⟨hlt, _, d, hearlier hlt, hd, of_decide_eq_true hname, fun i hi e he => ?_⟩
    obtain rfl := Option.some.inj ((hearlier (Nat.lt_trans hi hlt)).symm.trans he)
    simpa using hno i hi

/-- **The repetitions from some position on are reported one by one**, in
order. -/
theorem exists_reports (earlier ds : List Declaration) :
    ∃ ps : List (Nat × Nat), List.Forall₂ (Reported (earlier ++ ds)) ps (clashes earlier ds) ∧
      (ps.map Prod.snd).Pairwise (· < ·) ∧
      ∀ j k, (j, k) ∈ ps ↔ earlier.length ≤ k ∧ Repeats (earlier ++ ds) j k := by
  induction ds generalizing earlier with
  | nil =>
    refine ⟨[], .nil, .nil, fun j k => iff_of_false List.not_mem_nil ?_⟩
    rintro ⟨hle, -, first, second, -, hsecond, -⟩
    rw [List.append_nil, List.getElem?_eq_none hle] at hsecond
    cases hsecond
  | cons d ds ih =>
    obtain ⟨ps, hreports, hsorted, hmem⟩ := ih (earlier ++ [d])
    rw [List.append_assoc, List.singleton_append] at hreports hmem
    rw [List.length_append, List.length_singleton] at hmem
    -- the declaration at hand stands where `earlier` ends
    have hsplit (k : Nat) : earlier.length ≤ k ↔ k = earlier.length ∨ earlier.length + 1 ≤ k := by
      omega
    unfold clashes
    rw [List.find?_eq_bind_findIdx?_getElem?]
    cases hidx : earlier.findIdx? (·.name = d.name) with
    | none =>
      refine ⟨ps, hreports, hsorted, fun j k => ?_⟩
      rw [hmem, hsplit]
      refine ⟨fun h => ⟨.inr h.1, h.2⟩, ?_⟩
      rintro ⟨rfl | hle, hrepeats⟩
      · rw [repeats_length_iff, hidx] at hrepeats
        cases hrepeats
      · exact ⟨hle, hrepeats⟩
    | some i =>
      have hlt : i < earlier.length := (List.findIdx?_eq_some_iff_getElem.mp hidx).1
      rw [Option.bind_some, List.getElem?_eq_getElem hlt]
      refine ⟨(i, earlier.length) :: ps, .cons ?_ hreports, ?_, fun j k => ?_⟩
      · refine ⟨_, d, ?_, by simp, rfl⟩
        rw [List.getElem?_append_left hlt, List.getElem?_eq_getElem hlt]
      · refine List.pairwise_cons.mpr ⟨fun k hk => ?_, hsorted⟩
        obtain ⟨⟨j, k⟩, hp, rfl⟩ := List.mem_map.mp hk
        exact ((hmem j k).mp hp).1
      · rw [List.mem_cons, hmem, hsplit, Prod.mk.injEq]
        constructor
        · rintro (⟨rfl, rfl⟩ | ⟨hle, hrepeats⟩)
          · exact ⟨.inl rfl, repeats_length_iff.mpr hidx⟩
          · exact ⟨.inr hle, hrepeats⟩
        · rintro ⟨rfl | hle, hrepeats⟩
          · rw [repeats_length_iff, hidx] at hrepeats
            exact .inl ⟨(Option.some.inj hrepeats).symm, rfl⟩
          · exact .inr ⟨hle, hrepeats⟩

/-!
## Collecting

The built-ins come first, with distinct names. So whatever repeats a name is an
item of the module, while what it repeats may be a built-in.
-/

/-- No built-in has the name of another. -/
theorem nodup_builtins : (Builtin.all.map Builtin.name).Nodup := by decide

/-- **All names are distinct** if those of the module are, and no built-in has
one of them. -/
theorem nodup_names_iff :
    ((entriesOf m).map Declaration.name).Nodup ↔
      (m.map (·.name.text)).Nodup ∧ ∀ item ∈ m, ∀ b ∈ Builtin.all, item.name.text ≠ b.name := by
  have hnames : (entriesOf m).map Declaration.name
      = Builtin.all.map Builtin.name ++ m.map (·.name.text) := by
    simp [entriesOf, Declaration.name, Function.comp_def]
  rw [hnames, List.nodup_append]
  constructor
  · rintro ⟨-, hitems, hdisjoint⟩
    refine ⟨hitems, fun item hitem b hb heq => ?_⟩
    exact hdisjoint _ (List.mem_map_of_mem hb) _ (List.mem_map_of_mem hitem) heq.symm
  · rintro ⟨hitems, hdisjoint⟩
    refine ⟨nodup_builtins, hitems, fun x hx y hy heq => ?_⟩
    obtain ⟨b, hb, rfl⟩ := List.mem_map.mp hx
    obtain ⟨item, hitem, rfl⟩ := List.mem_map.mp hy
    exact hdisjoint item hitem b hb heq.symm

/-- A built-in repeats nothing. -/
theorem Repeats.le (h : Repeats (entriesOf m) j k) : Builtin.all.length ≤ k := by
  by_contra hlt
  rw [Nat.not_le] at hlt
  obtain ⟨hjk, first, second, hfirst, hsecond, hname, -⟩ := h
  have hbuiltin {i : Nat} (hi : i < Builtin.all.length) {e : Declaration}
      (he : (entriesOf m)[i]? = some e) :
      (Builtin.all.map Builtin.name)[i]? = some e.name := by
    rw [entriesOf, List.getElem?_append_left (by rwa [List.length_map]), List.getElem?_map] at he
    obtain ⟨b, hb, rfl⟩ := Option.map_eq_some_iff.mp he
    rw [List.getElem?_map, hb]
    rfl
  have hj := hbuiltin (Nat.lt_trans hjk hlt) hfirst
  have hk := hbuiltin hlt hsecond
  have hbound : j < (Builtin.all.map Builtin.name).length := by
    rw [List.length_map]
    exact Nat.lt_trans hjk hlt
  exact Nat.ne_of_lt hjk
    ((List.getElem?_inj hbound nodup_builtins).mp (hj.trans (hname ▸ hk.symm)))

/-- **Collecting finds exactly the clashes.** A module is collected if its names
are distinct and none is that of a built-in. Then the built-ins and the module
have the positions in one list, and the position of a name and the name at a
position are inverse to each other. Otherwise there is one diagnostic for every
item whose name stands further up, in order, with where the name was written
first and where it is written again.

The register has recorded no error exactly if all names are distinct, as every
repetition is recorded where it is met. That the positions of names are right is
then a matter of the index, which is built from the same list. That the errors
are the repetitions, each once and in order, goes by recursion on the list: the
next declaration either has a name that stands further up, and is the next
error, or it is free, and later ones may repeat it. -/
theorem collects_exactly (m : Source.Module) :
    ((∃ ds, collect m = .ok ds) ↔
      (m.map (·.name.text)).Nodup ∧ ∀ item ∈ m, ∀ b ∈ Builtin.all, item.name.text ≠ b.name) ∧
    (∀ ds, collect m = .ok ds →
      (∀ i, ds.get? i = (Builtin.all.map Declaration.builtin ++ m.map Declaration.source)[i]?) ∧
      (∀ i d, ds.get? i = some d → ds.index? d.name = some i) ∧
      ∀ x i, ds.index? x = some i → ∃ d, ds.get? i = some d ∧ d.name = x) ∧
    ∀ errors, collect m = .error errors →
      ∃ ps : List (Nat × Nat), List.Forall₂ (Reported (entriesOf m)) ps errors ∧
        (ps.map Prod.snd).Pairwise (· < ·) ∧
        ∀ j k, (j, k) ∈ ps ↔ Builtin.all.length ≤ k ∧ Repeats (entriesOf m) j k := by
  refine ⟨?_, fun ds hds => ?_, fun errors herrors => ?_⟩
  · rw [← nodup_names_iff, ← Register.isEmpty_errors_iff, collect]
    split
    · exact iff_of_true ⟨_, rfl⟩ ‹_›
    · rename_i hclash
      refine iff_of_false ?_ hclash
      rintro ⟨ds, hds⟩
      cases hds
  · refine ⟨fun i => ?_, fun i d hd => ?_, fun x i hx => ?_⟩
    · rw [get?, entries_eq_of_collect_eq_ok hds, entriesOf]
    · exact index?_eq_some_iff.mpr (getElem?_names hd)
    · have hname := index?_eq_some_iff.mp hx
      rw [names, List.getElem?_map] at hname
      exact Option.map_eq_some_iff.mp hname
  · unfold collect at herrors
    split at herrors
    · cases herrors
    · obtain rfl := Except.error.inj herrors
      obtain ⟨ps, hreports, hsorted, hmem⟩ := exists_reports [] (entriesOf m)
      rw [errors_of]
      refine ⟨ps, hreports, hsorted, fun j k => ?_⟩
      rw [hmem, List.nil_append, List.length_nil]
      exact ⟨fun h => ⟨h.2.le, h.2⟩, fun h => ⟨Nat.zero_le k, h.2⟩⟩

end Stagewise.Declarations
