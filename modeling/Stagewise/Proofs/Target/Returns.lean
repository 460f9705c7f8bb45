import Mathlib.Data.List.Basic
import Stagewise.Proofs.Term.Typing
import Stagewise.Target.Lower
import Stagewise.Target.Printer

/-!
# Where lowered blocks return

The value of a block is that of its last statement, and if that is a branch, of
the last statement of the arm that is taken. So a block has one **result** for
every arm that it may end in, an expression or nothing at all
(`Term.Block.results`), and it is the sink that decides whether results are
returned.

The text of a lowered body is a sequence of **lines**, each at some level of
indentation (`Stmt.texts_eq_written`). Control goes through them from the first
to the last, and where a line tests a condition it takes one of the two arms,
which are indented by one level more (`Walk`). In a lowered body that returns
its value every walk ends in a return and has no other, and the lines that
return are those of the results, one for each and in order. In a lowered body
that discards its value there are none. Bodies of lambdas are not counted, these
being bodies of their own (`lowered_returns_once`).

The results of a well typed block have the type of the block. Where there is no
expression the type is that of the empty tuple, which is what is returned there,
and what returns without a value has the type of what has none.
-/

namespace Stagewise

namespace Target

/-!
## Lines

There are eight kinds of lines, and of these two return. That a line is the one
or the other is known from how it was written, so what is said about lines is
said about the text.
-/

/-- **A line of a body**, by what it does. -/
inductive Line where
  | define (ty : Ty) (x : String) (init : Expr)
  | assign (target : String) (op : AssignOp) (e : Expr)
  | eval (e : Expr)
  /-- A return with a value. -/
  | give (e : Expr)
  /-- A return without one. -/
  | leave
  /-- A branch begins, and its first arm. -/
  | test (condition : Expr)
  /-- The second arm begins. -/
  | otherwise
  /-- A branch ends. -/
  | close

namespace Line

/-- What is written on a line. -/
def text : Line → String
  | define ty x init => ty.spelling ++ " " ++ x ++ " = " ++ init.text ++ ";"
  | assign target op e => target ++ " " ++ op.text ++ " " ++ e.text ++ ";"
  | eval e => e.text ++ ";"
  | give e => "return " ++ e.text ++ ";"
  | leave => "return;"
  | test condition => "if (" ++ condition.text ++ ") \x7b"
  | otherwise => "\x7d else \x7b"
  | close => "\x7d"

/-- Whether a line is a return. -/
def isReturn : Line → Bool
  | give _ | leave => true
  | _ => false

/-- Whether a line is a statement by itself, and does not belong to a branch. -/
def isSimple : Line → Bool
  | test _ | otherwise | close => false
  | _ => true

end Line

/-- **Lines, each at a level of indentation, as text.** -/
def written (lines : List (Nat × Line)) : String :=
  String.join (lines.map fun l => line l.1 l.2.text)

/-- **The lines that return**, in order. -/
def returnLines (lines : List (Nat × Line)) : List Line :=
  (lines.map (·.2)).filter Line.isReturn

mutual

/-- **The lines of a statement.** -/
def Stmt.lines (level : Nat) : Stmt → List (Nat × Line)
  | .define ty x init => [(level, .define ty x init)]
  | .assign target op e => [(level, .assign target op e)]
  | .eval e => [(level, .eval e)]
  | .give e => [(level, .give e)]
  | .leave => [(level, .leave)]
  | .branch condition yes no =>
    (level, .test condition) :: (Stmt.linesAll (level + 1) yes
      ++ (level, .otherwise) :: (Stmt.linesAll (level + 1) no ++ [(level, .close)]))

/-- The lines of several statements. -/
def Stmt.linesAll (level : Nat) : List Stmt → List (Nat × Line)
  | [] => []
  | s :: ss => s.lines level ++ Stmt.linesAll level ss

end

theorem written_cons (l : Nat × Line) (lines : List (Nat × Line)) :
    written (l :: lines) = line l.1 l.2.text ++ written lines := String.join_cons

theorem written_append (lines lines' : List (Nat × Line)) :
    written (lines ++ lines') = written lines ++ written lines' := by
  rw [written, List.map_append, String.join_append, written, written]

theorem returnLines_append (lines lines' : List (Nat × Line)) :
    returnLines (lines ++ lines') = returnLines lines ++ returnLines lines' := by
  rw [returnLines, List.map_append, List.filter_append, returnLines, returnLines]

theorem Stmt.linesAll_append (level : Nat) (ss ss' : List Stmt) :
    Stmt.linesAll level (ss ++ ss') = Stmt.linesAll level ss ++ Stmt.linesAll level ss' := by
  induction ss with
  | nil => rfl
  | cons s ss ih => rw [List.cons_append, linesAll, linesAll, ih, List.append_assoc]

mutual

/-- **The text of a statement is made up of its lines.** -/
theorem Stmt.text_eq_written (level : Nat) (s : Stmt) : s.text level = written (s.lines level) := by
  cases s with
  | define | assign | eval | give | leave =>
    rw [Stmt.lines, written_cons]
    exact String.append_empty.symm
  | branch condition yes no =>
    rw [Stmt.lines, written_cons, written_append, written_cons, written_append, written_cons,
      ← Stmt.texts_eq_written (level + 1) yes, ← Stmt.texts_eq_written (level + 1) no, Stmt.text]
    simp only [String.append_assoc]
    exact congrArg _ (congrArg _ (congrArg _ (congrArg _ String.append_empty.symm)))
termination_by structural s

theorem Stmt.texts_eq_written (level : Nat) (ss : List Stmt) :
    Stmt.texts level ss = written (Stmt.linesAll level ss) := by
  cases ss with
  | nil => rfl
  | cons s ss =>
    rw [Stmt.texts, Stmt.linesAll, written_append, Stmt.text_eq_written level s,
      Stmt.texts_eq_written level ss]
termination_by structural ss

end

mutual

/-- Nothing is written to the left of a statement. -/
theorem Stmt.le_of_mem_lines (level : Nat) (s : Stmt) : ∀ l ∈ s.lines level, level ≤ l.1 := by
  cases s with
  | define | assign | eval | give | leave =>
    exact List.forall_mem_singleton.mpr (Nat.le_refl level)
  | branch condition yes no =>
    have hyes := Stmt.le_of_mem_linesAll (level + 1) yes
    have hno := Stmt.le_of_mem_linesAll (level + 1) no
    simp only [Stmt.lines, List.forall_mem_cons, List.forall_mem_append]
    exact ⟨Nat.le_refl _, fun l hl => Nat.le_of_succ_le (hyes l hl), Nat.le_refl _,
      fun l hl => Nat.le_of_succ_le (hno l hl), Nat.le_refl _,
      fun l hl => absurd hl List.not_mem_nil⟩
termination_by structural s

theorem Stmt.le_of_mem_linesAll (level : Nat) (ss : List Stmt) :
    ∀ l ∈ Stmt.linesAll level ss, level ≤ l.1 := by
  cases ss with
  | nil => exact fun l hl => absurd hl List.not_mem_nil
  | cons s ss =>
    exact List.forall_mem_append.mpr
      ⟨Stmt.le_of_mem_lines level s, Stmt.le_of_mem_linesAll level ss⟩
termination_by structural ss

end

/-!
## Walks

A walk looks at levels and at what lines do, and at nothing else. It does not
know which statement a line came from. That it finds the arms of a branch where
the printer has put them is due to the indentation: an arm is what is written
deeper, and ends with the first line that is not.
-/

/-- **Control goes through lines** along a path: from a line at the level to the
next, and from the test of a branch through one of its arms to what follows the
branch. The arms are what is written deeper. -/
inductive Walk : Nat → List (Nat × Line) → List Line → Prop where
  | done {level : Nat} : Walk level [] []
  | step {level : Nat} {l : Line} {lines : List (Nat × Line)} {path : List Line}
    (simple : l.isSimple = true) (rest : Walk level lines path) :
    Walk level ((level, l) :: lines) (l :: path)
  | yes {level : Nat} {condition : Expr} {yes no lines : List (Nat × Line)} {p path : List Line}
    (deeperYes : ∀ l ∈ yes, level < l.1) (deeperNo : ∀ l ∈ no, level < l.1)
    (arm : Walk (level + 1) yes p) (rest : Walk level lines path) :
    Walk level
      ((level, .test condition) :: (yes ++ (level, .otherwise) :: (no ++ (level, .close) :: lines)))
      (.test condition :: (p ++ path))
  | no {level : Nat} {condition : Expr} {yes no lines : List (Nat × Line)} {p path : List Line}
    (deeperYes : ∀ l ∈ yes, level < l.1) (deeperNo : ∀ l ∈ no, level < l.1)
    (arm : Walk (level + 1) no p) (rest : Walk level lines path) :
    Walk level
      ((level, .test condition) :: (yes ++ (level, .otherwise) :: (no ++ (level, .close) :: lines)))
      (.test condition :: (p ++ path))

/-- **A path that returns once**, at its end and there with `r`. -/
structure EndsIn (r : Line) (path : List Line) : Prop where
  isReturn : r.isReturn = true
  exists_before : ∃ before, path = before ++ [r] ∧ ∀ l ∈ before, l.isReturn = false

section

variable {level : Nat} {l r : Line} {condition : Expr} {yes no lines lines' : List (Nat × Line)}
  {p q : List Line} {ss : List Stmt}

theorem walk_nil : Walk level [] p ↔ p = [] := by
  refine ⟨fun h => ?_, fun h => h ▸ .done⟩
  cases h
  rfl

theorem walk_cons (hsimple : l.isSimple = true) :
    Walk level ((level, l) :: lines) p ↔ ∃ q, Walk level lines q ∧ l :: q = p := by
  refine ⟨fun h => ?_, fun ⟨q, hq, hp⟩ => hp ▸ .step hsimple hq⟩
  cases h with
  | step simple rest => exact ⟨_, rest, rfl⟩
  | yes => cases hsimple
  | no => cases hsimple

/-- What is deeper ends where something is not. -/
theorem append_cons_inj_of_deeper {arm arm' rest rest' : List (Nat × Line)}
    (h : ∀ l ∈ arm, level < l.1) (h' : ∀ l ∈ arm', level < l.1)
    (heq : arm ++ (level, l) :: rest = arm' ++ (level, l) :: rest') :
    arm = arm' ∧ rest = rest' := by
  induction arm generalizing arm' with
  | nil =>
    cases arm' with
    | nil => exact ⟨rfl, (List.cons.inj heq).2⟩
    | cons l' arm' =>
      cases (List.cons.inj heq).1
      exact absurd (h' _ List.mem_cons_self) (Nat.lt_irrefl _)
  | cons l' arm ih =>
    cases arm' with
    | nil =>
      cases (List.cons.inj heq).1
      exact absurd (h _ List.mem_cons_self) (Nat.lt_irrefl _)
    | cons l'' arm' =>
      obtain ⟨rfl, htail⟩ := List.cons.inj heq
      obtain ⟨-, h⟩ := List.forall_mem_cons.mp h
      obtain ⟨-, h'⟩ := List.forall_mem_cons.mp h'
      obtain ⟨rfl, hrest⟩ := ih h h' htail
      exact ⟨rfl, hrest⟩

/-- **The paths through a branch**, and what follows it. That the arms are
deeper tells where they end. -/
theorem walk_branch (hyes : ∀ l ∈ yes, level < l.1) (hno : ∀ l ∈ no, level < l.1) :
    Walk level ((level, .test condition)
        :: (yes ++ (level, .otherwise) :: (no ++ (level, .close) :: lines))) p ↔
      ∃ q q', (Walk (level + 1) yes q ∨ Walk (level + 1) no q) ∧ Walk level lines q' ∧
        .test condition :: (q ++ q') = p := by
  constructor
  · intro h
    generalize hall : (level, Line.test condition)
      :: (yes ++ (level, .otherwise) :: (no ++ (level, .close) :: lines)) = all at h
    cases h with
    | done => cases hall
    | step simple rest =>
      cases hall
      cases simple
    | yes deeperYes deeperNo arm rest =>
      obtain ⟨htest, harms⟩ := List.cons.inj hall
      cases htest
      obtain ⟨rfl, harm⟩ := append_cons_inj_of_deeper hyes deeperYes harms
      obtain ⟨rfl, rfl⟩ := append_cons_inj_of_deeper hno deeperNo harm
      exact ⟨_, _, .inl arm, rest, rfl⟩
    | no deeperYes deeperNo arm rest =>
      obtain ⟨htest, harms⟩ := List.cons.inj hall
      cases htest
      obtain ⟨rfl, harm⟩ := append_cons_inj_of_deeper hyes deeperYes harms
      obtain ⟨rfl, rfl⟩ := append_cons_inj_of_deeper hno deeperNo harm
      exact ⟨_, _, .inr arm, rest, rfl⟩
  · rintro ⟨q, q', harm | harm, hrest, rfl⟩
    · exact .yes hyes hno harm hrest
    · exact .no hyes hno harm hrest

/-- The arms of a branch are deeper than the branch. -/
theorem Stmt.lt_of_mem_linesAll (level : Nat) (ss : List Stmt) :
    ∀ l ∈ Stmt.linesAll (level + 1) ss, level < l.1 := Stmt.le_of_mem_linesAll (level + 1) ss

/-- A statement that is not a branch takes one line. -/
theorem Stmt.lines_cases (level : Nat) (s : Stmt) :
    (∃ l, l.isSimple = true ∧ s.lines level = [(level, l)]) ∨
      ∃ condition yes no, s = .branch condition yes no := by
  cases s with
  | define | assign | eval | give | leave => exact .inl ⟨_, rfl, rfl⟩
  | branch condition yes no => exact .inr ⟨condition, yes, no, rfl⟩

/-- **A walk through a branch that was lowered**, and what follows it. -/
theorem walk_lines_branch {yes no : List Stmt} :
    Walk level ((Stmt.branch condition yes no).lines level ++ lines) p ↔
      ∃ q q', (Walk (level + 1) (Stmt.linesAll (level + 1) yes) q ∨
        Walk (level + 1) (Stmt.linesAll (level + 1) no) q) ∧ Walk level lines q' ∧
        .test condition :: (q ++ q') = p := by
  rw [← walk_branch (Stmt.lt_of_mem_linesAll level yes) (Stmt.lt_of_mem_linesAll level no)]
  simp only [Stmt.lines, List.cons_append, List.append_assoc, List.nil_append]

/-- **A walk through statements and what follows them** is a walk through the
statements, and one through the rest. -/
theorem walk_linesAll_append :
    Walk level (Stmt.linesAll level ss ++ lines) p ↔
      ∃ q q', Walk level (Stmt.linesAll level ss) q ∧ Walk level lines q' ∧ q ++ q' = p := by
  induction ss generalizing p with
  | nil => simp [Stmt.linesAll, walk_nil]
  | cons s ss ih =>
    rw [Stmt.linesAll, List.append_assoc]
    obtain ⟨l, hsimple, hlines⟩ | ⟨condition, yes, no, rfl⟩ := s.lines_cases level
    · simp only [hlines, List.cons_append, List.nil_append, walk_cons hsimple, ih]
      constructor
      · rintro ⟨-, ⟨q, q', hq, hq', rfl⟩, rfl⟩
        exact ⟨l :: q, q', ⟨q, hq, rfl⟩, hq', rfl⟩
      · rintro ⟨-, q', ⟨q, hq, rfl⟩, hq', rfl⟩
        exact ⟨q ++ q', ⟨q, q', hq, hq', rfl⟩, rfl⟩
    · simp only [walk_lines_branch, ih]
      constructor
      · rintro ⟨q, -, harm, ⟨q', q'', hq', hq'', rfl⟩, rfl⟩
        exact ⟨_, q'', ⟨q, q', harm, hq', rfl⟩, hq'', by simp⟩
      · rintro ⟨-, q'', ⟨q, q', harm, hq', rfl⟩, hq'', rfl⟩
        exact ⟨q, _, harm, ⟨q', q'', hq', hq'', rfl⟩, by simp⟩

/-- **What returns on a walk** is a line that returns. -/
theorem Walk.mem_returnLines (h : Walk level lines p) (hl : l ∈ p) (hreturn : l.isReturn = true) :
    l ∈ returnLines lines := by
  refine List.mem_filter.mpr ⟨?_, hreturn⟩
  induction h with
  | done => cases hl
  | step simple rest ih =>
    exact List.mem_cons.mpr ((List.mem_cons.mp hl).imp_right ih)
  | yes deeperYes deeperNo arm rest iharm ihrest =>
    obtain rfl | hl := List.mem_cons.mp hl
    · cases hreturn
    · have := (List.mem_append.mp hl).imp iharm ihrest
      simp only [List.map_cons, List.map_append, List.mem_cons, List.mem_append]
      tauto
  | no deeperYes deeperNo arm rest iharm ihrest =>
    obtain rfl | hl := List.mem_cons.mp hl
    · cases hreturn
    · have := (List.mem_append.mp hl).imp iharm ihrest
      simp only [List.map_cons, List.map_append, List.mem_cons, List.mem_append]
      tauto

/-- On a walk through lines that do not return nothing returns. -/
theorem Walk.isReturn_eq_false (h : Walk level lines p) (hlines : returnLines lines = []) :
    ∀ l ∈ p, l.isReturn = false := by
  intro l hl
  by_contra hreturn
  have hmem := h.mem_returnLines hl (Bool.not_eq_false _ ▸ hreturn)
  rw [hlines] at hmem
  cases hmem

/-- A return is a path that returns once. -/
theorem EndsIn.singleton (h : r.isReturn = true) : EndsIn r [r] :=
  ⟨h, [], rfl, fun _ hl => absurd hl List.not_mem_nil⟩

/-- A path that returns once still does after a path that does not return. -/
theorem EndsIn.append (h : EndsIn r p) (hq : ∀ l ∈ q, l.isReturn = false) : EndsIn r (q ++ p) := by
  obtain ⟨hreturn, before, rfl, hbefore⟩ := h
  exact ⟨hreturn, q ++ before, (List.append_assoc q before [r]).symm,
    List.forall_mem_append.mpr ⟨hq, hbefore⟩⟩

end

mutual

/-- **There is a way through a statement.** -/
theorem Stmt.exists_walk (level : Nat) (s : Stmt) : ∃ p, Walk level (s.lines level) p := by
  cases s with
  | define | assign | eval | give | leave => exact ⟨_, .step rfl .done⟩
  | branch condition yes no =>
    obtain ⟨p, hp⟩ := Stmt.exists_walk_all (level + 1) yes
    exact ⟨.test condition :: (p ++ []),
      .yes (Stmt.lt_of_mem_linesAll level yes) (Stmt.lt_of_mem_linesAll level no) hp .done⟩
termination_by structural s

theorem Stmt.exists_walk_all (level : Nat) (ss : List Stmt) :
    ∃ p, Walk level (Stmt.linesAll level ss) p := by
  cases ss with
  | nil => exact ⟨[], .done⟩
  | cons s ss =>
    obtain ⟨p, hp⟩ := s.exists_walk level
    obtain ⟨q, hq⟩ := Stmt.exists_walk_all level ss
    have hs : Walk level (Stmt.linesAll level [s]) p := by rwa [linesAll, linesAll, List.append_nil]
    have h := walk_linesAll_append.mpr ⟨p, q, hs, hq, rfl⟩
    rw [← Stmt.linesAll_append] at h
    exact ⟨p ++ q, h⟩
termination_by structural ss

end

end Target

/-!
## Results

Results are told from the block before it is lowered, by going to the last
statement and into the arms of a branch there.
-/

namespace Term

mutual

/-- **The results of a block**, one for every arm that it may end in: the
expression that stands last there, or nothing if there is none. -/
def Block.results : Block → List (Option Term)
  | ⟨_, _, stmts⟩ => resultsOf stmts

/-- The results of a sequence: those of its last statement. -/
def resultsOf : List Stmt → List (Option Term)
  | [] => [none]
  | [s] => s.results
  | _ :: s :: rest => resultsOf (s :: rest)

/-- The results of a statement in last place. -/
def Stmt.results : Stmt → List (Option Term)
  | .bind _ _ _ _ | .assign _ _ _ _ => [none]
  | .branch _ _ _ yes no => yes.results ++ no.results
  | .eval e => [some e]

end

/-- **How a result is returned.** Nothing is returned as the empty tuple, and an
expression without a value by a return without one. -/
def returning : Option Term → Target.Line
  | none => .give (.tuple [])
  | some e => if e.ty = .nil then .leave else .give e.lower

/-- What is written to return a result. -/
def returnText : Option Term → String
  | none => "return std::make_tuple();"
  | some e => if e.ty = .nil then "return;" else "return " ++ e.lower.text ++ ";"

theorem returning_of_eq_nil {e : Term} (h : e.ty = .nil) : returning (some e) = .leave := if_pos h

theorem returning_of_ne_nil {e : Term} (h : e.ty ≠ .nil) : returning (some e) = .give e.lower :=
  if_neg h

theorem text_returning (o : Option Term) : (returning o).text = returnText o := by
  cases o with
  | none => rfl
  | some e =>
    unfold returning returnText
    dsimp only
    split
    · rfl
    · rfl

/-!
## Lowering

The sink is handed down to the last statement, and from a branch to its arms.
All other statements are lowered with the sink that discards, and this is why
they do not return.
-/

open Target (EndsIn Walk returnLines)
open Target.Stmt (linesAll linesAll_append)

theorem lowerStmts_cons_cons (sink : Sink) (s s' : Stmt) (rest : List Stmt) :
    lowerStmts sink (s :: s' :: rest) = s.lower .discard ++ lowerStmts sink (s' :: rest) := rfl

/-- An expression without a value is evaluated before the return. -/
theorem lower_eval_of_eq_nil {e : Term} (h : e.ty = .nil) :
    (Stmt.eval e).lower .give = [.eval e.lower, .leave] := if_pos h

theorem lower_eval_of_ne_nil {e : Term} (h : e.ty ≠ .nil) :
    (Stmt.eval e).lower .give = [.give e.lower] := if_neg h

/-- The lines of a branch that return are those of its arms. -/
theorem returnLines_branch (level : Nat) (condition : Target.Expr) (yes no : List Target.Stmt) :
    returnLines (linesAll level [.branch condition yes no])
      = returnLines (linesAll (level + 1) yes) ++ returnLines (linesAll (level + 1) no) := by
  simp [linesAll, Target.Stmt.lines, returnLines, Target.Line.isReturn]

mutual

/-- **A body that discards its value does not return.** -/
theorem Block.returnLines_lower_discard (level : Nat) :
    (b : Block) → returnLines (linesAll level (b.lower .discard)) = []
  | ⟨_, _, stmts⟩ => returnLines_lowerStmts_discard level stmts

theorem returnLines_lowerStmts_discard (level : Nat) :
    (stmts : List Stmt) → returnLines (linesAll level (lowerStmts .discard stmts)) = []
  | [] => rfl
  | [s] => s.returnLines_lower_discard level
  | s :: s' :: rest => by
    rw [lowerStmts_cons_cons, linesAll_append, Target.returnLines_append,
      s.returnLines_lower_discard level, returnLines_lowerStmts_discard level (s' :: rest),
      List.nil_append]

theorem Stmt.returnLines_lower_discard (level : Nat) :
    (s : Stmt) → returnLines (linesAll level (s.lower .discard)) = []
  | .bind _ _ _ _ | .assign _ _ _ _ | .eval _ => rfl
  | .branch _ _ _ yes no => by
    rw [Stmt.lower, returnLines_branch, yes.returnLines_lower_discard (level + 1),
      no.returnLines_lower_discard (level + 1), List.nil_append]

end

mutual

/-- **The lines that return in a body that returns its value** are those of its
results. -/
theorem Block.returnLines_lower_give (level : Nat) :
    (b : Block) → returnLines (linesAll level (b.lower .give)) = b.results.map returning
  | ⟨_, _, stmts⟩ => returnLines_lowerStmts_give level stmts

theorem returnLines_lowerStmts_give (level : Nat) : (stmts : List Stmt) →
    returnLines (linesAll level (lowerStmts .give stmts)) = (resultsOf stmts).map returning
  | [] => rfl
  | [s] => s.returnLines_lower_give level
  | s :: s' :: rest => by
    rw [lowerStmts_cons_cons, linesAll_append, Target.returnLines_append,
      s.returnLines_lower_discard level, List.nil_append, resultsOf,
      returnLines_lowerStmts_give level (s' :: rest)]

theorem Stmt.returnLines_lower_give (level : Nat) :
    (s : Stmt) → returnLines (linesAll level (s.lower .give)) = s.results.map returning
  | .bind _ _ _ _ | .assign _ _ _ _ => rfl
  | .branch _ _ _ yes no => by
    rw [Stmt.lower, returnLines_branch, yes.returnLines_lower_give (level + 1),
      no.returnLines_lower_give (level + 1), Stmt.results, List.map_append]
  | .eval e => by
    rw [Stmt.results, List.map_singleton]
    by_cases h : e.ty = .nil
    · rw [lower_eval_of_eq_nil h, returning_of_eq_nil h]
      rfl
    · rw [lower_eval_of_ne_nil h, returning_of_ne_nil h]
      rfl

end

/-- A line that does not return. -/
theorem isReturn_singleton {l : Target.Line} (h : l.isReturn = false) :
    ∀ l' ∈ [l], l'.isReturn = false := List.forall_mem_singleton.mpr h

mutual

/-- **Every walk through a body that returns its value returns once**, at its
end, with one of the results. -/
theorem Block.endsIn_of_walk (level : Nat) : (b : Block) → ∀ p,
    Walk level (linesAll level (b.lower .give)) p → ∃ o ∈ b.results, EndsIn (returning o) p
  | ⟨_, _, stmts⟩ => endsIn_of_walk_lowerStmts level stmts

theorem endsIn_of_walk_lowerStmts (level : Nat) : (stmts : List Stmt) → ∀ p,
    Walk level (linesAll level (lowerStmts .give stmts)) p →
      ∃ o ∈ resultsOf stmts, EndsIn (returning o) p
  | [], p, hp => by
    obtain ⟨q, hq, rfl⟩ := (Target.walk_cons rfl).mp hp
    obtain rfl := Target.walk_nil.mp hq
    exact ⟨none, List.mem_singleton_self _, .singleton rfl⟩
  | [s], p, hp => s.endsIn_of_walk level p hp
  | s :: s' :: rest, p, hp => by
    -- what comes before the last statement is lowered to what does not return
    rw [lowerStmts_cons_cons, linesAll_append] at hp
    obtain ⟨q, q', hq, hq', rfl⟩ := Target.walk_linesAll_append.mp hp
    obtain ⟨o, ho, hends⟩ := endsIn_of_walk_lowerStmts level (s' :: rest) q' hq'
    exact ⟨o, ho, hends.append (hq.isReturn_eq_false (s.returnLines_lower_discard level))⟩

theorem Stmt.endsIn_of_walk (level : Nat) : (s : Stmt) → ∀ p,
    Walk level (linesAll level (s.lower .give)) p → ∃ o ∈ s.results, EndsIn (returning o) p
  | .bind _ _ _ _, p, hp | .assign _ _ _ _, p, hp => by
    obtain ⟨q, hq, rfl⟩ := (Target.walk_cons rfl).mp hp
    obtain ⟨q', hq', rfl⟩ := (Target.walk_cons rfl).mp hq
    obtain rfl := Target.walk_nil.mp hq'
    exact ⟨none, List.mem_singleton_self _, (EndsIn.singleton rfl).append (isReturn_singleton rfl)⟩
  | .branch _ _ _ yes no, p, hp => by
    obtain ⟨q, q', harm, hq', rfl⟩ := Target.walk_lines_branch.mp hp
    obtain rfl := Target.walk_nil.mp hq'
    rw [List.append_nil]
    obtain hyes | hno := harm
    · obtain ⟨o, ho, hends⟩ := yes.endsIn_of_walk (level + 1) q hyes
      exact ⟨o, List.mem_append_left _ ho, hends.append (isReturn_singleton rfl)⟩
    · obtain ⟨o, ho, hends⟩ := no.endsIn_of_walk (level + 1) q hno
      exact ⟨o, List.mem_append_right _ ho, hends.append (isReturn_singleton rfl)⟩
  | .eval e, p, hp => by
    refine ⟨some e, List.mem_singleton_self _, ?_⟩
    by_cases h : e.ty = .nil
    · rw [lower_eval_of_eq_nil h] at hp
      obtain ⟨q, hq, rfl⟩ := (Target.walk_cons rfl).mp hp
      obtain ⟨q', hq', rfl⟩ := (Target.walk_cons rfl).mp hq
      rw [Target.walk_nil.mp hq', returning_of_eq_nil h]
      exact (EndsIn.singleton rfl).append (isReturn_singleton rfl)
    · rw [lower_eval_of_ne_nil h] at hp
      obtain ⟨q, hq, rfl⟩ := (Target.walk_cons rfl).mp hp
      rw [Target.walk_nil.mp hq, returning_of_ne_nil h]
      exact .singleton rfl

end

mutual

/-- **Every result is returned on some walk.** -/
theorem Block.exists_walk (level : Nat) : (b : Block) → ∀ o ∈ b.results,
    ∃ p, Walk level (linesAll level (b.lower .give)) p ∧ EndsIn (returning o) p
  | ⟨_, _, stmts⟩ => exists_walk_lowerStmts level stmts

theorem exists_walk_lowerStmts (level : Nat) : (stmts : List Stmt) → ∀ o ∈ resultsOf stmts,
    ∃ p, Walk level (linesAll level (lowerStmts .give stmts)) p ∧ EndsIn (returning o) p
  | [], o, ho => by
    rw [List.mem_singleton.mp ho]
    exact ⟨_, .step rfl .done, .singleton rfl⟩
  | [s], o, ho => s.exists_walk level o ho
  | s :: s' :: rest, o, ho => by
    obtain ⟨q, hq⟩ := Target.Stmt.exists_walk_all level (s.lower .discard)
    obtain ⟨q', hq', hends⟩ := exists_walk_lowerStmts level (s' :: rest) o ho
    refine ⟨q ++ q', ?_, hends.append (hq.isReturn_eq_false (s.returnLines_lower_discard level))⟩
    rw [lowerStmts_cons_cons, linesAll_append]
    exact Target.walk_linesAll_append.mpr ⟨q, q', hq, hq', rfl⟩

theorem Stmt.exists_walk (level : Nat) : (s : Stmt) → ∀ o ∈ s.results,
    ∃ p, Walk level (linesAll level (s.lower .give)) p ∧ EndsIn (returning o) p
  | .bind _ _ _ _, o, ho | .assign _ _ _ _, o, ho => by
    rw [List.mem_singleton.mp ho]
    exact ⟨_, .step rfl (.step rfl .done),
      (EndsIn.singleton rfl).append (isReturn_singleton rfl)⟩
  | .branch _ _ condition yes no, o, ho => by
    have harm : ∃ q, (Walk (level + 1) (linesAll (level + 1) (yes.lower .give)) q ∨
        Walk (level + 1) (linesAll (level + 1) (no.lower .give)) q) ∧ EndsIn (returning o) q := by
      obtain ho | ho := List.mem_append.mp ho
      · obtain ⟨q, hq, hends⟩ := yes.exists_walk (level + 1) o ho
        exact ⟨q, .inl hq, hends⟩
      · obtain ⟨q, hq, hends⟩ := no.exists_walk (level + 1) o ho
        exact ⟨q, .inr hq, hends⟩
    obtain ⟨q, hq, hends⟩ := harm
    refine ⟨.test condition.lower :: q, ?_, hends.append (isReturn_singleton rfl)⟩
    exact Target.walk_lines_branch.mpr ⟨q, [], hq, .done, by rw [List.append_nil]⟩
  | .eval e, o, ho => by
    rw [List.mem_singleton.mp ho]
    by_cases h : e.ty = .nil
    · rw [lower_eval_of_eq_nil h, returning_of_eq_nil h]
      exact ⟨_, .step rfl (.step rfl .done),
        (EndsIn.singleton rfl).append (isReturn_singleton rfl)⟩
    · rw [lower_eval_of_ne_nil h, returning_of_ne_nil h]
      exact ⟨_, .step rfl .done, .singleton rfl⟩

end

/-!
## Types of results

A block has the type of what its last statement leaves behind, and this type is
handed to the arms of a branch as the sink is. So a result is of the type of the
block.
-/

variable {Γ : String → Ty → Prop}

/-- **A result is of a type**: an expression of its own, and nothing of the
empty tuple's. -/
def ResultTyped (Γ : String → Ty → Prop) (ty : Ty) : Option Term → Prop
  | none => ty = .unit
  | some e => e.WellTyped Γ ∧ e.ty = ty

mutual

/-- **The results of a well typed block are of its type.** -/
theorem Block.resultTyped : (b : Block) → b.WellTyped Γ → ∀ o ∈ b.results, ResultTyped Γ b.ty o
  | ⟨_, _, stmts⟩, ⟨hstmts, hty⟩, o, ho => hty ▸ resultTyped_of_mem stmts hstmts o ho

theorem resultTyped_of_mem : (stmts : List Stmt) → WellTypedStmts Γ stmts →
    ∀ o ∈ resultsOf stmts, ResultTyped Γ (resultTy stmts) o
  | [], _, _, ho => List.mem_singleton.mp ho ▸ rfl
  | [s], hs, o, ho => s.resultTyped hs o ho
  | s :: s' :: rest, hstmts, o, ho => by
    have hresultTy : resultTy (s :: s' :: rest) = resultTy (s' :: rest) := by
      rw [resultTy, List.getLast?_cons_cons, ← resultTy]
    rw [hresultTy]
    exact resultTyped_of_mem (s' :: rest) (wellTypedStmts_cons.mp hstmts).2 o ho

theorem Stmt.resultTyped : (s : Stmt) → WellTypedStmts Γ [s] →
    ∀ o ∈ s.results, ResultTyped Γ s.ty o
  | .bind _ _ _ _, _, _, ho | .assign _ _ _ _, _, _, ho => List.mem_singleton.mp ho ▸ rfl
  | .branch _ _ _ yes no, ⟨_, ⟨hyes, hyesTy⟩, ⟨hno, hnoTy⟩, _⟩, o, ho =>
    (List.mem_append.mp ho).elim (fun ho => hyesTy ▸ yes.resultTyped hyes o ho)
      (fun ho => hnoTy ▸ no.resultTyped hno o ho)
  | .eval _, ⟨he, _⟩, _, ho => List.mem_singleton.mp ho ▸ ⟨he, rfl⟩

end

/-- Only what has the type of the empty tuple is written as one. -/
theorem ty_eq_unit_of_lower {e : Term} (he : e.WellTyped Γ) (h : e.lower = .tuple []) :
    e.ty = .unit := by
  obtain ⟨span, ty, node⟩ := e
  cases node with
  | tuple elements =>
    obtain ⟨-, rfl | ⟨rfl, -⟩⟩ := he
    · cases elements with
      | nil => rfl
      | cons => cases h
    · cases h
  | value v =>
    cases he with
    | tuple hvs =>
      cases hvs with
      | nil => rfl
      | cons => cases h
    | _ => cases h
  | _ => cases h

/-- What returns with the empty tuple is of its type, and what returns without a
value is of the type of what has none. -/
theorem ResultTyped.ty_of_returning {ty : Ty} {o : Option Term} (h : ResultTyped Γ ty o) :
    (returning o = .give (.tuple []) → ty = .unit) ∧ (returning o = .leave → ty = .nil) := by
  cases o with
  | none => exact ⟨fun _ => h, by rintro ⟨⟩⟩
  | some e =>
    obtain ⟨he, rfl⟩ := h
    by_cases hnil : e.ty = .nil
    · rw [returning_of_eq_nil hnil]
      exact ⟨by rintro ⟨⟩, fun _ => hnil⟩
    · rw [returning_of_ne_nil hnil]
      exact ⟨fun hgive => ty_eq_unit_of_lower he (Target.Line.give.inj hgive), by rintro ⟨⟩⟩

end Term

/-!
## Bodies

The statements of a function are written as a body, and so are those of the
entry point, which discards the value of its block and returns zero after it.
-/

namespace Target

/-- **Every walk through the body of a function that is defined returns once**,
with a result of the block. The entry point does so with what is put after its
body. -/
theorem Item.exists_body (s : Signature) (b : Term.Block) :
    ∃ body, Item.function s b = .defineFunction s body ∧
      ∀ p, Walk 1 (Stmt.linesAll 1 body) p → ∃ r, EndsIn r p ∧
        if s.isEntry then r = .give (.int 0) else ∃ o ∈ b.results, r = Term.returning o := by
  unfold Item.function
  split
  · refine ⟨_, rfl, fun p hp => ?_⟩
    rw [Stmt.linesAll_append] at hp
    obtain ⟨q, q', hq, hq', rfl⟩ := walk_linesAll_append.mp hp
    obtain ⟨q'', hq'', rfl⟩ := (walk_cons rfl).mp hq'
    obtain rfl := walk_nil.mp hq''
    have hsilent := hq.isReturn_eq_false (b.returnLines_lower_discard 1)
    exact ⟨_, (EndsIn.singleton rfl).append hsilent, rfl⟩
  · refine ⟨_, rfl, fun p hp => ?_⟩
    obtain ⟨o, ho, hends⟩ := b.endsIn_of_walk 1 p hp
    exact ⟨_, hends, o, ho, rfl⟩

end Target

open Target (Walk EndsIn written returnLines)
open Target.Stmt (linesAll)

/-- **Lowered blocks return once on every path**, as it is written. Where the
value of a block is returned, there is a way through the lines of its text,
every way ends in a return, that of one of the results of the block, and there
is no other return on it. Every result is returned in some way, and the lines
that return are those of the results. Where the value is discarded there are no
such lines. In the text of every function that is defined every way returns
once, with a result, and for the entry point with what is put after its body.

If the block is well typed its results are of its type. The empty tuple is
returned only where that is the type of the empty tuple, and nothing only where
it is that of what has no value. Only the last statement of a sequence is
lowered to return, and one that branches passes this on to its arms.

The paths through a sequence of statements are paths through the first and then
through the rest. All statements but the last are lowered to discard, and on a
path through these nothing returns. A path through the last one takes a single
line that returns, or an arm of a branch, and then the same holds of the arm. -/
theorem lowered_returns_once (b : Term.Block) (level : Nat) :
    (Target.Stmt.texts level (b.lower .give) = written (linesAll level (b.lower .give)) ∧
      (∃ p, Walk level (linesAll level (b.lower .give)) p) ∧
      (∀ p, Walk level (linesAll level (b.lower .give)) p →
        ∃ o ∈ b.results, EndsIn (Term.returning o) p) ∧
      (∀ o ∈ b.results, ∃ p, Walk level (linesAll level (b.lower .give)) p ∧
        EndsIn (Term.returning o) p) ∧
      returnLines (linesAll level (b.lower .give)) = b.results.map Term.returning ∧
      (returnLines (linesAll level (b.lower .give))).map Target.Line.text
        = b.results.map Term.returnText) ∧
    (Target.Stmt.texts level (b.lower .discard) = written (linesAll level (b.lower .discard)) ∧
      returnLines (linesAll level (b.lower .discard)) = []) ∧
    (∀ s : Target.Signature, ∃ body, Target.Item.function s b = .defineFunction s body ∧
      (Target.Item.function s b).text
        = s.header ++ " \x7b\n" ++ written (linesAll 1 body) ++ "\x7d" ∧
      ∀ p, Walk 1 (linesAll 1 body) p → ∃ r, EndsIn r p ∧
        if s.isEntry then r = .give (.int 0) else ∃ o ∈ b.results, r = Term.returning o) ∧
    ∀ Γ : String → Ty → Prop, b.WellTyped Γ →
      (∀ o ∈ b.results, Term.ResultTyped Γ b.ty o) ∧
      (.give (.tuple []) ∈ returnLines (linesAll level (b.lower .give)) → b.ty = .unit) ∧
      (.leave ∈ returnLines (linesAll level (b.lower .give)) → b.ty = .nil) := by
  have hreturns := b.returnLines_lower_give level
  refine ⟨⟨Target.Stmt.texts_eq_written _ _, Target.Stmt.exists_walk_all _ _,
    b.endsIn_of_walk level, b.exists_walk level, hreturns, ?_⟩,
    ⟨Target.Stmt.texts_eq_written _ _, b.returnLines_lower_discard level⟩, fun s => ?_,
    fun Γ hb => ?_⟩
  · rw [hreturns, List.map_map]
    exact List.map_congr_left fun o _ => Term.text_returning o
  · obtain ⟨body, hbody, hends⟩ := Target.Item.exists_body s b
    refine ⟨body, hbody, ?_, hends⟩
    rw [hbody, Target.Item.text, Target.Stmt.texts_eq_written]
  · have htyped := b.resultTyped hb
    rw [hreturns]
    refine ⟨htyped, fun h => ?_, fun h => ?_⟩
    · obtain ⟨o, ho, hreturn⟩ := List.mem_map.mp h
      exact (htyped o ho).ty_of_returning.1 hreturn
    · obtain ⟨o, ho, hreturn⟩ := List.mem_map.mp h
      exact (htyped o ho).ty_of_returning.2 hreturn

/-- A branch, and another after it with a branch in one of its arms. No arm
leaves more behind than the empty tuple, though they end in different ways. -/
def Term.Block.crossroads : Term.Block :=
  let block (stmts : List Term.Stmt) : Term.Block := ⟨.nowhere, .unit, stmts⟩
  let fork (yes no : List Term.Stmt) : Term.Stmt :=
    .branch .nowhere .unit ⟨.nowhere, .bool, .bool true⟩ (block yes) (block no)
  let unit : Term := ⟨.nowhere, .unit, .tuple []⟩
  let entry : Term.Stmt := .bind .nowhere (.unplaced "x") .unit (block [.eval unit])
  block [fork [] [entry], fork [entry] [.eval unit, fork [] [.eval unit]]]

/-- There are three ways through the block, and on each of them the empty tuple
is returned once. -/
theorem crossroads_return_once :
    Term.Block.crossroads.WellTyped (fun _ _ => False) ∧
    (∃ p, Walk 1 (linesAll 1 (Term.Block.crossroads.lower .give)) p) ∧
    (∀ p, Walk 1 (linesAll 1 (Term.Block.crossroads.lower .give)) p → ∃ r, EndsIn r p) ∧
    (returnLines (linesAll 1 (Term.Block.crossroads.lower .give))).map Target.Line.text
      = ["return std::make_tuple();", "return std::make_tuple();", "return std::make_tuple();"] ∧
    (∀ o ∈ Term.Block.crossroads.results, Term.ResultTyped (fun _ _ => False) .unit o) := by
  have htyped : Term.Block.crossroads.WellTyped (fun _ _ => False) := by
    simp [Term.Block.crossroads, Term.Block.WellTyped, Term.WellTypedStmts, Term.WellTyped,
      Term.Node.WellTyped, Term.WellTypedAll, Term.resultTy, Term.Stmt.ty, Ty.unit]
  obtain ⟨⟨-, hwalk, hwalks, -, -, htexts⟩, -, -, htypes⟩ :=
    lowered_returns_once Term.Block.crossroads 1
  refine ⟨htyped, hwalk, fun p hp => ?_, ?_, (htypes _ htyped).1⟩
  · obtain ⟨o, -, hends⟩ := hwalks p hp
    exact ⟨_, hends⟩
  · rw [htexts]
    rfl

end Stagewise
