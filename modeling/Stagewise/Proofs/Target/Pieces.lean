import Stagewise.Proofs.Target.Skeleton
import Stagewise.Target.Printer

/-!
# Names in the text of a program

The text of a program is put together from **pieces**: names that are used,
variables and parameters that are introduced, what scopes begin and end with,
and everything else, which is plain. What the names refer to can be told from
the pieces alone, by reading them from left to right with the frames of the
scopes that are open (`Piece.resolve`). A variable is visible from where its
name is written, and that takes no extra care, for it is written before its
initializer.

Nothing is lost and nothing is made up on the way from a tree to its text: the
pieces of a tree make up its text (`Expr.text_eq`), and they spell its skeleton
(`Expr.spelt`). So what is read off the text is what the skeleton says
(`Spelt.reads`).
-/

namespace Stagewise

namespace Target

/-- **A piece of a text**, by what it is there for. -/
inductive Piece where
  /-- Signs and words, literals and types. -/
  | plain (text : String)
  /-- A name that is used. -/
  | use (x : String)
  /-- A variable or a parameter that is introduced, with its type in front. -/
  | declarator (x : String) (ty : Ty)
  /-- What a scope begins with. -/
  | enter (text : String)
  /-- What a scope ends with. -/
  | leave (text : String)

namespace Piece

@[simp]
def text : Piece → String
  | plain s | enter s | leave s => s
  | use x => x
  | declarator x ty => ty.spelling ++ " " ++ x

/-- **The text of several pieces.** -/
def textOf (ps : List Piece) : String := String.join (ps.map text)

/-- The names that are used, in order. -/
def used (ps : List Piece) : List String :=
  ps.filterMap fun
    | use x => some x
    | _ => none

/-- The variables and parameters, in order. -/
def declarators (ps : List Piece) : List (String × Ty) :=
  ps.filterMap fun
    | declarator x ty => some (x, ty)
    | _ => none

/-- **What the names in a text refer to**, in the frame of the innermost scope,
with the frames of those `outer` to it, and where `n` variables and parameters
were introduced before. -/
def resolve (ρ : Frame) (outer : List Frame) (n : Nat) : List Piece → List (Occurrence Unit)
  | [] => []
  | plain _ :: ps => resolve ρ outer n ps
  | use x :: ps => ⟨x, (), ρ x⟩ :: resolve ρ outer n ps
  | declarator x _ :: ps => resolve (ρ.bind x n) outer (n + 1) ps
  | enter _ :: ps => resolve ρ (ρ :: outer) n ps
  | leave _ :: ps =>
    match outer with
    | σ :: outer => resolve σ outer n ps
    | [] => []

@[simp]
theorem textOf_nil : textOf [] = "" := String.join_nil

@[simp]
theorem textOf_cons (p : Piece) (ps : List Piece) : textOf (p :: ps) = p.text ++ textOf ps :=
  String.join_cons

@[simp]
theorem textOf_append (ps qs : List Piece) : textOf (ps ++ qs) = textOf ps ++ textOf qs := by
  rw [textOf, List.map_append, String.join_append, textOf, textOf]

end Piece

/-!
## Pieces of trees

The pieces follow the printer, and say of each bit of the text what it is there
for. Levels of indentation and commas are plain.
-/

/-- The blanks at the beginning of a line. -/
def margin (level : Nat) : String := String.ofList (List.replicate (4 * level) ' ')

/-- The end of a statement and of its line. -/
def ending : List Piece := [.plain ";", .plain "\n"]

/-- Parameters, with commas between them. -/
def paramPieces : List (String × Ty) → List Piece
  | [] => []
  | (x, ty) :: params => .declarator x ty :: params.flatMap fun (x, ty) =>
    [.plain ", ", .declarator x ty]

mutual

/-- **The pieces of an expression.** The scope of a lambda begins with its
parameters. Its captures are not counted as uses. -/
def Expr.pieces : Expr → List Piece
  | .int n => [.plain (toString n.toInt)]
  | .float x => [.plain (Decimal.Layout.program.text x)]
  | .bool b => [.plain (if b then "true" else "false")]
  | .string s => [.plain "std::string(", .plain (Data.quote s), .plain ")"]
  | .name x => [.use x]
  | .call callee arguments =>
    callee.pieces ++ .plain "(" :: (Expr.listed arguments ++ [.plain ")"])
  | .descriptor t => [.plain t.descriptor]
  | .tupleType elements =>
    .plain "box(ty::TupleType\x7b .elements = \x7b " :: (Expr.listed elements
      ++ [.plain " \x7d \x7d)"])
  | .tuple elements => .plain "std::make_tuple(" :: (Expr.listed elements ++ [.plain ")"])
  | .braced ty elements =>
    .plain ty.spelling :: .plain "\x7b" :: (Expr.listed elements ++ [.plain "\x7d"])
  | .unary op operand => .plain "(" :: .plain op.text :: (operand.pieces ++ [.plain ")"])
  | .binary op left right =>
    .plain "(" :: (left.pieces ++ .plain " " :: .plain op.spelling :: .plain " " :: (right.pieces
      ++ [.plain ")"]))
  | .lambda captures params result body =>
    .plain "[" :: .plain (commas captures) :: .enter "](" :: (paramPieces params ++ .plain ") -> "
      :: .plain result.spelling :: .plain " \x7b\n" :: (Stmt.piecesAll 1 body ++ [.leave "\x7d"]))
  | .block result body =>
    .plain "[&]() -> " :: .plain result.spelling :: .enter " \x7b\n" :: (Stmt.piecesAll 1 body
      ++ [.leave "\x7d()"])
  | .absent => []

/-- The pieces of several expressions, with commas between them. -/
def Expr.listed : List Expr → List Piece
  | [] => []
  | e :: es => e.pieces ++ Expr.listedAfter es

/-- The pieces of several expressions after others. -/
def Expr.listedAfter : List Expr → List Piece
  | [] => []
  | e :: es => .plain ", " :: (e.pieces ++ Expr.listedAfter es)

/-- **The pieces of a statement** at some level of indentation. The arms of a
branch are scopes. What ends the first is written in one with what begins the
second, which then begins with the line. -/
def Stmt.pieces (level : Nat) : Stmt → List Piece
  | .define ty x init =>
    .plain (margin level) :: .declarator x ty :: .plain " = " :: (init.pieces ++ ending)
  | .assign target op e =>
    .plain (margin level) :: .use target :: .plain " " :: .plain op.text :: .plain " "
      :: (e.pieces ++ ending)
  | .branch condition yes no =>
    .plain (margin level) :: .plain "if (" :: (condition.pieces ++ .enter ") \x7b" :: .plain "\n"
      :: (Stmt.piecesAll (level + 1) yes ++ .plain (margin level) :: .leave "\x7d else \x7b"
      :: .enter "\n" :: (Stmt.piecesAll (level + 1) no ++ [.plain (margin level), .leave "\x7d",
      .plain "\n"])))
  | .eval e => .plain (margin level) :: (e.pieces ++ ending)
  | .give e => .plain (margin level) :: .plain "return " :: (e.pieces ++ ending)
  | .leave => [.plain (margin level), .plain "return;", .plain "\n"]

/-- The pieces of several statements. -/
def Stmt.piecesAll (level : Nat) : List Stmt → List Piece
  | [] => []
  | s :: ss => s.pieces level ++ Stmt.piecesAll level ss

end

/-- The pieces of what comes before a body. The entry point has no
parameters. -/
def Signature.pieces (s : Signature) : List Piece :=
  if s.isEntry then [.plain "int ", .plain s.symbol, .enter "()"]
  else .plain s.result.spelling :: .plain " " :: .plain s.symbol :: .enter "("
    :: (paramPieces s.params ++ [.plain ")"])

/-- **The pieces of an item.** Only definitions have names in them. -/
def Item.pieces : Item → List Piece
  | .defineFunction s body => s.pieces ++ .plain " \x7b\n" :: (Stmt.piecesAll 1 body
    ++ [.leave "\x7d"])
  | .defineConstant name ty init =>
    .plain ty.spelling :: .plain " " :: .plain name :: .plain " = " :: (init.pieces ++ [.plain ";"])
  | .declareBuiltin b => [.plain b.declaration]
  | .defineBuiltin b => [.plain b.definition]
  | .declareFunction s => [.plain s.header, .plain ";"]
  | .declareConstant name ty =>
    [.plain "extern ", .plain ty.spelling, .plain " ", .plain name, .plain ";"]

/-!
## The text of pieces

Most of this is a matter of where strings are put together. The printer builds
texts from the inside out and joins them with commas, and pieces stand side by
side.
-/

theorem commas_cons (s : String) (ss : List String) :
    commas (s :: ss) = s ++ String.join (ss.map (", " ++ ·)) := by
  induction ss generalizing s with
  | nil => simp [commas, String.intercalate_singleton]
  | cons s' ss ih =>
    rw [commas, String.intercalate_cons_cons, ← commas, ih s', List.map_cons, String.join_cons]
    simp only [String.append_assoc]

theorem paramsText_eq (params : List (String × Ty)) :
    paramsText params = Piece.textOf (paramPieces params) := by
  cases params with
  | nil => rfl
  | cons p params =>
    rw [paramsText, List.map_cons, commas_cons, paramPieces, Piece.textOf_cons]
    congr 1
    induction params with
    | nil => rfl
    | cons q params ih =>
      rw [List.map_cons, List.map_cons, String.join_cons, ih, List.flatMap_cons,
        Piece.textOf_append, Piece.textOf_cons, Piece.textOf_cons, Piece.textOf_nil,
        String.append_empty]
      rfl

theorem describeTuple_eq (elements : List String) : Ty.describeTuple elements
    = "box(ty::TupleType\x7b .elements = \x7b " ++ (commas elements ++ " \x7d \x7d)") :=
  String.append_assoc ..

mutual

/-- **The text of an expression is put together from its pieces.** -/
theorem Expr.text_eq (e : Expr) : e.text = Piece.textOf e.pieces := by
  cases e with
  | int | float | bool | name | descriptor =>
    rw [Expr.pieces, Piece.textOf_cons, Piece.textOf_nil, String.append_empty]
    rfl
  | string =>
    simp [Expr.text, Expr.pieces, String.append_assoc]
  | absent => rfl
  | call callee arguments =>
    simp [Expr.text, Expr.pieces, callee.text_eq, Expr.commas_texts arguments,
      String.append_assoc]
  | tupleType elements =>
    rw [Expr.text, describeTuple_eq, Expr.commas_texts elements]
    simp only [Expr.pieces, Piece.text, Piece.textOf_cons, Piece.textOf_append, Piece.textOf_nil,
      String.append_empty]
  | tuple elements | braced _ elements =>
    simp [Expr.text, Expr.pieces, Expr.commas_texts elements, String.append_assoc]
  | unary op operand =>
    simp [Expr.text, Expr.pieces, operand.text_eq, String.append_assoc]
  | binary op left right =>
    simp [Expr.text, Expr.pieces, left.text_eq, right.text_eq, String.append_assoc]
  | lambda captures params result body =>
    simp [Expr.text, Expr.pieces, paramsText_eq, Stmt.texts_eq 1 body,
      String.append_assoc]
  | block result body =>
    simp [Expr.text, Expr.pieces, Stmt.texts_eq 1 body, String.append_assoc]
termination_by structural e

theorem Expr.commas_texts (es : List Expr) :
    commas (Expr.texts es) = Piece.textOf (Expr.listed es) := by
  cases es with
  | nil => rfl
  | cons e es =>
    rw [Expr.texts, commas_cons, Expr.listed, Piece.textOf_append, e.text_eq, Expr.join_texts es]
termination_by structural es

theorem Expr.join_texts (es : List Expr) :
    String.join ((Expr.texts es).map (", " ++ ·)) = Piece.textOf (Expr.listedAfter es) := by
  cases es with
  | nil => rfl
  | cons e es =>
    rw [Expr.texts, List.map_cons, String.join_cons, Expr.join_texts es, e.text_eq,
      Expr.listedAfter, Piece.textOf_cons, Piece.textOf_append, ← String.append_assoc]
    rfl
termination_by structural es

theorem Stmt.text_eq (level : Nat) (s : Stmt) : s.text level = Piece.textOf (s.pieces level) := by
  cases s with
  | define ty x init =>
    simp [Stmt.text, Stmt.pieces, line, margin, ending, init.text_eq,
      String.append_assoc]
  | assign target op e | eval e | give e =>
    simp [Stmt.text, Stmt.pieces, line, margin, ending, e.text_eq, String.append_assoc]
  | leave => simp [Stmt.text, Stmt.pieces, line, margin, String.append_assoc]
  | branch condition yes no =>
    simp only [Stmt.text, Stmt.pieces, line, margin, Piece.text, condition.text_eq,
      Stmt.texts_eq (level + 1) yes, Stmt.texts_eq (level + 1) no, String.append_assoc,
      Piece.textOf_cons, Piece.textOf_append, Piece.textOf_nil, String.append_empty,
      -String.reduceAppend]
termination_by structural s

theorem Stmt.texts_eq (level : Nat) (ss : List Stmt) :
    Stmt.texts level ss = Piece.textOf (Stmt.piecesAll level ss) := by
  cases ss with
  | nil => rfl
  | cons s ss =>
    rw [Stmt.texts, Stmt.piecesAll, Piece.textOf_append, s.text_eq level, Stmt.texts_eq level ss]
termination_by structural ss

end

/-- **The text of an item is put together from its pieces.** -/
theorem Item.text_eq (i : Item) : i.text = Piece.textOf i.pieces := by
  cases i with
  | declareBuiltin | defineBuiltin | declareFunction =>
    simp [Item.text, Item.pieces]
  | declareConstant => simp [Item.text, Item.pieces, String.append_assoc]
  | defineConstant name ty init =>
    simp [Item.text, Item.pieces, init.text_eq, String.append_assoc]
  | defineFunction s body =>
    have hheader : s.header = Piece.textOf s.pieces := by
      unfold Signature.header Signature.pieces
      split
      · simp [String.append_assoc]
      · simp [paramsText_eq, String.append_assoc]
    simp [Item.text, Item.pieces, hheader, Stmt.texts_eq 1 body, String.append_assoc]

end Target

/-!
## Skeletons in pieces

A skeleton tells what comes before a rest and what is inside of something. In a
list of pieces both are only a matter of where a scope was entered and left. So
the relation `Spelt` goes through the pieces along with the skeleton, and what
the pieces resolve to follows by induction on it.
-/

namespace Skeleton

variable {α : Type}

/-- **Nothing is introduced outside inner scopes**, as it is in expressions. -/
def Flat : Skeleton α → Prop
  | done => True
  | use _ _ rest | scope _ rest => rest.Flat
  | param _ _ _ | define _ _ _ _ => False

/-- The frame after a program, where its own variables are still visible. -/
def frameAfter (ρ : Frame) (n : Nat) : Skeleton α → Frame
  | done => ρ
  | use _ _ rest => rest.frameAfter ρ n
  | param x _ rest => rest.frameAfter (ρ.bind x n) (n + 1)
  | scope inner rest => rest.frameAfter ρ (n + inner.declarators.length)
  | define x _ init rest => rest.frameAfter (ρ.bind x n) (n + 1 + init.declarators.length)

theorem Flat.frameAfter {o : Skeleton α} (h : o.Flat) (ρ : Frame) (n : Nat) :
    o.frameAfter ρ n = ρ := by
  induction o generalizing n with
  | done => rfl
  | use x a rest ih => exact ih h n
  | param => exact h.elim
  | scope inner rest ihi ihr => exact ihr h _
  | define => exact h.elim

end Skeleton

namespace Target

/-- **Pieces spell a skeleton**, before `rest`. -/
inductive Spelt : List Piece → Skeleton Unit → List Piece → Prop where
  | done {rest : List Piece} : Spelt rest .done rest
  | plain {text : String} {ps rest : List Piece} {o : Skeleton Unit} (h : Spelt ps o rest) :
    Spelt (.plain text :: ps) o rest
  | use {x : String} {ps rest : List Piece} {o : Skeleton Unit} (h : Spelt ps o rest) :
    Spelt (.use x :: ps) (.use x () o) rest
  | param {x : String} {ty : Ty} {ps rest : List Piece} {o : Skeleton Unit} (h : Spelt ps o rest) :
    Spelt (.declarator x ty :: ps) (.param x ty o) rest
  | scope {text text' : String} {ps ps' rest : List Piece} {inner o : Skeleton Unit}
    (hinner : Spelt ps inner (.leave text' :: ps')) (h : Spelt ps' o rest) :
    Spelt (.enter text :: ps) (.scope inner o) rest
  | define {x : String} {ty : Ty} {ps ps' rest : List Piece} {init o : Skeleton Unit}
    (flat : init.Flat) (hinit : Spelt ps init ps') (h : Spelt ps' o rest) :
    Spelt (.declarator x ty :: ps) (.define x ty init o) rest

namespace Spelt

variable {ps rest : List Piece} {o : Skeleton Unit}

theorem used_eq (h : Spelt ps o rest) :
    Piece.used ps = o.uses.map (·.1) ++ Piece.used rest := by
  induction h with
  | done => rfl
  | plain h ih => exact ih
  | use h ih => exact congrArg (_ :: ·) ih
  | param h ih => exact ih
  | scope hinner h ihi ih =>
    rw [Skeleton.uses, List.map_append, List.append_assoc, ← ih]
    exact ihi
  | define flat hinit h ihi ih =>
    rw [Skeleton.uses, List.map_append, List.append_assoc, ← ih]
    exact ihi

theorem declarators_eq (h : Spelt ps o rest) :
    Piece.declarators ps = o.declarators ++ Piece.declarators rest := by
  induction h with
  | done => rfl
  | plain h ih => exact ih
  | use h ih => exact ih
  | param h ih => exact congrArg (_ :: ·) ih
  | scope hinner h ihi ih =>
    rw [Skeleton.declarators, List.append_assoc, ← ih]
    exact ihi
  | define flat hinit h ihi ih =>
    rw [Skeleton.declarators, List.cons_append, List.append_assoc, ← ih]
    exact congrArg (_ :: ·) ihi

/-- **What names refer to is read off the pieces**: those of the skeleton first,
and then the others, in the frame that is left. Where a scope ends the frame
around it is back.

Where the skeleton has a scope inside, the pieces have it between an entry and
an exit, and in between the frame around it waits in the list. An initializer is
flat, so when it has been read the frame is the one that it began with. -/
theorem resolve_eq (h : Spelt ps o rest) (ρ : Frame) (outer : List Frame) (n : Nat) :
    Piece.resolve ρ outer n ps = o.resolve .declarator ρ n
      ++ Piece.resolve (o.frameAfter ρ n) outer (n + o.declarators.length) rest := by
  induction h generalizing ρ outer n with
  | done => rfl
  | plain h ih => exact ih ρ outer n
  | @use x ps rest o h ih => exact congrArg (Occurrence.mk x () (ρ x) :: ·) (ih ρ outer n)
  | @param x ty ps rest o h ih =>
    refine (ih (ρ.bind x n) outer (n + 1)).trans ?_
    rw [Skeleton.declarators, List.length_cons, Nat.add_right_comm]
    rfl
  | @scope text text' ps ps' rest inner o hinner h ihi ih =>
    refine (ihi ρ (ρ :: outer) n).trans ?_
    rw [Skeleton.resolve, List.append_assoc, Skeleton.declarators, List.length_append,
      ← Nat.add_assoc]
    exact congrArg (_ ++ ·) (ih ρ outer _)
  | @define x ty ps ps' rest init o flat hinit h ihi ih =>
    refine (ihi (ρ.bind x n) outer (n + 1)).trans ?_
    rw [flat.frameAfter, Skeleton.resolve, List.append_assoc, Skeleton.declarators,
      List.length_cons, List.length_append, ih (ρ.bind x n) outer,
      show n + (init.declarators.length + o.declarators.length + 1)
        = n + 1 + init.declarators.length + o.declarators.length by omega]
    rfl

end Spelt

/-- **A skeleton is read off pieces**: the names that are used, the variables
and parameters, and what the names refer to if variables are visible from where
their names are written. -/
structure Reads (ps : List Piece) (o : Skeleton Unit) : Prop where
  used : Piece.used ps = o.uses.map (·.1)
  declarators : Piece.declarators ps = o.declarators
  resolve : ∀ ρ n, Piece.resolve ρ [] n ps = o.resolve .declarator ρ n

/-- **What is spelt is read.** -/
theorem Spelt.reads {ps : List Piece} {o : Skeleton Unit} (h : Spelt ps o []) : Reads ps o where
  used := h.used_eq.trans (List.append_nil _)
  declarators := h.declarators_eq.trans (List.append_nil _)
  resolve ρ n := (h.resolve_eq ρ [] n).trans (List.append_nil _)

/-- A scope around everything makes no difference. -/
theorem Reads.of_scope {ps : List Piece} {o : Skeleton Unit} (h : Reads ps (.scope o .done)) :
    Reads ps o where
  used := h.used.trans (congrArg (List.map _) (List.append_nil _))
  declarators := h.declarators.trans (List.append_nil _)
  resolve ρ n := (h.resolve ρ n).trans (List.append_nil _)

theorem spelt_params {ps rest : List Piece} {o : Skeleton Unit} (params : List (String × Ty))
    (h : Spelt ps o rest) : Spelt (paramPieces params ++ ps) (.params params o) rest := by
  cases params with
  | nil => exact h
  | cons p params =>
    refine .param ?_
    induction params with
    | nil => exact h
    | cons q params ih => exact .plain (.param ih)

mutual

/-- Nothing is introduced in an expression outside lambdas. -/
theorem Expr.flat (e : Expr) {o : Skeleton Unit} (h : o.Flat) : (e.skeleton o).Flat := by
  cases e with
  | int | float | bool | string | descriptor | absent | name => exact h
  | call callee arguments => exact callee.flat (Expr.flat_skeletons arguments h)
  | tupleType elements | tuple elements | braced _ elements =>
    exact Expr.flat_skeletons elements h
  | unary _ operand => exact operand.flat h
  | binary _ left right => exact left.flat (right.flat h)
  | lambda | block => exact h
termination_by structural e

theorem Expr.flat_skeletons (es : List Expr) {o : Skeleton Unit} (h : o.Flat) :
    (Expr.skeletons es o).Flat := by
  cases es with
  | nil => exact h
  | cons e es => exact e.flat (Expr.flat_skeletons es h)
termination_by structural es

end

mutual

/-- **The pieces of an expression spell its skeleton.** -/
theorem Expr.spelt (e : Expr) {ps rest : List Piece} {o : Skeleton Unit} (h : Spelt ps o rest) :
    Spelt (e.pieces ++ ps) (e.skeleton o) rest := by
  cases e with
  | int | float | bool | descriptor => exact .plain h
  | string => exact .plain (.plain (.plain h))
  | name => exact .use h
  | absent => exact h
  | call callee arguments =>
    simp only [Expr.pieces, List.append_assoc, List.cons_append, List.nil_append]
    exact callee.spelt (.plain (Expr.spelt_listed arguments (.plain h)))
  | tupleType elements | tuple elements =>
    simp only [Expr.pieces, List.append_assoc, List.cons_append, List.nil_append]
    exact .plain (Expr.spelt_listed elements (.plain h))
  | braced _ elements =>
    simp only [Expr.pieces, List.append_assoc, List.cons_append, List.nil_append]
    exact .plain (.plain (Expr.spelt_listed elements (.plain h)))
  | unary _ operand =>
    simp only [Expr.pieces, List.append_assoc, List.cons_append, List.nil_append]
    exact .plain (.plain (operand.spelt (.plain h)))
  | binary _ left right =>
    simp only [Expr.pieces, List.append_assoc, List.cons_append, List.nil_append]
    exact .plain (left.spelt (.plain (.plain (.plain (right.spelt (.plain h))))))
  | lambda _ params _ body =>
    simp only [Expr.pieces, List.append_assoc, List.cons_append, List.nil_append]
    have hbody : Spelt (Stmt.piecesAll 1 body ++ .leave "\x7d" :: ps) (Stmt.skeletons body .done)
        (.leave "\x7d" :: ps) := Stmt.spelt_all 1 body .done
    exact .plain (.plain (.scope (spelt_params params (.plain (.plain (.plain hbody)))) h))
  | block _ body =>
    simp only [Expr.pieces, List.append_assoc, List.cons_append, List.nil_append]
    exact .plain (.plain (.scope (Stmt.spelt_all 1 body .done) h))
termination_by structural e

theorem Expr.spelt_listed (es : List Expr) {ps rest : List Piece} {o : Skeleton Unit}
    (h : Spelt ps o rest) : Spelt (Expr.listed es ++ ps) (Expr.skeletons es o) rest := by
  cases es with
  | nil => exact h
  | cons e es =>
    rw [Expr.listed, List.append_assoc]
    exact e.spelt (Expr.spelt_listedAfter es h)
termination_by structural es

theorem Expr.spelt_listedAfter (es : List Expr) {ps rest : List Piece} {o : Skeleton Unit}
    (h : Spelt ps o rest) : Spelt (Expr.listedAfter es ++ ps) (Expr.skeletons es o) rest := by
  cases es with
  | nil => exact h
  | cons e es =>
    rw [Expr.listedAfter, List.cons_append, List.append_assoc]
    exact .plain (e.spelt (Expr.spelt_listedAfter es h))
termination_by structural es

theorem Stmt.spelt (level : Nat) (s : Stmt) {ps rest : List Piece} {o : Skeleton Unit}
    (h : Spelt ps o rest) : Spelt (s.pieces level ++ ps) (s.skeleton o) rest := by
  have hending : Spelt (ending ++ ps) o rest := .plain (.plain h)
  cases s with
  | define ty x init =>
    simp only [Stmt.pieces, List.append_assoc, List.cons_append]
    exact .plain (.define (init.flat trivial) (.plain (init.spelt .done)) hending)
  | assign target op e =>
    simp only [Stmt.pieces, List.append_assoc, List.cons_append]
    exact .plain (.use (.plain (.plain (.plain (e.spelt hending)))))
  | eval e =>
    simp only [Stmt.pieces, List.append_assoc, List.cons_append]
    exact .plain (e.spelt hending)
  | give e =>
    simp only [Stmt.pieces, List.append_assoc, List.cons_append]
    exact .plain (.plain (e.spelt hending))
  | leave => exact .plain (.plain (.plain h))
  | branch condition yes no =>
    simp only [Stmt.pieces, List.append_assoc, List.cons_append, List.nil_append]
    have hyes {ps : List Piece} :
        Spelt (Stmt.piecesAll (level + 1) yes ++ .plain (margin level) :: ps)
          (Stmt.skeletons yes .done) ps := Stmt.spelt_all (level + 1) yes (.plain .done)
    have hno {ps : List Piece} :
        Spelt (Stmt.piecesAll (level + 1) no ++ .plain (margin level) :: ps)
          (Stmt.skeletons no .done) ps := Stmt.spelt_all (level + 1) no (.plain .done)
    exact .plain (.plain (condition.spelt (.scope (.plain hyes) (.scope hno (.plain h)))))
termination_by structural s

theorem Stmt.spelt_all (level : Nat) (ss : List Stmt) {ps rest : List Piece} {o : Skeleton Unit}
    (h : Spelt ps o rest) : Spelt (Stmt.piecesAll level ss ++ ps) (Stmt.skeletons ss o) rest := by
  cases ss with
  | nil => exact h
  | cons s ss =>
    rw [Stmt.piecesAll, List.append_assoc]
    exact s.spelt level (Stmt.spelt_all level ss h)
termination_by structural ss

end

theorem Expr.reads (e : Expr) : Reads e.pieces (e.skeleton .done) := by
  have h : Spelt (e.pieces ++ []) (e.skeleton .done) [] := e.spelt .done
  rw [List.append_nil] at h
  exact h.reads

theorem Stmt.reads_all (level : Nat) (ss : List Stmt) :
    Reads (Stmt.piecesAll level ss) (Stmt.skeletons ss .done) := by
  have h : Spelt (Stmt.piecesAll level ss ++ []) (Stmt.skeletons ss .done) [] :=
    Stmt.spelt_all level ss .done
  rw [List.append_nil] at h
  exact h.reads

/-- **The skeleton of an item is read off its pieces.** -/
theorem Item.reads (i : Item) : Reads i.pieces i.skeleton := by
  cases i with
  | declareBuiltin | defineBuiltin => exact (Spelt.plain .done).reads
  | declareFunction => exact (Spelt.plain (.plain .done)).reads
  | declareConstant => exact (Spelt.plain (.plain (.plain (.plain (.plain .done))))).reads
  | defineConstant name ty init =>
    exact (Spelt.plain (.plain (.plain (.plain (init.spelt (.plain .done)))))).reads
  | defineFunction s body =>
    refine Reads.of_scope (Spelt.reads ?_)
    have hbody : Spelt (Stmt.piecesAll 1 body ++ [.leave "\x7d"]) (Stmt.skeletons body .done)
        [.leave "\x7d"] := Stmt.spelt_all 1 body .done
    rw [Item.pieces, Item.skeleton, Signature.pieces]
    by_cases hentry : s.isEntry = true
    · rw [if_pos hentry, if_pos hentry]
      exact .plain (.plain (.scope (.plain hbody) .done))
    · rw [if_neg hentry, if_neg hentry]
      simp only [List.append_assoc, List.cons_append, List.nil_append]
      exact .plain (.plain (.plain (.scope (spelt_params s.params (.plain (.plain hbody))) .done)))

end Target

end Stagewise
