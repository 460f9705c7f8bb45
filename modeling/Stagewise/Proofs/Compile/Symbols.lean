import Stagewise.Proofs.Compile.Emission
import Stagewise.Proofs.Target.Pieces

/-!
# Symbols

The target knows a declaration by a symbol. It is the name of the declaration,
except for the entry point, which is known as `main`. But names are lowered as
they are. So where the entry point has another name and is referred to, the
target is told of a name that nothing was declared by, and it is told twice of
`main` if there is a declaration of that name (`rally_symbols`).

This is all that can go wrong. Each declaration is declared and defined by its
symbol, and by no other. Two declarations share a symbol only if one is an entry
point of another name and the other is named `main`, and a reference is by the
symbol of what it refers to unless that is an entry point of another name
(`emitted_symbols`).
-/

namespace Stagewise

open Analysis

variable {β : Type} {m : Source.Module} {options : Options} {d d' : Declaration} {subject : Subject}
  {item : Target.Item} {o : Skeleton (Option Binding)} {x y : String}

/-! ## The symbols of declarations -/

namespace Declaration

/-- Whether the program starts at a declaration. -/
def isEntry (options : Options) (d : Declaration) : Bool :=
  d.isFunction && d.name = options.entryPoint

/-- **The symbol of a declaration.** -/
def symbol (options : Options) (d : Declaration) : String :=
  if d.isEntry options then "main" else d.name

/-- **A declaration is renamed**: it is an entry point of another name. -/
def Renamed (options : Options) (d : Declaration) : Prop :=
  d.isEntry options = true ∧ d.name ≠ "main"

/-- An entry point has the name that was asked for. -/
theorem name_of_isEntry (h : d.isEntry options = true) : d.name = options.entryPoint :=
  of_decide_eq_true (Bool.and_eq_true_iff.mp h).2

/-- A name is the symbol unless the declaration is renamed. -/
theorem name_eq_symbol_iff : d.name = d.symbol options ↔ ¬d.Renamed options := by
  unfold symbol Renamed
  split <;> simp [*]

/-- **A symbol is shared** by a declaration that is renamed and the one that is
named `main`. -/
theorem symbol_eq_symbol_iff (hne : d.name ≠ d'.name) :
    d.symbol options = d'.symbol options ↔
      d.Renamed options ∧ d'.name = "main" ∨ d'.Renamed options ∧ d.name = "main" := by
  have hone : ¬(d.isEntry options = true ∧ d'.isEntry options = true) := fun ⟨h, h'⟩ =>
    hne ((name_of_isEntry h).trans (name_of_isEntry h').symm)
  unfold symbol Renamed
  by_cases h : d.isEntry options = true <;> by_cases h' : d'.isEntry options = true
  · exact absurd ⟨h, h'⟩ hone
  · grind
  · grind
  · grind

end Declaration

/-!
## Symbols in texts

A text introduces a symbol in few ways: a prototype, a declaration without an
initializer, a definition with a body or one with an initializer. That every
item is printed in one of these is seen from the printer, case by case. It is
the symbol of the item that stands there, and it is computed from the
declaration once, when the item is made.
-/

namespace Target

/-- **A text introduces a symbol**, for some kind of request: it has the symbol
after a type, and then a list of parameters, an initializer, or nothing more. -/
inductive Introduces (symbol : String) : Request → String → Prop where
  | prototype (ty : Ty) (params : String) :
    Introduces symbol .declare (ty.spelling ++ " " ++ symbol ++ "(" ++ params ++ ");")
  | global (qualifier : String) (ty : Ty) (allowed : qualifier = "" ∨ qualifier = "const ") :
    Introduces symbol .declare ("extern " ++ qualifier ++ ty.spelling ++ " " ++ symbol ++ ";")
  | function (ty : Ty) (params body : String) :
    Introduces symbol .define
      (ty.spelling ++ " " ++ symbol ++ "(" ++ params ++ ") \x7b\n" ++ body ++ "\x7d")
  | initialized (qualifier : String) (ty : Ty) (init : String)
    (allowed : qualifier = "" ∨ qualifier = "const ") :
    Introduces symbol .define (qualifier ++ ty.spelling ++ " " ++ symbol ++ " = " ++ init ++ ";")

/-- The kind of request that an item is for. -/
def Item.request : Item → Request
  | .declareBuiltin _ | .declareFunction _ | .declareConstant _ _ => .declare
  | .defineBuiltin _ | .defineFunction _ _ | .defineConstant _ _ _ => .define

/-- A header has the symbol between a type and the parameters. -/
theorem Signature.header_eq (s : Signature) : ∃ (ty : Ty) (params : String),
    s.header = ty.spelling ++ " " ++ s.symbol ++ "(" ++ params ++ ")" := by
  unfold Signature.header
  split
  · exact ⟨.int, "", by simp [Ty.spelling, String.append_assoc]⟩
  · exact ⟨s.result, paramsText s.params, rfl⟩

/-- The built-ins that name types are declared and defined alike, and the
constructors each in its own words. -/
theorem introduces_builtin (b : Builtin) :
    Introduces b.name .declare b.declaration ∧ Introduces b.name .define b.definition := by
  have halias (x : String) (t : Ty) :
      Introduces x .declare ("extern const ty::Type " ++ x ++ ";") ∧
        Introduces x .define ("const ty::Type " ++ x ++ " = " ++ t.descriptor ++ ";") :=
    ⟨.global "const " .type (.inr rfl), .initialized "const " .type t.descriptor (.inr rfl)⟩
  cases b with
  | type => exact halias "Type" .type
  | int => exact halias "Int" .int
  | float => exact halias "Float" .float
  | bool => exact halias "Bool" .bool
  | string => exact halias "String" .string
  | nil => exact halias "Nil" .nil
  | expression => exact halias "Expression" .expression
  | list =>
    exact ⟨.prototype .type "ty::Type element", .function .type "ty::Type element"
      "    return box(ty::ListType\x7b .element = element \x7d);\n"⟩
  | fn =>
    exact ⟨.prototype .type "ty::Type argument, ty::Type returnType",
      .function .type "ty::Type argument, ty::Type returnType"
        "    return box(ty::FnType\x7b .argument = argument, .returnType = returnType \x7d);\n"⟩

/-- **The text of an item introduces its symbol.** -/
theorem Item.introduces (i : Item) : Introduces i.symbol i.request i.text := by
  cases i with
  | declareBuiltin b => exact (introduces_builtin b).1
  | defineBuiltin b => exact (introduces_builtin b).2
  | declareFunction s =>
    obtain ⟨ty, params, hheader⟩ := s.header_eq
    have htext : (Item.declareFunction s).text
        = ty.spelling ++ " " ++ s.symbol ++ "(" ++ params ++ ");" := by
      rw [Item.text, hheader, String.append_assoc]
      rfl
    exact htext ▸ .prototype ty params
  | defineFunction s body =>
    obtain ⟨ty, params, hheader⟩ := s.header_eq
    have htext : (Item.defineFunction s body).text = ty.spelling ++ " " ++ s.symbol ++ "(" ++ params
        ++ ") \x7b\n" ++ Stmt.texts 1 body ++ "\x7d" := by
      rw [Item.text, hheader]
      exact congrArg (· ++ Stmt.texts 1 body ++ "\x7d") String.append_assoc
    exact htext ▸ .function ty params (Stmt.texts 1 body)
  | declareConstant name ty => exact .global "" ty (.inl rfl)
  | defineConstant name ty init =>
    have htext : (Item.defineConstant name ty init).text
        = "" ++ ty.spelling ++ " " ++ name ++ " = " ++ init.text ++ ";" := by
      rw [Item.text, String.empty_append]
    exact htext ▸ .initialized "" ty init.text (.inl rfl)

end Target

namespace Analysis

/-- **An item has the symbol of the declaration that it tells of**, and is for
the kind of request that it is sent by. -/
theorem Emits.symbol_eq {kind : Request} (h : Emits options d kind subject item) :
    item.symbol = d.symbol options ∧ item.request = kind := by
  cases h with
  | declare declares =>
    cases declares with
    | builtin b => exact ⟨rfl, rfl⟩
    | constant c ty => exact ⟨rfl, rfl⟩
    | function f params result =>
      refine ⟨?_, rfl⟩
      unfold Declaration.symbol Declaration.isEntry
      rfl
  | define defines =>
    cases defines with
    | builtin b => exact ⟨rfl, rfl⟩
    | computed c ty body => exact ⟨rfl, rfl⟩
    | known c ty v => exact ⟨rfl, rfl⟩
    | function f params result body entry =>
      unfold Target.Item.function
      split <;> exact ⟨rfl, rfl⟩

end Analysis

/-! ## The names in a request -/

/-- **A text is put together from the pieces of a tree**, and some names are
used in it, in order. -/
inductive Spells : String → List String → Prop where
  | item (i : Target.Item) : Spells (Target.Piece.textOf i.pieces) (Target.Piece.used i.pieces)
  | expr (e : Target.Expr) : Spells (Target.Piece.textOf e.pieces) (Target.Piece.used e.pieces)

/-- The names in an item are written in its text, in order. -/
theorem Spells.of_item (i : Target.Item) : Spells i.text (i.skeleton.uses.map (·.1)) :=
  i.text_eq ▸ i.reads.used ▸ .item i

/-- So are those in an expression. -/
theorem Spells.of_expr (e : Target.Expr) : Spells e.text ((e.skeleton .done).uses.map (·.1)) :=
  e.text_eq ▸ e.reads.used ▸ .expr e

/-- **The names that are used in what a request is made from**, with what they
refer to. -/
inductive Uses : Subject → List (String × Option Binding) → Prop where
  | builtin (b : Builtin) : Uses (.builtin b) []
  | literal (x : String) (v : Value) : Uses (.literal x v) []
  | body (x : String) (b : Term.Block) : Uses (.body x b) b.skeleton.uses
  | term (t : Term) : Uses (.term t) (t.skeleton .done).uses
  | expansion (x : String) (binding : Binding) : Uses (.expansion binding) [(x, some binding)]

/-- A definition uses the names in what it is made from. -/
theorem Analysis.Defines.uses (h : Defines options d subject item o) : Uses subject o.uses := by
  cases h with
  | builtin b => exact .builtin b
  | known c ty v => exact .literal _ v
  | computed c ty body => exact body.uses_valueSkeleton ▸ .body _ body
  | function f params result body entry =>
    rw [Skeleton.uses_params]
    exact .body _ body

theorem Skeleton.map_uses_plain {α : Type} (o : Skeleton α) :
    o.plain.uses.map (·.1) = o.uses.map (·.1) := by
  simp

/-- At the top level a name refers to the declaration of that name. -/
theorem Env.eq_of_topLevel {names : List String} (h : Env.topLevel names x = some (.global y)) :
    x = y ∧ y ∈ names := by
  unfold Env.topLevel at h
  split at h
  · cases h
    exact ⟨rfl, ‹_›⟩
  · cases h

/-- **The names in a sourced request** are the names in what it is made from.
One that refers to a declaration is the name of that declaration. -/
theorem Analysis.Sourced.exists_uses {ctx : Context β} {e : Exchange} (h : Sourced ctx e)
    (hkind : e.kind ≠ .declare) :
    ∃ uses, Uses e.subject uses ∧ Spells e.text (uses.map (·.1)) ∧
      ∀ x y, (x, some (.global y)) ∈ uses → x = y ∧ y ∈ ctx.declarations.names := by
  cases h with
  | declare entry declares => exact absurd rfl hkind
  | @define d subject item o accepted entry defines bound =>
    refine ⟨o.uses, defines.uses, ?_, fun x y hx => Env.eq_of_topLevel (bound.eq_of_global hx)⟩
    rw [← o.map_uses_plain, ← defines.skeleton_item]
    exact .of_item item
  | @evaluate t c accepted faithful bound =>
    refine ⟨(t.skeleton .done).uses, .term t, ?_, fun x y hx => ?_⟩
    · rw [← Skeleton.map_uses_plain, ← t.skeleton_lower]
      exact .of_expr t.lower
    · obtain ⟨rfl, hy⟩ := faithful.eq_of_resolve (bound.eq_of_global hx)
      exact ⟨rfl, hy⟩
  | @expand i expected binding accepted known =>
    refine ⟨[(i.expander.text, some binding)], .expansion _ binding,
      .of_expr (.call (.name i.expander.text) [.string i.text, .descriptor expected]), ?_⟩
    intro x y hx
    cases List.mem_singleton.mp hx
    obtain ⟨rfl, hy⟩ := known y rfl
    exact ⟨rfl, hy⟩

/-! ## Whole compilations -/

/-- **Symbols are consistent unless the entry point is renamed.** When a
compilation succeeds, every declaration has been declared and defined, both by
its symbol, which the text introduces. Two declarations have the same symbol
exactly if one of them is renamed and the other is named `main`. In the text of
what is defined and evaluated, the names are those of what it is made from, and
one that refers to a declaration is its symbol exactly if the declaration is not
renamed.

Headers are the only place where a symbol is written instead of a name.
References are written as they are in the source, and so they miss the symbol of
a declaration that has another. -/
theorem emitted_symbols (m : Source.Module) (backend : Backend β) (b : β) (options : Options)
    (c : Compiled) (hc : (compileWith m backend b options).result = .ok c) :
    (∀ d ∈ Declarations.entriesOf m,
      history (compileWith m backend b options).transcript d.name = [.declare, .define]) ∧
    (∀ e ∈ (compileWith m backend b options).transcript, e.kind ≠ .evaluate →
      ∃ d ∈ Declarations.entriesOf m, e.subject.declaration? = some d.name ∧
        Target.Introduces (d.symbol options) e.kind e.text ∧
        ∃ item : Target.Item, Emits options d e.kind e.subject item ∧ e.text = item.text ∧
          item.symbol = d.symbol options) ∧
    (∀ d ∈ Declarations.entriesOf m, ∀ d' ∈ Declarations.entriesOf m, d ≠ d' →
      (d.symbol options = d'.symbol options ↔
        d.Renamed options ∧ d'.name = "main" ∨ d'.Renamed options ∧ d.name = "main")) ∧
    ∀ e ∈ (compileWith m backend b options).transcript, e.kind ≠ .declare →
      ∃ uses, Uses e.subject uses ∧ Spells e.text (uses.map (·.1)) ∧
        ∀ x y, (x, some (.global y)) ∈ uses →
          ∃ d ∈ Declarations.entriesOf m, d.name = y ∧
            (x = d.symbol options ↔ ¬d.Renamed options) := by
  obtain ⟨p⟩ := Compile.nonempty_plan_of_ok hc
  obtain ⟨sound, -, -, hperm, htranscript, -⟩ := (p.finishes backend b options).of_result_eq_ok hc
  have hsourced := p.sourced backend b options
  rw [← p.entries_eq]
  -- the run has finished, so every declaration is in its last phase and has the history of it
  refine ⟨fun d hd => ?_, fun e he hkind => ?_, fun d hd d' hd' hne => ?_, fun e he hkind => ?_⟩
  · obtain ⟨q, hq⟩ := sound.book.standing d.name
    obtain rfl := hq.defined.mp (hperm.mem_iff.mpr (List.mem_map.mpr ⟨d, hd, rfl⟩))
    exact htranscript ▸ hq.history
  · obtain ⟨d, hd, item, hemits, htext⟩ := (hsourced e he).exists_tellsOf hkind
    obtain ⟨hsymbol, hrequest⟩ := hemits.symbol_eq
    refine ⟨d, hd, hemits.declaration?_eq, ?_, item, hemits, htext, hsymbol⟩
    exact hsymbol ▸ hrequest ▸ htext ▸ item.introduces
  · exact Declaration.symbol_eq_symbol_iff fun heq =>
      hne (List.inj_on_of_nodup_map p.declarations.distinct hd hd' heq)
  · obtain ⟨uses, huses, hspells, hglobal⟩ := (hsourced e he).exists_uses hkind
    refine ⟨uses, huses, hspells, fun x y hx => ?_⟩
    obtain ⟨rfl, hname⟩ := hglobal x y hx
    obtain ⟨d, hd, rfl⟩ := List.mem_map.mp hname
    exact ⟨d, hd, rfl, Declaration.name_eq_symbol_iff⟩

/-- A function that does nothing. -/
def starter : Source.Function where
  span := .nowhere
  name := .unplaced "start"
  params := []
  result := .tuple .nowhere []
  body := .ofExpr (.tuple .nowhere [])

/-- A constant that is named `main`. -/
def namesake : Source.Constant where
  span := .nowhere
  name := .unplaced "main"
  ascription := .var (.unplaced "Int")
  body := .ofExpr (.int .nowhere 1)

/-- An entry point that is called by a constant, and a constant of the name that
it has in the target. -/
def rally : Source.Module :=
  [.function starter,
    .constant
    { span := .nowhere, name := .unplaced "done", ascription := .tuple .nowhere []
      body := .ofExpr (.call .nowhere (.var (.unplaced "start")) []) },
    .constant namesake]

/-- The texts of some kind that were sent about a declaration. -/
def textsAbout (kind : Request) (x : String) (transcript : List Exchange) : List String :=
  (transcript.filter fun e => e.kind = kind ∧ e.subject.declaration? = some x).map (·.text)

/-- **The entry point is called by a name that nothing is declared by**, and the
name that it is declared by is declared twice. -/
theorem rally_symbols :
    let o := compileWith rally (Buffer.backend none) { evaluator := () } { entryPoint := "start" }
    o.result.isOk = true ∧ textsAbout .declare "start" o.transcript = ["int main();"] ∧
      textsAbout .declare "main" o.transcript = ["extern int main;"] ∧
      textsAbout .define "done" o.transcript = ["std::tuple<> done = start();"] := by
  decide +kernel

/-- The entry point and the constant have one symbol, and what is sent about
either of them introduces it. -/
theorem rally_shares_symbol :
    ∃ c, (compileWith rally (Buffer.backend none) { evaluator := () }
        { entryPoint := "start" }).result = .ok c ∧
      (∀ d ∈ Declarations.entriesOf rally,
        history (compileWith rally (Buffer.backend none) { evaluator := () }
          { entryPoint := "start" }).transcript d.name = [.declare, .define]) ∧
      (∀ e ∈ (compileWith rally (Buffer.backend none) { evaluator := () }
          { entryPoint := "start" }).transcript, e.kind ≠ .evaluate →
        ∃ d ∈ Declarations.entriesOf rally,
          Target.Introduces (d.symbol { entryPoint := "start" }) e.kind e.text) ∧
      (Declaration.source (.function starter)).symbol { entryPoint := "start" }
        = (Declaration.source (.constant namesake)).symbol { entryPoint := "start" } := by
  have hok : (compileWith rally (Buffer.backend none) { evaluator := () }
      { entryPoint := "start" }).result.isOk = true := by decide +kernel
  cases hc : (compileWith rally (Buffer.backend none) { evaluator := () }
      { entryPoint := "start" }).result with
  | error failure =>
    rw [hc] at hok
    cases hok
  | ok c =>
    obtain ⟨hall, hintroduces, hshared, -⟩ :=
      emitted_symbols rally (Buffer.backend none) { evaluator := () } { entryPoint := "start" } c hc
    refine ⟨c, rfl, hall, fun e he hkind => ?_,
      (hshared _ ?_ _ ?_ (fun h => by cases h)).mpr (.inl ?_)⟩
    · obtain ⟨d, hd, -, hintroduces, -⟩ := hintroduces e he hkind
      exact ⟨d, hd, hintroduces⟩
    · exact List.mem_append_right _ (List.mem_map_of_mem List.mem_cons_self)
    · exact List.mem_append_right _ (List.mem_map_of_mem (by simp [rally]))
    · exact ⟨⟨rfl, by decide⟩, rfl⟩

end Stagewise
