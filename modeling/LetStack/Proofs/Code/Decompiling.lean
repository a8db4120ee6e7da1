import LetStack.Code.Compile
import LetStack.Proofs.Text.RoundTrip
import LetStack.Proofs.Tree

/-!
Compiled code determines its program, except that it does not tell a declaration from an assignment.
A decompiler runs the code on a stack of trees in place of values, and accepts exactly what is
compiled.
-/

namespace LetStack

mutual

def Expr.assigning : Expr → Expr
  | .literal value => .literal value
  | .identifier name => .identifier name
  | .declare _ name rhs => .assign name rhs.assigning
  | .assign name rhs => .assign name rhs.assigning
  | .binary left operator right => .binary left.assigning operator right.assigning
  | .function params body => .function params (Expr.assigningAll body)
  | .call callee args => .call callee (Expr.assigningAll args)

def Expr.assigningAll : List Expr → List Expr
  | [] => []
  | first :: rest => first.assigning :: Expr.assigningAll rest

end

def Value.literal? : Value → Option Literal
  | int value => some (.int value)
  | float value => some (.float value)
  | bool value => some (.bool value)
  | pointer _ | bytes _ | closure _ _ _ => none

def Literal.ofBytes? (content : List UInt8) : Option Literal :=
  if encodeUtf8 (bytesText content).toList = content then some (.text (bytesText content)) else none

mutual

/-- Takes the operands of an instruction from the trees that have been rebuilt, the last one first,
and puts its own tree in their place. -/
def Instr.rebuild : Instr → List Expr → Option (List Expr)
  | .pushLiteral value, trees => value.literal?.map (.literal · :: trees)
  | .allocateBytes content, trees => (Literal.ofBytes? content).map (.literal · :: trees)
  | .arithmetic operator, right :: left :: trees => some (.binary left operator right :: trees)
  | .lookup name, trees => some (.identifier name :: trees)
  | .store name, rhs :: trees => some (.assign name rhs :: trees)
  | .makeClosure params body, trees =>
    (rebuildAll params body []).map fun parts => .function params parts.reverse :: trees
  | .call argCount, .identifier callee :: trees =>
    if argCount ≤ trees.length then
      some (.call callee (trees.take argCount).reverse :: trees.drop argCount)
    else none
  | _, _ => none

def rebuildAll : List String → List Instr → List Expr → Option (List Expr)
  | [], [], trees => some trees
  | [], instr :: rest, trees => (instr.rebuild trees).bind (rebuildAll [] rest)
  | param :: params, .store name :: rest, trees =>
    if name = param then rebuildAll params rest trees else none
  | _ :: _, _, _ => none

end

def decompile (code : List Instr) : Option (List Expr) := (rebuildAll [] code []).map List.reverse


@[simp]
theorem Expr.assigningAll_eq_map (parts : List Expr) :
    Expr.assigningAll parts = parts.map Expr.assigning := by
  induction parts with
  | nil => rfl
  | cons first rest ih => rw [assigningAll, ih, List.map_cons]

theorem rebuildAll_stores (params : List String) (code : List Instr) (trees : List Expr) :
    rebuildAll params (params.map .store ++ code) trees = rebuildAll [] code trees := by
  induction params with
  | nil => rfl
  | cons param rest ih => simp only [List.map_cons, List.cons_append, rebuildAll, if_true, ih]

theorem Literal.rebuild_compile (value : Literal) (trees : List Expr) :
    value.compile.rebuild trees = some (.literal value :: trees) := by
  cases value with
  | text content =>
      simp only [compile, Instr.rebuild, ofBytes?, bytesText_encodeUtf8, if_true, Option.map_some]
  | _ => rfl

def Expr.Rebuilds (expr : Expr) : Prop := ∀ (rest : List Instr) (trees : List Expr),
  rebuildAll [] (expr.compile ++ rest) trees = rebuildAll [] rest (expr.assigning :: trees)

theorem rebuildAll_compileAll {parts : List Expr} (each : ∀ part ∈ parts, part.Rebuilds)
    (rest : List Instr) (trees : List Expr) :
    rebuildAll [] (Expr.compileAll parts ++ rest) trees =
      rebuildAll [] rest ((parts.map Expr.assigning).reverse ++ trees) := by
  induction parts generalizing trees with
  | nil => rfl
  | cons first others ih =>
      have later := ih fun part member => each part (List.mem_cons_of_mem _ member)
      rw [Expr.compileAll, List.append_assoc, each first List.mem_cons_self, later, List.map_cons,
        List.reverse_cons, List.append_assoc, List.singleton_append]

theorem Expr.rebuilds (expr : Expr) : expr.Rebuilds := by
  induction expr using Expr.induction with
  | literal value =>
      intro rest trees
      simp only [compile, List.cons_append, List.nil_append, rebuildAll, value.rebuild_compile,
        Option.bind_some, assigning]
  | identifier name => exact fun _ _ => rfl
  | declare kind name rhs ih | assign name rhs ih =>
      intro rest trees
      rw [compile, List.append_assoc, ih]
      rfl
  | binary left operator right ihLeft ihRight =>
      intro rest trees
      rw [compile, List.append_assoc, List.append_assoc, ihLeft, ihRight]
      rfl
  | function params body ih =>
      intro rest trees
      have inside : rebuildAll params (params.map .store ++ compileAll body) [] =
          some (body.map assigning).reverse := by
        have whole := rebuildAll_compileAll ih [] []
        rw [List.append_nil, List.append_nil] at whole
        rw [rebuildAll_stores, whole, rebuildAll]
      simp only [compile, List.cons_append, List.nil_append, rebuildAll, Instr.rebuild, inside,
        Option.map_some, Option.bind_some, List.reverse_reverse, assigning, assigningAll_eq_map]
  | call callee args ih =>
      intro rest trees
      have operands : (args.map assigning).reverse.length = args.length := by simp
      have enough : args.length ≤ ((args.map assigning).reverse ++ trees).length := by simp
      rw [compile, List.append_assoc, rebuildAll_compileAll ih]
      simp only [List.cons_append, List.nil_append, rebuildAll, Instr.rebuild, Option.bind_some,
        if_pos enough, List.take_left' operands, List.drop_left' operands, List.reverse_reverse,
        assigning, assigningAll_eq_map]

theorem decompile_compileAll (program : List Expr) :
    decompile (Expr.compileAll program) = some (program.map Expr.assigning) := by
  have whole := rebuildAll_compileAll (fun part (_ : part ∈ program) => part.rebuilds) [] []
  rw [List.append_nil, List.append_nil] at whole
  rw [decompile, whole, rebuildAll, Option.map_some, List.reverse_reverse]

theorem Instr.code_induction {motive : List Instr → Prop} (nil : motive [])
    (cons : ∀ instr rest, (∀ params body, instr = .makeClosure params body → motive body) →
      motive rest → motive (instr :: rest)) : ∀ code, motive code
  | [] => nil
  | instr :: rest =>
    cons instr rest (fun _ body _ => Instr.code_induction nil cons body)
      (Instr.code_induction nil cons rest)
termination_by code => sizeOf code
decreasing_by
  · rename_i made
    subst made
    simp only [List.cons.sizeOf_spec, Instr.makeClosure.sizeOf_spec]
    omega
  · simp only [List.cons.sizeOf_spec]
    omega

def Expr.Plain (expr : Expr) : Prop := expr.assigning = expr

theorem plain_nil : ∀ tree ∈ ([] : List Expr), tree.Plain := nofun

theorem map_assigning_of_plain {parts : List Expr} (plain : ∀ part ∈ parts, part.Plain) :
    parts.map Expr.assigning = parts := (List.map_congr_left plain).trans (List.map_id parts)

theorem compileAll_reverse_cons (last : Expr) (trees : List Expr) :
    Expr.compileAll (last :: trees).reverse = Expr.compileAll trees.reverse ++ last.compile := by
  rw [List.reverse_cons, Expr.compileAll_append, Expr.compileAll, Expr.compileAll, List.append_nil]

theorem Value.compile_of_literal? {value : Value} {literal : Literal}
    (found : value.literal? = some literal) : literal.compile = .pushLiteral value := by
  cases value <;> cases found <;> rfl

theorem Literal.compile_of_ofBytes? {content : List UInt8} {literal : Literal}
    (found : ofBytes? content = some literal) : literal.compile = .allocateBytes content := by
  unfold ofBytes? at found
  split at found
  · rename_i encoded
    cases found
    rw [compile, encoded]
  · cases found

theorem Instr.rebuild_call {argCount : Nat} {trees after : List Expr}
    (rebuilt : (call argCount).rebuild trees = some after) : ∃ callee args below,
      trees = .identifier callee :: (args.reverse ++ below) ∧ args.length = argCount ∧
        after = .call callee args :: below := by
  cases trees with
  | nil => cases rebuilt
  | cons top below =>
      cases top with
      | identifier callee =>
          simp only [rebuild] at rebuilt
          split at rebuilt
          · rename_i enough
            refine ⟨callee, (below.take argCount).reverse, below.drop argCount, ?_, ?_, ?_⟩
            · rw [List.reverse_reverse, List.take_append_drop]
            · rw [List.length_reverse, List.length_take, Nat.min_eq_left enough]
            · exact (Option.some.inj rebuilt).symm
          · cases rebuilt
      | _ => cases rebuilt

theorem Instr.compileAll_of_rebuild {instr : Instr} {trees after : List Expr}
    (bodies : ∀ params body parts, instr = .makeClosure params body →
      rebuildAll params body [] = some parts →
      params.map .store ++ Expr.compileAll parts.reverse = body ∧ ∀ part ∈ parts, part.Plain)
    (plain : ∀ tree ∈ trees, tree.Plain) (rebuilt : instr.rebuild trees = some after) :
    Expr.compileAll after.reverse = Expr.compileAll trees.reverse ++ [instr] ∧
      ∀ tree ∈ after, tree.Plain := by
  cases instr with
  | pushLiteral value =>
      obtain ⟨literal, found, rfl⟩ := Option.map_eq_some_iff.1 rebuilt
      rw [compileAll_reverse_cons, Expr.compile, Value.compile_of_literal? found]
      exact ⟨rfl, List.forall_mem_cons.2 ⟨rfl, plain⟩⟩
  | allocateBytes content =>
      obtain ⟨literal, found, rfl⟩ := Option.map_eq_some_iff.1 rebuilt
      rw [compileAll_reverse_cons, Expr.compile, Literal.compile_of_ofBytes? found]
      exact ⟨rfl, List.forall_mem_cons.2 ⟨rfl, plain⟩⟩
  | arithmetic operator =>
      match trees with
      | [] | [_] => cases rebuilt
      | right :: left :: trees =>
          cases rebuilt
          obtain ⟨plainRight, plainLeft, plain⟩ := by simpa only [List.forall_mem_cons] using plain
          refine ⟨?_, List.forall_mem_cons.2 ⟨?_, plain⟩⟩
          · simp only [compileAll_reverse_cons, Expr.compile, List.append_assoc]
          · rw [Expr.Plain, Expr.assigning, plainRight, plainLeft]
  | lookup name =>
      cases rebuilt
      rw [compileAll_reverse_cons, Expr.compile]
      exact ⟨rfl, List.forall_mem_cons.2 ⟨rfl, plain⟩⟩
  | store name =>
      match trees with
      | [] => cases rebuilt
      | rhs :: trees =>
          cases rebuilt
          obtain ⟨plainRhs, plain⟩ := List.forall_mem_cons.1 plain
          refine ⟨?_, List.forall_mem_cons.2 ⟨?_, plain⟩⟩
          · simp only [compileAll_reverse_cons, Expr.compile, List.append_assoc]
          · rw [Expr.Plain, Expr.assigning, plainRhs]
  | makeClosure params body =>
      obtain ⟨parts, inside, rfl⟩ := Option.map_eq_some_iff.1 rebuilt
      obtain ⟨whole, plainParts⟩ := bodies params body parts rfl inside
      refine ⟨?_, List.forall_mem_cons.2 ⟨?_, plain⟩⟩
      · rw [compileAll_reverse_cons, Expr.compile, whole]
      · rw [Expr.Plain, Expr.assigning, Expr.assigningAll_eq_map, List.map_reverse,
          map_assigning_of_plain plainParts]
  | call argCount =>
      obtain ⟨callee, args, below, rfl, rfl, rfl⟩ := rebuild_call rebuilt
      obtain ⟨_, plain⟩ := List.forall_mem_cons.1 plain
      obtain ⟨plainArgs, plain⟩ := List.forall_mem_append.1 plain
      refine ⟨?_, List.forall_mem_cons.2 ⟨?_, plain⟩⟩
      · simp only [compileAll_reverse_cons, List.reverse_append, List.reverse_reverse,
          Expr.compileAll_append, Expr.compile, List.append_assoc, List.cons_append,
          List.nil_append]
      · rw [Expr.Plain, Expr.assigning, Expr.assigningAll_eq_map, map_assigning_of_plain]
        exact fun arg member => plainArgs arg (List.mem_reverse.2 member)

theorem rebuildAll_some (code : List Instr) : ∀ {params : List String} {trees after : List Expr},
    (∀ tree ∈ trees, tree.Plain) → rebuildAll params code trees = some after →
    (∀ tree ∈ after, tree.Plain) ∧ ∃ later, params.map .store ++ later = code ∧
      Expr.compileAll after.reverse = Expr.compileAll trees.reverse ++ later := by
  induction code using Instr.code_induction with
  | nil =>
      intro params trees after plain rebuilt
      cases params with
      | nil =>
          cases rebuilt
          exact ⟨plain, [], rfl, (List.append_nil _).symm⟩
      | cons param params => cases rebuilt
  | cons instr rest ihBody ihRest =>
      intro params trees after plain rebuilt
      cases params with
      | nil =>
          obtain ⟨middle, first, later⟩ := Option.bind_eq_some_iff.1 rebuilt
          have bodies : ∀ params body parts, instr = .makeClosure params body →
              rebuildAll params body [] = some parts →
              params.map .store ++ Expr.compileAll parts.reverse = body ∧
                ∀ part ∈ parts, part.Plain := by
            intro params body parts made inside
            obtain ⟨plainParts, own, rfl, same⟩ := ihBody params body made plain_nil inside
            exact ⟨congrArg (params.map .store ++ ·) same, plainParts⟩
          obtain ⟨step, plainMiddle⟩ := Instr.compileAll_of_rebuild bodies plain first
          obtain ⟨plainAfter, others, rfl, same⟩ := ihRest plainMiddle later
          refine ⟨plainAfter, instr :: others, rfl, ?_⟩
          rw [same, step, List.append_assoc, List.singleton_append]
      | cons param params =>
          cases instr with
          | store name =>
              simp only [rebuildAll] at rebuilt
              split at rebuilt
              · rename_i same
                subst same
                obtain ⟨plainAfter, later, rfl, whole⟩ := ihRest plain rebuilt
                exact ⟨plainAfter, later, rfl, whole⟩
              · cases rebuilt
          | _ => cases rebuilt

theorem decompile_eq_some_iff {code : List Instr} {program : List Expr} :
    decompile code = some program ↔
      Expr.compileAll program = code ∧ program.map Expr.assigning = program := by
  constructor
  · intro found
    obtain ⟨trees, rebuilt, rfl⟩ := Option.map_eq_some_iff.1 found
    obtain ⟨plain, later, rfl, same⟩ := rebuildAll_some code plain_nil rebuilt
    exact ⟨same, map_assigning_of_plain fun part member => plain part (List.mem_reverse.1 member)⟩
  · rintro ⟨rfl, plain⟩
    rw [decompile_compileAll, plain]

theorem compileAll_map_assigning (program : List Expr) :
    Expr.compileAll (program.map Expr.assigning) = Expr.compileAll program :=
  (decompile_eq_some_iff.1 (decompile_compileAll program)).1

/-- Two programs compile to the same code if and only if they are the same with every binding written
as an assignment. The decompiler finds that program, and finds none where nothing was compiled. -/
theorem code_determines_program (first second : List Expr) :
    decompile (Expr.compileAll first) = some (first.map Expr.assigning) ∧
    (Expr.compileAll first = Expr.compileAll second ↔
      first.map Expr.assigning = second.map Expr.assigning) ∧
    ∀ code program, decompile code = some program ↔
      Expr.compileAll program = code ∧ program.map Expr.assigning = program := by
  refine ⟨decompile_compileAll first, ?_, fun _ _ => decompile_eq_some_iff⟩
  constructor
  · intro same
    have found := decompile_compileAll first
    rw [same, decompile_compileAll second] at found
    exact (Option.some.inj found).symm
  · intro same
    rw [← compileAll_map_assigning first, same, compileAll_map_assigning]

-- The first store is of the parameter, the second one is in the body.
example : decompile [.makeClosure ["x"] [.store "x", .lookup "x", .store "x"], .store "f"] =
    some [.assign "f" (.function ["x"] [.assign "x" (.identifier "x")])] := rfl

end LetStack
