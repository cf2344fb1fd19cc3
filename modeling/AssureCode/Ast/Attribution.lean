import AssureCode.Ast.Model

/-! # Each decision is attributed once

Both passes enter the same paths in the same order. The first one adds each decision to the module
and to the nearest function above it, the second one reads back what each function got.
-/

namespace AssureCode.Ast

open Js Walk

variable {babel : Babel} {path : NodePath} {paths : List NodePath} {c : Counted} {q : List ℕ}

/-- The decisions below a node, without those in the functions below it. -/
def Node.decisions (node : Node) : ℕ := node.inner isFunctionType decisionCountFor

/-- The decisions of a module outside any function. -/
def topLevelDecisions (ast : Node) : ℕ := ast.outer isFunctionType decisionCountFor

/-- What is reported of a function, given its complexity. -/
def complexityOf (path : NodePath) (cyclomaticComplexity : ℕ) : FunctionComplexity :=
  ⟨functionName path, path.node.label.line.getD 0, cyclomaticComplexity⟩

/-! ## The first pass -/

/-- The decisions attributed to a function. -/
def Counted.decisions (c : Counted) (q : List ℕ) : ℕ := (c.decisionsByFunction q).getD 0

theorem decisions_attribute (fn : List ℕ) (n : ℕ) :
    (c.attribute fn n).decisions q = c.decisions q + if fn = q then n else 0 := by
  simp only [Counted.decisions, Counted.attribute]
  by_cases h : fn = q
  · subst h
    rw [if_pos rfl, Function.update_self]
    rfl
  · rw [if_neg h, Function.update_of_ne (Ne.symm h)]
    rfl

theorem addFunction_spec (c : Counted) (path : NodePath) (q : List ℕ) :
    (c.addFunction path).moduleDecisions = c.moduleDecisions ∧
    (c.addFunction path).functions =
      c.functions ++ (if isFunctionType path.node then [complexityOf path 0] else []) ∧
    (c.addFunction path).decisions q = c.decisions q := by
  rw [Counted.addFunction]
  split_ifs
  · refine ⟨rfl, rfl, ?_⟩
    have h := @decisions_attribute c q path.place 0
    rwa [ite_self] at h
  · exact ⟨rfl, (List.append_nil _).symm, rfl⟩

theorem addDecisions_spec (c : Counted) (path : NodePath) (q : List ℕ) :
    (c.addDecisions babel path).moduleDecisions =
      c.moduleDecisions + decisionCountFor path.node ∧
    (c.addDecisions babel path).functions = c.functions ∧
    (c.addDecisions babel path).decisions q = c.decisions q +
      if babel.getFunctionParent path = some q then decisionCountFor path.node else 0 := by
  by_cases hnone : decisionCountFor path.node = 0
  · simp [Counted.addDecisions, hnone]
  · simp only [Counted.addDecisions, if_neg hnone]
    cases babel.getFunctionParent path with
    | none => exact ⟨rfl, rfl, rfl⟩
    | some fn =>
      refine ⟨rfl, rfl, (decisions_attribute fn _).trans ?_⟩
      simp only [Option.some_inj]
      rfl

theorem count_spec (c : Counted) (path : NodePath) (q : List ℕ) :
    (count babel c path).moduleDecisions = c.moduleDecisions + decisionCountFor path.node ∧
    (count babel c path).functions =
      c.functions ++ (if isFunctionType path.node then [complexityOf path 0] else []) ∧
    (count babel c path).decisions q = c.decisions q +
      if babel.getFunctionParent path = some q then decisionCountFor path.node else 0 := by
  obtain ⟨hmodule, hfunctions, hdecisions⟩ := addFunction_spec c path q
  obtain ⟨hmodule', hfunctions', hdecisions'⟩ :=
    @addDecisions_spec babel (c.addFunction path) path q
  exact ⟨hmodule'.trans (by rw [hmodule]), hfunctions'.trans hfunctions,
    hdecisions'.trans (by rw [hdecisions])⟩

theorem foldl_count (c : Counted) (paths : List NodePath) :
    (paths.foldl (count babel) c).moduleDecisions =
      c.moduleDecisions + (paths.map (decisionCountFor ·.node)).sum ∧
    (paths.foldl (count babel) c).functions =
      c.functions ++ (paths.filter (isFunctionType ·.node)).map (complexityOf · 0) ∧
    (paths.foldl (count babel) c).decisions q = c.decisions q +
      tally (fun node => babel.isFunction (Node.kind node)) decisionCountFor paths (some q) := by
  induction paths generalizing c with
  | nil => simp
  | cons path paths ih =>
    obtain ⟨hmodule, hfunctions, hdecisions⟩ := @count_spec babel c path q
    obtain ⟨ihmodule, ihfunctions, ihdecisions⟩ := ih (count babel c path)
    rw [List.foldl_cons, ihmodule, ihfunctions, ihdecisions, hmodule, hfunctions, hdecisions,
      tally_cons]
    refine ⟨?_, ?_, ?_⟩
    · simp [add_assoc]
    · rw [List.filter_cons]
      split_ifs <;> simp
    · rw [add_assoc]
      rfl

/-! ## The second pass -/

theorem modify_length (f : FunctionComplexity → FunctionComplexity) (a : FunctionComplexity)
    (done rest : List FunctionComplexity) :
    (done ++ a :: rest).modify done.length f = done ++ f a :: rest := by
  rw [List.modify_eq_take_drop, List.take_left, List.drop_left]
  rfl

theorem foldl_fill (d : List ℕ → Option ℕ) (done : List FunctionComplexity)
    (paths : List NodePath) :
    (paths.foldl (fill d)
      (done ++ (paths.filter (isFunctionType ·.node)).map (complexityOf · 0), done.length)).1 =
      done ++ (paths.filter (isFunctionType ·.node)).map fun path =>
        complexityOf path ((d path.place).getD 0 + 1) := by
  induction paths generalizing done with
  | nil => rfl
  | cons path paths ih =>
    rw [List.foldl_cons, List.filter_cons, fill]
    by_cases h : isFunctionType path.node = true
    · rw [if_pos h, if_pos h, List.map_cons, List.map_cons]
      simp only [modify_length]
      have hstep := ih (done ++ [complexityOf path ((d path.place).getD 0 + 1)])
      rw [List.length_append, List.length_singleton, List.append_assoc, List.append_assoc] at hstep
      exact hstep
    · rw [if_neg h, if_neg h]
      exact ih done

/-! ## Both passes -/

theorem tally_paths (h : babel.Documented) {ast : Node} (hpath : path ∈ babel.traverse ast)
    (hfunction : isFunctionType path.node = true) :
    tally (fun node => babel.isFunction (Node.kind node)) decisionCountFor (babel.traverse ast)
      (some path.place) = Node.decisions path.node := by
  have hscope : (fun node => babel.isFunction (Node.kind node)) = isFunctionType :=
    funext fun node => h.isFunction _
  rw [hscope, tally_perm (h.enters ast)]
  exact Branch.tally_visits ((h.enters ast).mem_iff.mp hpath) hfunction

/-- The functions that are reported, each with its own complexity. -/
theorem functions_analyzeAST (h : babel.Documented) {code : Text} {ast : Node}
    (hparse : babel.parse code = .ok ast) :
    (analyzeAST babel code).functions =
      ((babel.traverse ast).filter (isFunctionType ·.node)).map fun path =>
        complexityOf path (Node.decisions path.node + 1) := by
  simp only [analyzeAST, hparse]
  obtain ⟨-, hfunctions, -⟩ := @foldl_count babel [] {} (babel.traverse ast)
  rw [hfunctions]
  refine (foldl_fill _ [] _).trans (List.map_congr_left fun path hmem => ?_)
  obtain ⟨hpath, hfunction⟩ := List.mem_filter.mp hmem
  obtain ⟨-, -, hdecisions⟩ := @foldl_count babel path.place {} (babel.traverse ast)
  rw [tally_paths h hpath hfunction] at hdecisions
  exact congrArg (complexityOf path) (congrArg (· + 1) (hdecisions.trans (Nat.zero_add _)))

theorem cyclomaticComplexity_analyzeAST (h : babel.Documented) {code : Text} {ast : Node}
    (hparse : babel.parse code = .ok ast) :
    (analyzeAST babel code).cyclomaticComplexity =
      (ast.visits.map (decisionCountFor ·.node)).sum + 1 := by
  simp only [analyzeAST, hparse]
  obtain ⟨hmodule, -, -⟩ := @foldl_count babel [] {} (babel.traverse ast)
  rw [hmodule, ((h.enters ast).map _).sum_eq]
  exact congrArg (· + 1) (Nat.zero_add _)

/--
The complexity of a module counts what its functions have, each less one, and what is outside any
function, and so each decision once. A function is reported with the complexity that is its own.
-/
theorem analyzeAST_attributes (h : babel.Documented) {code : Text} {ast : Node}
    (hparse : babel.parse code = .ok ast) :
    (analyzeAST babel code).cyclomaticComplexity =
      (ast.visits.map (decisionCountFor ·.node)).sum + 1 ∧
    (analyzeAST babel code).cyclomaticComplexity =
      ((analyzeAST babel code).functions.map (·.cyclomaticComplexity - 1)).sum +
        topLevelDecisions ast + 1 ∧
    (analyzeAST babel code).functions =
      ((babel.traverse ast).filter (isFunctionType ·.node)).map fun path =>
        complexityOf path (Node.decisions path.node + 1) := by
  have hall := cyclomaticComplexity_analyzeAST h hparse
  have hfunctions := functions_analyzeAST h hparse
  refine ⟨hall, hall.trans ?_, hfunctions⟩
  have hsum : ((analyzeAST babel code).functions.map (·.cyclomaticComplexity - 1)).sum =
      ((ast.visits.filter (isFunctionType ·.node)).map (Node.decisions ·.node)).sum := by
    rw [hfunctions, List.map_map]
    exact (((h.enters ast).filter _).map _).sum_eq
  rw [hsum]
  exact congrArg (· + 1) (Branch.sum_visits ast)

def sampleLabel (field : Field) (kind : Kind) (line : ℕ) : Label := ⟨field, kind, some line⟩

/-- A branch in a function with a ternary in the callback that it passes on, and one after it. -/
def sampleProgram : Node where
  label := sampleLabel .other .other 1
  below :=
    .cons (sampleLabel .other .functionDeclaration 1)
      (.cons (sampleLabel .id (.identifier (units "pick")) 1) .nil
        (.cons (sampleLabel .other .ifStatement 2)
          (.cons (sampleLabel .other .arrowFunctionExpression 3)
            (.cons (sampleLabel .other .conditionalExpression 3) .nil .nil) .nil) .nil))
      (.cons (sampleLabel .other .ifStatement 5) .nil .nil)

def sampleBabel : Babel where
  parse := fun _ => .ok sampleProgram
  traverse := Branch.visits
  isFunction := fun kind => kind ∈ functionTypes

theorem documented_sampleBabel : sampleBabel.Documented where
  enters _ := .refl _
  isFunction _ := rfl

theorem analyzeAST_attributes_sampleProgram :
    (analyzeAST sampleBabel []).cyclomaticComplexity = 4 ∧
    (analyzeAST sampleBabel []).cyclomaticComplexity =
      ((analyzeAST sampleBabel []).functions.map (·.cyclomaticComplexity - 1)).sum +
        topLevelDecisions sampleProgram + 1 ∧
    (analyzeAST sampleBabel []).functions =
      [⟨units "pick", 1, 2⟩, ⟨units "<anonymous>", 3, 2⟩] := by
  obtain ⟨hall, hsum, hfunctions⟩ := analyzeAST_attributes documented_sampleBabel
    (show sampleBabel.parse [] = .ok sampleProgram from rfl)
  exact ⟨hall.trans (by decide +kernel), hsum, hfunctions.trans (by decide +kernel)⟩

end AssureCode.Ast
