import OcLang.Proofs.Oil.LineRules

namespace OcLang.Oil

/-! # Where operands come from

Every call and every access to a field in a program is the operand of a call or of
a selection in the tree that the program is made for. -/

def Operand.nodeKind? : Operand → Option Kind
  | .call _ _ => some .call
  | .field _ _ _ => some .select
  | _ => none

section

variable (analysis : Analysis) (nodes : List Tree)

def Operand.Arises (operand : Operand) : Prop :=
  ∀ kind, operand.nodeKind? = some kind →
    ∃ node ∈ nodes, node.kind = kind ∧ LowersTo analysis node operand

def arising : Rules where
  line line := ∀ operand ∈ line.operands, operand.Arises analysis nodes
  operand := Operand.Arises analysis nodes
  type _ := True

end

section

variable {analysis : Analysis} {nodes : List Tree}

theorem subset_of_inner {tree child : Tree} (inside : tree.walked ⊆ nodes)
    (member : child ∈ tree.inner) : child.walked ⊆ nodes :=
  fun _ below => inside (Tree.mem_walked_of_inner member below)

theorem Operand.arises_of_plain {operand : Operand} (plain : operand.nodeKind? = none) :
    operand.Arises analysis nodes := by
  intro kind same
  rw [plain] at same
  contradiction

/-- The operand that a node is lowered to, if it is of a form for such nodes. -/
theorem arises_of_lowers {tree : Tree} {operand : Operand} (inside : tree.walked ⊆ nodes)
    (same : operand.nodeKind? = some tree.kind) (lowers : LowersTo analysis tree operand) :
    operand.Arises analysis nodes := by
  intro kind made
  rw [same] at made
  exact ⟨tree, inside (Tree.mem_walked_self tree), Option.some.inj made, lowers⟩

theorem arising_kept :
    (arising analysis nodes).KeptByStatements analysis (·.walked ⊆ nodes) (·.walked ⊆ nodes) where
  inner inside member := subset_of_inner inside (Tree.operands_subset_inner member)
  common {operand} common := by
    cases operand <;> first | contradiction | exact Operand.arises_of_plain rfl
  int := trivial
  char := trivial
  pointer _ := trivial
  value _ := trivial
  struct _ := trivial
  element _ := trivial
  call inside lowers := arises_of_lowers inside rfl lowers
  select inside lowers := arises_of_lowers inside rfl lowers
  computes _ _ operands := operands
  stores operands := operands
  assigns _ _ _ operands := operands.append (.single (Operand.arises_of_plain rfl))
  leaf {node} _ _ _ := by
    unfold lowerLeaf noValue
    split
    all_goals
      refine ⟨?_, .single (Operand.arises_of_plain rfl)⟩
      simp [arising, Line.operands]
  crowded _ := ⟨by simp [noValue, arising, Line.operands],
    .single (Operand.arises_of_plain rfl)⟩
  toHandsDown := .of_inner subset_of_inner id
  declared _ _ := ⟨Operand.arises_of_plain rfl, trivial⟩
  declares _ _ operands := operands
  rebinds _ _ _ _ _ := List.forall_mem_cons.mpr
    ⟨Operand.arises_of_plain rfl, List.forall_mem_singleton.mpr (Operand.arises_of_plain rfl)⟩
  plain _ operands := operands
  gap := .inr ⟨fun _ => by simp [arising, Line.operands], Operand.arises_of_plain rfl⟩

/-- What a program calls and accesses is called and selected in the tree. -/
theorem generate_arises {root : Tree} (isRoot : root.kind = .root) :
    ∀ operand ∈ (generate analysis root).operands, operand.Arises analysis root.walked := by
  have items : ∀ item ∈ root.children, item.walked ⊆ root.walked := fun item member =>
    subset_of_inner (List.Subset.refl _) (by rwa [Tree.inner_root isRoot])
  have kept : ∀ line ∈ (generate analysis root).lines, (arising analysis root.walked).line line :=
    arising_kept.program items
  intro operand member
  rcases List.mem_flatMap.mp member with ⟨line, known, below⟩
  exact kept line known operand below

/-! ## Functions -/

def Function.IsFrom (function : Function) (analysis : Analysis) (node : Tree) : Prop :=
  ∃ declarator parameters body name, node.children = [declarator, parameters, body] ∧
    declarator.declaredName? = some name ∧ function.result = .ofDeclarator declarator ∧
      function.name = name.text ∧ function.parameters =
        if parameters.children.isEmpty then none
        else some (parameters.children.filterMap (parameter? analysis))

end

end OcLang.Oil
