import OcLang.Proofs.Oil.Origins
import OcLang.Proofs.Tree.Nodes

namespace OcLang.Oil

/-! # Strings that lines read

The lines of a program read strings that are bound at file scope, by names that are
made from the places of nodes. Each such line is made for the node in that place, and
stores its string. -/

def Operand.boundAt? : Operand → Option Location
  | .boundString place => some place
  | _ => none

def stringsRead (operands : List Operand) : List Location :=
  operands.filterMap Operand.boundAt?

/-- The line reads nothing of the strings that are bound at file scope but that of a node,
which assigns it or gives it to a variable that is declared again. -/
inductive StoresString (analysis : Analysis) (node value : Tree) : Line → Prop where
  | assigned {target : Tree} {operand : Operand} (isAssign : node.kind = .assign)
      (children : node.children = [target, value]) (lowers : LowersTo analysis target operand)
      (plain : stringsRead operand.within = []) :
      StoresString analysis node value (.store operand (.boundString node.location))
  | redeclared {declarator name : Tree} (isVariable : node.kind = .variable)
      (children : node.children = [declarator, value])
      (declared : declarator.declaredName? = some name)
      (replaces : replacesVariable analysis name = true) :
      StoresString analysis node value
        (.store (.variable (variableName analysis name)) (.boundString node.location))

section

variable (analysis : Analysis) (nodes : List Tree)

def Line.ReadsStored (line : Line) : Prop :=
  ∀ place ∈ stringsRead line.operands, ∃ node ∈ nodes, ∃ value, node.location = place ∧
    value.kind = .literal .string ∧ StoresString analysis node value line

def ReadStored (lines : List Line) : Prop :=
  ∀ line ∈ lines, line.ReadsStored analysis nodes

def stringReading : Rules where
  line := Line.ReadsStored analysis nodes
  operand operand := operand.boundAt? = none
  type _ := True

end

section

variable {analysis : Analysis} {nodes : List Tree}

theorem stringsRead_eq_nil_iff {operands : List Operand} :
    stringsRead operands = [] ↔ ∀ operand ∈ operands, operand.boundAt? = none :=
  List.filterMap_eq_nil_iff

theorem Line.readsStored_of_plain {line : Line}
    (none : ∀ operand ∈ line.operands, operand.boundAt? = none) :
    line.ReadsStored analysis nodes := by
  intro place member
  rw [stringsRead_eq_nil_iff.mpr none] at member
  contradiction

theorem StoresString.readsStored {node value : Tree} {target : Operand} (known : node ∈ nodes)
    (string : value.kind = .literal .string)
    (stores : StoresString analysis node value (.store target (.boundString node.location)))
    (plain : stringsRead target.within = []) :
    (Line.store target (.boundString node.location)).ReadsStored analysis nodes := by
  intro place member
  have own : stringsRead (Line.store target (.boundString node.location)).operands =
      [node.location] := by
    rw [Line.operands, stringsRead, List.filterMap_append, ← stringsRead, plain]
    rfl
  rw [own, List.mem_singleton] at member
  exact ⟨node, known, value, member.symm, string, stores⟩

theorem stringReading_kept : (stringReading analysis nodes).KeptByStatements analysis
    (·.walked ⊆ nodes) (fun tree => tree.walked ⊆ nodes ∧ tree.IsShaped) where
  inner inside member := subset_of_inner inside (Tree.operands_subset_inner member)
  common {operand} common := by cases operand <;> first | contradiction | rfl
  int := trivial
  char := trivial
  pointer _ := trivial
  value _ := trivial
  struct _ := trivial
  element _ := trivial
  call _ _ := rfl
  select _ _ := rfl
  computes _ _ operands := Line.readsStored_of_plain operands
  stores operands := Line.readsStored_of_plain operands
  assigns inside string lowers operands := by
    have plain := stringsRead_eq_nil_iff.mpr operands
    exact (StoresString.assigned rfl rfl lowers plain).readsStored
      (inside (Tree.mem_walked_self _)) string plain
  leaf _ _ _ := by
    unfold lowerLeaf noValue
    split
    all_goals
      refine ⟨?_, .single rfl⟩
      simp [stringReading, Line.ReadsStored, Line.operands, stringsRead]
  crowded _ := by
    refine ⟨?_, .single rfl⟩
    simp [noValue, stringReading, Line.ReadsStored, Line.operands, stringsRead]
  toHandsDown := .of_inner
    (fun here member => ⟨subset_of_inner here.1 member, here.2.inner member⟩) And.left
  declared _ _ := ⟨rfl, trivial⟩
  declares _ _ operands := Line.readsStored_of_plain operands
  rebinds here declared string replaces _ := by
    rcases here.2.variable with ⟨declarator, values, name, same, _, _, single⟩
    cases same
    cases single
    exact (StoresString.redeclared rfl rfl declared replaces).readsStored
      (here.1 (Tree.mem_walked_self _)) string rfl
  plain _ operands := Line.readsStored_of_plain operands
  gap := .inl fun _ here => here.2

/-- The strings that the lines of a program read are those that nodes of the tree store. -/
theorem generate_reads {root : Tree} (isRoot : root.kind = .root) (shaped : root.IsShaped) :
    ReadStored analysis root.walked (generate analysis root).lines := by
  have items : ∀ item ∈ root.children, item.walked ⊆ root.walked ∧ item.IsShaped :=
    fun item member => ⟨subset_of_inner (List.Subset.refl _) (by rwa [Tree.inner_root isRoot]),
      shaped.child member⟩
  exact stringReading_kept.program items

end

end OcLang.Oil
