import OcLang.Proofs.Oil.FieldLists
import OcLang.Proofs.Oil.LineRules
import OcLang.Proofs.Typing.StructNames

namespace OcLang

/-! # Struct tags in generated code

Types, allocations and accesses to fields are written with tags of structs. Each tag is the name
of a struct that a node states, or that is noted on a value. -/

namespace Oil

def OilType.tags : OilType → List String
  | .struct name => [name]
  | .pointer target => target.tags
  | .void | .int | .char => []

def Operand.ownTags : Operand → List String
  | .cast type _ => type.tags
  | .field _ owner _ => [owner]
  | _ => []

def Operand.tags (operand : Operand) : List String :=
  operand.within.flatMap Operand.ownTags

def Line.types : Line → List OilType
  | .declare type _ _ => [type]
  | .compute type _ (.allocate _ element) => [type, element]
  | .compute type _ _ => [type]
  | _ => []

def Line.tags (line : Line) : List String :=
  line.types.flatMap OilType.tags ++ line.operands.flatMap Operand.ownTags

def tagsOf (lines : List Line) : List String :=
  lines.flatMap Line.tags

def StructLayout.tags (layout : StructLayout) : List String :=
  layout.name :: layout.fields.flatMap (·.1.tags)

def Function.tags (function : Function) : List String :=
  function.result.tags ++ (function.parameters.getD []).flatMap (·.type.tags) ++
    tagsOf function.body

def Program.tags (program : Program) : List String :=
  program.structs.flatMap StructLayout.tags ++ program.strings.flatMap (·.name.tags) ++
    program.globals.flatMap (·.1.tags) ++ program.functions.flatMap Function.tags ++
    tagsOf program.main

end Oil

/-! ## The structs that nodes mention -/

def Tree.mentionedStructs (node : Tree) : List String :=
  (node.typeNodes.filter fun type => type.kind == .type .named || node.kind == .allocate .struct
    ).map (·.text) ++
  (if node.note.attributes.type.struct then [node.note.structName.getD ""] else []) ++
  match node.kind, node.children with
  | .select, [object, _] => [object.note.structName.getD ""]
  | _, _ => []

/-- Nothing but certain structs is mentioned in a tree. -/
def Tree.MentionsOnly (known : List String) (tree : Tree) : Prop :=
  ∀ node ∈ tree.walked, node.mentionedStructs ⊆ known

namespace Tree

variable {known : List String} {tree child type : Tree}

namespace MentionsOnly

theorem here (mentions : tree.MentionsOnly known) : tree.mentionedStructs ⊆ known :=
  mentions tree tree.mem_walked_self

theorem inner (mentions : tree.MentionsOnly known) (member : child ∈ tree.inner) :
    child.MentionsOnly known :=
  fun node below => mentions node (mem_walked_of_inner member below)

end MentionsOnly

theorem mem_mentionedStructs_of_stated (states : type ∈ tree.typeNodes)
    (named : type.kind = .type .named ∨ tree.kind = .allocate .struct) :
    type.text ∈ tree.mentionedStructs := by
  refine List.mem_append_left _ (List.mem_append_left _ (List.mem_map.mpr ⟨type, ?_, rfl⟩))
  exact List.mem_filter.mpr ⟨states, by simpa using named⟩

theorem mem_mentionedStructs_of_value (struct : tree.note.attributes.type.struct = true) :
    tree.note.structName.getD "" ∈ tree.mentionedStructs :=
  List.mem_append_left _ (List.mem_append_right _ (by simp [struct]))

end Tree

namespace Oil

/-! ## Types -/

section

variable {known : List String} {tree : Tree}

theorem tags_ofKeyword (type : Tree) :
    (OilType.ofKeyword type).tags = if type.kind = .type .named then [type.text] else [] := by
  unfold OilType.ofKeyword
  split <;> simp_all [OilType.tags]

theorem tags_ofDeclarator (type : Tree) :
    (OilType.ofDeclarator type).tags = if type.kind = .type .named then [type.text] else [] := by
  rw [← tags_ofKeyword]
  unfold OilType.ofDeclarator
  split <;> rfl

theorem tags_ofValue (type : ValueType) :
    (OilType.ofValue type).tags = if type.flags.struct then [type.structName.getD ""] else [] := by
  unfold OilType.ofValue
  rcases type with ⟨⟨void, null, int, string, struct, array⟩, name⟩
  cases struct <;> cases string <;> cases int <;> cases null <;> cases array <;> rfl

theorem tags_ofDeclarator_subset {type : Tree} (mentions : tree.mentionedStructs ⊆ known)
    (states : type ∈ tree.typeNodes) : (OilType.ofDeclarator type).tags ⊆ known := by
  rw [tags_ofDeclarator]
  split
  · rename_i named
    simpa using mentions (Tree.mem_mentionedStructs_of_stated states (.inl named))
  · exact List.nil_subset _

theorem tags_ofKeyword_subset {type : Tree} (mentions : tree.mentionedStructs ⊆ known)
    (states : type ∈ tree.typeNodes) : (OilType.ofKeyword type).tags ⊆ known := by
  rw [tags_ofKeyword, ← tags_ofDeclarator]
  exact tags_ofDeclarator_subset mentions states

end

/-! ## Lines -/

def tagging (known : List String) : Rules where
  line line := line.tags ⊆ known
  operand operand := operand.ownTags ⊆ known
  type type := type.tags ⊆ known

section

variable {known : List String} {analysis : Analysis}

theorem tags_subset {line : Line} (types : ∀ type ∈ line.types, type.tags ⊆ known)
    (operands : ∀ operand ∈ line.operands, operand.ownTags ⊆ known) : line.tags ⊆ known := by
  rw [Line.tags, List.append_subset]
  constructor <;> intro tag member
  · rcases List.mem_flatMap.mp member with ⟨type, written, here⟩
    exact types type written here
  · rcases List.mem_flatMap.mp member with ⟨operand, written, here⟩
    exact operands operand written here

theorem tagsOf_subset {lines : List Line} (tagged : ∀ line ∈ lines, line.tags ⊆ known) :
    tagsOf lines ⊆ known := by
  intro tag member
  rcases List.mem_flatMap.mp member with ⟨line, among, here⟩
  exact tagged line among here

variable (known analysis) in
theorem tagging_kept : (tagging known).KeptByStatements analysis (·.MentionsOnly known)
    (·.MentionsOnly known) where
  inner mentions member := mentions.inner (Tree.operands_subset_inner member)
  common {operand} common := by
    cases operand with
    | cast type _ => cases type <;> first | contradiction | exact List.nil_subset _
    | _ => first | contradiction | exact List.nil_subset _
  int := List.nil_subset _
  char := List.nil_subset _
  pointer kept := kept
  value mentions := by
    dsimp only [tagging]
    rw [tags_ofValue]
    split
    · rename_i struct
      exact List.cons_subset.mpr
        ⟨mentions.here (Tree.mem_mentionedStructs_of_value struct), List.nil_subset _⟩
    · exact List.nil_subset _
  struct {location text note type} mentions := by
    have stated := @Tree.mem_mentionedStructs_of_stated
      ⟨.allocate .struct, location, text, note, [type]⟩ type List.mem_cons_self (.inr rfl)
    simpa [tagging, OilType.tags] using mentions.here stated
  element mentions := tags_ofKeyword_subset mentions.here List.mem_cons_self
  call _ _ := List.nil_subset _
  select mentions _ := List.cons_subset.mpr
    ⟨mentions.here (by simp [Tree.mentionedStructs]), List.nil_subset _⟩
  computes {type temporary value} ofType ofElement operands := by
    refine tags_subset (fun other written => ?_) operands
    cases value with
    | allocate count element =>
        rcases List.mem_cons.mp written with rfl | below
        · exact ofType
        · rw [List.mem_singleton.mp below]
          exact ofElement element rfl
    | _ =>
        rw [List.mem_singleton.mp written]
        exact ofType
  stores operands := tags_subset (by simp [Line.types]) operands
  assigns _ _ _ operands :=
    tags_subset (by simp [Line.types]) (operands.append (.single (List.nil_subset _)))
  leaf _ _ _ := by
    unfold lowerLeaf noValue
    split
    all_goals
      refine ⟨?_, .single (List.nil_subset _)⟩
      simp [tagging, Line.tags, Line.types, Line.operands]
  crowded _ := by
    refine ⟨?_, .single (List.nil_subset _)⟩
    simp [noValue, tagging, Line.tags, Line.types, Line.operands]
  toHandsDown := .of_inner (fun mentions member => mentions.inner member) id
  declared mentions _ :=
    ⟨List.nil_subset _, tags_ofDeclarator_subset mentions.here List.mem_cons_self⟩
  declares ofType _ operands := tags_subset (List.forall_mem_singleton.mpr ofType) operands
  rebinds _ _ _ _ target := tags_subset (by simp [Line.types])
    (Rules.Allow.cons target (.single (List.nil_subset _)))
  plain {line} plain operands := by
    refine tags_subset ?_ operands
    cases line <;> first | contradiction | simp [Line.types]
  gap := .inr ⟨fun _ => List.nil_subset _, List.nil_subset _⟩

/-! ## Programs -/

theorem mem_of_declaratorOf? {id : Nat} {declarators : List Tree} {declarator name : Tree}
    (found : declaratorOf? id declarators = some (declarator, name)) :
    declarator ∈ declarators := by
  rcases List.exists_of_findSome?_eq_some found with ⟨other, member, here⟩
  rcases Option.bind_eq_some_iff.mp here with ⟨otherName, -, same⟩
  split at same
  · cases same
    exact member
  · contradiction

theorem structLayout_tags {item : Tree} (mentions : item.mentionedStructs ⊆ known)
    (declared : ∀ name, (analysis.structs.find? name).isSome → name ∈ known)
    {layout : StructLayout} (made : structLayout? analysis item = some layout) :
    layout.tags ⊆ known := by
  rcases structLayout?_eq_some_iff.mp made with
    ⟨isStruct, name, declarators, id, children, -, last, -, rfl⟩
  refine List.cons_subset.mpr ⟨declared name.text (by simp [last]), fun tag member => ?_⟩
  rcases List.mem_flatMap.mp member with ⟨field, among, tagged⟩
  rcases List.mem_filterMap.mp among with ⟨listed, -, found⟩
  rcases Option.map_eq_some_iff.mp found with ⟨⟨declarator, fieldName⟩, here, rfl⟩
  refine tags_ofDeclarator_subset mentions ?_ tagged
  rcases item with ⟨kind, location, text, note, below⟩
  simp only at isStruct children
  subst isStruct children
  exact mem_of_declaratorOf? here

theorem stringBinding_tags {node : Tree} {binding : StringBinding}
    (made : stringBinding? analysis node = some binding) : binding.name.tags = [] := by
  unfold stringBinding? at made
  split at made
  · split at made
    · rcases Option.map_eq_some_iff.mp made with ⟨name, -, rfl⟩
      dsimp only
      split <;> rfl
    · contradiction
  · split at made
    · cases made
      rfl
    · contradiction
  · contradiction

theorem globalVariable_tags {item : Tree} (mentions : item.mentionedStructs ⊆ known)
    {type : OilType} {name : VariableName}
    (made : globalVariable? analysis item = some (type, name)) : type.tags ⊆ known := by
  unfold globalVariable? at made
  split at made
  · rename_i declarator values isVariable children
    split at made
    · contradiction
    · rcases Option.map_eq_some_iff.mp made with ⟨found, -, same⟩
      cases same
      refine tags_ofDeclarator_subset mentions ?_
      rcases item with ⟨kind, location, text, note, below⟩
      simp only at isVariable children
      subst isVariable children
      exact List.mem_cons_self
  · contradiction

theorem lowerFunction_tags {tree : Tree} (mentions : tree.MentionsOnly known)
    (isFunction : tree.kind = .function) (later : List Tree) (number : Nat) :
    Ends (lowerFunction analysis tree later) number fun result _ =>
      ∀ function ∈ result, function.tags ⊆ known := by
  rcases tree with ⟨kind, location, text, note, children⟩
  simp only at isFunction
  subst isFunction
  unfold lowerFunction
  split
  · rename_i declarator parameters body children
    simp only at children
    subst children
    have stated {type : Tree} (among : type ∈ declarator :: parameters.children) :
        (OilType.ofDeclarator type).tags ⊆ known :=
      tags_ofDeclarator_subset mentions.here among
    split
    · exact .pure (by simp)
    · split
      · exact .pure (by simp)
      · apply Ends.bind
        have kept := tagging_kept known analysis
        apply (kept.isStatementLaw.body_lines (fun statement => kept.inside mentions) number).imp
        intro lines _ tagged
        apply Ends.pure
        rintro _ ⟨⟩
        refine List.append_subset.mpr ⟨List.append_subset.mpr
          ⟨stated List.mem_cons_self, fun tag member => ?_⟩, tagsOf_subset tagged⟩
        rcases List.mem_flatMap.mp member with ⟨parameter, among, tag⟩
        split at among
        · contradiction
        · rcases List.mem_filterMap.mp among with ⟨type, listed, made⟩
          rcases Option.map_eq_some_iff.mp made with ⟨name, -, rfl⟩
          exact stated (List.mem_cons_of_mem _ listed) tag
  · exact .pure (by simp)

/-- What the nodes of a file mention are all of the tags in the program for it, besides those of
the layouts. -/
theorem generate_tags {root : Tree} (isRoot : root.kind = .root)
    (mentions : root.MentionsOnly known)
    (declared : ∀ name, (analysis.structs.find? name).isSome → name ∈ known) :
    (generate analysis root).tags ⊆ known := by
  have child {item : Tree} (member : item ∈ root.children) : item.MentionsOnly known :=
    mentions.inner (by rwa [Tree.inner_root isRoot])
  have ends : Ends (generateNumbered analysis root) firstTemporary fun program _ =>
      program.tags ⊆ known := by
    apply Ends.bind
    apply (lowerFunctions_each (fun function member => by
      have both := List.mem_filter.mp member
      exact lowerFunction_tags (child both.1) (by simpa using both.2)) firstTemporary).imp
    intro functions middle tagged
    apply Ends.bind
    have kept := tagging_kept known analysis
    apply (kept.isStatementLaw.main_lines (fun item member =>
      child (List.mem_filter.mp member).1) middle).imp
    intro main _ taggedMain
    apply Ends.pure
    simp only [Program.tags, List.append_subset]
    refine ⟨⟨⟨⟨?_, ?_⟩, ?_⟩, ?_⟩, tagsOf_subset taggedMain⟩ <;> intro tag member
    · rcases List.mem_flatMap.mp member with ⟨layout, among, here⟩
      rcases List.mem_filterMap.mp among with ⟨item, listed, made⟩
      exact structLayout_tags (child listed).here declared made here
    · rcases List.mem_flatMap.mp member with ⟨binding, among, here⟩
      rcases List.mem_filterMap.mp among with ⟨node, -, made⟩
      rw [stringBinding_tags made] at here
      contradiction
    · rcases List.mem_flatMap.mp member with ⟨⟨type, name⟩, among, here⟩
      rcases List.mem_filterMap.mp among with ⟨item, listed, made⟩
      exact globalVariable_tags (child listed).here made here
    · rcases List.mem_flatMap.mp member with ⟨function, among, here⟩
      rcases tagged function among with ⟨item, -, made⟩
      exact made here
  exact ends

end

end Oil

end OcLang
