import Mathlib.Data.List.Forall2
import OcLang.Proofs.Loading.Documents
import OcLang.Proofs.Tree.Shape

namespace OcLang

/-! # Trees are read back

A tree may be written as a document in many ways: the members of a node come in any order,
and a member may be left out where the node has its default. -/

namespace Json

mutual
def depth : Json → Nat
  | .array items => depthOfItems items + 1
  | .object members => depthOfMembers members + 1
  | _ => 0

def depthOfItems : List Json → Nat
  | [] => 0
  | item :: rest => max item.depth (depthOfItems rest)

def depthOfMembers : List (Option String × Json) → Nat
  | [] => 0
  | (_, value) :: rest => max value.depth (depthOfMembers rest)
end

theorem depth_le_of_mem_members {members : List (Option String × Json)} {key : Option String}
    {value : Json} (member : (key, value) ∈ members) : value.depth ≤ depthOfMembers members := by
  induction members with
  | nil => contradiction
  | cons first rest induction =>
      rcases first with ⟨other, first⟩
      rw [depthOfMembers]
      rcases List.mem_cons.mp member with same | below
      · cases same
        exact Nat.le_max_left _ _
      · exact Nat.le_trans (induction below) (Nat.le_max_right _ _)

end Json

def Location.document (location : Location) : Json :=
  .array [.number location.file.toNat.repr, .number location.line.toNat.repr,
    .number location.column.toNat.repr]

/-- A member that may be left out where it says no more than the default. -/
inductive Optionally (default : Prop) (key : String) (value : Json) :
    List (Option String × Json) → Prop
  | leftOut (isDefault : default) : Optionally default key value []
  | given : Optionally default key value [(some key, value)]

/-- The document is one of those that a tree may be written as. Such a tree has no notes. -/
inductive Tree.HasDocument : Tree → Json → Prop
  | node {kind : Kind} {location : Location} {text : String} {children : List Tree}
      {items : List Json} {loc word below members : List (Option String × Json)}
      (placed : Optionally (location = {}) "loc" location.document loc)
      (worded : Optionally (text = "") "text" (.string (some text)) word)
      (listed : Optionally (children = []) "children" (.array items) below)
      (each : children.Forall₂ Tree.HasDocument items)
      (order : members.Perm
        ((some "kind", .string (some kind.name)) :: (loc ++ (word ++ below)))) :
      Tree.HasDocument ⟨kind, location, text, {}, children⟩ (.object members)

namespace Json

/-! ## Values -/

theorem kind?_name (room : Nat) (kind : Kind) :
    kind? room (.string (some kind.name)) = some kind := by
  cases kind with
  | type name => cases name <;> rfl
  | binary operator => cases operator <;> rfl
  | unary operator => cases operator <;> rfl
  | allocate what => cases what <;> rfl
  | literal what => cases what <;> rfl
  | _ => rfl

theorem word?_repr (word : UInt32) : (Json.number word.toNat.repr).word? = some word := by
  have digits : (Nat.toDigits 10 word.toNat).all Lexer.NumberPart.isDigit = true := by
    rw [List.all_eq_true]
    intro c member
    have digit := Nat.isDigit_of_mem_toDigits (by decide) (by decide) member
    simp only [Char.isDigit, Bool.and_eq_true, decide_eq_true_eq] at digit
    simpa [Lexer.NumberPart.isDigit, Char.le_def] using digit
  have value : (Nat.toDigits 10 word.toNat).foldl
      (fun value digit => value * 10 + (digit.toNat - 48)) 0 = word.toNat := by
    have decimal : Nat.ofDigitChars 10 (Nat.toDigits 10 word.toNat) 0 = word.toNat :=
      Nat.ofDigitChars_ten_toDigits
    rw [Nat.ofDigitChars_eq_foldl] at decimal
    simp only [Nat.mul_comm 10] at decimal
    exact decimal
  have small : word.toNat < 4294967296 := word.toNat_lt
  simp [word?, digits, value, small]

theorem location?_document {room : Nat} (more : room ≠ 0) (location : Location) :
    location.document.location? room = some location := by
  simp [Location.document, location?, more, word?_repr]

/-! ## Members in any order -/

structure Slot (α : Type) where
  get : NodeParts → Option α
  put : NodeParts → α → NodeParts

namespace Slot

variable {α β : Type}

/-- Set the part to what was read, if it has not been set. -/
def fill (slot : Slot α) (read : Option α) (parts : NodeParts) : Option NodeParts :=
  if (slot.get parts).isSome then none else read.map (slot.put parts)

theorem fill_comm {first : Slot α} {second : Slot β}
    (keeps : ∀ parts value, second.get (first.put parts value) = second.get parts)
    (keepsFirst : ∀ parts value, first.get (second.put parts value) = first.get parts)
    (swap : ∀ parts value other,
      second.put (first.put parts value) other = first.put (second.put parts other) value)
    (read : Option α) (other : Option β) (parts : NodeParts) :
    (first.fill read parts).bind (second.fill other) =
      (second.fill other parts).bind (first.fill read) := by
  cases here : first.get parts <;> cases there : second.get parts <;> cases read <;>
    cases other <;> simp [fill, here, there, keeps, keepsFirst, swap]

theorem fill_fill {slot : Slot α}
    (sets : ∀ parts value, slot.get (slot.put parts value) = some value)
    (first second : Option α) (parts : NodeParts) :
    (slot.fill first parts).bind (slot.fill second) = none := by
  cases here : slot.get parts <;> cases first <;> simp [fill, here, sets]

end Slot

def kindSlot : Slot Kind := ⟨(·.kind), fun parts kind => { parts with kind }⟩

def locationSlot : Slot Location := ⟨(·.location), fun parts location => { parts with location }⟩

def textSlot : Slot String := ⟨(·.text), fun parts text => { parts with text }⟩

def childrenSlot : Slot (List Tree) := ⟨(·.children), fun parts children => { parts with children }⟩

section

variable {room : Nat} {children? : Json → Option (List Tree)}

theorem addMember_eq (key : String) (value : Json) (parts : NodeParts) :
    parts.addMember room children? (some key, value) =
      if key = "kind" then kindSlot.fill (value.kind? room) parts
      else if key = "loc" then locationSlot.fill (value.location? room) parts
      else if key = "text" then textSlot.fill value.text? parts
      else if key = "children" then childrenSlot.fill (children? value) parts
      else some parts := by
  have lifted {α : Type} (read : Option α) (put : Option α → NodeParts) :
      (read >>= fun value => pure (some value)).map put =
        read.map fun value => put (some value) := by
    cases read <;> rfl
  simp only [NodeParts.addMember, lifted]
  rfl

/-- Two members may change places: they fill different parts, or the second of them is
refused. -/
theorem addMember_comm (parts : NodeParts) (first second : Option String × Json) :
    (parts.addMember room children? first).bind (·.addMember room children? second) =
      (parts.addMember room children? second).bind (·.addMember room children? first) := by
  rcases first with ⟨_ | key, value⟩
  · simp [NodeParts.addMember]
  rcases second with ⟨_ | other, second⟩
  · simp [NodeParts.addMember]
  simp only [addMember_eq]
  split_ifs
  -- Different parts, the same part, or a key that is ignored.
  all_goals first
    | exact Slot.fill_comm (fun _ _ => rfl) (fun _ _ => rfl) (fun _ _ _ => rfl) _ _ parts
    | rw [Slot.fill_fill (fun _ _ => rfl), Slot.fill_fill (fun _ _ => rfl)]
    | simp

theorem foldlM_perm {members others : List (Option String × Json)} (same : members.Perm others)
    (parts : NodeParts) :
    members.foldlM (NodeParts.addMember room children?) parts =
      others.foldlM (NodeParts.addMember room children?) parts := by
  induction same generalizing parts with
  | nil => rfl
  | cons member rest induction =>
      simp only [List.foldlM_cons]
      congr 1
      funext added
      exact induction added
  | swap first second rest =>
      simp only [List.foldlM_cons, ← bind_assoc]
      congr 1
      exact addMember_comm parts second first
  | trans _ _ first second => rw [first, second]

/-! ## A node -/

theorem exists_location {location : Location} {loc : List (Option String × Json)}
    (placed : Optionally (location = {}) "loc" location.document loc)
    (fits : (some "loc", location.document) ∈ loc → room ≠ 0) (kind : Option Kind) :
    ∃ given : Option Location, given.getD {} = location ∧
      loc.foldlM (NodeParts.addMember room children?) { kind } =
        some { kind, location := given } := by
  cases placed with
  | leftOut isDefault => exact ⟨none, isDefault.symm, rfl⟩
  | given =>
      have read := location?_document (fits (List.mem_singleton_self _)) location
      refine ⟨some location, rfl, ?_⟩
      simp [addMember_eq, read, Slot.fill, locationSlot]

theorem exists_text {text : String} {word : List (Option String × Json)}
    (worded : Optionally (text = "") "text" (.string (some text)) word) (kind : Option Kind)
    (location : Option Location) :
    ∃ given : Option String, given.getD "" = text ∧
      word.foldlM (NodeParts.addMember room children?) { kind, location } =
        some { kind, location, text := given } := by
  cases worded with
  | leftOut isDefault => exact ⟨none, isDefault.symm, rfl⟩
  | given =>
      refine ⟨some text, rfl, ?_⟩
      simp [addMember_eq, text?, Slot.fill, textSlot]

theorem exists_children {children : List Tree} {value : Json}
    {below : List (Option String × Json)}
    (listed : Optionally (children = []) "children" value below)
    (read : (some "children", value) ∈ below → children? value = some children)
    (kind : Option Kind) (location : Option Location) (text : Option String) :
    ∃ given : Option (List Tree), given.getD [] = children ∧
      below.foldlM (NodeParts.addMember room children?) { kind, location, text } =
        some { kind, location, text, children := given } := by
  cases listed with
  | leftOut isDefault => exact ⟨none, isDefault.symm, rfl⟩
  | given =>
      refine ⟨some children, rfl, ?_⟩
      simp [addMember_eq, read (List.mem_singleton_self _), Slot.fill, childrenSlot]

end

theorem mapM_of_forall₂ {room : Nat} {trees : List Tree} {items : List Json}
    (each : trees.Forall₂ Tree.HasDocument items) (shallow : depthOfItems items ≤ room)
    (read : ∀ tree ∈ trees, ∀ item : Json, tree.HasDocument item → item.depth ≤ room →
      item.tree? room = some tree) :
    items.mapM (Json.tree? room) = some trees := by
  induction each with
  | nil => rfl
  | @cons tree item trees items written rest induction =>
      rw [depthOfItems, Nat.max_le] at shallow
      have here := read tree List.mem_cons_self item written shallow.1
      have others := induction shallow.2 fun tree member =>
        read tree (List.mem_cons_of_mem _ member)
      simp [List.mapM_cons, here, others]

/-- A tree is read from each of its documents that is not too deep. -/
theorem tree?_of_hasDocument {tree : Tree} {document : Json} {room : Nat}
    (written : tree.HasDocument document) (shallow : document.depth ≤ room) :
    document.tree? room = some tree := by
  induction tree using Tree.induction generalizing document room with
  | node tree induction =>
      cases written with
      | @node kind location text children items loc word below members placed worded listed each
          order =>
          rw [depth] at shallow
          cases room with
          | zero => contradiction
          | succ room =>
              have inner {key : Option String} {value : Json}
                  (member : (key, value) ∈ loc ++ (word ++ below)) : value.depth ≤ room := by
                have inside := order.mem_iff.mpr (List.mem_cons_of_mem _ member)
                exact Nat.le_trans (depth_le_of_mem_members inside) (Nat.le_of_succ_le_succ shallow)
              have fits (member : (some "loc", location.document) ∈ loc) : room ≠ 0 := by
                have deep := inner (List.mem_append_left _ member)
                simp only [Location.document, depth] at deep
                omega
              have list (member : (some "children", .array items) ∈ below) :
                  (Json.array items).trees? room = some children := by
                have deep := inner (List.mem_append_right _ (List.mem_append_right _ member))
                rw [depth] at deep
                cases room with
                | zero => contradiction
                | succ room =>
                    exact mapM_of_forall₂ each (Nat.le_of_succ_le_succ deep)
                      fun tree inside _ written => induction tree inside written
              rcases @exists_location room (trees? room) _ _ placed fits (some kind) with
                ⟨givenLocation, sameLocation, readLocation⟩
              rcases @exists_text room (trees? room) _ _ worded (some kind) givenLocation with
                ⟨givenText, sameText, readText⟩
              rcases @exists_children room _ _ _ _ listed list (some kind) givenLocation givenText
                with ⟨givenChildren, sameChildren, readChildren⟩
              have readKind : NodeParts.addMember room (trees? room) {}
                  (some "kind", .string (some kind.name)) = some { kind := some kind } := by
                simp [addMember_eq, kind?_name, Slot.fill, kindSlot]
              have read : members.foldlM (NodeParts.addMember room (trees? room)) {} =
                  some ⟨some kind, givenLocation, givenText, givenChildren⟩ := by
                rw [foldlM_perm order, List.foldlM_cons, readKind]
                simp only [Option.bind_eq_bind, Option.bind_some]
                rw [List.foldlM_append, readLocation]
                simp only [Option.bind_eq_bind, Option.bind_some]
                rw [List.foldlM_append, readText]
                exact readChildren
              rw [tree?, read]
              simp [NodeParts.tree?, sameLocation, sameText, sameChildren]

end Json

namespace Tree

/-- A tree is read back from every text that spells one of its documents, unless it is too
deep; if some node is out of shape, the first of these is told instead. -/
theorem load_written {tree : Tree} {document : Json} {source : String}
    (written : tree.HasDocument document) (shallow : document.depth ≤ 127)
    (spelled : Json.Spells source.toList (.padded document)) :
    ((∀ node ∈ tree.preorder, node.shapeFault? = none) → load source = .ok tree) ∧
      ∀ before node after fault, tree.preorder = before ++ node :: after →
        (∀ earlier ∈ before, earlier.shapeFault? = none) → node.shapeFault? = some fault →
        load source = .error (.shape ⟨node.kind, node.location, fault⟩) := by
  have read : document.tree? Json.depthLimit = some tree :=
    Json.tree?_of_hasDocument written shallow
  constructor
  · intro fine
    have shaped : tree.shapeError? = none := by
      rw [shapeError?_eq]
      exact List.findSome?_eq_none_iff.mpr fun node member => by simp [fine node member]
    simp [load, Json.read?_of_spells spelled, ofJson, read, shaped]
  · intro before node after fault order fine faulty
    have nothing : before.findSome? (fun node => node.shapeFault?.map fun fault =>
        (⟨node.kind, node.location, fault⟩ : ShapeError)) = none :=
      List.findSome?_eq_none_iff.mpr fun earlier member => by simp [fine earlier member]
    have found : tree.shapeError? = some ⟨node.kind, node.location, fault⟩ := by
      rw [shapeError?_eq, order, List.findSome?_append, nothing, List.findSome?_cons, faulty]
      rfl
    simp [load, Json.read?_of_spells spelled, ofJson, read, found]

end Tree

/-! ### A text with its members in no usual order

A letter is escaped, a character is written as a surrogate pair, and defaults are left out. -/

def scattered : String :=
  "\x7b \"text\":\"\\ud83D\\ude00\",\"children\": [\x7b\"loc\":[0,1,4]," ++
    "\"kind\":\"bl\\u006Fck\"\x7d],\"kind\" :\"root\"\x7d\n"

def scatteredTree : Tree :=
  { kind := .root, location := {}, text := "😀"
    children := [{ kind := .block, location := ⟨0, 1, 4⟩, text := "" }] }

def scatteredDocument : Json :=
  .object [(some "text", .string (some "😀")),
    (some "children", .array [.object [(some "loc", Location.document ⟨0, 1, 4⟩),
      (some "kind", .string (some "block"))]]),
    (some "kind", .string (some "root"))]

theorem scatteredTree_hasDocument : scatteredTree.HasDocument scatteredDocument := by
  have block : Tree.HasDocument { kind := .block, location := ⟨0, 1, 4⟩, text := "" } _ :=
    .node .given (.leftOut rfl) (.leftOut rfl) .nil (List.Perm.swap _ _ [])
  exact .node (.leftOut rfl) .given .given (.cons block .nil)
    (@List.perm_append_comm _ [_, _] [_])

namespace Json

theorem spells_scattered : Spells scattered.toList (.padded scatteredDocument) := by
  have nothing : IsBlank [] := by simp [IsBlank]
  have space : IsBlank [' '] := by simp [IsBlank]
  have newline : IsBlank ['\n'] := by simp [IsBlank]
  have plain (text : String) (fine : text.toList.all isPlain = true) :
      Spells _ (.document (.string (some text))) := .string (.self fine)
  have high : SpellsUnit ['d', '8', '3', 'D'] 0xD83D :=
    @SpellsUnit.digits _ _ _ _ 13 8 3 13 (.inl rfl) (.inl rfl) (.inl rfl) (.inr rfl)
  have low : SpellsUnit ['d', 'e', '0', '0'] 0xDE00 :=
    @SpellsUnit.digits _ _ _ _ 13 14 0 0 (.inl rfl) (.inl rfl) (.inl rfl) (.inl rfl)
  have letter : SpellsUnit ['0', '0', '6', 'F'] 0x6F :=
    @SpellsUnit.digits _ _ _ _ 0 0 6 15 (.inl rfl) (.inl rfl) (.inl rfl) (.inr rfl)
  have face : SpellsText _ "😀".toList := .pair (by decide) high low .nil
  have rest : SpellsText _ ['o', 'c', 'k'] := @SpellsText.unit _ 'o' _ _ letter (.self (by decide))
  have word : SpellsText _ "block".toList :=
    .plain (by decide) (by decide) (by decide) (.plain (by decide) (by decide) (by decide) rest)
  have number (value : Nat) : Spells _ (.padded (.number value.repr)) :=
    .padded nothing (.number value) nothing
  have place : Spells _ (.document (Location.document ⟨0, 1, 4⟩)) :=
    .array (.item (number 0) (.item (number 1) (.lastItem (number 4))))
  have block : Spells _ (.document (.object [_, _])) :=
    .object (.nextMember
      (.member (.padded nothing (plain "loc" (by decide)) nothing) (.padded nothing place nothing))
      (.lastMember (.member (.padded nothing (plain "kind" (by decide)) nothing)
        (.padded nothing (.string word) nothing))))
  have children : Spells _ (.document (.array [_])) :=
    .array (.lastItem (.padded nothing block nothing))
  have root : Spells _ (.document (.object [_, _, _])) :=
    .object (.nextMember
      (.member (.padded space (plain "text" (by decide)) nothing)
        (.padded nothing (.string face) nothing))
      (.nextMember
        (.member (.padded nothing (plain "children" (by decide)) nothing)
          (.padded space children nothing))
        (.lastMember (.member (.padded nothing (plain "kind" (by decide)) space)
          (.padded nothing (plain "root" (by decide)) nothing)))))
  exact .padded nothing root newline

end Json

theorem scattered_read : scatteredTree.HasDocument scatteredDocument ∧
    scatteredDocument.depth ≤ 127 ∧ Json.Spells scattered.toList (.padded scatteredDocument) ∧
    (∀ node ∈ scatteredTree.preorder, node.shapeFault? = none) ∧
    Tree.load scattered = .ok scatteredTree := by
  have shallow : scatteredDocument.depth ≤ 127 := by decide
  have fine : ∀ node ∈ scatteredTree.preorder, node.shapeFault? = none := by decide
  exact ⟨scatteredTree_hasDocument, shallow, Json.spells_scattered, fine,
    (Tree.load_written scatteredTree_hasDocument shallow Json.spells_scattered).1 fine⟩

end OcLang
