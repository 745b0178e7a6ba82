import OcLang.Proofs.Analysis.Numbering
import OcLang.Proofs.Tree.Parts
import OcLang.Proofs.Tree.Places

namespace OcLang

/-! # The numbers on the nodes

Scopes are numbered in the order in which a walk comes to them. Every node shows the number of
the innermost scope that contains it. -/

/-- The number that belongs to a place when the scopes get numbers from `first` on: that of the
innermost scope that contains the place, or `outer` if there is none. -/
inductive Lies (scopes : List Site) (path : Path) (first outer : Nat) : Nat → Prop where
  | outside (none : ∀ scope ∈ scopes, ¬scope.Contains path) : Lies scopes path first outer outer
  | inside (index : Nat) (scope : Site) (here : scopes[index]? = some scope)
      (contains : scope.Contains path)
      (innermost : ∀ other ∈ scopes, other.Contains path → other.path <+: scope.path) :
      Lies scopes path first outer (first + index)

namespace Lies

variable {scopes more : List Site} {path : Path} {first outer block : Nat}

theorem nil : Lies [] path first outer outer :=
  .outside (by simp)

/-- One level higher everything lies as before. -/
theorem under (lies : Lies scopes path first outer block) (position : Nat) :
    Lies (scopes.map (Site.under position)) (position :: path) first outer block := by
  cases lies with
  | outside none => exact .outside (by simpa using none)
  | inside index scope here contains innermost =>
      refine .inside index (scope.under position) (by simp [here]) (by simpa using contains) ?_
      intro other member around
      obtain ⟨inner, inside, rfl⟩ := List.mem_map.mp member
      have nested := innermost inner inside (Site.contains_under.mp around)
      simpa [Site.under] using nested

/-- Scopes that begin later and are elsewhere do not matter. -/
theorem append_left (lies : Lies scopes path first outer block)
    (elsewhere : ∀ scope ∈ more, ¬scope.Contains path) :
    Lies (scopes ++ more) path first outer block := by
  cases lies with
  | outside none => exact .outside (List.forall_mem_append.mpr ⟨none, elsewhere⟩)
  | inside index scope here contains innermost =>
      refine .inside index scope ?_ contains (List.forall_mem_append.mpr ⟨innermost, ?_⟩)
      · rw [List.getElem?_append_left (List.getElem?_eq_some_iff.mp here).1, here]
      · exact fun other member around => absurd around (elsewhere other member)

theorem append_right (lies : Lies scopes path (first + more.length) outer block)
    (elsewhere : ∀ scope ∈ more, ¬scope.Contains path) :
    Lies (more ++ scopes) path first outer block := by
  cases lies with
  | outside none => exact .outside (List.forall_mem_append.mpr ⟨elsewhere, none⟩)
  | inside index scope here contains innermost =>
      rw [Nat.add_assoc]
      refine .inside (more.length + index) scope ?_ contains
        (List.forall_mem_append.mpr ⟨?_, innermost⟩)
      · rw [List.getElem?_append_right (Nat.le_add_right _ _), Nat.add_sub_cancel_left, here]
      · exact fun other member around => absurd around (elsewhere other member)

theorem enter {kind : Kind} (lies : Lies scopes path (first + 1) first block)
    (contains : Site.Contains ⟨[], kind⟩ path) :
    Lies (⟨[], kind⟩ :: scopes) path first outer block := by
  cases lies with
  | outside none =>
      refine .inside 0 ⟨[], kind⟩ rfl contains (List.forall_mem_cons.mpr ⟨?_, ?_⟩)
      · exact fun _ => List.prefix_rfl
      · exact fun other member around => absurd around (none other member)
  | inside index scope here inner innermost =>
      rw [Nat.add_assoc, Nat.add_comm 1]
      exact .inside (index + 1) scope here inner
        (List.forall_mem_cons.mpr ⟨fun _ => List.nil_prefix, innermost⟩)

theorem skip {scope : Site} (lies : Lies scopes path (first + 1) outer block)
    (elsewhere : ¬scope.Contains path) : Lies (scope :: scopes) path first outer block := by
  rw [← List.singleton_append]
  exact lies.append_right (by simpa using elsewhere)

theorem unique (ordered : Tree.InPreorder scopes) {other : Nat}
    (lies : Lies scopes path first outer block) (too : Lies scopes path first outer other) :
    block = other := by
  cases lies with
  | outside none =>
      cases too with
      | outside => rfl
      | inside index scope here contains =>
          exact absurd contains (none scope (List.mem_of_getElem? here))
  | inside index scope here contains innermost =>
      cases too with
      | outside none => exact absurd contains (none scope (List.mem_of_getElem? here))
      | inside position second there around deepest =>
          have below := innermost second (List.mem_of_getElem? there) around
          have above := deepest scope (List.mem_of_getElem? here) contains
          have samePath : scope.path = second.path :=
            above.eq_of_length (Nat.le_antisymm above.length_le below.length_le)
          have distinct : (scopes.map (·.path)).Nodup := by
            refine List.Pairwise.imp ?_ ordered
            rintro first _ before rfl
            exact List.lt_irrefl first before
          have bound : index < (scopes.map (·.path)).length := by
            rw [List.length_map]
            exact (List.getElem?_eq_some_iff.mp here).1
          have sameIndex : index = position :=
            (List.getElem?_inj bound distinct).mp (by simp [here, there, samePath])
          rw [sameIndex]

end Lies

/-! ## Trees in one scope -/

namespace Tree

def ShowsBlock (tree : Tree) (block : Nat) : Prop :=
  ∀ node ∈ tree.preorder, node.note.block = block

section

variable {kind : Kind} {location : Location} {text : String} {note : Note} {children : List Tree}

theorem showsBlock_mk {block : Nat} :
    ShowsBlock ⟨kind, location, text, note, children⟩ block ↔
      note.block = block ∧ ∀ child ∈ children, child.ShowsBlock block :=
  forall_mem_preorder

end

variable {tree : Tree} {block : Nat}

theorem ShowsBlock.note (shows : tree.ShowsBlock block) : tree.note.block = block :=
  shows tree (mem_preorder_self tree)

theorem ShowsBlock.child (shows : tree.ShowsBlock block) {child : Tree}
    (member : child ∈ tree.children) : child.ShowsBlock block :=
  fun node inside => shows node (mem_preorder_of_child member inside)

theorem ShowsBlock.at? (shows : tree.ShowsBlock block) {path : Path} {node : Tree}
    (found : tree.at? path = some node) : node.note.block = block :=
  shows node (mem_preorder_iff.mpr ⟨path, found⟩)

theorem showsBlock_stamp (block : Nat) (tree : Tree) : (tree.stamp block).ShowsBlock block := by
  induction tree using Tree.induction with
  | node tree induction =>
      obtain ⟨kind, location, text, note, children⟩ := tree
      rw [Numbering.stamp_mk, showsBlock_mk]
      exact ⟨rfl, by simpa using induction⟩

/-- A tree that has not been numbered yet lies where it is placed. -/
theorem ShowsBlock.place (unplaced : tree.ShowsBlock 0) (scope : Option Nat) :
    (Numbering.place scope tree).ShowsBlock (scope.getD 0) := by
  cases scope with
  | none => exact unplaced
  | some block => exact showsBlock_stamp block tree

/-! ## The scopes in a tree -/

variable {position : Nat} {trees : List Tree} {scope : Site}

theorem exists_of_mem_openingsFrom (member : scope ∈ openingsFrom position trees) :
    ∃ (index : Nat) (inner : Site), scope = inner.under (position + index) := by
  obtain ⟨index, _, inner, _, _, same⟩ := exists_of_mem_statementsFrom (List.mem_filter.mp member).1
  exact ⟨index, inner, same⟩

theorem not_contains_nil_of_mem (member : scope ∈ openingsFrom position trees) :
    ¬scope.Contains [] := by
  obtain ⟨_, _, rfl⟩ := exists_of_mem_openingsFrom member
  exact Site.not_contains_nil

theorem not_contains_of_lt (member : scope ∈ openingsFrom position trees) {index : Nat}
    (before : index < position) (path : Path) : ¬scope.Contains (index :: path) := by
  obtain ⟨_, _, rfl⟩ := exists_of_mem_openingsFrom member
  exact Site.not_contains_of_ne (by omega)

theorem exists_entry {tree : Tree} (shaped : tree.IsShaped) (member : scope ∈ tree.openings) :
    ∃ node, tree.at? scope.entry = some node ∧
      (scope.entry = scope.path ∨
        scope.entry = scope.path ++ [1] ∧ node.kind = .parameters) := by
  obtain ⟨inside, opens⟩ := List.mem_filter.mp member
  obtain ⟨⟨kind, location, text, note, children⟩, found, same⟩ := hasAt_of_mem_statements inside
  have here := IsShaped.at? shaped found
  obtain ⟨path, scopeKind⟩ := scope
  obtain rfl : kind = scopeKind := same
  cases kind with
  | block => exact ⟨_, found, .inl rfl⟩
  | function =>
      obtain ⟨_, parameters, _, _, _, _, _, rfl, _, _, isList⟩ := here.function
      exact ⟨parameters, by simp [Site.entry, at?_append, found, at?], .inr ⟨rfl, isList⟩⟩
  | prototype =>
      obtain ⟨_, parameters, _, rfl, _, _, isList⟩ := here.prototype
      exact ⟨parameters, by simp [Site.entry, at?_append, found, at?], .inr ⟨rfl, isList⟩⟩
  | _ => simp [Kind.opensScope] at opens

/-- No other scope lies around the beginning of a scope and inside it. -/
theorem lies_entry {tree : Tree} (shaped : tree.IsShaped) {index : Nat}
    (here : tree.openings[index]? = some scope) (first outer : Nat) :
    Lies tree.openings scope.entry first outer (first + index) := by
  refine .inside index scope here scope.contains_entry ?_
  intro other member around
  have above := Site.prefix_of_contains around
  obtain ⟨node, found, itself | ⟨below, isList⟩⟩ :=
    exists_entry shaped (List.mem_of_getElem? here)
  · rwa [itself] at above
  · rw [below, List.prefix_concat_iff] at above
    refine above.resolve_left fun same => ?_
    obtain ⟨inside, opens⟩ := List.mem_filter.mp member
    obtain ⟨opened, there, kind⟩ := hasAt_of_mem_statements inside
    rw [same, ← below, found] at there
    obtain rfl := Option.some_inj.mp there
    rw [← kind, isList] at opens
    contradiction

end Tree

namespace Numbering

/-! ## The walk -/

structure IsNumbered (scopes : List Site) (numbered : Tree) (opened outer after : Nat) : Prop where
  after : after = opened + scopes.length
  lies : ∀ path node, numbered.at? path = some node →
    Lies scopes path (opened + 1) outer node.note.block

structure AreNumbered (scopes : List Site) (numbered : List Tree)
    (position opened outer after : Nat) : Prop where
  after : after = opened + scopes.length
  lies : ∀ (index : Nat) child path node, numbered[index]? = some child →
    child.at? path = some node →
      Lies scopes ((position + index) :: path) (opened + 1) outer node.note.block

theorem statements_numbered {trees : List Tree}
    (each : ∀ tree ∈ trees, ∀ scope opened, Ends (statement scope tree) opened
      fun numbered after => IsNumbered tree.openings numbered opened (scope.getD 0) after)
    (scope : Option Nat) (position opened : Nat) :
    Ends (statements scope trees) opened fun numbered after =>
      AreNumbered (Tree.openingsFrom position trees) numbered position opened (scope.getD 0)
        after := by
  induction trees generalizing position opened with
  | nil => exact .pure ⟨by simp, by simp⟩
  | cons tree rest induction =>
      rw [List.forall_mem_cons] at each
      refine .bind ((each.1 scope opened).imp ?_)
      rintro first middle here
      refine .bind ((induction each.2 (position + 1) middle).imp ?_)
      rintro others after behind
      have between := here.after
      subst between
      refine .pure ⟨?_, ?_⟩
      · rw [behind.after, Tree.openingsFrom_cons, List.length_append, List.length_map,
          Nat.add_assoc]
      · intro index child path node found inside
        rw [Tree.openingsFrom_cons]
        cases index with
        | zero =>
            obtain rfl := Option.some_inj.mp found
            refine ((here.lies path node inside).under position).append_left ?_
            exact fun scope member => Tree.not_contains_of_lt member (Nat.lt_succ_self _) path
        | succ index =>
            have lies := behind.lies index child path node found inside
            rw [Nat.add_right_comm, Nat.add_assoc] at lies
            refine Lies.append_right ?_ ?_
            · rw [List.length_map]
              rwa [Nat.add_right_comm] at lies
            · intro scope member
              obtain ⟨inner, _, rfl⟩ := List.mem_map.mp member
              exact Site.not_contains_of_ne (by omega)

theorem block_placeNote {note : Note} (unplaced : note.block = 0) (scope : Option Nat) :
    (placeNote scope note).block = scope.getD 0 := by
  cases scope with
  | none => exact unplaced
  | some block => rfl

theorem place_numbered {tree : Tree} (unplaced : tree.ShowsBlock 0) (scope : Option Nat)
    (opened : Nat) : IsNumbered [] (place scope tree) opened (scope.getD 0) opened where
  after := rfl
  lies path node found := by
    rw [(unplaced.place scope).at? found]
    exact .nil

theorem IsNumbered.of_children {scopes : List Site} {kind : Kind} {location : Location}
    {text : String} {note : Note} {children : List Tree} {opened outer after : Nat}
    (counted : after = opened + scopes.length)
    (root : Lies scopes [] (opened + 1) outer note.block)
    (below : ∀ (index : Nat) child, children[index]? = some child → ∀ path node,
      child.at? path = some node →
        Lies scopes (index :: path) (opened + 1) outer node.note.block) :
    IsNumbered scopes ⟨kind, location, text, note, children⟩ opened outer after where
  after := counted
  lies path node found := by
    cases path with
    | nil =>
        obtain rfl := Option.some_inj.mp found
        exact root
    | cons index rest =>
        obtain ⟨child, isChild, inside⟩ := Option.bind_eq_some_iff.mp found
        exact below index child isChild rest node inside

/-- The declarator of a function and the function itself lie outside its scope, the parameters
inside. -/
theorem heading_numbered {kind : Kind} (isHeading : kind = .function ∨ kind = .prototype)
    {declarator parameters : Tree} {bodies numbered : List Tree} {location : Location}
    {text : String} {note : Note} {scopes : List Site} {opened after : Nat}
    (unplaced : Tree.ShowsBlock ⟨kind, location, text, note, declarator :: parameters :: bodies⟩ 0)
    (scope : Option Nat) (elsewhere : ∀ index < 2, ∀ path, ∀ scope ∈ scopes,
      ¬scope.Contains (index :: path)) (above : ∀ scope ∈ scopes, ¬scope.Contains [])
    (counted : after = opened + 1 + scopes.length)
    (below : ∀ (index : Nat) body, numbered[index]? = some body → ∀ path node,
      body.at? path = some node →
        Lies scopes ((index + 2) :: path) (opened + 1 + 1) (opened + 1) node.note.block) :
    IsNumbered (⟨[], kind⟩ :: scopes)
      ⟨kind, location, text, placeNote scope note,
        place scope declarator :: parameters.stamp (opened + 1) :: numbered⟩
      opened (scope.getD 0) after := by
  have contains (index : Nat) (path : Path) :
      Site.Contains ⟨[], kind⟩ (index :: path) ↔ 1 ≤ index := by
    rcases isHeading with rfl | rfl <;> simp [Site.Contains]
  refine .of_children ?_ ?_ ?_
  · rw [counted, List.length_cons]
    omega
  · rw [block_placeNote unplaced.note]
    refine .skip (.outside above) ?_
    rcases isHeading with rfl | rfl <;> simp [Site.Contains]
  · intro index child isChild path node inside
    rcases index with _ | _ | index
    · obtain rfl := Option.some_inj.mp isChild
      rw [((unplaced.child List.mem_cons_self).place scope).at? inside]
      exact .skip (.outside (elsewhere 0 (by decide) path)) (by simp [contains])
    · obtain rfl := Option.some_inj.mp isChild
      rw [(Tree.showsBlock_stamp (opened + 1) parameters).at? inside]
      exact .enter (.outside (elsewhere 1 (by decide) path)) (by simp [contains])
    · exact .enter (below index child isChild path node inside) (by simp [contains])

theorem statement_numbered (tree : Tree) (shaped : tree.IsShaped) (unplaced : tree.ShowsBlock 0)
    (scope : Option Nat) (opened : Nat) :
    Ends (statement scope tree) opened fun numbered after =>
      IsNumbered tree.openings numbered opened (scope.getD 0) after := by
  induction tree using Tree.statementInduction generalizing scope opened with
  | root location text note children induction =>
      rw [statement]
      refine .bind ((statements_numbered (fun child member => induction child member
        (shaped.child member) (unplaced.child member)) scope 0 opened).imp ?_)
      intro numbered after below
      rw [Tree.openings_root]
      refine .pure (.of_children below.after ?_ ?_)
      · rw [block_placeNote unplaced.note]
        exact .outside fun scope => Tree.not_contains_nil_of_mem
      · intro index child isChild path node inside
        simpa using below.lies index child path node isChild inside
  | block location text note children induction =>
      rw [statement]
      refine .bind (.run (.bind ((statements_numbered (fun child member => induction child member
        (shaped.child member) (unplaced.child member)) _ 0 _).imp ?_)))
      intro numbered after below
      have counted : after = opened + 1 + (Tree.openingsFrom 0 children).length := below.after
      rw [Tree.openings_block]
      refine .pure (.of_children ?_ ?_ ?_)
      · rw [counted, List.length_cons]
        omega
      · refine .enter ?_ List.prefix_rfl
        exact .outside fun scope => Tree.not_contains_nil_of_mem
      · intro index child isChild path node inside
        have lies := below.lies index child path node isChild inside
        rw [Nat.zero_add] at lies
        exact .enter lies List.nil_prefix
  | function location text note declarator parameters rest induction =>
      obtain ⟨_, _, place, word, bodyNote, children, name, same, _, declared, _⟩ := shaped.function
      cases same
      rw [statement, declared]
      simp only [Option.isNone_some, Bool.false_eq_true, if_false]
      have body : Tree.IsShaped ⟨.block, place, word, bodyNote, children⟩ :=
        shaped.child (by simp)
      have unplacedBody : Tree.ShowsBlock ⟨.block, place, word, bodyNote, children⟩ 0 :=
        unplaced.child (by simp)
      refine .bind (.run (.bind (.bind ((statements_numbered (fun child member =>
        induction _ List.mem_cons_self child member (body.child member)
          (unplacedBody.child member)) _ 0 _).imp ?_))))
      intro numbered after below
      have counted : after = opened + 1 + (Tree.openingsFrom 0 children).length := below.after
      -- The body opens no scope besides the one that its function has opened.
      have inBody : IsNumbered (Tree.openingsFrom 0 children)
          ⟨.block, place, word, { bodyNote with block := opened + 1 }, numbered⟩
            (opened + 1) (opened + 1) after := by
        refine .of_children counted (.outside fun scope => Tree.not_contains_nil_of_mem) ?_
        intro index child isChild path node inside
        have lies := below.lies index child path node isChild inside
        rwa [Nat.zero_add] at lies
      rw [Tree.openings_function]
      refine .pure (.pure (heading_numbered (.inl rfl) unplaced scope ?_ ?_ ?_ ?_))
      · intro index before path scope member
        obtain ⟨inner, _, rfl⟩ := List.mem_map.mp member
        exact Site.not_contains_of_ne (by omega)
      · intro scope member
        obtain ⟨inner, _, rfl⟩ := List.mem_map.mp member
        exact Site.not_contains_nil
      · rw [counted, List.length_map]
      · intro index body isBody path node inside
        rcases index with _ | index
        · obtain rfl := Option.some_inj.mp isBody
          exact (inBody.lies path node inside).under 2
        · simp at isBody
  | prototype location text note declarator parameters rest =>
      obtain ⟨_, _, name, same, _, declared, _⟩ := shaped.prototype
      cases same
      rw [statement, heading, declared]
      simp only [Option.isNone_some, Bool.false_eq_true, if_false]
      rw [Tree.openings_prototype]
      refine .bind (.run (.pure (heading_numbered (.inr rfl) unplaced scope ?_ ?_ rfl ?_))) <;> simp
  | control kind location text note test bodies control induction =>
      rw [statement_control control]
      refine .bind ((statements_numbered (fun body member => induction body member
        (shaped.child (List.mem_cons_of_mem _ member))
        (unplaced.child (List.mem_cons_of_mem _ member))) scope 1 opened).imp ?_)
      intro numbered after below
      rw [Tree.openings_control _ _ _ control]
      refine .pure (.of_children below.after ?_ ?_)
      · rw [block_placeNote unplaced.note]
        exact .outside fun scope => Tree.not_contains_nil_of_mem
      · intro index child isChild path node inside
        cases index with
        | zero =>
            obtain rfl := Option.some_inj.mp isChild
            -- The test lies in the scope around the statement.
            rw [((unplaced.child List.mem_cons_self).place scope).at? inside]
            exact .outside fun scope member => Tree.not_contains_of_lt member Nat.one_pos path
        | succ index =>
            rw [Nat.add_comm]
            exact below.lies index child path node isChild inside
  | simple tree simple =>
      rw [statement_simple simple]
      rw [shaped.openings_simple simple]
      exact .pure (place_numbered unplaced scope opened)

end Numbering

end OcLang
