import OcLang.Json.Read
import OcLang.Proofs.Loading.Tokens

namespace OcLang.Json

/-! # Written documents are read back

However a document is written, its tokens take the reader from the place where a value
may begin to the place behind the value. -/

def Part.IsReadFrom (tokens : List Token) : Part → Prop
  | .document value | .padded value => ∀ frames,
      tokens.foldlM Reading.step ⟨frames, .value⟩ = some (Reading.finish frames value)
  | .items values => ∀ items frames,
      tokens.foldlM Reading.step ⟨.array items :: frames, .value⟩ =
        some ⟨.array (values.reverse ++ items) :: frames, .separator⟩
  | .member new => ∀ before key frames,
      tokens.foldlM Reading.step ⟨.object before key :: frames, .key⟩ =
        some ⟨.object (new :: before) new.1 :: frames, .separator⟩
  | .members new => ∀ before key frames, ∃ last,
      tokens.foldlM Reading.step ⟨.object before key :: frames, .key⟩ =
        some ⟨.object (new.reverse ++ before) last :: frames, .separator⟩

section

variable {tokens : List Token} {frames : List Frame} {reading : Reading}

theorem foldlM_firstItem {items : List Json}
    (reads : tokens.foldlM Reading.step ⟨.array items :: frames, .value⟩ = some reading)
    (behind : reading.expecting = .separator) :
    tokens.foldlM Reading.step ⟨.array items :: frames, .firstItem⟩ = some reading := by
  cases tokens with
  | nil =>
      cases reads
      contradiction
  | cons token rest =>
      cases token with
      | closeArray => contradiction
      | _ => exact reads

theorem foldlM_firstKey {members : List (Option String × Json)} {key : Option String}
    (reads : tokens.foldlM Reading.step ⟨.object members key :: frames, .key⟩ = some reading)
    (behind : reading.expecting = .separator) :
    tokens.foldlM Reading.step ⟨.object members key :: frames, .firstKey⟩ = some reading := by
  cases tokens with
  | nil =>
      cases reads
      contradiction
  | cons token rest =>
      cases token with
      | closeObject => contradiction
      | _ => exact reads

end

/-! ## The parts of a document -/

section

variable {tokens others : List Token} {value : Json}

theorem isReadFrom_array {values : List Json} (reads : (Part.items values).IsReadFrom tokens) :
    (Part.document (.array values)).IsReadFrom (.openArray :: (tokens ++ [.closeArray])) := by
  intro frames
  have first := foldlM_firstItem (reads [] frames) rfl
  have opens : Reading.step ⟨frames, .value⟩ .openArray =
      some ⟨.array [] :: frames, .firstItem⟩ := rfl
  rw [List.foldlM_cons, opens]
  simp only [Option.bind_eq_bind, Option.bind_some]
  rw [List.foldlM_append, first]
  simp [Reading.step]

theorem isReadFrom_object {members : List (Option String × Json)}
    (reads : (Part.members members).IsReadFrom tokens) :
    (Part.document (.object members)).IsReadFrom (.openObject :: (tokens ++ [.closeObject])) := by
  intro frames
  rcases reads [] none frames with ⟨last, reads⟩
  have first := foldlM_firstKey reads rfl
  have opens : Reading.step ⟨frames, .value⟩ .openObject =
      some ⟨.object [] none :: frames, .firstKey⟩ := rfl
  rw [List.foldlM_cons, opens]
  simp only [Option.bind_eq_bind, Option.bind_some]
  rw [List.foldlM_append, first]
  simp [Reading.step]

theorem isReadFrom_lastItem (reads : (Part.padded value).IsReadFrom tokens) :
    (Part.items [value]).IsReadFrom tokens :=
  fun items frames => reads (.array items :: frames)

theorem isReadFrom_item {values : List Json} (reads : (Part.padded value).IsReadFrom tokens)
    (rest : (Part.items values).IsReadFrom others) :
    (Part.items (value :: values)).IsReadFrom (tokens ++ .comma :: others) := by
  intro items frames
  rw [List.foldlM_append, reads]
  have comma : Reading.step (Reading.finish (.array items :: frames) value) .comma =
      some ⟨.array (value :: items) :: frames, .value⟩ := rfl
  simp only [Option.bind_eq_bind, Option.bind_some]
  rw [List.foldlM_cons, comma]
  simpa using rest (value :: items) frames

theorem isReadFrom_member {name : String} (reads : (Part.padded value).IsReadFrom tokens) :
    (Part.member (some name, value)).IsReadFrom (.string (some name) :: .colon :: tokens) :=
  fun members _ frames => reads (.object members (some name) :: frames)

theorem isReadFrom_lastMember {member : Option String × Json}
    (reads : (Part.member member).IsReadFrom tokens) :
    (Part.members [member]).IsReadFrom tokens :=
  fun members key frames => ⟨member.1, reads members key frames⟩

theorem isReadFrom_nextMember {member : Option String × Json}
    {members : List (Option String × Json)} (reads : (Part.member member).IsReadFrom tokens)
    (rest : (Part.members members).IsReadFrom others) :
    (Part.members (member :: members)).IsReadFrom (tokens ++ .comma :: others) := by
  intro before key frames
  rcases rest (member :: before) member.1 frames with ⟨last, rest⟩
  refine ⟨last, ?_⟩
  rw [List.foldlM_append, reads]
  have comma : Reading.step ⟨.object (member :: before) member.1 :: frames, .separator⟩ .comma =
      some ⟨.object (member :: before) member.1 :: frames, .key⟩ := rfl
  simp only [Option.bind_eq_bind, Option.bind_some]
  rw [List.foldlM_cons, comma]
  simpa using rest

end

/-! ## Whole documents -/

theorem reads_key {key : List Char} {name : String}
    (named : Spells key (.padded (.string (some name)))) :
    Lexer.Reads key [.string (some name)] := by
  cases named with
  | padded blankBefore spelled blankAfter =>
      cases spelled with
      | string spelled =>
          have quoted := (Lexer.readsWhole_string spelled).reads
          exact (Lexer.readsWhole_blank blankBefore).append_reads (quoted.append_blank blankAfter)

theorem exists_tokens {written : List Char} {part : Part} (spelled : Spells written part) :
    ∃ tokens, Lexer.Reads written tokens ∧ part.IsReadFrom tokens := by
  induction spelled with
  | string spelled =>
      exact ⟨_, (Lexer.readsWhole_string spelled).reads, fun _ => rfl⟩
  | number value => exact ⟨_, Lexer.reads_number value, fun _ => rfl⟩
  | emptyArray isBlank =>
      have inside := (Lexer.readsWhole_blank isBlank).reads
      exact ⟨_, .enclosed (fun _ => rfl) inside (by decide) (fun _ => rfl), fun _ => rfl⟩
  | array spelled induction =>
      rcases induction with ⟨tokens, inside, reads⟩
      exact ⟨_, .enclosed (fun _ => rfl) inside (by decide) (fun _ => rfl), isReadFrom_array reads⟩
  | emptyObject isBlank =>
      have inside := (Lexer.readsWhole_blank isBlank).reads
      exact ⟨_, .enclosed (fun _ => rfl) inside (by decide) (fun _ => rfl), fun _ => rfl⟩
  | object spelled induction =>
      rcases induction with ⟨tokens, inside, reads⟩
      exact ⟨_, .enclosed (fun _ => rfl) inside (by decide) (fun _ => rfl), isReadFrom_object reads⟩
  | padded blankBefore spelled blankAfter induction =>
      rcases induction with ⟨tokens, inside, reads⟩
      exact ⟨tokens, (Lexer.readsWhole_blank blankBefore).append_reads
        (inside.append_blank blankAfter), reads⟩
  | lastItem spelled induction =>
      rcases induction with ⟨tokens, inside, reads⟩
      exact ⟨tokens, inside, isReadFrom_lastItem reads⟩
  | item spelled rest first others =>
      rcases first with ⟨tokens, inside, reads⟩
      rcases others with ⟨more, behind, readsRest⟩
      exact ⟨_, inside.separated (by decide) (fun _ => rfl) behind, isReadFrom_item reads readsRest⟩
  | member named spelled key induction =>
      rcases induction with ⟨tokens, inside, reads⟩
      exact ⟨_, (reads_key named).separated (by decide) (fun _ => rfl) inside,
        isReadFrom_member reads⟩
  | lastMember spelled induction =>
      rcases induction with ⟨tokens, inside, reads⟩
      exact ⟨tokens, inside, isReadFrom_lastMember reads⟩
  | nextMember spelled rest first others =>
      rcases first with ⟨tokens, inside, reads⟩
      rcases others with ⟨more, behind, readsRest⟩
      exact ⟨_, inside.separated (by decide) (fun _ => rfl) behind,
        isReadFrom_nextMember reads readsRest⟩

theorem read?_of_spells {text : String} {document : Json}
    (spelled : Spells text.toList (.padded document)) : read? text = some document := by
  rcases exists_tokens spelled with ⟨found, inside, reads⟩
  rcases inside [] with ⟨state, ends, finished⟩
  have lexed : tokens text.toList = some found := by
    rw [tokens, ends]
    exact finished
  have read : found.foldlM Reading.step {} = some (Reading.finish [] document) := reads []
  rw [read?, lexed]
  simp [ofTokens?, read, Reading.finish]

end OcLang.Json
