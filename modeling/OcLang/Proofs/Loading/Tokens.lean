import Mathlib.Tactic.IntervalCases
import OcLang.Json.Token
import OcLang.Proofs.Loading.Grammar

namespace OcLang.Json.Lexer

/-! # Tokens of written texts

The lexer reads every spelling of a string as the text that it spells, and every number
up to the character that ends it. -/

/-! ## Strings -/

theorem hexValue?_of_isHexDigit {c : Char} {value : Nat} (digit : IsHexDigit c value) :
    hexValue? c = some value := by
  have lower : ∀ value : Fin 16, hexValue? ("0123456789abcdef".toList[value]) = some value.val := by
    decide
  have upper : ∀ value : Fin 16, hexValue? ("0123456789ABCDEF".toList[value]) = some value.val := by
    decide
  rcases digit with found | found
  · rcases List.getElem?_eq_some_iff.mp found with ⟨few, rfl⟩
    exact lower ⟨value, few⟩
  · rcases List.getElem?_eq_some_iff.mp found with ⟨few, rfl⟩
    exact upper ⟨value, few⟩

section

variable {seen : List Token} {units : List Nat}

theorem step_hexEscape {c : Char} {digit : Nat} (isDigit : IsHexDigit c digit)
    (digits value : Nat) :
    step ⟨seen, .hexEscape units digits value⟩ c =
      some ⟨seen, if digits = 3 then .string ((value * 16 + digit) :: units)
        else .hexEscape units (digits + 1) (value * 16 + digit)⟩ := by
  simp only [step, hexValue?_of_isHexDigit isDigit, Option.map_some]
  split <;> rfl

theorem foldlM_unit {digits : List Char} {unit : Nat} (spelled : SpellsUnit digits unit) :
    ('\\' :: 'u' :: digits).foldlM step ⟨seen, .string units⟩ =
      some ⟨seen, .string (unit :: units)⟩ := by
  cases spelled with
  | @digits a b c d first second third fourth isFirst isSecond isThird isFourth =>
      have mark : ['\\', 'u'].foldlM step ⟨seen, .string units⟩ =
          some ⟨seen, .hexEscape units 0 0⟩ := rfl
      have all : ['\\', 'u', a, b, c, d] = ['\\', 'u'] ++ [a, b, c, d] := rfl
      rw [all, List.foldlM_append, mark]
      simp [step_hexEscape isFirst, step_hexEscape isSecond, step_hexEscape isThird,
        step_hexEscape isFourth]

theorem foldlM_short {letter c : Char} (escape : (letter, c) ∈ shortEscapes) :
    ['\\', letter].foldlM step ⟨seen, .string units⟩ =
      some ⟨seen, .string (c.toNat :: units)⟩ := by
  simp only [shortEscapes, List.mem_cons, List.not_mem_nil, or_false, Prod.mk.injEq] at escape
  rcases escape with ⟨rfl, rfl⟩ | ⟨rfl, rfl⟩ | ⟨rfl, rfl⟩ | ⟨rfl, rfl⟩ | ⟨rfl, rfl⟩ | ⟨rfl, rfl⟩ |
    ⟨rfl, rfl⟩ | ⟨rfl, rfl⟩
  all_goals rfl

end

theorem isHighSurrogate_iff (unit : Nat) :
    isHighSurrogate unit = true ↔ 0xD800 ≤ unit ∧ unit < 0xDC00 := by
  simp [isHighSurrogate]

theorem isLowSurrogate_iff (unit : Nat) :
    isLowSurrogate unit = true ↔ 0xDC00 ≤ unit ∧ unit < 0xE000 := by
  simp [isLowSurrogate]

theorem toNat_valid (c : Char) : c.toNat < 0xD800 ∨ 0xDFFF < c.toNat ∧ c.toNat < 0x110000 :=
  c.valid

theorem not_isHighSurrogate (c : Char) : isHighSurrogate c.toNat = false := by
  rw [← Bool.not_eq_true, isHighSurrogate_iff]
  have valid := toNat_valid c
  omega

theorem not_isLowSurrogate (c : Char) : isLowSurrogate c.toNat = false := by
  rw [← Bool.not_eq_true, isLowSurrogate_iff]
  have valid := toNat_valid c
  omega

theorem decodeUnits_char (c : Char) (units : List Nat) :
    decodeUnits (c.toNat :: units) = (decodeUnits units).map (c :: ·) := by
  cases units <;> simp [decodeUnits, not_isHighSurrogate c, not_isLowSurrogate c]

theorem decodeUnits_pair {c : Char} (far : 0x10000 ≤ c.toNat) (units : List Nat) :
    decodeUnits (highHalf c :: lowHalf c :: units) = (decodeUnits units).map (c :: ·) := by
  have valid := toNat_valid c
  have high : isHighSurrogate (highHalf c) = true := by
    rw [isHighSurrogate_iff, highHalf]
    omega
  have low : isLowSurrogate (lowHalf c) = true := by
    rw [isLowSurrogate_iff, lowHalf]
    omega
  have joined : joinSurrogates (highHalf c) (lowHalf c) = c.toNat := by
    unfold joinSurrogates highHalf lowHalf
    omega
  simp [decodeUnits, high, low, joined]

/-- Between quotes, units are collected that spell the text. -/
theorem exists_units {written text : List Char} (spelled : SpellsText written text) :
    ∃ units, decodeUnits units = some text ∧ ∀ seen before,
      written.foldlM step ⟨seen, .string before⟩ =
        some ⟨seen, .string (units.reverse ++ before)⟩ := by
  induction spelled with
  | nil => exact ⟨[], rfl, fun _ _ => rfl⟩
  | @plain c written text notQuote notBackslash notControl rest induction =>
      rcases induction with ⟨units, decoded, reads⟩
      refine ⟨c.toNat :: units, by simp [decodeUnits_char, decoded], fun seen before => ?_⟩
      have here : step ⟨seen, .string before⟩ c = some ⟨seen, .string (c.toNat :: before)⟩ := by
        simp [step, notQuote, notBackslash, Nat.not_lt.mpr notControl]
      rw [List.foldlM_cons, here]
      simp [reads]
  | @short letter c written text escape rest induction =>
      rcases induction with ⟨units, decoded, reads⟩
      refine ⟨c.toNat :: units, by simp [decodeUnits_char, decoded], fun seen before => ?_⟩
      have all : '\\' :: letter :: written = ['\\', letter] ++ written := rfl
      rw [all, List.foldlM_append, foldlM_short escape]
      simp [reads]
  | @unit digits c written text spelled rest induction =>
      rcases induction with ⟨units, decoded, reads⟩
      refine ⟨c.toNat :: units, by simp [decodeUnits_char, decoded], fun seen before => ?_⟩
      rw [← List.cons_append, ← List.cons_append, List.foldlM_append, foldlM_unit spelled]
      simp [reads]
  | @pair high low c written text far first second rest induction =>
      rcases induction with ⟨units, decoded, reads⟩
      refine ⟨highHalf c :: lowHalf c :: units, by simp [decodeUnits_pair far, decoded],
        fun seen before => ?_⟩
      rw [← List.cons_append, ← List.cons_append, List.foldlM_append, foldlM_unit first]
      simp only [Option.bind_eq_bind, Option.bind_some]
      rw [← List.cons_append, ← List.cons_append, List.foldlM_append, foldlM_unit second]
      simp [reads]

/-! ## Numbers -/

theorem isDigit_digitChar {digit : Nat} (small : digit < 10) :
    NumberPart.isDigit digit.digitChar = true := by
  interval_cases digit <;> rfl

/-- A number without leading zeros is one number for the lexer. -/
theorem foldlM_toDigits (value : Nat) (seen : List Token) :
    (Nat.toDigits 10 value).foldlM step ⟨seen, .between⟩ =
      some ⟨seen, .number (if value = 0 then .zero else .integer)
        (Nat.toDigits 10 value).reverse⟩ := by
  induction value using Nat.strongRecOn with
  | ind value induction =>
      by_cases small : value < 10
      · rw [Nat.toDigits_of_lt_base small]
        interval_cases value <;> rfl
      · have next : NumberPart.next? .integer (value % 10).digitChar = some .integer := by
          simp [NumberPart.next?, isDigit_digitChar (Nat.mod_lt value (by decide))]
        rw [Nat.toDigits_of_base_le (by decide) (by omega), List.foldlM_append,
          induction (value / 10) (by omega)]
        simp [step, next, show value / 10 ≠ 0 by omega, show value ≠ 0 by omega]

/-! ## Texts and their tokens -/

def ReadsWhole (text : List Char) (tokens : List Token) : Prop :=
  ∀ seen, text.foldlM step ⟨seen, .between⟩ = some ⟨tokens.reverse ++ seen, .between⟩

def Reads (text : List Char) (tokens : List Token) : Prop :=
  ∀ seen, ∃ state, text.foldlM step ⟨seen, .between⟩ = some state ∧
    finish state = some (seen.reverse ++ tokens)

def delimiters : List Char :=
  [' ', '\t', '\n', '\r', ',', ':', ']', '\x7d']

theorem next?_delimiter {c : Char} (delimiter : c ∈ delimiters) (part : NumberPart) :
    part.next? c = none := by
  have all : ∀ c ∈ delimiters, ∀ part : NumberPart, part.next? c = none := by
    intro c member part
    simp only [delimiters, List.mem_cons, List.not_mem_nil, or_false] at member
    rcases member with rfl | rfl | rfl | rfl | rfl | rfl | rfl | rfl <;> cases part <;> rfl
  exact all c delimiter part

theorem step_delimiter {state : State} {tokens : List Token}
    (finished : finish state = some tokens) {c : Char} (delimiter : c ∈ delimiters) :
    step state c = step ⟨tokens.reverse, .between⟩ c := by
  rcases state with ⟨seen, mode⟩
  cases mode with
  | between =>
      cases finished
      rw [List.reverse_reverse]
  | number part characters =>
      simp only [finish] at finished
      split at finished
      · rename_i complete
        cases finished
        simp [step, next?_delimiter delimiter, complete, State.emit]
      · contradiction
  | _ => contradiction

section

variable {text more : List Char} {tokens others : List Token} {c : Char}

theorem ReadsWhole.reads (whole : ReadsWhole text tokens) : Reads text tokens := by
  intro seen
  exact ⟨_, whole seen, by simp [finish]⟩

theorem ReadsWhole.append_reads (whole : ReadsWhole text tokens) (reads : Reads more others) :
    Reads (text ++ more) (tokens ++ others) := by
  intro seen
  rcases reads (tokens.reverse ++ seen) with ⟨state, ends, finished⟩
  refine ⟨state, ?_, ?_⟩
  · rw [List.foldlM_append, whole seen]
    exact ends
  · simpa using finished

theorem ReadsWhole.append (whole : ReadsWhole text tokens) (next : ReadsWhole more others) :
    ReadsWhole (text ++ more) (tokens ++ others) := by
  intro seen
  rw [List.foldlM_append, whole seen]
  simpa using next (tokens.reverse ++ seen)

/-- Behind any text a delimiter goes on as between tokens. -/
theorem Reads.append_delimited (reads : Reads text tokens) (delimiter : c ∈ delimiters)
    (next : ReadsWhole (c :: more) others) :
    ReadsWhole (text ++ c :: more) (tokens ++ others) := by
  intro seen
  rcases reads seen with ⟨state, ends, finished⟩
  have same := next (seen.reverse ++ tokens).reverse
  rw [List.foldlM_append, ends]
  simp only [Option.bind_eq_bind, Option.bind_some]
  rw [List.foldlM_cons, step_delimiter finished delimiter, ← List.foldlM_cons, same]
  simp

theorem Reads.separated (reads : Reads text tokens) {separator : Token}
    (delimiter : c ∈ delimiters) (separates : ReadsWhole [c] [separator])
    (next : Reads more others) : Reads (text ++ c :: more) (tokens ++ separator :: others) := by
  simpa using (reads.append_delimited delimiter separates).append_reads next

theorem Reads.enclosed {opening : Char} {first last : Token} (opens : ReadsWhole [opening] [first])
    (reads : Reads text tokens) (delimiter : c ∈ delimiters) (closes : ReadsWhole [c] [last]) :
    Reads (opening :: (text ++ [c])) (first :: (tokens ++ [last])) :=
  ((opens.append_reads reads).append_delimited delimiter closes).reads

/-! ### Blanks -/

theorem readsWhole_blank {blank : List Char} (isBlank : IsBlank blank) : ReadsWhole blank [] := by
  intro seen
  induction blank with
  | nil => rfl
  | cons c rest induction =>
      have here : step ⟨seen, .between⟩ c = some ⟨seen, .between⟩ := by
        rcases isBlank c List.mem_cons_self with rfl | rfl | rfl | rfl <;> rfl
      rw [List.foldlM_cons, here]
      exact induction fun c member => isBlank c (List.mem_cons_of_mem _ member)

theorem Reads.append_blank (reads : Reads text tokens) {blank : List Char}
    (isBlank : IsBlank blank) : Reads (text ++ blank) tokens := by
  cases blank with
  | nil => simpa using reads
  | cons c rest =>
      have delimiter : c ∈ delimiters := by
        rcases isBlank c List.mem_cons_self with rfl | rfl | rfl | rfl <;> decide
      simpa using (reads.append_delimited delimiter (readsWhole_blank isBlank)).reads

end

/-! ### Strings and numbers -/

theorem readsWhole_string {written : List Char} {text : String}
    (spelled : SpellsText written text.toList) :
    ReadsWhole ('"' :: (written ++ ['"'])) [.string (some text)] := by
  intro seen
  rcases exists_units spelled with ⟨units, decoded, reads⟩
  have quote : step ⟨seen, .between⟩ '"' = some ⟨seen, .string []⟩ := rfl
  rw [List.foldlM_cons, quote]
  simp only [Option.bind_eq_bind, Option.bind_some]
  rw [List.foldlM_append, reads]
  simp [step, State.emit, textOfUnits, decoded]

theorem reads_number (value : Nat) : Reads value.repr.toList [.number value.repr] := by
  intro seen
  rw [Nat.toList_repr]
  refine ⟨_, foldlM_toDigits value seen, ?_⟩
  by_cases zero : value = 0 <;>
    simp [finish, zero, NumberPart.isComplete, Nat.repr_eq_ofList_toDigits]

end OcLang.Json.Lexer
