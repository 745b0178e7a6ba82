import Mathlib.Data.List.Infix
import OcLang.Spelling
import OcLang.Proofs.Spelling.Edits

namespace OcLang.Spelling

/-! # Distances row by row

What is kept of a whole table of distances is its latest row. Each entry is made
from the row above it and from the entries to its left, all of which are there. -/

/-! ## What a row holds -/

def row (source target : List Char) : List Nat :=
  target.inits.map (levenshtein source)

theorem row_nil (target : List Char) : row [] target = firstRow target := by
  apply List.ext_getElem
  · simp [row, firstRow]
  · intro column inside _
    have short : column ≤ target.length := by simpa [row, Nat.lt_succ_iff] using inside
    simp [row, firstRow, short]

def rowBehind (source passed : List Char) : List Char → List Nat
  | [] => []
  | d :: target => levenshtein source (passed ++ [d]) :: rowBehind source (passed ++ [d]) target

theorem row_eq (source target : List Char) :
    row source target = source.length :: rowBehind source [] target := by
  have behind : ∀ passed, target.inits.map (fun start => levenshtein source (passed ++ start)) =
      levenshtein source passed :: rowBehind source passed target := by
    induction target with
    | nil => simp [rowBehind]
    | cons d target induction =>
        intro passed
        have further := induction (passed ++ [d])
        simp only [List.append_assoc, List.singleton_append] at further
        simp [rowBehind, Function.comp_def, further]
  have whole := behind []
  rwa [levenshtein_nil_right] at whole

theorem extendRow_rowBehind (c : Char) (source passed target : List Char) :
    extendRow c (levenshtein (source ++ [c]) passed) (levenshtein source passed)
        (rowBehind source passed target) target =
      rowBehind (source ++ [c]) passed target := by
  induction target generalizing passed with
  | nil => rfl
  | cons d target induction =>
      rw [rowBehind, rowBehind, extendRow, ← levenshtein_concat_concat, induction]

theorem nextRow_row (c : Char) (source target : List Char) :
    nextRow c target (row source target) = row (source ++ [c]) target := by
  have extended := extendRow_rowBehind c source [] target
  rw [levenshtein_nil_right, levenshtein_nil_right, List.length_append] at extended
  rw [row_eq, row_eq, nextRow, List.length_append]
  exact congrArg _ extended

theorem foldl_nextRow (read source target : List Char) :
    source.foldl (fun above c => nextRow c target above) (row read target) =
      row (read ++ source) target := by
  induction source generalizing read with
  | nil => simp
  | cons c source induction => simp [nextRow_row, induction]

theorem getElem?_row (source target : List Char) :
    (row source target)[target.length]? = some (levenshtein source target) := by
  simp [row]

theorem distance_eq_levenshtein (source target : String) :
    distance source target = levenshtein source.toList target.toList := by
  have length : (row source.toList target.toList).length = target.toList.length + 1 := by
    simp [row]
  have last : (row source.toList target.toList).getLast? =
      some (levenshtein source.toList target.toList) := by
    rw [List.getLast?_eq_getElem?, length, Nat.add_sub_cancel, getElem?_row]
  rw [distance, ← row_nil, foldl_nextRow, List.nil_append, List.getLastD_eq_getLast?, last]
  rfl

/-! ## No entry is missing -/

/-- Write the entry for two characters behind the others, if all that it is made from is
there: two entries of the row above and the one written before. -/
def writeColumn? (c : Char) (above written : List Nat) : Char × Nat → Option (List Nat)
  | (d, column) => do
      let diagonal ← above[column]?
      let left ← written[column]?
      let up ← above[column + 1]?
      return written ++ [min (min (diagonal + if c = d then 0 else 1) (left + 1)) (up + 1)]

def nextRow? (target : List Char) (above : List Nat) : Char × Nat → Option (List Nat)
  | (c, number) => target.zipIdx.foldlM (writeColumn? c above) [number + 1]

def distance? (source target : String) : Option Nat := do
  let target := target.toList
  let last ← source.toList.zipIdx.foldlM (nextRow? target) (firstRow target)
  last[target.length]?

theorem length_extendRow (c : Char) (left diagonal : Nat) {above : List Nat} {target : List Char}
    (long : above.length = target.length) :
    (extendRow c left diagonal above target).length = target.length := by
  induction target generalizing left diagonal above with
  | nil => simp [extendRow]
  | cons d target induction =>
      cases above with
      | nil => simp at long
      | cons up above => simp [extendRow, induction _ _ (Nat.succ.inj long)]

/-- With a row above that is long enough all entries are written. The entries before the
column are those of the two rows that were passed. -/
theorem foldlM_writeColumn? (c : Char) (left diagonal : Nat) (passed written : List Nat)
    {above : List Nat} {target : List Char} (beside : written.length = passed.length)
    (long : above.length = target.length) :
    (target.zipIdx passed.length).foldlM (writeColumn? c (passed ++ diagonal :: above))
        (written ++ [left]) =
      some (written ++ left :: extendRow c left diagonal above target) := by
  induction target generalizing left diagonal passed written above with
  | nil => simp [extendRow]
  | cons d target induction =>
      cases above with
      | nil => simp at long
      | cons up above =>
          -- The entry that is written is the one on the left for the next column, and the one
          -- above is its diagonal.
          let entry := min (min (diagonal + if c = d then 0 else 1) (left + 1)) (up + 1)
          have first : writeColumn? c (passed ++ diagonal :: up :: above) (written ++ [left])
              (d, passed.length) = some (written ++ [left] ++ [entry]) := by
            simp [writeColumn?, ← beside, entry]
          have others := induction entry up (passed ++ [diagonal]) (written ++ [left])
            (by simp [beside]) (Nat.succ.inj long)
          simp only [List.length_append, List.length_singleton, List.append_assoc,
            List.singleton_append] at others
          rw [List.zipIdx_cons, List.foldlM_cons, first]
          simpa [extendRow, entry] using others

theorem nextRow?_eq (c : Char) {target : List Char} (number : Nat) {above : List Nat}
    (long : above.length = target.length) :
    nextRow? target (number :: above) (c, number) =
      some (nextRow c target (number :: above)) :=
  foldlM_writeColumn? c (number + 1) number [] [] rfl long

theorem foldlM_nextRow? {source target : List Char} {number : Nat} {above : List Nat}
    (long : above.length = target.length) :
    (source.zipIdx number).foldlM (nextRow? target) (number :: above) =
      some (source.foldl (fun above c => nextRow c target above) (number :: above)) := by
  induction source generalizing number above with
  | nil => simp
  | cons c source induction =>
      rw [List.zipIdx_cons, List.foldlM_cons, nextRow?_eq c number long]
      exact induction (length_extendRow c (number + 1) number long)

theorem distance?_eq_some (source target : String) :
    distance? source target = some (distance source target) := by
  have first : firstRow target.toList = 0 :: (firstRow target.toList).tail := by
    simp [firstRow, List.range_succ_eq_map]
  have rows : source.toList.zipIdx.foldlM (nextRow? target.toList) (firstRow target.toList) =
      some (row source.toList target.toList) := by
    rw [first, foldlM_nextRow? (by simp [firstRow]), ← first, ← row_nil, foldl_nextRow,
      List.nil_append]
  rw [distance?, rows, distance_eq_levenshtein]
  exact getElem?_row source.toList target.toList

/-- Row by row, and with no entry missing, the computation finds the distance of two texts: the
number that the recursion gives, and the least number of edits from one to the other. -/
theorem distance_countsEdits (source target : String) :
    distance? source target = some (distance source target) ∧
      distance source target = levenshtein source.toList target.toList ∧
      IsLeast {number | Edits number source.toList target.toList} (distance source target) := by
  refine ⟨distance?_eq_some source target, distance_eq_levenshtein source target, ?_⟩
  rw [distance_eq_levenshtein]
  exact isLeast_levenshtein source.toList target.toList

end OcLang.Spelling
