import Mathlib.Data.List.Basic

/-!
# Splitting text

Lists cut at the first or at the last occurrence of a separator, and text cut into lines.
Cuts at every separator are `List.splitOn`. Each cut undoes the join it belongs to
(`splitFirst_append`, `splitLast_append`, `lines_flatMap`).
-/

namespace LdkSample

section Cuts

variable {α : Type} [DecidableEq α] {sep : α} {a b l : List α}

/-- What stands before the first `sep`, and what after it, if there is one. -/
def splitFirst (sep : α) : List α → List α × Option (List α)
  | [] => ([], none)
  | c :: cs =>
    if c = sep then ([], some cs)
    else
      let parts := splitFirst sep cs
      (c :: parts.1, parts.2)

/-- What stands after the last `sep`, and what before it, if there is one. -/
def splitLast (sep : α) (l : List α) : List α × Option (List α) :=
  let parts := splitFirst sep l.reverse
  (parts.1.reverse, parts.2.map List.reverse)

theorem splitFirst_of_not_mem (h : sep ∉ l) : splitFirst sep l = (l, none) := by
  induction l with
  | nil => rfl
  | cons c cs ih =>
    rw [List.mem_cons, not_or] at h
    rw [splitFirst, if_neg (Ne.symm h.1), ih h.2]

theorem splitFirst_append (h : sep ∉ a) : splitFirst sep (a ++ sep :: b) = (a, some b) := by
  induction a with
  | nil => rw [List.nil_append, splitFirst, if_pos rfl]
  | cons c cs ih =>
    rw [List.mem_cons, not_or] at h
    rw [List.cons_append, splitFirst, if_neg (Ne.symm h.1), ih h.2]

theorem splitFirst_eq_some : splitFirst sep l = (a, some b) ↔ l = a ++ sep :: b ∧ sep ∉ a := by
  constructor
  · intro h
    by_cases hmem : sep ∈ l
    · obtain ⟨pre, post, rfl, hpre⟩ := List.eq_append_cons_of_mem hmem
      rw [splitFirst_append hpre] at h
      cases h
      exact ⟨rfl, hpre⟩
    · rw [splitFirst_of_not_mem hmem] at h
      cases h
  · rintro ⟨rfl, h⟩
    exact splitFirst_append h

theorem splitFirst_eq_none : splitFirst sep l = (a, none) ↔ a = l ∧ sep ∉ l := by
  constructor
  · intro h
    by_cases hmem : sep ∈ l
    · obtain ⟨pre, post, rfl, hpre⟩ := List.eq_append_cons_of_mem hmem
      rw [splitFirst_append hpre] at h
      cases h
    · rw [splitFirst_of_not_mem hmem] at h
      cases h
      exact ⟨rfl, hmem⟩
  · rintro ⟨rfl, h⟩
    exact splitFirst_of_not_mem h

theorem splitLast_of_not_mem (h : sep ∉ l) : splitLast sep l = (l, none) := by
  unfold splitLast
  rw [splitFirst_of_not_mem (by rwa [List.mem_reverse])]
  dsimp only
  rw [List.reverse_reverse]
  rfl

theorem splitLast_append (h : sep ∉ b) : splitLast sep (a ++ sep :: b) = (b, some a) := by
  have hrev : (a ++ sep :: b).reverse = b.reverse ++ sep :: a.reverse := by simp
  unfold splitLast
  rw [hrev, splitFirst_append (by rwa [List.mem_reverse])]
  dsimp only
  rw [List.reverse_reverse, Option.map_some, List.reverse_reverse]

end Cuts

section Lines

/-- A line without the carriage return at its end. -/
def dropCr (line : List Char) : List Char :=
  if line.getLast? = some '\r' then line.dropLast else line

/-- The lines of `cs`, the first of which begins with the characters of `line`, in reverse. -/
def linesFrom (line : List Char) : List Char → List (List Char)
  | [] => if line = [] then [] else [line.reverse]
  | c :: cs => if c = '\n' then dropCr line.reverse :: linesFrom [] cs else linesFrom (c :: line) cs

/-- Lines end with a line feed, or a carriage return and a line feed; the last one may end with
the text. -/
def lines (text : List Char) : List (List Char) := linesFrom [] text

variable {l cs : List Char}

theorem linesFrom_append (h : '\n' ∉ l) (line cs : List Char) :
    linesFrom line (l ++ cs) = linesFrom (l.reverse ++ line) cs := by
  induction l generalizing line with
  | nil => rfl
  | cons c l ih =>
    rw [List.mem_cons, not_or] at h
    rw [List.cons_append, linesFrom, if_neg (Ne.symm h.1), ih h.2]
    simp

theorem lines_cons (h : '\n' ∉ l) (cs : List Char) :
    lines (l ++ '\n' :: cs) = dropCr l :: lines cs := by
  unfold lines
  rw [linesFrom_append h, linesFrom, if_pos rfl, List.append_nil, List.reverse_reverse]

/-- Lines that are written with a line feed each are read back. -/
theorem lines_flatMap {ls : List (List Char)} (h : ∀ l ∈ ls, '\n' ∉ l ∧ l.getLast? ≠ some '\r') :
    lines (ls.flatMap (· ++ ['\n'])) = ls := by
  induction ls with
  | nil => rfl
  | cons l ls ih =>
    rw [List.forall_mem_cons] at h
    rw [List.flatMap_cons, List.append_assoc, List.singleton_append, lines_cons h.1.1, ih h.2]
    unfold dropCr
    rw [if_neg h.1.2]

end Lines

example : lines "a\r\n\nb\r".toList = ["a".toList, [], "b\r".toList] := by decide

end LdkSample
