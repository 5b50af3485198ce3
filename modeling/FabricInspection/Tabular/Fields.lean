import Mathlib.Data.List.Basic

namespace Tabular
variable {α : Type}

-- The fields of each terminated line.
def fields [DecidableEq α] (newline comma : α) (text : List α) : List (List (List α)) :=
  (text.splitOn newline).dropLast.map fun line => line.splitOn comma

def row (comma : α) (first : List α) (rest : List (List α)) : List α :=
  first ++ rest.flatMap fun cell => comma :: cell

section
variable {comma newline : α} {first : List α} {rest lines : List (List α)}

theorem row_snoc (first : List α) (rest : List (List α)) (cell : List α) :
    row comma first (rest ++ [cell]) = row comma first rest ++ comma :: cell := by
  simp [row]

theorem row_free (hf : newline ∉ first) (hr : ∀ cell ∈ rest, newline ∉ cell)
    (hc : newline ≠ comma) : newline ∉ row comma first rest := by
  rw [row, List.mem_append, List.mem_flatMap]
  rintro (h | ⟨cell, hcell, h⟩)
  · exact hf h
  · rcases List.mem_cons.mp h with h | h
    · exact hc h
    · exact hr cell hcell h

variable [DecidableEq α]

theorem row_splitOn (hf : comma ∉ first) (hr : ∀ cell ∈ rest, comma ∉ cell) :
    (row comma first rest).splitOn comma = first :: rest := by
  induction rest generalizing first with
  | nil =>
    rw [row, List.flatMap_nil, List.append_nil]
    exact List.splitOn_eq_singleton hf
  | cons cell rest ih =>
    have hrest := ih (hr cell List.mem_cons_self) fun c hc => hr c (List.mem_cons_of_mem _ hc)
    rw [row, List.flatMap_cons, List.cons_append, List.splitOn_append_cons_self_of_not_mem hf]
    exact congrArg (first :: ·) hrest

theorem lines_splitOn (h : ∀ line ∈ lines, newline ∉ line) :
    (lines.flatMap (· ++ [newline])).splitOn newline = lines ++ [[]] := by
  induction lines with
  | nil => exact List.splitOn_nil newline
  | cons line lines ih =>
    rw [List.flatMap_cons, List.append_assoc, List.singleton_append,
      List.splitOn_append_cons_self_of_not_mem (h line List.mem_cons_self),
      ih fun l hl => h l (List.mem_cons_of_mem _ hl), List.cons_append]

theorem rows_splitOn {rows : List (List α × List (List α))} (hc : newline ≠ comma)
    (h : ∀ r ∈ rows, newline ∉ r.1 ∧ ∀ cell ∈ r.2, newline ∉ cell) :
    (rows.flatMap fun r => row comma r.1 r.2 ++ [newline]).splitOn newline =
      (rows.map fun r => row comma r.1 r.2) ++ [[]] := by
  rw [← lines_splitOn, List.flatMap_map]
  intro line hline
  obtain ⟨r, hr, rfl⟩ := List.mem_map.mp hline
  exact row_free (h r hr).1 (h r hr).2 hc

theorem fields_rows {rows : List (List α × List (List α))} (hc : newline ≠ comma)
    (hcomma : ∀ r ∈ rows, comma ∉ r.1 ∧ ∀ cell ∈ r.2, comma ∉ cell)
    (hnewline : ∀ r ∈ rows, newline ∉ r.1 ∧ ∀ cell ∈ r.2, newline ∉ cell) :
    fields newline comma (rows.flatMap fun r => row comma r.1 r.2 ++ [newline]) =
      rows.map fun r => r.1 :: r.2 := by
  rw [fields, rows_splitOn hc hnewline, List.dropLast_concat, List.map_map]
  refine List.map_congr_left fun r hr => ?_
  exact row_splitOn (hcomma r hr).1 (hcomma r hr).2

end
end Tabular
