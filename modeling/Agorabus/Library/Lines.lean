import Mathlib.Data.List.Basic

namespace Lines

/-- The text between the line feeds; what comes after the last is a line if it is not empty. -/
def split : List Char → List (List Char)
  | [] => []
  | c :: cs =>
    if c = '\n' then [] :: split cs
    else match split cs with
      | [] => [[c]]
      | l :: ls => (c :: l) :: ls

def stripReturn (l : List Char) : List Char := if l.getLast? = some '\r' then l.dropLast else l

def read (text : String) : List String :=
  (split text.toList).map (fun l => String.ofList (stripReturn l))

def write (texts : List String) : String :=
  String.ofList (texts.flatMap (fun t => t.toList ++ ['\n']))

theorem split_line {l : List Char} (h : '\n' ∉ l) (rest : List Char) :
    split (l ++ '\n' :: rest) = l :: split rest := by
  induction l with
  | nil => rfl
  | cons c l ih =>
    rw [List.mem_cons, not_or] at h
    rw [List.cons_append, split, if_neg (Ne.symm h.1), ih h.2]

theorem split_write {texts : List String} (h : ∀ t ∈ texts, '\n' ∉ t.toList) :
    split (write texts).toList = texts.map String.toList := by
  rw [write, String.toList_ofList]
  induction texts with
  | nil => rfl
  | cons t texts ih =>
    rw [List.flatMap_cons, List.append_assoc, List.singleton_append,
      split_line (h t List.mem_cons_self), ih (fun u hu => h u (List.mem_cons_of_mem _ hu)),
      List.map_cons]

theorem read_write {texts : List String}
    (h : ∀ t ∈ texts, '\n' ∉ t.toList ∧ '\r' ∉ t.toList) : read (write texts) = texts := by
  rw [read, split_write (fun t ht => (h t ht).1), List.map_map]
  refine (List.map_congr_left (fun t ht => ?_)).trans (List.map_id texts)
  have hlast : t.toList.getLast? ≠ some '\r' :=
    fun he => (h t ht).2 (List.mem_of_getLast? he)
  rw [Function.comp_apply, stripReturn, if_neg hlast, String.ofList_toList, id]

end Lines
