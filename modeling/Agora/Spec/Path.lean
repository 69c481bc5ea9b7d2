import Agora.Code.StaticFileServer

/-! # What a path means, symbolic links aside -/

namespace Agora.Spec

def components (path : List Byte) : List (List Byte) := path.splitOn SLASH

/-- The directory that `name` leads to from `dir`. -/
def enter (absolute : Bool) (dir : List (List Byte)) (name : List Byte) : List (List Byte) :=
  if name = [] ∨ name = [DOT] then dir
  else if name = [DOT, DOT] then
    match dir.getLast? with
    | some last => if last = [DOT, DOT] then dir ++ [name] else dir.dropLast
    | none => if absolute then [] else [name]
  else dir ++ [name]

def isAbsolute (path : List Byte) : Bool := path.head? = some SLASH

/-- The names from the root, or from the working directory, to where `path` leads. -/
def lexical (path : List Byte) : List (List Byte) :=
  (components path).foldl (enter (isAbsolute path)) []

/-- `path` is `root`, a slash and a part that does not go up: it leads to `root` or inside of it. -/
structure Under (root path : List Byte) : Prop where
  relative : ∃ rel, path = root ++ SLASH :: rel ∧ [DOT, DOT] ∉ components rel
  inside : ∃ names, lexical path = lexical root ++ names

theorem components_slash (root rel : List Byte) :
    components (root ++ SLASH :: rel) = components root ++ components rel :=
  List.splitOn_append_cons_self root rel

theorem enter_down {absolute : Bool} {dir : List (List Byte)} {name : List Byte}
    (h : name ≠ [DOT, DOT]) : ∃ names, enter absolute dir name = dir ++ names := by
  unfold enter
  by_cases hstay : name = [] ∨ name = [DOT]
  · exact ⟨[], by rw [if_pos hstay, List.append_nil]⟩
  · exact ⟨[name], by rw [if_neg hstay, if_neg h]⟩

theorem foldl_enter_down {absolute : Bool} {names : List (List Byte)} (h : [DOT, DOT] ∉ names)
    (dir : List (List Byte)) : ∃ more, names.foldl (enter absolute) dir = dir ++ more := by
  induction names generalizing dir with
  | nil => exact ⟨[], by simp⟩
  | cons name names ih =>
    rw [List.mem_cons, not_or] at h
    obtain ⟨hname, hnames⟩ := h
    obtain ⟨first, hfirst⟩ := @enter_down absolute dir name (Ne.symm hname)
    obtain ⟨more, hmore⟩ := ih hnames (dir ++ first)
    exact ⟨first ++ more, by rw [List.foldl_cons, hfirst, hmore, List.append_assoc]⟩

theorem lexical_slash (root rel : List Byte) :
    lexical (root ++ SLASH :: rel) =
      (components rel).foldl (enter (isAbsolute (root ++ SLASH :: rel))) (lexical root) := by
  unfold lexical
  rw [components_slash, List.foldl_append]
  cases root with
  | nil => rfl
  | cons c root => rfl

theorem under_of_relative {root rel : List Byte} (h : [DOT, DOT] ∉ components rel) :
    Under root (root ++ SLASH :: rel) :=
  ⟨⟨rel, rfl, h⟩, by rw [lexical_slash]; exact foldl_enter_down h _⟩

theorem infix_of_mem_components {path name : List Byte} (h : name ∈ components path) :
    name <:+: path := by
  obtain ⟨i, hi⟩ := List.mem_iff_getElem?.mp h
  have hmem : name ∈ (components path).intersperse [SLASH] := by
    refine List.mem_iff_getElem?.mpr ⟨2 * i, ?_⟩
    rw [List.getElem?_intersperse_two_mul, hi]
  have hpath : [SLASH].intercalate (components path) = path := List.intercalate_splitOn SLASH
  exact hpath ▸ List.infix_of_mem_flatten hmem

end Agora.Spec
