import Mathlib.Data.List.DropRight
import Mathlib.Data.List.Infix
import Mathlib.Data.List.TakeWhile

/-!
# Paths

The names of POSIX, their lexical normal form as `posixpath.normpath` finds it,
and what a relative name without `..` does to it.  The alphabet is any type with
a slash and a point.
-/

namespace RiscosBuilder.Library.PosixPath

variable {α : Type} [DecidableEq α]

/-- A path in normal form: the slashes it begins with and its components. -/
structure Normal (α : Type) where
  root : Nat
  comps : List (List α)
  deriving DecidableEq, Repr

/-- The second path is the first one, or lies below it. -/
def Normal.Contains (directory path : Normal α) : Prop :=
  directory.root = path.root ∧ directory.comps <+: path.comps

instance (directory path : Normal α) : Decidable (directory.Contains path) :=
  inferInstanceAs (Decidable (_ ∧ _))

variable (slash dot : α)

/-- What a path names on its way, without the empty components and the points. -/
def components (path : List α) : List (List α) :=
  (path.splitOn slash).filter fun comp => comp ≠ [] ∧ comp ≠ [dot]

/-- The slashes that stay in front: two have a meaning of their own. -/
def root (path : List α) : Nat :=
  match (path.takeWhile (· == slash)).length with
  | 0 => 0
  | 2 => 2
  | _ => 1

/-- What the loop of `normpath` makes of a component. -/
def push (rooted : Bool) (comps : List (List α)) (comp : List α) :
    List (List α) :=
  if comp ≠ [dot, dot] ∨ (rooted = false ∧ comps = []) ∨
      comps.getLast? = some [dot, dot] then comps ++ [comp]
  else comps.dropLast

/-- The normal form of a path. -/
def normal (path : List α) : Normal α where
  root := root slash path
  comps := (components slash dot path).foldl
    (push dot (decide (root slash path ≠ 0))) []

/-- `posixpath.normpath`. -/
def normpath (path : List α) : List α :=
  let name := List.replicate (normal slash dot path).root slash ++
    [slash].intercalate (normal slash dot path).comps
  if name = [] then [dot] else name

/-- `posixpath.join`. -/
def join (path name : List α) : List α :=
  if name.head? = some slash then name
  else if path = [] ∨ path.getLast? = some slash then path ++ name
  else path ++ slash :: name

variable {slash dot}

theorem components_nil : components slash dot [] = [] :=
  rfl

theorem components_append_cons (front back : List α) :
    components slash dot (front ++ slash :: back) =
      components slash dot front ++ components slash dot back := by
  rw [components, List.splitOn_append_cons_self, List.filter_append]
  rfl

/-- Slashes at the end name nothing. -/
theorem components_rdropWhile (path : List α) :
    components slash dot (path.rdropWhile (· == slash)) =
      components slash dot path := by
  induction path using List.reverseRecOn with
  | nil => rfl
  | append_singleton path last ih =>
      by_cases same : last = slash
      · rw [List.rdropWhile_concat_pos _ _ _ (by simpa using same), ih, same,
          components_append_cons, components_nil, List.append_nil]
      · rw [List.rdropWhile_concat_neg _ _ _ (by simpa using same)]

/-- A point in front names nothing. -/
theorem components_dot_cons (path : List α) (apart : dot ≠ slash) :
    components slash dot (dot :: slash :: path) = components slash dot path := by
  have hdot : components slash dot [dot] = [] := by
    rw [components, List.splitOn_eq_singleton (by simpa using apart.symm)]
    simp
  have happend := @components_append_cons _ _ slash dot [dot] path
  rwa [hdot, List.nil_append] at happend

theorem root_eq_zero {path : List α} (relative : path.head? ≠ some slash) :
    root slash path = 0 := by
  cases path with
  | nil => rfl
  | cons first path =>
      have hfirst : (first == slash) = false := by simpa using relative
      simp [root, hfirst]

/-- A relative name leaves the root as it is. -/
theorem root_join {path name : List α} (relative : name.head? ≠ some slash) :
    root slash (join slash path name) = root slash path := by
  have hname : name.takeWhile (· == slash) = [] := by
    cases name with
    | nil => rfl
    | cons first name =>
        rw [List.takeWhile_cons_of_neg (by simpa using relative)]
  rw [join, if_neg relative]
  split_ifs with direct
  · rw [root, root, List.takeWhile_append, hname, List.append_nil]
    split_ifs with all
    · rw [all]
    · rfl
  · rw [not_or] at direct
    have hlast : ¬ (path.takeWhile (· == slash)).length = path.length := by
      intro all
      have hpath := (List.takeWhile_prefix (· == slash)).eq_of_length all
      obtain ⟨last, hlast⟩ : ∃ last, path.getLast? = some last :=
        ⟨_, List.getLast?_eq_some_getLast direct.1⟩
      have member : last ∈ path.takeWhile (· == slash) := by
        rw [hpath]
        exact List.mem_of_getLast? hlast
      have same := List.mem_takeWhile_imp member
      exact direct.2 (hlast.trans (congrArg some (by simpa using same)))
    rw [root, root, List.takeWhile_append, if_neg hlast]

theorem components_join {path name : List α} (relative : name.head? ≠ some slash) :
    components slash dot (join slash path name) =
      components slash dot path ++ components slash dot name := by
  rw [join, if_neg relative]
  split_ifs with direct
  · rcases direct with rfl | hlast
    · rw [components_nil, List.nil_append, List.nil_append]
    · obtain ⟨front, rfl⟩ := List.getLast?_eq_some_iff.mp hlast
      rw [List.append_assoc, List.singleton_append, components_append_cons,
        components_append_cons, components_nil, List.append_nil]
  · exact components_append_cons path name

/-- Components other than `..` are only added. -/
theorem foldl_push {rooted : Bool} {comps : List (List α)}
    (plain : [dot, dot] ∉ comps) (before : List (List α)) :
    comps.foldl (push dot rooted) before = before ++ comps := by
  induction comps generalizing before with
  | nil => exact (List.append_nil _).symm
  | cons comp comps ih =>
      have hcomp : comp ≠ [dot, dot] := fun same =>
        plain (same ▸ List.mem_cons_self)
      rw [List.foldl_cons, push, if_pos (Or.inl hcomp),
        ih fun member => plain (List.mem_cons_of_mem _ member), List.append_assoc,
        List.singleton_append]

theorem dots_not_mem_components {name : List α}
    (plain : [dot, dot] ∉ name.splitOn slash) :
    [dot, dot] ∉ components slash dot name :=
  fun member => plain (List.mem_filter.mp member).1

/-- A relative name without `..` only adds its components to a path. -/
theorem normal_join {path name : List α} (relative : name.head? ≠ some slash)
    (plain : [dot, dot] ∉ name.splitOn slash) :
    normal slash dot (join slash path name) =
      ⟨(normal slash dot path).root,
        (normal slash dot path).comps ++ components slash dot name⟩ := by
  rw [normal, root_join relative, components_join relative, List.foldl_append,
    foldl_push (dots_not_mem_components plain)]
  rfl

theorem contains_join {path name : List α} (relative : name.head? ≠ some slash)
    (plain : [dot, dot] ∉ name.splitOn slash) :
    (normal slash dot path).Contains
      (normal slash dot (join slash path name)) := by
  rw [normal_join relative plain]
  exact ⟨rfl, List.prefix_append _ _⟩

/-- The normal form depends on the root and the components. -/
theorem normal_congr {first second : List α}
    (hroot : root slash first = root slash second)
    (hcomps : components slash dot first = components slash dot second) :
    normal slash dot first = normal slash dot second := by
  rw [normal, normal, hroot, hcomps]

end RiscosBuilder.Library.PosixPath
