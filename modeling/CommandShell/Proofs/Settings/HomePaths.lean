import CommandShell.Settings
/-!
# Paths under the home directory

A path is the names between its separators, and a path is under a directory if it begins with the
names of the directory, name by name.  Joined to a directory, a path without a separator in front
goes on with its own names; one with a separator in front stands for itself, and the directory is
gone.  So a path that begins with a tilde is under the home directory, unless a second separator
stands behind the first: `~//etc` is `/etc`.

    components path                  the root, if the path begins there, and its names
    Within directory path            the components of the path begin with those of the directory
    components (join directory path) = those of both, for a relative path    (components_join)
    a tilde path is under the home directory ↔ what stands behind its separator is relative, or
    under the home directory by itself                                       (tilde_within_iff)
-/

namespace CommandShell.Path

open CommandShell.Text

inductive Component where
  /-- The separator at the front of a path. -/
  | root
  /-- A dot at the front of a path. -/
  | here
  | name (text : List Char)
  deriving DecidableEq

/-- The names of a path.  Separators may be repeated and stand at the end, and a dot between them
says nothing. -/
def names (path : List Char) : List (List Char) :=
  (path.splitOn '/').filter fun name => name ≠ [] && name ≠ ['.']

def components (path : List Char) : List Component :=
  let front : List Component :=
    if isAbsolute path then [.root]
    else if (path.splitOn '/').head? = some ['.'] then [.here]
    else []
  front ++ (names path).map .name

/-- The path is the directory, or lies under it. -/
def Within (directory path : List Char) : Prop := components directory <+: components path

instance (directory path : List Char) : Decidable (Within directory path) :=
  inferInstanceAs (Decidable (_ <+: _))

/-- What stands behind a tilde and its separator, if the path begins so, or is a tilde alone. -/
def behindTilde? : List Char → Option (List Char)
  | ['~'] => some []
  | '~' :: '/' :: rest => some rest
  | '~' :: '\\' :: rest => some rest
  | _ => none

/-! ## Joined paths -/

theorem names_append (a b : List Char) : names (a ++ '/' :: b) = names a ++ names b := by
  rw [names, List.splitOn_append_cons_self, List.filter_append]
  rfl

theorem components_absolute {path : List Char} (h : isAbsolute path = true) :
    components path = .root :: (names path).map .name := by
  rw [components, if_pos h]
  rfl

theorem isAbsolute_append {a : List Char} (h : isAbsolute a = true) (b : List Char) :
    isAbsolute (a ++ b) = true := by
  cases a with
  | nil => cases h
  | cons c a => exact h

/-- Between a directory and a relative path stands one separator, whether the directory ends with
one or not. -/
theorem names_join {directory path : List Char} (hdirectory : directory ≠ [])
    (hpath : isAbsolute path = false) :
    names (join directory path) = names directory ++ names path := by
  obtain ⟨front, c, hfront⟩ := (List.eq_nil_or_concat directory).resolve_left hdirectory
  rw [List.concat_eq_append] at hfront
  subst hfront
  have hends : (front ++ [c]).getLast?.all (· = '/') = true ↔ c = '/' := by
    rw [List.getLast?_concat]
    exact decide_eq_true_iff
  rw [join, hpath, if_neg Bool.false_ne_true]
  by_cases hc : c = '/'
  · rw [if_pos (hends.2 hc), hc]
    have hfront : names (front ++ ['/']) = names front := by
      rw [names_append]
      exact List.append_nil _
    rw [hfront, List.append_assoc]
    exact names_append front path
  · rw [if_neg fun h => hc (hends.1 h)]
    exact names_append _ path

theorem components_join {directory path : List Char} (hdirectory : isAbsolute directory = true)
    (hpath : isAbsolute path = false) :
    components (join directory path) = components directory ++ (names path).map .name := by
  have hne : directory ≠ [] := by
    rintro rfl
    cases hdirectory
  have habsolute : isAbsolute (join directory path) = true := by
    rw [join, hpath, if_neg Bool.false_ne_true]
    split <;> exact isAbsolute_append hdirectory _
  rw [components_absolute habsolute, names_join hne hpath, components_absolute hdirectory,
    List.map_append, List.cons_append]

theorem within_join_iff {directory path : List Char} (hdirectory : isAbsolute directory = true) :
    Within directory (join directory path) ↔
      (isAbsolute path = true → Within directory path) := by
  cases hpath : isAbsolute path with
  | true =>
    rw [join, hpath, if_pos rfl]
    exact ⟨fun h _ => h, fun h => h rfl⟩
  | false =>
    rw [Within, components_join hdirectory hpath]
    exact iff_of_true (List.prefix_append _ _) fun h => (Bool.false_ne_true h).elim

/-! ## Paths with a tilde -/

theorem expandTilde_of_behindTilde {path rest : List Char}
    (h : behindTilde? (trim path) = some rest) (home : List Char) :
    expandTilde (some home) path = home ∧ rest = [] ∨
      expandTilde (some home) path = join home rest := by
  unfold expandTilde
  generalize trim path = trimmed at h
  unfold behindTilde? at h
  split at h
  · exact Or.inl ⟨rfl, (Option.some.inj h).symm⟩
  · exact Or.inr (by rw [← Option.some.inj h]; rfl)
  · exact Or.inr (by rw [← Option.some.inj h]; rfl)
  · cases h

theorem within_expandTilde_iff {home path rest : List Char} (hhome : isAbsolute home = true)
    (h : behindTilde? (trim path) = some rest) :
    Within home (expandTilde (some home) path) ↔ (isAbsolute rest = true → Within home rest) := by
  rcases expandTilde_of_behindTilde h home with ⟨hself, rfl⟩ | hjoin
  · rw [hself]
    exact iff_of_true List.prefix_rfl fun h => (Bool.false_ne_true h).elim
  · rw [hjoin]
    exact within_join_iff hhome

/-- The settings file stands where the variable says, if its value begins with a tilde. -/
theorem path_eq_expandTilde {env : Environment} {path rest : List Char}
    (hpath : Assoc.get? Settings.pathVariable env = some (String.ofList path))
    (h : behindTilde? (trim path) = some rest) :
    (Settings.path env).toList = expandTilde (Settings.home? env) path := by
  have hblank : allBlank path = false := by
    rw [← Bool.not_eq_true]
    intro hall
    rw [(trim_eq_nil_iff path).2 (List.all_eq_true.1 hall)] at h
    cases h
  have hkept : (some (String.ofList path)).filter (fun p => !allBlank p.toList) =
      some (String.ofList path) := by
    simp [hblank]
  rw [Settings.path, hpath, hkept]
  simp

/-- **A path with a tilde is under the home directory exactly if what stands behind the tilde and
its separator is relative, or under the home directory by itself.**  So is the settings file that a
variable names by such a path. -/
theorem tilde_within_iff {home path rest : List Char} (hhome : isAbsolute home = true)
    (h : behindTilde? (trim path) = some rest) :
    (Within home (expandTilde (some home) path) ↔ (isAbsolute rest = true → Within home rest)) ∧
    ∀ env, Settings.home? env = some home →
      Assoc.get? Settings.pathVariable env = some (String.ofList path) →
      (Within home (Settings.path env).toList ↔ (isAbsolute rest = true → Within home rest)) := by
  refine ⟨within_expandTilde_iff hhome h, fun env henv hpath => ?_⟩
  rw [path_eq_expandTilde hpath h, henv]
  exact within_expandTilde_iff hhome h

/-- A backslash behind the tilde, blanks around the path, a directory that ends with a separator,
and repeated separators and a dot further on. -/
theorem tilde_within_across_separators :
    let home := "/home//ada/".toList
    let path := " ~\\b/.//c\t".toList
    let env := [("HOME", "/home//ada/"), (Settings.pathVariable, " ~\\b/.//c\t")]
    behindTilde? (trim path) = some "b/.//c".toList ∧
    expandTilde (some home) path = "/home//ada/b/.//c".toList ∧
    Within home (expandTilde (some home) path) ∧ Within home (Settings.path env).toList := by
  intro home path env
  have hhome : isAbsolute home = true := rfl
  have htilde : behindTilde? (trim path) = some "b/.//c".toList := by decide
  have hrelative : ¬ isAbsolute "b/.//c".toList = true := by decide
  obtain ⟨hexpanded, hsettings⟩ := tilde_within_iff hhome htilde
  exact ⟨htilde, by decide, hexpanded.2 fun h => absurd h hrelative,
    (hsettings env rfl rfl).2 fun h => absurd h hrelative⟩

/-- Behind a second separator the home directory is left. -/
theorem second_separator_leaves_home :
    ¬ ∀ home path rest : List Char, isAbsolute home = true →
      behindTilde? (trim path) = some rest → Within home (expandTilde (some home) path) := by
  intro h
  have hetc := h "/home/ada".toList "~//etc".toList "/etc".toList rfl (by decide)
  exact absurd hetc (by decide)

end CommandShell.Path
