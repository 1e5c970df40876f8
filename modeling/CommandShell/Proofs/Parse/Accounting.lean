import CommandShell.Parse.Flags
/-!
# Where the words of a line go

A word that looks like a flag is read as a flag wherever it stands before the first joint flag.
Every other word is a leftover, except the value of the flag right before it and what stands
behind the first joint flag.

    Names ps word p        the word is a flag of its own and names p
    TakesWord ps w next    the word w is such a flag and takes the next word as its value
    a line can be cut where no word takes the next one                     (extractFlags_append)
    the leftovers are the words at the positions that hold one             (extractFlags_leftovers)
    each word is a flag, a value, behind a joint flag, or a leftover       (words_accounted)
-/

namespace CommandShell

open CommandShell.Literal

/-! ## Words that name a parameter -/

namespace FlagWord

/-- The name of the flag that a word is. -/
def nameOf (word : String) : String := String.ofList (flagName word.toList)

/-- The word is a flag that names the parameter: neither a run of letters, nor one with its value
behind an equals sign. -/
structure Names (ps : List Parameter) (word : String) (p : Parameter) : Prop where
  flag : looksLikeFlag word.toList = true
  nonempty : flagName word.toList ≠ []
  plain : inline? (flagName word.toList) = none
  single : isBundle ps (flagName word.toList) = false
  known : Parameter.find? ps (nameOf word) = some p

/-- The word names a joint parameter, which takes the rest of the line. -/
def IsJoint (ps : List Parameter) (word : String) : Prop :=
  ∃ p, Names ps word p ∧ p.joint = true

/-- The word names a parameter that takes the next word as its value. -/
def TakesWord (ps : List Parameter) (word next : String) : Prop :=
  ∃ p, Names ps word p ∧ p.joint = false ∧ takes p.type next = true

/-- What is known of a word by how it is read. -/
inductive Reading (ps : List Parameter) (word : String) : FlagWord → Prop
  | leftover (h : looksLikeFlag word.toList = false) : Reading ps word .leftover
  | ignored (h : looksLikeFlag word.toList = true) (hno : ∀ p, ¬ Names ps word p) :
      Reading ps word .ignored
  | inline (name value : String) (h : looksLikeFlag word.toList = true)
      (hno : ∀ p, ¬ Names ps word p) : Reading ps word (.inline name value)
  | bundle (letters : List Char) (h : looksLikeFlag word.toList = true)
      (hno : ∀ p, ¬ Names ps word p) : Reading ps word (.bundle letters)
  | joint (p : Parameter) (h : Names ps word p) (hjoint : p.joint = true) :
      Reading ps word (.joint (nameOf word))
  | flag (p : Parameter) (h : Names ps word p) (hjoint : p.joint = false) :
      Reading ps word (.flag (nameOf word) p.type)

variable {ps : List Parameter} {word next : String} {p : Parameter}

theorem reading (ps : List Parameter) (word : String) : Reading ps word (ofWord ps word) := by
  unfold ofWord
  split
  · next hflag =>
    dsimp only
    split
    · next hempty => exact .ignored hflag fun p h => h.nonempty (by simpa using hempty)
    · next hempty =>
      split
      · next hinline =>
        exact .inline _ _ hflag fun p h => by simp [h.plain] at hinline
      · next hinline =>
        split
        · next hbundle => exact .bundle _ hflag fun p h => by simp [h.single] at hbundle
        · next hbundle =>
          split
          · next hfind => exact .ignored hflag fun p h => by cases hfind.symm.trans h.known
          · next p hfind =>
            have hnames : Names ps word p :=
              ⟨hflag, by simpa using hempty, hinline, by simpa using hbundle, hfind⟩
            split
            · next hjoint => exact .joint p hnames hjoint
            · next hjoint => exact .flag p hnames (by simpa using hjoint)
  · next hflag => exact .leftover (by simpa using hflag)

theorem reading_of {r : FlagWord} (h : ofWord ps word = r) : Reading ps word r :=
  h ▸ reading ps word

theorem Names.unique {q : Parameter} (hp : Names ps word p) (hq : Names ps word q) : p = q :=
  Option.some.inj (hp.known.symm.trans hq.known)

theorem Names.not_isJoint (h : Names ps word p) (hjoint : p.joint = false) : ¬ IsJoint ps word := by
  rintro ⟨q, hq, hqjoint⟩
  rw [h.unique hq, hqjoint] at hjoint
  cases hjoint

theorem Names.not_takesWord (h : Names ps word p) (htakes : ¬ takes p.type next = true) :
    ¬ TakesWord ps word next := by
  rintro ⟨q, hq, -, hqtakes⟩
  rw [h.unique hq] at htakes
  exact htakes hqtakes

theorem ofWord_of_names (h : Names ps word p) :
    ofWord ps word = if p.joint then .joint (nameOf word) else .flag (nameOf word) p.type := by
  have hempty : (flagName word.toList).isEmpty = false := by simp [h.nonempty]
  have hknown : Parameter.find? ps (String.ofList (flagName word.toList)) = some p := h.known
  simp only [ofWord, h.flag, hempty, h.plain, h.single, hknown, if_true]
  rfl

theorem not_isJoint_of_no_name (h : ∀ p, ¬ Names ps word p) : ¬ IsJoint ps word :=
  fun ⟨p, hp, _⟩ => h p hp

theorem not_takesWord_of_no_name (h : ∀ p, ¬ Names ps word p) : ¬ TakesWord ps word next :=
  fun ⟨p, hp, _⟩ => h p hp

theorem not_names_of_plain (ps : List Parameter) (h : looksLikeFlag word.toList = false)
    (p : Parameter) : ¬ Names ps word p := fun hp => by
  cases h.symm.trans hp.flag

/-- What a flag takes as its value does not look like a flag. -/
theorem looksLikeFlag_of_takes {type : ValueType} (h : takes type next = true) :
    looksLikeFlag next.toList = false := by
  unfold takes at h
  split at h
  · have hhead : next.toList.head? ≠ some '-' := fun hhead =>
      not_mem_of_readBool? h (List.mem_of_head? hhead)
    simp [looksLikeFlag, hhead]
  · simpa using h

/-- A flag takes any word that looks like no flag, for a truth value only one that is one. -/
theorem takes_iff {type : ValueType} (h : looksLikeFlag next.toList = false) :
    takes type next = true ↔ (type = .bool → (readBool? next.toList).isSome = true) := by
  unfold takes
  split
  · next htype => simp [htype]
  · next htype => simp [htype, h]

end FlagWord

open FlagWord

/-! ## Cutting a line -/

/-- Words that leave what follows them as it is: none is joint, and the last does not take the
first of those that follow. -/
structure Separate (ps : List Parameter) (pre post : List String) : Prop where
  joint : ∀ w ∈ pre, ¬ IsJoint ps w
  last : ∀ w next, pre.getLast? = some w → post.head? = some next → ¬ TakesWord ps w next

section Cut

variable {ps : List Parameter} {word : String} {pre rest post : List String}

theorem Separate.tail (h : Separate ps (word :: rest) post) : Separate ps rest post where
  joint w hw := h.joint w (List.mem_cons_of_mem _ hw)
  last w next hw := h.last w next (by simp [List.getLast?_cons, hw])

/-- A line can be cut where the word before does not take the one behind. -/
theorem extractFlags_append (e : Extraction) (h : Separate ps pre post) :
    extractFlags ps e (pre ++ post) = extractFlags ps (extractFlags ps e pre) post := by
  fun_induction extractFlags ps e pre with
  | case1 e => rfl
  | case2 e word rest hword ih =>
    rw [List.cons_append, extractFlags, hword]
    exact ih h.tail
  | case3 e word rest hword ih =>
    rw [List.cons_append, extractFlags, hword]
    exact ih h.tail
  | case4 e word rest name value hword ih =>
    rw [List.cons_append, extractFlags, hword]
    exact ih h.tail
  | case5 e word rest letters hword ih =>
    rw [List.cons_append, extractFlags, hword]
    exact ih h.tail
  | case6 e word rest name hword =>
    cases reading_of hword with
    | joint p hp hjoint => exact absurd ⟨p, hp, hjoint⟩ (h.joint word List.mem_cons_self)
  | case7 e word name type hword =>
    cases post with
    | nil =>
      show extractFlags ps e [word] = e.withFlag name .present
      rw [extractFlags, hword]
    | cons next more =>
      cases reading_of hword with
      | flag p hp hjoint =>
        have htakes : ¬ takes p.type next = true := fun htakes =>
          h.last word next rfl rfl ⟨p, hp, hjoint, htakes⟩
        rw [List.singleton_append, extractFlags, hword]
        dsimp only
        rw [if_neg htakes]
  | case8 e word name type hword next more htakes ih =>
    rw [List.cons_append, List.cons_append, extractFlags, hword]
    dsimp only
    rw [if_pos htakes]
    exact ih h.tail.tail
  | case9 e word name type hword next more htakes ih =>
    rw [List.cons_append, List.cons_append, extractFlags, hword]
    dsimp only
    rw [if_neg htakes]
    exact ih h.tail

/-- The first joint flag takes all words behind it. -/
theorem extractFlags_joint (e : Extraction) {p : Parameter} (hpre : ∀ w ∈ pre, ¬ IsJoint ps w)
    (hp : Names ps word p) (hjoint : p.joint = true) :
    extractFlags ps e (pre ++ word :: rest) =
      (extractFlags ps e pre).withFlag (nameOf word) (.text (Line.joined rest)) := by
  -- nothing takes a word that looks like a flag
  have hseparate : Separate ps pre (word :: rest) := ⟨hpre, fun w next _ hnext => by
    rintro ⟨q, -, -, htakes⟩
    cases hnext
    cases (looksLikeFlag_of_takes htakes).symm.trans hp.flag⟩
  rw [extractFlags_append e hseparate, extractFlags, ofWord_of_names hp, if_pos hjoint]

end Cut

/-! ## Positions of a line -/

/-- A word before the position names a joint parameter. -/
def BehindJoint (ps : List Parameter) (words : List String) (j : Nat) : Prop :=
  ∃ k flag, k < j ∧ words[k]? = some flag ∧ IsJoint ps flag

/-- The word at the position is taken by the flag right before it. -/
def IsValue (ps : List Parameter) (words : List String) (j : Nat) : Prop :=
  ∃ k flag word, k + 1 = j ∧ words[k]? = some flag ∧ words[j]? = some word ∧ TakesWord ps flag word

/-- The word at the position is left over. -/
def IsLeftover (ps : List Parameter) (words : List String) (j : Nat) : Prop :=
  ∃ word, words[j]? = some word ∧ looksLikeFlag word.toList = false ∧
    ¬ BehindJoint ps words j ∧ ¬ IsValue ps words j

/-- What is left of the words are those at the positions that hold, in their order. -/
def Selects (holds : Nat → Prop) (words left : List String) : Prop :=
  ∃ kept : List Nat, kept.Pairwise (· < ·) ∧ (∀ j, j ∈ kept ↔ holds j) ∧
    left = kept.filterMap fun j => words[j]?

section Positions

variable {ps : List Parameter} {word next : String} {rest : List String} {j : Nat}

theorem not_behindJoint_zero (words : List String) : ¬ BehindJoint ps words 0 :=
  fun ⟨_, _, hk, _⟩ => Nat.not_lt_zero _ hk

theorem behindJoint_succ :
    BehindJoint ps (word :: rest) (j + 1) ↔ IsJoint ps word ∨ BehindJoint ps rest j := by
  constructor
  · rintro ⟨k, flag, hk, hflag, hjoint⟩
    cases k with
    | zero => cases hflag; exact .inl hjoint
    | succ k => exact .inr ⟨k, flag, Nat.lt_of_succ_lt_succ hk, hflag, hjoint⟩
  · rintro (hjoint | ⟨k, flag, hk, hflag, hjoint⟩)
    · exact ⟨0, word, Nat.succ_pos j, rfl, hjoint⟩
    · exact ⟨k + 1, flag, Nat.succ_lt_succ hk, hflag, hjoint⟩

theorem not_isJoint_of_mem_take {words : List String} (h : ¬ BehindJoint ps words j) :
    ∀ w ∈ words.take j, ¬ IsJoint ps w := by
  intro w hw hjoint
  obtain ⟨k, hk⟩ := List.getElem?_of_mem hw
  rw [List.getElem?_take] at hk
  split at hk
  · next hlt => exact h ⟨k, w, hlt, hk, hjoint⟩
  · cases hk

theorem not_isValue_zero (words : List String) : ¬ IsValue ps words 0 :=
  fun ⟨_, _, _, hk, _⟩ => Nat.succ_ne_zero _ hk

theorem isValue_one :
    IsValue ps (word :: rest) 1 ↔ ∃ next, rest.head? = some next ∧ TakesWord ps word next := by
  constructor
  · rintro ⟨k, flag, next, hk, hflag, hnext, htakes⟩
    obtain rfl : k = 0 := Nat.succ.inj hk
    cases hflag
    exact ⟨next, by rwa [List.head?_eq_getElem?], htakes⟩
  · rintro ⟨next, hnext, htakes⟩
    exact ⟨0, word, next, rfl, rfl, by rwa [List.head?_eq_getElem?] at hnext, htakes⟩

theorem isValue_succ_succ : IsValue ps (word :: rest) (j + 2) ↔ IsValue ps rest (j + 1) := by
  constructor
  · rintro ⟨k, flag, next, hk, hflag, hnext, htakes⟩
    obtain rfl : k = j + 1 := Nat.succ.inj hk
    exact ⟨j, flag, next, rfl, hflag, hnext, htakes⟩
  · rintro ⟨k, flag, next, hk, hflag, hnext, htakes⟩
    obtain rfl : k = j := Nat.succ.inj hk
    exact ⟨k + 1, flag, next, rfl, hflag, hnext, htakes⟩

theorem isLeftover_zero :
    IsLeftover ps (word :: rest) 0 ↔ looksLikeFlag word.toList = false := by
  constructor
  · rintro ⟨w, hw, hflag, -⟩
    cases hw
    exact hflag
  · exact fun hflag => ⟨word, rfl, hflag, not_behindJoint_zero _, not_isValue_zero _⟩

/-- Behind a word that takes nothing, the positions are those of the rest. -/
theorem isLeftover_succ (hjoint : ¬ IsJoint ps word)
    (htakes : ∀ next, rest.head? = some next → ¬ TakesWord ps word next) :
    IsLeftover ps (word :: rest) (j + 1) ↔ IsLeftover ps rest j := by
  have hvalue : IsValue ps (word :: rest) (j + 1) ↔ IsValue ps rest j := by
    cases j with
    | zero =>
      rw [isValue_one]
      exact ⟨fun ⟨next, hnext, h⟩ => absurd h (htakes next hnext),
        fun h => absurd h (not_isValue_zero _)⟩
    | succ j => exact isValue_succ_succ
  unfold IsLeftover
  simp only [List.getElem?_cons_succ, behindJoint_succ, hjoint, hvalue, false_or]

/-- Only the first position of the rest depends on whether the word before takes it. -/
theorem isLeftover_succ_succ (hjoint : ¬ IsJoint ps word) :
    IsLeftover ps (word :: rest) (j + 2) ↔ IsLeftover ps rest (j + 1) := by
  unfold IsLeftover
  simp only [List.getElem?_cons_succ, behindJoint_succ, hjoint, isValue_succ_succ, false_or]

end Positions

/-! ## Selections -/

section Selections

variable {holds : Nat → Prop} {word : String} {rest left : List String}

theorem selects_nil (words : List String) (h : ∀ j, ¬ holds j) : Selects holds words [] :=
  ⟨[], .nil, fun j => by simp [h j], rfl⟩

theorem filterMap_succ (word : String) (rest : List String) (kept : List Nat) :
    (kept.map (· + 1)).filterMap (fun j => (word :: rest)[j]?) =
      kept.filterMap fun j => rest[j]? := by
  rw [List.filterMap_map]
  rfl

theorem pairwise_succ {kept : List Nat} (h : kept.Pairwise (· < ·)) :
    (kept.map (· + 1)).Pairwise (· < ·) :=
  List.pairwise_map.2 (h.imp Nat.succ_lt_succ)

theorem selects_skip (hzero : ¬ holds 0) (h : Selects (fun j => holds (j + 1)) rest left) :
    Selects holds (word :: rest) left := by
  obtain ⟨kept, hsorted, hmem, rfl⟩ := h
  refine ⟨kept.map (· + 1), pairwise_succ hsorted, fun j => ?_, (filterMap_succ _ _ _).symm⟩
  cases j with
  | zero => simp [hzero]
  | succ j => simp [hmem]

theorem selects_keep (hzero : holds 0) (h : Selects (fun j => holds (j + 1)) rest left) :
    Selects holds (word :: rest) (word :: left) := by
  obtain ⟨kept, hsorted, hmem, rfl⟩ := h
  refine ⟨0 :: kept.map (· + 1), ?_, fun j => ?_, ?_⟩
  · exact List.pairwise_cons.2 ⟨fun j hj => by
      obtain ⟨k, -, rfl⟩ := List.mem_map.1 hj
      exact Nat.succ_pos k, pairwise_succ hsorted⟩
  · cases j with
    | zero => simp [hzero]
    | succ j => simp [hmem]
  · rw [List.filterMap_cons, filterMap_succ]
    rfl

theorem Selects.congr {holds' : Nat → Prop} {words : List String} (h : Selects holds' words left)
    (hiff : ∀ j, holds j ↔ holds' j) : Selects holds words left := by
  rwa [funext fun j => propext (hiff j)]

end Selections

/-! ## Leftovers -/

theorem foldl_withFlag_leftovers (letters : List Char) (e : Extraction) :
    (letters.foldl (fun e c => e.withFlag (String.ofList [c]) .present) e).leftovers =
      e.leftovers := by
  induction letters generalizing e with
  | nil => rfl
  | cons c letters ih => exact ih _

section Words

variable {ps : List Parameter} {word next : String} {rest left : List String} {p : Parameter}

theorem selects_no_words (ps : List Parameter) : Selects (IsLeftover ps []) [] [] :=
  selects_nil _ fun j => by simp [IsLeftover]

theorem selects_plain (hplain : looksLikeFlag word.toList = false)
    (h : Selects (IsLeftover ps rest) rest left) :
    Selects (IsLeftover ps (word :: rest)) (word :: rest) (word :: left) := by
  have hno := not_names_of_plain ps hplain
  refine selects_keep (isLeftover_zero.2 hplain) (h.congr fun j => ?_)
  exact isLeftover_succ (not_isJoint_of_no_name hno) fun _ _ => not_takesWord_of_no_name hno

/-- A flag that takes nothing is skipped. -/
theorem selects_flag (hflag : looksLikeFlag word.toList = true) (hjoint : ¬ IsJoint ps word)
    (htakes : ∀ next, rest.head? = some next → ¬ TakesWord ps word next)
    (h : Selects (IsLeftover ps rest) rest left) :
    Selects (IsLeftover ps (word :: rest)) (word :: rest) left :=
  selects_skip (by simp [isLeftover_zero, hflag]) (h.congr fun j => isLeftover_succ hjoint htakes)

theorem selects_no_name (hflag : looksLikeFlag word.toList = true) (hno : ∀ p, ¬ Names ps word p)
    (h : Selects (IsLeftover ps rest) rest left) :
    Selects (IsLeftover ps (word :: rest)) (word :: rest) left :=
  selects_flag hflag (not_isJoint_of_no_name hno) (fun _ _ => not_takesWord_of_no_name hno) h

/-- Behind a joint flag nothing is left over. -/
theorem selects_joint (hp : Names ps word p) (hjoint : p.joint = true) :
    Selects (IsLeftover ps (word :: rest)) (word :: rest) [] := by
  refine selects_nil _ fun j => ?_
  cases j with
  | zero => simp [isLeftover_zero, hp.flag]
  | succ j =>
    rintro ⟨-, -, -, hbehind, -⟩
    exact hbehind (behindJoint_succ.2 (.inl ⟨p, hp, hjoint⟩))

/-- A flag is skipped together with its value. -/
theorem selects_value (hp : Names ps word p) (hjoint : p.joint = false)
    (htakes : takes p.type next = true) (h : Selects (IsLeftover ps rest) rest left) :
    Selects (IsLeftover ps (word :: next :: rest)) (word :: next :: rest) left := by
  have hno := not_names_of_plain ps (looksLikeFlag_of_takes htakes)
  have hvalue : IsValue ps (word :: next :: rest) 1 :=
    isValue_one.2 ⟨next, rfl, p, hp, hjoint, htakes⟩
  refine selects_skip (by simp [isLeftover_zero, hp.flag])
    (selects_skip (fun ⟨_, _, _, _, hnot⟩ => hnot hvalue) (h.congr fun j => ?_))
  rw [isLeftover_succ_succ (hp.not_isJoint hjoint)]
  exact isLeftover_succ (not_isJoint_of_no_name hno) fun _ _ => not_takesWord_of_no_name hno

end Words

/-- The leftovers of a line are the words at the positions that hold one. -/
theorem extractFlags_leftovers (ps : List Parameter) (e : Extraction) (words : List String) :
    ∃ left, (extractFlags ps e words).leftovers = e.leftovers ++ left ∧
      Selects (IsLeftover ps words) words left := by
  fun_induction extractFlags ps e words with
  | case1 e => exact ⟨[], (List.append_nil _).symm, selects_no_words ps⟩
  | case2 e word rest hword ih =>
    cases reading_of hword with
    | leftover hplain =>
      obtain ⟨left, hleft, hselects⟩ := ih
      refine ⟨word :: left, ?_, selects_plain hplain hselects⟩
      rw [hleft, Extraction.withLeftover, List.append_assoc]
      rfl
  | case3 e word rest hword ih =>
    cases reading_of hword with
    | ignored hflag hno =>
      obtain ⟨left, hleft, hselects⟩ := ih
      exact ⟨left, hleft, selects_no_name hflag hno hselects⟩
  | case4 e word rest name value hword ih =>
    cases reading_of hword with
    | inline _ _ hflag hno =>
      obtain ⟨left, hleft, hselects⟩ := ih
      exact ⟨left, hleft, selects_no_name hflag hno hselects⟩
  | case5 e word rest letters hword ih =>
    cases reading_of hword with
    | bundle _ hflag hno =>
      obtain ⟨left, hleft, hselects⟩ := ih
      rw [foldl_withFlag_leftovers] at hleft
      exact ⟨left, hleft, selects_no_name hflag hno hselects⟩
  | case6 e word rest name hword =>
    cases reading_of hword with
    | joint p hp hjoint => exact ⟨[], (List.append_nil _).symm, selects_joint hp hjoint⟩
  | case7 e word name type hword =>
    cases reading_of hword with
    | flag p hp hjoint =>
      exact ⟨[], (List.append_nil _).symm, selects_flag hp.flag (hp.not_isJoint hjoint)
        (fun _ hnext => by cases hnext) (selects_no_words ps)⟩
  | case8 e word name type hword next more htakes ih =>
    cases reading_of hword with
    | flag p hp hjoint =>
      obtain ⟨left, hleft, hselects⟩ := ih
      exact ⟨left, hleft, selects_value hp hjoint htakes hselects⟩
  | case9 e word name type hword next more htakes ih =>
    cases reading_of hword with
    | flag p hp hjoint =>
      obtain ⟨left, hleft, hselects⟩ := ih
      have hno : ∀ first, (next :: more).head? = some first → ¬ TakesWord ps word first := by
        rintro first ⟨⟩
        exact hp.not_takesWord htakes
      exact ⟨left, hleft, selects_flag hp.flag (hp.not_isJoint hjoint) hno hselects⟩

theorem no_name_of {ps : List Parameter} {flag : String}
    (h : flagName flag.toList = [] ∨ inline? (flagName flag.toList) ≠ none ∨
      isBundle ps (flagName flag.toList) = true ∨ Parameter.find? ps (nameOf flag) = none)
    (p : Parameter) : ¬ Names ps flag p := by
  intro hp
  rcases h with h | h | h | h
  · exact hp.nonempty h
  · exact h hp.plain
  · cases hp.single.symm.trans h
  · cases hp.known.symm.trans h

/-- Where no word names a parameter, the leftovers are the words that look like no flags. -/
theorem leftovers_of_nameless {ps : List Parameter} (h : ∀ word p, ¬ Names ps word p)
    (e : Extraction) (words : List String) :
    (extractFlags ps e words).leftovers =
      e.leftovers ++ words.filter fun word => !looksLikeFlag word.toList := by
  fun_induction extractFlags ps e words with
  | case1 e => exact (List.append_nil _).symm
  | case2 e word rest hword ih =>
    cases reading_of hword with
    | leftover hplain =>
      rw [ih, Extraction.withLeftover, List.append_assoc, List.filter_cons, hplain]
      rfl
  | case3 e word rest hword ih =>
    cases reading_of hword with
    | ignored hflag => rw [ih, List.filter_cons, hflag]; rfl
  | case4 e word rest name value hword ih =>
    cases reading_of hword with
    | inline _ _ hflag => rw [ih, List.filter_cons, hflag]; rfl
  | case5 e word rest letters hword ih =>
    cases reading_of hword with
    | bundle _ hflag =>
      rw [ih, foldl_withFlag_leftovers, List.filter_cons, hflag]
      rfl
  | case6 e word rest name hword =>
    cases reading_of hword with
    | joint p hp => exact absurd hp (h word p)
  | case7 e word name type hword =>
    cases reading_of hword with
    | flag p hp => exact absurd hp (h word p)
  | case8 e word name type hword next more htakes ih =>
    cases reading_of hword with
    | flag p hp => exact absurd hp (h word p)
  | case9 e word name type hword next more htakes ih =>
    cases reading_of hword with
    | flag p hp => exact absurd hp (h word p)

/-- **Every word of a line has its place.**  The leftovers are words of the line in their order,
none of which looks like a flag.  A word that looks like no flag is one of them, unless it is the
value of the flag right before it or stands behind a joint flag, the first of which is given these
words joined.  A flag that is unknown or has no name, a run of letters and a flag with its value
behind an equals sign leave the word behind them as it would be without them. -/
theorem words_accounted (ps : List Parameter) (raw : String) :
    let words := Line.arguments raw
    let found := flagExtraction ps raw
    (∃ kept : List Nat, kept.Pairwise (· < ·) ∧
      found.leftovers = kept.filterMap (fun j => words[j]?) ∧
      (∀ j ∈ kept, ∃ word, words[j]? = some word ∧ looksLikeFlag word.toList = false) ∧
      (∀ j word, words[j]? = some word → looksLikeFlag word.toList = false →
        (j ∈ kept ↔ ¬ BehindJoint ps words j ∧
          ¬ ∃ k flag p, k + 1 = j ∧ words[k]? = some flag ∧ Names ps flag p ∧ p.joint = false ∧
            (p.type = .bool → (readBool? word.toList).isSome = true)))) ∧
    (∀ k flag p, words[k]? = some flag → Names ps flag p → p.joint = true →
      ¬ BehindJoint ps words k →
      Assoc.get? (nameOf flag) found.flags = some (.text (Line.joined (words.drop (k + 1))))) ∧
    ∀ k flag, words[k]? = some flag → looksLikeFlag flag.toList = true →
      (flagName flag.toList = [] ∨ inline? (flagName flag.toList) ≠ none ∨
        isBundle ps (flagName flag.toList) = true ∨ Parameter.find? ps (nameOf flag) = none) →
      ¬ BehindJoint ps words k →
      found =
        extractFlags ps (extractFlags ps .empty (words.take (k + 1))) (words.drop (k + 1)) := by
  intro words found
  refine ⟨?_, fun k flag p hflag hp hjoint hfirst => ?_, fun k flag hflag _ hno hfirst => ?_⟩
  · obtain ⟨left, hleft, kept, hsorted, hmem, rfl⟩ := extractFlags_leftovers ps .empty words
    refine ⟨kept, hsorted, hleft, fun j hj => ?_, fun j word hword hplain => ?_⟩
    · obtain ⟨word, hword, hplain, -⟩ := (hmem j).1 hj
      exact ⟨word, hword, hplain⟩
    · rw [hmem]
      constructor
      · rintro ⟨w, hw, -, hbehind, hvalue⟩
        refine ⟨hbehind, ?_⟩
        rintro ⟨k, flag, p, rfl, hflag, hp, hjoint, htype⟩
        exact hvalue ⟨k, flag, word, rfl, hflag, hword, p, hp, hjoint, (takes_iff hplain).2 htype⟩
      · rintro ⟨hbehind, hvalue⟩
        refine ⟨word, hword, hplain, hbehind, ?_⟩
        rintro ⟨k, flag, next, rfl, hflag, hnext, p, hp, hjoint, htakes⟩
        cases hword.symm.trans hnext
        exact hvalue ⟨k, flag, p, rfl, hflag, hp, hjoint, (takes_iff hplain).1 htakes⟩
  · have hsplit := Strategy.take_append_cons_drop hflag
    have hfound : found = (extractFlags ps .empty (words.take k)).withFlag (nameOf flag)
        (.text (Line.joined (words.drop (k + 1)))) := by
      rw [← extractFlags_joint _ (not_isJoint_of_mem_take hfirst) hp hjoint, hsplit]
      rfl
    rw [hfound]
    exact Assoc.get?_put_self _ _ _
  · have hno := no_name_of hno
    have hseparate : Separate ps (words.take (k + 1)) (words.drop (k + 1)) := by
      rw [List.take_add_one, hflag]
      constructor
      · intro w hw
        rcases List.mem_append.1 hw with hw | hw
        · exact not_isJoint_of_mem_take hfirst w hw
        · obtain rfl := List.mem_singleton.1 hw
          exact not_isJoint_of_no_name hno
      · intro w next hw _
        obtain rfl : flag = w := by simpa using hw
        exact not_takesWord_of_no_name hno
    rw [← extractFlags_append _ hseparate, List.take_append_drop]
    rfl

/-- An unknown flag takes nothing, a joint one takes a flag as well. -/
theorem words_of_nope_and_rest :
    let on := Parameter.flag "on" .bool
    let rest := { Parameter.flag "rest" .str with joint := true }
    let ps := [on, rest]
    let found := flagExtraction ps "--nope b --rest x --on"
    Names ps "--rest" rest ∧ "b" ∈ found.leftovers ∧
      Assoc.get? "rest" found.flags = some (.text "x --on") ∧
      found = extractFlags ps (extractFlags ps .empty ["--nope"]) ["b", "--rest", "x", "--on"] := by
  intro on rest ps found
  have hwords : Line.arguments "--nope b --rest x --on" =
      ["--nope", "b", "--rest", "x", "--on"] := by rfl
  have hrest : Names ps "--rest" rest := ⟨rfl, by decide, rfl, rfl, rfl⟩
  have hnope : Parameter.find? ps (nameOf "--nope") = none := rfl
  have hno := no_name_of (.inr (.inr (.inr hnope)))
  obtain ⟨⟨kept, -, hleft, -, hkept⟩, hjoint, hcut⟩ := words_accounted ps "--nope b --rest x --on"
  rw [hwords] at hleft hkept hjoint hcut
  have hzero : ¬ BehindJoint ps ["--nope", "b", "--rest", "x", "--on"] 0 := not_behindJoint_zero _
  have hone : ¬ BehindJoint ps ["--nope", "b", "--rest", "x", "--on"] 1 := by
    rw [behindJoint_succ]
    exact fun h => h.elim (not_isJoint_of_no_name hno) (not_behindJoint_zero _)
  have htwo : ¬ BehindJoint ps ["--nope", "b", "--rest", "x", "--on"] 2 := by
    rw [behindJoint_succ, behindJoint_succ]
    rintro (h | h | h)
    · exact not_isJoint_of_no_name hno h
    · exact not_isJoint_of_no_name (not_names_of_plain ps rfl) h
    · exact not_behindJoint_zero _ h
  refine ⟨hrest, ?_, hjoint 2 "--rest" rest rfl hrest rfl htwo,
    hcut 0 "--nope" rfl rfl (.inr (.inr (.inr hnope))) hzero⟩
  have hb : 1 ∈ kept := (hkept 1 "b" rfl rfl).2 ⟨hone, by
    rintro ⟨k, flag, p, hk, hflag, hp, -⟩
    obtain rfl : k = 0 := Nat.succ.inj hk
    cases hflag
    exact hno p hp⟩
  show "b" ∈ found.leftovers
  rw [hleft]
  exact List.mem_filterMap.2 ⟨1, hb, rfl⟩

end CommandShell
