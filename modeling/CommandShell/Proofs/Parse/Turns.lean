import CommandShell.Proofs.Parse.Routes
/-!
# Leftovers go out in turn

The parameters that take leftovers have their turns in the order of `Supply.consumers`.  At its
turn each takes the next word, a joint one all that are left, and only who finds none goes without.

    leftAt order queue turn        what is left of the queue when a turn comes
    portion p left                 what a parameter takes of that
    what is taken in turn, and what is left in the end, is the queue      (taken_append_leftAt)
    the share of a consumer is its portion, joined                        (get?_handOut)
    the first pass fails at one parameter, behind some that it filled     (fillAll_error)
    every consumer is served from what is left at its turn        (leftovers_go_out_in_turn)
-/

namespace CommandShell

/-- What is left of a queue when the turn comes to the consumer with that number: nothing behind a
joint one, else the queue without a word for each that came before. -/
def leftAt (order : List (Nat × Parameter)) (queue : List String) (turn : Nat) : List String :=
  if (order.take turn).any fun x => x.2.joint then [] else queue.drop turn

/-- The words that a parameter takes of those that are left. -/
def portion (p : Parameter) (left : List String) : List String :=
  if p.joint then left else left.take 1

/-- The words that the consumers take, one after the other. -/
def taken (order : List (Nat × Parameter)) (queue : List String) : List String :=
  order.zipIdx.flatMap fun (x, turn) => portion x.2 (leftAt order queue turn)

/-- Whether the value of a parameter is what it gets at its turn: its portion, joined and coerced,
or where nothing is left its default, or else the zero of its type if a flag addresses it. -/
def Supply.Served (s : Supply) (p : Parameter) (v : Value) : List String → Prop
  | [] =>
    (∃ literal, p.default = some literal ∧ coerceFor s.ctx p (.text literal) = .ok v) ∨
      p.default = none ∧ s.style.isKeyed p = true ∧ v = Value.zero p.type
  | word :: rest => coerceFor s.ctx p (.text (Line.joined (portion p (word :: rest)))) = .ok v

/-! ## One turn after the other -/

/-- What a parameter leaves. -/
def leavesOf (p : Parameter) (left : List String) : List String :=
  if p.joint then [] else left.tail

theorem portion_append_leavesOf (p : Parameter) (left : List String) :
    portion p left ++ leavesOf p left = left := by
  unfold portion leavesOf
  split
  · exact List.append_nil left
  · rw [← List.drop_one, List.take_append_drop]

theorem leavesOf_nil (p : Parameter) : leavesOf p [] = [] := by
  unfold leavesOf
  split <;> rfl

theorem joined_singleton (word : String) : Line.joined [word] = word := by
  simp [Line.joined]

theorem takeLeftover_cons (p : Parameter) (word : String) (rest : List String) :
    takeLeftover p.joint (word :: rest) =
      some (Line.joined (portion p (word :: rest)), leavesOf p (word :: rest)) := by
  unfold takeLeftover portion leavesOf
  cases p.joint with
  | true => rfl
  | false => simp [joined_singleton]

section Turns

variable (order : List (Nat × Parameter)) (queue : List String) (turn : Nat)

theorem leftAt_zero : leftAt order queue 0 = queue := by
  simp [leftAt]

theorem leftAt_nil : leftAt order [] turn = [] := by
  simp [leftAt]

theorem leftAt_succ (x : Nat × Parameter) :
    leftAt (x :: order) queue (turn + 1) = leftAt order (leavesOf x.2 queue) turn := by
  unfold leftAt leavesOf
  rw [List.take_succ_cons, List.any_cons]
  cases x.2.joint with
  | true => simp
  | false =>
    rw [Bool.false_or, if_neg Bool.false_ne_true, List.drop_tail]

theorem taken_cons (x : Nat × Parameter) :
    taken (x :: order) queue = portion x.2 queue ++ taken order (leavesOf x.2 queue) := by
  unfold taken
  rw [List.zipIdx_cons, List.flatMap_cons, List.zipIdx_succ, List.flatMap_map]
  simp only [leftAt_zero, leftAt_succ]

/-- What is taken and what is left in the end is the whole queue, in its order. -/
theorem taken_append_leftAt : taken order queue ++ leftAt order queue order.length = queue := by
  induction order generalizing queue with
  | nil => rfl
  | cons x order ih =>
    rw [taken_cons, List.length_cons, leftAt_succ, List.append_assoc, ih,
      portion_append_leavesOf]

theorem handOut_cons (x : Nat × Parameter) (word : String) (rest : List String) :
    handOut (x :: order) (word :: rest) =
      ((x.1, Line.joined (portion x.2 (word :: rest))) ::
          (handOut order (leavesOf x.2 (word :: rest))).1,
        (handOut order (leavesOf x.2 (word :: rest))).2) := by
  rw [handOut, takeLeftover_cons]

/-- What the first consumers leave does not depend on those that come later. -/
theorem handOut_left (later : List (Nat × Parameter)) :
    (handOut order queue).2 = leftAt (order ++ later) queue order.length := by
  induction order generalizing queue with
  | nil => exact (leftAt_zero later queue).symm
  | cons x order ih =>
    rw [List.cons_append, List.length_cons, leftAt_succ, ← ih]
    cases queue with
    | nil => rw [leavesOf_nil, handOut_nil, handOut_nil]
    | cons word rest => rw [handOut_cons]

end Turns

/-- The share of a consumer is what it takes at its turn, if there is anything left. -/
theorem get?_handOut {order : List (Nat × Parameter)} {turn i : Nat} {p : Parameter}
    (hnodup : (order.map Prod.fst).Nodup) (h : order[turn]? = some (i, p)) (queue : List String) :
    Assoc.get? i (handOut order queue).1 =
      if leftAt order queue turn = [] then none
      else some (Line.joined (portion p (leftAt order queue turn))) := by
  induction order generalizing queue turn with
  | nil => cases h
  | cons x order ih =>
    rw [List.map_cons, List.nodup_cons] at hnodup
    cases queue with
    | nil => rw [handOut_nil, leftAt_nil, if_pos rfl, Assoc.get?_nil]
    | cons word rest =>
      rw [handOut_cons, Assoc.get?]
      cases turn with
      | zero =>
        cases h
        rw [if_pos rfl, leftAt_zero, if_neg (List.cons_ne_nil word rest)]
      | succ turn =>
        have hne : x.1 ≠ i := by
          rintro rfl
          exact hnodup.1 (List.mem_map.2 ⟨_, List.mem_of_getElem? h, rfl⟩)
        rw [if_neg hne, ih hnodup.2 h, leftAt_succ]

/-! ## Where the first pass fails -/

theorem positioned_append (n : Nat) (as bs : List Parameter) :
    positioned n (as ++ bs) = positioned n as ++ positioned (n + as.length) bs := by
  simp [positioned, List.zipIdx_append]

theorem coerceFor_ne_incomplete (ctx : ParseContext) (p : Parameter) (given : Given)
    (label : String) : coerceFor ctx p given ≠ .error (.incomplete label) := by
  unfold coerceFor
  split
  · exact fun h => by cases h
  · exact fun h => by cases h

namespace Supply

variable {s : Supply} {ps : List Parameter} {i : Nat} {p : Parameter}

/-- If the first pass fails then at one parameter, behind others that it filled. -/
theorem fillAll_error {n : Nat} {queue : List String} {e : ParseFailure}
    (h : fillAll s.style s.ctx s.prefilled s.found n queue ps = .error e) :
    ∃ before p after slots left, ps = before ++ p :: after ∧
      fillAll s.style s.ctx s.prefilled s.found n queue before = .ok (slots, left) ∧
      fillOne s.style s.ctx s.found left p (Assoc.get? (n + before.length) s.prefilled) =
        .error e := by
  induction ps generalizing n queue with
  | nil => cases h
  | cons p ps ih =>
    rw [fillAll] at h
    split at h
    · next hone =>
      cases h
      exact ⟨[], p, ps, [], queue, rfl, rfl, hone⟩
    · next slot left₁ hone =>
      split at h
      · next hrest =>
        cases h
        obtain ⟨before, q, after, slots, left, rfl, hbefore, hq⟩ := ih hrest
        refine ⟨p :: before, q, after, slot :: slots, left, rfl, ?_, ?_⟩
        · rw [fillAll, hone]
          simp only [hbefore]
        · rw [List.length_cons, ← Nat.add_assoc, Nat.add_right_comm]
          exact hq
      · cases h

theorem fillOne_incomplete {left : List String} {label : String}
    (h : fillOne s.style s.ctx s.found left p (Assoc.get? i s.prefilled) =
      .error (.incomplete label)) :
    left = [] ∧ s.isKeyless (i, p) = true ∧ p.default = none ∧ p.label = label := by
  have hmap {α : Type} {given : Given} {f : Value → α} :
      (coerceFor s.ctx p given).map f ≠ .error (.incomplete label) := by
    have hne := coerceFor_ne_incomplete s.ctx p given label
    cases hc : coerceFor s.ctx p given with
    | ok v => exact fun h => by cases h
    | error e =>
      rintro ⟨⟩
      exact hne hc
  rw [fillOne] at h
  split at h
  · cases h
  · next hready =>
    split at h
    · split at h
      · exact absurd h hmap
      · split at h
        · cases h
        · unfold fallback at h
          split at h
          · exact absurd h hmap
          · cases h
    · next hkey =>
      have hkeyless : s.isKeyless (i, p) = true := by
        simp [isKeyless, ready?, hready, hkey]
      split at h
      · exact absurd h hmap
      · next htake =>
        have hleft : left = [] := (takeLeftover_eq_none_iff _ _).1 htake
        split at h
        · exact absurd h hmap
        · next hdefault =>
          cases h
          exact ⟨hleft, hkeyless, hdefault, rfl⟩

theorem backfill_ne_incomplete (ctx : ParseContext) (order : List (Nat × Parameter))
    (values : List Value) (left : List String) (label : String) :
    backfill ctx values left order ≠ .error (.incomplete label) := by
  induction order generalizing values left with
  | nil => exact fun h => by cases h
  | cons x order ih =>
    rw [backfill]
    split
    · exact fun h => by cases h
    · split
      · next e he =>
        rintro ⟨⟩
        exact coerceFor_ne_incomplete _ _ _ _ he
      · exact ih _ _

/-- The keyless have the first turns, in declaration order. -/
theorem consumers_keyless {before : List Parameter}
    (h : s.isKeyless (before.length, p) = true) (after : List Parameter) :
    ∃ later, s.consumers (before ++ p :: after) =
      (positioned 0 before).filter s.isKeyless ++ (before.length, p) :: later := by
  unfold consumers
  rw [positioned_append, positioned_cons, Nat.zero_add, List.filter_append,
    List.filter_cons_of_pos h, List.append_assoc, List.cons_append]
  exact ⟨_, rfl⟩

/-- A parameter without a flag has its turn when those before it have had theirs. -/
theorem exists_turn_of_keyless {before : List Parameter}
    (h : s.isKeyless (before.length, p) = true) (after : List Parameter) :
    ∃ turn, (s.consumers (before ++ p :: after))[turn]? = some (before.length, p) ∧
      (handOut ((positioned 0 before).filter s.isKeyless) s.leftovers).2 =
        leftAt (s.consumers (before ++ p :: after)) s.leftovers turn := by
  obtain ⟨later, hlater⟩ := consumers_keyless h after
  refine ⟨((positioned 0 before).filter s.isKeyless).length, ?_, ?_⟩
  · rw [hlater, List.getElem?_append_right (Nat.le_refl _), Nat.sub_self,
      List.getElem?_cons_zero]
  · rw [hlater, ← handOut_left]

/-- A command is incomplete only if the queue is empty when a parameter with nothing else to be
filled from has its turn. -/
theorem exists_turn_of_incomplete {label : String}
    (h : s.values ps = .error (.incomplete label)) :
    ∃ turn i p, (s.consumers ps)[turn]? = some (i, p) ∧ s.style.isKeyed p = false ∧
      p.default = none ∧ p.label = label ∧ leftAt (s.consumers ps) s.leftovers turn = [] := by
  unfold values resolve at h
  split at h
  · next hfill =>
    cases h
    obtain ⟨before, p, after, slots, left, rfl, hbefore, hone⟩ := fillAll_error hfill
    obtain ⟨rfl, -, -⟩ := fillAll_ok hbefore
    rw [Nat.zero_add] at hone
    obtain ⟨hleft, hkeyless, hdefault, hlabel⟩ := fillOne_incomplete hone
    obtain ⟨turn, hturn, hat⟩ := exists_turn_of_keyless hkeyless after
    have hkey : s.style.isKeyed p = false := by
      simp only [isKeyless, Bool.and_eq_true, Bool.not_eq_true'] at hkeyless
      exact hkeyless.2
    exact ⟨turn, before.length, p, hturn, hkey, hdefault, hlabel, hat.symm.trans hleft⟩
  · exact absurd h (backfill_ne_incomplete _ _ _ _ _)

/-! ## Consumers -/

theorem mem_consumers {x : Nat × Parameter} (h : x ∈ s.consumers ps) :
    x ∈ positioned 0 ps ∧ (s.isKeyless x = true ∨ s.isOpen x = true) := by
  unfold consumers at h
  rcases List.mem_append.1 h with h | h
  · exact ⟨List.mem_of_mem_filter h, Or.inl (List.mem_filter.1 h).2⟩
  · exact ⟨(mem_openLast.1 h).1, Or.inr (mem_openLast.1 h).2⟩

/-- No flag serves a consumer, and nothing is there for it from the start. -/
theorem unserved_of_mem_consumers (h : (i, p) ∈ s.consumers ps) :
    s.ready? i p = none ∧
      (s.style.isKeyed p = true → s.style.source? p s.found = none) := by
  rcases (mem_consumers h).2 with hkeyless | hopen
  · simp only [isKeyless, Bool.and_eq_true, Option.isNone_iff_eq_none, Bool.not_eq_true']
      at hkeyless
    exact ⟨hkeyless.1, fun hkey => by rw [hkeyless.2] at hkey; cases hkey⟩
  · simp only [isOpen, Bool.and_eq_true, Option.isNone_iff_eq_none] at hopen
    obtain ⟨⟨⟨⟨hready, -⟩, hlookup⟩, -⟩, -⟩ := hopen
    rw [KeyStyle.lookup_eq_source?, Option.map_eq_none_iff] at hlookup
    exact ⟨hready, fun _ => hlookup⟩

/-- Nobody has two turns. -/
theorem nodup_consumers (s : Supply) (ps : List Parameter) :
    ((s.consumers ps).map Prod.fst).Nodup := by
  have hkeyless := (nodup_positioned 0 ps).sublist
    ((List.filter_sublist (p := s.isKeyless)).map Prod.fst)
  have hopen := nodup_openLast (s := s) (nodup_positioned 0 ps)
  unfold consumers
  rw [List.map_append, List.nodup_append]
  refine ⟨hkeyless, hopen, ?_⟩
  rintro i hi j hj rfl
  obtain ⟨⟨i, p⟩, hp, rfl⟩ := List.mem_map.1 hi
  obtain ⟨⟨j, q⟩, hq, he⟩ := List.mem_map.1 hj
  obtain ⟨hp, hkeyless⟩ := List.mem_filter.1 hp
  obtain ⟨hq, hopen⟩ := mem_openLast.1 hq
  obtain rfl : j = i := he
  obtain rfl := positioned_injective hp hq
  simp only [isKeyless, Bool.and_eq_true, Bool.not_eq_true'] at hkeyless
  simp [isOpen, hkeyless.2] at hopen

theorem served_of_turn {turn : Nat} {v : Value}
    (hturn : (s.consumers ps)[turn]? = some (i, p))
    (hv : (s.route ps i p).value s.ctx p = .ok v)
    (hzero : s.route ps i p = .zero → s.style.isKeyed p = true) :
    s.Served p v (leftAt (s.consumers ps) s.leftovers turn) := by
  obtain ⟨hready, hsource⟩ := unserved_of_mem_consumers (List.mem_of_getElem? hturn)
  have hshare := get?_handOut (s.nodup_consumers ps) hturn s.leftovers
  have hroute := routeWith_of_no_source (s.shares ps) hready hsource
  change s.route ps i p = _ at hroute
  rw [shares, hshare] at hroute
  cases hleft : leftAt (s.consumers ps) s.leftovers turn with
  | nil =>
    rw [hleft, if_pos rfl] at hroute
    cases hdefault : p.default with
    | some literal =>
      rw [hdefault] at hroute
      rw [hroute] at hv
      exact Or.inl ⟨literal, hdefault, hv⟩
    | none =>
      rw [hdefault] at hroute
      rw [hroute] at hv
      cases hv
      exact Or.inr ⟨hdefault, hzero hroute, rfl⟩
  | cons word rest =>
    rw [hleft, if_neg (List.cons_ne_nil word rest)] at hroute
    rw [hroute] at hv
    exact hv

/-- Who has no turn gets the same value as if there were no leftovers. -/
theorem route_of_not_consumer (hp : ps[i]? = some p) (h : (i, p) ∉ s.consumers ps) :
    s.route ps i p = s.routeWith [] i p := by
  refine routeWith_congr ?_ p
  refine get?_handOut_eq_none fun q hq => ?_
  have hq' := (mem_consumers hq).1
  obtain rfl := positioned_injective (mem_positioned_iff.2 ⟨Nat.zero_le i, hp⟩) hq'
  exact h hq

/-- **Leftovers go out in turn, each once and none skipped.**  Where all values are found, the
consumers take the front of the queue word by word, and each is served from what is left at its
turn; nobody else takes any.  A consumer with a default or a zero goes without, and a command is
incomplete, only where nothing is left. -/
theorem leftovers_go_out_in_turn (s : Supply) (ps : List Parameter) :
    let order := s.consumers ps
    (∀ values, s.values ps = .ok values →
      taken order s.leftovers ++ leftAt order s.leftovers order.length = s.leftovers ∧
      (∀ turn i p, order[turn]? = some (i, p) →
        ∃ v, values[i]? = some v ∧ s.Served p v (leftAt order s.leftovers turn)) ∧
      ∀ i p, ps[i]? = some p → (i, p) ∉ order →
        ∃ v, values[i]? = some v ∧ (s.routeWith [] i p).value s.ctx p = .ok v) ∧
    ∀ label, s.values ps = .error (.incomplete label) →
      ∃ turn i p, order[turn]? = some (i, p) ∧ s.style.isKeyed p = false ∧ p.default = none ∧
        p.label = label ∧ leftAt order s.leftovers turn = [] := by
  intro order
  refine ⟨fun values h => ?_, fun label h => exists_turn_of_incomplete h⟩
  obtain ⟨-, hall⟩ := resolve_ok h
  refine ⟨taken_append_leftAt order s.leftovers, fun turn i p hturn => ?_, fun i p hp hno => ?_⟩
  · have hmem := (mem_consumers (List.mem_of_getElem? hturn)).1
    obtain ⟨v, hvalue, hv, hzero⟩ := hall i p (by simpa using mem_positioned_iff.1 hmem)
    exact ⟨v, hvalue, served_of_turn hturn hv fun hz => (hzero hz).1⟩
  · obtain ⟨v, hvalue, hv, -⟩ := hall i p hp
    rw [route_of_not_consumer hp hno] at hv
    exact ⟨v, hvalue, hv⟩

/-- The joint parameter is declared first and has the last turn; of two parameters without a flag
and one word the second goes without. -/
theorem joint_has_last_turn :
    let message := { Parameter.flag "message" .str with joint := true }
    let count := Parameter.flag "count" .int
    let ps := [message, .flag "quiet" .bool, .named "source" .str, count]
    let s : Supply :=
      ⟨.flags, ⟨.builtin, fun _ => none, .asFilled⟩, [], [("quiet", .present)],
        ["a", "3", "all", "the", "rest"]⟩
    let values := [Value.str "all the rest", .bool true, .str "a", .int 3]
    (s.values ps = .ok values ∧
      s.consumers ps = [(2, .named "source" .str), (3, count), (0, message)] ∧
      taken (s.consumers ps) s.leftovers = s.leftovers ∧
      ∃ v, values[0]? = some v ∧ s.Served message v ["all", "the", "rest"]) ∧
    let few : Supply := ⟨.flags, ⟨.builtin, fun _ => none, .asFilled⟩, [], [], ["a"]⟩
    let two := [Parameter.named "source" .str, .named "target" .str]
    few.values two = .error (.incomplete "target") ∧
      ∃ turn i p, (few.consumers two)[turn]? = some (i, p) ∧ p.label = "target" ∧
        leftAt (few.consumers two) few.leftovers turn = [] := by
  intro message count ps s values
  have hvalues : s.values ps = .ok values := rfl
  have hconsumers : s.consumers ps = [(2, .named "source" .str), (3, count), (0, message)] := rfl
  obtain ⟨htaken, hserved, -⟩ := (leftovers_go_out_in_turn s ps).1 values hvalues
  refine ⟨⟨hvalues, hconsumers, ?_, hserved 2 0 message rfl⟩, ?_⟩
  · have hleft : leftAt (s.consumers ps) s.leftovers (s.consumers ps).length = [] := rfl
    rwa [hleft, List.append_nil] at htaken
  · intro few two
    have hfails : few.values two = .error (.incomplete "target") := rfl
    obtain ⟨turn, i, p, hturn, -, -, hlabel, hleft⟩ :=
      (leftovers_go_out_in_turn few two).2 "target" hfails
    exact ⟨hfails, turn, i, p, hturn, hlabel, hleft⟩

end Supply

end CommandShell
