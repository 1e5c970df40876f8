import CommandShell.Proofs.Parse.Leftovers
/-!
# Where the value of a parameter comes from

A parameter gets its value by one of five routes, and `Supply.route` says by which before any
value is read: a value that is there already, the flag that names it, its share of the leftovers,
its default, or the zero of its type.  `resolve` fills parameters in two passes and
overwrites in the second what the first put there; in the end every value is the one that its
route gives.

    lookup = the value that `source?` finds, with the name it is found under    (lookup_eq_source?)
    what one parameter may do                                                   (fillOne_ok)
    the first pass follows the routes of the keyless                            (fillAll_ok)
    the second pass overwrites the values of its consumers alone                (backfill_ok)
    resolve … = .ok values → values[i] is what the route of i gives             (resolve_ok)
-/

namespace CommandShell

/-- What was given for a parameter and the name it stands under. -/
def KeyStyle.source? (style : KeyStyle) (p : Parameter) (found : List (String × Given)) :
    Option (String × Given) :=
  let under (name : String) := (Assoc.get? name found).map (name, ·)
  match style with
  | flags => (p.long.bind under).or (p.shortName.bind under)
  | names => p.long.bind under

inductive Route where
  /-- A literal bound to the parameter, or what its surroundings supply. -/
  | ready (v : Value)
  | flag (name : String) (given : Given)
  | leftover (word : String)
  | default (literal : String)
  | zero

/-- The value that a route gives a parameter. -/
def Route.value (ctx : ParseContext) (p : Parameter) : Route → Except ParseFailure Value
  | ready v => .ok v
  | flag _ given => coerceFor ctx p given
  | leftover word => coerceFor ctx p (.text word)
  | default literal => coerceFor ctx p (.text literal)
  | zero => .ok (Value.zero p.type)

namespace Supply

variable (s : Supply)

/-- The route of the parameter at a position when leftovers are shared out like this. -/
def routeWith (shares : List (Nat × String)) (i : Nat) (p : Parameter) : Route :=
  match s.ready? i p with
  | some v => .ready v
  | none =>
    match if s.style.isKeyed p then s.style.source? p s.found else none with
    | some (name, given) => .flag name given
    | none =>
      match Assoc.get? i shares, p.default with
      | some word, _ => .leftover word
      | none, some literal => .default literal
      | none, none => .zero

/-- The route of the parameter at a position. -/
def route (ps : List Parameter) (i : Nat) (p : Parameter) : Route := s.routeWith (s.shares ps) i p

/-- `resolve` on what the supply holds. -/
def values (ps : List Parameter) : Except ParseFailure (List Value) :=
  resolve ps ⟨s.found, s.leftovers⟩ s.style s.ctx s.prefilled

end Supply

/-! ## Routes -/

theorem KeyStyle.lookup_eq_source? (style : KeyStyle) (p : Parameter)
    (found : List (String × Given)) :
    style.lookup p found = (style.source? p found).map Prod.snd := by
  have hsnd : ∀ o : Option String,
      (o.bind fun name => Assoc.get? name found) =
        (o.bind fun name => (Assoc.get? name found).map (name, ·)).map Prod.snd := by
    intro o
    cases o with
    | none => rfl
    | some name => simp [Function.comp_def]
  cases style with
  | names => exact hsnd p.long
  | flags =>
    show (p.long.bind _).or (p.shortName.bind _) = _
    rw [hsnd, hsnd, KeyStyle.source?, Option.map_or]

namespace Supply

variable {s : Supply} {i : Nat} {p : Parameter}

theorem routeWith_congr {shares shares' : List (Nat × String)}
    (h : Assoc.get? i shares = Assoc.get? i shares') (p : Parameter) :
    s.routeWith shares i p = s.routeWith shares' i p := by
  unfold routeWith
  rw [h]

theorem routeWith_of_ready (shares : List (Nat × String)) {v : Value} (h : s.ready? i p = some v) :
    s.routeWith shares i p = .ready v := by
  rw [routeWith, h]

theorem routeWith_of_source (shares : List (Nat × String)) {name : String} {given : Given}
    (h : s.ready? i p = none)
    (hkey : s.style.isKeyed p = true) (hsource : s.style.source? p s.found = some (name, given)) :
    s.routeWith shares i p = .flag name given := by
  rw [routeWith, h, if_pos hkey, hsource]

/-- A parameter that no flag serves has its share, its default or the zero of its type. -/
theorem routeWith_of_no_source (shares : List (Nat × String)) (h : s.ready? i p = none)
    (hkey : s.style.isKeyed p = true → s.style.source? p s.found = none) :
    s.routeWith shares i p =
      match Assoc.get? i shares, p.default with
      | some word, _ => .leftover word
      | none, some literal => .default literal
      | none, none => .zero := by
  have hno : (if s.style.isKeyed p then s.style.source? p s.found else none) = none := by
    split
    · next hk => exact hkey hk
    · rfl
  rw [routeWith, h, hno]

theorem routeWith_eq_ready_iff {shares : List (Nat × String)} {v : Value} :
    s.routeWith shares i p = .ready v ↔ s.ready? i p = some v := by
  refine ⟨fun h => ?_, routeWith_of_ready shares⟩
  unfold routeWith at h
  split at h
  · next u hu =>
    cases h
    exact hu
  · split at h
    · cases h
    · split at h <;> cases h

theorem routeWith_eq_flag_iff {shares : List (Nat × String)} {name : String} {given : Given} :
    s.routeWith shares i p = .flag name given ↔
      s.ready? i p = none ∧ s.style.isKeyed p = true ∧
        s.style.source? p s.found = some (name, given) := by
  refine ⟨fun h => ?_, fun ⟨hready, hkey, hsource⟩ =>
    routeWith_of_source shares hready hkey hsource⟩
  unfold routeWith at h
  split at h
  · cases h
  · next hready =>
    split at h
    · next name' given' hsource =>
      cases h
      split at hsource
      · next hkey => exact ⟨hready, hkey, hsource⟩
      · cases hsource
    · split at h <;> cases h

/-- Only what nothing supplies is left to the zero of its type. -/
theorem routeWith_eq_zero {shares : List (Nat × String)} (h : s.routeWith shares i p = .zero) :
    s.ready? i p = none ∧ (s.style.isKeyed p = true → s.style.lookup p s.found = none) ∧
      Assoc.get? i shares = none ∧ p.default = none := by
  cases hready : s.ready? i p with
  | some v =>
    rw [routeWith_of_ready shares hready] at h
    cases h
  | none =>
    have hsource : s.style.isKeyed p = true → s.style.source? p s.found = none := by
      intro hkey
      cases hs : s.style.source? p s.found with
      | none => rfl
      | some named =>
        rw [routeWith_of_source shares hready hkey hs] at h
        cases h
    rw [routeWith_of_no_source shares hready hsource] at h
    refine ⟨rfl, fun hkey => by rw [KeyStyle.lookup_eq_source?, hsource hkey]; rfl, ?_⟩
    split at h
    · cases h
    · cases h
    · next hshare hdefault => exact ⟨hshare, hdefault⟩

/-! ## One parameter -/

/-- What the first pass leaves at a position when leftovers are shared out like this. -/
structure Fits (s : Supply) (shares : List (Nat × String)) (i : Nat) (p : Parameter)
    (slot : Slot) : Prop where
  value : (s.routeWith shares i p).value s.ctx p = .ok slot.value
  replaceable : slot.replaceable = s.isOpen (i, p)
  optional : s.ready? i p = none → s.style.isKeyed p = true → s.style.lookup p s.found = none →
    p.required = false
  keyed : s.routeWith shares i p = .zero → s.style.isKeyed p = true

theorem fillOne_ready (shares : List (Nat × String)) {queue queue' : List String} {slot : Slot}
    {v : Value} (hready : s.ready? i p = some v)
    (h : fillOne s.style s.ctx s.found queue p (Assoc.get? i s.prefilled) = .ok (slot, queue')) :
    queue' = queue ∧ s.Fits shares i p slot := by
  have hor : (Assoc.get? i s.prefilled).or (s.ctx.presetFor p) = some v := hready
  rw [fillOne, hor] at h
  cases h
  have hopen : s.isOpen (i, p) = false := by simp [isOpen, hready]
  refine ⟨rfl, ⟨?_, hopen.symm, fun hn => ?_, fun hz => ?_⟩⟩
  · rw [routeWith_of_ready shares hready]
    rfl
  · rw [hready] at hn
    cases hn
  · rw [routeWith_of_ready shares hready] at hz
    cases hz

theorem fillOne_keyed {queue queue' : List String} {slot : Slot} (hready : s.ready? i p = none)
    (hkey : s.style.isKeyed p = true)
    (h : fillOne s.style s.ctx s.found queue p (Assoc.get? i s.prefilled) = .ok (slot, queue')) :
    queue' = queue ∧ s.Fits [] i p slot := by
  have hor : (Assoc.get? i s.prefilled).or (s.ctx.presetFor p) = none := hready
  simp only [fillOne, hor, hkey, if_true] at h
  cases hlookup : s.style.lookup p s.found with
  | some given =>
    rw [hlookup] at h
    obtain ⟨v, hv, he⟩ := except_map_eq_ok h
    cases he
    have hopen : s.isOpen (i, p) = false := by simp [isOpen, hlookup]
    rw [KeyStyle.lookup_eq_source?, Option.map_eq_some_iff] at hlookup
    obtain ⟨⟨name, g⟩, hsource, rfl⟩ := hlookup
    refine ⟨rfl, ⟨?_, hopen.symm, fun _ _ hn => ?_, fun _ => hkey⟩⟩
    · rw [routeWith_of_source _ hready hkey hsource]
      exact hv
    · simp [KeyStyle.lookup_eq_source?, hsource] at hn
  | none =>
    rw [hlookup] at h
    dsimp only at h
    split at h
    · cases h
    · next hreq =>
      rw [Bool.not_eq_true] at hreq
      obtain ⟨v, hv, he⟩ := except_map_eq_ok h
      cases he
      have hopen : s.isOpen (i, p) = decide (p.type ≠ .bool) := by
        simp [isOpen, hready, hkey, hlookup, hreq]
      rw [KeyStyle.lookup_eq_source?, Option.map_eq_none_iff] at hlookup
      refine ⟨rfl, ⟨?_, hopen.symm, fun _ _ _ => hreq, fun _ => hkey⟩⟩
      rw [routeWith_of_no_source _ hready fun _ => hlookup]
      unfold fallback at hv
      cases hdefault : p.default with
      | some literal => rw [hdefault] at hv; exact hv
      | none => rw [hdefault] at hv; exact hv

/-- A parameter without a flag fits if its route, any but the zero, gives the value. -/
theorem fits_keyless {shares : List (Nat × String)} {r : Route} {v : Value}
    (hkey : s.style.isKeyed p = false) (hr : s.routeWith shares i p = r) (hne : r ≠ .zero)
    (hv : r.value s.ctx p = .ok v) : s.Fits shares i p (.fixed v) where
  value := by rw [hr]; exact hv
  replaceable := by simp [isOpen, hkey, Slot.fixed]
  optional _ hk := absurd hk (by simp [hkey])
  keyed hz := absurd (hr.symm.trans hz) hne

theorem fillOne_keyless {queue queue' : List String} {slot : Slot} (hready : s.ready? i p = none)
    (hkey : s.style.isKeyed p = false)
    (h : fillOne s.style s.ctx s.found queue p (Assoc.get? i s.prefilled) = .ok (slot, queue')) :
    queue' = (handOut [(i, p)] queue).2 ∧ s.Fits (handOut [(i, p)] queue).1 i p slot := by
  have hor : (Assoc.get? i s.prefilled).or (s.ctx.presetFor p) = none := hready
  have hroute (shares) := routeWith_of_no_source shares hready
    fun hk => absurd hk (by simp [hkey])
  simp only [fillOne, hor, hkey] at h
  rw [handOut]
  cases htake : takeLeftover p.joint queue with
  | some taken =>
    obtain ⟨word, rest⟩ := taken
    simp only [htake] at h
    obtain ⟨v, hv, he⟩ := except_map_eq_ok h
    cases he
    have hword : s.routeWith [(i, word)] i p = .leftover word := by
      rw [hroute]
      simp [Assoc.get?]
    exact ⟨rfl, fits_keyless hkey hword (by simp) hv⟩
  | none =>
    simp only [htake] at h
    cases hdefault : p.default with
    | none => rw [hdefault] at h; cases h
    | some literal =>
      rw [hdefault] at h
      obtain ⟨v, hv, he⟩ := except_map_eq_ok h
      cases he
      have hliteral : s.routeWith [] i p = .default literal := by
        rw [hroute, hdefault]
        rfl
      exact ⟨rfl, fits_keyless hkey hliteral (by simp) hv⟩

theorem fillOne_ok {queue queue' : List String} {slot : Slot}
    (h : fillOne s.style s.ctx s.found queue p (Assoc.get? i s.prefilled) = .ok (slot, queue')) :
    queue' = (handOut ([(i, p)].filter s.isKeyless) queue).2 ∧
      s.Fits (handOut ([(i, p)].filter s.isKeyless) queue).1 i p slot := by
  cases hready : s.ready? i p with
  | some v =>
    rw [show [(i, p)].filter s.isKeyless = [] by simp [isKeyless, hready]]
    exact fillOne_ready _ hready h
  | none =>
    cases hkey : s.style.isKeyed p with
    | true =>
      rw [show [(i, p)].filter s.isKeyless = [] by simp [isKeyless, hkey]]
      exact fillOne_keyed hready hkey h
    | false =>
      rw [show [(i, p)].filter s.isKeyless = [(i, p)] by simp [isKeyless, hready, hkey]]
      exact fillOne_keyless hready hkey h

theorem Fits.congr {shares shares' : List (Nat × String)} {slot : Slot}
    (hfits : s.Fits shares i p slot) (h : Assoc.get? i shares = Assoc.get? i shares') :
    s.Fits shares' i p slot := by
  have hroute := routeWith_congr (s := s) h p
  exact ⟨hroute ▸ hfits.value, hfits.replaceable, hfits.optional, hroute ▸ hfits.keyed⟩

/-! ## All parameters -/

theorem handOut_isKeyless_cons (s : Supply) (n : Nat) (p : Parameter) (ps : List Parameter)
    (queue : List String) :
    let one := handOut ([(n, p)].filter s.isKeyless) queue
    let rest := handOut ((positioned (n + 1) ps).filter s.isKeyless) one.2
    handOut ((positioned n (p :: ps)).filter s.isKeyless) queue = (one.1 ++ rest.1, rest.2) := by
  intro one rest
  have happ : positioned n (p :: ps) = [(n, p)] ++ positioned (n + 1) ps := rfl
  rw [happ, List.filter_append, handOut_append]

theorem fillAll_ok {n : Nat} {ps : List Parameter} {queue queue' : List String}
    {slots : List Slot}
    (h : fillAll s.style s.ctx s.prefilled s.found n queue ps = .ok (slots, queue')) :
    queue' = (handOut ((positioned n ps).filter s.isKeyless) queue).2 ∧
      slots.length = ps.length ∧
      ∀ i p, ps[i]? = some p → ∃ slot, slots[i]? = some slot ∧
        s.Fits (handOut ((positioned n ps).filter s.isKeyless) queue).1 (n + i) p slot := by
  induction ps generalizing n queue queue' slots with
  | nil =>
    cases h
    exact ⟨rfl, rfl, fun i p hp => by simp at hp⟩
  | cons p ps ih =>
    rw [fillAll] at h
    split at h
    · cases h
    · next slot queue₁ hone =>
      split at h
      · cases h
      · next slots₁ queue₂ hrest =>
        cases h
        obtain ⟨rfl, hfits⟩ := fillOne_ok hone
        obtain ⟨rfl, hlen, hall⟩ := ih hrest
        rw [handOut_isKeyless_cons]
        refine ⟨rfl, by simp [hlen], fun i q hq => ?_⟩
        cases i with
        | zero =>
          cases hq
          refine ⟨slot, rfl, hfits.congr ?_⟩
          rw [Nat.add_zero, Assoc.get?_append, get?_handOut_before (by omega), Option.or_none]
        | succ i =>
          obtain ⟨slot', hslot', hfits'⟩ := hall i q hq
          refine ⟨slot', hslot', ?_⟩
          rw [show n + (i + 1) = n + 1 + i by omega]
          refine hfits'.congr ?_
          rw [Assoc.get?_append, get?_handOut_elsewhere (by omega), Option.none_or]

/-- The replaceable slots are those of the open parameters. -/
theorem filterMap_replaceable {n : Nat} {ps : List Parameter} {slots : List Slot}
    (hlen : slots.length = ps.length)
    (h : ∀ i p slot, ps[i]? = some p → slots[i]? = some slot →
      slot.replaceable = s.isOpen (n + i, p)) :
    (((ps.zip slots).zipIdx n).filterMap fun ((p, slot), i) =>
      if slot.replaceable then some (i, p) else none) = (positioned n ps).filter s.isOpen := by
  induction ps generalizing n slots with
  | nil => rfl
  | cons p ps ih =>
    cases slots with
    | nil => cases hlen
    | cons slot slots =>
      have hhead : slot.replaceable = s.isOpen (n, p) := h 0 p slot rfl rfl
      have htail := ih (Nat.succ.inj hlen) fun i q t hq ht => by
        rw [show n + 1 + i = n + (i + 1) by omega]
        exact h (i + 1) q t hq ht
      rw [List.zip_cons_cons, List.zipIdx_cons, List.filterMap_cons, positioned_cons,
        List.filter_cons, htail]
      dsimp only
      rw [hhead]
      cases s.isOpen (n, p) <;> rfl

theorem backfillOrder_eq {ps : List Parameter} {slots : List Slot}
    (hlen : slots.length = ps.length)
    (h : ∀ i p slot, ps[i]? = some p → slots[i]? = some slot →
      slot.replaceable = s.isOpen (i, p)) :
    backfillOrder ps slots = s.openLast (positioned 0 ps) := by
  unfold backfillOrder openLast
  rw [filterMap_replaceable hlen (by simpa using h)]

/-- A leftover replaces the values of those who get one, and no others. -/
theorem backfill_ok {ctx : ParseContext} {order : List (Nat × Parameter)}
    {values values' : List Value} {queue : List String} (hnodup : (order.map Prod.fst).Nodup)
    (h : backfill ctx values queue order = .ok values') :
    values'.length = values.length ∧ ∀ i,
      (Assoc.get? i (handOut order queue).1 = none → values'[i]? = values[i]?) ∧
      ∀ w, Assoc.get? i (handOut order queue).1 = some w → i < values.length →
        ∃ p v, (i, p) ∈ order ∧ coerceFor ctx p (.text w) = .ok v ∧ values'[i]? = some v := by
  induction order generalizing values queue with
  | nil =>
    cases h
    exact ⟨rfl, fun i => ⟨fun _ => rfl, fun w hw => by simp [handOut] at hw⟩⟩
  | cons x order ih =>
    obtain ⟨j, p⟩ := x
    rw [List.map_cons, List.nodup_cons] at hnodup
    rw [backfill] at h
    rw [handOut]
    cases htake : takeLeftover p.joint queue with
    | none =>
      rw [htake] at h
      cases h
      rw [(takeLeftover_eq_none_iff _ _).1 htake]
      dsimp only
      rw [handOut_nil]
      exact ⟨rfl, fun i => ⟨fun _ => rfl, fun w hw => by simp at hw⟩⟩
    | some taken =>
      obtain ⟨word, queue⟩ := taken
      simp only [htake] at h
      split at h
      · cases h
      · next v hv =>
        obtain ⟨hlen, hih⟩ := ih hnodup.2 h
        rw [List.length_set] at hlen hih
        refine ⟨hlen, fun i => ?_⟩
        dsimp only
        rw [Assoc.get?]
        by_cases hij : j = i
        · subst hij
          rw [if_pos rfl]
          refine ⟨fun hn => absurd hn (Option.some_ne_none word), fun w hw hj => ?_⟩
          cases hw
          have hlater : Assoc.get? j (handOut order queue).1 = none :=
            get?_handOut_eq_none fun q hq => hnodup.1 (List.mem_map.2 ⟨_, hq, rfl⟩)
          refine ⟨p, v, List.mem_cons_self, hv, ?_⟩
          rw [(hih j).1 hlater, List.getElem?_set_self hj]
        · rw [if_neg hij]
          refine ⟨fun hn => ?_, fun w hw hi => ?_⟩
          · rw [(hih i).1 hn, List.getElem?_set_ne hij]
          · obtain ⟨q, u, hq, hu⟩ := (hih i).2 w hw hi
            exact ⟨q, u, List.mem_cons_of_mem _ hq, hu⟩

/-- An open parameter has no share in the first pass. -/
theorem share_of_isOpen {ps : List Parameter} (hmem : (i, p) ∈ positioned 0 ps)
    (hopen : s.isOpen (i, p) = true) :
    Assoc.get? i (s.shares ps) =
      Assoc.get? i (handOut (s.openLast (positioned 0 ps))
        (handOut ((positioned 0 ps).filter s.isKeyless) s.leftovers).2).1 := by
  have hkeyless : Assoc.get? i (handOut ((positioned 0 ps).filter s.isKeyless) s.leftovers).1 =
      none := by
    refine get?_handOut_eq_none fun q hq => ?_
    obtain ⟨hq, hkeyless⟩ := List.mem_filter.1 hq
    obtain rfl := positioned_injective hmem hq
    simp only [isOpen, isKeyless, Bool.and_eq_true, Bool.not_eq_true'] at hopen hkeyless
    rw [hkeyless.2] at hopen
    cases hopen.1.1.1.2
  rw [shares_eq, Assoc.get?_append, hkeyless, Option.none_or]

/-- An open parameter that the second pass serves takes its share of that. -/
theorem route_of_isOpen {ps : List Parameter} {w : String} (hmem : (i, p) ∈ positioned 0 ps)
    (hopen : s.isOpen (i, p) = true)
    (hw : Assoc.get? i (handOut (s.openLast (positioned 0 ps))
      (handOut ((positioned 0 ps).filter s.isKeyless) s.leftovers).2).1 = some w) :
    s.route ps i p = .leftover w := by
  have hshare : Assoc.get? i (s.shares ps) = some w := (share_of_isOpen hmem hopen).trans hw
  simp only [isOpen, Bool.and_eq_true, Option.isNone_iff_eq_none] at hopen
  obtain ⟨⟨⟨⟨hready, -⟩, hlookup⟩, -⟩, -⟩ := hopen
  rw [KeyStyle.lookup_eq_source?, Option.map_eq_none_iff] at hlookup
  rw [route, routeWith_of_no_source _ hready fun _ => hlookup, hshare]

/-- **Every parameter gets what its route gives.**  The zero of its type is left to optional
parameters with a flag. -/
theorem resolve_ok {ps : List Parameter} {values : List Value} (h : s.values ps = .ok values) :
    values.length = ps.length ∧ ∀ i p, ps[i]? = some p → ∃ v, values[i]? = some v ∧
      (s.route ps i p).value s.ctx p = .ok v ∧
      (s.route ps i p = .zero → s.style.isKeyed p = true ∧ p.required = false) := by
  unfold Supply.values resolve at h
  split at h
  · cases h
  · next slots queue hfill =>
    obtain ⟨rfl, hlen, hall⟩ := fillAll_ok hfill
    simp only [Nat.zero_add] at hall
    have horder := backfillOrder_eq hlen fun i p slot hp hslot => by
      obtain ⟨slot', hslot', hfits⟩ := hall i p hp
      rw [hslot, Option.some.injEq] at hslot'
      exact hslot' ▸ hfits.replaceable
    rw [horder] at h
    obtain ⟨hlen', hback⟩ := backfill_ok (nodup_openLast (nodup_positioned 0 ps)) h
    rw [List.length_map] at hlen' hback
    refine ⟨hlen'.trans hlen, fun i p hp => ?_⟩
    obtain ⟨slot, hslot, hfits⟩ := hall i p hp
    have hi : i < slots.length := (List.getElem?_eq_some_iff.1 hslot).1
    cases hw : Assoc.get? i (handOut (s.openLast (positioned 0 ps)) _).1 with
    | none =>
      have hfits : s.Fits (s.shares ps) i p slot := by
        refine hfits.congr ?_
        rw [shares_eq, Assoc.get?_append, hw, Option.or_none]
      refine ⟨slot.value, ?_, hfits.value, fun hzero => ?_⟩
      · rw [(hback i).1 hw, List.getElem?_map, hslot]
        rfl
      · have hkey := hfits.keyed hzero
        obtain ⟨hready, hlookup, -⟩ := routeWith_eq_zero hzero
        exact ⟨hkey, hfits.optional hready hkey (hlookup hkey)⟩
    | some w =>
      obtain ⟨q, v, hq, hv, hvalue⟩ := (hback i).2 w hw hi
      obtain ⟨hmem, hopen⟩ := mem_openLast.1 hq
      obtain rfl := positioned_injective (mem_positioned_iff.2 ⟨Nat.zero_le i, hp⟩) hmem
      have hroute := route_of_isOpen hmem hopen hw
      refine ⟨v, hvalue, by rw [hroute]; exact hv, fun hzero => ?_⟩
      rw [hroute] at hzero
      cases hzero

end Supply

end CommandShell
