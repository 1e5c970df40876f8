import CommandShell.Proofs.Engine.Steady
import CommandShell.Proofs.Json.Bare
import CommandShell.Proofs.Json.RoundTrip
import CommandShell.Proofs.Parse.Accounting
import CommandShell.Proofs.Shell.Background
/-!
# Setting and getting variables

`set x text` reads the text as JSON if it can, but what it is given has been read as words before,
and that takes the quote marks and the backslashes of strings away.

    set x t stores literal t, unless t looks like a flag; then it fails             (execute_set)
    Kept v ↔ v.bare does not look like a flag, and literal v.bare = v                   (kept_iff)
    set x v; get x answers v ↔ Kept v, or set failed and v was there before         (set_then_get)
-/

namespace CommandShell.Shell

open CommandShell.Text CommandShell.Literal CommandShell.World

variable {settings : Settings} {raw t : String} {w w' : World} {th : Thread} {n : Nat}

/-! ## Arguments -/

/-- No parameter of `set` has a flag. -/
theorem not_names_set (word : String) (p : Parameter) : ¬ FlagWord.Names set.parameters word p := by
  have hkeyless : ∀ p ∈ set.parameters, p.long = none ∧ p.short = none := by decide
  have hunknown : Parameter.find? set.parameters (FlagWord.nameOf word) = none := by
    rw [Parameter.find?, Option.or_eq_none_iff, List.find?_eq_none, List.find?_eq_none]
    refine ⟨fun q hq => ?_, fun q hq => ?_⟩
    · simp [hkeyless q hq]
    · simp [Parameter.answersTo, Parameter.shortName, hkeyless q hq]
  intro hp
  cases hunknown.symm.trans hp.known

theorem parse_set (h : Line.arguments raw = ["x", t]) (console : Console) (order : TableOrder) :
    (interpreter settings).parse set raw console order =
      if looksLikeFlag t.toList then .error (.incomplete "value")
      else .ok [.str "x", .str t] := by
  have hleft : (flagExtraction set.parameters raw).leftovers =
      ["x", t].filter fun word => !looksLikeFlag word.toList := by
    rw [flagExtraction, leftovers_of_nameless not_names_set, h]
    rfl
  rw [Interpreter.parse, strategyOf?_eq]
  show resolve set.parameters (flagExtraction set.parameters raw) .flags _ [] = _
  cases hflag : looksLikeFlag t.toList with
  | true =>
    have hone : (flagExtraction set.parameters raw).leftovers = ["x"] := by
      rw [hleft, List.filter_cons, List.filter_cons, hflag]
      rfl
    rw [resolve, hone]
    rfl
  | false =>
    have htwo : (flagExtraction set.parameters raw).leftovers = ["x", t] := by
      rw [hleft, List.filter_cons, List.filter_cons, hflag]
      rfl
    rw [resolve, htwo]
    rfl

theorem parse_get (console : Console) (order : TableOrder) :
    (interpreter settings).parse get "x" console order = .ok [.str "x"] := by
  rw [Interpreter.parse, strategyOf?_eq]
  rfl

/-! ## Calls -/

/-- A line makes a call in the session of its thread, and goes on with the script of its command. -/
theorem exists_call (settings : Settings) (th : Thread) {line typed rest : String}
    (hsplit : splitCommand line = some (typed, rest)) (hw : w.Keyed) :
    ∃ (call : Call) (wa : World), w.execute (interpreter settings) th line =
        wa.runCall (interpreter settings) th ⟨call, callScript (interpreter settings)
          (registry.find typed) (registry.canonicalName typed)
          ((w.current th).2.substituted (w.current th).1 rest).1 .terminal⟩ ∧
      wa.current th = (call.session, wa) ∧ wa.Keyed ∧ wa.seen th = w.seen th := by
  obtain ⟨⟨call, script⟩, wa, hbegin, hexecute⟩ :=
    exists_begun (i := interpreter settings) (w := w) th hsplit
  obtain ⟨-, -, hscript⟩ := invocation_of_beginLine hsplit hbegin
  obtain ⟨hcurrent, -, -, hseen, -⟩ := current_of_beginLine hbegin
  obtain ⟨hsession, -⟩ := exists_log_of_beginLine hbegin
  have hsteady : Steady th w wa := (steady_current w th).trans (steady_beginLine hbegin)
  have hscript : script = _ := hscript
  have hsession : call.session = (w.current th).1 := hsession
  rw [hscript] at hexecute
  exact ⟨call, wa, hexecute, by rw [hsession, hcurrent], hsteady.keyed hw, hseen⟩

/-- Where a session is changed, its thread sees the variables of the changed one. -/
theorem seen_modifySession (hw : w.Keyed) (h : w.current th = (n, w)) (f : Session → Session) :
    (w.modifySession n f).current th = (n, w.modifySession n f) ∧
      (w.modifySession n f).seen th = (f (w.session n)).vars := by
  have hnumber : w.sessions.number? (w.currentKey th) = some n := by
    have hlocated : (w.current th).2.sessions.number? (w.currentKey th) = _ := number?_current rfl
    rwa [h] at hlocated
  have hcurrent : (w.modifySession n f).current th = (n, w.modifySession n f) :=
    locate_of_number hnumber
  refine ⟨hcurrent, ?_⟩
  rw [seen, hcurrent, session_modifySession_self (hw _ n hnumber).1]

theorem seen_of_current (h : w.current th = (n, w)) : w.seen th = (w.session n).vars := by
  rw [seen, h]

/-- A call that comes to its end leaves the variables as they are. -/
theorem runCall_done (call : Call) (hw : w.Keyed) (h : w.current th = (call.session, w))
    (settings : Settings) (outcome : Except Failure Json) :
    ∃ r w', w.runCall (interpreter settings) th ⟨call, .done outcome⟩ = (.finished r, w') ∧
      r.outcome = outcome ∧ w'.seen th = w.seen th ∧ w'.Keyed := by
  refine ⟨_, _, runCall_of_done w, rfl, ?_, hw.modifySession _ fun _ => rfl⟩
  rw [(seen_modifySession hw h _).2, seen_of_current h]
  rfl

/-- A line without placeholders makes its call with the text behind its command. -/
theorem exists_call_of_unmarked (settings : Settings) (th : Thread) {line typed rest : String}
    (hsplit : splitCommand line = some (typed, rest)) (hmark : Line.Unmarked rest.toList)
    (hw : w.Keyed) :
    ∃ (call : Call) (wa : World), w.execute (interpreter settings) th line =
        wa.runCall (interpreter settings) th ⟨call, callScript (interpreter settings)
          (registry.find typed) (registry.canonicalName typed) rest .terminal⟩ ∧
      wa.current th = (call.session, wa) ∧ wa.Keyed ∧ wa.seen th = w.seen th := by
  have hraw : ((w.current th).2.substituted (w.current th).1 rest).1 = rest := by
    rw [substituted, Line.substitute_of_unmarked hmark]
  have hcall := exists_call settings th hsplit hw
  rwa [hraw] at hcall

section

variable {line rest : String}

/-- `set x text` fails if what the text reads as looks like a flag. -/
theorem execute_set_of_flag (settings : Settings) (th : Thread)
    (hsplit : splitCommand line = some ("set", rest)) (hmark : Line.Unmarked rest.toList)
    (hargs : Line.arguments rest = ["x", t]) (hflag : looksLikeFlag t.toList = true)
    (hw : w.Keyed) :
    ∃ r w', w.execute (interpreter settings) th line = (.finished r, w') ∧
      r.outcome = .error (.parse (.incomplete "value")) ∧ w'.seen th = w.seen th ∧ w'.Keyed := by
  obtain ⟨call, wa, hexecute, hcurrent, hkeyed, hseen⟩ :=
    exists_call_of_unmarked settings th hsplit hmark hw
  have hscript : callScript (interpreter settings) (registry.find "set")
      (registry.canonicalName "set") rest .terminal =
        .done (.error (.parse (.incomplete "value"))) := by
    rw [callScript, show registry.find "set" = set from rfl, parse_set hargs, hflag]
    rfl
  rw [hexecute, hscript, ← hseen]
  exact runCall_done call hkeyed hcurrent settings _

/-- Otherwise it stores the value of that. -/
theorem execute_set (settings : Settings) (th : Thread)
    (hsplit : splitCommand line = some ("set", rest)) (hmark : Line.Unmarked rest.toList)
    (hargs : Line.arguments rest = ["x", t]) (hflag : looksLikeFlag t.toList = false)
    (hw : w.Keyed) :
    ∃ r w', w.execute (interpreter settings) th line = (.finished r, w') ∧ r.outcome = .ok .null ∧
      w'.seen th = Assoc.putSorted "x" (literal t) (w.seen th) ∧ w'.Keyed := by
  obtain ⟨call, wa, hexecute, hcurrent, hkeyed, hseen⟩ :=
    exists_call_of_unmarked settings th hsplit hmark hw
  have hscript : callScript (interpreter settings) (registry.find "set")
      (registry.canonicalName "set") rest .terminal =
        .request (.setVariable "x" (literal t)) fun _ => .done (.ok .null) := by
    rw [callScript, show registry.find "set" = set from rfl, parse_set hargs, hflag]
    rfl
  have hanswer : wa.answer (interpreter settings) th (.setVariable "x" (literal t)) =
      some ((wa.session call.session).getVariable "x",
        wa.modifySession call.session fun s => s.setVariable "x" (literal t)) := by
    simp only [World.answer, hcurrent]
    rfl
  obtain ⟨hcurrent', hseen'⟩ :=
    seen_modifySession hkeyed hcurrent fun s => s.setVariable "x" (literal t)
  have hset : (wa.modifySession call.session fun s => s.setVariable "x" (literal t)).Keyed :=
    hkeyed.modifySession call.session fun _ => rfl
  obtain ⟨r, w', hrun, houtcome, hsame, hkeyed'⟩ :=
    runCall_done call hset hcurrent' settings (.ok .null)
  refine ⟨r, w', ?_, houtcome, ?_, hkeyed'⟩
  · rw [hexecute, hscript, runCall_of_answer hanswer, hrun]
  · rw [hsame, hseen', ← hseen, seen_of_current hcurrent]
    rfl

end

/-- `get x` answers what the thread sees under that name. -/
theorem execute_get (settings : Settings) (th : Thread) (hw : w.Keyed) :
    ∃ r w', w.execute (interpreter settings) th "get x" = (.finished r, w') ∧
      ∀ v, r.outcome = .ok v ↔ Assoc.get? "x" (w.seen th) = some v := by
  have hsplit : splitCommand "get x" = some ("get", "x") := rfl
  have hmark : Line.Unmarked "x".toList := Line.unmarked_of_not_mem (by decide)
  obtain ⟨call, wa, hexecute, hcurrent, hkeyed, hseen⟩ :=
    exists_call_of_unmarked settings th hsplit hmark hw
  have hanswer : wa.answer (interpreter settings) th (.getVariable "x") =
      some (Assoc.get? "x" (w.seen th), wa) := by
    rw [World.answer, hcurrent, ← hseen, seen_of_current hcurrent]
    rfl
  obtain ⟨next, hscript, hnext⟩ : ∃ next : (Request.getVariable "x").Reply → Script _,
      callScript (interpreter settings) (registry.find "get") (registry.canonicalName "get") "x"
        .terminal = .request (.getVariable "x") next ∧
      ∀ found : Option Json, ∃ outcome, next found = .done outcome ∧
        ∀ v, outcome = .ok v ↔ found = some v := by
    rw [callScript, show registry.find "get" = get from rfl, parse_get]
    refine ⟨_, rfl, fun found => ?_⟩
    cases found with
    | none => exact ⟨_, rfl, fun v => by simp [Outcome.error, Outcome.result]⟩
    | some u => exact ⟨_, rfl, fun v => by simp [Outcome.result]⟩
  obtain ⟨outcome, hdone, hok⟩ := hnext (Assoc.get? "x" (w.seen th))
  obtain ⟨r, w', hrun, rfl, -⟩ := runCall_done call hkeyed hcurrent settings outcome
  refine ⟨r, w', ?_, hok⟩
  rw [hexecute, hscript, runCall_of_answer hanswer, hdone, hrun]

/-! ## What is stored -/

/-- The text of a value, once quoting is gone, is stored as that value.  For a string that is so if
no character of it was escaped as a control character and it does not look like another value or a
flag; any other value must hold no strings. -/
def Kept : Json → Prop
  | .string s => (∀ c ∈ s.toList, 32 ≤ c.toNat) ∧ Json.parse? s = none ∧
      looksLikeFlag s.toList = false
  | v => Json.texts v = [] ∧ Json.Exact Json.maxDepth v

theorem bare_string_iff (s : String) :
    (Json.string s).bare = s ↔ ∀ c ∈ s.toList, 32 ≤ c.toNat := by
  rw [← Json.bareChars_eq_self_iff, ← String.toList_inj, Json.bare, String.toList_ofList]
  rfl

theorem literal_bare_string_iff (s : String) :
    literal (Json.string s).bare = .string s ↔
      (Json.string s).bare = s ∧ Json.parse? s = none := by
  rw [literal]
  cases hparse : Json.parse? (Json.string s).bare with
  | none =>
    rw [Option.getD_none, Json.string.injEq]
    exact ⟨fun h => ⟨h, by rw [← hparse, h]⟩, And.left⟩
  | some v =>
    rw [Option.getD_some]
    refine iff_of_false (fun h => ?_) fun h => ?_
    · -- a text that gives a string has more marks than are left of it
      rw [h] at hparse
      cases Json.texts_of_parse?_bareText hparse
    · rw [h.1, h.2] at hparse
      cases hparse

theorem literal_bare_iff {v : Json} (hv : ∀ s, v ≠ .string s) :
    literal v.bare = v ↔ Json.texts v = [] ∧ Json.Exact Json.maxDepth v := by
  rw [← Json.parse?_compact_iff]
  constructor
  · intro h
    have hparse : Json.parse? v.bare = some v := by
      rw [literal] at h
      cases hparse : Json.parse? v.bare with
      | none =>
        rw [hparse] at h
        exact absurd h.symm (hv _)
      | some u =>
        rw [hparse] at h
        exact congrArg some h
    have htexts := Json.texts_of_parse?_bareText hparse
    rw [Json.bare, Json.bareText_of_texts v htexts] at hparse
    exact ⟨htexts, hparse⟩
  · rintro ⟨htexts, hparse⟩
    rw [literal, Json.bare, Json.bareText_of_texts v htexts]
    exact congrArg (Option.getD · _) hparse

/-- A value is kept if what is left of its text is stored, and as that value. -/
theorem kept_iff (v : Json) :
    Kept v ↔ looksLikeFlag v.bare.toList = false ∧ literal v.bare = v := by
  have hother (hv : ∀ s, v ≠ .string s) : Json.texts v = [] ∧ Json.Exact Json.maxDepth v ↔
      looksLikeFlag v.bare.toList = false ∧ literal v.bare = v := by
    rw [literal_bare_iff hv, Json.bare, String.toList_ofList, Json.looksLikeFlag_bareText hv]
    exact (and_iff_right rfl).symm
  cases v with
  | string s =>
    rw [literal_bare_string_iff, Kept, ← bare_string_iff]
    constructor
    · rintro ⟨hbare, hparse, hflag⟩
      exact ⟨by rw [hbare]; exact hflag, hbare, hparse⟩
    · rintro ⟨hflag, hbare, hparse⟩
      rw [hbare] at hflag
      exact ⟨hbare, hparse, hflag⟩
  | _ => exact hother (by simp)

/-! ## Both commands -/

/-- The text of a value is one word, whatever it holds. -/
theorem arguments_compact (v : Json) : Line.arguments ("x " ++ v.compact) = ["x", v.bare] := by
  have hclosed : Line.Mode.start.advanceAll ['x'] = .start := rfl
  have hwords := Line.words_append hclosed (show isBlank ' ' = true from rfl) v.compactText
  rw [(Json.spells_compactText v).words_eq] at hwords
  have hline : ("x " ++ v.compact).toList = ['x'] ++ ' ' :: v.compactText := by
    simp [Json.compact]
  rw [Line.arguments, hline, hwords]
  rfl

theorem splitCommand_set (text : String) :
    splitCommand ("set x " ++ text) = some ("set", "x " ++ text) := by
  have hcut : Cut ("set x " ++ text).toList "set".toList [' '] ("x " ++ text).toList :=
    ⟨by simp, ⟨by decide, not_blank_of_all rfl⟩, List.all_eq_true.1 rfl, by simp⟩
  have hsplit := hcut.splitCommand
  have hstart : trimStart ("x " ++ text).toList = ("x " ++ text).toList := by
    refine (trimStart_eq_self_iff _).2 fun c hc => ?_
    rw [String.toList_append] at hc
    obtain rfl := Option.some.inj hc
    rfl
  rwa [hstart, String.ofList_toList, String.ofList_toList, String.ofList_toList] at hsplit

theorem unmarked_append {text : String} (h : Line.Unmarked text.toList) :
    Line.Unmarked ("x " ++ text).toList := by
  intro hinfix
  rw [String.toList_append] at hinfix
  have hinfix : ['$', '{'] <:+: 'x' :: ' ' :: text.toList := hinfix
  simp only [List.infix_cons_iff, List.cons_prefix_cons] at hinfix
  rcases hinfix with ⟨hx, -⟩ | ⟨hblank, -⟩ | hrest
  · cases hx
  · cases hblank
  · exact h hrest

/-- **What `set` keeps.**  A caller enters `set x` with the compact text of a value, in which no
placeholder begins, and then `get x`.  If what quoting leaves of the text looks like a flag, `set`
fails and `get` answers what it would have answered before.  Otherwise `set` stores the JSON value
of what is left, or that text itself if it has none, and `get` answers that.  It is the value that
was entered just where the value is kept. -/
theorem set_then_get (settings : Settings) (now : Timestamp) (seed : Nat)
    {run : List Moment} {s : Scene}
    (h : Unfolds (interpreter settings) (.initial (interpreter settings) now seed) run s)
    (c : Nat) (v : Json) (hmark : Line.Unmarked v.compact.toList) :
    let i := interpreter settings
    let th : Thread := .caller c
    ∃ r w r' w', s.world.execute i th ("set x " ++ v.compact) = (.finished r, w) ∧
      w.execute i th "get x" = (.finished r', w') ∧
      (looksLikeFlag v.bare.toList = true → r.outcome = .error (.parse (.incomplete "value")) ∧
        ∀ u, r'.outcome = .ok u ↔ Assoc.get? "x" (s.world.seen th) = some u) ∧
      (looksLikeFlag v.bare.toList = false → r.outcome = .ok .null ∧
        r'.outcome = .ok (literal v.bare)) ∧
      (r'.outcome = .ok v ↔ Kept v ∨
        looksLikeFlag v.bare.toList = true ∧ Assoc.get? "x" (s.world.seen th) = some v) := by
  intro i th
  have hkeyed : s.world.Keyed := keyed_unfolds h
  have hsplit := splitCommand_set v.compact
  have hmarked := unmarked_append hmark
  have hargs := arguments_compact v
  rw [kept_iff]
  cases hflag : looksLikeFlag v.bare.toList with
  | true =>
    obtain ⟨r, w, hset, houtcome, hseen, hkeyed'⟩ :=
      execute_set_of_flag settings th hsplit hmarked hargs hflag hkeyed
    obtain ⟨r', w', hget, hanswer⟩ := execute_get settings th hkeyed'
    rw [hseen] at hanswer
    refine ⟨r, w, r', w', hset, hget, fun _ => ⟨houtcome, hanswer⟩, fun hfalse => ?_, ?_⟩
    · cases hfalse
    · rw [hanswer v]
      simp
  | false =>
    obtain ⟨r, w, hset, houtcome, hseen, hkeyed'⟩ :=
      execute_set settings th hsplit hmarked hargs hflag hkeyed
    obtain ⟨r', w', hget, hanswer⟩ := execute_get settings th hkeyed'
    have hstored : Assoc.get? "x" (w.seen th) = some (literal v.bare) := by
      rw [hseen, Assoc.get?_putSorted, if_pos rfl]
    rw [hstored] at hanswer
    refine ⟨r, w, r', w', hset, hget, fun htrue => ?_, fun _ => ⟨houtcome, (hanswer _).2 rfl⟩, ?_⟩
    · cases htrue
    · rw [hanswer v]
      simp

/-- An array of a number, a truth value and an array is kept. -/
theorem set_then_get_array :
    let v : Json := .array [.integer (-5), .bool true, .array []]
    let w : World := .initial .default 0 1
    v.compact = "[-5,true,[]]" ∧ ∃ r w' r' w'',
      w.execute (interpreter .default) (.caller 0) ("set x " ++ v.compact) = (.finished r, w') ∧
      w'.execute (interpreter .default) (.caller 0) "get x" = (.finished r', w'') ∧
      r'.outcome = .ok v := by
  intro v w
  have hcompact : v.compact = "[-5,true,[]]" := rfl
  have hmark : Line.Unmarked v.compact.toList := by
    rw [hcompact]
    exact Line.unmarked_of_not_mem (by decide)
  have hkept : Kept v := by
    refine ⟨rfl, ?_⟩
    simp only [v, Json.Exact, Json.ExactItems]
    decide
  obtain ⟨r, w', r', w'', hset, hget, -, -, hiff⟩ :=
    set_then_get .default 0 1 .none 0 v hmark
  exact ⟨hcompact, r, w', r', w'', hset, hget, hiff.2 (Or.inl hkept)⟩

/-- An object with a field loses the quote marks of its name, and is stored as a text. -/
theorem set_loses_object :
    let v : Json := .fields [("a", .integer 1)]
    let w := ((World.initial .default 0 1).execute (interpreter .default) (.caller 0)
      ("set x " ++ v.compact)).2
    v.compact = "\x7b\"a\":1\x7d" ∧ Line.Unmarked v.compact.toList ∧ ∃ r w',
      w.execute (interpreter .default) (.caller 0) "get x" = (.finished r, w') ∧
      r.outcome = .ok (.string "\x7ba:1\x7d") ∧ r.outcome ≠ .ok v := by
  intro v w
  have hcompact : v.compact = "\x7b\"a\":1\x7d" := rfl
  have hmark : Line.Unmarked v.compact.toList := by
    rw [hcompact]
    exact Line.unmarked_of_not_mem (by decide)
  have hbare : v.bare = "\x7ba:1\x7d" := rfl
  have hliteral : literal v.bare = .string "\x7ba:1\x7d" := by
    rw [hbare]
    rfl
  have hflag : looksLikeFlag v.bare.toList = false := by
    rw [hbare]
    rfl
  obtain ⟨r, w', hset, -, hseen, hkeyed⟩ := execute_set .default (.caller 0)
    (splitCommand_set v.compact) (unmarked_append hmark) (arguments_compact v) hflag
    (keyed_initial .default 0 1)
  have hw : w = w' := congrArg Prod.snd hset
  rw [← hw] at hseen hkeyed
  obtain ⟨r', w'', hget, hanswer⟩ := execute_get .default (.caller 0) hkeyed
  rw [hseen, Assoc.get?_putSorted, if_pos rfl, hliteral] at hanswer
  refine ⟨hcompact, hmark, r', w'', hget, (hanswer _).2 rfl, fun hok => ?_⟩
  have hsame : Json.string "\x7ba:1\x7d" = .fields [("a", .integer 1)] :=
    Option.some.inj ((hanswer v).1 hok)
  cases hsame

end CommandShell.Shell
