import CommandShell.Proofs.Engine.Parseable
import CommandShell.Proofs.Engine.Transparency
import CommandShell.Proofs.Line.Placeholders
/-!
# The ways into a call

A call begins with a line, whose placeholders are replaced first, or with values, which are not
parsed.  What comes after is the same: filters, handler and record know the text that placeholders
left behind and the values that parsing gave, and not where these came from.

    lines with the same text after replacement are one call          (dispatch_eq_of_substituted)
    replacing the placeholders of a line beforehand changes nothing
                                                              (placeholders_act_before_parsing)
    a line and the values that it parses to are one call, but for the text  (alike_dispatch_invoke)
    if the name of the command can begin a line                       (dispatch_agrees_with_invoke)
-/

namespace CommandShell

open CommandShell.Text

namespace World

variable {i : Interpreter} {w : World} {n : Nat} {c : Entry} {typed : String}

/-! ## Calls by lines -/

/-- Lines with one command and the same text after replacement are one call. -/
theorem dispatch_eq_of_substituted {line line' rest rest' : String} (th : Thread)
    (console : Console) (hsplit : splitCommand line = some (typed, rest))
    (hsplit' : splitCommand line' = some (typed, rest'))
    (h : w.substituted n rest' = w.substituted n rest) :
    w.dispatch i th n line' console = w.dispatch i th n line console := by
  rw [dispatch_of_split th console hsplit, dispatch_of_split th console hsplit', h]

/-- **Placeholders act before parsing and nowhere else.**  Let `s` be what is left of an argument
text, without random values in it, when its placeholders are replaced, and let `s` hold no
placeholder and begin with no blank.  Then the line with `s` in the place of the text is the same
call: the filters are asked about `s`, the handler gets what `s` parses to, the record holds `s`
and accounts for that call, and however the two calls go on, if they are taken up in the same
worlds, the requests to filters, the arguments of the handler and the records are equal.

That is so in the same world.  The order in which literals of a text are converted is settled by
nothing; if it is another one when the second line is parsed, and the strategy is a built-in one,
then the records differ in nothing else than which literal they name where literals do not fit. -/
theorem placeholders_act_before_parsing (i : Interpreter) (th : Thread) (n : Nat)
    (console : Console) (w : World) (hn : n < w.sessions.sessions.length) (word text s : String)
    (hs : s = (w.substituted n text).1) (hword : IsWord word)
    (htext : ∀ ch, text.toList.head? = some ch → isBlank ch = false)
    (hchance : Line.Chanceless text) (hmarks : Line.Unmarked s.toList)
    (hstart : ∀ ch, s.toList.head? = some ch → isBlank ch = false)
    (order : TableOrder) (horder : order = w.order ∨ i.ParsesBuiltin (i.registry.find word)) :
    let e := i.registry.find word
    let run := w.dispatch i th n (word ++ " " ++ text) console
    let run' := (w.inOrder order).dispatch i th n (word ++ " " ++ s) console
    let request : FilterRequest := ⟨i.registry.canonicalName word, s, (w.session n).label⟩
    (order = w.order → run' = run) ∧ (∃ legs r, Legs i th w run.1 run.2 legs r) ∧
      ∀ legs r, Legs i th w run.1 run.2 legs r →
        r.command = word ∧ r.rawArgs = s ∧
        filtersAsked legs = (i.registry.runFilters request).1.filterMap Event.question? ∧
        (∀ asked ∈ filtersAsked legs, asked.2 = request) ∧
        Accounts i e request (i.parse e s console w.order) (handlerRuns legs) r ∧
        (∃ legs' r', Legs i th (w.inOrder order) run'.1 run'.2 legs' r' ∧ AtOnce legs legs') ∧
        ∀ legs' r', Legs i th (w.inOrder order) run'.1 run'.2 legs' r' → AtOnce legs legs' →
          filtersAsked legs' = filtersAsked legs ∧ handlerRuns legs' = handlerRuns legs ∧
          (order = w.order → r' = r) ∧ r.SameButForBlame i.coercions e.parameters r' := by
  intro e run run' request
  have hsplit : splitCommand (word ++ " " ++ text) = some (word, text) :=
    splitCommand_word hword htext
  have hsplit' : splitCommand (word ++ " " ++ s) = some (word, s) := splitCommand_word hword hstart
  have hleft : w.substituted n text = (s, w.chance) :=
    Prod.ext hs.symm (Line.chance_of_chanceless hchance w.chance)
  have hright : w.substituted n s = w.substituted n text :=
    (Line.substitute_of_unmarked hmarks).trans hleft.symm
  have halike := alike_dispatch (i := i) .same th console order hn hsplit hsplit' hright rfl rfl rfl
    (i.sameValues_parse horder _ console)
  rw [hleft] at halike
  have hfilters {legs : List Leg} {r : Record} (h : Legs i th w run.1 run.2 legs r) :
      filtersAsked legs = (i.registry.runFilters request).1.filterMap Event.question? := by
    rw [filtersAsked_eq, halike.logged h, questions_beginning]
  refine ⟨fun h => ?_, halike.ends, fun legs r h => ?_⟩
  · subst h
    exact dispatch_eq_of_substituted th console hsplit hsplit' hright
  obtain ⟨-, hcommand, hargs, haccounts⟩ := legs_dispatch console hn hsplit h
  rw [← hs] at hargs haccounts
  refine ⟨hcommand, hargs, hfilters h, fun asked hmem => ?_, haccounts, halike.follows legs r h,
    fun legs' r' h' htaken => ?_⟩
  · rw [hfilters h] at hmem
    obtain ⟨event, hevent, hquestion⟩ := List.mem_filterMap.1 hmem
    obtain ⟨f, -, rfl⟩ := Registry.filtered_of_mem_runChain hevent
    rw [← Option.some.inj hquestion]
  · obtain ⟨hasked, hhandler⟩ := halike.runs_eq (i.sameValues_parse horder _ console) h h'
    have hrelates := halike.agree h h' htaken
    refine ⟨hasked, hhandler, fun hsame => ?_, hrelates.sameButForBlame horder hargs⟩
    subst hsame
    exact hrelates.eq rfl

/-- A variable that holds a flag with its value; filter and handler see them in its place. -/
theorem flag_from_variable :
    let i : Interpreter := ⟨.default,
      .ofEntries Strategy.builtin [nothingHidden, { counting with name := "list" }], .builtin, []⟩
    let th : Thread := .caller 0
    let w := ((World.initial .default 0 1).locate (.named "a")).2.modifySession 0 fun s =>
      s.setVariable "x" (.string "--up 7")
    let run := w.dispatch i th 0 ("list" ++ " " ++ "${x}") .terminal
    w.dispatch i th 0 ("list" ++ " " ++ "--up 7") .terminal = run ∧
      ∃ legs r, Legs i th w run.1 run.2 legs r ∧ r.rawArgs = "--up 7" ∧
        filtersAsked legs = [("nothing hidden", ⟨"list", "--up 7", "a"⟩)] ∧
        handlerRuns legs = [⟨"list", [.int 7]⟩] := by
  intro i th w run
  have hpieces : Line.pieces "${x}".toList = [.plain [], .placeholder ['x'], .plain []] := rfl
  have hchance : Line.Chanceless "${x}" := by
    intro e he
    rw [hpieces] at he
    obtain rfl : e = ['x'] := by simpa using he
    exact ⟨['x'], rfl⟩
  have hfirst (text : String) (ch : Char) (hblank : isBlank ch = false)
      (h : text.toList.head? = some ch) (d : Char) (hd : text.toList.head? = some d) :
      isBlank d = false := by
    rw [h] at hd
    obtain rfl := Option.some.inj hd
    exact hblank
  obtain ⟨hsame, ⟨legs, r, hlegs⟩, hall⟩ := placeholders_act_before_parsing i th 0 .terminal w
    (by decide) "list" "${x}" "--up 7" rfl ⟨by decide, not_blank_of_all rfl⟩
    (hfirst _ '$' rfl rfl) hchance (Line.unmarked_of_not_mem (by decide)) (hfirst _ '-' rfl rfl)
    w.order (Or.inl rfl)
  obtain ⟨-, hargs, hfilters, -, haccounts, -⟩ := hall legs r hlegs
  exact ⟨hsame rfl, legs, r, hlegs, hargs, hfilters, (haccounts.handled rfl [.int 7] rfl).1⟩

/-! ## Calls by values -/

/-- Calls a command with values in a session. -/
def invokeIn (i : Interpreter) (th : Thread) (n : Nat) (name : String) (values : List Value)
    (w : World) : Called × World :=
  let begun := w.beginCall i n name (valuesText values) fun _ => .ok values
  begun.2.runCall i th begun.1

/-- Calls by values are made in the session of the thread. -/
theorem invoke_eq_invokeIn (i : Interpreter) (th : Thread) (name : String) (values : List Value)
    (w : World) : w.invoke i th name values =
      (w.current th).2.invokeIn i th (w.current th).1 name values := rfl

/-- A line and the values that its text parses to go the same way, but for the text. -/
theorem alike_dispatch_invoke {line text : String} {values : List Value} (th : Thread)
    {console : Console} (hn : n < w.sessions.sessions.length)
    (hc : i.registry.command? c.name = some c)
    (hsplit : splitCommand line = some (c.name, text)) (hmarks : Line.Unmarked text.toList)
    (hparse : i.parse c text console w.order = .ok values)
    (hunread : ∀ e ∈ i.registry.filterChain c.name, ∀ args args' label,
      Registry.verdict e ⟨c.name, args, label⟩ = Registry.verdict e ⟨c.name, args', label⟩) :
    let f : Relabeling := .withText (valuesText values)
    ∃ added added', added'.filterMap Event.invocation? = added.filterMap Event.invocation? ∧
      Alike i th (fun r r' => r' = f.record r) w w (w.dispatch i th n line console)
        (w.invokeIn i th n c.name values) added added' := by
  intro f
  have hname : i.registry.canonicalName c.name = c.name := by rw [Registry.canonicalName, hc]
  have hfind : i.registry.find c.name = c := by rw [Registry.find, hc, Option.getD_some]
  let request : FilterRequest := ⟨c.name, text, (w.session n).label⟩
  let request' : FilterRequest := ⟨c.name, valuesText values, (w.session n).label⟩
  have hverdict : (i.registry.runFilters request').2 = (i.registry.runFilters request).2 :=
    Registry.verdict_runChain_congr fun e he => hunread e he _ text _
  let call := w.newCall i n c.name text
  have hlt : call.session < w.sessions.sessions.length := hn
  have hparsed : SameValues (.ok values) (.ok values) := fun _ => Iff.rfl
  have hcommand : request'.command = request.command := rfl
  have halike := alike_begun i th f hlt rfl rfl rfl rfl hcommand hverdict hparsed c
  refine ⟨(i.beginning call request c (.ok values)).2,
    (i.beginning (f.call call) request' c (.ok values)).2,
    invocations_beginning_congr hcommand hverdict hparsed, ?_⟩
  rw [dispatch_of_split th console hsplit, substituted, Line.substitute_of_unmarked hmarks,
    invokeIn, beginCall_eq_beginning, beginCall_eq_beginning, filterRequest, filterRequest,
    newCall, newCall, hname, hfind, hparse]
  exact halike.mono fun r r' h => h.eq rfl

/-- **A line and the values that it parses to are one call.**  Let a command be found by its own
name, and let an argument text without placeholders, that begins with no blank, parse to values; and
let no filter for the command look at argument texts.  If the name of the command is a word, the
line comes to a record, the call by values can be taken up wherever the line is, and then the
handler gets equal arguments and the records differ in the argument text alone: they agree in
command, success, result and failure.  If the name is no word, then no line calls the command by
it. -/
theorem dispatch_agrees_with_invoke (i : Interpreter) (th : Thread) (n : Nat) (console : Console)
    (w : World) (hn : n < w.sessions.sessions.length) (c : Entry)
    (hc : i.registry.command? c.name = some c) (text : String) (values : List Value)
    (htext : ∀ ch, text.toList.head? = some ch → isBlank ch = false)
    (hmarks : Line.Unmarked text.toList)
    (hparse : i.parse c text console w.order = .ok values)
    (hunread : ∀ e ∈ i.registry.filterChain c.name, ∀ args args' label,
      Registry.verdict e ⟨c.name, args, label⟩ = Registry.verdict e ⟨c.name, args', label⟩) :
    let run := w.dispatch i th n (c.name ++ " " ++ text) console
    let run' := w.invokeIn i th n c.name values
    (IsWord c.name → (∃ legs r, Legs i th w run.1 run.2 legs r) ∧
      ∀ legs r, Legs i th w run.1 run.2 legs r →
        r.command = c.name ∧ r.rawArgs = text ∧
        (∃ legs' r', Legs i th w run'.1 run'.2 legs' r' ∧ AtOnce legs legs') ∧
        ∀ legs' r', Legs i th w run'.1 run'.2 legs' r' → AtOnce legs legs' →
          handlerRuns legs' = handlerRuns legs ∧ r' = { r with rawArgs := valuesText values } ∧
          r'.command = r.command ∧ r'.success = r.success ∧ r'.result = r.result ∧
          r'.failure? = r.failure?) ∧
    (¬ IsWord c.name → ∀ legs r, Legs i th w run.1 run.2 legs r → r.command ≠ c.name) := by
  intro run run'
  constructor
  · intro hword
    have hsplit : splitCommand (c.name ++ " " ++ text) = some (c.name, text) :=
      splitCommand_word hword htext
    obtain ⟨added, added', hruns, halike⟩ :=
      alike_dispatch_invoke (w := w) th hn hc hsplit hmarks hparse hunread
    refine ⟨halike.ends, fun legs r h => ?_⟩
    obtain ⟨-, hcommand, hargs, -⟩ := legs_dispatch console hn hsplit h
    rw [substituted, Line.substitute_of_unmarked hmarks] at hargs
    refine ⟨hcommand, hargs, ?_, fun legs' r' h' htaken => ?_⟩
    · exact halike.follows legs r h
    · obtain rfl := halike.agree h h' htaken
      refine ⟨?_, rfl, rfl, rfl, rfl, rfl⟩
      rw [handlerRuns_eq, handlerRuns_eq, halike.logged h, halike.logged' h', hruns]
  · intro hword legs r h hcommand
    cases hsplit : splitCommand (c.name ++ " " ++ text) with
    | none =>
      have hrun : run = (.blank, w) :=
        dispatch_of_blank th console ((splitCommand_eq_none_iff _).1 hsplit)
      rw [hrun] at h
      cases h
    | some cut =>
      obtain ⟨typed, rest⟩ := cut
      have htyped : r.command = typed := (legs_dispatch console hn hsplit h).2.1
      rw [← hcommand, htyped] at hword
      exact hword (isWord_of_splitCommand hsplit)

/-- The text and the value of a flag, with a filter that looks at the session alone. -/
theorem count_by_line_and_by_value :
    let members : Entry := Entry.ofHandler "members"
      (.filter (fun request => .ok (request.session = "a")) "not for you" [])
    let i : Interpreter :=
      ⟨.default, .ofEntries Strategy.builtin [members, counting], .builtin, []⟩
    let th : Thread := .caller 0
    let w := ((World.initial .default 0 1).locate (.named "a")).2
    let run := w.dispatch i th 0 ("count" ++ " " ++ "--up 7") .terminal
    let run' := w.invokeIn i th 0 "count" [.int 7]
    i.registry.command? "count" = some counting ∧
      i.parse counting "--up 7" .terminal w.order = .ok [.int 7] ∧
      ∃ legs r legs' r', Legs i th w run.1 run.2 legs r ∧ Legs i th w run'.1 run'.2 legs' r' ∧
        handlerRuns legs' = handlerRuns legs ∧ r.rawArgs = "--up 7" ∧
        r' = { r with rawArgs := "7" } := by
  intro members i th w run run'
  have hstart : ∀ ch, "--up 7".toList.head? = some ch → isBlank ch = false := by
    intro ch hch
    cases hch
    rfl
  have hchain : i.registry.filterChain "count" = [members] := rfl
  have hunread : ∀ e ∈ i.registry.filterChain "count", ∀ args args' label,
      Registry.verdict e ⟨"count", args, label⟩ = Registry.verdict e ⟨"count", args', label⟩ := by
    intro e he args args' label
    rw [hchain] at he
    rw [List.mem_singleton.1 he]
    rfl
  obtain ⟨hagree, -⟩ := dispatch_agrees_with_invoke i th 0 .terminal w (by decide) counting rfl
    "--up 7" [.int 7] hstart (Line.unmarked_of_not_mem (by decide)) rfl hunread
  obtain ⟨⟨legs, r, h⟩, hall⟩ := hagree ⟨by decide, not_blank_of_all rfl⟩
  obtain ⟨-, hargs, ⟨legs', r', h', htaken⟩, hsame⟩ := hall legs r h
  obtain ⟨hruns, hrecord, -⟩ := hsame legs' r' h' htaken
  exact ⟨rfl, rfl, legs, r, legs', r', h, h', hruns, hargs, hrecord⟩

/-- The command `a b` is found by its name and takes the text `x`, but the line `a b x` calls
another. -/
theorem name_with_blank_not_called :
    let spaced : Entry := { counting with
      name := "a b", strategy := Strategy.rawName, parameters := [.named "text" .str] }
    let i : Interpreter := ⟨.default, .ofEntries Strategy.builtin [spaced], .builtin, []⟩
    let th : Thread := .caller 0
    let w := ((World.initial .default 0 1).locate (.named "a")).2
    i.registry.find "a b" = spaced ∧ i.registry.lookup "a b" = some spaced ∧
      i.parse spaced "x" .terminal w.order = .ok [.str "x"] ∧ i.registry.filterChain "a b" = [] ∧
      Line.Unmarked "x".toList ∧
      ∃ r r', (w.dispatch i th 0 ("a b" ++ " " ++ "x") .terminal).1 = .finished r ∧
        (w.invokeIn i th 0 "a b" [.str "x"]).1 = .finished r' ∧
        r.command = "a" ∧ r'.command = "a b" := by
  intro spaced i th w
  have hmarks : Line.Unmarked "x".toList := Line.unmarked_of_not_mem (by decide)
  exact ⟨rfl, rfl, rfl, rfl, hmarks, _, _, rfl, rfl, rfl, rfl⟩

end World

end CommandShell
