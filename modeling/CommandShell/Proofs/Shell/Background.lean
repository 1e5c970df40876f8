import CommandShell.Proofs.Engine.Submission
import CommandShell.Proofs.Line.CommandWord
import CommandShell.Proofs.Line.Placeholders
import CommandShell.Proofs.Shell.Commands
/-!
# Lines in the background

`bg t line` submits a line as the task `t`.  The line is read twice on its way: its placeholders
are replaced and its end is trimmed when `bg` reads its own argument, and once more when the worker
reads the line that was submitted.

    line = typed gap rest     foreground: typed is called with    S  = rest, replaced
                              background: typed is called with    S' = S trimmed, replaced
    the background run does what the foreground run does ↔ S' = S
                                                      (background_like_foreground_iff)
-/

namespace CommandShell.Shell

open CommandShell.Text CommandShell.World

/-- The line that runs another one as a task. -/
def bgLine (t line : String) : String := "bg " ++ t ++ " " ++ line

/-- A text with its placeholders replaced by variables. -/
def filled (vars : List (String × Json)) (text : String) (chance : Generator) : String :=
  (Line.substitute (fun name => Assoc.get? name vars) text chance).1

theorem filled_of_unmarked (vars : List (String × Json)) {text : String}
    (h : Line.Unmarked text.toList) (chance : Generator) : filled vars text chance = text := by
  rw [filled, Line.substitute_of_unmarked h]

/-! ## The text of `bg` -/

section

variable {t : String} {typed gap rest S : List Char} {line : List Char}

/-- A name for a task that `bg` reads as it stands. -/
structure TaskName (t : String) : Prop where
  ne : t ≠ ""
  wordly : ∀ c ∈ t.toList, isBlank c = false
  unmarked : Line.Unmarked t.toList

theorem splitCommand_bgLine (ht : TaskName t) (line : String) :
    splitCommand (bgLine t line) = some ("bg", t ++ " " ++ line) := by
  have hcut : Cut (bgLine t line).toList "bg".toList [' '] (t ++ " " ++ line).toList :=
    ⟨by simp [bgLine], ⟨by decide, not_blank_of_all rfl⟩, List.all_eq_true.1 rfl, by simp⟩
  have hsplit := hcut.splitCommand
  have hstart : trimStart (t ++ " " ++ line).toList = (t ++ " " ++ line).toList := by
    have htrim : trimStart t.toList = t.toList :=
      (trimStart_eq_self_iff _).2 fun c hc => ht.wordly c (List.mem_of_head? hc)
    have hne : t.toList ≠ [] := fun h => ht.ne (String.toList_inj.1 h)
    simp only [String.toList_append, List.append_assoc]
    exact trimStart_append_of_not_blank htrim hne _
  rwa [hstart, String.ofList_toList, String.ofList_toList, String.ofList_toList] at hsplit

/-- `bg` cuts its argument behind the name, and what it submits is trimmed already. -/
theorem cutAtBlank_bg (ht : TaskName t) (hcut : Cut line typed gap rest) (S : List Char) :
    cutAtBlank (trim (t.toList ++ (' ' :: typed ++ gap) ++ S)) =
        some (t.toList, typed ++ trimEnd (gap ++ S)) ∧
      trim (typed ++ trimEnd (gap ++ S)) = typed ++ trimEnd (gap ++ S) := by
  have hblank : isBlank ' ' = true := by decide
  have hname : trimStart t.toList = t.toList :=
    (trimStart_eq_self_iff _).2 fun c hc => ht.wordly c (List.mem_of_head? hc)
  have hne : t.toList ≠ [] := fun h => ht.ne (String.toList_inj.1 h)
  have htyped : trimEnd typed ≠ [] := by
    rw [hcut.trimEnd_word]
    exact hcut.wordly.1
  have hfront : trimEnd (t.toList ++ ' ' :: typed) = t.toList ++ ' ' :: typed := by
    have hbehind : t.toList ++ ' ' :: typed = (t.toList ++ [' ']) ++ typed := by simp
    rw [hbehind, trimEnd_append_of_ne_nil _ htyped, hcut.trimEnd_word]
  have hregroup : t.toList ++ (' ' :: typed ++ gap) ++ S =
      (t.toList ++ ' ' :: typed) ++ (gap ++ S) := by simp
  constructor
  · have hstart : trimStart (t.toList ++ (' ' :: typed ++ gap) ++ S) =
        t.toList ++ (' ' :: typed ++ gap) ++ S := by
      rw [List.append_assoc]
      exact trimStart_append_of_not_blank hname hne _
    rw [trim, hstart, hregroup, trimEnd_append hfront, List.append_assoc, List.cons_append]
    exact cutAtBlank_append ht.wordly hblank _
  · rw [trim, trimStart_append_of_not_blank hcut.trimStart_word hcut.wordly.1,
      trimEnd_append hcut.trimEnd_word, trimEnd_trimEnd]

/-- The placeholders in the argument of `bg` are those behind the command of the line. -/
theorem substitute_bg (lookup : String → Option Json) (g : Generator) (ht : TaskName t)
    (hcut : Cut line typed gap rest) (hdollar : '$' ∉ typed) :
    Line.substitutePieces lookup g (Line.pieces (t.toList ++ ' ' :: line)) =
      (t.toList ++ (' ' :: typed ++ gap) ++ (Line.substitutePieces lookup g (Line.pieces rest)).1,
        (Line.substitutePieces lookup g (Line.pieces rest)).2) := by
  have hfree : '$' ∉ ' ' :: typed ++ gap := by
    intro hmem
    rcases List.mem_append.1 hmem with hmem | hmem
    · rcases List.mem_cons.1 hmem with hmem | hmem
      · exact absurd hmem (by decide)
      · exact hdollar hmem
    · exact absurd (hcut.blank _ hmem) (by decide)
  have hhead : ∀ c, (' ' :: typed ++ gap).head? = some c → c ≠ '{' := by
    rintro c hc rfl
    cases hc
  have hregroup : t.toList ++ ' ' :: line = t.toList ++ (' ' :: typed ++ gap) ++ rest := by
    simp [hcut.line]
  rw [hregroup]
  exact Line.substitutePieces_append ht.unmarked hfree hhead (by simp) rest

end

/-! ## The call of `bg` -/

/-- Where callers enter lines, every call keeps to its console. -/
theorem keepsToConsole {settings : Settings} {s s' : Scene} {run : List Moment}
    (h : Unfolds (interpreter settings) s run s') (hlines : ByLines (interpreter settings) run) :
    ∀ m ∈ run, m.deed.KeepsToConsole := by
  intro m hm
  have hturn := h.turn m hm
  cases hdeed : m.deed with
  | called inv =>
    obtain ⟨c, line, hbegin⟩ := hlines m hm inv hdeed
    exact printsOn_beginLine hbegin
  | began r =>
    rw [hdeed] at hturn
    intro inv hinv
    generalize m.after = after at hturn
    cases hturn with
    | still hdeed => rcases hdeed with hdeed | ⟨inv, hdeed⟩ <;> cases hdeed
    | began hqueue hfree hworker hprevious hinvocation =>
      rw [hinv] at hinvocation
      obtain ⟨⟨inv', w'⟩, hbegin, hsame⟩ := Option.map_eq_some_iff.1 hinvocation.symm
      obtain rfl : inv' = inv := hsame
      exact (printsOn_beginLine hbegin).mono fun console hconsole => Or.inr hconsole
  | _ => trivial

variable {settings : Settings} {s : Scene} {c : Nat}

theorem command?_bg : registry.command? "bg" = some bg := rfl

/-- `bg` asks for one thing, a submission, and answers with the task. -/
theorem exists_callScript_bg (settings : Settings) {raw : String} {task line : List Char}
    (h : cutAtBlank (trim raw.toList) = some (task, line)) (command : String)
    (console : Console) :
    ∃ next : (Request.submit (String.ofList task) (String.ofList (trim line))).Reply →
        Script (Except Failure Json),
      callScript (interpreter settings) bg command raw console = .request _ next ∧
        ∀ generation, next (.ok generation) = .done (.ok (Json.object
          [("task", .string (String.ofList task)), ("generation", Json.ofNat generation)])) := by
  have hparse : (interpreter settings).parse bg raw console .asFilled = .ok [.str raw] := by
    have hstrategy : (interpreter settings).registry.strategyOf? bg = some Strategy.raw :=
      strategyOf?_eq settings bg
    rw [Interpreter.parse, hstrategy]
    rfl
  have hread : (⟨command, [.str raw]⟩ : Arguments).str 0 = .ok raw := rfl
  have hhandler (args : Arguments) : handlerScript bg args =
      (runBg args).mapResult (Outcome.result args.command) := rfl
  rw [callScript, hparse]
  dsimp only
  rw [hhandler, runBg, hread, withArgument]
  split
  · next hnone =>
    rw [h] at hnone
    cases hnone
  · next name rest hsome =>
    rw [h] at hsome
    cases hsome
    exact ⟨_, rfl, fun _ => rfl⟩

/-- `bg` answers with the task that it has opened, and its job waits in the queue. -/
theorem exists_launches_bg (settings : Settings) {t line raw : String} {task behind : List Char}
    (hsplit : splitCommand (bgLine t line) = some ("bg", raw))
    (hcut : cutAtBlank (trim ((s.world.current (.caller c)).2.substituted
      (s.world.current (.caller c)).1 raw).1.toList) = some (task, behind))
    (hblank : allBlank (trim behind) = false) (hstopped : s.world.pool.stopped = false) :
    ∃ run r w', s.world.execute (interpreter settings) (.caller c) (bgLine t line) =
        (.finished r, w') ∧
      r.outcome = .ok (Json.object [("task", .string (String.ofList task)),
        ("generation", Json.ofNat (s.world.nextTask (.caller c)).generation)]) ∧
      Launches (interpreter settings) s
        (s.world.nextJob (.caller c) (String.ofList (trim behind))) run w' := by
  obtain ⟨⟨inv, wa⟩, hbegin⟩ : ∃ begun, (s.world.current (.caller c)).2.beginLine
      (interpreter settings) (s.world.current (.caller c)).1 (bgLine t line) .terminal =
        some begun := ⟨_, beginLine_of_split .terminal hsplit⟩
  obtain ⟨-, -, hscript⟩ := invocation_of_beginLine hsplit hbegin
  obtain ⟨next, hcall, hnext⟩ := exists_callScript_bg settings hcut
    (registry.canonicalName "bg") .terminal
  rw [Registry.find, command?_bg, Option.getD_some, hcall] at hscript
  exact exists_launches hbegin hscript hnext (by rw [String.toList_ofList]; exact hblank) hstopped

/-! ## Both runs -/

/-- A line that can be run as a task of that name, and whose command looks at nothing but its
arguments and the variables. -/
structure Suits (t line typed rest : String) : Prop where
  name : TaskName t
  trimmed : trim line.toList = line.toList
  split : splitCommand line = some (typed, rest)
  reads : ∃ e, registry.command? typed = some e ∧ e.name ∉ worldly

/-- A background run did what a foreground run did: its record and output, the record of the
foreground run and what that printed. -/
structure Alike (limit : Nat) (r : Record) (output : Capture) (r' : Record) (printed : String) :
    Prop where
  command : r.command = r'.command
  rawArgs : r.rawArgs = r'.rawArgs
  success : r.success = r'.success
  result : r.result = r'.result
  failure : r.failure? = r'.failure?
  output : output = ((Capture.empty limit).write printed).finish

/-- What commands are told about each other. -/
def known : List CommandInfo := registry.commands.map Entry.info

/-- A record of a run of the command with that text: where the variables determine what is printed
and how the call ends, it ended so, and that was printed. -/
def Ran (settings : Settings) (e : Entry) (typed text : String) (vars : List (String × Json))
    (console : Console) (r : Record) (prints : String → Prop) : Prop :=
  ∀ printed outcome,
    (callScript (interpreter settings) e (registry.canonicalName typed) text console).Gives vars
      known console printed outcome →
    r.command = typed ∧ r.rawArgs = text ∧ r.outcome = outcome ∧ prints printed

theorem Ran.imp {e : Entry} {typed text : String} {vars : List (String × Json)}
    {console : Console} {r : Record} {prints prints' : String → Prop}
    (h : Ran settings e typed text vars console r prints)
    (himp : ∀ printed, prints printed → prints' printed) :
    Ran settings e typed text vars console r prints' := by
  intro printed outcome hgives
  obtain ⟨hcommand, hraw, houtcome, hprints⟩ := h printed outcome hgives
  exact ⟨hcommand, hraw, houtcome, himp printed hprints⟩

/-- Two runs of a command that the variables determine are alike if they were given one text. -/
theorem Ran.alike_iff {e : Entry} {typed text text' : String} {vars : List (String × Json)}
    {console console' : Console} {limit : Nat} {r r' : Record} {output : Capture}
    {printed' : String} (hcommand : registry.command? typed = some e) (hreads : e.name ∉ worldly)
    (h : Ran settings e typed text vars console r fun printed =>
      output = ((Capture.empty limit).write printed).finish)
    (h' : Ran settings e typed text' vars console' r' (printed' = ·)) :
    r.command = r'.command ∧ r'.rawArgs = text' ∧ r.rawArgs = text ∧
      (Alike limit r output r' printed' ↔ text = text') := by
  have hgives := gives_callScript settings hcommand hreads vars known (registry.canonicalName typed)
  obtain ⟨_, _, hone⟩ := hgives text
  obtain ⟨printed, outcome, htwo⟩ := hgives text'
  obtain ⟨htyped, hraw, -⟩ := h _ _ (hone console)
  obtain ⟨htyped', hraw', houtcome', hprinted'⟩ := h' _ _ (htwo console')
  refine ⟨htyped.trans htyped'.symm, hraw', hraw, fun halike => ?_, fun hsame => ?_⟩
  · rw [← hraw, halike.rawArgs, hraw']
  · have hgiven := htwo console
    rw [← hsame] at hgiven
    obtain ⟨-, -, houtcome, houtput⟩ := h _ _ hgiven
    have hsameOutcome : r.outcome = r'.outcome := houtcome.trans houtcome'.symm
    exact {
      command := htyped.trans htyped'.symm
      rawArgs := by rw [hraw, hsame, hraw']
      success := by rw [Record.success, Record.success, hsameOutcome]
      result := by rw [Record.result, Record.result, hsameOutcome]
      failure := by rw [Record.failure?, Record.failure?, hsameOutcome]
      output := by rw [hprinted', houtput] }

variable {t line typed rest : String}

/-- What `bg` submits for a line: its command and the rest of it, filled and trimmed. -/
theorem exists_submission (hsuits : Suits t line typed rest) (w : World) (n : Nat) :
    ∃ behind : List Char,
      cutAtBlank (trim (w.substituted n (t ++ " " ++ line)).1.toList) = some (t.toList, behind) ∧
      allBlank (trim behind) = false ∧
      splitCommand (String.ofList (trim behind)) =
        some (typed, trimmed (w.substituted n rest).1) := by
  obtain ⟨e, hcommand, -⟩ := hsuits.reads
  obtain ⟨hhead, -⟩ := (trim_eq_self_iff _).1 hsuits.trimmed
  obtain ⟨gap, hcut⟩ := exists_cut ((trimStart_eq_self_iff _).2 hhead) hsuits.split
  have hfill := substitute_bg (w.session n).getVariable w.chance hsuits.name hcut
    (dollar_not_mem_of_command hcommand)
  generalize hS : (Line.substitutePieces (w.session n).getVariable w.chance
    (Line.pieces rest.toList)).1 = S at hfill
  have hrest : (w.substituted n rest).1 = String.ofList S := by
    rw [substituted, Line.substitute, ← hS]
  have hraw : (w.substituted n (t ++ " " ++ line)).1.toList =
      t.toList ++ (' ' :: typed.toList ++ gap) ++ S := by
    have hline : (t ++ " " ++ line).toList = t.toList ++ ' ' :: line.toList := by simp
    rw [substituted, Line.substitute, hline, hfill, String.toList_ofList]
  have hfilled : Cut (typed.toList ++ (gap ++ S)) typed.toList gap S := by
    refine ⟨rfl, hcut.wordly, hcut.blank, fun hgap => ?_⟩
    rw [← hS, hcut.apart hgap]
    rfl
  obtain ⟨hname, htrim⟩ := cutAtBlank_bg hsuits.name hcut S
  obtain ⟨gap', hsubmitted⟩ := hfilled.trimEnd
  refine ⟨typed.toList ++ trimEnd (gap ++ S), by rw [hraw]; exact hname, ?_, ?_⟩
  · have hsplit := hsubmitted.splitCommand
    rw [htrim]
    refine Bool.eq_false_iff.2 fun hblank => ?_
    rw [(splitCommand_eq_none_iff _).2 (by rw [String.toList_ofList]; exact hblank)] at hsplit
    cases hsplit
  · rw [htrim, hsubmitted.splitCommand, String.ofList_toList, trimStart_trimEnd, hrest, trimmed,
      String.toList_ofList]

/-- `bg t line` answers with a task, and the line of its job has the text filled and trimmed. -/
theorem exists_launches_of_suits (settings : Settings) (c : Nat) (hsuits : Suits t line typed rest)
    (hstopped : s.world.pool.stopped = false) :
    ∃ run r w' behind,
      s.world.execute (interpreter settings) (.caller c) (bgLine t line) = (.finished r, w') ∧
      r.outcome = .ok (Json.object [("task", .string t),
        ("generation", Json.ofNat (s.world.nextTask (.caller c)).generation)]) ∧
      Launches (interpreter settings) s (s.world.nextJob (.caller c) behind) run w' ∧
      splitCommand behind =
        some (typed, trimmed (filled (s.world.seen (.caller c)) rest s.world.chance)) := by
  obtain ⟨behind, hcut, hblank, hagain⟩ :=
    exists_submission hsuits (s.world.current (.caller c)).2 (s.world.current (.caller c)).1
  obtain ⟨run, r, w', hexecute, houtcome, hl⟩ :=
    exists_launches_bg settings (splitCommand_bgLine hsuits.name line) hcut hblank hstopped
  rw [String.ofList_toList] at houtcome
  exact ⟨run, r, w', _, hexecute, houtcome, hl, hagain⟩

/-- In the foreground a line is run with its placeholders replaced. -/
theorem foreground (settings : Settings) (c : Nat) {e : Entry}
    (hsplit : splitCommand line = some (typed, rest)) (he : registry.command? typed = some e)
    (w : World) :
    Settles (interpreter settings) (.caller c)
        (w.execute (interpreter settings) (.caller c) line).1 ∧
      ∀ legs r, Legs (interpreter settings) (.caller c) w
          (w.execute (interpreter settings) (.caller c) line).1
          (w.execute (interpreter settings) (.caller c) line).2 legs r →
        Ran settings e typed (filled (w.seen (.caller c)) rest w.chance) (w.seen (.caller c))
          .terminal r (printedBy legs = ·) := by
  obtain ⟨⟨call, script⟩, wa, hbegin, hexecute⟩ :=
    exists_begun (i := interpreter settings) (w := w) (.caller c) hsplit
  obtain ⟨htyped, hraw, hscript⟩ := invocation_of_beginLine hsplit hbegin
  obtain ⟨-, -, -, hseen, hterminal, -⟩ := current_of_beginLine hbegin
  rw [Registry.find, he, Option.getD_some] at hscript
  rw [hexecute]
  refine ⟨settles_runCall _ _ _ _ _, fun legs r hlegs printed outcome hgives => ?_⟩
  have hsame : script = callScript (interpreter settings) e (registry.canonicalName typed)
      (filled (w.seen (.caller c)) rest w.chance) .terminal := hscript
  rw [← hsame] at hgives
  obtain ⟨⟨now, rfl⟩, hprinted⟩ := hgives.legs hseen rfl hterminal hlegs
  exact ⟨htyped, hraw, rfl, hprinted⟩

/-- In the background it is run with its placeholders replaced, trimmed, and with what are
placeholders now replaced once more. -/
theorem background {job : Job} {moments : List Moment} {r : Record} {e : Entry} {text : String}
    {vars : List (String × Json)} (h : Course (interpreter settings) job moments (.finished r))
    (hvars : Undisturbed vars job.key job.session moments)
    (hsplit : splitCommand job.line = some (typed, text))
    (he : registry.command? typed = some e) :
    ∃ m ∈ moments, (∃ q, m.deed = .began q) ∧
      Ran settings e typed (filled vars text m.before.chance) vars
        (.capture job.session job.generation) r fun printed => ∀ c : Capture,
          (moments.flatMap fun m => m.deed.captures job.ref).foldl Capture.apply c =
            (c.write printed).finish := by
  obtain ⟨m, hm, inv₀, ⟨⟨q, hdeed⟩, k, w₁, hbegin⟩, hgives⟩ := h.gives hvars rfl
  obtain ⟨htyped, hraw, hscript⟩ := invocation_of_beginLine hsplit hbegin
  have hfilled : ((m.before.bind (.worker k) (some job.key)).substituted job.session text).1 =
      filled vars text m.before.chance := by
    rw [← hvars.vars m hm (by rw [hdeed]; rfl)]
    rfl
  rw [hfilled] at hraw hscript
  rw [Registry.find, he, Option.getD_some] at hscript
  refine ⟨m, hm, ⟨q, hdeed⟩, fun printed outcome hcall => ?_⟩
  rw [← hscript] at hcall
  obtain ⟨⟨now, rfl⟩, hcaptured⟩ := hgives printed outcome hcall
  exact ⟨htyped, hraw, rfl, hcaptured⟩

/-- The task that a caller has opened by `bg t line` has come to its record.  Meanwhile callers
entered lines, and what the job saw were the variables that the caller sees. -/
structure Completes (i : Interpreter) (s : Scene) (th : Thread) (t line : String)
    (more : List Moment) (s₂ : Scene) (task : Task) (r : Record) : Prop where
  unfolds : Unfolds i ⟨(s.world.execute i th (bgLine t line)).2, s.waiting⟩ more s₂
  byLines : ByLines i more
  found : s₂.world.task? (s.world.nextTask th) = some task
  done : task.record? = some r
  undisturbed : Undisturbed (s.world.seen th) (s.world.currentKey th)
    (s.world.nextTask th).session (momentsOf (s.world.nextTask th) more)

/-- **A background run does what the foreground run does exactly if a second reading leaves the
argument text as it is.**  In any scene that has come about by lines, `bg t line` answers with a
new task, and the line itself comes to a record.  Once the task has come to its record, that has
the command of the foreground run, and for its argument text the one of the foreground run,
trimmed and with the placeholders in it replaced.  If that is the same text, the two runs agree in
everything, and what the task has captured is what the foreground run prints. -/
theorem background_like_foreground_iff (settings : Settings) (now : Timestamp) (seed : Nat)
    {run : List Moment} {s : Scene}
    (h : Unfolds (interpreter settings) (.initial (interpreter settings) now seed) run s)
    (hlines : ByLines (interpreter settings) run) (hstopped : s.world.pool.stopped = false)
    (c : Nat) {t line typed rest : String} (hsuits : Suits t line typed rest) :
    let i := interpreter settings
    let th : Thread := .caller c
    let vars := s.world.seen th
    let text := filled vars rest s.world.chance
    (∃ r w', s.world.execute i th (bgLine t line) = (.finished r, w') ∧
      r.outcome = .ok (Json.object [("task", .string t),
        ("generation", Json.ofNat (s.world.nextTask th).generation)])) ∧
    Settles i th (s.world.execute i th line).1 ∧
    ∀ more s₂ task r, Completes i s th t line more s₂ task r →
      ∃ m ∈ momentsOf (s.world.nextTask th) more, (∃ q, m.deed = .began q) ∧ ∀ legs r',
        Legs i th s.world (s.world.execute i th line).1 (s.world.execute i th line).2 legs r' →
        r.command = r'.command ∧ r'.rawArgs = text ∧
          r.rawArgs = filled vars (trimmed text) m.before.chance ∧
          (Alike settings.outputLimit.toNat r task.output r' (printedBy legs) ↔
            filled vars (trimmed text) m.before.chance = text) := by
  intro i th vars text
  obtain ⟨e, he, hreads⟩ := hsuits.reads
  obtain ⟨run', r₀, w', behind, hexecute, houtcome, hl, hsubmitted⟩ :=
    exists_launches_of_suits settings c hsuits hstopped
  obtain ⟨hsettles, hforeground⟩ := foreground settings c hsuits.split he s.world
  refine ⟨⟨r₀, w', hexecute, houtcome⟩, hsettles, fun more s₂ task r hdone => ?_⟩
  have hmore := hdone.unfolds
  rw [hexecute] at hmore
  have hkeeps : ∀ m ∈ run ++ run' ++ more, m.deed.KeepsToConsole :=
    keepsToConsole ((h.trans hl.unfolds).trans hmore)
      ((hlines.append hl.byLines).append hdone.byLines)
  obtain ⟨hcourse, houtput⟩ := hl.course h hmore hkeeps hdone.found hdone.done
  obtain ⟨m, hm, hbegan, hbackground⟩ := background hcourse hdone.undisturbed hsubmitted he
  have htask := hbackground.imp fun printed hcaptured => houtput.trans (hcaptured _)
  exact ⟨m, hm, hbegan, fun legs r' hlegs => htask.alike_iff he hreads (hforeground legs r' hlegs)⟩

/-- A line without placeholders, in the background and in the foreground. -/
theorem background_echo_like_foreground :
    let i := interpreter .default
    let th : Thread := .caller 0
    let w : World := .initial .default 0 1
    let w' := (w.execute i th (bgLine "t" "echo hi")).2.settle i 3
    Suits "t" "echo hi" "echo" "hi" ∧ w.pool.stopped = false ∧
      ∃ task r legs r', w'.task? ⟨0, 1⟩ = some task ∧ task.record? = some r ∧
        Legs i th w (w.execute i th "echo hi").1 (w.execute i th "echo hi").2 legs r' ∧
        task.output.lines = ["hi"] ∧ Alike 10000 r task.output r' (printedBy legs) := by
  intro i th w w'
  have hsuits : Suits "t" "echo hi" "echo" "hi" :=
    ⟨⟨by decide, not_blank_of_all rfl, by unfold Line.Unmarked; decide⟩, rfl, rfl, echo, rfl,
      by decide⟩
  have hnone : ByLines i [] := fun _ hm => absurd hm List.not_mem_nil
  obtain ⟨-, hsettles, hruns⟩ :=
    background_like_foreground_iff .default 0 1 .none hnone rfl 0 hsuits
  obtain ⟨more, hmore, hmoments⟩ :=
    exists_unfolds_settle (i := i) ⟨(w.execute i th (bgLine "t" "echo hi")).2, []⟩ 3
  have hfound : ((w'.task? ⟨0, 1⟩).map fun t => t.output.lines) = some ["hi"] := by decide +kernel
  have hdone : ((w'.task? ⟨0, 1⟩).bind Task.record?).isSome = true := by decide +kernel
  obtain ⟨task, htask, hlines⟩ := Option.map_eq_some_iff.1 hfound
  rw [htask, Option.bind_some] at hdone
  obtain ⟨r, hr⟩ := Option.isSome_iff_exists.1 hdone
  have hworlds : ∀ k < 3, (((w.execute i th (bgLine "t" "echo hi")).2.settle i k).sessions.number?
      (w.currentKey th) = some 0 ∧
      (((w.execute i th (bgLine "t" "echo hi")).2.settle i k).session 0).vars.isEmpty = true) := by
    decide +kernel
  have hcompletes : Completes i (.initial i 0 1) th "t" "echo hi" more ⟨w', []⟩ task r := {
    unfolds := hmore
    byLines := fun m hm inv hinv => absurd hinv ((hmoments m hm).1 inv)
    found := htask
    done := hr
    undisturbed := by
      refine ⟨fun m hm _ => ?_, fun m hm _ => ?_⟩
      · obtain ⟨-, k, hk, hbefore⟩ := hmoments m (List.mem_of_mem_filter hm)
        rw [hbefore]
        exact (hworlds k hk).1
      · obtain ⟨-, k, hk, hbefore⟩ := hmoments m (List.mem_of_mem_filter hm)
        rw [hbefore]
        exact List.isEmpty_iff.1 (hworlds k hk).2 }
  obtain ⟨m, -, -, hagrees⟩ := hruns more ⟨w', []⟩ task r hcompletes
  obtain ⟨legs, r', hlegs⟩ := exists_legs hsettles w (w.execute i th "echo hi").2
  obtain ⟨-, -, -, halike⟩ := hagrees legs r' hlegs
  refine ⟨hsuits, rfl, task, r, legs, r', htask, hr, hlegs, hlines, halike.2 ?_⟩
  have hmark : Line.Unmarked "hi".toList := by
    unfold Line.Unmarked
    decide
  have htrim : trimmed "hi" = "hi" := rfl
  rw [filled_of_unmarked _ hmark, htrim, filled_of_unmarked _ hmark]

/-- A variable that holds a placeholder: in the foreground it is printed as it is, in the
background it is filled in turn. -/
theorem background_fills_twice :
    let i := interpreter .default
    let th : Thread := .caller 0
    let w := ((World.initial .default 0 1).execute i th "set x $\x7by\x7d").2
    let w := (w.execute i th "set y z").2
    let w' := (w.execute i th (bgLine "t" "echo $\x7bx\x7d")).2.settle i 3
    Suits "t" "echo $\x7bx\x7d" "echo" "$\x7bx\x7d" ∧
      ((w'.session 0).vars.map fun p => (p.1, p.2.compactText)) =
        ((w.session 0).vars.map fun p => (p.1, p.2.compactText)) ∧
      ((w.execute i th "echo $\x7bx\x7d").2.session 0).last?.map Record.rawArgs =
        some "$\x7by\x7d" ∧
      (w.execute i th "echo $\x7bx\x7d").2.terminal = "$\x7by\x7d\n" ∧
      ((w'.task? ⟨0, 1⟩).bind Task.record?).map Record.rawArgs = some "z" ∧
      ((w'.task? ⟨0, 1⟩).map fun t => t.output.lines) = some ["z"] := by
  intro i th w₀ w w'
  refine ⟨⟨⟨by decide, not_blank_of_all rfl, by unfold Line.Unmarked; decide⟩, rfl, rfl, echo, rfl,
    by decide⟩, ?_, ?_, ?_, ?_, ?_⟩ <;> decide +kernel

end CommandShell.Shell
