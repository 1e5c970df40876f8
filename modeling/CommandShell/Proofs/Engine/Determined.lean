import CommandShell.Proofs.Engine.Isolation
/-!
# Calls that the variables determine

A call whose handler asks for nothing but variables and the list of commands prints and ends in
one way, wherever it runs: in the foreground, leg by leg, or as a job on a worker.

    s.Gives vars known console printed a
             told these variables and commands, the script prints this on the console and ends so
    in the foreground it prints and ends so                              (Script.Gives.legs)
    and as a job, if the variables stay as they are                           (Course.gives)
-/

namespace CommandShell

open World

/-- What variables and commands reply to a request. -/
inductive Told (vars : List (String × Json)) (known : List CommandInfo) :
    (r : Request) → r.Reply → Prop
  | getVariable (name : String) :
      Told vars known (.getVariable name) (Assoc.get? name vars : Option Json)
  | vars : Told vars known .vars vars
  | commands : Told vars known .commands known
  | exit : Told vars known .exit ()

/-- Told these variables and commands, the script prints the text on the console and ends with the
result.  Once it has changed a variable or waited, it asks for nothing more. -/
inductive Script.Gives {α : Type} (vars : List (String × Json)) (known : List CommandInfo)
    (console : Console) : Script α → String → α → Prop
  | done (a : α) : Gives vars known console (.done a) "" a
  | print {text printed : String} {next : (Request.print console text).Reply → Script α} {a : α}
      (h : Gives vars known console (next ()) printed a) :
      Gives vars known console (.request (.print console text) next) (text ++ printed) a
  | told {r : Request} {reply : r.Reply} {next : r.Reply → Script α} {printed : String} {a : α}
      (hr : Told vars known r reply) (h : Gives vars known console (next reply) printed a) :
      Gives vars known console (.request r next) printed a
  | clock {next : Request.clock.Reply → Script α} {printed : String} {a : α}
      (h : ∀ now, Gives vars known console (next now) printed a) :
      Gives vars known console (.request .clock next) printed a
  | setVariable {name : String} {value : Json}
      {next : (Request.setVariable name value).Reply → Script α} {a : α}
      (h : ∀ old, next old = .done a) :
      Gives vars known console (.request (.setVariable name value) next) "" a
  | sleepUntil {moment : Timestamp} {next : (Request.sleepUntil moment).Reply → Script α} {a : α}
      (h : ∀ reply, next reply = .done a) :
      Gives vars known console (.request (.sleepUntil moment) next) "" a

variable {vars : List (String × Json)} {known : List CommandInfo} {console : Console}
  {i : Interpreter} {th : Thread} {w w' w₀ : World} {printed : String}

theorem Script.Gives.mapResult {α β : Type} {s : Script α} {a : α} (f : α → β)
    (h : s.Gives vars known console printed a) :
    (s.mapResult f).Gives vars known console printed (f a) := by
  induction h with
  | done a => exact .done (f a)
  | print _ ih => exact .print ih
  | told hr _ ih => exact .told hr ih
  | clock _ ih => exact .clock ih
  | setVariable h => exact .setVariable fun old => by rw [h old]; rfl
  | sleepUntil h => exact .sleepUntil fun reply => by rw [h reply]; rfl

/-! ## What is seen -/

namespace World

/-- The variables that a thread sees. -/
def seen (w : World) (th : Thread) : List (String × Json) :=
  ((w.current th).2.session (w.current th).1).vars

theorem locate_of_number {key : SessionKey} {n : Nat} (h : w.sessions.number? key = some n) :
    w.locate key = (n, w) := by
  simp only [locate, SessionTable.locate, h]

/-- A key that was asked for leads to the same session again. -/
theorem number?_locate (w : World) (key : SessionKey) :
    (w.locate key).2.sessions.number? key = some (w.locate key).1 := by
  unfold locate SessionTable.locate
  cases hnumber : w.sessions.number? key with
  | some n => exact hnumber
  | none =>
    have hold : Assoc.get? key w.sessions.known = none := hnumber
    simp only [SessionTable.number?, Assoc.get?_append, hold, Option.none_or]
    exact if_pos rfl

theorem current_current (w : World) (th : Thread) : (w.current th).2.current th = w.current th :=
  locate_of_number (number?_locate w (w.currentKey th))

theorem seen_current (w : World) (th : Thread) : (w.current th).2.seen th = w.seen th := by
  rw [seen, current_current, seen]

end World

theorem Told.answer {r : Request} {reply : r.Reply}
    (h : Told (w.seen th) (i.registry.commands.map Entry.info) r reply) :
    ∃ w', w.answer i th r = some (reply, w') ∧ w'.seen th = w.seen th ∧
      w'.terminal = w.terminal := by
  cases h with
  | getVariable name => exact ⟨_, rfl, seen_current w th, rfl⟩
  | vars => exact ⟨_, rfl, seen_current w th, rfl⟩
  | commands => exact ⟨w, rfl, rfl, rfl⟩
  | exit => exact ⟨_, rfl, rfl, rfl⟩

/-! ## In the foreground -/

theorem Script.run_of_answer {α : Type} {r : Request} {reply : r.Reply}
    {next : r.Reply → Script α} (h : w.answer i th r = some (reply, w')) :
    (Script.request r next).run i th w = (next reply).run i th w' := by
  simp only [Script.run, h]

theorem Script.run_of_last {α : Type} {r : Request} {reply : r.Reply}
    {next : r.Reply → Script α} {a : α} (h : w.answer i th r = some (reply, w'))
    (hnext : ∀ reply, next reply = .done a) :
    (Script.request r next).run i th w = (.finished a, w') := by
  rw [Script.run_of_answer h, hnext]
  rfl

/-- A script that is determined runs to its end, or to where it sleeps before its end. -/
theorem Script.Gives.run {α : Type} {s : Script α} {a : α}
    (h : s.Gives vars known .terminal printed a) (hvars : w.seen th = vars)
    (hknown : i.registry.commands.map Entry.info = known) :
    ∃ w', w'.terminal = w.terminal ++ printed ∧ (s.run i th w = (.finished a, w') ∨
      ∃ moment next, (∀ reply, next reply = Script.done a) ∧
        s.run i th w = (.waiting (.request (.sleepUntil moment) next), w')) := by
  induction h generalizing w with
  | done a => exact ⟨w, by simp, Or.inl rfl⟩
  | @print text printed next a _ ih =>
    obtain ⟨w', hprinted, hrun⟩ := ih (w := w.print .terminal text) hvars
    refine ⟨w', ?_, hrun⟩
    rw [hprinted, World.print, String.append_assoc]
  | told hr _ ih =>
    rw [← hvars, ← hknown] at hr
    obtain ⟨w₁, hanswer, hseen, hterminal⟩ := hr.answer
    obtain ⟨w', hprinted, hrun⟩ := ih (hseen.trans hvars)
    rw [Script.run_of_answer hanswer]
    exact ⟨w', hprinted.trans (by rw [hterminal]), hrun⟩
  | clock _ ih => exact ih w.now hvars
  | @setVariable name value next a h =>
    refine ⟨(w.current th).2.modifySession (w.current th).1 fun s => s.setVariable name value,
      by simp [World.modifySession, World.current, World.locate], Or.inl ?_⟩
    exact Script.run_of_last rfl h
  | @sleepUntil moment next a h =>
    refine ⟨w, by simp, ?_⟩
    by_cases hcome : moment ≤ w.now
    · exact Or.inl (Script.run_of_last (if_pos hcome) h)
    · have hwait : w.answer i th (.sleepUntil moment) = none := if_neg hcome
      refine Or.inr ⟨moment, next, h, ?_⟩
      simp only [Script.run, hwait]

namespace World

/-- What was printed on the terminal in a leg. -/
def Leg.output (l : Leg) : String :=
  String.ofList (l.after.terminal.toList.drop l.before.terminal.toList.length)

/-- What was printed on the terminal in the legs of a call. -/
def printedBy : List Leg → String
  | [] => ""
  | l :: rest => l.output ++ printedBy rest

theorem Leg.output_of_append {text : String} (h : w'.terminal = w.terminal ++ text) :
    (⟨w, w'⟩ : Leg).output = text := by
  simp [Leg.output, h]

variable {call : Call} {called : Called} {legs : List Leg} {r : Record}
  {outcome : Except Failure Json}

theorem runCall_of_last {request : Request} {reply : request.Reply}
    {next : request.Reply → Script (Except Failure Json)}
    (h : w.answer i th request = some (reply, w')) (hnext : ∀ reply, next reply = .done outcome) :
    w.runCall i th ⟨call, .request request next⟩ =
      (.finished (call.record w'.now outcome),
        w'.modifySession call.session fun s => s.push (call.record w'.now outcome)) := by
  rw [runCall_of_answer h, hnext, runCall_of_done]

/-- A call that sleeps before its end prints nothing more. -/
theorem Legs.sleeping {moment : Timestamp}
    {next : (Request.sleepUntil moment).Reply → Script (Except Failure Json)}
    (h : Legs i th w called w' legs r)
    (hcalled : called = .waiting ⟨call, .request (.sleepUntil moment) next⟩)
    (hnext : ∀ reply, next reply = .done outcome) :
    ∃ rest, legs = ⟨w, w'⟩ :: rest ∧ printedBy rest = "" ∧ ∃ now, r = call.record now outcome := by
  induction h with
  | last => cases hcalled
  | @more w w' v inv legs r hn h ih =>
    obtain rfl := Called.waiting.inj hcalled
    refine ⟨legs, rfl, ?_⟩
    by_cases hcome : moment ≤ v.now
    · have hanswer : v.answer i th (.sleepUntil moment) = some ((), v) := if_pos hcome
      rw [runCall_of_last hanswer hnext] at h
      cases h
      refine ⟨?_, v.now, rfl⟩
      simp [printedBy, Leg.output, modifySession]
    · have hwait : v.answer i th (.sleepUntil moment) = none := if_neg hcome
      rw [runCall_of_wait hwait] at ih
      obtain ⟨rest, hlegs, hprinted, hrecord⟩ := ih rfl
      refine ⟨?_, hrecord⟩
      rw [hlegs, printedBy, hprinted]
      simp [Leg.output]

end World

/-- A call that is determined prints and ends so in the foreground, however often it waits. -/
theorem Script.Gives.legs {call : Call} {script : Script (Except Failure Json)}
    {outcome : Except Failure Json} {legs : List Leg} {r : Record}
    (h : script.Gives vars known .terminal printed outcome) (hvars : w.seen th = vars)
    (hknown : i.registry.commands.map Entry.info = known) (hw : w.terminal = w₀.terminal)
    (hlegs : Legs i th w₀ (w.runCall i th ⟨call, script⟩).1 (w.runCall i th ⟨call, script⟩).2
      legs r) :
    (∃ now, r = call.record now outcome) ∧ printedBy legs = printed := by
  obtain ⟨w', hprinted, hrun | ⟨moment, next, hnext, hrun⟩⟩ := h.run hvars hknown
  · have hcall : w.runCall i th ⟨call, script⟩ = (.finished (call.record w'.now outcome),
        w'.modifySession call.session fun s => s.push (call.record w'.now outcome)) := by
      simp only [runCall, hrun, finishCall]
    rw [hcall] at hlegs
    cases hlegs
    rw [hw] at hprinted
    refine ⟨⟨w'.now, rfl⟩, ?_⟩
    rw [printedBy, printedBy, String.append_empty]
    exact Leg.output_of_append hprinted
  · have hcall : w.runCall i th ⟨call, script⟩ =
        (.waiting ⟨call, .request (.sleepUntil moment) next⟩, w') := by
      simp only [runCall, hrun]
    rw [hcall] at hlegs
    obtain ⟨rest, rfl, hrest, hrecord⟩ := hlegs.sleeping rfl hnext
    rw [hw] at hprinted
    refine ⟨hrecord, ?_⟩
    rw [printedBy, hrest, String.append_empty]
    exact Leg.output_of_append hprinted

/-! ## As a job -/

/-- What belongs to no job of a task leaves its capture alone, where calls keep to their
consoles. -/
theorem captures_eq_nil {ref : TaskRef} {m : Moment} (h : m.isOf ref = false)
    (hown : ∀ th o n g text u, m.deed = .asked th o (.print (.capture n g) text) u →
      o.map Job.ref = some ⟨n, g⟩) : m.deed.captures ref = [] := by
  have hnot (job : Job) (hjob : m.deed.job? = some job) : job.ref ≠ ref := by
    intro href
    rw [Moment.isOf, hjob] at h
    simp [href] at h
  cases hdeed : m.deed with
  | asked th o r reply =>
    cases r with
    | print console text =>
      cases console with
      | terminal => rfl
      | capture n g =>
        obtain ⟨job, rfl, href⟩ := Option.map_eq_some_iff.1 (hown th o n g text reply hdeed)
        exact if_neg fun hsame => hnot job (by rw [hdeed]; rfl) (href.trans hsame)
    | _ => rfl
  | ended r record => exact if_neg (hnot r.job (by rw [hdeed]; rfl))
  | _ => rfl

theorem flatMap_captures {ref : TaskRef} {run : List Moment}
    (hown : ∀ m ∈ run, ∀ th o n g text u, m.deed = .asked th o (.print (.capture n g) text) u →
      o.map Job.ref = some ⟨n, g⟩) :
    (run.flatMap fun m => m.deed.captures ref) =
      (momentsOf ref run).flatMap fun m => m.deed.captures ref := by
  induction run with
  | nil => rfl
  | cons m run ih =>
    have hrest := ih fun m hm => hown m (List.mem_cons_of_mem _ hm)
    cases hof : m.isOf ref with
    | true => rw [momentsOf, List.filter_cons_of_pos hof, List.flatMap_cons, List.flatMap_cons,
        hrest, momentsOf]
    | false =>
      rw [momentsOf, List.filter_cons_of_neg (by simp [hof]), List.flatMap_cons, hrest,
        captures_eq_nil hof (hown m List.mem_cons_self), momentsOf]
      rfl

/-- Up to the end of a job the key still leads to that session, and the session has these
variables. -/
structure Undisturbed (vars : List (String × Json)) (key : SessionKey) (n : Nat)
    (moments : List Moment) : Prop where
  session : ∀ m ∈ moments, m.deed.record? = none → m.before.sessions.number? key = some n
  vars : ∀ m ∈ moments, m.deed.record? = none → (m.before.session n).vars = vars

variable {job : Job} {moments : List Moment} {stage : Stage} {m : Moment}
  {outcome : Except Failure Json} {inv₀ : Invocation}

theorem Undisturbed.before {more : List Moment} {key : SessionKey} {n : Nat}
    (h : Undisturbed vars key n (moments ++ more)) : Undisturbed vars key n moments :=
  ⟨fun m hm => h.session m (List.mem_append_left _ hm),
    fun m hm => h.vars m (List.mem_append_left _ hm)⟩

theorem Undisturbed.seen (h : Undisturbed vars job.key job.session moments) (hm : m ∈ moments)
    (hdeed : m.deed.record? = none) (hkey : m.before.currentKey th = job.key) :
    m.before.seen th = vars := by
  rw [World.seen, World.current, hkey, locate_of_number (h.session m hm hdeed)]
  exact h.vars m hm hdeed

/-- The call of a job has printed a part of what it will print, and the rest of its script gives
the rest. -/
def Halfway (vars : List (String × Json)) (known : List CommandInfo) (job : Job)
    (moments : List Moment) (inv₀ : Invocation) (printed : String)
    (outcome : Except Failure Json) (inv : Invocation) : Prop :=
  inv.toCall = inv₀.toCall ∧ ∃ before after, printed = before ++ after ∧
    inv.script.Gives vars known (.capture job.session job.generation) after outcome ∧
    ∀ c : Capture, (moments.flatMap fun m => m.deed.captures job.ref).foldl Capture.apply c =
      c.write before

theorem Halfway.asked {inv : Invocation} {request : Request}
    {next : request.Reply → Script (Except Failure Json)} {reply : request.Reply} {w₁ : World}
    {k : Nat} (h : Halfway vars known job moments inv₀ printed outcome inv)
    (hscript : inv.script = .request request next)
    (hdeed : m.deed = .asked (.worker k) (some job) request reply)
    (hanswer : m.before.answer i (.worker k) request = some (reply, w₁))
    (hseen : m.before.seen (.worker k) = vars)
    (hknown : i.registry.commands.map Entry.info = known) :
    Halfway vars known job (moments ++ [m]) inv₀ printed outcome
      { inv with script := next reply } := by
  obtain ⟨hcall, before, after, rfl, hgives, hcaptured⟩ := h
  rw [hscript] at hgives
  -- A request other than printing leaves the capture as it is.
  have hquiet (hnone : m.deed.captures job.ref = []) (c : Capture) :
      ((moments ++ [m]).flatMap fun m => m.deed.captures job.ref).foldl Capture.apply c =
        c.write before := by
    rw [List.flatMap_append, List.flatMap_singleton, hnone, List.append_nil]
    exact hcaptured c
  cases hgives with
  | @print text after _ _ hgives =>
    refine ⟨hcall, before ++ text, after, by rw [String.append_assoc], hgives, fun c => ?_⟩
    have hwrite : m.deed.captures job.ref = [.write text] := by
      rw [hdeed]
      exact if_pos rfl
    rw [List.flatMap_append, List.flatMap_singleton, hwrite, List.foldl_append, hcaptured,
      Capture.write_append]
    rfl
  | told hr hgives =>
    have hnone : m.deed.captures job.ref = [] := by
      rw [hdeed]
      cases hr <;> rfl
    rw [← hseen, ← hknown] at hr
    obtain ⟨w₂, hreply, -⟩ := hr.answer
    rw [hanswer] at hreply
    cases hreply
    exact ⟨hcall, before, after, rfl, hgives, hquiet hnone⟩
  | clock hgives =>
    exact ⟨hcall, before, after, rfl, hgives reply, hquiet (by rw [hdeed]; rfl)⟩
  | setVariable hnext =>
    refine ⟨hcall, before, "", rfl, ?_, hquiet (by rw [hdeed]; rfl)⟩
    rw [hnext]
    exact .done outcome
  | sleepUntil hnext =>
    refine ⟨hcall, before, "", rfl, ?_, hquiet (by rw [hdeed]; rfl)⟩
    rw [hnext]
    exact .done outcome

/-- The moment at which a worker begins the call of a job. -/
structure Begins (i : Interpreter) (job : Job) (m : Moment) (inv : Invocation) : Prop where
  deed : ∃ r, m.deed = .began r
  call : ∃ k w, (m.before.bind (.worker k) (some job.key)).beginLine i job.session job.line
    (.capture job.session job.generation) = some (inv, w)

/-- A job that is under way has begun its call, and is halfway through what that will print. -/
theorem Course.halfway {r : Running} (h : Course i job moments (.underway r))
    (hvars : Undisturbed vars job.key job.session moments)
    (hknown : i.registry.commands.map Entry.info = known) :
    ∃ m ∈ moments, ∃ inv₀, Begins i job m inv₀ ∧
      ∀ printed outcome, inv₀.script.Gives vars known (.capture job.session job.generation)
        printed outcome → ∃ inv, r.invocation = some inv ∧
          Halfway vars known job moments inv₀ printed outcome inv := by
  generalize hstage : Stage.underway r = stage at h
  induction h generalizing r with
  | queued => cases hstage
  | @began m r inv w₁ hdeed hjob hprevious hbegin hinv hkey hhistory =>
    cases hstage
    refine ⟨m, List.mem_singleton_self m, inv, ⟨⟨r, hdeed⟩, r.worker, w₁, hbegin⟩,
      fun printed outcome hgives => ⟨inv, hinv, rfl, "", printed, by simp, hgives, fun c => ?_⟩⟩
    simp [hdeed, Deed.captures]
  | @asked moments m r inv request next reply w₁ h hinv hscript hdeed hanswer hkey hkeep hhistory
      ih =>
    cases hstage
    have hseen : m.before.seen (.worker r.worker) = vars :=
      hvars.seen (List.mem_append_right _ (List.mem_singleton_self m)) (by rw [hdeed]; rfl) hkey
    obtain ⟨m₀, hm₀, inv₀, hbegins, hon⟩ := ih hvars.before rfl
    refine ⟨m₀, List.mem_append_left _ hm₀, inv₀, hbegins, fun printed outcome hgives => ?_⟩
    obtain ⟨inv', hinv', hhalfway⟩ := hon printed outcome hgives
    rw [hinv] at hinv'
    cases hinv'
    exact ⟨_, rfl, hhalfway.asked hscript hdeed hanswer hseen hknown⟩
  | ended => cases hstage

/-- A call that is determined prints and ends so as a job. -/
theorem Course.gives {record : Record} (h : Course i job moments (.finished record))
    (hvars : Undisturbed vars job.key job.session moments)
    (hknown : i.registry.commands.map Entry.info = known) :
    ∃ m ∈ moments, ∃ inv₀, Begins i job m inv₀ ∧
      ∀ printed outcome, inv₀.script.Gives vars known (.capture job.session job.generation)
        printed outcome → (∃ now, record = inv₀.record now outcome) ∧
          ∀ c : Capture, (moments.flatMap fun m => m.deed.captures job.ref).foldl Capture.apply c =
            (c.write printed).finish := by
  cases h with
  | @ended moments m r inv outcome' record h hinv hscript hrecord hdeed hkey hpush hothers
      hrestored =>
    obtain ⟨m₀, hm₀, inv₀, hbegins, hon⟩ := h.halfway hvars.before hknown
    refine ⟨m₀, List.mem_append_left _ hm₀, inv₀, hbegins, fun printed outcome hgives => ?_⟩
    obtain ⟨inv', hinv', hcall, before, after, rfl, hrest, hcaptured⟩ := hon printed outcome hgives
    rw [hinv] at hinv'
    cases hinv'
    rw [hscript] at hrest
    cases hrest
    refine ⟨⟨m.before.now, by rw [hrecord, hcall]⟩, fun c => ?_⟩
    have hfinish : m.deed.captures job.ref = [.finish] := by
      rw [hdeed]
      exact if_pos (by rw [h.invocation.1])
    rw [List.flatMap_append, List.flatMap_singleton, hfinish, List.foldl_append, hcaptured,
      String.append_empty]
    rfl

end CommandShell
