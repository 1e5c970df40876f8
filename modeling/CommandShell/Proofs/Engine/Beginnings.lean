import CommandShell.Proofs.Engine.Relabeling
import CommandShell.Proofs.Parse.Orders
/-!
# Two calls of one command with one text

What a call goes on with once its arguments are there, or are not, depends on what its filters see
and not on its label.  Two calls of a command with one text go the same way if parsing gives them
the same values, and also if it gives values to neither; then each record holds its own failure.

    i.beginning call request e parsed     what a call goes on with, and what it logs
    a call begins with its beginning                                (beginCall_eq_beginning)
    calls that differ in their label go the same way                (alike_begun, alike_dispatch)
    in two orders a command with a built-in strategy is given the same values, or is told of one
    literal each that does not fit                                   (Interpreter.parse_orders)
-/

namespace CommandShell

open CommandShell.Text

/-- What a filter was asked, if a filter ran. -/
def Event.question? : Event → Option (String × FilterRequest)
  | .filtered filter request => some (filter, request)
  | _ => none

/-- Both are the same values, or neither is values. -/
def SameValues (x y : Except ParseFailure (List Value)) : Prop :=
  ∀ values, x = .ok values ↔ y = .ok values

theorem SameValues.cases {x y : Except ParseFailure (List Value)} (h : SameValues x y) :
    x = y ∨ ∃ e e', x = .error e ∧ y = .error e' := by
  cases x with
  | ok values => exact Or.inl ((h values).1 rfl).symm
  | error e =>
    cases y with
    | ok values => cases (h values).2 rfl
    | error e' => exact Or.inr ⟨e, e', rfl, rfl⟩

/-- A second record is the first one, or both name a literal of their text that does not fit the
parameter it is bound to, and they differ in nothing but which one they name. -/
def Record.SameButForBlame (c : Coercions) (ps : List Parameter) (r r' : Record) : Prop :=
  r' = r ∨ ∃ e e', BlamesSpan c ps r.rawArgs e ∧ BlamesSpan c ps r.rawArgs e' ∧
    r.outcome = .error (.parse e) ∧ r' = { r with outcome := .error (.parse e') }

theorem Record.SameButForBlame.agree {c : Coercions} {ps : List Parameter} {r r' : Record}
    (h : r.SameButForBlame c ps r') :
    r'.rawArgs = r.rawArgs ∧ r'.success = r.success ∧ r'.result = r.result := by
  rcases h with rfl | ⟨e, e', -, -, houtcome, rfl⟩
  · exact ⟨rfl, rfl, rfl⟩
  · simp [Record.success, Record.result, houtcome]

/-! ## In two orders -/

namespace Interpreter

variable {i : Interpreter} {e : Entry}

/-- The strategy of the command is one of the built-in ones, if it is there at all. -/
def ParsesBuiltin (i : Interpreter) (e : Entry) : Prop :=
  ∀ s, i.registry.strategyOf? e = some s → ∃ name, (name, s) ∈ Strategy.builtin

theorem parse_orders (h : i.ParsesBuiltin e) (raw : String) (console : Console)
    (o o' : TableOrder) :
    i.parse e raw console o = i.parse e raw console o' ∨
      ∃ cause cause', i.parse e raw console o = .error cause ∧
        i.parse e raw console o' = .error cause' ∧
        BlamesSpan i.coercions e.parameters raw cause ∧
        BlamesSpan i.coercions e.parameters raw cause' := by
  unfold Interpreter.parse
  cases hs : i.registry.strategyOf? e with
  | none => exact Or.inl rfl
  | some s =>
    obtain ⟨name, hmem⟩ := h s hs
    exact Strategy.builtin_parse_orders hmem _ _ _ raw o o'

/-- In one order, or with a built-in strategy, the same values are given. -/
theorem sameValues_parse {o o' : TableOrder} (h : o' = o ∨ i.ParsesBuiltin e) (raw : String)
    (console : Console) : SameValues (i.parse e raw console o) (i.parse e raw console o') := by
  intro values
  rcases h with rfl | h
  · exact Iff.rfl
  · rcases parse_orders h raw console o o' with hsame | ⟨cause, cause', herror, herror', -⟩
    · rw [hsame]
    · rw [herror, herror']
      exact iff_of_false (fun hok => by cases hok) fun hok => by cases hok

end Interpreter

/-! ## Beginnings -/

section

variable {i : Interpreter} {call : Call} {request request' : FilterRequest} {e : Entry}
  {parsed parsed' : Except ParseFailure (List Value)}

/-- What a call begins with: the script that it goes on with, and what is logged. -/
def Interpreter.beginning (i : Interpreter) (call : Call) (request : FilterRequest) (e : Entry)
    (parsed : Except ParseFailure (List Value)) : Script (Except Failure Json) × List Event :=
  let asked := i.registry.runFilters request
  match asked.2, parsed with
  | some f, _ => (.done (.error f), asked.1)
  | none, .error cause => (.done (.error (.parse cause)), asked.1)
  | none, .ok values =>
    (handlerScript e ⟨request.command, values⟩,
      asked.1 ++ [.invoked call ⟨request.command, values⟩])

/-- The filters that are asked do not depend on the arguments. -/
theorem questions_beginning :
    (i.beginning call request e parsed).2.filterMap Event.question? =
      (i.registry.runFilters request).1.filterMap Event.question? := by
  unfold Interpreter.beginning
  dsimp only
  split
  · rfl
  · rfl
  · rw [List.filterMap_append]
    exact List.append_nil _

/-- A handler is taken up if the filters allow the call and there are arguments. -/
theorem invocations_beginning :
    (i.beginning call request e parsed).2.filterMap Event.invocation? =
      match (i.registry.runFilters request).2, parsed with
      | none, .ok values => [⟨request.command, values⟩]
      | _, _ => [] := by
  have hnone := World.filterMap_invocation_runFilters i.registry request
  unfold Interpreter.beginning
  dsimp only
  cases (i.registry.runFilters request).2 with
  | some f => exact hnone
  | none =>
    cases parsed with
    | error cause => exact hnone
    | ok values =>
      dsimp only
      rw [List.filterMap_append, hnone]
      rfl

theorem command_of_mem_beginning {args : Arguments}
    (h : args ∈ (i.beginning call request e parsed).2.filterMap Event.invocation?) :
    args.command = request.command := by
  rw [invocations_beginning] at h
  split at h
  · rw [List.mem_singleton.1 h]
  · cases h

/-- Calls that are allowed alike and are given the same values take up a handler alike. -/
theorem invocations_beginning_congr {call' : Call} (hcommand : request'.command = request.command)
    (hverdict : (i.registry.runFilters request').2 = (i.registry.runFilters request).2)
    (hparsed : SameValues parsed parsed') :
    (i.beginning call' request' e parsed').2.filterMap Event.invocation? =
      (i.beginning call request e parsed).2.filterMap Event.invocation? := by
  rw [invocations_beginning, invocations_beginning, hverdict, hcommand]
  rcases hparsed.cases with rfl | ⟨cause, cause', rfl, rfl⟩
  · rfl
  · cases (i.registry.runFilters request).2 <;> rfl

/-- They go on with one script, if not each of them fails because its arguments do not parse. -/
theorem script_beginning_cases {call' : Call} (hcommand : request'.command = request.command)
    (hverdict : (i.registry.runFilters request').2 = (i.registry.runFilters request).2)
    (hparsed : SameValues parsed parsed') :
    (i.beginning call' request' e parsed').1 = (i.beginning call request e parsed).1 ∨
      ∃ cause cause', parsed = .error cause ∧ parsed' = .error cause' ∧
        (i.beginning call request e parsed).1 = .done (.error (.parse cause)) ∧
        (i.beginning call' request' e parsed').1 = .done (.error (.parse cause')) := by
  unfold Interpreter.beginning
  dsimp only
  rw [hverdict, hcommand]
  cases (i.registry.runFilters request).2 with
  | some f => exact Or.inl rfl
  | none =>
    rcases hparsed.cases with rfl | ⟨cause, cause', rfl, rfl⟩
    · refine Or.inl ?_
      cases parsed <;> rfl
    · exact Or.inr ⟨cause, cause', rfl, rfl, rfl, rfl⟩

end

/-! ## Going on -/

namespace Relabeling

variable {f : Relabeling} {parsed parsed' : Except ParseFailure (List Value)} {r r' : Record}

/-- The second record is the first under another label, or each holds its own failure to parse. -/
def Relates (f : Relabeling) (parsed parsed' : Except ParseFailure (List Value)) (r r' : Record) :
    Prop :=
  r' = f.record r ∨ ∃ cause cause', parsed = .error cause ∧ parsed' = .error cause' ∧
    r.outcome = .error (.parse cause) ∧
    r' = { f.record r with outcome := .error (.parse cause') }

theorem outcome_record (f : Relabeling) (r : Record) : (f.record r).outcome = r.outcome := by
  have hsame : f.record r = { f.record r with outcome := r.outcome } :=
    f.record_outcome r r.outcome
  exact (congrArg Record.outcome hsame :)

/-- Where parsing comes to the same, only the label differs. -/
theorem Relates.eq (h : f.Relates parsed parsed' r r') (hsame : parsed = parsed') :
    r' = f.record r := by
  rcases h with h | ⟨cause, cause', herror, herror', houtcome, rfl⟩
  · exact h
  · rw [hsame, herror'] at herror
    cases herror
    rw [← houtcome, ← f.outcome_record r]

/-- In two orders, what is not the label differs at most in which literal is named. -/
theorem Relates.sameButForBlame {i : Interpreter} {e : Entry} {raw : String} {console : Console}
    {o o' : TableOrder} (h : f.Relates (i.parse e raw console o) (i.parse e raw console o') r r')
    (horder : o' = o ∨ i.ParsesBuiltin e) (hraw : (f.record r).rawArgs = raw) :
    (f.record r).SameButForBlame i.coercions e.parameters r' := by
  subst hraw
  rcases horder with rfl | hbuiltin
  · exact Or.inl (h.eq rfl)
  · rcases Interpreter.parse_orders hbuiltin _ console o o' with
      hsame | ⟨cause, cause', hcause, hcause', hblames, hblames'⟩
    · exact Or.inl (h.eq hsame)
    · rcases h with h | ⟨e, e', herror, herror', houtcome, rfl⟩
      · exact Or.inl h
      · cases hcause.symm.trans herror
        cases hcause'.symm.trans herror'
        exact Or.inr ⟨cause, cause', hblames, hblames', (f.outcome_record r).trans houtcome, rfl⟩

end Relabeling

namespace World

variable {i : Interpreter} {th : Thread} {w w' w₀ w₀' : World} {n : Nat} {e : Entry} {call : Call}
  {request request' : FilterRequest} {parsed parsed' : Except ParseFailure (List Value)}

theorem beginCall_eq_beginning (i : Interpreter) (n : Nat) (typed rawArgs : String)
    (arguments : Entry → Except ParseFailure (List Value)) (w : World) :
    let call := w.newCall i n typed rawArgs
    let begun := i.beginning call (w.filterRequest i call) (i.registry.find typed)
      (arguments (i.registry.find typed))
    w.beginCall i n typed rawArgs arguments = (⟨call, begun.1⟩, w.log begun.2) := by
  intro call begun
  unfold begun Interpreter.beginning
  dsimp only
  split
  · next f hfilters => exact beginCall_of_rejected rfl hfilters
  · next hfilters hargs => exact beginCall_of_unparsed rfl hfilters hargs
  · next hfilters hargs =>
    have hbegin : w.beginCall i n typed rawArgs arguments = _ :=
      beginCall_of_admitted rfl hfilters hargs
    rwa [log_log] at hbegin

/-- Calls that fail at once are over at once. -/
theorem alike_failed (f : Relabeling) (call : Call) (cause cause' : ParseFailure)
    {added added' : List Event} (hn : call.session < w₀.sessions.sessions.length)
    (hstart : w'.readable = w.readable) (hbegun : w₀'.readable = w₀.readable)
    (hevents : w₀.events = w.events ++ added) (hevents' : w₀'.events = w'.events ++ added') :
    Alike i th (fun r r' => r.outcome = .error (.parse cause) ∧
        r' = { f.record r with outcome := .error (.parse cause') }) w w'
      (w₀.runCall i th ⟨call, .done (.error (.parse cause))⟩)
      (w₀'.runCall i th ⟨f.call call, .done (.error (.parse cause'))⟩) added added' where
  ends := exists_legs (settles_runCall i th call _ _) w _
  follows legs r h := by
    rw [runCall_of_done] at h ⊢
    cases h
    exact ⟨_, _, .last w' _ _, congrArg (fun w => [w]) hstart⟩
  agree h h' _ := by
    rw [runCall_of_done] at h h'
    cases h
    cases h'
    have hnow : w₀'.now = w₀.now := by rw [eq_withUnread hbegun]; rfl
    rw [f.record_call, hnow]
    exact ⟨rfl, f.record_outcome (call.record w₀.now (.error (.parse cause))) _⟩
  logged h := events_begun h hn hevents
  logged' h' := by
    refine events_begun h' ?_ hevents'
    rw [eq_withUnread hbegun]
    exact Nat.lt_of_le_of_lt (Nat.le_of_eq (f.session_call call)) hn

/-- **Calls of one command that are allowed alike and given the same values go the same way.** -/
theorem alike_begun (i : Interpreter) (th : Thread) (f : Relabeling)
    (hn : call.session < w₀.sessions.sessions.length)
    (hstart : w'.readable = w.readable) (hbegun : w₀'.readable = w₀.readable)
    (hevents : w₀.events = w.events) (hevents' : w₀'.events = w'.events)
    (hcommand : request'.command = request.command)
    (hverdict : (i.registry.runFilters request').2 = (i.registry.runFilters request).2)
    (hparsed : SameValues parsed parsed') (e : Entry) :
    let begun := i.beginning call request e parsed
    let begun' := i.beginning (f.call call) request' e parsed'
    Alike i th (f.Relates parsed parsed') w w' ((w₀.log begun.2).runCall i th ⟨call, begun.1⟩)
      ((w₀'.log begun'.2).runCall i th ⟨f.call call, begun'.1⟩) begun.2 begun'.2 := by
  intro begun begun'
  have hlog : (w₀.log begun.2).events = w.events ++ begun.2 := by rw [← hevents]; rfl
  have hlog' : (w₀'.log begun'.2).events = w'.events ++ begun'.2 := by rw [← hevents']; rfl
  have hlt : call.session < (w₀.log begun.2).sessions.sessions.length := hn
  have hsame : (w₀'.log begun'.2).readable = (w₀.log begun.2).readable := hbegun
  have hscripts : begun'.1 = begun.1 ∨ ∃ cause cause', parsed = .error cause ∧
      parsed' = .error cause' ∧ begun.1 = .done (.error (.parse cause)) ∧
      begun'.1 = .done (.error (.parse cause')) :=
    script_beginning_cases hcommand hverdict hparsed
  rcases hscripts with hscript | ⟨cause, cause', rfl, rfl, hleft, hright⟩
  · rw [hscript]
    exact (alike_runCall f ⟨call, begun.1⟩ hlt hstart hsame hlog hlog').mono fun r r' => Or.inl
  · rw [hleft, hright]
    refine (alike_failed f call cause cause' hlt hstart hsame hlog hlog').mono fun r r' h => ?_
    exact Or.inr ⟨cause, cause', rfl, rfl, h⟩

/-- Lines that call one command with one text after replacement go the same way, in whatever
orders their literals are converted, if these lead to the same values. -/
theorem alike_dispatch (f : Relabeling) {line line' typed typed' rest rest' : String}
    (th : Thread) (console : Console) (order : TableOrder) (hn : n < w.sessions.sessions.length)
    (hsplit : splitCommand line = some (typed, rest))
    (hsplit' : splitCommand line' = some (typed', rest'))
    (htext : w.substituted n rest' = w.substituted n rest)
    (hcall : w.newCall i n typed' (w.substituted n rest).1 =
      f.call (w.newCall i n typed (w.substituted n rest).1))
    (hfind : i.registry.find typed' = i.registry.find typed)
    (hname : i.registry.canonicalName typed' = i.registry.canonicalName typed)
    (hparsed : SameValues
      (i.parse (i.registry.find typed) (w.substituted n rest).1 console w.order)
      (i.parse (i.registry.find typed) (w.substituted n rest).1 console order)) :
    let raw := (w.substituted n rest).1
    let call := w.newCall i n typed raw
    let request : FilterRequest :=
      ⟨i.registry.canonicalName typed, raw, (w.session n).label⟩
    let parsed := fun o => i.parse (i.registry.find typed) raw console o
    Alike i th (f.Relates (parsed w.order) (parsed order)) w (w.inOrder order)
      (w.dispatch i th n line console) ((w.inOrder order).dispatch i th n line' console)
      (i.beginning call request (i.registry.find typed) (parsed w.order)).2
      (i.beginning (f.call call) request (i.registry.find typed) (parsed order)).2 := by
  intro raw call request parsed
  have htext' : (w.inOrder order).substituted n rest' = w.substituted n rest := htext
  have hrequest : filterRequest i (f.call call)
      { w.inOrder order with chance := (w.substituted n rest).2 } = request := by
    rw [← hcall]
    simp only [filterRequest, newCall, hname]
    rfl
  rw [dispatch_of_split th console hsplit, dispatch_of_split th console hsplit', htext',
    beginCall_eq_beginning, beginCall_eq_beginning]
  have hcall' : newCall i n typed' raw { w.inOrder order with chance := (w.substituted n rest).2 } =
      f.call call := hcall
  let w₀ : World := { w with chance := (w.substituted n rest).2 }
  have hlt : call.session < w₀.sessions.sessions.length := hn
  have hstart : (w.inOrder order).readable = w.readable := rfl
  have hbegun : (w₀.inOrder order).readable = w₀.readable := rfl
  have halike := alike_begun i th f hlt hstart hbegun rfl rfl
    (rfl : request.command = request.command) rfl hparsed (i.registry.find typed)
  dsimp only
  rw [hcall', hrequest, hfind]
  exact halike

end World

end CommandShell
