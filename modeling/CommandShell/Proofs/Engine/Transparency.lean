import CommandShell.Proofs.Engine.Beginnings
import CommandShell.Proofs.Engine.FilterLog
import CommandShell.Proofs.Line.CommandWord
/-!
# Aliases are transparent

A call by an alias and a call by the name of the command go the same way: the filters, the handler
and the outcome know nothing of the word that was typed.  Only the log and the record hold it.

    behind any word a text is cut in the same way               (exists_splitCommand_append)
    calls that differ in their label ask filters the same, and hand handlers the same
                                                                           (Alike.runs_eq)
    a call by an alias is a call by the name                       (aliases_are_transparent)
-/

namespace CommandShell

open CommandShell.Text

/-- A text that begins with a blank is cut in the same way behind every word. -/
theorem exists_splitCommand_append {text : String}
    (htext : ∀ ch, text.toList.head? = some ch → isBlank ch = true) :
    ∃ rest, ∀ word : String, word ≠ "" → (∀ ch ∈ word.toList, isBlank ch = false) →
      splitCommand (word ++ text) = some (word, rest) := by
  refine ⟨String.ofList (trimStart (trimStart text.toList)), fun word hne hword => ?_⟩
  have hcut : Cut (word ++ text).toList word.toList (text.toList.takeWhile isBlank)
      (trimStart text.toList) := by
    refine ⟨?_, ⟨?_, hword⟩, fun ch hch => List.all_eq_true.1 List.all_takeWhile ch hch, ?_⟩
    · rw [String.toList_append, trimStart, List.takeWhile_append_dropWhile]
    · exact fun hnil => hne (String.toList_eq_nil_iff.1 hnil)
    · intro hgap
      cases hlist : text.toList with
      | nil => rfl
      | cons ch rest =>
        rw [hlist, List.takeWhile_cons, htext ch (by rw [hlist]; rfl)] at hgap
        cases hgap
  have hsplit := hcut.splitCommand
  rwa [String.ofList_toList, String.ofList_toList] at hsplit

namespace World

/-- The filters that were asked in some legs, with their requests. -/
def filtersAsked (legs : List Leg) : List (String × FilterRequest) :=
  legs.flatMap fun l => l.events.filterMap Event.question?

theorem filtersAsked_eq (legs : List Leg) :
    filtersAsked legs = (legs.flatMap Leg.events).filterMap Event.question? := by
  rw [filtersAsked, List.filterMap_flatMap]

/-- Calls that differ in their label ask the same filters the same, and hand the same to their
handlers, if they are given the same values. -/
theorem Alike.runs_eq {i : Interpreter} {th : Thread} {R : Record → Record → Prop} {w w' : World}
    {run run' : Called × World} {call call' : Call} {request : FilterRequest} {e : Entry}
    {parsed parsed' : Except ParseFailure (List Value)} {legs legs' : List Leg} {r r' : Record}
    (h : Alike i th R w w' run run' (i.beginning call request e parsed).2
      (i.beginning call' request e parsed').2) (hparsed : SameValues parsed parsed')
    (hlegs : Legs i th w run.1 run.2 legs r) (hlegs' : Legs i th w' run'.1 run'.2 legs' r') :
    filtersAsked legs' = filtersAsked legs ∧ handlerRuns legs' = handlerRuns legs := by
  rw [filtersAsked_eq, filtersAsked_eq, handlerRuns_eq, handlerRuns_eq, h.logged hlegs,
    h.logged' hlegs', questions_beginning, questions_beginning]
  exact ⟨rfl, invocations_beginning_congr rfl rfl hparsed⟩

/-- **Aliases are transparent.**  Let a command be found by another word as by its own name, and
let the same text stand behind either word.  Either line comes to a record, and the call by the name
can be taken up wherever the call by the other word is.  Then the same filters are asked with the
same requests, the handler gets equal arguments with the name of the command, and the records agree
in argument text, success and result.

The worlds of the two calls are the same but for the order in which literals of the text are
converted, which nothing settles.  If that is one order, then the records differ in the word alone,
and agree in failure.  In another order, and with a built-in strategy, they differ in nothing else
than which literal they name where literals do not fit. -/
theorem aliases_are_transparent (i : Interpreter) (th : Thread) (n : Nat) (console : Console)
    (w : World) (hn : n < w.sessions.sessions.length) (c : Entry) (hc : c.isCommand = true)
    (other text : String) (hother : i.registry.lookup other = some c)
    (hname : i.registry.lookup c.name = some c)
    (hword : other ≠ "" ∧ ∀ ch ∈ other.toList, isBlank ch = false)
    (hown : c.name ≠ "" ∧ ∀ ch ∈ c.name.toList, isBlank ch = false)
    (htext : ∀ ch, text.toList.head? = some ch → isBlank ch = true)
    (order : TableOrder) (horder : order = w.order ∨ i.ParsesBuiltin c) :
    let run := w.dispatch i th n (other ++ text) console
    let run' := (w.inOrder order).dispatch i th n (c.name ++ text) console
    (∃ legs r, Legs i th w run.1 run.2 legs r) ∧
      ∀ legs r, Legs i th w run.1 run.2 legs r →
        r.command = other ∧
        (∃ legs' r', Legs i th (w.inOrder order) run'.1 run'.2 legs' r' ∧ AtOnce legs legs') ∧
        ∀ legs' r', Legs i th (w.inOrder order) run'.1 run'.2 legs' r' → AtOnce legs legs' →
          filtersAsked legs' = filtersAsked legs ∧ handlerRuns legs' = handlerRuns legs ∧
          (∀ args ∈ handlerRuns legs, args.command = c.name) ∧
          r'.rawArgs = r.rawArgs ∧ r'.success = r.success ∧ r'.result = r.result ∧
          (order = w.order → r' = { r with command := c.name } ∧ r'.failure? = r.failure?) ∧
          { r with command := c.name }.SameButForBlame i.coercions c.parameters r' := by
  intro run run'
  have hcommand : i.registry.command? other = some c := Option.filter_eq_some_iff.2 ⟨hother, hc⟩
  have hcommand' : i.registry.command? c.name = some c := Option.filter_eq_some_iff.2 ⟨hname, hc⟩
  have hfind : i.registry.find other = c := by rw [Registry.find, hcommand, Option.getD_some]
  have hfind' : i.registry.find c.name = c := by rw [Registry.find, hcommand', Option.getD_some]
  obtain ⟨rest, hsplit⟩ := exists_splitCommand_append htext
  have hleft := hsplit other hword.1 hword.2
  have hright := hsplit c.name hown.1 hown.2
  have halike := alike_dispatch (i := i) (.byWord c.name) th console order hn hleft hright rfl
    (by simp only [newCall, hcommand, hcommand', Relabeling.byWord]) (hfind'.trans hfind.symm)
    (by simp only [Registry.canonicalName, hcommand, hcommand'])
    (i.sameValues_parse (hfind.symm ▸ horder) _ console)
  rw [hfind] at halike
  refine ⟨halike.ends, fun legs r h => ?_⟩
  obtain ⟨-, htyped, hargs, -⟩ := legs_dispatch console hn hleft h
  refine ⟨htyped, halike.follows legs r h, fun legs' r' h' htaken => ?_⟩
  have hrelates := halike.agree h h' htaken
  have hsame := hrelates.sameButForBlame horder hargs
  obtain ⟨hraw, hsuccess, hresult⟩ := hsame.agree
  obtain ⟨hfilters, hhandler⟩ := halike.runs_eq (i.sameValues_parse horder _ console) h h'
  refine ⟨hfilters, hhandler, ?_, hraw, hsuccess, hresult, fun h => ?_, hsame⟩
  · intro args hrun
    rw [handlerRuns_eq, halike.logged h] at hrun
    rw [command_of_mem_beginning hrun, Registry.canonicalName, hcommand]
  · subst h
    rw [hrelates.eq rfl]
    exact ⟨rfl, rfl⟩

/-- A listing that takes two collections. -/
def limited : Entry := { listing with
  strategy := Strategy.collectionName
  parameters := [.flag "sizes" (.list .int), .flag "limits" (.map .int)] }

/-- A line that succeeds, and one with two literals that do not fit, in two orders: there all is the
same but which of them is named. -/
theorem listing_by_either_word :
    let th : Thread := .caller 0
    let w := ((World.initial .default 0 1).locate (.named "a")).2
    (let i : Interpreter :=
        ⟨.default, .ofEntries Strategy.builtin [nothingHidden, listing], .builtin, []⟩
      let run := w.dispatch i th 0 ("ls" ++ " x") .terminal
      let run' := w.dispatch i th 0 ("list" ++ " x") .terminal
      ∃ r r' : Record, run.1 = .finished r ∧ run'.1 = .finished r' ∧ r.command = "ls" ∧
        r' = { r with command := "list" } ∧
        filtersAsked [⟨w, run'.2⟩] = filtersAsked [⟨w, run.2⟩] ∧
        handlerRuns [⟨w, run'.2⟩] = handlerRuns [⟨w, run.2⟩] ∧
        handlerRuns [⟨w, run.2⟩] = [⟨"list", []⟩]) ∧
    let i : Interpreter :=
      ⟨.default, .ofEntries Strategy.builtin [nothingHidden, limited], .builtin, []⟩
    let w' := w.inOrder (.first 1)
    let run := w.dispatch i th 0 ("ls" ++ " [a] \x7bb:c\x7d") .terminal
    let run' := w'.dispatch i th 0 ("list" ++ " [a] \x7bb:c\x7d") .terminal
    ∃ r r' : Record, run.1 = .finished r ∧ run'.1 = .finished r' ∧
      filtersAsked [⟨w', run'.2⟩] = filtersAsked [⟨w, run.2⟩] ∧
      { r with command := "list" }.SameButForBlame i.coercions limited.parameters r' ∧
      r.failure? = some (.parse (.coercion "--sizes" (.invalid "int" "a"))) ∧
      r'.failure? = some (.parse (.coercion "--limits" (.invalid "int" "c"))) := by
  intro th w
  constructor
  · intro i run run'
    have hblank : ∀ ch, " x".toList.head? = some ch → isBlank ch = true := by
      intro ch hch
      cases hch
      rfl
    obtain ⟨-, hall⟩ := aliases_are_transparent i th 0 .terminal w (by decide) listing rfl "ls"
      " x" rfl rfl ⟨by decide, not_blank_of_all rfl⟩ ⟨by decide, not_blank_of_all rfl⟩ hblank
      w.order (Or.inl rfl)
    obtain ⟨htyped, -, hsame⟩ := hall _ _ (.last w run.2 ⟨"ls", "x", 0, 0, .ok .null⟩)
    obtain ⟨hfilters, hhandler, -, -, -, -, hown, -⟩ :=
      hsame _ _ (.last w run'.2 ⟨"list", "x", 0, 0, .ok .null⟩) rfl
    obtain ⟨hrecord, -⟩ := hown rfl
    exact ⟨_, _, rfl, rfl, htyped, hrecord, hfilters, hhandler, rfl⟩
  · intro i w' run run'
    have hblank : ∀ ch, " [a] \x7bb:c\x7d".toList.head? = some ch → isBlank ch = true := by
      intro ch hch
      cases hch
      rfl
    have hbuiltin : i.ParsesBuiltin limited := fun s hs => ⟨_, Assoc.mem_of_get? hs⟩
    obtain ⟨-, hall⟩ := aliases_are_transparent i th 0 .terminal w (by decide) limited rfl "ls"
      " [a] \x7bb:c\x7d" rfl rfl ⟨by decide, not_blank_of_all rfl⟩
      ⟨by decide, not_blank_of_all rfl⟩ hblank (.first 1) (Or.inr hbuiltin)
    obtain ⟨-, -, hsame⟩ := hall _ _ (.last w run.2
      ⟨"ls", "[a] \x7bb:c\x7d", 0, 0, .error (.parse (.coercion "--sizes" (.invalid "int" "a")))⟩)
    obtain ⟨hfilters, -, -, -, -, -, -, hblame⟩ := hsame _ _ (.last w' run'.2 ⟨"list",
      "[a] \x7bb:c\x7d", 0, 0, .error (.parse (.coercion "--limits" (.invalid "int" "c")))⟩) rfl
    exact ⟨_, _, rfl, rfl, hfilters, hblame, rfl, rfl⟩

end World

end CommandShell
