import CommandShell.Proofs.Engine.FilterLog
import CommandShell.Proofs.Engine.History
import CommandShell.Proofs.Registry.Aliases
/-!
# Where the records of a history come from

A record in a history was pushed by hand, or it is that of a call of the session.  It holds the word
by which the command was called; a query compares that word, and not the name of the command.

    Underway P s               P holds of every call under way; what holds of calls when they begin
                               holds of them all along                       (underway_unfolds)
    Filed i s filings s'       a run that files each record with the call it is of
    every run files its records                                        (Unfolds.exists_filed)
    kept limit filings         the filed records that a history still has       (history_eq_kept)
    a query for a command finds the calls by its name and no calls by its aliases
                                                                  (query_finds_iff_called_by_name)
-/

namespace CommandShell

open World

/-! ## Calls under way -/

/-- Something holds of all calls that are under way, those of callers and those of jobs. -/
structure Scene.Underway (P : Call → Prop) (s : Scene) : Prop where
  callers : ∀ p ∈ s.waiting, P p.2.toCall
  jobs : ∀ r ∈ s.world.pool.running, ∀ inv, r.invocation = some inv → P inv.toCall

section

variable {i : Interpreter} {s s' : Scene} {deed : Deed} {run : List Moment} {now : Timestamp}
  {seed : Nat} {P : Call → Prop}

theorem Scene.Underway.act (hs : s.Underway P)
    (hnew : ∀ n typed rawArgs v, P (newCall i n typed rawArgs v)) (h : Act i s deed s') :
    s'.Underway P where
  callers p hp := by
    rcases h.waiting hp with ⟨q, hq, hcall⟩ | ⟨c, typed, rawArgs, v, hcall, -⟩
    · rw [hcall]
      exact hs.callers q hq
    · rw [hcall]
      exact hnew _ typed rawArgs v
  jobs r hr inv hinv := by
    rcases h.turn.running hr hinv with ⟨q, hq, inv', hinv', hcall⟩ | ⟨typed, rawArgs, v, hcall⟩
    · rw [hcall]
      exact hs.jobs q hq inv' hinv'
    · rw [hcall]
      exact hnew _ typed rawArgs v

/-- What holds of every call when it begins holds of all calls under way. -/
theorem underway_unfolds (hnew : ∀ n typed rawArgs v, P (newCall i n typed rawArgs v))
    (h : Unfolds i (.initial i now seed) run s) : s.Underway P := by
  induction h with
  | none =>
    exact ⟨fun _ hp => absurd hp List.not_mem_nil, fun _ hr => absurd hr List.not_mem_nil⟩
  | act _ hact ih => exact ih.act hnew hact

end

/-! ## Filing -/

/-- What is filed in a history: the record of a call with that call, or what somebody does to the
history. -/
inductive Filing where
  | call (call : Call) (r : Record)
  | edit (e : HistoryEdit)

/-- What a filing is to the history. -/
def Filing.toEdit : Filing → HistoryEdit
  | call _ r => .push r
  | edit e => e

/-- An act, and what it files in the history of the session of which number. -/
inductive Files (i : Interpreter) : Scene → Option (Nat × Filing) → Scene → Prop
  | close {s : Scene} {before after : List (Thread × Invocation)} {th : Thread}
      {inv : Invocation} {outcome : Except Failure Json}
      (hwaiting : s.waiting = before ++ (th, inv) :: after)
      (hscript : inv.script = .done outcome) :
      Files i s (some (inv.session, .call inv.toCall (inv.record s.world.now outcome)))
        ⟨(s.world.finishCall inv outcome).2, before ++ after⟩
  | finish {s : Scene} {r : Running} {inv : Invocation} {outcome : Except Failure Json}
      (hr : r ∈ s.world.pool.running) (hinv : r.invocation = some inv)
      (hscript : inv.script = .done outcome) :
      Files i s (some (inv.session, .call inv.toCall (inv.record s.world.now outcome)))
        ⟨s.world.finishJob r inv outcome, s.waiting⟩
  | edit {s : Scene} {n : Nat} (hn : n < s.world.sessions.sessions.length) (e : SessionEdit) :
      Files i s (e.historyEdit?.map fun edit => (n, .edit edit))
        ⟨s.world.modifySession n e.apply, s.waiting⟩
  | aside {s s' : Scene} (h : Notes i s none s') : Files i s none s'

/-- A run, and all that it filed, in order. -/
inductive Filed (i : Interpreter) (s : Scene) : List (Nat × Filing) → Scene → Prop
  | none : Filed i s [] s
  | act {filings : List (Nat × Filing)} {s' s'' : Scene} {filing : Option (Nat × Filing)}
      (h : Filed i s filings s') (hact : Files i s' filing s'') :
      Filed i s (filings ++ filing.toList) s''

/-- What was filed in the history of one session. -/
def filingsOf (n : Nat) (filings : List (Nat × Filing)) : List Filing :=
  (filings.filter fun p => p.1 = n).map Prod.snd

/-- A record in a history, with its call if it is that of one. -/
structure Shelved where
  call? : Option Call
  record : Record

namespace Filing

/-- The records since the last reset, with one filing more. -/
def extend (shelf : List Shelved) : Filing → List Shelved
  | call c r => shelf ++ [⟨some c, r⟩]
  | edit (.push r) => shelf ++ [⟨none, r⟩]
  | edit .reset => []

end Filing

/-- The records since the last reset, with their calls. -/
def shelf (filings : List Filing) : List Shelved := filings.foldl Filing.extend []

/-- The newest of them, as many as the limit allows. -/
def kept (limit : Nat) (filings : List Filing) : List Shelved :=
  (shelf filings).drop ((shelf filings).length - limit)

variable {i : Interpreter} {s s' : Scene} {note : Option (Nat × HistoryEdit)}
  {filing : Option (Nat × Filing)} {filings : List (Nat × Filing)} {run : List Moment}
  {now : Timestamp} {seed n : Nat} {x : Shelved} {call : Call}

/-- A filing notes something without its call. -/
def noted (filing : Nat × Filing) : Nat × HistoryEdit := (filing.1, filing.2.toEdit)

theorem Files.notes (h : Files i s filing s') : Notes i s (filing.map noted) s' := by
  cases h with
  | close hwaiting hscript => exact .close hwaiting hscript
  | finish hr hinv hscript => exact .finish hr hinv hscript
  | edit hn e =>
    have hnote := Notes.edit (i := i) hn e
    rw [Option.map_map]
    exact hnote
  | aside h => exact h

theorem Notes.exists_files (h : Notes i s note s') : ∃ filing, Files i s filing s' := by
  cases h with
  | close hwaiting hscript => exact ⟨_, .close hwaiting hscript⟩
  | finish hr hinv hscript => exact ⟨_, .finish hr hinv hscript⟩
  | edit hn e => exact ⟨_, .edit hn e⟩
  | deed h hdeed hends => exact ⟨_, .aside (.deed h hdeed hends)⟩
  | locate key => exact ⟨_, .aside (.locate s key)⟩
  | aside h hsame => exact ⟨_, .aside (.aside h hsame)⟩

theorem Filed.chronicle (h : Filed i s filings s') : Chronicle i s (filings.map noted) s' := by
  induction h with
  | none => exact .none
  | @act filings _ _ filing _ hact ih =>
    have hnext := ih.act hact.notes
    rw [List.map_append]
    cases filing <;> exact hnext

/-- Every run files its records. -/
theorem Unfolds.exists_filed (h : Unfolds i s run s') : ∃ filings, Filed i s filings s' := by
  obtain ⟨notes, hnotes⟩ := h.exists_chronicle
  clear h
  induction hnotes with
  | none => exact ⟨[], .none⟩
  | act _ hact ih =>
    obtain ⟨filings, hfilings⟩ := ih
    obtain ⟨filing, hfiling⟩ := hact.exists_files
    exact ⟨_, hfilings.act hfiling⟩

/-! ## The shelf -/

theorem shelf_concat (filings : List Filing) (f : Filing) :
    shelf (filings ++ [f]) = f.extend (shelf filings) := by
  rw [shelf, List.foldl_append]
  rfl

theorem map_record_shelf (filings : List Filing) :
    (shelf filings).map Shelved.record = pushed (filings.map Filing.toEdit) := by
  induction filings using List.reverseRecOn with
  | nil => rfl
  | append_singleton filings f ih =>
    rw [shelf_concat, List.map_append, List.map_singleton, pushed_concat, ← ih]
    cases f with
    | call c r => exact List.map_append
    | edit e =>
      cases e with
      | push r => exact List.map_append
      | reset => rfl

/-- A record with a call was filed with it. -/
theorem mem_of_mem_shelf {filings : List Filing} (hx : x ∈ shelf filings)
    (hcall : x.call? = some call) : .call call x.record ∈ filings := by
  induction filings using List.reverseRecOn with
  | nil => cases hx
  | append_singleton filings f ih =>
    rw [shelf_concat] at hx
    cases f with
    | call c r =>
      rcases List.mem_append.1 hx with hx | hx
      · exact List.mem_append_left _ (ih hx)
      · rw [List.mem_singleton.1 hx] at hcall ⊢
        rw [← Option.some.inj hcall]
        exact List.mem_append_right _ (List.mem_singleton_self _)
    | edit e =>
      cases e with
      | push r =>
        rcases List.mem_append.1 hx with hx | hx
        · exact List.mem_append_left _ (ih hx)
        · rw [List.mem_singleton.1 hx] at hcall
          cases hcall
      | reset => cases hx

theorem mem_filingsOf {f : Filing} : f ∈ filingsOf n filings ↔ (n, f) ∈ filings := by
  unfold filingsOf
  simp only [List.mem_map, List.mem_filter, decide_eq_true_eq]
  constructor
  · rintro ⟨⟨m, g⟩, ⟨hp, rfl⟩, rfl⟩
    exact hp
  · intro hp
    exact ⟨(n, f), ⟨hp, rfl⟩, rfl⟩

theorem editsOf_map_noted (n : Nat) (filings : List (Nat × Filing)) :
    editsOf n (filings.map noted) = (filingsOf n filings).map Filing.toEdit := by
  rw [editsOf, filingsOf, List.filter_map, List.map_map, List.map_map]
  rfl

/-! ## In runs -/

/-- A history is what is kept of what was filed in it. -/
theorem history_eq_kept (h : Filed i (.initial i now seed) filings s) (n : Nat) :
    (s.world.session n).history =
      (kept i.settings.historyLimit.toNat (filingsOf n filings)).map Shelved.record := by
  have hretains := (recorded_chronicle h.chronicle n).1
  rw [editsOf_map_noted, ← map_record_shelf] at hretains
  rw [kept, List.map_drop, ← List.length_map Shelved.record]
  exact hretains.eq_drop

/-- What is filed with a call is its record, in its session, and the call leads to the command that
its word leads to. -/
theorem filed_calls (h : Filed i (.initial i now seed) filings s) {r : Record}
    (hfiled : (n, .call call r) ∈ filings) :
    call.session = n ∧ call.entry? = i.registry.command? call.typed ∧
      ∃ later outcome, r = call.record later outcome := by
  have hnew (n : Nat) (typed rawArgs : String) (v : World) :
      Call.entry? (newCall i n typed rawArgs v) = i.registry.command? typed := rfl
  induction h with
  | none => cases hfiled
  | act hbefore hact ih =>
    rcases List.mem_append.1 hfiled with hfiled | hfiled
    · exact ih hfiled
    · obtain ⟨run, hrun⟩ := hbefore.chronicle.exists_unfolds
      have hunderway := underway_unfolds
        (P := fun c => c.entry? = i.registry.command? c.typed) hnew hrun
      rw [Option.mem_toList] at hfiled
      cases hact with
      | @close before after th inv outcome hwaiting hscript =>
        cases hfiled
        refine ⟨rfl, hunderway.callers (th, inv) ?_, _, _, rfl⟩
        rw [hwaiting]
        exact List.mem_append_right _ List.mem_cons_self
      | finish hr hinv hscript =>
        cases hfiled
        exact ⟨rfl, hunderway.jobs _ hr _ hinv, _, _, rfl⟩
      | edit hn e =>
        obtain ⟨edit, -, hedit⟩ := Option.map_eq_some_iff.1 hfiled
        cases hedit
      | aside h => cases hfiled

/-- **A query for a command finds the calls by its name and no others.**  In every run, whatever
was registered and however calls, jobs, edits and resets are interleaved, a history holds what is
kept of the records that were filed in it, and a query for the name of a command without a limit
shows those of them, newest first, that hold this name.  The record of a call holds the word by
which the command was called, which is its name or one of its aliases; the query finds the record
exactly if it is the name.  So it finds all records of calls of the command that the history has if
and only if all these calls were made by the name. -/
theorem query_finds_iff_called_by_name (i : Interpreter) (strategies : StrategySet)
    (es : List Entry) (hi : i.registry = .ofEntries strategies es) (now : Timestamp) (seed : Nat)
    (filings : List (Nat × Filing)) (s : Scene) (h : Filed i (.initial i now seed) filings s)
    (n : Nat) (c : Entry) (fields : List String) :
    let q : HistoryQuery := ⟨some c.name, none, fields⟩
    let shelved := kept i.settings.historyLimit.toNat (filingsOf n filings)
    let found := shelved.filter fun x => x.record.command = c.name
    (s.world.session n).history = shelved.map Shelved.record ∧
      q.run (s.world.session n).history = (found.map fun x => q.project x.record).reverse ∧
      (∀ x ∈ shelved, ∀ call, x.call? = some call →
        call.session = n ∧ call.entry? = i.registry.command? call.typed ∧
        (∃ later outcome, x.record = call.record later outcome) ∧
        (call.entry? = some c → (call.typed = c.name ∨ call.typed ∈ c.aliases) ∧
          (x ∈ found ↔ call.typed = c.name))) ∧
      ((∀ x ∈ shelved, ∀ call, x.call? = some call → call.entry? = some c → x ∈ found) ↔
        ∀ x ∈ shelved, ∀ call, x.call? = some call → call.entry? = some c →
          call.typed = c.name) := by
  intro q shelved found
  have hhistory : (s.world.session n).history = shelved.map Shelved.record := history_eq_kept h n
  have hfiled (x : Shelved) (hx : x ∈ shelved) (call : Call) (hcall : x.call? = some call) :
      call.session = n ∧ call.entry? = i.registry.command? call.typed ∧
        ∃ later outcome, x.record = call.record later outcome :=
    filed_calls h (mem_filingsOf.1 (mem_of_mem_shelf (List.mem_of_mem_drop hx) hcall))
  have hfound (x : Shelved) (hx : x ∈ shelved) (call : Call) (hcall : x.call? = some call) :
      x ∈ found ↔ call.typed = c.name := by
    obtain ⟨-, -, later, outcome, hrecord⟩ := hfiled x hx call hcall
    rw [List.mem_filter, hrecord, decide_eq_true_eq]
    exact and_iff_right hx
  refine ⟨hhistory, ?_, fun x hx call hcall => ?_, ?_⟩
  · have hwants : (q.wants ∘ Shelved.record) = fun x => decide (x.record.command = c.name) := by
      funext x
      exact decide_eq_decide.2 eq_comm
    rw [hhistory, HistoryQuery.run, List.filter_reverse, List.filter_map, hwants, List.map_reverse,
      List.map_map]
    rfl
  · obtain ⟨hsession, hentry, hrecord⟩ := hfiled x hx call hcall
    refine ⟨hsession, hentry, hrecord, fun hc => ⟨?_, hfound x hx call hcall⟩⟩
    rw [hentry] at hc
    have hcoherent : i.registry.Coherent := by
      rw [hi]
      exact Registry.coherent_ofEntries strategies es
    obtain ⟨hlookup, -⟩ := Registry.command?_eq_some_iff.1 hc
    exact (hcoherent.lookup_cases hlookup).2.imp_left Eq.symm
  · constructor
    · intro hall x hx call hcall hc
      exact (hfound x hx call hcall).1 (hall x hx call hcall hc)
    · intro hall x hx call hcall hc
      exact (hfound x hx call hcall).2 (hall x hx call hcall hc)

/-- A call by the name of a command and one by its alias: the query finds the first of them. -/
theorem second_listing_not_found :
    let i : Interpreter := ⟨.default, .ofEntries Strategy.builtin [listing], .builtin, []⟩
    let byName : Call := ⟨0, "list", some listing, "x", 0⟩
    let byAlias : Call := ⟨0, "ls", some listing, "y", 0⟩
    let r : Record := ⟨"list", "x", 0, 0, .ok .null⟩
    let r' : Record := ⟨"ls", "y", 0, 0, .ok .null⟩
    let filings : List (Nat × Filing) := [(0, .call byName r), (0, .call byAlias r')]
    let q : HistoryQuery := ⟨some "list", none, ["raw_args"]⟩
    ∃ s, Filed i (.initial i 0 1) filings s ∧ (s.world.session 0).history = [r, r'] ∧
      q.run (s.world.session 0).history = [.fields [("raw_args", .string "x")]] ∧
      ¬ ∀ x ∈ kept 100 (filingsOf 0 filings), ∀ call, x.call? = some call →
        call.entry? = some listing → call.typed = "list" := by
  intro i byName byAlias r r' filings q
  have hstart : Filed i (.initial i 0 1) [] (.initial i 0 1) := .none
  have hcalled := hstart.act (.aside (.deed (.call (c := 0)
    (show World.beginLine i _ "list x" .terminal _ = some (⟨byName, .done (.ok .null)⟩, _)
      from rfl)) (by simp) (by simp)))
  have hclosed := hcalled.act (.close (show _ = [] ++ (_, _) :: [] from rfl) rfl)
  have hcalled' := hclosed.act (.aside (.deed (.call (c := 0)
    (show World.beginLine i _ "ls y" .terminal _ = some (⟨byAlias, .done (.ok .null)⟩, _)
      from rfl)) (by simp) (by simp)))
  have hclosed' := hcalled'.act (.close (show _ = [] ++ (_, _) :: [] from rfl) rfl)
  have h : Filed i (.initial i 0 1) filings _ := hclosed'
  obtain ⟨hhistory, hrows, -, hiff⟩ := query_finds_iff_called_by_name i Strategy.builtin [listing]
    rfl 0 1 filings _ h 0 listing ["raw_args"]
  refine ⟨_, h, hhistory, hrows, fun hall => ?_⟩
  have hsecond := hiff.2 hall ⟨some byAlias, r'⟩
    (List.mem_cons_of_mem _ (List.mem_singleton_self _)) byAlias rfl rfl
  have hname : "ls" = "list" := of_decide_eq_true (List.mem_filter.1 hsecond).2
  exact absurd hname (by decide)

/-- A call by an alias runs the command, and a query for the command does not find its record. -/
theorem alias_call_not_found :
    let i : Interpreter := ⟨.default, .ofEntries Strategy.builtin [listing], .builtin, []⟩
    let byAlias : Call := ⟨0, "ls", some listing, "x", 0⟩
    let r : Record := ⟨"ls", "x", 0, 0, .ok .null⟩
    let q : HistoryQuery := ⟨some "list", none, ["raw_args"]⟩
    i.registry.lookup "list" = some listing ∧ byAlias.entry? = some listing ∧
      ∃ s, Filed i (.initial i 0 1) [(0, .call byAlias r)] s ∧
        (s.world.session 0).history = [r] ∧ q.run (s.world.session 0).history = [] := by
  intro i byAlias r q
  have hbegin : ((Scene.initial i 0 1).world.current (.caller 0)).2.beginLine i
      ((Scene.initial i 0 1).world.current (.caller 0)).1 "ls x" .terminal =
        some (⟨byAlias, .done (.ok .null)⟩, _) := rfl
  have hcalled := Filed.none.act (.aside (.deed (.call hbegin) (by simp) (by simp)))
  have hclosed := hcalled.act (.close (show _ = [] ++ (_, _) :: [] from rfl) rfl)
  exact ⟨rfl, rfl, _, hclosed, rfl, rfl⟩

end CommandShell
