import CommandShell.Proofs.Json.Pretty
import CommandShell.Settings
/-!
# Settings are usable, and saving keeps them

A file holds each field once, under its name.  It is read back field by field over the default,
whatever the values are; then the settings are normalized, which leaves usable ones alone.
Settings are usable wherever they come from, and every change leaves them so.

    Usable s                 s runs at least one job and keeps at least one line
    made origin changes      what an interpreter is given
    s.normalize = s ↔ s.Usable                                        (normalize_eq_self_iff)
    ofText? (saved s) = some s                                                 (ofText?_saved)
    made origin changes is usable, and loading what was saved gives it
                                                               (made_usable_and_load_saved)
-/

namespace CommandShell.Settings

open CommandShell.Json

/-! ## Usable settings -/

/-- At least one background job may run, and at least one line of its output is kept. -/
structure Usable (s : Settings) : Prop where
  workers : 1 ≤ s.workers
  outputLimit : 1 ≤ s.outputLimit

theorem one_le_iff (n : UInt64) : 1 ≤ n ↔ n ≠ 0 := by
  rw [UInt64.le_iff_toNat_le, ne_eq, ← UInt64.toNat_inj]
  exact Nat.one_le_iff_ne_zero

theorem usable_normalize (s : Settings) : s.normalize.Usable := by
  have hraised (n : UInt64) : 1 ≤ if n = 0 then 1 else n := by
    split
    · exact UInt64.le_refl 1
    · next hn => exact (one_le_iff n).2 hn
  exact ⟨hraised s.workers, hraised s.outputLimit⟩

/-- Normalizing changes just what is not usable. -/
theorem normalize_eq_self_iff (s : Settings) : s.normalize = s ↔ s.Usable := by
  constructor
  · intro h
    rw [← h]
    exact usable_normalize s
  · intro h
    rw [normalize, if_neg ((one_le_iff _).1 h.workers), if_neg ((one_le_iff _).1 h.outputLimit)]

/-! ## Reading what was written -/

theorem Field.named?_name (f : Field) : Field.named? f.name = some f := by
  cases f <;> rfl

/-- A number of 64 bits is read back, the greatest included. -/
theorem wordOf?_ofNat (n : UInt64) : wordOf? (documentOf (Json.ofNat n.toNat)) = some n := by
  have hvalue := (value?_integer_iff n.toNat).2 ⟨by omega, Int.ofNat_lt.2 n.toNat_lt⟩
  show wordOf? (numeralOf (integerText n.toNat)) = _
  rw [numeralOf, read?_integerText, Option.map_some, Option.getD_some, wordOf?, hvalue]
  dsimp only
  rw [if_pos (Int.natCast_nonneg n.toNat), Int.toNat_natCast]
  exact congrArg some UInt64.ofNat_toNat

/-- The settings `base` with one field of `s`. -/
def takeField (s base : Settings) : Field → Settings
  | .historyLimit => { base with historyLimit := s.historyLimit }
  | .workers => { base with workers := s.workers }
  | .showDetail => { base with showDetail := s.showDetail }
  | .outputLimit => { base with outputLimit := s.outputLimit }

/-- The settings made of all fields of `s` are `s`. -/
theorem foldl_takeField (s base : Settings) : Field.all.foldl s.takeField base = s := rfl

theorem set?_fieldValue (s base : Settings) (f : Field) :
    base.set? (documentOf (s.fieldValue f)) f = some (s.takeField base f) := by
  cases f with
  | historyLimit => exact congrArg (Option.map _) (wordOf?_ofNat s.historyLimit)
  | workers => exact congrArg (Option.map _) (wordOf?_ofNat s.workers)
  | showDetail => rfl
  | outputLimit => exact congrArg (Option.map _) (wordOf?_ofNat s.outputLimit)

/-- Fields that come once are read one after the other. -/
theorem setNamed?_fieldValue (s : Settings) {fs seen : List Field} (hfs : fs.Nodup)
    (hseen : ∀ f ∈ fs, f ∉ seen) (base : Settings) :
    setNamed? seen base (namedOf (fs.map fun f => (f.name, s.fieldValue f))) =
      some (fs.foldl s.takeField base) := by
  induction fs generalizing seen base with
  | nil => rfl
  | cons f fs ih =>
    obtain ⟨hf, hrest⟩ := List.nodup_cons.1 hfs
    have hnext : ∀ g ∈ fs, g ∉ f :: seen := by
      intro g hg hmem
      rcases List.mem_cons.1 hmem with rfl | hmem
      · exact hf hg
      · exact hseen g (List.mem_cons_of_mem f hg) hmem
    rw [List.map_cons, namedOf, setNamed?, stringOf?_pieces]
    dsimp only
    rw [Field.named?_name]
    dsimp only
    rw [if_neg (hseen f List.mem_cons_self), set?_fieldValue, Option.bind_some, ih hrest hnext,
      List.foldl_cons]

/-- **What is saved is read back as it stands**, usable or not. -/
theorem ofText?_saved (s : Settings) : ofText? (saved s) = some s := by
  rw [ofText?, saved, pretty, String.toList_ofList, documentParse?_prettyText, Option.bind_some]
  have hfields : ofDocument? (documentOf (Json.fields (Field.all.map fun f =>
      (f.name, s.fieldValue f)))) = some (Field.all.foldl s.takeField default) :=
    setNamed?_fieldValue s (by decide) (fun _ _ => List.not_mem_nil) default
  rw [hfields, foldl_takeField]

theorem load_saved (s : Settings) : load (some (saved s)) = s.normalize := by
  rw [load, Option.bind_some, ofText?_saved]

/-! ## Where settings come from -/

/-- Settings that nothing has been changed in yet. -/
inductive Origin where
  | default
  /-- Read from a file with this content, or from none. -/
  | file (content : Option String)
  /-- Any settings, overridden by the environment. -/
  | overridden (s : Settings) (env : Environment)

def Origin.settings : Origin → Settings
  | .default => Settings.default
  | .file content => load content
  | .overridden s env => s.overridden env

inductive Change where
  | historyLimit (n : UInt64)
  | workers (n : UInt64)
  | detail (shown : Bool)
  | environment (env : Environment)

def Change.apply (s : Settings) : Change → Settings
  | .historyLimit n => s.withHistoryLimit n
  | .workers n => s.withWorkers n
  | .detail shown => s.withDetail shown
  | .environment env => s.overridden env

/-- The settings after the changes, one after the other. -/
def made (origin : Origin) (changes : List Change) : Settings :=
  changes.foldl Change.apply origin.settings

theorem Origin.usable_settings (origin : Origin) : origin.settings.Usable := by
  cases origin with
  | default => exact ⟨by decide, by decide⟩
  | file content =>
    show (load content).Usable
    unfold load
    split
    · exact usable_normalize _
    · exact ⟨by decide, by decide⟩
  | overridden s env => exact usable_normalize _

/-- Whether details are shown does not matter; every other change normalizes. -/
theorem Usable.apply {s : Settings} (h : s.Usable) (c : Change) : (c.apply s).Usable := by
  cases c with
  | historyLimit n => exact usable_normalize _
  | workers n => exact usable_normalize _
  | detail shown => exact ⟨h.workers, h.outputLimit⟩
  | environment env => exact usable_normalize _

theorem usable_made (origin : Origin) (changes : List Change) : (made origin changes).Usable :=
  List.foldlRecOn changes Change.apply origin.usable_settings fun _ h c _ => h.apply c

/-- **Settings are always usable, and loading what was saved gives the same settings.** -/
theorem made_usable_and_load_saved (origin : Origin) (changes : List Change) :
    1 ≤ (made origin changes).workers ∧ 1 ≤ (made origin changes).outputLimit ∧
      load (some (saved (made origin changes))) = made origin changes := by
  have h := usable_made origin changes
  exact ⟨h.workers, h.outputLimit, by rw [load_saved, (normalize_eq_self_iff _).2 h]⟩

end CommandShell.Settings
